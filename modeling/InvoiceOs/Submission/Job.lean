import InvoiceOs.Invoice.Worker
import InvoiceOs.Submission.Keys

/-! The submission tables of one workspace: the jobs, River's own job rows, the evidence and
the audit rows, beside the workspace tables of the invoices and of the idempotency keys. -/

namespace InvoiceOs.Submission

open Lib Invoice

inductive JobState where
  | queued
  | submitting
  | pending
  | accepted
  | rejected
  | failed
  | deadLettered
  | cancelled
  deriving DecidableEq, Repr

def isTerminalJobState : JobState → Bool
  | .accepted => true
  | .rejected => true
  | .failed => true
  | .deadLettered => true
  | .cancelled => true
  | .queued => false
  | .submitting => false
  | .pending => false

structure Job where
  invoiceID : Uuid
  idempotencyKey : String
  state : JobState := .queued
  attempts : ℕ := 0
  pollRef : Option String := none
  nextPollAt : Option ℕ := none
  lastError : Option String := none
  riverJobID : Option ℕ := none
  createdAt : ℕ
  deriving DecidableEq

structure PollArgs where
  invoiceID : Uuid
  submissionJobID : Uuid
  sequence : ℕ
  deriving DecidableEq

inductive RiverArgs where
  | submit (args : SubmitArgs)
  | poll (args : PollArgs)
  deriving DecidableEq

/-- `waiting` is every state River fetches from, sooner or later. -/
inductive RiverState where
  | waiting
  | running
  | completed
  | cancelled
  | discarded
  deriving DecidableEq, Repr

def RiverState.live : RiverState → Bool
  | .waiting => true
  | .running => true
  | .completed => false
  | .cancelled => false
  | .discarded => false

structure RiverJob where
  args : RiverArgs
  state : RiverState := .waiting
  deriving DecidableEq

inductive Operation where
  | submit
  | poll
  deriving DecidableEq, Repr

inductive Outcome where
  | sent
  | blockedRateLimit
  | skippedAlreadyCleared
  | transformFailed
  | connectionFailed
  deriving DecidableEq, Repr

structure Exchange where
  jobID : Uuid
  invoiceID : Uuid
  operation : Operation
  outcome : Outcome
  attempt : ℕ
  deriving DecidableEq

inductive AuditOutcome where
  | accepted (reference : String)
  | rejected
  | failed (kind : FailureKind)
  deriving DecidableEq

structure AuditRow where
  invoiceID : Uuid
  jobID : Uuid
  outcome : AuditOutcome
  invoiceNumber : String
  deriving DecidableEq

inductive JobErr where
  | invoice (e : Err)
  | jobNotFound
  | jobState
  | acknowledged
  | workspaceLocked
  | riverRunning
  | riverDuplicate
  | notResendable
  | resendBusy
  | uniqueViolation
  | checkViolation
  deriving DecidableEq

structure Store where
  db : Db
  jobs : Table Uuid Job := ∅
  river : Table ℕ RiverJob := ∅
  nextRiverID : ℕ := 1
  workspaceLocked : Bool := false
  exchanges : List Exchange := []
  audit : List AuditRow := []

namespace Store

def used (st : Store) (key : String) : Bool := st.db.outboxKeys.contains key

def useKey (st : Store) (key : String) : Store :=
  { st with db := { st.db with outboxKeys := st.db.outboxKeys ++ [key] } }

/-- River's `InsertTx`: the row takes the next id of the sequence. -/
def insertRiver (st : Store) (args : RiverArgs) : Store :=
  { st with
    river := st.river.set st.nextRiverID { args := args }
    nextRiverID := st.nextRiverID + 1 }

/-- `EnqueueTx`: a key used before inserts neither the key nor the job. -/
def enqueueTx (st : Store) (key : String) (args : RiverArgs) : Store :=
  if st.used key then st else (st.useKey key).insertRiver args

/-- `OncePerJob`: the marker and the effect stand or fall together. -/
def oncePerJob (st : Store) (riverID : ℕ) (fn : Store → Except JobErr Store) :
    Except JobErr Store :=
  if st.used (markerKey riverID) then pure st else fn (st.useKey (markerKey riverID))

def recordExchange (st : Store) (ex : Exchange) : Store :=
  { st with exchanges := st.exchanges ++ [ex] }

def recordAudit (st : Store) (row : AuditRow) : Store := { st with audit := st.audit ++ [row] }

def onInvoices (st : Store) (f : Db → Except Err Db) : Except JobErr Store :=
  match f st.db with
  | .ok db => pure { st with db := db }
  | .error e => throw (.invoice e)

/-- `execJobUpdate`: no row affected is an error. -/
def execJobUpdate (st : Store) (jobID : Uuid) (f : Job → Job) : Except JobErr Store :=
  match st.jobs.get? jobID with
  | some job => pure { st with jobs := st.jobs.set jobID (f job) }
  | none => throw .jobNotFound

/-- `UNIQUE (tenant_id, idempotency_key)`: at most one row. -/
def jobByKey (st : Store) (key : String) : Option (Uuid × Job) :=
  st.jobs.rows.find? fun e => e.2.idempotencyKey == key

def invoiceHasSiblingAcceptedJob (st : Store) (invoiceID jobID : Uuid) : Bool :=
  st.jobs.rows.any fun e => e.2.invoiceID == invoiceID && e.2.state == .accepted && e.1 != jobID

def hasFiscalOutcome (st : Store) (invoiceID : Uuid) : Bool :=
  match st.db.invoices.get? invoiceID with
  | some r => r.irn.isSome
  | none => false

def alreadyCleared (st : Store) (invoiceID jobID : Uuid) : Bool :=
  st.invoiceHasSiblingAcceptedJob invoiceID jobID || st.hasFiscalOutcome invoiceID

/-- `InvoicePort.Number`, and the one fact of the canonical projection the worker keeps. -/
def number (st : Store) (invoiceID : Uuid) : Except JobErr String :=
  match st.db.invoices.get? invoiceID with
  | some r => pure r.header.invoiceNumber
  | none => throw (.invoice .notFound)

/-! ### The state writes of a job -/

def markJobSubmitting (st : Store) (jobID : Uuid) : Except JobErr Store :=
  st.execJobUpdate jobID fun j => { j with state := .submitting }

def markJobAlreadyCleared (st : Store) (jobID : Uuid) : Except JobErr Store :=
  st.execJobUpdate jobID fun j => { j with state := .accepted }

def markJobTransformFailed (st : Store) (jobID : Uuid) (lastErr : String) : Except JobErr Store :=
  st.execJobUpdate jobID fun j => { j with state := .failed, lastError := some lastErr }

def markJobAccepted (st : Store) (jobID : Uuid) (attempts : ℕ) : Except JobErr Store :=
  st.execJobUpdate jobID fun j => { j with state := .accepted, attempts := attempts }

def markJobRejected (st : Store) (jobID : Uuid) (attempts : ℕ) : Except JobErr Store :=
  st.execJobUpdate jobID fun j => { j with state := .rejected, attempts := attempts }

/-- A blank ticket is the column check's to refuse. -/
def markJobPending (st : Store) (jobID : Uuid) (attempts : ℕ) (ref : String) (pollAfter : ℕ) :
    Except JobErr Store :=
  if ref = "" then throw .checkViolation
  else st.execJobUpdate jobID fun j => { j with
    state := .pending
    attempts := attempts
    pollRef := some ref
    nextPollAt := some pollAfter }

/-- Outside `OncePerJob`, whose marker would swallow the next attempt's write. -/
def markJobPollRetry (st : Store) (jobID : Uuid) (attempts : ℕ) (lastErr : String) :
    Except JobErr Store :=
  st.execJobUpdate jobID fun j => { j with attempts := attempts, lastError := some lastErr }

def markJobRetry (st : Store) (jobID : Uuid) (attempts : ℕ) (lastErr : String) :
    Except JobErr Store :=
  st.execJobUpdate jobID fun j => { j with
    state := .queued
    attempts := attempts
    lastError := some lastErr }

def markJobDeadLettered (st : Store) (jobID : Uuid) (attempts : ℕ) (lastErr : String) :
    Except JobErr Store :=
  st.execJobUpdate jobID fun j => { j with
    state := .deadLettered
    attempts := attempts
    lastError := some lastErr }

/-! ### Equations -/

section
variable (st : Store) (key : String) (args : RiverArgs) (ex : Exchange) (row : AuditRow)

@[simp] theorem useKey_jobs : (st.useKey key).jobs = st.jobs := rfl
@[simp] theorem useKey_invoices : (st.useKey key).db.invoices = st.db.invoices := rfl
@[simp] theorem useKey_river : (st.useKey key).river = st.river := rfl
@[simp] theorem useKey_audit : (st.useKey key).audit = st.audit := rfl
@[simp] theorem recordExchange_jobs : (st.recordExchange ex).jobs = st.jobs := rfl
@[simp] theorem recordExchange_db : (st.recordExchange ex).db = st.db := rfl
@[simp] theorem recordExchange_river : (st.recordExchange ex).river = st.river := rfl
@[simp] theorem recordExchange_audit : (st.recordExchange ex).audit = st.audit := rfl
@[simp] theorem recordAudit_jobs : (st.recordAudit row).jobs = st.jobs := rfl
@[simp] theorem recordAudit_db : (st.recordAudit row).db = st.db := rfl
@[simp] theorem recordAudit_river : (st.recordAudit row).river = st.river := rfl
@[simp] theorem recordAudit_audit : (st.recordAudit row).audit = st.audit ++ [row] := rfl

end

theorem used_iff {st : Store} {key : String} : st.used key = true ↔ key ∈ st.db.outboxKeys := by
  unfold used
  rw [List.contains_iff_mem]

theorem execJobUpdate_eq_ok {st st' : Store} {jobID : Uuid} {f : Job → Job} :
    st.execJobUpdate jobID f = .ok st' ↔
      ∃ job, st.jobs.get? jobID = some job ∧
        st' = { st with jobs := st.jobs.set jobID (f job) } := by
  unfold execJobUpdate
  cases h : st.jobs.get? jobID with
  | none =>
    simp only [throw_ne_ok, reduceCtorEq, false_and, exists_false]
  | some job =>
    simp only [pure_eq_ok, Option.some.injEq, exists_eq_left']
    exact eq_comm

theorem onInvoices_eq_ok {st st' : Store} {f : Db → Except Err Db} :
    st.onInvoices f = .ok st' ↔ ∃ db, f st.db = .ok db ∧ st' = { st with db := db } := by
  unfold onInvoices
  cases h : f st.db with
  | error e =>
    simp only [throw_ne_ok, reduceCtorEq, false_and, exists_false]
  | ok db =>
    simp only [pure_eq_ok, Except.ok.injEq, exists_eq_left']
    exact eq_comm

end Store
end InvoiceOs.Submission
