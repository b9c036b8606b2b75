import InvoiceOs.Submission.Worker
import InvoiceOs.Lib.Interleave

/-! Deliveries of River jobs under way at the same time, with the reconciler's sweep and the
staff cancel beside them. Every transaction of theirs reads what it decides on under its row
locks, so it is one step; an adapter call is the gap between two. River may hand out a job
that waits at any time and any number of times, and a delivery may end anywhere. -/

namespace InvoiceOs.Submission

open Lib Invoice

/-- Where one delivery, or one finding of a sweep, stands. -/
inductive Task where
  | idle
  | fetched (riverID attempt : ℕ) (args : RiverArgs)
  | ready (c : Call) (invoiceNumber : String)
  | sent (c : Call) (invoiceNumber : String)
  | polling (c : Call) (sequence : ℕ) (pollRef : String)
  | lost (jobID invoiceID : Uuid)
  | rearming (jobID invoiceID : Uuid) (attempts : ℕ)
  deriving DecidableEq

inductive Act where
  | fetch (riverID attempt : ℕ)
  | tx1 (u : Tx1Input)
  | transformFails (err : String)
  | submit
  | reply (r : Reply)
  | crash
  | river (riverID : ℕ) (state : RiverState)
  | scan (jobID : Uuid) (th : Thresholds)
  | readAttempts
  | rearm
  | cancel (jobID : Uuid)
  | lock (locked : Bool)
  deriving DecidableEq

def commit {σ : Type} (st : σ) : Except JobErr σ → σ
  | .ok st' => st'
  | .error _ => st

def fetchJob (st : Store) (riverID attempt : ℕ) : Option (Store × Task) := do
  let j ← st.river.get? riverID
  if j.state = .waiting then
    some ({ st with river := st.river.set riverID { j with state := .running } },
      .fetched riverID attempt j.args)
  else none

/-- River moves a job it still holds: retried, completed, cancelled, discarded or rescued. -/
def settleJob (st : Store) (riverID : ℕ) (state : RiverState) : Option (Store × Task) := do
  let j ← st.river.get? riverID
  if j.state.live = true ∧ state ≠ .running then
    some ({ st with river := st.river.set riverID { j with state := state } }, .idle)
  else none

def beginSubmit (st : Store) (riverID attempt : ℕ) (args : SubmitArgs) (u : Tx1Input) :
    Store × Task :=
  match submitTx1 st riverID attempt args u with
  | .ok (st', .proceed c invoiceNumber) => (st', .ready c invoiceNumber)
  | .ok (st', _) => (st', .idle)
  | .error _ => (st, .idle)

def beginPoll (st : Store) (riverID attempt : ℕ) (args : PollArgs) : Store × Task :=
  match pollTx1 st riverID attempt args with
  | .ok (some (c, pollRef)) => (st, .polling c args.sequence pollRef)
  | .ok none => (st, .idle)
  | .error _ => (st, .idle)

def countAttempts (st : Store) (jobID invoiceID : Uuid) : Store × Task :=
  match st.jobs.get? jobID with
  | some job => (st, .rearming jobID invoiceID job.attempts)
  | none => (st, .idle)

def next (st : Store) (t : Task) : Act → Option (Store × Task)
  | .fetch riverID attempt =>
    match t with
    | .idle => fetchJob st riverID attempt
    | _ => none
  | .tx1 u =>
    match t with
    | .fetched riverID attempt (.submit args) => some (beginSubmit st riverID attempt args u)
    | .fetched riverID attempt (.poll args) => some (beginPoll st riverID attempt args)
    | _ => none
  | .transformFails err =>
    match t with
    | .ready c invoiceNumber => some (commit st (transformFailedTx st c invoiceNumber err), .idle)
    | _ => none
  | .submit =>
    match t with
    | .ready c invoiceNumber => some (st, .sent c invoiceNumber)
    | _ => none
  | .reply r =>
    match t with
    | .sent c invoiceNumber => some (commit st (submitTx2 st c invoiceNumber r), .idle)
    | .polling c sequence _ => some (commit st (pollTx2 st c sequence r), .idle)
    | _ => none
  | .crash => some (st, .idle)
  | .river riverID state =>
    match t with
    | .idle => settleJob st riverID state
    | _ => none
  | .scan jobID th =>
    match t with
    | .idle => (lostPoll st jobID th).map fun job => (st, .lost jobID job.invoiceID)
    | _ => none
  | .readAttempts =>
    match t with
    | .lost jobID invoiceID => some (countAttempts st jobID invoiceID)
    | _ => none
  | .rearm =>
    match t with
    | .rearming jobID invoiceID attempts => some (reArmPoll st jobID invoiceID attempts, .idle)
    | _ => none
  | .cancel jobID =>
    match t with
    | .idle => some (commit st (cancel st jobID), .idle)
    | _ => none
  | .lock locked =>
    match t with
    | .idle => some ({ st with workspaceLocked := locked }, .idle)
    | _ => none

theorem nothingHeld : ([] : List Empty) = [] := rfl

/-- No lock outlives its step here. -/
def protocol : Protocol Store Task Act Empty where
  idle := .idle
  holds _ := []
  needs _ _ _ := []
  conflicts _ _ := false
  next := next
  holds_idle := nothingHeld
  conflicts_symm _ _ h := nomatch h
  holds_next _ _ _ _ _ _ l _ := nomatch l

/-! ### What a step writes -/

structure Core where
  jobs : Table Uuid Job
  invoices : Table Uuid Row
  keys : List String
  river : Table ℕ RiverJob
  nextRiverID : ℕ
  audit : List AuditRow

def Store.core (st : Store) : Core where
  jobs := st.jobs
  invoices := st.db.invoices
  keys := st.db.outboxKeys
  river := st.river
  nextRiverID := st.nextRiverID
  audit := st.audit

namespace Core

def writeJob (k : Core) (jobID : Uuid) (job : Job) : Core :=
  { k with jobs := k.jobs.set jobID job }

def writeInvoice (k : Core) (id : Uuid) (r : Row) : Core :=
  { k with invoices := k.invoices.set id r }

def writeRiver (k : Core) (river : Table ℕ RiverJob) : Core := { k with river := river }

def addKey (k : Core) (key : String) : Core := { k with keys := k.keys ++ [key] }

def enqueue (k : Core) (key : String) (args : RiverArgs) : Core :=
  if key ∈ k.keys then k
  else { k with
    keys := k.keys ++ [key]
    river := k.river.set k.nextRiverID { args := args }
    nextRiverID := k.nextRiverID + 1 }

@[simp] theorem enqueue_jobs (k : Core) (key : String) (args : RiverArgs) :
    (k.enqueue key args).jobs = k.jobs := by
  unfold enqueue
  split <;> rfl

@[simp] theorem enqueue_invoices (k : Core) (key : String) (args : RiverArgs) :
    (k.enqueue key args).invoices = k.invoices := by
  unfold enqueue
  split <;> rfl

theorem mem_enqueue_keys {k : Core} {key old : String} {args : RiverArgs} (h : old ∈ k.keys) :
    old ∈ (k.enqueue key args).keys := by
  unfold enqueue
  split
  · exact h
  · exact List.mem_append_left _ h

@[simp] theorem enqueue_audit (k : Core) (key : String) (args : RiverArgs) :
    (k.enqueue key args).audit = k.audit := by
  unfold enqueue
  split <;> rfl

def addAudit (k : Core) (row : AuditRow) : Core := { k with audit := k.audit ++ [row] }

inductive Marks (k : Core) (id : Uuid) (target : Status) (outcome : Row → Row) : Core → Prop
  | already {r : Row} (hrow : k.invoices.get? id = some r) (hs : r.status = target) :
      Marks k id target outcome k
  | moved {r : Row} (hrow : k.invoices.get? id = some r)
      (hlegal : canTransition r.status target = true)
      (hout : (outcome r).status = r.status) :
      Marks k id target outcome
        (k.writeInvoice id ((outcome r).applyTransition target .system {}))

end Core

end InvoiceOs.Submission
