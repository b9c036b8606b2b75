import InvoiceOs.Submission.Job

/-! The transactions of the submission worker, of the poll worker, of the reconciler's re-arm
and of the staff cancel. An adapter call lies between two transactions and holds none. -/

namespace InvoiceOs.Submission

open Lib Invoice

def maxAttempts : ℕ := 8

inductive Result where
  | accepted (irn csid qrPayload : String)
  | rejected (reasons : List String)
  | pending (ref : String) (pollAfter : ℕ)
  | retryable (err : String)
  deriving DecidableEq

/-- What an adapter call returns: the result, and of its evidence whether it reached the wire. -/
structure Reply where
  result : Result
  reachedWire : Bool := true
  deriving DecidableEq

structure Call where
  riverID : ℕ
  attempt : ℕ
  jobID : Uuid
  invoiceID : Uuid
  attempts : ℕ
  deriving DecidableEq

def Call.exchange (c : Call) (operation : Operation) (reachedWire : Bool) : Exchange where
  jobID := c.jobID
  invoiceID := c.invoiceID
  operation := operation
  outcome := if reachedWire then .sent else .connectionFailed
  attempt := c.attempts + 1

def Call.audit (c : Call) (outcome : AuditOutcome) (invoiceNumber : String) : AuditRow where
  invoiceID := c.invoiceID
  jobID := c.jobID
  outcome := outcome
  invoiceNumber := invoiceNumber

/-! ### The first transaction of a submit -/

structure Tx1Input where
  newID : Uuid
  now : ℕ
  allowed : Bool
  deriving DecidableEq

inductive Tx1Outcome where
  | locked
  | terminal
  | alreadyCleared
  | rateLimited
  | proceed (c : Call) (invoiceNumber : String)
  deriving DecidableEq

/-- The only writer of a new job row: insert unless the key is there, then lock and read. -/
def ensureSubmissionJob (st : Store) (riverID : ℕ) (args : SubmitArgs) (u : Tx1Input) :
    Except JobErr (Store × Uuid × Job) :=
  match st.jobByKey args.idempotencyKey with
  | some (id, job) => pure (st, id, job)
  | none => do
    if args.idempotencyKey = "" ∨ 255 < args.idempotencyKey.length then
      throw .checkViolation
    if (st.db.invoices.get? args.invoiceID).isNone then
      throw (.invoice .notFound)
    if (st.jobs.get? u.newID).isSome then
      throw .uniqueViolation
    let job : Job := {
      invoiceID := args.invoiceID
      idempotencyKey := args.idempotencyKey
      riverJobID := some riverID
      createdAt := u.now }
    return ({ st with jobs := st.jobs.set u.newID job }, u.newID, job)

def submitGates (st : Store) (riverID attempt : ℕ) (args : SubmitArgs) (allowed : Bool)
    (jobID : Uuid) (job : Job) : Except JobErr (Store × Tx1Outcome) :=
  let ex (outcome : Outcome) : Exchange :=
    ⟨jobID, args.invoiceID, .submit, outcome, job.attempts + 1⟩
  if isTerminalJobState job.state then pure (st, .terminal)
  else if st.alreadyCleared args.invoiceID jobID then do
    let st' ← (st.recordExchange (ex .skippedAlreadyCleared)).markJobAlreadyCleared jobID
    return (st', .alreadyCleared)
  else if !allowed then pure (st.recordExchange (ex .blockedRateLimit), .rateLimited)
  else do
    let invoiceNumber ← st.number args.invoiceID
    let st' ← st.markJobSubmitting jobID
    return (st', .proceed ⟨riverID, attempt, jobID, args.invoiceID, job.attempts⟩ invoiceNumber)

def submitTx1 (st : Store) (riverID attempt : ℕ) (args : SubmitArgs) (u : Tx1Input) :
    Except JobErr (Store × Tx1Outcome) :=
  if st.workspaceLocked then pure (st, .locked)
  else do
    let (st', jobID, job) ← ensureSubmissionJob st riverID args u
    submitGates st' riverID attempt args u.allowed jobID job

/-! ### The closures of a verdict -/

def writeAccepted (st : Store) (c : Call) (ex : Exchange) (invoiceNumber irn csid qrPayload : String) :
    Except JobErr Store := do
  let st ← (st.recordExchange ex).markJobAccepted c.jobID (c.attempts + 1)
  let st ← st.onInvoices fun db => markAcceptedTx db c.invoiceID irn csid qrPayload
  return st.recordAudit (c.audit (.accepted irn) invoiceNumber)

def writeRejected (st : Store) (c : Call) (ex : Exchange) (invoiceNumber : String)
    (reasons : List String) : Except JobErr Store := do
  let st ← (st.recordExchange ex).markJobRejected c.jobID (c.attempts + 1)
  let st ← st.onInvoices fun db => markRejectedTx db c.invoiceID reasons
  return st.recordAudit (c.audit .rejected invoiceNumber)

def writeDeadLettered (st : Store) (c : Call) (ex : Exchange) (invoiceNumber err : String)
    (kind : FailureKind) : Except JobErr Store := do
  let st ← (st.recordExchange ex).markJobDeadLettered c.jobID (c.attempts + 1) err
  let st ← st.onInvoices fun db => markFailedTx db c.invoiceID kind
  return st.recordAudit (c.audit (.failed kind) invoiceNumber)

/-- Nothing reached the wire, so the attempts stand. -/
def writeTransformFailed (st : Store) (c : Call) (invoiceNumber err : String) :
    Except JobErr Store := do
  let ex : Exchange := ⟨c.jobID, c.invoiceID, .submit, .transformFailed, c.attempts + 1⟩
  let st ← (st.recordExchange ex).markJobTransformFailed c.jobID err
  let st ← st.onInvoices fun db => markFailedTx db c.invoiceID .payloadNotBuilt
  return st.recordAudit (c.audit (.failed .payloadNotBuilt) invoiceNumber)

/-! ### The second transactions -/

def transformFailedTx (st : Store) (c : Call) (invoiceNumber err : String) : Except JobErr Store :=
  st.oncePerJob c.riverID fun st => writeTransformFailed st c invoiceNumber err

def submitPending (st : Store) (c : Call) (ex : Exchange) (ref : String) (pollAfter : ℕ) :
    Except JobErr Store := do
  let st ← (st.recordExchange ex).markJobPending c.jobID (c.attempts + 1) ref pollAfter
  let st ← st.onInvoices fun db => markSubmittedTx db c.invoiceID
  return st.enqueueTx (pollKey c.jobID 1) (.poll ⟨c.invoiceID, c.jobID, 1⟩)

def submitTx2 (st : Store) (c : Call) (invoiceNumber : String) (reply : Reply) :
    Except JobErr Store :=
  let ex := c.exchange .submit reply.reachedWire
  match reply.result with
  | .accepted irn csid qrPayload =>
    st.oncePerJob c.riverID fun st => writeAccepted st c ex invoiceNumber irn csid qrPayload
  | .rejected reasons =>
    st.oncePerJob c.riverID fun st => writeRejected st c ex invoiceNumber reasons
  | .pending ref pollAfter =>
    st.oncePerJob c.riverID fun st => submitPending st c ex ref pollAfter
  | .retryable err =>
    if maxAttempts ≤ c.attempt then
      st.oncePerJob c.riverID fun st =>
        writeDeadLettered st c ex invoiceNumber err .neverAcknowledged
    else (st.recordExchange ex).markJobRetry c.jobID (c.attempts + 1) err

/-- The poll's first transaction: a job that is not pending was advanced by another. The ticket
is the row's current one, not the arguments'. -/
def pollTx1 (st : Store) (riverID attempt : ℕ) (args : PollArgs) :
    Except JobErr (Option (Call × String)) :=
  match st.jobs.get? args.submissionJobID with
  | none => throw .jobNotFound
  | some job =>
    if job.state = .pending then
      pure (some (⟨riverID, attempt, args.submissionJobID, args.invoiceID, job.attempts⟩,
        job.pollRef.getD ""))
    else pure none

def pollPending (st : Store) (c : Call) (ex : Exchange) (sequence : ℕ) (ref : String)
    (pollAfter : ℕ) : Except JobErr Store := do
  let st ← (st.recordExchange ex).markJobPending c.jobID (c.attempts + 1) ref pollAfter
  return st.enqueueTx (pollKey c.jobID (sequence + 1))
    (.poll ⟨c.invoiceID, c.jobID, sequence + 1⟩)

/-- The number is read first, so that a failed lookup writes nothing. -/
def pollTx2 (st : Store) (c : Call) (sequence : ℕ) (reply : Reply) : Except JobErr Store :=
  let ex := c.exchange .poll reply.reachedWire
  match reply.result with
  | .accepted irn csid qrPayload =>
    st.oncePerJob c.riverID fun st => do
      let invoiceNumber ← st.number c.invoiceID
      writeAccepted st c ex invoiceNumber irn csid qrPayload
  | .rejected reasons =>
    st.oncePerJob c.riverID fun st => do
      let invoiceNumber ← st.number c.invoiceID
      writeRejected st c ex invoiceNumber reasons
  | .pending ref pollAfter =>
    st.oncePerJob c.riverID fun st => pollPending st c ex sequence ref pollAfter
  | .retryable err =>
    if maxAttempts ≤ c.attempt then
      st.oncePerJob c.riverID fun st => do
        let invoiceNumber ← st.number c.invoiceID
        writeDeadLettered st c ex invoiceNumber err .acknowledgedNoVerdict
    else (st.recordExchange ex).markJobPollRetry c.jobID (c.attempts + 1) err

/-! ### The reconciler -/

def livePoll (st : Store) (jobID : Uuid) : Bool :=
  st.river.rows.any fun e =>
    match e.2.args with
    | .poll args => args.submissionJobID == jobID && e.2.state.live
    | .submit _ => false

structure Thresholds where
  graceCutoff : ℕ
  hopCeiling : ℕ
  deriving DecidableEq

/-- The `lost_poll` signature of `Scan`. -/
def lostPoll (st : Store) (jobID : Uuid) (th : Thresholds) : Option Job := do
  let job ← st.jobs.get? jobID
  let r ← st.db.invoices.get? job.invoiceID
  if r.status = .submitted ∧ job.state = .pending ∧
      (job.nextPollAt.any fun t => t < th.graceCutoff) = true ∧ job.attempts ≤ th.hopCeiling ∧
      (st.jobs.rows.all fun e => e.2.invoiceID != job.invoiceID ||
        e.2.createdAt ≤ job.createdAt) = true ∧ livePoll st jobID = false
  then some job else none

def reArmPoll (st : Store) (jobID invoiceID : Uuid) (attempts : ℕ) : Store :=
  st.enqueueTx (reconcilePollKey jobID attempts) (.poll ⟨invoiceID, jobID, attempts⟩)

/-! ### Staff -/

/-- River's `JobCancelTx`: a running job is only told. -/
def riverCancel (st : Store) (riverID : ℕ) : Store :=
  { st with river := st.river.modify riverID fun j =>
      if j.state = .waiting then { j with state := .cancelled } else j }

def cancelRiverJob (st : Store) : Option ℕ → Store
  | some riverID => riverCancel st riverID
  | none => st

def cancel (st : Store) (jobID : Uuid) : Except JobErr Store :=
  match st.jobs.get? jobID with
  | none => throw .jobNotFound
  | some job => do
    if job.state ≠ .queued then
      throw .jobState
    let st ← st.execJobUpdate jobID fun j => { j with state := .cancelled }
    let st ← st.onInvoices fun db => cancelQueuedTx db job.invoiceID
    return cancelRiverJob st job.riverJobID

end InvoiceOs.Submission
