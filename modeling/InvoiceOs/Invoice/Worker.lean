import InvoiceOs.Invoice.Store

/-! The status writes of the submission worker, of support and of the re-check sweep, each
on a transaction its caller owns. -/

namespace InvoiceOs.Invoice

open Lib Approval CustomRule

/-! ### Verdicts of the authority -/

/-- The shared tail of the four: at the target already, nothing is written again. -/
def markTerminalTx (db : Db) (id : Uuid) (target : Status) (outcome : Row → Except Err Row) :
    Except Err Db := do
  let r ← db.getInvoice id
  if r.status = target then return db
  else do
    let written ← outcome r
    let r' ← written.transition target .system
    return db.setInvoice id r'

def markSubmittedTx (db : Db) (id : Uuid) : Except Err Db :=
  markTerminalTx db id .submitted pure

def markFailedTx (db : Db) (id : Uuid) (kind : FailureKind) : Except Err Db :=
  markTerminalTx db id .failed fun r => pure { r with failureKind := some kind }

def nullIfBlank (s : String) : Option String := if s = "" then none else some s

/-- A blank IRN is the column check's to refuse. -/
def writeAccepted (irn csid qrPayload : String) (r : Row) : Except Err Row :=
  if irn = "" then throw .checkViolation
  else pure { r with
    irn := some irn
    csid := nullIfBlank csid
    qrPayload := nullIfBlank qrPayload }

def markAcceptedTx (db : Db) (id : Uuid) (irn csid qrPayload : String) : Except Err Db :=
  markTerminalTx db id .accepted (writeAccepted irn csid qrPayload)

def markRejectedTx (db : Db) (id : Uuid) (reasons : List String) : Except Err Db :=
  markTerminalTx db id .rejected fun r => pure { r with rejectionReasons := reasons }

/-! ### Support -/

def checkRequeue (db : Db) (id : Uuid) : Except Err Unit := do
  let r ← db.getInvoice id
  if r.status ≠ .failed then
    throw .illegalTransition
  if r.keptAsIs.isSome then
    throw .resolvedOutside
  if hasBlockingViolation
      (noteViolations r (readOriginalFactsTx db.invoices r.originalInvoiceID id)) then
    throw .noteChecksFailed

/-- The edge is outside `legalTransitions`, so it goes past the legality check. -/
def commitRequeue (db : Db) (id : Uuid) (actor : Subject) : Except Err Db := do
  let r ← db.getInvoice id
  return db.setInvoice id (r.applyTransition .queued actor {})

def requeueFailedTx (db : Db) (id : Uuid) (actor : Subject) : Except Err Db := do
  checkRequeue db id
  commitRequeue db id actor

def cancelQueuedTx (db : Db) (id : Uuid) : Except Err Db := do
  let r ← db.getInvoice id
  if r.status ≠ .queued then
    throw .illegalTransition
  let r' ← r.transition .failed .support
  return db.setInvoice id r'

/-! ### The re-check sweep -/

def demoteCausedTx (db : Db) (id : Uuid) (vs : List Violation) (ruleSetVersionID : Uuid)
    (cause : DemotionCause) : Except Err Db := do
  let r ← db.getInvoice id
  if r.status ≠ .validated then return db
  else do
    let r' ← (r.withViolations vs ruleSetVersionID).transitionCaused .draft .revalidateRuleSet cause
    return cancelLiveRunTx (db.setInvoice id r') id .revalidateRuleSet

/-- One demotion in its own transaction; an invoice that is gone is skipped. -/
def demoteRevalidated (db : Db) (id : Uuid) (vs : List Violation) (ruleSetVersionID : Uuid)
    (cause : DemotionCause) : Except Err Db :=
  match db.invoices.get? id with
  | none => pure db
  | some r =>
    if r.status ≠ .validated then pure db
    else demoteCausedTx db id vs ruleSetVersionID cause

def customRuleKey (ruleID : Uuid) : String := "custom:" ++ ruleID.text

def blockingRuleKeys (vs : List Violation) : List String :=
  (vs.filter fun v => v.severity == .error).map Violation.ruleKey

/-- The latest revision the verdict ran whose rule is among the blocking ones. -/
def customCause (revs : List Revision) (ran : List Uuid) (vs : List Violation) : DemotionCause where
  customRuleRevisionID := (revs.reverse.find? fun r =>
    ran.contains r.id && (blockingRuleKeys vs).contains (customRuleKey r.ruleID)).map Revision.id

end InvoiceOs.Invoice
