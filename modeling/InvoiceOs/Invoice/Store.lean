import InvoiceOs.Invoice.Edit
import InvoiceOs.Invoice.NoteChecks

/-! The store's calls on one invoice: create, transition, the gate's verdict, and the
kept-as-is and resolved-outside marks. -/

namespace InvoiceOs.Invoice

open Lib Approval CustomRule

/-! ### Create -/

structure CreateInput where
  entityID : Uuid
  header : Header
  documentType : DocumentType := .commercialInvoice
  originalInvoiceID : Option Uuid := none
  lineItems : List LineItemInput := []
  sourceDocumentID : Option Uuid := none
  numberSupplied : Bool := false

def checkOriginalSet (documentType : DocumentType) (originalID : Option Uuid) : Except Err Unit :=
  match documentType with
  | .commercialInvoice => if originalID.isSome then throw .validation else pure ()
  | .creditNote => if originalID.isNone then throw .validation else pure ()
  | .debitNote => if originalID.isNone then throw .validation else pure ()

/-- The original exists, is commercial and belongs to the note's client. -/
def checkOriginal (db : Db) (entityID : Uuid) : Option Uuid → Except Err Unit
  | none => pure ()
  | some originalID =>
    match db.invoices.get? originalID with
    | none => throw .originalNotFound
    | some r =>
      if r.documentType ≠ .commercialInvoice then throw .originalIsANote
      else if r.entityID ≠ entityID then throw .originalOtherEntity
      else pure ()

/-- A caller's value wins; a blank company value is no default. -/
def defaultContact (own company : Option String) : Option String :=
  match own, company with
  | some v, _ => some v
  | none, none => none
  | none, some c => if trimSpace c = "" then none else some (trimSpace c)

def defaultSupplierContact (n : NRSHeader) (c : SupplierContact) : NRSHeader :=
  { n with
    supplierEmail := defaultContact n.supplierEmail c.email
    supplierTelephone := defaultContact n.supplierTelephone c.telephone
    supplierStreet := defaultContact n.supplierStreet c.street
    supplierCity := defaultContact n.supplierCity c.city
    supplierPostalZone := defaultContact n.supplierPostalZone c.postalZone
    supplierCountry := defaultContact n.supplierCountry c.country
    supplierState := defaultContact n.supplierState c.state
    supplierLGA := defaultContact n.supplierLGA c.lga }

def createdRow (e : Entity) (u : CreateInput) (caller : Uuid) : Row where
  entityID := u.entityID
  documentType := u.documentType
  originalInvoiceID := u.originalInvoiceID
  header := { u.header with
    supplierTIN := mbsSupplierTIN e.tin
    supplierName := some e.name
    nrs := defaultSupplierContact u.header.nrs e.contact }
  lines := replaceLines u.lineItems
  history := [{ fromStatus := none, toStatus := .draft, actor := .user caller }]

def create (db : Db) (caller id : Uuid) (u : CreateInput) : Except Err Db := do
  if u.header.invoiceNumber = "" then
    throw .validation
  if u.numberSupplied ∧ u.sourceDocumentID.isNone then
    throw .validation
  checkOriginalSet u.documentType u.originalInvoiceID
  let e ← getEntity db.directory u.entityID
  checkOriginal db u.entityID u.originalInvoiceID
  if numberTaken db u.entityID u.header.invoiceNumber then
    throw .duplicateNumber
  if (db.invoices.get? id).isSome then
    throw .uniqueViolation
  return db.setInvoice id (createdRow e u caller)

/-! ### Transition -/

def queueGates (r : Row) (target : Status) (pending clear : Bool) : Except Err Unit :=
  if target = .queued ∧ canTransition r.status target = true then
    if pending then throw .ruleChangePending
    else if !clear then throw .awaitingApproval
    else pure ()
  else pure ()

/-- Only the way back to draft cancels. -/
def writeTransition (db : Db) (id : Uuid) (r : Row) (target : Status) (caller : Uuid) : Db :=
  if target = .draft then cancelLiveRunTx (db.setInvoice id r) id (.user caller)
  else db.setInvoice id r

/-- The redundancy check stands above the gates, and legality behind them. -/
def transitionGated (db : Db) (id : Uuid) (target : Status) (caller : Uuid) (pending clear : Bool) :
    Except Err Db := do
  let r ← db.getInvoice id
  if r.status = target then
    throw .redundantTransition
  queueGates r target pending clear
  let r' ← r.transition target (.user caller)
  return writeTransition db id r' target caller

def transition (db : Db) (id : Uuid) (target : Status) (caller : Uuid) : Except Err Db := do
  let r ← db.getInvoice id
  transitionGated db id target caller (rulesPendingFor db.revisions r.entityID)
    (transmitClearTx db id)

/-! ### The gate's verdict -/

structure Evaluation where
  violations : List Violation
  ruleSetVersionID : Uuid
  customIDs : List Uuid
  fingerprint : String

def rulesUnchanged (revs : List Revision) (entityID : Uuid) (ran : List Uuid) : Bool :=
  let current := currentTx revs entityID
  current.length == ran.dedup.length && current.all fun r => ran.contains r.id

def noteVerdict (invoices : Invoices) (id : Uuid) (r : Row) (vs : List Violation) :
    List Violation :=
  if r.isNote then
    withoutNoteChecks vs ++ noteViolations r (readOriginalFactsTx invoices r.originalInvoiceID id)
  else vs

section
variable (sha256 : String → String)

def checkValidation (db : Db) (id : Uuid) (ev : Evaluation) : Except Err (List Violation) := do
  let r ← db.getInvoice id
  if canRevalidate r.status = false then
    throw .notDraft
  if r.fingerprint sha256 ≠ ev.fingerprint then
    throw .staleValidation
  if rulesUnchanged db.revisions r.entityID ev.customIDs = false then
    throw .rulesChanged
  return noteVerdict db.invoices id r ev.violations

end

/-- The stamp, and for a verdict that does not block the promotion and the arm under the
versions its `ArmTx` read. -/
def commitValidation (db : Db) (id caller : Uuid) (ev : Evaluation) (vs : List Violation)
    (versions : List InForceVersion) (runID : Uuid) (now : ℕ) : Except Err Db := do
  let r ← db.getInvoice id
  let stamped := r.withVerdict vs ev.ruleSetVersionID ev.fingerprint
  if hasBlockingViolation vs then pure (db.setInvoice id stamped)
  else do
    let promoted ← stamped.transition .validated (.user caller)
    armTx (db.setInvoice id promoted) versions id runID ev.fingerprint now

section
variable (sha256 : String → String)

def applyValidation (db : Db) (id caller : Uuid) (ev : Evaluation) (runID : Uuid) (now : ℕ) :
    Except Err Db := do
  let vs ← checkValidation sha256 db id ev
  commitValidation db id caller ev vs db.readInForce runID now

end

/-! ### Marks -/

def keepAsIs (db : Db) (id caller : Uuid) (reason : String) : Except Err Db := do
  let r ← db.getInvoice id
  if r.status ≠ .draft ∨ hasBlockingViolation r.violations = false then
    throw .notKeepable
  return db.setInvoice id (r.withMark (some { author := .user caller, reason := reason }))

/-- A draft's mark only: a failed invoice's is `unresolveOutside`'s. -/
def unkeepAsIs (db : Db) (id : Uuid) : Except Err Db := do
  let r ← db.getInvoice id
  if r.keptAsIs.isNone ∨ r.status ≠ .draft then return db
  else return db.setInvoice id (r.withMark none)

def resolveOutside (db : Db) (id caller : Uuid) (reason : String) : Except Err Db := do
  db.directory.requireApprover caller
  let r ← db.getInvoice id
  if r.status ≠ .failed then
    throw .notResolvable
  return db.setInvoice id (r.withMark (some { author := .user caller, reason := reason }))

def unresolveOutside (db : Db) (id caller : Uuid) : Except Err Db := do
  db.directory.requireApprover caller
  let r ← db.getInvoice id
  if r.status ≠ .failed then
    throw .notResolvable
  return db.setInvoice id (r.withMark none)

end InvoiceOs.Invoice
