import InvoiceOs.Approval.Runs

/-! The fix loop: an edit of a draft, validated or rejected invoice. A real content change
demotes the invoice to draft and cancels its live runs, in the same transaction. -/

namespace InvoiceOs.Invoice

open Lib Approval

/-- A member of an update: left out, the clear sentinel, or a value. -/
inductive Patch (α : Type) where
  | keep
  | clear
  | put (a : α)
  deriving DecidableEq

def Patch.apply {α : Type} : Patch α → Option α → Option α
  | .keep, old => old
  | .clear, _ => none
  | .put a, _ => some a

def Patch.isSent {α : Type} : Patch α → Bool
  | .keep => false
  | .clear => true
  | .put _ => true

/-- The header members of an edit. A supplier name or TIN counts as sent and is not read:
both are derived from the client. -/
structure UpdateInput where
  issueDate : Patch Date := .keep
  supplierTIN : Patch String := .keep
  supplierName : Patch String := .keep
  buyerTIN : Patch String := .keep
  buyerName : Patch String := .keep
  currency : Patch String := .keep
  subtotal : Patch Numeric := .keep
  vat : Patch Numeric := .keep
  total : Patch Numeric := .keep
  invoiceKind : Patch String := .keep
  taxCurrencyCode : Patch String := .keep
  dueDate : Patch Date := .keep
  issueTime : Patch String := .keep
  taxPointDate : Patch Date := .keep
  paymentStatus : Patch String := .keep
  supplierEmail : Patch String := .keep
  supplierTelephone : Patch String := .keep
  supplierStreet : Patch String := .keep
  supplierCity : Patch String := .keep
  supplierPostalZone : Patch String := .keep
  supplierCountry : Patch String := .keep
  supplierState : Patch String := .keep
  supplierLGA : Patch String := .keep
  buyerEmail : Patch String := .keep
  buyerTelephone : Patch String := .keep
  buyerStreet : Patch String := .keep
  buyerCity : Patch String := .keep
  buyerPostalZone : Patch String := .keep
  buyerCountry : Patch String := .keep
  buyerState : Patch String := .keep
  buyerLGA : Patch String := .keep

def headerFieldsPresent (u : UpdateInput) : Bool :=
  u.issueDate.isSent || u.supplierTIN.isSent || u.supplierName.isSent ||
    u.buyerTIN.isSent || u.buyerName.isSent || u.currency.isSent ||
    u.subtotal.isSent || u.vat.isSent || u.total.isSent ||
    u.invoiceKind.isSent || u.taxCurrencyCode.isSent || u.dueDate.isSent ||
    u.issueTime.isSent || u.taxPointDate.isSent || u.paymentStatus.isSent ||
    u.supplierEmail.isSent || u.supplierTelephone.isSent || u.supplierStreet.isSent ||
    u.supplierCity.isSent || u.supplierPostalZone.isSent || u.supplierCountry.isSent ||
    u.supplierState.isSent || u.supplierLGA.isSent || u.buyerEmail.isSent ||
    u.buyerTelephone.isSent || u.buyerStreet.isSent || u.buyerCity.isSent ||
    u.buyerPostalZone.isSent || u.buyerCountry.isSent || u.buyerState.isSent ||
    u.buyerLGA.isSent

/-- A line of a create or of a replaced line set. The line number is its position. -/
structure LineItemInput where
  description : Option String := none
  quantity : Option String := none
  unitPrice : Option String := none
  lineTotal : Option String := none
  lineTax : Option String := none
  taxCategory : Option String := none
  hsnCode : Option String := none
  isicCode : Option String := none
  productCategory : Option String := none
  serviceCategory : Option String := none
  sellersItemIdentification : Option String := none
  priceUnit : Option String := none
  taxPercent : Option String := none
  baseQuantity : Option String := none

structure EditInput extends UpdateInput where
  lineItems : Option (List LineItemInput) := none
  invoiceNumber : Option String := none

def storedLine (i : ℕ) (li : LineItemInput) : LineItem where
  lineNo := i + 1
  description := li.description
  quantity := li.quantity
  unitPrice := li.unitPrice
  lineTotal := li.lineTotal
  lineTax := li.lineTax
  taxCategory := li.taxCategory
  hsnCode := li.hsnCode
  isicCode := li.isicCode
  productCategory := li.productCategory
  serviceCategory := li.serviceCategory
  sellersItemIdentification := li.sellersItemIdentification
  priceUnit := li.priceUnit
  taxPercent := li.taxPercent
  baseQuantity := li.baseQuantity

def replaceLines (lines : List LineItemInput) : List LineItem := lines.mapIdx storedLine

/-- Twelve bare digits become `NNNNNNNN-NNNN`; anything else passes through. -/
def mbsSupplierTIN (tin : Option String) : Option String :=
  tin.map fun t =>
    if t.toList.length = 12 ∧ t.toList.all Char.isDigit then
      String.ofList (t.toList.take 8 ++ '-' :: t.toList.drop 8)
    else t

def NRSHeader.update (n : NRSHeader) (u : UpdateInput) : NRSHeader where
  invoiceKind := u.invoiceKind.apply n.invoiceKind
  taxCurrencyCode := u.taxCurrencyCode.apply n.taxCurrencyCode
  dueDate := u.dueDate.apply n.dueDate
  issueTime := u.issueTime.apply n.issueTime
  taxPointDate := u.taxPointDate.apply n.taxPointDate
  paymentStatus := u.paymentStatus.apply n.paymentStatus
  supplierEmail := u.supplierEmail.apply n.supplierEmail
  supplierTelephone := u.supplierTelephone.apply n.supplierTelephone
  supplierStreet := u.supplierStreet.apply n.supplierStreet
  supplierCity := u.supplierCity.apply n.supplierCity
  supplierPostalZone := u.supplierPostalZone.apply n.supplierPostalZone
  supplierCountry := u.supplierCountry.apply n.supplierCountry
  supplierState := u.supplierState.apply n.supplierState
  supplierLGA := u.supplierLGA.apply n.supplierLGA
  buyerEmail := u.buyerEmail.apply n.buyerEmail
  buyerTelephone := u.buyerTelephone.apply n.buyerTelephone
  buyerStreet := u.buyerStreet.apply n.buyerStreet
  buyerCity := u.buyerCity.apply n.buyerCity
  buyerPostalZone := u.buyerPostalZone.apply n.buyerPostalZone
  buyerCountry := u.buyerCountry.apply n.buyerCountry
  buyerState := u.buyerState.apply n.buyerState
  buyerLGA := u.buyerLGA.apply n.buyerLGA

def updateContent (e : Entity) (h : Header) (u : UpdateInput) : Header where
  invoiceNumber := h.invoiceNumber
  issueDate := u.issueDate.apply h.issueDate
  supplierTIN := mbsSupplierTIN e.tin
  supplierName := some e.name
  buyerTIN := u.buyerTIN.apply h.buyerTIN
  buyerName := u.buyerName.apply h.buyerName
  currency := u.currency.apply h.currency
  subtotal := u.subtotal.apply h.subtotal
  vat := u.vat.apply h.vat
  total := u.total.apply h.total
  nrs := h.nrs.update u

def getEntity (d : Directory) (id : Uuid) : Except Err Entity :=
  match d.entity? id with
  | some e => pure e
  | none => throw .notFound

def numberTaken (db : Db) (entityID : Uuid) (number : String) : Bool :=
  db.invoices.rows.any fun e => e.2.entityID == entityID && e.2.header.invoiceNumber == number

/-- The rename write; the same number is no rename. -/
def renameTx (db : Db) (r : Row) : Option String → Except Err Header
  | none => pure r.header
  | some number =>
    if number = r.header.invoiceNumber then pure r.header
    else if !canCorrectNumber r.status r.everSubmitted then throw .numberFixed
    else if numberTaken db r.entityID number then throw .numberTaken
    else pure { r.header with invoiceNumber := number }

def updateContentTx (db : Db) (entityID : Uuid) (h : Header) (u : UpdateInput) :
    Except Err Header :=
  if headerFieldsPresent u then do
    let e ← getEntity db.directory entityID
    return updateContent e h u
  else pure h

def editedLines (before : List LineItem) : Option (List LineItemInput) → List LineItem
  | some lines => replaceLines lines
  | none => before

/-- A content change leaves no kept-as-is mark and no demotable status behind. -/
def demoteEdited (db : Db) (id : Uuid) (before after : Row) (caller : Uuid) : Except Err Db :=
  if canTransition before.status .draft then do
    let demoted ← (after.withMark none).transition .draft (.user caller)
    return cancelLiveRunTx (db.setInvoice id demoted) id (.user caller)
  else pure (db.setInvoice id (after.withMark none))

section
variable (sha256 : String → String)

def editTx (db : Db) (id caller : Uuid) (u : EditInput) : Except Err Db := do
  let before ← db.getInvoice id
  if canEdit before.status = false then
    throw .notFixable
  let renamed ← renameTx db before u.invoiceNumber
  let header ← updateContentTx db before.entityID renamed u.toUpdateInput
  let after := before.withContent header (editedLines before.lines u.lineItems)
  -- equal after the write: nothing to record, nothing to demote
  if after.fingerprint sha256 = before.fingerprint sha256 then pure (db.setInvoice id after)
  else demoteEdited db id before after caller

def edit (db : Db) (id caller : Uuid) (u : EditInput) : Except Err Db := do
  if headerFieldsPresent u.toUpdateInput = false ∧ u.lineItems.isNone ∧ u.invoiceNumber.isNone then
    throw .validation
  editTx sha256 db id caller u

end

theorem editTx_spec {sha256 : String → String} {db db' : Db} {id caller : Uuid} {u : EditInput}
    (h : editTx sha256 db id caller u = .ok db') :
    ∃ r header lines, db.invoices.get? id = some r ∧
      ((canEdit r.status = true ∧
          (r.withContent header lines).fingerprint sha256 = r.fingerprint sha256 ∧
          db' = db.setInvoice id (r.withContent header lines)) ∨
        (r.status = .draft ∧
          db' = db.setInvoice id ((r.withContent header lines).withMark none)) ∨
        ((r.status = .validated ∨ r.status = .rejected) ∧
          db' = cancelLiveRunTx (db.setInvoice id (((r.withContent header lines).withMark
            none).applyTransition .draft (.user caller) {})) id (.user caller))) := by
  simp only [editTx, bind_eq_ok, refuse_eq_ok] at h
  obtain ⟨r, hr, hedit, renamed, -, header, -, h⟩ := h
  have hr : db.invoices.get? id = some r := Db.getInvoice_eq_ok.mp hr
  have hcan : canEdit r.status = true := by simpa using hedit
  refine ⟨r, header, editedLines r.lines u.lineItems, hr, ?_⟩
  split at h
  · rename_i hfp
    cases h
    exact .inl ⟨hcan, hfp, rfl⟩
  · right
    simp only [demoteEdited] at h
    split at h
    · rename_i hdraft
      have hs := canTransition_draft_iff.mp hdraft
      simp only [bind_eq_ok, pure_eq_ok, Row.transition_eq_ok] at h
      obtain ⟨demoted, ⟨-, rfl⟩, rfl⟩ := h
      exact .inr ⟨hs, rfl⟩
    · rename_i hdraft
      cases h
      have hs : r.status = .draft :=
        (canEdit_iff.mp hcan).resolve_right fun hs => hdraft (canTransition_draft_iff.mpr hs)
      exact .inl ⟨hs, rfl⟩

theorem edit_eq_ok {sha256 : String → String} {db db' : Db} {id caller : Uuid} {u : EditInput}
    (h : edit sha256 db id caller u = .ok db') : editTx sha256 db id caller u = .ok db' := by
  simp only [edit, refuse_eq_ok] at h
  exact h.2

end InvoiceOs.Invoice
