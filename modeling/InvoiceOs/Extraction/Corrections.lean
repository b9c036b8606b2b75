import InvoiceOs.Approval.Policy
import InvoiceOs.Lib.Interleave
import InvoiceOs.Lib.Refusal
import InvoiceOs.Extraction.Dates
import InvoiceOs.Extraction.Review

/-! The correction route: one transaction edits the invoice filed from the document and appends
the correction row. The invoice row is locked from the edit on. -/

namespace InvoiceOs.Extraction

open Lib

structure Refusal where
  status : ℕ
  message : String
  deriving DecidableEq

def badRequest (message : String) : Refusal := ⟨400, message⟩
def unprocessable (message : String) : Refusal := ⟨422, message⟩

def msgBlankValue := "value must not be blank"
def msgUnknownMethod := "method must be one of typed, chosen, pointed, undone"
def msgRegionDisagrees := "only a pointed correction carries a region"
def msgRegionBox :=
  "region must be a normalised box: page at least 1, 0 <= x0 <= x1 <= 1 and 0 <= y0 <= y1 <= 1"
def msgBadIssueDate := "issue_date must be a date this system can read"
def msgBadDueDate := "due_date must be a date this system can read"
def msgUnknownField := "this document field is not one we file on an invoice"
def msgInvoiceNumberSet := "invoice_number identifies the invoice and is not corrected here"
def msgSupplierField :=
  "supplier_tin and supplier_name come from the client record, not from the document"
def msgOriginalNumber := "the original invoice is chosen in the picker, not corrected here"
def msgValueRefused := "the invoice refused this value"

def originalNumberField := "original_invoice_number"

def lockedFields : List (String × String) :=
  [("invoice_number", msgInvoiceNumberSet), ("supplier_tin", msgSupplierField),
    ("supplier_name", msgSupplierField)]

structure CorrectionRequest where
  value : String
  method : String
  region : Option Region := none
  anchorLabel : String := ""

structure CorrectionWrite where
  field : String
  value : String
  method : CorrectionMethod
  region : Option Region := none
  anchorLabel : String := ""

def refuseField (field : String) : Except Refusal Unit :=
  if field = originalNumberField then throw (unprocessable msgOriginalNumber)
  else if field ∈ headerFields then pure ()
  else throw (unprocessable msgUnknownField)

def lockedFieldFlagged (rows : List FieldResultRow) (field : String) : Bool :=
  rankZeroReason rows field = some .ambiguous || rankZeroReason rows field = some .unreadable

def refuseLocked (rows : List FieldResultRow) (field : String) : Except Refusal Unit :=
  match lockedFields.lookup field with
  | some message =>
    if lockedFieldFlagged rows field then pure () else throw (unprocessable message)
  | none => pure ()

def parseMethod (method : String) : Option CorrectionMethod :=
  if method = "typed" then some .typed
  else if method = "chosen" then some .chosen
  else if method = "pointed" then some .pointed
  else if method = "undone" then some .undone
  else none

def normalisedBox (r : Region) : Bool :=
  1 ≤ r.page && 0 ≤ r.x0 && r.x0 ≤ r.x1 && r.x1 ≤ 1 && 0 ≤ r.y0 && r.y0 ≤ r.y1 && r.y1 ≤ 1

def checkRegion (method : CorrectionMethod) (region : Option Region) : Except Refusal Unit :=
  if decide (method = .pointed) ≠ region.isSome then throw (badRequest msgRegionDisagrees)
  else if region.all normalisedBox then pure ()
  else throw (badRequest msgRegionBox)

/-- A date is stored as its one reading; two are refused as none is. -/
def correctedValue (field value : String) : Except Refusal String :=
  if field = "issue_date" ∨ field = "due_date" then
    match normalizeDate value with
    | [iso] => pure iso
    | _ => throw (badRequest (if field = "due_date" then msgBadDueDate else msgBadIssueDate))
  else pure value

def correctionRequest (rows : List FieldResultRow) (field : String) (req : CorrectionRequest) :
    Except Refusal CorrectionWrite := do
  refuseField field
  refuseLocked rows field
  if trimSpace req.value = "" then
    throw (badRequest msgBlankValue)
  match parseMethod req.method with
  | none => throw (badRequest msgUnknownMethod)
  | some method =>
    checkRegion method req.region
    let value ← correctedValue field (trimSpace req.value)
    return { field, value, method, region := req.region, anchorLabel := req.anchorLabel }

structure InvoiceEdit where
  column : String
  value : Option String

def invoiceEditFor (field : String) (value : Option String) : Except Refusal InvoiceEdit :=
  if field = "issue_date" ∨ field = "due_date" then
    match value with
    | none => pure ⟨field, none⟩
    | some v =>
      if (parseISO v.toList).isSome then pure ⟨field, some v⟩
      else throw (badRequest msgValueRefused)
  else if field = "invoice_number" then
    if value.isNone then throw (badRequest msgValueRefused) else pure ⟨field, value⟩
  else if field ∈ headerFields ∧ field ≠ originalNumberField then pure ⟨field, value⟩
  else throw (badRequest msgValueRefused)

def CorrectionWrite.applied (w : CorrectionWrite) (rows : List FieldResultRow) : Option String :=
  if w.method = .undone then rankZeroReading rows w.field else some w.value

/-! ### The invoice's side of an edit -/

def noteAmounts : List String := ["subtotal", "vat", "total"]

def noteParties : List String :=
  ["supplier_email", "supplier_telephone", "supplier_street", "supplier_city",
    "supplier_postal_zone", "supplier_country", "supplier_state", "supplier_lga", "buyer_tin",
    "buyer_name", "buyer_email", "buyer_telephone", "buyer_street", "buyer_city",
    "buyer_postal_zone", "buyer_country", "buyer_state", "buyer_lga"]

def supplierColumns : List String := ["supplier_tin", "supplier_name"]

section
variable (newFromString : String → Option ParsedDecimal)

/-- `NotePositive` of a text: an amount below zero loses its sign and keeps its scale. -/
def notePositive (v : String) : Except Refusal String :=
  match newFromString (trimSpace v) with
  | none => throw (badRequest msgValueRefused)
  | some d =>
    if Char.ofNat 0x2212 ∈ v.toList then throw (badRequest msgValueRefused)
    else if d.coefficient < 0 then pure d.absFixed
    else pure v

/-- `noteEdit` of one column. The sentinel that clears an amount is no amount; an undo leaves the
parties alone. -/
def noteEdit (undo : Bool) (edit : InvoiceEdit) : Except Refusal (Option InvoiceEdit) :=
  if edit.column ∈ noteAmounts then
    match edit.value with
    | none => throw (badRequest msgValueRefused)
    | some v => do
      let positive ← notePositive newFromString v
      return some ⟨edit.column, some positive⟩
  else if undo ∧ edit.column ∈ noteParties then pure none
  else pure (some edit)

def editBySourceDocument (documentType : DocumentType) (rows : List FieldResultRow)
    (w : CorrectionWrite) : Except Refusal (Option InvoiceEdit) := do
  let edit ← invoiceEditFor w.field (w.applied rows)
  if documentType = .commercialInvoice then
    return some edit
  noteEdit newFromString (w.method = .undone) edit

end

/-- The supplier as the client's record has it, its TIN in the wire form. -/
structure Client where
  tin : Option String
  name : String

/-- `editTx`: a number has its own UPDATE, and every other one takes the supplier from the client's
record, whatever the edit says of it. -/
def writeColumns (client : Client) (edit : Option InvoiceEdit) (columns : String → Option String) :
    String → Option String :=
  match edit with
  | none => columns
  | some edit => fun column =>
    if edit.column ≠ "invoice_number" ∧ column = "supplier_tin" then client.tin
    else if edit.column ≠ "invoice_number" ∧ column = "supplier_name" then some client.name
    else if column = edit.column then edit.value
    else columns column

structure Review where
  rows : List FieldResultRow
  breaks : List RuleBreakRow := []
  log : List Correction := []
  documentType : DocumentType := .commercialInvoice
  client : Client
  columns : String → Option String
  nextSeq : ℕ := 1

section
variable (newFromString : String → Option ParsedDecimal)
  (learnedLabel : String → Region → Option String)

/-- The row `appendCorrectionTx` inserts; a pointed box that teaches brings its own label. -/
def CorrectionWrite.row (w : CorrectionWrite) (seq : ℕ) : Correction where
  fieldName := w.field
  value := w.value
  method := w.method
  region := w.region
  anchorLabel :=
    let posted := trimSpace w.anchorLabel
    match w.method, w.region with
    | .pointed, some box => ((learnedLabel w.field box).map trimSpace).getD posted
    | _, _ => posted
  seq := seq

def Review.commit (st : Review) (w : CorrectionWrite) (edit : Option InvoiceEdit) (client : Client)
    (seq : ℕ) : Review :=
  { st with
    log := st.log ++ [w.row learnedLabel seq]
    columns := writeColumns client edit st.columns }

def Review.takeSeq (st : Review) : Review := { st with nextSeq := st.nextSeq + 1 }

inductive Task where
  | idle
  | started (w : CorrectionWrite)
  | edited (w : CorrectionWrite) (edit : Option InvoiceEdit) (client : Client)
  | appended (w : CorrectionWrite) (edit : Option InvoiceEdit) (client : Client) (seq : ℕ)

/-- `otherInsert`: the sequence serves every job. `clientSaved`: the record is edited elsewhere. -/
inductive Act where
  | post (field : String) (req : CorrectionRequest)
  | edit
  | append
  | commit
  | rollback
  | otherInsert
  | clientSaved (client : Client)

inductive Lock where
  | invoice

def Task.holds : Task → List Lock
  | edited _ _ _ => [.invoice]
  | appended _ _ _ _ => [.invoice]
  | _ => []

def Task.needs : Task → Act → List Lock
  | started _, .edit => [.invoice]
  | _, _ => []

/-- The invoice may refuse the edit for reasons of its own: that is a `rollback`, as a failure
anywhere is. -/
def next (st : Review) (t : Task) (act : Act) : Option (Review × Task) :=
  match t, act with
  | .idle, .post field req =>
    (correctionRequest st.rows field req).toOption.map fun w => (st, .started w)
  | .idle, .otherInsert => some (st.takeSeq, .idle)
  | .idle, .clientSaved client => some ({ st with client }, .idle)
  | .started w, .edit =>
    match editBySourceDocument newFromString st.documentType st.rows w with
    | .ok edit => some (st, .edited w edit st.client)
    | .error _ => some (st, .idle)
  | .edited w edit client, .append => some (st.takeSeq, .appended w edit client st.nextSeq)
  | .appended w edit client seq, .commit => some (st.commit learnedLabel w edit client seq, .idle)
  | _, .rollback => some (st, .idle)
  | _, _ => none

inductive Move (st : Review) : Task → Act → Review → Task → Prop where
  | post {field req w} (hpost : correctionRequest st.rows field req = .ok w) :
      Move st .idle (.post field req) st (.started w)
  | otherInsert : Move st .idle .otherInsert st.takeSeq .idle
  | clientSaved {client} : Move st .idle (.clientSaved client) { st with client } .idle
  | edit {w edit} (hedit : editBySourceDocument newFromString st.documentType st.rows w = .ok edit) :
      Move st (.started w) .edit st (.edited w edit st.client)
  | refused {w} : Move st (.started w) .edit st .idle
  | append {w edit client} :
      Move st (.edited w edit client) .append st.takeSeq (.appended w edit client st.nextSeq)
  | commit {w edit client seq} :
      Move st (.appended w edit client seq) .commit (st.commit learnedLabel w edit client seq) .idle
  | rollback {t} : Move st t .rollback st .idle

variable {newFromString learnedLabel}

theorem next_move {st st' : Review} {t t' : Task} {act : Act}
    (h : next newFromString learnedLabel st t act = some (st', t')) :
    Move newFromString learnedLabel st t act st' t' := by
  unfold next at h
  split at h
  · obtain ⟨w, hw, hpair⟩ := Option.map_eq_some_iff.mp h
    cases hpair
    exact .post (toOption_eq_some.mp hw)
  · cases h
    exact .otherInsert
  · cases h
    exact .clientSaved
  · split at h
    · rename_i hedit
      cases h
      exact .edit hedit
    · cases h
      exact .refused
  · cases h
    exact .append
  · cases h
    exact .commit
  · cases h
    exact .rollback
  · cases h

theorem holds_next (st : Review) (t : Task) (act : Act) (st' : Review) (t' : Task)
    (h : next newFromString learnedLabel st t act = some (st', t')) :
    ∀ l ∈ t'.holds, l ∈ t.holds ∨ l ∈ t.needs act := by
  intro l hl
  cases next_move h with
  | edit => exact .inr hl
  | append => exact .inl hl
  | post => cases hl
  | otherInsert => cases hl
  | clientSaved => cases hl
  | refused => cases hl
  | commit => cases hl
  | rollback => cases hl

variable (newFromString learnedLabel)

def protocol : Protocol Review Task Act Lock where
  idle := .idle
  holds := Task.holds
  needs _ := Task.needs
  conflicts _ _ := true
  next := next newFromString learnedLabel
  holds_idle := rfl
  conflicts_symm _ _ h := h
  holds_next := holds_next

end
end InvoiceOs.Extraction
