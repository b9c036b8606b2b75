import Mathlib.Algebra.Group.Nat.Defs
import Mathlib.Data.List.Dedup
import Mathlib.Data.Rat.Defs
import InvoiceOs.Errors
import InvoiceOs.Lib.Keyed

/-! What the review screen shows of a job: the stored readings, the rule breaks over them, and
the latest correction of each field over both. -/

namespace InvoiceOs.Extraction

open Lib

structure Region where
  page : ℤ
  x0 : ℚ
  y0 : ℚ
  x1 : ℚ
  y1 : ℚ
  deriving DecidableEq

/-- The `reason_code` words; no doubt is no reason. -/
inductive Reason where
  | unreadable
  | ambiguous
  | inconsistent
  | missing
  | ruleBreak
  deriving DecidableEq, Repr

def headerFields : List String :=
  ["invoice_number", "issue_date", "supplier_tin", "supplier_name", "buyer_tin", "buyer_name",
    "currency", "subtotal", "vat", "total", "due_date", "buyer_email", "buyer_telephone",
    "buyer_street", "buyer_city", "buyer_postal_zone", "buyer_country", "buyer_state",
    "buyer_lga", "original_invoice_number"]

def lineRoles : List String :=
  ["description", "quantity", "unit_price", "line_total", "line_tax", "tax_category", "hsn_code",
    "isic_code", "sellers_item_identification", "price_unit"]

def lineItemsField : String := "line_items"

structure FieldResultRow where
  id : Uuid
  createdAt : ℕ
  fieldName : String
  value : Option String := none
  region : Option Region := none
  reasonCode : Option Reason := none
  candidateRank : ℕ := 0

inductive CorrectionMethod where
  | typed
  | chosen
  | pointed
  | undone
  deriving DecidableEq, Repr

/-- An `extraction_field_corrections` row; `superseded` is of the read alone. -/
structure Correction where
  fieldName : String
  value : String
  method : CorrectionMethod
  region : Option Region := none
  anchorLabel : String := ""
  seq : ℕ
  superseded : Option String := none
  deriving DecidableEq

structure ExtractionCandidate where
  value : Option String
  region : Option Region
  deriving DecidableEq

structure ExtractionCorrected where
  method : CorrectionMethod
  was : Option String
  whereFrom : Option String := none
  deriving DecidableEq

structure ExtractionRuleBreak where
  key : String
  message : String
  deriving DecidableEq

structure ExtractionFieldState where
  name : String
  value : Option String := none
  region : Option Region := none
  reason : Option Reason := none
  alternatives : List ExtractionCandidate := []
  corrected : Option ExtractionCorrected := none
  rules : List ExtractionRuleBreak := []
  deriving DecidableEq

/-! ### The readings -/

/-- `ORDER BY created_at, field_name, candidate_rank, id`. -/
def FieldResultRow.le (a b : FieldResultRow) : Bool :=
  (((compare a.createdAt b.createdAt).then (compare a.fieldName b.fieldName)).then
    (compare a.candidateRank b.candidateRank)).then (compare a.id b.id) |>.isLE

def resultRows (rows : List FieldResultRow) : List FieldResultRow :=
  rows.insertionSort fun a b => a.le b = true

def decided (r : FieldResultRow) : ExtractionFieldState where
  name := r.fieldName
  value := r.value
  region := r.region
  reason := r.reasonCode

def withAlternative (r : FieldResultRow) (f : ExtractionFieldState) : ExtractionFieldState :=
  { f with alternatives := f.alternatives ++ [⟨r.value, r.region⟩] }

def addAlternative (out : List ExtractionFieldState) (r : FieldResultRow) :
    List ExtractionFieldState :=
  modifyKey ExtractionFieldState.name out r.fieldName (withAlternative r)

def detailFields (rows : List FieldResultRow) : List ExtractionFieldState :=
  let buf := resultRows rows
  (buf.filter fun r => r.candidateRank ≠ 0).foldl addAlternative
    ((buf.filter fun r => r.candidateRank = 0).map decided)

/-- The newest row of rank 0 for the field: `created_at DESC, id DESC LIMIT 1`. -/
def rankZero (rows : List FieldResultRow) (field : String) : Option FieldResultRow :=
  ((rows.filter fun r => r.fieldName = field ∧ r.candidateRank = 0).insertionSort fun a b =>
    ((compare b.createdAt a.createdAt).then (compare b.id a.id)).isLE = true).head?

def rankZeroReading (rows : List FieldResultRow) (field : String) : Option String :=
  (rankZero rows field).bind FieldResultRow.value

def rankZeroReason (rows : List FieldResultRow) (field : String) : Option Reason :=
  (rankZero rows field).bind FieldResultRow.reasonCode

structure RuleBreakRow where
  field : String
  ruleBreak : ExtractionRuleBreak

/-- A stored break flags a clean field that has a value; another reason wins. -/
def ruleBreakField (b : RuleBreakRow) (f : ExtractionFieldState) : ExtractionFieldState :=
  if f.value.isNone ∨ (f.reason.isSome ∧ f.reason ≠ some .ruleBreak) then f
  else { f with reason := some .ruleBreak, rules := f.rules ++ [b.ruleBreak] }

def applyRuleBreak (fields : List ExtractionFieldState) (b : RuleBreakRow) :
    List ExtractionFieldState :=
  modifyKey ExtractionFieldState.name fields b.field (ruleBreakField b)

def applyRuleBreaks (fields : List ExtractionFieldState) (breaks : List RuleBreakRow) :
    List ExtractionFieldState :=
  breaks.foldl applyRuleBreak fields

/-! ### The corrections -/

/-- One partition of the window: the field's rows, the newest first. -/
def fieldCorrections (log : List Correction) (field : String) : List Correction :=
  (log.filter fun c => c.fieldName = field).insertionSort fun a b => b.seq ≤ a.seq

/-- Row 1 of a partition, with the value of the row it leads. -/
def latestOf : List Correction → Option Correction
  | [] => none
  | c :: older => some { c with superseded := older.head?.map Correction.value }

def latestCorrectionsPerField (log : List Correction) : List Correction :=
  ((log.map Correction.fieldName).dedup.insertionSort (· ≤ ·)).filterMap fun field =>
    latestOf (fieldCorrections log field)

def chosenRegion (f : ExtractionFieldState) (value : String) : Option Region :=
  match f.alternatives.find? fun a => a.value = some value with
  | some a => a.region
  | none => f.region

def settle (f : ExtractionFieldState) (c : Correction) : ExtractionFieldState where
  name := f.name
  value := some c.value
  region :=
    match c.method with
    | .chosen => chosenRegion f c.value
    | .pointed => c.region <|> f.region
    | _ => f.region
  reason := none
  alternatives := []
  corrected := some {
    method := c.method
    was := c.superseded <|> f.value
    whereFrom := if c.anchorLabel = "" then none else some c.anchorLabel }
  rules := []

def mergeCorrection (acc : List ExtractionFieldState × List ExtractionFieldState) (c : Correction) :
    List ExtractionFieldState × List ExtractionFieldState :=
  if c.method = .undone then acc
  else
    match indexOfKey ExtractionFieldState.name acc.1 c.fieldName with
    | some i => (acc.1.modify i fun f => settle f c, acc.2)
    | none => (acc.1, acc.2 ++ [settle { name := c.fieldName } c])

/-- `Atoi` and back: a number from 1, without a sign or a leading zero. -/
def parseLineIndex (digits : List Char) : Option ℕ :=
  let n := digits.foldl (fun n c => 10 * n + (c.toNat - 48)) 0
  if digits ≠ [] ∧ digits.all Char.isDigit ∧ digits.head? ≠ some '0' ∧ n < 2 ^ 63 then some n
  else none

def cutPrefix : List Char → List Char → Option (List Char)
  | [], cs => some cs
  | p :: ps, c :: cs => if p = c then cutPrefix ps cs else none
  | _ :: _, [] => none

def cutAtRole : List Char → Option (List Char × List Char)
  | ']' :: '.' :: rest => some ([], rest)
  | c :: cs => (cutAtRole cs).map fun e => (c :: e.1, e.2)
  | [] => none

def parseLineFieldName (name : String) : Option (ℕ × String) := do
  let rest ← cutPrefix "line_items[".toList name.toList
  let (digits, role) ← cutAtRole rest
  let index ← parseLineIndex digits
  if String.ofList role ∈ lineRoles then some (index, String.ofList role) else none

def lineFieldName (index : ℕ) (role : String) : String :=
  "line_items[" ++ toString index ++ "]." ++ role

structure LineItemInput where
  cell : String → Option String

section
variable (parseLineItemsJSON : String → Option (List LineItemInput))

def expandLine (read : List ExtractionFieldState) (c : Correction) (prior : List LineItemInput)
    (i : ℕ) (line : LineItemInput) : List ExtractionFieldState :=
  lineRoles.filterMap fun role =>
    (line.cell role).map fun value =>
      let name := lineFieldName (i + 1) role
      let reading := (read.reverse.find? fun f => f.name = name).getD { name := name }
      let priorCell := (prior[i]?).bind fun l => l.cell role
      { name := name
        value := some value
        region := reading.region
        corrected := some { method := c.method, was := priorCell <|> reading.value } }

/-- The line-items correction over the cells, in the place of the first of them. -/
def expandLineCorrection (fields : List ExtractionFieldState) (corrections : List Correction) :
    List ExtractionFieldState :=
  let isCell := fun f : ExtractionFieldState => (parseLineFieldName f.name).isSome
  match corrections.reverse.find? fun c => c.fieldName = lineItemsField ∧ c.method ≠ .undone with
  | none => fields
  | some c =>
    match parseLineItemsJSON c.value with
    | none => fields
    | some lines =>
      let prior := (c.superseded.bind parseLineItemsJSON).getD []
      let read := fields.filter isCell
      let head := fields.takeWhile fun f => !isCell f
      let tail := (fields.dropWhile fun f => !isCell f).filter fun f => !isCell f
      head ++ (lines.mapIdx (expandLine read c prior)).flatten ++ tail

def mergeCorrections (fields : List ExtractionFieldState) (corrections : List Correction) :
    List ExtractionFieldState :=
  let acc := corrections.foldl mergeCorrection (fields, [])
  expandLineCorrection parseLineItemsJSON
    (acc.1 ++ acc.2.insertionSort fun a b => a.name ≤ b.name) corrections

def mergedDetail (rows : List FieldResultRow) (breaks : List RuleBreakRow)
    (log : List Correction) : List ExtractionFieldState :=
  mergeCorrections parseLineItemsJSON (applyRuleBreaks (detailFields rows) breaks)
    (latestCorrectionsPerField log)

end
end InvoiceOs.Extraction
