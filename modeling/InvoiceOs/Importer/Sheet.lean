import InvoiceOs.Lib.Keyed
import InvoiceOs.Lib.Table
import InvoiceOs.Lib.Timestamp
import InvoiceOs.Invoice.Content
import InvoiceOs.Importer.Cells

/-! A decoded spreadsheet: its mapped columns, its rows grouped by invoice number, and the checks
that keep a group from becoming an invoice. -/

namespace InvoiceOs.Importer

open Lib Invoice

/-! ### The fields -/

/-- A field under its import key; `lead` marks the original ones. -/
structure Field where
  key : String
  type : FieldType
  line : Bool := false
  lead : Bool := false

def importFields : List Field :=
  [{ key := "invoice_number", type := .text, lead := true },
    { key := "issue_date", type := .date, lead := true },
    { key := "buyer_tin", type := .text, lead := true },
    { key := "buyer_name", type := .text, lead := true },
    { key := "currency", type := .text, lead := true },
    { key := "subtotal", type := .money, lead := true },
    { key := "vat", type := .money, lead := true },
    { key := "total", type := .money, lead := true },
    { key := "invoice_kind", type := .code },
    { key := "tax_currency_code", type := .code },
    { key := "due_date", type := .date },
    { key := "issue_time", type := .time },
    { key := "tax_point_date", type := .date },
    { key := "payment_status", type := .text },
    { key := "buyer_email", type := .text },
    { key := "buyer_telephone", type := .text },
    { key := "buyer_street", type := .text },
    { key := "buyer_city", type := .text },
    { key := "buyer_postal_zone", type := .text },
    { key := "buyer_country", type := .code },
    { key := "buyer_state", type := .code },
    { key := "buyer_lga", type := .code },
    { key := "line_description", type := .text, line := true, lead := true },
    { key := "line_quantity", type := .quantity, line := true, lead := true },
    { key := "line_unit_price", type := .money, line := true, lead := true },
    { key := "line_total", type := .money, line := true },
    { key := "line_tax", type := .money, line := true },
    { key := "line_tax_category", type := .code, line := true },
    { key := "line_hsn_code", type := .code, line := true },
    { key := "line_isic_code", type := .code, line := true },
    { key := "line_product_category", type := .text, line := true },
    { key := "line_service_category", type := .text, line := true },
    { key := "line_sellers_item_identification", type := .text, line := true },
    { key := "line_price_unit", type := .code, line := true },
    { key := "line_tax_percent", type := .percent, line := true },
    { key := "line_base_quantity", type := .quantity, line := true }]

def fieldOf (key : String) : Option Field := importFields.find? fun f => f.key == key

/-- A key that is no field's reads its cell as text. -/
def typeOf (key : String) : FieldType := ((fieldOf key).map Field.type).getD .text

def keysWhere (keep : Field → Bool) : List String := (importFields.filter keep).map Field.key

def numericOrder : List String := keysWhere fun f => isNumericType f.type

def headerNumericOrder : List String := keysWhere fun f => isNumericType f.type && !f.line

def lineNumericOrder : List String := keysWhere fun f => isNumericType f.type && f.line

def dateOrder : List String := keysWhere fun f => f.type = .date

def headerFieldOrder : List String := keysWhere fun f => !f.line && f.key ≠ "invoice_number"

/-- The digits before the point and after it that a column added with the NRS fields holds. -/
def numericRange : String → Option (ℕ × ℕ)
  | "line_total" => some (12, 2)
  | "line_tax" => some (12, 2)
  | "line_tax_percent" => some (12, 2)
  | "line_base_quantity" => some (11, 3)
  | _ => none

/-! ### Cells -/

/-- The cells are valid UTF-8, which the decoder does not check behind a byte order mark. -/
abbrev Sheet := List (List String)

def Sheet.row (rows : Sheet) (i : ℕ) : List String := rows.getD i []

abbrev Columns := String → Option ℕ

inductive ImportErr where
  | validation
  | notFound
  | database
  | upstream
  deriving DecidableEq

def resolveMapping (mapping : Table String String) (header : List String) :
    Except ImportErr Columns :=
  if (mapping.get? "invoice_number").isNone then throw .validation
  else if mapping.rows.any fun e => (fieldOf e.1).isNone || !header.contains e.2 then
    throw .validation
  else pure fun field => (mapping.get? field).bind fun name => header.findIdx? (· == name)

/-- A cell past the end of a short row is blank. -/
def cellAt (row : List String) (idx : ℕ) (field : String) : String :=
  normalizeCell (typeOf field) (row.getD idx "")

/-- The original text fields keep a blank cell. -/
def keepsBlank (field : String) : Bool := (fieldOf field).any fun f => f.type = .text && f.lead

def fieldValue (row : List String) (cols : Columns) (field : String) : Option String :=
  (cols field).bind fun idx =>
    let v := cellAt row idx field
    if trimSpace v = "" && !keepsBlank field then none else some v

theorem daysIn_le (y : ℤ) (m : ℕ) : Timestamp.daysIn y m ≤ 31 := by
  unfold Timestamp.daysIn
  split_ifs <;> decide

def readDate (s : List Char) : Option Date := do
  let (year, s) ← Timestamp.readYear s
  let s ← Timestamp.skip '-' s
  let (month, s) ← Timestamp.readTwo true s
  let s ← Timestamp.skip '-' s
  let (day, s) ← Timestamp.readTwo true s
  if h : s = [] ∧ 1 ≤ month ∧ month ≤ 12 ∧ 1 ≤ day ∧ day ≤ Timestamp.daysIn year month then
    return ⟨year, month, day, h.2.2.1, h.2.2.2.2.trans (daysIn_le year month)⟩
  else none

/-- `^([01][0-9]|2[0-3]):[0-5][0-9]:[0-5][0-9]$`. -/
def validIssueTime (s : String) : Bool :=
  match s.toList with
  | [a, b, ':', c, d, ':', e, f] =>
    (((a == '0' || a == '1') && b.isDigit) || (a == '2' && '0' ≤ b && b ≤ '3')) &&
      ('0' ≤ c && c ≤ '5') && d.isDigit && ('0' ≤ e && e ≤ '5') && f.isDigit
  | _ => false

def issueTimeMsg : String := "issue_time must be HH:MM:SS"

/-- Neither leading zeros nor trailing zero decimals count. -/
def exceedsRange (range : ℕ × ℕ) (v : String) : Bool :=
  let s := unsigned v.toList
  let whole := s.takeWhile (· ≠ '.')
  let frac := (s.dropWhile (· ≠ '.')).drop 1
  decide (range.1 < (whole.dropWhile (· = '0')).length) ||
    decide (range.2 < (frac.rdropWhile (· = '0')).length)

/-! ### Row errors -/

structure RowError where
  row : ℕ := 0
  rows : List ℕ := []
  field : String := ""
  ruleKey : String := ""
  severity : String := ""
  invoiceID : Option Uuid := none
  message : String
  deriving DecidableEq

def sheetRow (headerRow i : ℕ) : ℕ := headerRow + 1 + i

def sheetRows (headerRow : ℕ) (rowIdxs : List ℕ) : List ℕ :=
  (rowIdxs.map (sheetRow headerRow)).insertionSort (· ≤ ·)

def storeDuplicateRowError (headerRow : ℕ) (rowIdxs : List ℕ) (invoiceID : Option Uuid) :
    RowError where
  rows := sheetRows headerRow rowIdxs
  field := "invoice_number"
  ruleKey := "no-duplicate-invoice-number"
  severity := "error"
  invoiceID := invoiceID
  message := "An invoice with this number already exists for this entity."

def blankNumberError (headerRow i : ℕ) : RowError where
  row := sheetRow headerRow i
  message := "blank invoice number: row cannot be grouped"

/-! ### Groups -/

structure InvoiceGroup where
  number : String
  rowIdxs : List ℕ
  deriving DecidableEq

structure Grouped where
  groups : List InvoiceGroup := []
  ungroupable : List ℕ := []

def addRow (groups : List InvoiceGroup) (number : String) (i : ℕ) : List InvoiceGroup :=
  if number ∈ groups.map InvoiceGroup.number then
    modifyKey InvoiceGroup.number groups number fun g => { g with rowIdxs := g.rowIdxs ++ [i] }
  else groups ++ [{ number := number, rowIdxs := [i] }]

def groupRow (number : ℕ → String) (acc : Grouped) (i : ℕ) : Grouped :=
  if trimSpace (number i) = "" then { acc with ungroupable := acc.ungroupable ++ [i] }
  else { acc with groups := addRow acc.groups (number i) i }

def groupRows (number : ℕ → String) (n : ℕ) : Grouped := (List.range n).foldl (groupRow number) {}

/-! ### The checks -/

section
variable (quote : String → String) (cols : Columns) (rows : Sheet) (headerRow : ℕ)

def numberAt (i : ℕ) : String := (rows.row i).getD ((cols "invoice_number").getD 0) ""

def anyCell (rowIdxs : List ℕ) (test : List String → ℕ → Bool) (field : String) : Bool :=
  (cols field).any fun idx => rowIdxs.any fun ri => test (rows.row ri) idx

def commaDecimalField (rowIdxs : List ℕ) : Option String :=
  numericOrder.find? (anyCell cols rows rowIdxs fun row idx => row[idx]?.any isCommaDecimal)

def headerConflictField : List ℕ → Option String
  | [] => none
  | first :: rest => headerFieldOrder.find? fun field =>
    anyCell cols rows rest
      (fun row idx => cellAt row idx field ≠ cellAt (rows.row first) idx field) field

def firstRow (rowIdxs : List ℕ) : List String := (rowIdxs.head?.map rows.row).getD []

def parseDate (field s : String) : Except String (Option Date) :=
  let s := trimSpace s
  if s = "" then pure none
  else
    match readDate s.toList with
    | none => throw (field ++ " " ++ quote s ++ " is not in YYYY-MM-DD format")
    | some d => pure (some d)

def dateParseError (rowIdxs : List ℕ) : Option (String × String) :=
  dateOrder.findSome? fun field => (fieldValue (firstRow rows rowIdxs) cols field).bind fun v =>
    match parseDate quote field v with
    | .error message => some (field, message)
    | .ok _ => none

def issueTimeError (rowIdxs : List ℕ) : Option String :=
  (fieldValue (firstRow rows rowIdxs) cols "issue_time").bind fun v =>
    if validIssueTime v then none else some issueTimeMsg

def isBadNumber (field : String) (row : List String) (idx : ℕ) : Bool :=
  let v := cellAt row idx field
  v ≠ "" && !decimalNumberRe v.toList

/-- The header fields are read on the first row, the line fields on every row. -/
def bestEffortBadNumericField (rowIdxs : List ℕ) : Option String :=
  (headerNumericOrder.find? fun field =>
      anyCell cols rows (rowIdxs.take 1) (isBadNumber field) field).or
    (lineNumericOrder.find? fun field => anyCell cols rows rowIdxs (isBadNumber field) field)

def numericRangeField (rowIdxs : List ℕ) : Option String :=
  lineNumericOrder.find? fun field => (numericRange field).any fun range =>
    anyCell cols rows rowIdxs (fun row idx => exceedsRange range (cellAt row idx field)) field

variable (existing : String → Option Uuid)

def groupError (g : InvoiceGroup) (field message : String) : RowError :=
  { rows := sheetRows headerRow g.rowIdxs, field := field, message := message }

def rangeMessage (field : String) : String :=
  let range := (numericRange field).getD (0, 0)
  field ++ " must have at most " ++ toString range.1 ++ " digits before the decimal point and " ++
    toString range.2 ++ " after"

def checks (g : InvoiceGroup) : List (Option RowError) :=
  [(commaDecimalField cols rows g.rowIdxs).map fun field => groupError headerRow g field
      (field ++ " uses a comma as the decimal mark; write it with a dot, e.g. 1234.56"),
    (headerConflictField cols rows g.rowIdxs).map fun field =>
      groupError headerRow g field ("rows disagree on " ++ field),
    (dateParseError quote cols rows g.rowIdxs).map fun e => groupError headerRow g e.1 e.2,
    (issueTimeError cols rows g.rowIdxs).map fun message =>
      groupError headerRow g "issue_time" message,
    (bestEffortBadNumericField cols rows g.rowIdxs).map fun field =>
      groupError headerRow g field (field ++ " is not a valid number"),
    (numericRangeField cols rows g.rowIdxs).map fun field =>
      groupError headerRow g field (rangeMessage field),
    (existing g.number).map fun id => storeDuplicateRowError headerRow g.rowIdxs (some id)]

def classify (g : InvoiceGroup) : Option RowError :=
  (checks quote cols rows headerRow existing g).findSome? id

end

end InvoiceOs.Importer
