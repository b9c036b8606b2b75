import InvoiceOs.Extraction.Tokens

/-! One line of a document, cell by cell: the readings of a cell, and when two cells agree. -/

namespace InvoiceOs.Extraction

open Lib

structure LineCells where
  description : Option String := none
  quantity : Option String := none
  unitPrice : Option String := none
  lineTotal : Option String := none
  lineTax : Option String := none
  taxCategory : Option String := none
  hsnCode : Option String := none
  isicCode : Option String := none
  sellersItem : Option String := none
  priceUnit : Option String := none
  deriving DecidableEq

abbrev AILine := LineCells

structure DocLine extends LineCells where
  index : ℕ
  region : Option Region := none
  regions : String → Option Region := fun _ => none

def LineCells.cell (l : LineCells) : String → Option String
  | "description" => l.description
  | "quantity" => l.quantity
  | "unit_price" => l.unitPrice
  | "line_total" => l.lineTotal
  | "line_tax" => l.lineTax
  | "tax_category" => l.taxCategory
  | "hsn_code" => l.hsnCode
  | "isic_code" => l.isicCode
  | "sellers_item_identification" => l.sellersItem
  | "price_unit" => l.priceUnit
  | _ => none

/-! ### Readings of a cell -/

/-- `strings.TrimRight(s, "0")`. -/
def trimRightZeros (s : String) : String := String.ofList (s.toList.rdropWhile (· = '0'))

def aliTrimTrailingZeros (s : String) : String :=
  if s.toList.contains '.' then trimSuffix (trimRightZeros s) '.' else s

variable (toLower : Char → Char)

def aitLoose (s : String) : String := String.ofList ((collapse s).toList.map toLower)

/-- The acceptable readings of one cell; `toLower` is the case table of `strings.ToLower`. -/
def aliRoleReadings (role : String) (raw : String) : List String :=
  if trimSpace raw = "" then []
  else match role with
    | "description" => [aitLoose toLower raw]
    | "quantity" => ((liNormalizeQuantity raw).map aliTrimTrailingZeros).toList
    | "unit_price" | "line_total" | "line_tax" => (normalizeAmount raw).map aliTrimTrailingZeros
    | "tax_category" | "hsn_code" | "isic_code" | "sellers_item_identification" | "price_unit" =>
      let v := collapse raw
      if v = "" || v.length > 256 then [] else [v]
    | _ => []

def hasCommonReading (a b : List String) : Bool := a.any fun r => b.any fun s => r = s

def aliCellsAgree (role : String) (a k : DocLine) : Bool :=
  match a.cell role, k.cell role with
  | some ac, some kc =>
    hasCommonReading (aliRoleReadings toLower role ac) (aliRoleReadings toLower role kc)
  | _, _ => false

def aliStrongAnchor (a k : DocLine) : Bool :=
  aliCellsAgree toLower "description" a k && aliCellsAgree toLower "line_total" a k

def aliAmountAnchor (a k : DocLine) : Bool := aliCellsAgree toLower "line_total" a k

def aliWriteValue (role : String) (raw : String) : Option String :=
  match role with
  | "description" => liNormalizeDescription raw
  | "quantity" => liNormalizeQuantity raw
  | "unit_price" | "line_total" | "line_tax" => (normalizeAmount raw).head?
  | "tax_category" | "hsn_code" | "isic_code" | "sellers_item_identification" | "price_unit" =>
    some (trimSpace raw)
  | _ => none

/-- Every run of words, as `line[starts[wi]:ends[wj-1]]` cuts it. -/
def wordRuns (words : List String) : List String :=
  words.tails.flatMap fun rest =>
    (List.range rest.length).map fun n => " ".intercalate (rest.take (n + 1))

def aliLinePresent (role : String) (raw : String) (pages : List TokenPage) : Bool :=
  let want := aliRoleReadings toLower role raw
  !want.isEmpty && pages.any fun p => p.tokens.any fun t =>
    (wordRuns (fields t.text)).any fun run =>
      hasCommonReading (aliRoleReadings toLower role run) want

/-! ### Lines of the two sides -/

def aliAIDocLine (index : ℕ) (l : AILine) : DocLine := { index, toLineCells := l }

/-- The value of a row that is there; a row without one is dereferenced all the same. -/
def derefValue : Option FieldResult → Option (Option String)
  | none => some none
  | some r => r.value.map some

def aliEngineDocLine (index : ℕ) (cells : String → Option FieldResult) : Option DocLine := do
  some {
    index
    description := ← derefValue (cells "description")
    quantity := ← derefValue (cells "quantity")
    unitPrice := ← derefValue (cells "unit_price")
    lineTotal := ← derefValue (cells "line_total")
    lineTax := ← derefValue (cells "line_tax")
    taxCategory := ← derefValue (cells "tax_category")
    hsnCode := ← derefValue (cells "hsn_code")
    isicCode := ← derefValue (cells "isic_code")
    sellersItem := ← derefValue (cells "sellers_item_identification")
    priceUnit := ← derefValue (cells "price_unit") }

end InvoiceOs.Extraction
