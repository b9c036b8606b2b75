import InvoiceOs.Invoice.ContentStream
import InvoiceOs.Invoice.Edit
import InvoiceOs.Lib.Keyed

/-! A replace of an invoice's lines: each entry takes the NRS columns it leaves out from the
stored line it continues, by id or by equal content, and no stored line is taken twice. -/

namespace InvoiceOs.Invoice

open Lib

/-- An entry of a line replace: the stored line it names, and whether it named an NRS key,
null included. -/
structure LineEntry extends LineItemInput where
  id : Option String := none
  nrsSent : Bool := false

def LineItemInput.nrsValues (l : LineItemInput) : List (Option String) :=
  [l.taxCategory, l.hsnCode, l.isicCode, l.productCategory, l.serviceCategory,
    l.sellersItemIdentification, l.priceUnit, l.taxPercent, l.baseQuantity]

def hasNRS (l : LineEntry) : Bool :=
  l.nrsSent || l.taxCategory.isSome || l.hsnCode.isSome || l.isicCode.isSome ||
    l.productCategory.isSome || l.serviceCategory.isSome || l.sellersItemIdentification.isSome ||
    l.priceUnit.isSome || l.taxPercent.isSome || l.baseQuantity.isSome

def fillNRS (l : LineEntry) (s : Line) : LineEntry :=
  { l with
    taxCategory := l.taxCategory.or s.taxCategory
    hsnCode := l.hsnCode.or s.hsnCode
    isicCode := l.isicCode.or s.isicCode
    productCategory := l.productCategory.or s.productCategory
    serviceCategory := l.serviceCategory.or s.serviceCategory
    sellersItemIdentification := l.sellersItemIdentification.or s.sellersItemIdentification
    priceUnit := l.priceUnit.or s.priceUnit
    taxPercent := l.taxPercent.or s.taxPercent
    baseQuantity := l.baseQuantity.or s.baseQuantity }

/-- `byID`: the index the map holds under an entry's id. -/
def byID (before : List Line) (id : String) : Option ℕ :=
  indexOfKey (fun b : Line => toLower b.id.text) before (toLower id)

/-- The first pass: the entries with an id. Each entry is given back beside the index it
claimed; `claimed` holds the indices taken so far. -/
def claimByID (before : List Line) :
    List ℕ → List LineEntry → Except Err (List (LineEntry × Option ℕ) × List ℕ)
  | claimed, [] => pure ([], claimed)
  | claimed, l :: ls =>
    match l.id with
    | none => do
      let (out, claimed) ← claimByID before claimed ls
      pure ((l, none) :: out, claimed)
    | some id =>
      match byID before id with
      | none => throw .unknownLineID
      | some j =>
        if j ∈ claimed then throw .unknownLineID
        else do
          let (out, claimed) ← claimByID before (j :: claimed) ls
          pure ((before[j]?.elim l (fillNRS l), some j) :: out, claimed)

section
variable {D : Type} [DecidableEq D] (newFromString : String → Option D)

def sameDecimal : Option String → Option String → Bool
  | none, none => true
  | some a, some b =>
    match newFromString a, newFromString b with
    | some x, some y => x = y
    | _, _ => a = b
  | _, _ => false

def sameLegacyContent (l : LineEntry) (s : Line) : Bool :=
  decide (l.description = s.description) && sameDecimal newFromString l.quantity s.quantity &&
    sameDecimal newFromString l.unitPrice s.unitPrice &&
    sameDecimal newFromString l.lineTotal s.lineTotal &&
    sameDecimal newFromString l.lineTax s.lineTax

def firstUnclaimed (before : List Line) (claimed : List ℕ) (l : LineEntry) : Option (Line × ℕ) :=
  before.zipIdx.find? fun b => decide (b.2 ∉ claimed) && sameLegacyContent newFromString l b.1

def claimByContent (before : List Line) :
    List ℕ → List (LineEntry × Option ℕ) → List (LineEntry × Option ℕ)
  | _, [] => []
  | claimed, (l, c) :: ls =>
    if l.id.isSome || hasNRS l then (l, c) :: claimByContent before claimed ls
    else
      match firstUnclaimed newFromString before claimed l with
      | none => (l, c) :: claimByContent before claimed ls
      | some (s, j) => (fillNRS l s, some j) :: claimByContent before (j :: claimed) ls

def carryClaims (before : List Line) (lines : List LineEntry) :
    Except Err (List (LineEntry × Option ℕ)) := do
  let (out, claimed) ← claimByID before [] lines
  pure (claimByContent newFromString before claimed out)

def carryNRSLines (before : List Line) (lines : List LineEntry) : Except Err (List LineEntry) := do
  let out ← carryClaims newFromString before lines
  pure (out.map Prod.fst)

end

/-! ### The insert -/

/-- A text column: Postgres holds no NUL in one. -/
def textColumn (t : String) : Option String := if hasNUL t then none else some t

def refused (column : String → Option String) (v : Option String) : Bool :=
  v.isSome && (v.bind column).isNone

section
-- `$N::text::numeric` into a column of the given scale, and its text read back
variable (numeric : ℕ → String → Option String)

def insertable (l : LineItemInput) : Bool :=
  !(refused textColumn l.description || refused (numeric 3) l.quantity ||
    refused (numeric 2) l.unitPrice || refused (numeric 2) l.lineTotal ||
    refused (numeric 2) l.lineTax || refused textColumn l.taxCategory ||
    refused textColumn l.hsnCode || refused textColumn l.isicCode ||
    refused textColumn l.productCategory || refused textColumn l.serviceCategory ||
    refused textColumn l.sellersItemIdentification || refused textColumn l.priceUnit ||
    refused (numeric 2) l.taxPercent || refused (numeric 3) l.baseQuantity)

def returned (l : LineItemInput) : LineItemInput where
  description := l.description.bind textColumn
  quantity := l.quantity.bind (numeric 3)
  unitPrice := l.unitPrice.bind (numeric 2)
  lineTotal := l.lineTotal.bind (numeric 2)
  lineTax := l.lineTax.bind (numeric 2)
  taxCategory := l.taxCategory.bind textColumn
  hsnCode := l.hsnCode.bind textColumn
  isicCode := l.isicCode.bind textColumn
  productCategory := l.productCategory.bind textColumn
  serviceCategory := l.serviceCategory.bind textColumn
  sellersItemIdentification := l.sellersItemIdentification.bind textColumn
  priceUnit := l.priceUnit.bind textColumn
  taxPercent := l.taxPercent.bind (numeric 2)
  baseQuantity := l.baseQuantity.bind (numeric 3)

/-- The `INSERT … RETURNING` loop: the rows as the columns hold them. -/
def insertLines (lines : List LineItemInput) : Except Err (List LineItem) :=
  if lines.all (insertable numeric) then pure (replaceLines (lines.map (returned numeric)))
  else throw .validation

variable {D : Type} [DecidableEq D] (newFromString : String → Option D)

def replaceLinesTx (before : List Line) (lines : List LineEntry) : Except Err (List LineItem) := do
  let carried ← carryNRSLines newFromString before lines
  insertLines numeric (carried.map LineEntry.toLineItemInput)

end
end InvoiceOs.Invoice
