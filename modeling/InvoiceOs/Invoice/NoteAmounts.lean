import InvoiceOs.Lib.Apportion
import InvoiceOs.Numeric
import Mathlib.Data.Rat.Floor

/-! The amounts of a credit or debit note: totals, the tax of each line and of the note. A
decimal is a rational; one rounded to two places is counted in hundredths. -/

namespace InvoiceOs.Invoice

open Lib

structure NoteMoneyLine where
  quantity : String
  unitPrice : String
  taxCategory : Option String := none
  taxPercent : Option String := none

structure NoteMoney where
  lineTotals : List String
  lineTaxes : List (Option String)
  subtotal : String
  vat : String
  total : String
  deriving DecidableEq

inductive NoteErr where
  | notPlain (s : String)
  | quantity
  | unitPrice
  | lineTotal
  | total
  deriving DecidableEq

def roundTwo (x : ℚ) : ℤ := halfAway (x * 100)

def stringFixedTwo (n : ℤ) : String := (Numeric.hundredths n).text

def plainMagnitude (cs : List Char) : Option ℚ :=
  let whole := cs.takeWhile Char.isDigit
  match whole, cs.dropWhile Char.isDigit with
  | [], _ => none
  | _, [] => some (Nat.ofDigitChars 10 whole 0)
  | _, '.' :: frac =>
    if frac ≠ [] ∧ frac.all Char.isDigit then
      some (Nat.ofDigitChars 10 (whole ++ frac) 0 / 10 ^ frac.length)
    else none
  | _, _ => none

/-- `^-?[0-9]+(\.[0-9]+)?$`, and the number it spells. -/
def parsePlain (s : String) : Except NoteErr ℚ :=
  let value := match s.toList with
    | '-' :: cs => (plainMagnitude cs).map fun x => -x
    | cs => plainMagnitude cs
  match value with
  | some x => pure x
  | none => throw (.notPlain s)

def noteQuantity (s : String) : Except NoteErr ℚ := do
  let q ← parsePlain s
  if q ≤ 0 ∨ (halfAway (q * 1000) : ℚ) / 1000 ≠ q ∨ 10 ^ 11 ≤ q then
    throw .quantity
  return q

def noteUnitPrice (s : String) : Except NoteErr ℚ := do
  let p ← parsePlain s
  if p < 0 ∨ (roundTwo p : ℚ) / 100 ≠ p ∨ 10 ^ 12 ≤ p then
    throw .unitPrice
  return p

def moneyBound : ℤ := 10 ^ 14

def noteLine (l : NoteMoneyLine) : Except NoteErr (ℚ × ℤ) := do
  let q ← noteQuantity l.quantity
  let p ← noteUnitPrice l.unitPrice
  if moneyBound ≤ roundTwo (q * p) then
    throw .lineTotal
  return (q * p, roundTwo (q * p))

def categorised (l : NoteMoneyLine) : Bool := l.taxCategory.any fun c => c ≠ ""

/-! ### The line taxes -/

def fractionString (r : ℕ) : String :=
  if r = 0 then ""
  else if r % 10 = 0 then "." ++ toString (r / 10)
  else "." ++ toString (r / 10) ++ toString (r % 10)

/-- `decimal.String` of a value in hundredths. -/
def decimalString (n : ℤ) : String :=
  (if n < 0 then "-" else "") ++ toString (n.natAbs / 100) ++ fractionString (n.natAbs % 100)

/-- `pct[i]`, in hundredths; `none` where the line joins no group. -/
def usablePercent (l : NoteMoneyLine) : Option ℤ :=
  if categorised l then
    l.taxPercent.bind fun t => (parsePlain t).toOption.map roundTwo
  else none

def taxGroup (l : NoteMoneyLine) : Option (String × ℤ) :=
  l.taxCategory.bind fun c => (usablePercent l).map fun p => (c, p)

def groupText (g : String × ℤ) : String := g.1 ++ "|" ++ decimalString g.2

def groupKey (l : NoteMoneyLine) : Option String := (taxGroup l).map groupText

def groupOrder (lines : List NoteMoneyLine) : List String :=
  (lines.filterMap groupKey).foldl (fun order key => if key ∈ order then order else order ++ [key])
    []

def members (lines : List NoteMoneyLine) (key : String) : List ℕ :=
  (List.range lines.length).filter fun i => lines[i]?.bind groupKey = some key

/-- `totals[i].Mul(pct[i]).Shift(-2)` in kobo: both factors are in hundredths. -/
def exactTax (total pct : ℤ) : ℚ := total * pct / 10000

def giveKobo : ℤ → List ℕ → List ℤ → List ℤ
  | _, [], floors => floors
  | left, j :: js, floors =>
    if left ≤ 0 then floors else giveKobo (left - 1) js (floors.modify j (· + 1))

def groupTaxes (exact : List ℚ) : List ℤ :=
  let floors := exact.map Int.floor
  let leftover := halfAway exact.sum - floors.sum
  let byRemainder := (List.range exact.length).insertionSort fun a b =>
    exact.getD b 0 - floors.getD b 0 ≤ exact.getD a 0 - floors.getD a 0
  giveKobo leftover byRemainder floors

def percentAt (lines : List NoteMoneyLine) (i : ℕ) : ℤ := (lines[i]?.bind usablePercent).getD 0

def exactTaxes (lines : List NoteMoneyLine) (totals : List ℤ) (key : String) : List ℚ :=
  (members lines key).map fun i => exactTax (totals.getD i 0) (percentAt lines i)

def writeTaxes (taxes : List (Option ℤ)) (written : List (ℕ × ℤ)) : List (Option ℤ) :=
  written.foldl (fun taxes w => taxes.set w.1 (some w.2)) taxes

def lineTaxes (lines : List NoteMoneyLine) (totals : List ℤ) : List (Option ℤ) :=
  (groupOrder lines).foldl
    (fun taxes key =>
      writeTaxes taxes ((members lines key).zip (groupTaxes (exactTaxes lines totals key))))
    (List.replicate lines.length none)

/-! ### The note -/

def noteTaxes (lines : List NoteMoneyLine) (totals : List ℤ) : List (Option ℤ) :=
  if lines.any categorised then lineTaxes lines totals else List.replicate lines.length none

/-- The header VAT: the lines' taxes, or 7.5% of the subtotal where no line is categorised. -/
def noteVAT (lines : List NoteMoneyLine) (totals : List ℤ) (subtotal : ℤ) : ℤ :=
  if lines.any categorised then (lineTaxes lines totals).reduceOption.sum
  else halfAway (subtotal * (75 / 1000) : ℚ)

def noteAmounts (lines : List NoteMoneyLine) : Except NoteErr NoteMoney := do
  let rows ← lines.mapM noteLine
  let totals := rows.map Prod.snd
  let subtotal := roundTwo (rows.map Prod.fst).sum
  let vat := noteVAT lines totals subtotal
  if moneyBound ≤ subtotal + vat then
    throw .total
  return {
    lineTotals := totals.map stringFixedTwo
    lineTaxes := (noteTaxes lines totals).map fun t => t.map stringFixedTwo
    subtotal := stringFixedTwo subtotal
    vat := stringFixedTwo vat
    total := stringFixedTwo (subtotal + vat) }

end InvoiceOs.Invoice
