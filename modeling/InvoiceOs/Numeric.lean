import Mathlib.Algebra.Ring.Int.Defs
import Mathlib.Algebra.Ring.Nat
import Mathlib.Data.Int.Order.Basic
import Mathlib.Order.Basic

/-! Amounts: the `numeric(14,2)` columns and the decimals Go parses out of their text.
Both are counted in hundredths. -/

namespace InvoiceOs

abbrev Decimal := ℤ

/-- A `numeric(14,2)` value; the column type accepts `NaN` beside the numbers. -/
inductive Numeric where
  | nan
  | hundredths (n : ℤ)
  deriving DecidableEq, Repr

namespace Numeric

/-- The `::text` projection: a sign, the whole part, and always two decimals. -/
def text : Numeric → String
  | .nan => "NaN"
  | .hundredths n =>
    (if n < 0 then "-" else "") ++ toString (n.natAbs / 100) ++ "." ++
      toString (n.natAbs % 100 / 10) ++ toString (n.natAbs % 10)

/-- `decimal.NewFromString` on the column's text: decimal has no `NaN`. -/
def newFromString : Numeric → Option Decimal
  | .nan => none
  | .hundredths n => some n

end Numeric

/-- A nullable column read as text and parsed; NULL and `NaN` both read as absent. -/
def parseTotal (text : Option Numeric) : Option Decimal :=
  text.bind Numeric.newFromString

/-- A `decimal.Decimal` with its own scale: the coefficient times ten to the exponent. -/
structure ParsedDecimal where
  coefficient : ℤ
  exponent : ℤ
  deriving DecidableEq

namespace ParsedDecimal

def hundredths (d : ParsedDecimal) : ℤ := d.coefficient * 10 ^ (d.exponent + 2).toNat

/-- `d.Abs().StringFixed(max(0, -d.Exponent()))`. -/
def absFixed (d : ParsedDecimal) : String :=
  let places := (-d.exponent).toNat
  let n := d.coefficient.natAbs * 10 ^ d.exponent.toNat
  if places = 0 then toString n
  else
    let fraction := (toString (n % 10 ^ places)).toList
    toString (n / 10 ^ places) ++ "." ++
      String.ofList (List.replicate (places - fraction.length) '0' ++ fraction)

end ParsedDecimal

end InvoiceOs
