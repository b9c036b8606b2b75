import InvoiceOs.Invoice.NoteAmounts

/-! The wizard's money: totals and line taxes of a draft, on scaled integers. -/

namespace InvoiceOs.Invoice

open Lib

structure DraftLine where
  qty : String
  price : String
  taxCategory : String := ""
  taxPercent : String := ""

/-! ### Scaled integers -/

/-- A decimal, `u` times ten to the minus `s`. -/
structure Scaled where
  u : ℤ
  s : ℕ

def digitsValue (cs : List Char) : ℕ := Nat.ofDigitChars 10 cs 0

def readWholePart : List Char → Option (List Char × List Char)
  | '0' :: rest => some (['0'], rest)
  | cs =>
    match cs.takeWhile Char.isDigit with
    | [] => none
    | whole => some (whole, cs.dropWhile Char.isDigit)

/-- `(\.[0-9]+)?`. -/
def readFractionPart : List Char → Option (List Char × List Char)
  | '.' :: rest =>
    match rest.takeWhile Char.isDigit with
    | [] => none
    | frac => some (frac, rest.dropWhile Char.isDigit)
  | cs => some ([], cs)

def readExponentDigits (cs : List Char) : Option ℕ :=
  if cs ≠ [] ∧ cs.all Char.isDigit then some (digitsValue cs) else none

/-- `([eE][+-]?[0-9]+)?$`. -/
def readExponentPart : List Char → Option ℤ
  | [] => some 0
  | c :: cs =>
    if c = 'e' ∨ c = 'E' then
      match cs with
      | '-' :: ds => (readExponentDigits ds).map fun n => -(n : ℤ)
      | '+' :: ds => (readExponentDigits ds).map fun n => (n : ℤ)
      | ds => (readExponentDigits ds).map fun n => (n : ℤ)
    else none

/-- An exponent past the fraction is folded into the integer. -/
def scaled (negative : Bool) (whole frac : List Char) (exponent : ℤ) : Scaled :=
  let u : ℤ := digitsValue (whole ++ frac)
  let s : ℤ := frac.length - exponent
  let u := if s < 0 then u * 10 ^ (-s).toNat else u
  ⟨if negative then -u else u, s.toNat⟩

def parseScaled (raw : String) : Option Scaled := do
  let (negative, cs) := match raw.toList with
    | '-' :: cs => (true, cs)
    | cs => (false, cs)
  let (whole, cs) ← readWholePart cs
  let (frac, cs) ← readFractionPart cs
  let exponent ← readExponentPart cs
  pure (scaled negative whole frac exponent)

def mulScaled (a b : Scaled) : Scaled := ⟨a.u * b.u, a.s + b.s⟩

def addScaled (a b : Scaled) : Scaled :=
  let s := max a.s b.s
  ⟨a.u * 10 ^ (s - a.s) + b.u * 10 ^ (s - b.s), s⟩

def stripZeros (mantissa : ℤ) : ℕ → ℤ × ℕ
  | 0 => (mantissa, 0)
  | s + 1 => if s + 1 > 2 ∧ mantissa % 10 = 0 then stripZeros (mantissa / 10) s else (mantissa, s + 1)

def padStart (n : ℕ) (cs : List Char) : List Char := List.replicate (n - cs.length) '0' ++ cs

def renderScaled (a : Scaled) : String :=
  let (mantissa, scale) := if a.s < 2 then (a.u * 10 ^ (2 - a.s), 2) else (a.u, a.s)
  let (mantissa, scale) := stripZeros mantissa scale
  let digits := padStart (scale + 1) (toString mantissa.natAbs).toList
  let cut := digits.length - scale
  String.ofList ((if mantissa < 0 then ['-'] else []) ++ digits.take cut ++ '.' :: digits.drop cut)

/-- Half-up in magnitude, to at most two places. -/
def round2 (a : Scaled) : Scaled :=
  if a.s ≤ 2 then a
  else
    let divisor : ℕ := 10 ^ (a.s - 2)
    let magnitude := a.u.natAbs
    let truncated := magnitude / divisor
    let rounded : ℕ := if magnitude % divisor * 2 ≥ divisor then truncated + 1 else truncated
    ⟨if a.u < 0 then -rounded else rounded, 2⟩

/-- A rounded value as whole kobo, or hundredths of a percent. -/
def toKobo (a : Scaled) : ℤ := a.u * 10 ^ (2 - a.s)

def koboString (kobo : ℤ) : String := renderScaled ⟨kobo, 2⟩

def vatRate : Scaled := ⟨75, 3⟩

/-! ### The lines -/

def lineAmount (item : DraftLine) : Option Scaled := do
  let quantity ← parseScaled item.qty
  let unitPrice ← parseScaled item.price
  pure (mulScaled quantity unitPrice)

/-- No sum of no line, nor over a line without an amount. -/
def sumAmounts : List (Option Scaled) → Option Scaled
  | [] => none
  | amounts => amounts.foldlM (fun sum amount => amount.map (addScaled sum)) ⟨0, 0⟩

def floorDiv (n d : ℤ) : ℤ := if n ≥ 0 then n.tdiv d else -(-n + d - 1).tdiv d

structure TaxMember where
  index : ℕ
  base : ℤ

structure DraftGroup where
  key : String
  percent : ℤ
  members : List TaxMember

def joinGroup (groups : List DraftGroup) (key : String) (percent : ℤ) (m : TaxMember) :
    List DraftGroup :=
  if groups.any fun g => g.key = key then
    groups.map fun g => if g.key = key then { g with members := g.members ++ [m] } else g
  else groups ++ [⟨key, percent, [m]⟩]

def draftKey (category : String) (hundredths : ℤ) : String := category ++ "|" ++ toString hundredths

def addLine (groups : List DraftGroup) (item : DraftLine) (index : ℕ) : List DraftGroup :=
  if item.taxCategory = "" then groups
  else
    match parseScaled item.taxPercent, lineAmount item with
    | some percent, some amount =>
      let hundredths := toKobo (round2 percent)
      joinGroup groups (draftKey item.taxCategory hundredths) hundredths
        ⟨index, toKobo (round2 amount)⟩
    | _, _ => groups

def draftGroups (items : List DraftLine) : List DraftGroup :=
  items.zipIdx.foldl (fun groups item => addLine groups item.1 item.2) []

def byDraftRemainder (remainders : List ℤ) : List ℕ :=
  (List.range remainders.length).insertionSort fun a b =>
    if remainders.getD a 0 = remainders.getD b 0 then a ≤ b
    else remainders.getD a 0 > remainders.getD b 0

def draftGroupTaxes (percent : ℤ) (members : List TaxMember) : List ℤ :=
  let exact := members.map fun m => m.base * percent
  let sum := exact.sum
  let rounded : ℤ := ((sum.natAbs + 5000) / 10000 : ℕ)
  let groupTax := if sum < 0 then -rounded else rounded
  let floors := exact.map fun e => floorDiv e 10000
  let remainders := exact.map fun e => e - floorDiv e 10000 * 10000
  giveKobo (groupTax - floors.sum) (byDraftRemainder remainders) floors

def lineTaxKobo (items : List DraftLine) : List (Option ℤ) :=
  (draftGroups items).foldl
    (fun taxes g =>
      writeTaxes taxes ((g.members.map TaxMember.index).zip (draftGroupTaxes g.percent g.members)))
    (List.replicate items.length none)

def draftLineTaxes (items : List DraftLine) : List (Option String) :=
  (lineTaxKobo items).map fun kobo => kobo.map koboString

structure DraftTotals where
  subtotal : Option String
  vat : Option String
  total : Option String
  vatLabel : String
  deriving DecidableEq

def draftTotals (items : List DraftLine) : DraftTotals :=
  let subtotal := (sumAmounts (items.map lineAmount)).map round2
  let categorised := items.any fun item => item.taxCategory ≠ ""
  let vat : Option Scaled := subtotal.map fun subtotal =>
    if categorised then ⟨(lineTaxKobo items).foldl (fun sum kobo => sum + kobo.getD 0) 0, 2⟩
    else round2 (mulScaled subtotal vatRate)
  let total := subtotal.bind fun subtotal => vat.map fun vat => round2 (addScaled subtotal vat)
  { subtotal := subtotal.map renderScaled
    vat := vat.map renderScaled
    total := total.map renderScaled
    vatLabel := if categorised then "VAT" else "VAT · 7.5%" }

end InvoiceOs.Invoice
