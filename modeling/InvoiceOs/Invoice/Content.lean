import InvoiceOs.Numeric

/-! An invoice's content, header and lines, and the fingerprint the gate, the edit loop
and the approval runs compare. -/

namespace InvoiceOs.Invoice

structure Date where
  year : ℤ
  month : ℕ
  day : ℕ
  month_le : month ≤ 12 := by decide
  day_le : day ≤ 31 := by decide
  deriving DecidableEq

def padLeft (w n : ℕ) : String :=
  String.ofList (List.replicate (w - (toString n).length) '0') ++ toString n

/-- The year as `time.Format` writes it: four digits behind the sign. -/
def yearText (y : ℤ) : String := (if y < 0 then "-" else "") ++ padLeft 4 y.natAbs

def Date.text (d : Date) : String :=
  yearText d.year ++ "-" ++ padLeft 2 d.month ++ "-" ++ padLeft 2 d.day

structure NRSHeader where
  invoiceKind : Option String := none
  taxCurrencyCode : Option String := none
  dueDate : Option Date := none
  issueTime : Option String := none
  taxPointDate : Option Date := none
  paymentStatus : Option String := none
  supplierEmail : Option String := none
  supplierTelephone : Option String := none
  supplierStreet : Option String := none
  supplierCity : Option String := none
  supplierPostalZone : Option String := none
  supplierCountry : Option String := none
  supplierState : Option String := none
  supplierLGA : Option String := none
  buyerEmail : Option String := none
  buyerTelephone : Option String := none
  buyerStreet : Option String := none
  buyerCity : Option String := none
  buyerPostalZone : Option String := none
  buyerCountry : Option String := none
  buyerState : Option String := none
  buyerLGA : Option String := none
  deriving DecidableEq

def NRSHeader.values (h : NRSHeader) : List (Option String) :=
  [h.invoiceKind, h.taxCurrencyCode, h.dueDate.map Date.text, h.issueTime,
    h.taxPointDate.map Date.text, h.paymentStatus,
    h.supplierEmail, h.supplierTelephone, h.supplierStreet, h.supplierCity,
    h.supplierPostalZone, h.supplierCountry, h.supplierState, h.supplierLGA,
    h.buyerEmail, h.buyerTelephone, h.buyerStreet, h.buyerCity,
    h.buyerPostalZone, h.buyerCountry, h.buyerState, h.buyerLGA]

structure Header where
  invoiceNumber : String
  issueDate : Option Date := none
  supplierTIN : Option String := none
  supplierName : Option String := none
  buyerTIN : Option String := none
  buyerName : Option String := none
  currency : Option String := none
  subtotal : Option Numeric := none
  vat : Option Numeric := none
  total : Option Numeric := none
  nrs : NRSHeader := {}
  deriving DecidableEq

/-- A `line_items` row; the numeric columns in their `::text` projection. -/
structure LineItem where
  lineNo : ℤ
  description : Option String := none
  quantity : Option String := none
  unitPrice : Option String := none
  lineTotal : Option String := none
  lineTax : Option String := none
  taxCategory : Option String := none
  hsnCode : Option String := none
  isicCode : Option String := none
  productCategory : Option String := none
  serviceCategory : Option String := none
  sellersItemIdentification : Option String := none
  priceUnit : Option String := none
  taxPercent : Option String := none
  baseQuantity : Option String := none
  deriving DecidableEq

def LineItem.nrsValues (li : LineItem) : List (Option String) :=
  [li.taxCategory, li.hsnCode, li.isicCode, li.productCategory, li.serviceCategory,
    li.sellersItemIdentification, li.priceUnit, li.taxPercent, li.baseQuantity]

/-- One length-prefixed, NULL-marked field. -/
def writeFingerprintField : Option String → String
  | none => "N;"
  | some v => "S" ++ toString v.utf8ByteSize ++ ":" ++ v ++ ";"

def writeNRSFingerprintFrom (i : ℕ) : List (Option String) → String
  | [] => ""
  | none :: vals => writeNRSFingerprintFrom (i + 1) vals
  | some v :: vals =>
    "X" ++ toString i ++ ";" ++ writeFingerprintField (some v) ++
      writeNRSFingerprintFrom (i + 1) vals

def writeNRSFingerprint (vals : List (Option String)) : String :=
  writeNRSFingerprintFrom 0 vals

def writeLine (li : LineItem) : String :=
  writeFingerprintField (some (toString li.lineNo)) ++ writeFingerprintField li.description ++
    writeFingerprintField li.quantity ++ writeFingerprintField li.unitPrice ++
    writeFingerprintField li.lineTotal ++ writeFingerprintField li.lineTax ++
    writeNRSFingerprint li.nrsValues

def Header.fields (h : Header) : List (Option String) :=
  [some h.invoiceNumber, h.issueDate.map Date.text, h.supplierTIN, h.supplierName, h.buyerTIN,
    h.buyerName, h.currency, h.subtotal.map Numeric.text, h.vat.map Numeric.text,
    h.total.map Numeric.text]

def concatFields : List (Option String) → String
  | [] => ""
  | f :: fs => writeFingerprintField f ++ concatFields fs

/-- Stable insertion by line number: what `sort.SliceStable` leaves. -/
def insertLine (li : LineItem) : List LineItem → List LineItem
  | [] => [li]
  | x :: xs => if li.lineNo ≤ x.lineNo then li :: x :: xs else x :: insertLine li xs

def sortLines : List LineItem → List LineItem
  | [] => []
  | li :: lines => insertLine li (sortLines lines)

def writeLines : List LineItem → String
  | [] => ""
  | li :: lines => writeLine li ++ writeLines lines

def fingerprintStream (h : Header) (lines : List LineItem) : String :=
  concatFields h.fields ++ writeNRSFingerprint h.nrs.values ++
    writeFingerprintField (some (toString lines.length)) ++ writeLines (sortLines lines)

section
variable (sha256 : String → String)

def contentFingerprint (h : Header) (lines : List LineItem) : String :=
  sha256 (fingerprintStream h lines)

end
end InvoiceOs.Invoice
