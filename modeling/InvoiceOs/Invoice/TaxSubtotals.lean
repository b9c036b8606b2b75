import InvoiceOs.Invoice.ContentStream
import InvoiceOs.Invoice.NoteAmounts
import InvoiceOs.Submission.Canonical
import InvoiceOs.Text

/-! The tax of each category of an invoice's lines, derived from the stored lines, and the canonical
invoice that carries it. -/

namespace InvoiceOs.Invoice

/-! ### The derivation -/

structure TaxSubtotal where
  taxCategory : String
  taxPercent : Option String
  taxableAmount : Option String
  taxAmount : Option String
  deriving DecidableEq

/-- A running sum that goes absent on a NULL or non-decimal member. -/
structure TaxSum where
  total : ℚ := 0
  absent : Bool := false

structure SubtotalGroup where
  key : String × Option String
  taxable : TaxSum := {}
  taxes : TaxSum := {}

/-- A line's category and exact percent; an uncategorised line joins no group. -/
def lineKey (l : LineItem) : Option (String × Option String) :=
  l.taxCategory.map fun c => (c, l.taxPercent)

section
variable (newFromString : String → Option ℚ)

def TaxSum.add (s : TaxSum) (v : Option String) : TaxSum :=
  if s.absent then s
  else match v.bind newFromString with
    | none => { s with absent := true }
    | some d => { s with total := s.total + d }

def SubtotalGroup.add (g : SubtotalGroup) (l : LineItem) : SubtotalGroup :=
  { g with
    taxable := g.taxable.add newFromString l.lineTotal
    taxes := g.taxes.add newFromString l.lineTax }

def addSubtotalLine (groups : List SubtotalGroup) (l : LineItem) : List SubtotalGroup :=
  match lineKey l with
  | none => groups
  | some key =>
    if groups.any fun g => g.key = key then
      groups.map fun g => if g.key = key then g.add newFromString l else g
    else groups ++ [SubtotalGroup.add newFromString { key := key } l]

def TaxSum.text (s : TaxSum) : Option String :=
  if s.absent then none else some (stringFixedTwo (roundTwo s.total))

def SubtotalGroup.subtotal (g : SubtotalGroup) : TaxSubtotal where
  taxCategory := g.key.1
  taxPercent := g.key.2
  taxableAmount := g.taxable.text
  taxAmount := g.taxes.text

def taxSubtotals (lines : List LineItem) : List TaxSubtotal :=
  ((sortLines lines).foldl (addSubtotalLine newFromString) []).map SubtotalGroup.subtotal

end

def storedLines (rest : ℕ → LineItem) (lines : List NoteMoneyLine) (out : NoteMoney) :
    List LineItem :=
  lines.zipIdx.map fun li =>
    { rest li.2 with
      lineNo := li.2 + 1
      quantity := some li.1.quantity
      unitPrice := some li.1.unitPrice
      lineTotal := out.lineTotals[li.2]?
      lineTax := out.lineTaxes.getD li.2 none
      taxCategory := li.1.taxCategory
      taxPercent := li.1.taxPercent }

def canonicalTaxSubtotals (subtotals : List TaxSubtotal) : List Submission.TaxSubtotal :=
  subtotals.map fun t =>
    { category := t.taxCategory
      percent := t.taxPercent
      taxableAmount := t.taxableAmount
      taxAmount := t.taxAmount }

structure Hydrated where
  id : Uuid
  header : Header
  documentType : DocumentType := .commercialInvoice
  original : Option Submission.BillingReference := none
  lineItems : List Line := []

def canonicalLine (li : Line) : Submission.CanonicalLine where
  lineID := li.id.text
  lineNo := li.lineNo
  description := li.description
  quantity := li.quantity
  unitPrice := li.unitPrice
  lineTotal := li.lineTotal
  lineTax := li.lineTax
  taxCategory := li.taxCategory
  hsnCode := li.hsnCode
  isicCode := li.isicCode
  productCategory := li.productCategory
  serviceCategory := li.serviceCategory
  sellersItemIdentification := li.sellersItemIdentification
  priceUnit := li.priceUnit
  taxPercent := li.taxPercent
  baseQuantity := li.baseQuantity

def dateTime (d : Date) : Submission.Time := { date := d }

def submissionCanonical (newFromString : String → Option ℚ) (inv : Hydrated) :
    Submission.Canonical where
  invoiceID := inv.id.text
  invoiceNumber := inv.header.invoiceNumber
  documentType := inv.documentType
  billingReference := inv.original
  issueDate := inv.header.issueDate.map dateTime
  supplier :=
    { tin := inv.header.supplierTIN
      name := inv.header.supplierName
      email := inv.header.nrs.supplierEmail
      telephone := inv.header.nrs.supplierTelephone
      street := inv.header.nrs.supplierStreet
      city := inv.header.nrs.supplierCity
      postalZone := inv.header.nrs.supplierPostalZone
      country := inv.header.nrs.supplierCountry
      state := inv.header.nrs.supplierState
      lga := inv.header.nrs.supplierLGA }
  buyer :=
    { tin := inv.header.buyerTIN
      name := inv.header.buyerName
      email := inv.header.nrs.buyerEmail
      telephone := inv.header.nrs.buyerTelephone
      street := inv.header.nrs.buyerStreet
      city := inv.header.nrs.buyerCity
      postalZone := inv.header.nrs.buyerPostalZone
      country := inv.header.nrs.buyerCountry
      state := inv.header.nrs.buyerState
      lga := inv.header.nrs.buyerLGA }
  currency := inv.header.currency
  subtotal := inv.header.subtotal.map Numeric.text
  vat := inv.header.vat.map Numeric.text
  total := inv.header.total.map Numeric.text
  lines := inv.lineItems.map canonicalLine
  invoiceKind := inv.header.nrs.invoiceKind
  taxCurrencyCode := inv.header.nrs.taxCurrencyCode
  dueDate := inv.header.nrs.dueDate.map dateTime
  issueTime := inv.header.nrs.issueTime
  taxPointDate := inv.header.nrs.taxPointDate.map dateTime
  paymentStatus := inv.header.nrs.paymentStatus
  taxSubtotals := canonicalTaxSubtotals
    (taxSubtotals newFromString (inv.lineItems.map Line.toLineItem))

end InvoiceOs.Invoice
