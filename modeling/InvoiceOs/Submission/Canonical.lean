import InvoiceOs.Approval.Policy
import InvoiceOs.Invoice.Content

/-! The canonical invoice every adapter is handed. Amounts are the text the store reads. -/

namespace InvoiceOs.Submission

open Invoice (Date)

/-- A `time.Time` as its own location shows it: the day, the clock in nanoseconds and the zone's
offset in seconds. -/
structure Time where
  date : Date
  clock : ℕ := 0
  offset : ℤ := 0
  deriving DecidableEq

structure Party where
  tin : Option String := none
  name : Option String := none
  email : Option String := none
  telephone : Option String := none
  street : Option String := none
  city : Option String := none
  postalZone : Option String := none
  country : Option String := none
  state : Option String := none
  lga : Option String := none
  deriving DecidableEq

structure TaxSubtotal where
  category : String
  percent : Option String := none
  taxableAmount : Option String := none
  taxAmount : Option String := none
  deriving DecidableEq

structure BillingReference where
  irn : Option String := none
  issueDate : Option Time := none
  deriving DecidableEq

structure CanonicalLine where
  lineID : String := ""
  lineNo : ℤ
  description : Option String := none
  quantity : Option String := none
  unitPrice : Option String := none
  lineTotal : Option String := none
  lineTax : Option String := none
  taxCategory : Option String := none
  hsnCode : Option String := none
  isicCode : Option String := none
  productCategory : Option String := none
  serviceCategory : Option String := none
  sellersItemIdentification : Option String := none
  priceUnit : Option String := none
  taxPercent : Option String := none
  baseQuantity : Option String := none
  deriving DecidableEq

structure Canonical where
  invoiceID : String := ""
  invoiceNumber : String
  documentType : DocumentType := .commercialInvoice
  issueDate : Option Time := none
  supplier : Party := {}
  buyer : Party := {}
  currency : Option String := none
  subtotal : Option String := none
  vat : Option String := none
  total : Option String := none
  lines : List CanonicalLine := []
  invoiceKind : Option String := none
  taxCurrencyCode : Option String := none
  dueDate : Option Time := none
  issueTime : Option String := none
  taxPointDate : Option Time := none
  paymentStatus : Option String := none
  taxSubtotals : List TaxSubtotal := []
  billingReference : Option BillingReference := none
  deriving DecidableEq

def invoiceTypeCode : DocumentType → String
  | .creditNote => "380"
  | .debitNote => "384"
  | .commercialInvoice => "381"

end InvoiceOs.Submission
