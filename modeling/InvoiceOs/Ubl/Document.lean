import InvoiceOs.Submission.Canonical
import InvoiceOs.Text

/-! The UBL document of a canonical invoice, as the structs that are marshalled. -/

namespace InvoiceOs.Ubl

open Submission (Canonical CanonicalLine Time invoiceTypeCode)

def nsInvoice : String := "urn:oasis:names:specification:ubl:schema:xsd:Invoice-2"
def nsCAC : String := "urn:oasis:names:specification:ubl:schema:xsd:CommonAggregateComponents-2"
def nsCBC : String := "urn:oasis:names:specification:ubl:schema:xsd:CommonBasicComponents-2"

def customizationID : String :=
  "urn:cen.eu:en16931:2017#compliant#urn:fdc:peppol.eu:2017:poacc:billing:3.0"

def profileID : String := "urn:fdc:peppol.eu:2017:poacc:billing:01:1.0"
def taxSchemeID : String := "TIN"
def vatSchemeID : String := "VAT"

/-! ### The structs -/

structure Amount where
  currencyID : String
  value : String

structure Quantity where
  unitCode : String
  value : String

structure InvoiceDocumentReference where
  id : String
  issueDate : Option String

structure BillingReference where
  invoiceDocumentReference : InvoiceDocumentReference

structure PartyName where
  name : String

structure Country where
  identificationCode : String

structure PostalAddress where
  streetName : Option String
  cityName : Option String
  postalZone : Option String
  countrySubentityCode : Option String
  district : Option String
  country : Option Country

structure Contact where
  telephone : Option String
  electronicMail : Option String

structure TaxScheme where
  id : String

structure PartyTaxScheme where
  companyID : String
  taxScheme : TaxScheme

structure PartyBody where
  partyName : Option PartyName
  postalAddress : Option PostalAddress
  partyTaxScheme : Option PartyTaxScheme
  contact : Option Contact

structure Party where
  party : PartyBody

structure TaxCategory where
  id : String
  percent : Option String
  taxScheme : TaxScheme

structure TaxSubtotal where
  taxableAmount : Option Amount
  taxAmount : Amount
  taxCategory : TaxCategory

structure TaxTotal where
  taxAmount : Amount
  taxSubtotal : List TaxSubtotal := []

structure MonetaryTotal where
  lineExtensionAmount : Option Amount
  taxExclusiveAmount : Option Amount
  payableAmount : Option Amount

structure ItemIdentification where
  id : String

structure ClassificationCode where
  listID : String
  value : String

structure CommodityClass where
  code : ClassificationCode

structure AdditionalProperty where
  name : String
  value : String

structure Item where
  name : Option String
  sellersItemIdentification : Option ItemIdentification
  commodityClassification : List CommodityClass
  classifiedTaxCategory : Option TaxCategory
  additionalItemProperty : List AdditionalProperty

structure Price where
  priceAmount : Amount
  baseQuantity : Option Quantity

structure Line where
  id : String
  invoicedQuantity : Option Quantity
  lineExtensionAmount : Option Amount
  taxTotal : Option TaxTotal
  item : Option Item
  price : Option Price

structure Document where
  id : String
  issueDate : String
  issueTime : Option String
  dueDate : Option String
  invoiceTypeCode : String
  taxPointDate : Option String
  documentCurrencyCode : String
  taxCurrencyCode : Option String
  billingReference : Option BillingReference
  supplier : Party
  buyer : Party
  taxTotal : Option TaxTotal
  legalMonetaryTotal : Option MonetaryTotal
  lines : List Line

/-! ### What must be there -/

def blank (s : Option String) : Bool := s.all fun v => trimSpace v == ""

def missing (c : Canonical) : List String :=
  (if trimSpace c.invoiceNumber = "" then ["an invoice number"] else []) ++
  (if c.issueDate = none then ["an issue date"] else []) ++
  (if blank c.currency then ["a currency"] else []) ++
  (if blank c.supplier.name then ["a supplier name"] else []) ++
  (if blank c.buyer.name then ["a buyer name"] else []) ++
  (if c.lines = [] then ["at least one line item"] else [])

/-! ### Building -/

def dateText (t : Option Time) : Option String := t.map fun t => t.date.text

def deref (s : Option String) : String := s.getD ""

def amountFrom (v currency : Option String) : Option Amount :=
  v.map fun value => { value := value, currencyID := currency.getD "" }

def partyFrom (p : Submission.Party) : Party :=
  let addr : PostalAddress :=
    { streetName := p.street
      cityName := p.city
      postalZone := p.postalZone
      countrySubentityCode := p.state
      district := p.lga
      country := p.country.map fun code => { identificationCode := code } }
  let ct : Contact := { telephone := p.telephone, electronicMail := p.email }
  { party :=
    { partyName := p.name.map fun name => { name := name }
      partyTaxScheme := p.tin.map fun tin =>
        { companyID := tin, taxScheme := { id := taxSchemeID } }
      postalAddress :=
        if addr.streetName.isSome || addr.cityName.isSome || addr.postalZone.isSome ||
          addr.countrySubentityCode.isSome || addr.district.isSome || addr.country.isSome
        then some addr else none
      contact :=
        if ct.telephone.isSome || ct.electronicMail.isSome then some ct else none } }

/-- A subtotal with no tax amount is skipped. -/
def subtotalsFrom (c : Canonical) : List TaxSubtotal :=
  c.taxSubtotals.filterMap fun s =>
    (amountFrom s.taxAmount c.currency).map fun ta =>
      { taxableAmount := amountFrom s.taxableAmount c.currency
        taxAmount := ta
        taxCategory :=
          { id := s.category, percent := s.percent, taxScheme := { id := vatSchemeID } } }

def itemFrom (l : CanonicalLine) : Option Item :=
  let it : Item :=
    { name := l.description
      sellersItemIdentification := l.sellersItemIdentification.map fun id => { id := id }
      commodityClassification :=
        (l.hsnCode.map fun v => { code := { listID := "HS", value := v } }).toList ++
        (l.isicCode.map fun v => { code := { listID := "ISIC", value := v } }).toList
      classifiedTaxCategory := l.taxCategory.map fun id =>
        { id := id, percent := l.taxPercent, taxScheme := { id := vatSchemeID } }
      additionalItemProperty :=
        (l.productCategory.map fun v => { name := "product_category", value := v }).toList ++
        (l.serviceCategory.map fun v => { name := "service_category", value := v }).toList }
  if it.name.isNone && it.sellersItemIdentification.isNone &&
    it.commodityClassification.isEmpty && it.classifiedTaxCategory.isNone &&
    it.additionalItemProperty.isEmpty
  then none else some it

def lineFrom (c : Canonical) (l : CanonicalLine) : Line :=
  { id := toString l.lineNo
    lineExtensionAmount := amountFrom l.lineTotal c.currency
    invoicedQuantity := l.quantity.map fun q => { unitCode := deref l.priceUnit, value := q }
    taxTotal := (amountFrom l.lineTax c.currency).map fun a => { taxAmount := a }
    item := itemFrom l
    price := (amountFrom l.unitPrice c.currency).map fun a =>
      { priceAmount := a
        baseQuantity := l.baseQuantity.map fun q =>
          { unitCode := deref l.priceUnit, value := q } } }

def billingReferenceFrom (ref : Submission.BillingReference) : Option BillingReference :=
  match ref.irn with
  | some irn =>
    if trimSpace irn = "" then none
    else some { invoiceDocumentReference := { id := irn, issueDate := dateText ref.issueDate } }
  | none => none

def build (c : Canonical) : Document :=
  let mt : MonetaryTotal :=
    { lineExtensionAmount := amountFrom c.subtotal c.currency
      taxExclusiveAmount := amountFrom c.subtotal c.currency
      payableAmount := amountFrom c.total c.currency }
  { id := c.invoiceNumber
    issueDate := (dateText c.issueDate).getD ""
    issueTime := c.issueTime
    dueDate := dateText c.dueDate
    invoiceTypeCode := invoiceTypeCode c.documentType
    taxPointDate := dateText c.taxPointDate
    documentCurrencyCode := deref c.currency
    taxCurrencyCode := c.taxCurrencyCode
    billingReference := c.billingReference.bind billingReferenceFrom
    supplier := partyFrom c.supplier
    buyer := partyFrom c.buyer
    taxTotal := (amountFrom c.vat c.currency).map fun a =>
      { taxAmount := a, taxSubtotal := subtotalsFrom c }
    legalMonetaryTotal :=
      if mt.lineExtensionAmount.isSome || mt.taxExclusiveAmount.isSome || mt.payableAmount.isSome
      then some mt else none
    lines := c.lines.map (lineFrom c) }

end InvoiceOs.Ubl
