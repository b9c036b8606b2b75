import InvoiceOs.Lib.Xml
import InvoiceOs.Ubl.Document

/-! The elements the document's structs are marshalled to, in the order of their fields. -/

namespace InvoiceOs.Ubl

open Lib
open Submission (Canonical)

def element (name text : String) : Xml := .leaf name [] text

/-- A pointer field: absent on nil, an element on an empty text. -/
def optional (name : String) (text : Option String) : List Xml := text.toList.map (element name)

/-- An attribute with `omitempty`. -/
def omitEmpty (key value : String) : List (String × String) :=
  if value = "" then [] else [(key, value)]

def Amount.xml (name : String) (a : Amount) : Xml :=
  .leaf name (omitEmpty "currencyID" a.currencyID) a.value

def Quantity.xml (name : String) (q : Quantity) : Xml :=
  .leaf name (omitEmpty "unitCode" q.unitCode) q.value

def BillingReference.xml (b : BillingReference) : Xml :=
  .node "cac:BillingReference" []
    [.node "cac:InvoiceDocumentReference" []
      (element "cbc:ID" b.invoiceDocumentReference.id ::
        optional "cbc:IssueDate" b.invoiceDocumentReference.issueDate)]

def PartyName.xml (n : PartyName) : Xml := .node "cac:PartyName" [] [element "cbc:Name" n.name]

def Country.xml (c : Country) : Xml :=
  .node "cac:Country" [] [element "cbc:IdentificationCode" c.identificationCode]

def PostalAddress.xml (a : PostalAddress) : Xml :=
  .node "cac:PostalAddress" []
    (optional "cbc:StreetName" a.streetName ++ optional "cbc:CityName" a.cityName ++
      optional "cbc:PostalZone" a.postalZone ++
      optional "cbc:CountrySubentityCode" a.countrySubentityCode ++
      optional "cbc:District" a.district ++ a.country.toList.map Country.xml)

def TaxScheme.xml (s : TaxScheme) : Xml := .node "cac:TaxScheme" [] [element "cbc:ID" s.id]

def PartyTaxScheme.xml (s : PartyTaxScheme) : Xml :=
  .node "cac:PartyTaxScheme" [] [element "cbc:CompanyID" s.companyID, s.taxScheme.xml]

def Contact.xml (c : Contact) : Xml :=
  .node "cac:Contact" []
    (optional "cbc:Telephone" c.telephone ++ optional "cbc:ElectronicMail" c.electronicMail)

def PartyBody.xml (p : PartyBody) : Xml :=
  .node "cac:Party" []
    (p.partyName.toList.map PartyName.xml ++ p.postalAddress.toList.map PostalAddress.xml ++
      p.partyTaxScheme.toList.map PartyTaxScheme.xml ++ p.contact.toList.map Contact.xml)

def Party.xml (name : String) (p : Party) : Xml := .node name [] [p.party.xml]

def TaxCategory.xml (name : String) (c : TaxCategory) : Xml :=
  .node name []
    (element "cbc:ID" c.id :: (optional "cbc:Percent" c.percent ++ [c.taxScheme.xml]))

def TaxSubtotal.xml (s : TaxSubtotal) : Xml :=
  .node "cac:TaxSubtotal" []
    (s.taxableAmount.toList.map (Amount.xml "cbc:TaxableAmount") ++
      [s.taxAmount.xml "cbc:TaxAmount", s.taxCategory.xml "cac:TaxCategory"])

def TaxTotal.xml (t : TaxTotal) : Xml :=
  .node "cac:TaxTotal" []
    (t.taxAmount.xml "cbc:TaxAmount" :: t.taxSubtotal.map TaxSubtotal.xml)

def MonetaryTotal.xml (m : MonetaryTotal) : Xml :=
  .node "cac:LegalMonetaryTotal" []
    (m.lineExtensionAmount.toList.map (Amount.xml "cbc:LineExtensionAmount") ++
      m.taxExclusiveAmount.toList.map (Amount.xml "cbc:TaxExclusiveAmount") ++
      m.payableAmount.toList.map (Amount.xml "cbc:PayableAmount"))

def ItemIdentification.xml (i : ItemIdentification) : Xml :=
  .node "cac:SellersItemIdentification" [] [element "cbc:ID" i.id]

def CommodityClass.xml (c : CommodityClass) : Xml :=
  .node "cac:CommodityClassification" []
    [.leaf "cbc:ItemClassificationCode" [("listID", c.code.listID)] c.code.value]

def AdditionalProperty.xml (p : AdditionalProperty) : Xml :=
  .node "cac:AdditionalItemProperty" [] [element "cbc:Name" p.name, element "cbc:Value" p.value]

def Item.xml (i : Item) : Xml :=
  .node "cac:Item" []
    (optional "cbc:Name" i.name ++
      i.sellersItemIdentification.toList.map ItemIdentification.xml ++
      i.commodityClassification.map CommodityClass.xml ++
      i.classifiedTaxCategory.toList.map (TaxCategory.xml "cac:ClassifiedTaxCategory") ++
      i.additionalItemProperty.map AdditionalProperty.xml)

def Price.xml (p : Price) : Xml :=
  .node "cac:Price" []
    (p.priceAmount.xml "cbc:PriceAmount" ::
      p.baseQuantity.toList.map (Quantity.xml "cbc:BaseQuantity"))

def Line.xml (l : Line) : Xml :=
  .node "cac:InvoiceLine" []
    (element "cbc:ID" l.id ::
      (l.invoicedQuantity.toList.map (Quantity.xml "cbc:InvoicedQuantity") ++
        l.lineExtensionAmount.toList.map (Amount.xml "cbc:LineExtensionAmount") ++
        l.taxTotal.toList.map TaxTotal.xml ++ l.item.toList.map Item.xml ++
        l.price.toList.map Price.xml))

def Document.xml (d : Document) : Xml :=
  .node "Invoice" [("xmlns", nsInvoice), ("xmlns:cac", nsCAC), ("xmlns:cbc", nsCBC)]
    ([element "cbc:CustomizationID" customizationID, element "cbc:ProfileID" profileID,
        element "cbc:ID" d.id, element "cbc:IssueDate" d.issueDate] ++
      optional "cbc:IssueTime" d.issueTime ++ optional "cbc:DueDate" d.dueDate ++
      [element "cbc:InvoiceTypeCode" d.invoiceTypeCode] ++
      optional "cbc:TaxPointDate" d.taxPointDate ++
      (if d.documentCurrencyCode = "" then []
        else [element "cbc:DocumentCurrencyCode" d.documentCurrencyCode]) ++
      optional "cbc:TaxCurrencyCode" d.taxCurrencyCode ++
      d.billingReference.toList.map BillingReference.xml ++
      [d.supplier.xml "cac:AccountingSupplierParty", d.buyer.xml "cac:AccountingCustomerParty"] ++
      d.taxTotal.toList.map TaxTotal.xml ++ d.legalMonetaryTotal.toList.map MonetaryTotal.xml ++
      d.lines.map Line.xml)

@[simp] theorem name_element (n t : String) : (element n t).name = n := rfl
@[simp] theorem text_element (n t : String) : (element n t).text = some t := rfl
@[simp] theorem Amount.name_xml (n : String) (a : Amount) : (a.xml n).name = n := rfl
@[simp] theorem Quantity.name_xml (n : String) (q : Quantity) : (q.xml n).name = n := rfl
@[simp] theorem BillingReference.name_xml (b : BillingReference) :
    b.xml.name = "cac:BillingReference" := rfl
@[simp] theorem PartyName.name_xml (p : PartyName) : p.xml.name = "cac:PartyName" := rfl
@[simp] theorem Country.name_xml (c : Country) : c.xml.name = "cac:Country" := rfl
@[simp] theorem PostalAddress.name_xml (a : PostalAddress) : a.xml.name = "cac:PostalAddress" := rfl
@[simp] theorem TaxScheme.name_xml (s : TaxScheme) : s.xml.name = "cac:TaxScheme" := rfl
@[simp] theorem PartyTaxScheme.name_xml (s : PartyTaxScheme) :
    s.xml.name = "cac:PartyTaxScheme" := rfl
@[simp] theorem Contact.name_xml (c : Contact) : c.xml.name = "cac:Contact" := rfl
@[simp] theorem PartyBody.name_xml (p : PartyBody) : p.xml.name = "cac:Party" := rfl
@[simp] theorem Party.name_xml (n : String) (p : Party) : (p.xml n).name = n := rfl
@[simp] theorem TaxCategory.name_xml (n : String) (c : TaxCategory) : (c.xml n).name = n := rfl
@[simp] theorem TaxSubtotal.name_xml (s : TaxSubtotal) : s.xml.name = "cac:TaxSubtotal" := rfl
@[simp] theorem TaxTotal.name_xml (t : TaxTotal) : t.xml.name = "cac:TaxTotal" := rfl
@[simp] theorem MonetaryTotal.name_xml (m : MonetaryTotal) :
    m.xml.name = "cac:LegalMonetaryTotal" := rfl
@[simp] theorem ItemIdentification.name_xml (i : ItemIdentification) :
    i.xml.name = "cac:SellersItemIdentification" := rfl
@[simp] theorem CommodityClass.name_xml (c : CommodityClass) :
    c.xml.name = "cac:CommodityClassification" := rfl
@[simp] theorem AdditionalProperty.name_xml (p : AdditionalProperty) :
    p.xml.name = "cac:AdditionalItemProperty" := rfl
@[simp] theorem Item.name_xml (i : Item) : i.xml.name = "cac:Item" := rfl
@[simp] theorem Price.name_xml (p : Price) : p.xml.name = "cac:Price" := rfl
@[simp] theorem Line.name_xml (l : Line) : l.xml.name = "cac:InvoiceLine" := rfl

def render (c : Canonical) : Except String String :=
  if missing c ≠ [] then
    throw ("ubl: invoice is missing content the document needs: " ++ ", ".intercalate (missing c))
  else pure (Xml.document (build c).xml)

end InvoiceOs.Ubl
