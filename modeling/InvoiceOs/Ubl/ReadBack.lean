import InvoiceOs.Ubl.WellFormed

/-! What a document says of its invoice: a reader of the document's elements gives the invoice back,
but for the few values the document has no place for. -/

namespace InvoiceOs.Ubl

open Lib
open Invoice (Date)
open Submission (Canonical CanonicalLine Time)

/-! ### Values -/

def readSigned : List Char → Option ℤ
  | '-' :: ds => if ds.all Char.isDigit then some (-(Nat.ofDigitChars 10 ds 0 : ℤ)) else none
  | ds => if ds.all Char.isDigit then some (Nat.ofDigitChars 10 ds 0 : ℤ) else none

def readDate (s : String) : Option Date :=
  match s.toList.reverse with
  | d₂ :: d₁ :: '-' :: m₂ :: m₁ :: '-' :: year =>
    (readSigned year.reverse).bind fun y =>
      let month := Nat.ofDigitChars 10 [m₁, m₂] 0
      let day := Nat.ofDigitChars 10 [d₁, d₂] 0
      if h : month ≤ 12 ∧ day ≤ 31 then some ⟨y, month, day, h.1, h.2⟩ else none
  | _ => none

def readTypeCode (code : String) : Option DocumentType :=
  if code = "381" then some .commercialInvoice
  else if code = "380" then some .creditNote
  else if code = "384" then some .debitNote
  else none

/-! ### Elements -/

def textAt (path : List String) (x : Xml) : Option String := (x.down path).bind Xml.text

def attrAt (path : List String) (key : String) (x : Xml) : Option String :=
  (x.down path).bind (Xml.attr key)

def amountAt (currency : String) (path : List String) (x : Xml) : Option (Option String) :=
  match x.down path with
  | none => some none
  | some a => if a.attr "currencyID" = some currency then a.text.map some else none

def dateAt (path : List String) (x : Xml) : Option (Option Time) :=
  match textAt path x with
  | none => some none
  | some s => (readDate s).map fun day => some { date := day }

def keyed (name : String) (keyOf valueOf : Xml → Option String) (key : String) (x : Xml) :
    Option String :=
  ((x.children.filter fun y => y.name = name).find? fun y => keyOf y = some key).bind valueOf

def classification : String → Xml → Option String :=
  keyed "cac:CommodityClassification" (attrAt ["cbc:ItemClassificationCode"] "listID")
    (textAt ["cbc:ItemClassificationCode"])

def property : String → Xml → Option String :=
  keyed "cac:AdditionalItemProperty" (textAt ["cbc:Name"]) (textAt ["cbc:Value"])

def readParty (x : Xml) : Submission.Party :=
  let at_ := fun path => textAt ("cac:Party" :: path) x
  { tin := at_ ["cac:PartyTaxScheme", "cbc:CompanyID"]
    name := at_ ["cac:PartyName", "cbc:Name"]
    email := at_ ["cac:Contact", "cbc:ElectronicMail"]
    telephone := at_ ["cac:Contact", "cbc:Telephone"]
    street := at_ ["cac:PostalAddress", "cbc:StreetName"]
    city := at_ ["cac:PostalAddress", "cbc:CityName"]
    postalZone := at_ ["cac:PostalAddress", "cbc:PostalZone"]
    country := at_ ["cac:PostalAddress", "cac:Country", "cbc:IdentificationCode"]
    state := at_ ["cac:PostalAddress", "cbc:CountrySubentityCode"]
    lga := at_ ["cac:PostalAddress", "cbc:District"] }

def readSubtotal (currency : String) (x : Xml) : Option Submission.TaxSubtotal := do
  let category ← textAt ["cac:TaxCategory", "cbc:ID"] x
  let taxableAmount ← amountAt currency ["cbc:TaxableAmount"] x
  let taxAmount ← amountAt currency ["cbc:TaxAmount"] x
  return {
    category := category
    percent := textAt ["cac:TaxCategory", "cbc:Percent"] x
    taxableAmount := taxableAmount
    taxAmount := taxAmount }

def readReference (x : Xml) : Option Submission.BillingReference := do
  let irn ← textAt ["cac:InvoiceDocumentReference", "cbc:ID"] x
  let issueDate ← dateAt ["cac:InvoiceDocumentReference", "cbc:IssueDate"] x
  return { irn := some irn, issueDate := issueDate }

def readLine (currency : String) (x : Xml) : Option CanonicalLine := do
  let lineNo ← (textAt ["cbc:ID"] x).bind fun s => readSigned s.toList
  let lineTotal ← amountAt currency ["cbc:LineExtensionAmount"] x
  let lineTax ← amountAt currency ["cac:TaxTotal", "cbc:TaxAmount"] x
  let unitPrice ← amountAt currency ["cac:Price", "cbc:PriceAmount"] x
  return {
    lineNo := lineNo
    description := textAt ["cac:Item", "cbc:Name"] x
    quantity := textAt ["cbc:InvoicedQuantity"] x
    unitPrice := unitPrice
    lineTotal := lineTotal
    lineTax := lineTax
    taxCategory := textAt ["cac:Item", "cac:ClassifiedTaxCategory", "cbc:ID"] x
    hsnCode := (x.down ["cac:Item"]).bind (classification "HS")
    isicCode := (x.down ["cac:Item"]).bind (classification "ISIC")
    productCategory := (x.down ["cac:Item"]).bind (property "product_category")
    serviceCategory := (x.down ["cac:Item"]).bind (property "service_category")
    sellersItemIdentification := textAt ["cac:Item", "cac:SellersItemIdentification", "cbc:ID"] x
    priceUnit := (attrAt ["cbc:InvoicedQuantity"] "unitCode" x).or
      (attrAt ["cac:Price", "cbc:BaseQuantity"] "unitCode" x)
    taxPercent := textAt ["cac:Item", "cac:ClassifiedTaxCategory", "cbc:Percent"] x
    baseQuantity := textAt ["cac:Price", "cbc:BaseQuantity"] x }

def subtotalsAt (currency : String) (x : Xml) : Option (List Submission.TaxSubtotal) :=
  (((x.down ["cac:TaxTotal"]).elim [] Xml.children).filter
    fun y => y.name = "cac:TaxSubtotal").mapM (readSubtotal currency)

def referenceAt (x : Xml) : Option (Option Submission.BillingReference) :=
  match x.down ["cac:BillingReference"] with
  | none => some none
  | some y => (readReference y).map some

def linesAt (currency : String) (x : Xml) : Option (List CanonicalLine) :=
  (x.children.filter fun y => y.name = "cac:InvoiceLine").mapM (readLine currency)

def readDocument (x : Xml) : Option Canonical := do
  let number ← textAt ["cbc:ID"] x
  let documentType ← (textAt ["cbc:InvoiceTypeCode"] x).bind readTypeCode
  let currency ← textAt ["cbc:DocumentCurrencyCode"] x
  let issueDate ← dateAt ["cbc:IssueDate"] x
  let dueDate ← dateAt ["cbc:DueDate"] x
  let taxPointDate ← dateAt ["cbc:TaxPointDate"] x
  let supplier ← x.down ["cac:AccountingSupplierParty"]
  let buyer ← x.down ["cac:AccountingCustomerParty"]
  let subtotal ← amountAt currency ["cac:LegalMonetaryTotal", "cbc:LineExtensionAmount"] x
  let taxExclusive ← amountAt currency ["cac:LegalMonetaryTotal", "cbc:TaxExclusiveAmount"] x
  if taxExclusive ≠ subtotal then none else
  let vat ← amountAt currency ["cac:TaxTotal", "cbc:TaxAmount"] x
  let total ← amountAt currency ["cac:LegalMonetaryTotal", "cbc:PayableAmount"] x
  let taxSubtotals ← subtotalsAt currency x
  let billingReference ← referenceAt x
  let lines ← linesAt currency x
  return {
    invoiceNumber := number
    documentType := documentType
    issueDate := issueDate
    supplier := readParty supplier
    buyer := readParty buyer
    currency := some currency
    subtotal := subtotal
    vat := vat
    total := total
    lines := lines
    taxCurrencyCode := textAt ["cbc:TaxCurrencyCode"] x
    dueDate := dueDate
    issueTime := textAt ["cbc:IssueTime"] x
    taxPointDate := taxPointDate
    taxSubtotals := taxSubtotals
    billingReference := billingReference }

/-! ### What the document promises -/

def day (t : Time) : Time := { date := t.date }

/-- A percent stands beside its category, a base quantity beside a unit price, and a unit beside a
quantity. A line's row id is no part of the document. -/
def promisedLine (l : CanonicalLine) : CanonicalLine :=
  { l with
    lineID := ""
    taxPercent := if l.taxCategory.isSome then l.taxPercent else none
    baseQuantity := if l.unitPrice.isSome then l.baseQuantity else none
    priceUnit := l.priceUnit.filter fun unit =>
      unit ≠ "" && (l.quantity.isSome || (l.unitPrice.isSome && l.baseQuantity.isSome)) }

def promised (c : Canonical) : Canonical :=
  { c with
    invoiceID := ""
    invoiceKind := none
    paymentStatus := none
    issueDate := c.issueDate.map day
    dueDate := c.dueDate.map day
    taxPointDate := c.taxPointDate.map day
    taxSubtotals := if c.vat.isSome then c.taxSubtotals.filter fun s => s.taxAmount.isSome else []
    billingReference := (c.billingReference.filter fun ref => !blank ref.irn).map fun ref =>
      { ref with issueDate := ref.issueDate.map day }
    lines := c.lines.map promisedLine }

/-! ### Reading values back -/

theorem readSigned_signedChars (w : ℕ) (y : ℤ) : readSigned (Invoice.signedChars w y) = some y := by
  have hall : (Invoice.padChars w y.natAbs).all Char.isDigit = true :=
    List.all_eq_true.mpr fun _ hc => Invoice.isDigit_of_mem_padChars hc
  have hread : Nat.ofDigitChars 10 (Invoice.padChars w y.natAbs) 0 = y.natAbs := by
    rw [Invoice.padChars, Nat.ofDigitChars_append, Nat.ofDigitChars_replicate_zero, Nat.mul_zero,
      digits_eq]
    exact Nat.ofDigitChars_ten_toDigits
  unfold Invoice.signedChars
  by_cases hneg : y < 0
  · rw [if_pos hneg, List.singleton_append, readSigned, if_pos hall, hread]
    congr 1
    omega
  · rw [if_neg hneg, List.nil_append, readSigned, if_pos hall, hread]
    · congr 1
      omega
    · exact fun ds hds => Invoice.padChars_ne_signed hds

theorem padChars_two {n : ℕ} (hn : n < 100) :
    ∃ a b, Invoice.padChars 2 n = [a, b] ∧ Nat.ofDigitChars 10 [a, b] 0 = n := by
  obtain ⟨a, b, hpad⟩ := List.length_eq_two.mp (Invoice.padChars_two_length hn)
  refine ⟨a, b, hpad, ?_⟩
  rw [← hpad, Invoice.padChars, Nat.ofDigitChars_append, Nat.ofDigitChars_replicate_zero,
    Nat.mul_zero, digits_eq]
  exact Nat.ofDigitChars_ten_toDigits

theorem readDate_text (d : Date) : readDate d.text = some d := by
  obtain ⟨m₁, m₂, hmonth, hm⟩ := padChars_two (d.month_le.trans_lt (by decide))
  obtain ⟨d₁, d₂, hday, hd⟩ := padChars_two (d.day_le.trans_lt (by decide))
  have hchars : d.text.toList.reverse =
      d₂ :: d₁ :: '-' :: m₂ :: m₁ :: '-' :: (Invoice.signedChars 4 d.year).reverse := by
    simp [Date.text, Invoice.yearText_toList, Invoice.padLeft_toList, hmonth, hday]
  unfold readDate
  rw [hchars]
  simp only [List.reverse_reverse, readSigned_signedChars, Option.bind_some, hm, hd]
  rw [dif_pos ⟨d.month_le, d.day_le⟩]

theorem readTypeCode_code (t : DocumentType) :
    readTypeCode (Submission.invoiceTypeCode t) = some t := by
  cases t <;> rfl

/-! ### Reading elements back -/

theorem lookup_omitEmpty {key value : String} :
    (omitEmpty key value).lookup key = if value = "" then none else some value := by
  unfold omitEmpty
  split
  · rfl
  · rw [List.lookup_cons_self]

theorem amountAt_some {currency : String} (hc : currency ≠ "") {x : Xml} {path : List String}
    {n : String} {v : Option String}
    (hx : x.down path = (amountFrom v (some currency)).map (Amount.xml n)) :
    amountAt currency path x = some v := by
  unfold amountAt
  rw [hx]
  cases v with
  | none => rfl
  | some value =>
    change (if (omitEmpty "currencyID" currency).lookup "currencyID" = some currency then
      some (some value) else none) = _
    rw [lookup_omitEmpty, if_neg hc, if_pos rfl]

theorem dateAt_some {x : Xml} {path : List String} {t : Option Time}
    (hx : textAt path x = dateText t) : dateAt path x = some (t.map day) := by
  unfold dateAt
  rw [hx]
  cases t with
  | none => rfl
  | some t =>
    change (readDate t.date.text).map _ = _
    rw [readDate_text]
    rfl

@[simp] theorem textAt_nil : textAt [] = Xml.text := rfl

@[simp] theorem textAt_cons (n : String) (path : List String) (x : Xml) :
    textAt (n :: path) x = (Xml.named n x.children).bind (textAt path) := by
  rw [textAt, Xml.down_cons, Option.bind_assoc]
  rfl

@[simp] theorem named_optional (n m : String) (t : Option String) :
    Xml.named n (optional m t) = if m = n then t.map (element m) else none := by
  rw [optional, Xml.named_map]
  by_cases h : m = n <;> cases t <;> simp [h]

theorem bind_kept {α β : Type*} {p : Prop} [Decidable p] {a : α} {f : α → Option β}
    (h : ¬p → f a = none) : ((if p then some a else none).bind f) = f a := by
  by_cases hp : p
  · rw [if_pos hp, Option.bind_some]
  · rw [if_neg hp, Option.bind_none, h hp]

@[simp] theorem text_elements (n : String) (t : Option String) :
    (t.map (element n)).bind Xml.text = t := by
  cases t <;> rfl

theorem readParty_party (p : Submission.Party) (name : String) :
    readParty ((partyFrom p).xml name) = p := by
  unfold readParty Party.xml PartyBody.xml partyFrom
  cases p
  simp +contextual [bind_kept, PostalAddress.xml, Contact.xml, PartyName.xml, PartyTaxScheme.xml,
    Country.xml, Option.bind_map, Function.comp_def]

theorem readSubtotal_subtotal {currency : String} (hc : currency ≠ "") {s : Submission.TaxSubtotal}
    {t : TaxSubtotal} (ha : t.taxableAmount = amountFrom s.taxableAmount (some currency))
    (hta : amountFrom s.taxAmount (some currency) = some t.taxAmount)
    (hcategory : t.taxCategory.id = s.category) (hpercent : t.taxCategory.percent = s.percent) :
    readSubtotal currency t.xml = some s := by
  have htaxable : amountAt currency ["cbc:TaxableAmount"] t.xml = some s.taxableAmount :=
    amountAt_some hc (n := "cbc:TaxableAmount") (by simp [TaxSubtotal.xml, ha])
  have htax : amountAt currency ["cbc:TaxAmount"] t.xml = some s.taxAmount :=
    amountAt_some hc (n := "cbc:TaxAmount") (by simp [TaxSubtotal.xml, hta])
  have hid : textAt ["cac:TaxCategory", "cbc:ID"] t.xml = some s.category := by
    simp [TaxSubtotal.xml, TaxCategory.xml, hcategory]
  have hp : textAt ["cac:TaxCategory", "cbc:Percent"] t.xml = s.percent := by
    simp [TaxSubtotal.xml, TaxCategory.xml, hpercent]
  simp only [readSubtotal, hid, htaxable, htax, hp, Option.bind_eq_bind, Option.bind_some,
    Option.pure_def]

theorem readReference_reference {ref : Submission.BillingReference} {b : BillingReference}
    (h : billingReferenceFrom ref = some b) :
    readReference b.xml = some { ref with issueDate := ref.issueDate.map day } := by
  unfold billingReferenceFrom at h
  split at h
  · rename_i irn hirn
    split at h
    · cases h
    obtain rfl := Option.some.inj h
    generalize hb : (BillingReference.mk ⟨irn, dateText ref.issueDate⟩).xml = x
    have hid : textAt ["cac:InvoiceDocumentReference", "cbc:ID"] x = some irn := by
      simp [← hb, BillingReference.xml]
    have hdate : dateAt ["cac:InvoiceDocumentReference", "cbc:IssueDate"] x =
        some (ref.issueDate.map day) := dateAt_some (by simp [← hb, BillingReference.xml])
    simp only [readReference, hid, hdate, hirn, Option.bind_eq_bind, Option.bind_some,
      Option.pure_def]
  · cases h

@[simp] theorem bind_single {α β : Type*} (o : Option α) (f : α → β) :
    (o.bind fun a => some (f a)) = o.map f := by
  cases o <;> rfl

theorem filter_map_name {α : Type*} {f : α → Xml} {m : String} (hf : ∀ a, (f a).name = m)
    (n : String) (l : List α) :
    ((l.map f).filter fun y => y.name = n) = if m = n then l.map f else [] := by
  by_cases h : m = n
  · rw [if_pos h, List.filter_eq_self]
    intro y hy
    obtain ⟨a, -, rfl⟩ := List.mem_map.mp hy
    rw [hf, decide_eq_true h]
  · rw [if_neg h, List.filter_eq_nil_iff]
    intro y hy
    obtain ⟨a, -, rfl⟩ := List.mem_map.mp hy
    rw [hf, decide_eq_false h]
    exact Bool.false_ne_true

theorem filter_classes (i : Item) :
    (i.xml.children.filter fun y => y.name = "cac:CommodityClassification") =
      i.commodityClassification.map CommodityClass.xml := by
  unfold Item.xml optional
  simp only [Xml.children_node, List.filter_append]
  rw [filter_map_name (name_element _), filter_map_name ItemIdentification.name_xml,
    filter_map_name CommodityClass.name_xml, filter_map_name (TaxCategory.name_xml _),
    filter_map_name AdditionalProperty.name_xml]
  simp

theorem filter_properties (i : Item) :
    (i.xml.children.filter fun y => y.name = "cac:AdditionalItemProperty") =
      i.additionalItemProperty.map AdditionalProperty.xml := by
  unfold Item.xml optional
  simp only [Xml.children_node, List.filter_append]
  rw [filter_map_name (name_element _), filter_map_name ItemIdentification.name_xml,
    filter_map_name CommodityClass.name_xml, filter_map_name (TaxCategory.name_xml _),
    filter_map_name AdditionalProperty.name_xml]
  simp

theorem itemFrom_cases (l : CanonicalLine) :
    (∃ i, itemFrom l = some i ∧ i.name = l.description ∧
      i.sellersItemIdentification = l.sellersItemIdentification.map ItemIdentification.mk ∧
      i.commodityClassification = (l.hsnCode.map fun v => CommodityClass.mk ⟨"HS", v⟩).toList ++
        (l.isicCode.map fun v => CommodityClass.mk ⟨"ISIC", v⟩).toList ∧
      i.classifiedTaxCategory = l.taxCategory.map (TaxCategory.mk · l.taxPercent ⟨vatSchemeID⟩) ∧
      i.additionalItemProperty = (l.productCategory.map (AdditionalProperty.mk "product_category")).toList ++
        (l.serviceCategory.map (AdditionalProperty.mk "service_category")).toList) ∨
    itemFrom l = none ∧ l.description = none ∧ l.sellersItemIdentification = none ∧
      l.hsnCode = none ∧ l.isicCode = none ∧ l.taxCategory = none ∧ l.productCategory = none ∧
      l.serviceCategory = none := by
  unfold itemFrom
  dsimp only
  split
  · rename_i hnone
    refine Or.inr ⟨rfl, ?_⟩
    simpa [and_assoc] using hnone
  · exact Or.inl ⟨_, rfl, rfl, rfl, rfl, rfl, rfl⟩

theorem classification_item {i : Item} {hs isic : Option String}
    (h : i.commodityClassification = (hs.map fun v => CommodityClass.mk ⟨"HS", v⟩).toList ++
        (isic.map fun v => CommodityClass.mk ⟨"ISIC", v⟩).toList) :
    classification "HS" i.xml = hs ∧ classification "ISIC" i.xml = isic := by
  unfold classification keyed
  rw [filter_classes, h]
  cases hs <;> cases isic <;> simp [CommodityClass.xml, attrAt]

theorem property_item {i : Item} {product service : Option String}
    (h : i.additionalItemProperty = (product.map (AdditionalProperty.mk "product_category")).toList ++
        (service.map (AdditionalProperty.mk "service_category")).toList) :
    property "product_category" i.xml = product ∧ property "service_category" i.xml = service := by
  unfold property keyed
  rw [filter_properties, h]
  cases product <;> cases service <;> simp [AdditionalProperty.xml]

theorem down_item {c : Canonical} {l : CanonicalLine} :
    (lineFrom c l).xml.down ["cac:Item"] = (itemFrom l).map Item.xml := by
  simp [Line.xml, lineFrom]

theorem textAt_item {c : Canonical} {l : CanonicalLine} (path : List String) :
    textAt ("cac:Item" :: path) (lineFrom c l).xml =
      (itemFrom l).bind fun i => textAt path i.xml := by
  simp [Line.xml, lineFrom, Option.bind_map]

theorem unit_line (c : Canonical) (l : CanonicalLine) :
    (attrAt ["cbc:InvoicedQuantity"] "unitCode" (lineFrom c l).xml).or
      (attrAt ["cac:Price", "cbc:BaseQuantity"] "unitCode" (lineFrom c l).xml) =
    (promisedLine l).priceUnit := by
  have hunit : ∀ (n v : String), (Quantity.xml n ⟨deref l.priceUnit, v⟩).attr "unitCode" =
      l.priceUnit.filter (· ≠ "") := by
    intro n v
    rw [Quantity.xml, Xml.attr_leaf, lookup_omitEmpty]
    cases hu : l.priceUnit with
    | none => rfl
    | some u => by_cases hempty : u = "" <;> simp [deref, hempty, Option.filter]
  have hquantity : attrAt ["cbc:InvoicedQuantity"] "unitCode" (lineFrom c l).xml =
      l.quantity.bind fun _ => l.priceUnit.filter (· ≠ "") := by
    simp [attrAt, Line.xml, lineFrom, Option.bind_map, Function.comp_def, hunit]
  have hbase : attrAt ["cac:Price", "cbc:BaseQuantity"] "unitCode" (lineFrom c l).xml =
      l.unitPrice.bind fun _ => l.baseQuantity.bind fun _ => l.priceUnit.filter (· ≠ "") := by
    simp [attrAt, Line.xml, lineFrom, amountFrom, Price.xml, Option.bind_map, Function.comp_def, hunit,
      Option.bind_assoc]
  rw [hquantity, hbase, promisedLine]
  dsimp only
  cases l.quantity <;> cases l.unitPrice <;> cases l.baseQuantity <;> cases l.priceUnit <;>
    simp [Option.filter]

theorem readLine_line {c : Canonical} {currency : String} (hcurrency : c.currency = some currency)
    (hc : currency ≠ "") (l : CanonicalLine) :
    readLine currency (lineFrom c l).xml = some (promisedLine l) := by
  have hno : (textAt ["cbc:ID"] (lineFrom c l).xml).bind (fun s => readSigned s.toList) =
      some l.lineNo := by
    have hid : textAt ["cbc:ID"] (lineFrom c l).xml = some (toString l.lineNo) := by
      simp [Line.xml, lineFrom]
    rw [hid, Option.bind_some, Invoice.toString_int_toList, readSigned_signedChars]
  have htotal : amountAt currency ["cbc:LineExtensionAmount"] (lineFrom c l).xml =
      some l.lineTotal :=
    amountAt_some hc (n := "cbc:LineExtensionAmount") (by simp [Line.xml, lineFrom, hcurrency])
  have htax : amountAt currency ["cac:TaxTotal", "cbc:TaxAmount"] (lineFrom c l).xml =
      some l.lineTax :=
    amountAt_some hc (n := "cbc:TaxAmount") (by
      simp [Line.xml, lineFrom, hcurrency, TaxTotal.xml, Option.bind_map, Function.comp_def])
  have hprice : amountAt currency ["cac:Price", "cbc:PriceAmount"] (lineFrom c l).xml =
      some l.unitPrice :=
    amountAt_some hc (n := "cbc:PriceAmount") (by
      simp [Line.xml, lineFrom, hcurrency, Price.xml, Option.bind_map, Function.comp_def])
  have hquantity : textAt ["cbc:InvoicedQuantity"] (lineFrom c l).xml = l.quantity := by
    simp [Line.xml, lineFrom, Quantity.xml, Option.bind_map, Function.comp_def]
  have hbase : textAt ["cac:Price", "cbc:BaseQuantity"] (lineFrom c l).xml =
      (promisedLine l).baseQuantity := by
    rw [promisedLine]
    cases h : l.unitPrice <;>
      simp [Line.xml, lineFrom, h, amountFrom, Price.xml, Quantity.xml, Option.bind_map,
        Function.comp_def]
  have hitem : textAt ["cac:Item", "cbc:Name"] (lineFrom c l).xml = l.description ∧
      textAt ["cac:Item", "cac:ClassifiedTaxCategory", "cbc:ID"] (lineFrom c l).xml =
        l.taxCategory ∧
      ((lineFrom c l).xml.down ["cac:Item"]).bind (classification "HS") = l.hsnCode ∧
      ((lineFrom c l).xml.down ["cac:Item"]).bind (classification "ISIC") = l.isicCode ∧
      ((lineFrom c l).xml.down ["cac:Item"]).bind (property "product_category") =
        l.productCategory ∧
      ((lineFrom c l).xml.down ["cac:Item"]).bind (property "service_category") =
        l.serviceCategory ∧
      textAt ["cac:Item", "cac:SellersItemIdentification", "cbc:ID"] (lineFrom c l).xml =
        l.sellersItemIdentification ∧
      textAt ["cac:Item", "cac:ClassifiedTaxCategory", "cbc:Percent"] (lineFrom c l).xml =
        (promisedLine l).taxPercent := by
    rw [down_item, textAt_item, textAt_item, textAt_item, textAt_item, promisedLine]
    obtain ⟨i, hi, hname, hseller, hclasses, hcategory, hproperties⟩ | ⟨hi, hnone⟩ :=
      itemFrom_cases l
    · obtain ⟨hhs, hisic⟩ := classification_item hclasses
      obtain ⟨hproduct, hservice⟩ := property_item hproperties
      simp only [hi, Option.bind_some, Option.map_some]
      refine ⟨?_, ?_, hhs, hisic, hproduct, hservice, ?_, ?_⟩
      · simp [Item.xml, hname]
      · simp [Item.xml, hcategory, TaxCategory.xml, Option.bind_map, Function.comp_def]
      · simp [Item.xml, hseller, ItemIdentification.xml, Option.bind_map, Function.comp_def]
      · cases h : l.taxCategory <;>
          simp [Item.xml, hcategory, h, TaxCategory.xml]
    · simp [hi, hnone]
  obtain ⟨hname, hcategory, hhs, hisic, hproduct, hservice, hseller, hpercent⟩ := hitem
  unfold readLine
  rw [hno, htotal, htax, hprice, hname, hcategory, hhs, hisic, hproduct, hservice, hseller,
    hpercent, hquantity, hbase, unit_line]
  rfl

/-! ### Reading the document back -/

theorem mapM_some {α β γ : Type*} {f : α → β} {r : β → Option γ} {g : α → γ} {l : List α}
    (h : ∀ a ∈ l, r (f a) = some (g a)) : (l.map f).mapM r = some (l.map g) := by
  induction l with
  | nil => rfl
  | cons a l ih =>
    rw [List.map_cons, List.mapM_cons, h a List.mem_cons_self,
      ih fun b hb => h b (List.mem_cons_of_mem a hb)]
    rfl

theorem readSubtotals {c : Canonical} {currency : String} (hcurrency : c.currency = some currency)
    (hc : currency ≠ "") :
    ((subtotalsFrom c).map TaxSubtotal.xml).mapM (readSubtotal currency) =
      some (c.taxSubtotals.filter fun s => s.taxAmount.isSome) := by
  unfold subtotalsFrom
  rw [hcurrency]
  induction c.taxSubtotals with
  | nil => rfl
  | cons s ss ih =>
    cases hta : s.taxAmount with
    | none =>
      rw [List.filterMap_cons_none (by rw [hta]; rfl), List.filter_cons_of_neg (by simp [hta]), ih]
    | some v =>
      rw [List.filterMap_cons_some (by rw [hta]; rfl), List.filter_cons_of_pos (by simp [hta]),
        List.map_cons, List.mapM_cons, ih,
        readSubtotal_subtotal hc rfl (by rw [hta]; rfl) rfl rfl]
      rfl

@[simp] theorem named_unless {p : Prop} [Decidable p] (n : String) (x : Xml) :
    Xml.named n (if p then [] else [x]) = if p then none else if x.name = n then some x else none := by
  by_cases hp : p
  · rw [if_pos hp, if_pos hp, Xml.named_nil]
  · rw [if_neg hp, if_neg hp, Xml.named_cons, Xml.named_nil]

theorem filter_lines (d : Document) :
    (d.xml.children.filter fun y => y.name = "cac:InvoiceLine") = d.lines.map Line.xml := by
  unfold Document.xml optional
  simp only [Xml.children_node, List.filter_append]
  rw [filter_map_name (name_element _), filter_map_name (name_element _),
    filter_map_name (name_element _), filter_map_name (name_element _),
    filter_map_name BillingReference.name_xml, filter_map_name TaxTotal.name_xml,
    filter_map_name MonetaryTotal.name_xml, filter_map_name Line.name_xml]
  by_cases hcode : d.documentCurrencyCode = "" <;> simp [hcode]

theorem filter_subtotals (t : TaxTotal) :
    (t.xml.children.filter fun y => y.name = "cac:TaxSubtotal") =
      t.taxSubtotal.map TaxSubtotal.xml := by
  unfold TaxTotal.xml
  rw [Xml.children_node, List.filter_cons, filter_map_name TaxSubtotal.name_xml]
  simp

theorem isSome_billingReferenceFrom (ref : Submission.BillingReference) :
    (billingReferenceFrom ref).isSome = !blank ref.irn := by
  unfold billingReferenceFrom blank
  cases ref.irn with
  | none => rfl
  | some irn =>
    dsimp only
    by_cases hblank : trimSpace irn = "" <;> simp [hblank]

theorem readDocument_build {c : Canonical} (h : missing c = []) :
    readDocument (build c).xml = some (promised c) := by
  obtain ⟨⟨issued, hissued⟩, ⟨currency, hcurrency, hc⟩, -, -⟩ := missing_nil h
  have hcode : textAt ["cbc:DocumentCurrencyCode"] (build c).xml = some currency := by
    simp [Document.xml, build, hcurrency, deref, hc]
  have hnumber : textAt ["cbc:ID"] (build c).xml = some c.invoiceNumber := by
    simp [Document.xml, build]
  have htype : textAt ["cbc:InvoiceTypeCode"] (build c).xml =
      some (Submission.invoiceTypeCode c.documentType) := by
    simp [Document.xml, build]
  have hdate : dateAt ["cbc:IssueDate"] (build c).xml = some (c.issueDate.map day) :=
    dateAt_some (by simp [Document.xml, build, hissued, dateText])
  have hdue : dateAt ["cbc:DueDate"] (build c).xml = some (c.dueDate.map day) :=
    dateAt_some (by simp [Document.xml, build])
  have hpoint : dateAt ["cbc:TaxPointDate"] (build c).xml = some (c.taxPointDate.map day) :=
    dateAt_some (by simp [Document.xml, build])
  have hsupplier : (build c).xml.down ["cac:AccountingSupplierParty"] =
      some ((partyFrom c.supplier).xml "cac:AccountingSupplierParty") := by
    simp [Document.xml, build]
  have hbuyer : (build c).xml.down ["cac:AccountingCustomerParty"] =
      some ((partyFrom c.buyer).xml "cac:AccountingCustomerParty") := by
    simp [Document.xml, build]
  have hvat : amountAt currency ["cac:TaxTotal", "cbc:TaxAmount"] (build c).xml = some c.vat :=
    amountAt_some hc (n := "cbc:TaxAmount") (by
      simp [Document.xml, build, hcurrency, TaxTotal.xml, Option.bind_map, Function.comp_def])
  have hsubtotal : amountAt currency ["cac:LegalMonetaryTotal", "cbc:LineExtensionAmount"]
      (build c).xml = some c.subtotal :=
    amountAt_some hc (n := "cbc:LineExtensionAmount") (by
      simp +contextual [Document.xml, build, hcurrency, MonetaryTotal.xml, bind_kept])
  have hexclusive : amountAt currency ["cac:LegalMonetaryTotal", "cbc:TaxExclusiveAmount"]
      (build c).xml = some c.subtotal :=
    amountAt_some hc (n := "cbc:TaxExclusiveAmount") (by
      simp +contextual [Document.xml, build, hcurrency, MonetaryTotal.xml, bind_kept])
  have htotal : amountAt currency ["cac:LegalMonetaryTotal", "cbc:PayableAmount"]
      (build c).xml = some c.total :=
    amountAt_some hc (n := "cbc:PayableAmount") (by
      simp +contextual [Document.xml, build, hcurrency, MonetaryTotal.xml, bind_kept])
  have htime : textAt ["cbc:IssueTime"] (build c).xml = c.issueTime := by
    simp [Document.xml, build]
  have htaxCurrency : textAt ["cbc:TaxCurrencyCode"] (build c).xml = c.taxCurrencyCode := by
    simp [Document.xml, build]
  have hsubtotals : subtotalsAt currency (build c).xml = some (promised c).taxSubtotals := by
    have htaxTotal : (build c).xml.down ["cac:TaxTotal"] =
        (build c).taxTotal.map TaxTotal.xml := by
      simp [Document.xml]
    rw [subtotalsAt, htaxTotal, promised]
    cases hv : c.vat with
    | none => simp [build, hv, amountFrom]
    | some v =>
      have hbuilt : (build c).taxTotal = some ⟨⟨deref c.currency, v⟩, subtotalsFrom c⟩ := by
        simp [build, hv, amountFrom, deref]
      rw [hbuilt, Option.map_some, Option.elim_some, filter_subtotals]
      exact readSubtotals hcurrency hc
  have hlines : linesAt currency (build c).xml = some (c.lines.map promisedLine) := by
    have hmap : (build c).lines.map Line.xml = c.lines.map fun l => (lineFrom c l).xml :=
      List.map_map
    rw [linesAt, filter_lines, hmap]
    exact mapM_some fun l _ => readLine_line hcurrency hc l
  have hreference : referenceAt (build c).xml = some (promised c).billingReference := by
    have hdown : (build c).xml.down ["cac:BillingReference"] =
        (build c).billingReference.map BillingReference.xml := by
      simp [Document.xml]
    have hbuilt : (build c).billingReference = c.billingReference.bind billingReferenceFrom := rfl
    rw [referenceAt, hdown, hbuilt, promised]
    cases href : c.billingReference with
    | none => rfl
    | some ref =>
      rw [Option.bind_some]
      have hkept := isSome_billingReferenceFrom ref
      cases hb : billingReferenceFrom ref with
      | none =>
        rw [hb] at hkept
        simp [Option.filter, ← hkept]
      | some b =>
        rw [hb] at hkept
        simp [Option.filter, ← hkept, readReference_reference hb]
  simp only [readDocument, hnumber, htype, hcode, hdate, hdue, hpoint, hsupplier, hbuyer,
    hsubtotal, hexclusive, hvat, htotal, htime, htaxCurrency, hlines, hsubtotals, hreference,
    Option.bind_eq_bind, Option.bind_some, readTypeCode_code, readParty_party, Option.pure_def,
    ne_eq, not_true_eq_false, if_false]
  rw [promised, hcurrency]

/-! ### Nothing is lost -/

theorem render_error (c : Canonical) : (∃ e, render c = .error e) ↔ missing c ≠ [] := by
  unfold render
  by_cases h : missing c = []
  · rw [if_neg (not_not_intro h)]
    exact ⟨fun ⟨e, he⟩ => absurd he (by simp [pure, Except.pure]), fun hne => absurd h hne⟩
  · rw [if_pos h]
    exact ⟨fun _ => h, fun _ => ⟨_, rfl⟩⟩

theorem render_ok {c : Canonical} (h : missing c = []) :
    render c = .ok (Xml.document (build c).xml) := by
  rw [render, if_neg (not_not_intro h)]
  rfl

/-- The document of an invoice that is not missing anything is read back as what it promises, its
containers are never empty, and only an invoice that is missing something has none. -/
theorem document_loses_nothing :
    (∀ c, (∃ e, render c = .error e) ↔ missing c ≠ []) ∧
    (∀ c, missing c = [] → Legal (texts c) → ∃ text x, render c = .ok text ∧
      Xml.parse text = some x ∧ readDocument x = some (promised c) ∧
      ∀ name attrs children, Xml.Within (.node name attrs children) x → children ≠ []) ∧
    ∀ c d, missing c = [] → Legal (texts c) → missing d = [] → Legal (texts d) →
      promised c ≠ promised d → render c ≠ render d := by
  refine ⟨render_error, ?_, ?_⟩
  · intro c hmissing hlegal
    have hwell := document_wellFormed hmissing hlegal
    refine ⟨_, _, render_ok hmissing, Xml.parse_document hwell, readDocument_build hmissing, ?_⟩
    intro name attrs children hwithin
    cases hwell.within hwithin with
    | node tag nonempty inner => exact nonempty
  · intro c d hc hlegalc hd hlegald hne hsame
    rw [render_ok hc, render_ok hd] at hsame
    have hparse := Xml.parse_document (document_wellFormed hc hlegalc)
    rw [Except.ok.inj hsame, Xml.parse_document (document_wellFormed hd hlegald)] at hparse
    have hread := readDocument_build hc
    rw [← Option.some.inj hparse, readDocument_build hd] at hread
    exact hne (Option.some.inj hread).symm

def sampleNote (reference : Option Submission.BillingReference) (lineID : String) : Canonical :=
  { invoiceNumber := "CN-7"
    documentType := .creditNote
    issueDate := some { date := ⟨2026, 8, 6, by decide, by decide⟩, clock := 5 }
    supplier := { name := some "Acme & Sons", country := some "NG" }
    buyer := { name := some "Beta" }
    currency := some "NGN"
    vat := some "7.50"
    lines := [{ lineID := lineID, lineNo := 2, unitPrice := some "", baseQuantity := some "10",
                priceUnit := some "KGM" }]
    taxSubtotals := [{ category := "S", percent := some "7.5", taxAmount := some "7.50" }]
    billingReference := reference }

theorem document_loses_nothing_sample :
    ∃ text x, render (sampleNote (some { irn := some "INV-1" }) "") = .ok text ∧
      Xml.parse text = some x ∧
        readDocument x = some (promised (sampleNote (some { irn := some "INV-1" }) "")) ∧
      ∀ name attrs children, Xml.Within (.node name attrs children) x → children ≠ [] :=
  document_loses_nothing.2.1 _ rfl (legal_of rfl)

theorem blank_reference_dropped :
    missing (sampleNote (some { irn := some " " }) "7a") = [] ∧
      (sampleNote (some { irn := some " " }) "7a").billingReference ≠
        (sampleNote none "").billingReference ∧
      (sampleNote (some { irn := some " " }) "7a").lines ≠ (sampleNote none "").lines ∧
      render (sampleNote (some { irn := some " " }) "7a") = render (sampleNote none "") :=
  ⟨rfl, by decide, by decide, rfl⟩

end InvoiceOs.Ubl
