import InvoiceOs.Customers.Directory
import InvoiceOs.Importer.Sheet
import InvoiceOs.Invoice.Store
import InvoiceOs.Lib.Digits

/-! An import of a decoded sheet: the groups it keeps, the dry run that only reports them, and the
real run that creates them one transaction each. -/

namespace InvoiceOs.Importer

open Lib Invoice Approval

/-! ### Drafts -/

structure Content where
  entityID : Uuid
  invoiceNumber : String
  issueDate : Option Date := none
  supplierTIN : Option String := none
  supplierName : Option String := none
  buyerTIN : Option String := none
  buyerName : Option String := none
  currency : Option String := none
  subtotal : Option String := none
  vat : Option String := none
  total : Option String := none
  importBatchID : Option Uuid := none
  sourceDocumentID : Option Uuid := none
  sourceRows : Option (List ℕ) := none
  nrs : NRSHeader := {}

structure CreateInput extends Content where
  lineItems : List LineItemInput := []

structure Draft extends Content where
  lineItems : List LineItem := []

/-- The request, its default kind one of the three the handler lets through. -/
structure Request where
  entityID : Uuid
  filename : String := ""
  documentID : Option Uuid := none
  headerRow : ℕ := 1
  mapping : Table String String
  header : List String
  rows : Sheet
  defaultInvoiceKind : Option String := none
  headerRow_pos : 1 ≤ headerRow := by decide
  kind_mem : defaultInvoiceKind.all Customers.isBuyerType = true := by decide
  filename_text : hasNUL filename = false := by decide

section
variable (cols : Columns) (rows : Sheet)

/-- A date the checks have read; nothing unreadable is left. -/
def dateField (first : List String) (field : String) : Option Date :=
  (fieldValue first cols field).bind fun v => readDate (trimSpace v).toList

def lineInput (row : List String) : LineItemInput where
  description := fieldValue row cols "line_description"
  quantity := fieldValue row cols "line_quantity"
  unitPrice := fieldValue row cols "line_unit_price"
  lineTotal := fieldValue row cols "line_total"
  lineTax := fieldValue row cols "line_tax"
  taxCategory := fieldValue row cols "line_tax_category"
  hsnCode := fieldValue row cols "line_hsn_code"
  isicCode := fieldValue row cols "line_isic_code"
  productCategory := fieldValue row cols "line_product_category"
  serviceCategory := fieldValue row cols "line_service_category"
  sellersItemIdentification := fieldValue row cols "line_sellers_item_identification"
  priceUnit := fieldValue row cols "line_price_unit"
  taxPercent := fieldValue row cols "line_tax_percent"
  baseQuantity := fieldValue row cols "line_base_quantity"

def buildCreateInput (req : Request) (e : Entity) (g : InvoiceGroup) (batchID : Option Uuid)
    (documentID : Option Uuid) : CreateInput :=
  let first := firstRow req.rows g.rowIdxs
  let value := fieldValue first cols
  { entityID := req.entityID
    invoiceNumber := g.number
    issueDate := dateField cols first "issue_date"
    supplierTIN := mbsSupplierTIN e.tin
    supplierName := some e.name
    buyerTIN := value "buyer_tin"
    buyerName := value "buyer_name"
    currency := value "currency"
    subtotal := value "subtotal"
    vat := value "vat"
    total := value "total"
    importBatchID := batchID
    sourceDocumentID := documentID
    -- rows without a document break a constraint of the table
    sourceRows := documentID.map fun _ => sheetRows req.headerRow g.rowIdxs
    nrs := defaultSupplierContact
      { invoiceKind := if (cols "invoice_kind").isNone then req.defaultInvoiceKind
          else value "invoice_kind"
        taxCurrencyCode := value "tax_currency_code"
        dueDate := dateField cols first "due_date"
        issueTime := value "issue_time"
        taxPointDate := dateField cols first "tax_point_date"
        paymentStatus := value "payment_status"
        buyerEmail := value "buyer_email"
        buyerTelephone := value "buyer_telephone"
        buyerStreet := value "buyer_street"
        buyerCity := value "buyer_city"
        buyerPostalZone := value "buyer_postal_zone"
        buyerCountry := value "buyer_country"
        buyerState := value "buyer_state"
        buyerLGA := value "buyer_lga" } e.contact
    lineItems := g.rowIdxs.map fun i => lineInput cols (req.rows.row i) }

end

def invoiceFromCreateInput (input : CreateInput) : Draft :=
  { input.toContent with
    sourceDocumentID := none
    sourceRows := none
    lineItems := replaceLines input.lineItems }

/-! ### The tables -/

inductive BatchStatus where
  | processing
  | completed
  | failed
  deriving DecidableEq

structure Batch where
  entityID : Uuid
  filename : Option String
  documentID : Option Uuid
  headerRow : ℕ
  status : BatchStatus := .processing
  rowsTotal : ℤ := 0
  rowsValid : ℤ := 0
  rowsInvalid : ℤ := 0
  errors : List RowError := []

structure InvoiceRow extends Draft where
  id : Uuid

structure Db where
  entities : List Entity
  documents : List Uuid := []
  invoices : List InvoiceRow := []
  customers : Table String Customers.Customer := ∅
  batches : Table Uuid Batch := ∅

/-- The number's first invoice under the client; the number is unique there. -/
def Db.findNumber (db : Db) (entityID : Uuid) (number : String) : Option Uuid :=
  (db.invoices.find? fun r => r.entityID == entityID && r.invoiceNumber == number).map InvoiceRow.id

def existingNumbers (db : Db) (entityID : Uuid) (numbers : List String) :
    Except ImportErr (String → Option Uuid) :=
  if numbers.any hasNUL then throw .database
  else pure fun number => if number ∈ numbers then db.findNumber entityID number else none

def entitySupplier (db : Db) (entityID : Uuid) : Except ImportErr Entity :=
  match db.entities.find? fun e => e.id == entityID with
  | none => throw .notFound
  | some e => pure e

/-! ### Create -/

inductive CreateErr where
  | duplicateNumber
  | validation
  | notFound
  | database
  deriving DecidableEq

/-- What the database makes of a text that is no plain decimal, and whether the indexes have room
for a number and for a TIN. -/
structure Externals where
  cast : ℕ → String → Option ℤ
  numberIndexable : String → Bool
  customers : Customers.Externals

def roundUnits (scale : ℕ) (s : List Char) : ℤ :=
  let fraction := ((unsigned s).dropWhile Char.isDigit).tail
  let kept := (unsigned s).takeWhile Char.isDigit ++ fraction.take scale ++
    List.replicate (scale - fraction.length) '0'
  let up := (fraction[scale]?).any fun c => '5' ≤ c
  (if s.head? = some '-' then -1 else 1) * ((readDigits kept : ℤ) + if up then 1 else 0)

/-- `::text::numeric` into a `numeric(14,scale)` column. -/
def storeNumeric (x : Externals) (scale : ℕ) (v : String) : Except CreateErr ℤ :=
  if decimalNumberRe v.toList then
    if 16383 < (((unsigned v.toList).dropWhile Char.isDigit).tail).length then throw .validation
    else if 10 ^ 14 ≤ (roundUnits scale v.toList).natAbs then throw .validation
    else pure (roundUnits scale v.toList)
  else
    match x.cast scale v with
    | none => throw .validation
    | some n => pure n

def unitsText (scale : ℕ) (n : ℤ) : String :=
  (if n < 0 then "-" else "") ++ toString (n.natAbs / 10 ^ scale) ++ "." ++
    padLeft scale (n.natAbs % 10 ^ scale)

def storeAmount (x : Externals) (scale : ℕ) : Option String → Except CreateErr (Option String)
  | none => pure none
  | some v => do
    let n ← storeNumeric x scale v
    return some (unitsText scale n)

/-- A text column refuses a NUL; what is no UTF-8, which it refuses too, is no text here. -/
def storeTexts (texts : List (Option String)) : Except CreateErr Unit :=
  if texts.any fun t => t.any hasNUL then throw .validation else pure ()

def Content.texts (c : Content) : List (Option String) :=
  [some c.invoiceNumber, c.supplierTIN, c.supplierName, c.buyerTIN, c.buyerName, c.currency] ++
    c.nrs.values

def lineTexts (li : LineItemInput) : List (Option String) :=
  [li.description, li.taxCategory, li.hsnCode, li.isicCode, li.productCategory,
    li.serviceCategory, li.sellersItemIdentification, li.priceUnit]

section
variable (x : Externals)

def storeContent (c : Content) : Except CreateErr Content := do
  storeTexts c.texts
  let subtotal ← storeAmount x 2 c.subtotal
  let vat ← storeAmount x 2 c.vat
  let total ← storeAmount x 2 c.total
  return { c with subtotal := subtotal, vat := vat, total := total }

def storeLine (li : LineItemInput) : Except CreateErr LineItemInput := do
  storeTexts (lineTexts li)
  let quantity ← storeAmount x 3 li.quantity
  let unitPrice ← storeAmount x 2 li.unitPrice
  let lineTotal ← storeAmount x 2 li.lineTotal
  let lineTax ← storeAmount x 2 li.lineTax
  let taxPercent ← storeAmount x 2 li.taxPercent
  let baseQuantity ← storeAmount x 3 li.baseQuantity
  return { li with
    quantity := quantity, unitPrice := unitPrice, lineTotal := lineTotal, lineTax := lineTax,
    taxPercent := taxPercent, baseQuantity := baseQuantity }

def customerRow (id : Uuid) (c : Content) : Customers.InvoiceRow where
  id := id
  createdAt := 0
  invoiceNumber := c.invoiceNumber
  buyerTIN := c.buyerTIN
  buyerName := c.buyerName
  invoiceKind := c.nrs.invoiceKind
  buyerEmail := c.nrs.buyerEmail
  buyerTelephone := c.nrs.buyerTelephone
  buyerStreet := c.nrs.buyerStreet
  buyerCity := c.nrs.buyerCity
  buyerPostalZone := c.nrs.buyerPostalZone
  buyerCountry := c.nrs.buyerCountry
  buyerState := c.nrs.buyerState
  buyerLGA := c.nrs.buyerLGA

/-- `FillFromInvoiceTx`. A TIN the index has no room for is no domain error. -/
def fillCustomers (db : Db) (row : Customers.InvoiceRow) (newID : Uuid) : Except CreateErr Db :=
  match row.tin with
  | none => pure db
  | some tin =>
    let directory : Customers.Db :=
      { invoices := [], unique := List.nodup_nil, customers := db.customers }
    match Customers.upsert x.customers directory tin row.buyer newID with
    | .error _ => throw .database
    | .ok directory' => pure { db with customers := directory'.customers }

structure Ids where
  invoice : String → Uuid
  customer : String → Uuid

variable (ids : Ids)

def insertRows (db : Db) (input : CreateInput) (content : Content) :
    Except CreateErr (Db × InvoiceRow) := do
  let id := ids.invoice input.invoiceNumber
  let db ← fillCustomers x db (customerRow id content) (ids.customer input.invoiceNumber)
  let lines ← input.lineItems.mapM (storeLine x)
  let row : InvoiceRow := { content with id := id, lineItems := replaceLines lines }
  return ({ db with invoices := row :: db.invoices }, row)

def create (db : Db) (input : CreateInput) : Except CreateErr (Db × InvoiceRow) :=
  if input.invoiceNumber = "" then throw .validation
  else if (db.entities.find? fun e => e.id == input.entityID).isNone then throw .notFound
  else
    match storeContent x input.toContent with
    | .error e => throw e
    | .ok content =>
      if (input.sourceDocumentID.any fun d => d ∉ db.documents) = true then throw .validation
      else if (db.findNumber input.entityID input.invoiceNumber).isSome then
        throw .duplicateNumber
      else if x.numberIndexable input.invoiceNumber = false then throw .database
      else insertRows x ids db input content

/-- A domain error quarantines its group; any other ends the run. -/
def domainCreateErrorMessage : CreateErr → Option String
  | .duplicateNumber => some "invoice number already imported"
  | .validation => some "one or more fields failed validation"
  | .notFound => some "client not found"
  | .database => none

end

/-! ### Batches -/

def newBatch (req : Request) : Batch where
  entityID := req.entityID
  filename := if req.filename = "" then none else some req.filename
  documentID := req.documentID
  headerRow := req.headerRow

def Db.setBatch (db : Db) (batchID : Uuid) (b : Batch) : Db :=
  { db with batches := db.batches.set batchID b }

def createBatch (db : Db) (req : Request) (batchID : Uuid) : Except ImportErr Db :=
  if (req.documentID.any fun d => d ∉ db.documents) = true then throw .validation
  else if hasNUL req.filename then throw .database
  else pure (db.setBatch batchID (newBatch req))

/-- The counts are checked not to be negative. -/
def finalize (db : Db) (batchID : Uuid) (rowsTotal rowsValid rowsInvalid : ℤ)
    (errors : List RowError) (status : BatchStatus) : Except ImportErr Db :=
  if rowsTotal < 0 ∨ rowsValid < 0 ∨ rowsInvalid < 0 then throw .database
  else
    match db.batches.get? batchID with
    | none => throw .notFound
    | some b =>
      let b' : Batch :=
        { b with
          status := status, rowsTotal := rowsTotal, rowsValid := rowsValid,
          rowsInvalid := rowsInvalid, errors := errors }
      pure (db.setBatch batchID b')

def finalizeFailed (db : Db) (batchID : Uuid) (rowsTotal rowsValid rowsInvalid : ℤ)
    (errors : List RowError) : Db :=
  match finalize db batchID rowsTotal rowsValid rowsInvalid errors .failed with
  | .ok db' => db'
  | .error _ => db

/-! ### The report -/

structure InvoiceViolations where
  invoiceNumber : String
  invoiceID : Option Uuid := none
  rows : List ℕ
  violations : List Violation

structure BatchResult where
  id : Option Uuid := none
  status : Option BatchStatus := none
  rowsTotal : ℤ := 0
  rowsValid : ℤ := 0
  rowsInvalid : ℤ := 0
  readyInvoices : ℕ := 0
  quarantinedInvoices : ℕ := 0
  errors : List RowError := []
  ruleSetVersion : Option ℕ := none
  invoicesClean : ℕ := 0
  invoicesWithViolations : ℕ := 0
  invoiceViolations : List InvoiceViolations := []

structure EvalResult where
  ruleSetVersion : ℕ
  byRef : String → List Violation

structure BatchOutcome where
  ruleSetVersion : ℕ
  clean : ℕ
  withViolations : ℕ
  byID : Uuid → List Violation
  unvalidated : List Uuid := []

/-- The importer's view of the rules: one call judges previews, the other the created drafts. -/
structure Gate where
  evaluate : List (String × Draft) → Except ImportErr EvalResult
  validateBatch : List InvoiceRow → Except ImportErr BatchOutcome

/-! ### Triage -/

structure Triage where
  ready : List InvoiceGroup := []
  errors : List RowError := []
  quarantined : ℕ := 0
  invalidRows : ℕ := 0

def Triage.quarantine (t : Triage) (e : RowError) (rows : ℕ) : Triage :=
  { t with
    errors := t.errors ++ [e]
    quarantined := t.quarantined + 1
    invalidRows := t.invalidRows + rows }

section
variable (quote : String → String) (cols : Columns) (rows : Sheet) (headerRow : ℕ)
  (existing : String → Option Uuid)

def triageGroup (t : Triage) (g : InvoiceGroup) : Triage :=
  match classify quote cols rows headerRow existing g with
  | some e => t.quarantine e g.rowIdxs.length
  | none => { t with ready := t.ready ++ [g] }

def triageBlank (t : Triage) (i : ℕ) : Triage := t.quarantine (blankNumberError headerRow i) 1

def triage (grouped : Grouped) : Triage :=
  grouped.ungroupable.foldl (triageBlank headerRow)
    (grouped.groups.foldl (triageGroup quote cols rows headerRow existing) {})

end

structure Plan where
  cols : Columns
  entity : Entity
  triage : Triage

section
variable (quote : String → String)

def plan (db : Db) (req : Request) : Except ImportErr Plan := do
  let cols ← resolveMapping req.mapping req.header
  if (cols "invoice_kind").isSome ∧ req.defaultInvoiceKind.isSome then
    throw .validation
  let grouped := groupRows (numberAt cols req.rows) req.rows.length
  let existing ← existingNumbers db req.entityID (grouped.groups.map InvoiceGroup.number)
  let entity ← entitySupplier db req.entityID
  return ⟨cols, entity, triage quote cols req.rows req.headerRow existing grouped⟩

/-! ### The dry run -/

def Plan.result (p : Plan) (req : Request) : BatchResult where
  rowsTotal := req.rows.length
  rowsValid := req.rows.length - p.triage.invalidRows
  rowsInvalid := p.triage.invalidRows
  readyInvoices := p.triage.ready.length
  quarantinedInvoices := p.triage.quarantined
  errors := p.triage.errors

def previewViolations (req : Request) (eval : EvalResult) (ready : List InvoiceGroup) :
    List InvoiceViolations :=
  ready.filterMap fun g =>
    if eval.byRef g.number = [] then none
    else some
      { invoiceNumber := g.number
        rows := sheetRows req.headerRow g.rowIdxs
        violations := eval.byRef g.number }

variable (gate : Gate)

def dryRun (db : Db) (req : Request) : Except ImportErr BatchResult := do
  let p ← plan quote db req
  if p.triage.ready = [] then
    return p.result req
  let eval ← gate.evaluate <| p.triage.ready.map fun g =>
    (g.number, invoiceFromCreateInput (buildCreateInput p.cols req p.entity g none none))
  let blocked := p.triage.ready.countP fun g => hasBlockingViolation (eval.byRef g.number)
  return { p.result req with
    ruleSetVersion := some eval.ruleSetVersion
    invoicesWithViolations := blocked
    invoicesClean := p.triage.ready.length - blocked
    invoiceViolations := previewViolations req eval p.triage.ready }

/-! ### The real run -/

structure CreatedInvoice where
  inv : InvoiceRow
  rowIdxs : List ℕ

structure Progress where
  db : Db
  created : List CreatedInvoice := []
  errors : List RowError
  quarantined : ℕ
  rowsValid : ℤ
  rowsInvalid : ℤ

def createRowError (cols : Columns) (req : Request) (g : InvoiceGroup) (e : CreateErr)
    (message : String) : RowError :=
  if e = .duplicateNumber then storeDuplicateRowError req.headerRow g.rowIdxs none
  else
    { rows := sheetRows req.headerRow g.rowIdxs
      field := (bestEffortBadNumericField cols req.rows g.rowIdxs).getD ""
      message := message }

def Progress.refuse (s : Progress) (e : RowError) (rows : ℕ) : Progress :=
  { s with
    errors := s.errors ++ [e]
    quarantined := s.quarantined + 1
    rowsValid := s.rowsValid - rows
    rowsInvalid := s.rowsInvalid + rows }

variable (x : Externals) (ids : Ids)

def createAll (cols : Columns) (req : Request) (e : Entity) (batchID : Uuid) (s : Progress) :
    List InvoiceGroup → Progress × Option ImportErr
  | [] => (s, none)
  | g :: groups =>
    match create x ids s.db (buildCreateInput cols req e g (some batchID) req.documentID) with
    | .ok (db, inv) =>
      createAll cols req e batchID
        { s with db := db, created := s.created ++ [⟨inv, g.rowIdxs⟩] } groups
    | .error err =>
      match domainCreateErrorMessage err with
      | none => (s, some .database)
      | some message =>
        createAll cols req e batchID
          (s.refuse (createRowError cols req g err message) g.rowIdxs.length) groups

def unvalidatedMessage : String :=
  "invoice created as a draft but not validated: the validation rules changed during the " ++
    "import; validate it again"

def unvalidatedErrors (req : Request) (outcome : BatchOutcome) (created : List CreatedInvoice) :
    List RowError :=
  created.filterMap fun c =>
    if c.inv.id ∈ outcome.unvalidated then
      some
        { rows := sheetRows req.headerRow c.rowIdxs
          invoiceID := some c.inv.id
          message := unvalidatedMessage }
    else none

def createdViolations (req : Request) (outcome : BatchOutcome) (created : List CreatedInvoice) :
    List InvoiceViolations :=
  created.filterMap fun c =>
    if c.inv.id ∈ outcome.unvalidated ∨ outcome.byID c.inv.id = [] then none
    else some
      { invoiceNumber := c.inv.invoiceNumber
        invoiceID := some c.inv.id
        rows := sheetRows req.headerRow c.rowIdxs
        violations := outcome.byID c.inv.id }

def Progress.result (s : Progress) (req : Request) (batchID : Uuid) : BatchResult where
  id := some batchID
  status := some .completed
  rowsTotal := req.rows.length
  rowsValid := s.rowsValid
  rowsInvalid := s.rowsInvalid
  readyInvoices := s.created.length
  quarantinedInvoices := s.quarantined
  errors := s.errors

def validateCreated (req : Request) (batchID : Uuid) (s : Progress) :
    Except ImportErr BatchResult := do
  if s.created = [] then
    return s.result req batchID
  let outcome ← gate.validateBatch (s.created.map CreatedInvoice.inv)
  return { s.result req batchID with
    errors := s.errors ++ unvalidatedErrors req outcome s.created
    ruleSetVersion := some outcome.ruleSetVersion
    invoicesClean := outcome.clean
    invoicesWithViolations := outcome.withViolations
    invoiceViolations := createdViolations req outcome s.created }

def Progress.failed (s : Progress) (req : Request) (batchID : Uuid) : Db :=
  finalizeFailed s.db batchID req.rows.length s.rowsValid s.rowsInvalid s.errors

def createRun (db : Db) (req : Request) (p : Plan) (batchID : Uuid) :
    Db × Except ImportErr BatchResult :=
  match createAll x ids p.cols req p.entity batchID
      { db := db
        errors := p.triage.errors
        quarantined := p.triage.quarantined
        rowsValid := req.rows.length - p.triage.invalidRows
        rowsInvalid := p.triage.invalidRows } p.triage.ready with
  | (s, some err) => (s.failed req batchID, .error err)
  | (s, none) =>
    match validateCreated gate req batchID s with
    | .error err => (s.failed req batchID, .error err)
    | .ok result =>
      match finalize s.db batchID req.rows.length s.rowsValid s.rowsInvalid result.errors
          .completed with
      | .error err => (s.db, .error err)
      | .ok db => (db, .ok result)

/-- A sheet without data rows leaves a failed batch. -/
def emptyRun (db : Db) (batchID : Uuid) : Db × Except ImportErr BatchResult :=
  match finalize db batchID 0 0 0 [] .failed with
  | .error err => (db, .error err)
  | .ok db => (db, .ok { id := some batchID, status := some .failed })

def realRun (db : Db) (req : Request) (batchID : Uuid) : Db × Except ImportErr BatchResult :=
  match plan quote db req with
  | .error err => (db, .error err)
  | .ok p =>
    match createBatch db req batchID with
    | .error err => (db, .error err)
    | .ok db =>
      if req.rows = [] then emptyRun db batchID
      else createRun gate x ids db req p batchID

end
end InvoiceOs.Importer
