import InvoiceOs.Archive.Ids
import InvoiceOs.Audit.Reader
import InvoiceOs.Lib.Chunks
import InvoiceOs.Lib.Csv

/-! The evidence bundle of one company: five CSVs and the body files of a period, read in one
snapshot and streamed into a ZIP whose last entry lists the others. -/

namespace InvoiceOs.Archive

open Lib

/-! ### The snapshot -/

structure Entity where
  id : Uuid
  name : String
  tin : Option String

structure Invoice where
  id : Uuid
  entityID : Uuid
  number : String
  status : String
  issueDate : Option String
  currency : Option String
  subtotal : Option String
  vat : Option String
  total : Option String
  supplierTIN : Option String
  supplierName : Option String
  buyerTIN : Option String
  buyerName : Option String
  irn : Option String
  csid : Option String
  qrPayload : Option String
  rejectionReasons : String
  createdAt : ℕ
  nrs : Vector (Option String) 22
  documentType : String
  originalInvoiceID : Option Uuid

structure LineItem where
  invoiceID : Uuid
  lineNo : ℤ
  cells : Vector (Option String) 14

structure HistoryRow where
  id : Uuid
  invoiceID : Uuid
  fromStatus : Option String
  toStatus : String
  actor : String
  changedAt : ℕ

structure SubmissionJob where
  id : Uuid
  invoiceID : Uuid
  idempotencyKey : String
  adapter : String
  adapterVersion : String
  state : String
  attempts : ℤ
  pollRef : Option String
  lastError : Option String
  createdAt : ℕ
  updatedAt : ℕ

structure Exchange where
  id : Uuid
  submissionJobID : Uuid
  invoiceID : Uuid
  operation : String
  outcome : String
  attempt : ℤ
  httpStatus : Option ℤ
  latencyMs : Option ℤ
  truncated : Bool
  encodingCoerced : Bool
  requestHeaders : String
  responseHeaders : String
  requestBody : Option String
  responseBody : Option String
  adapter : String
  adapterVersion : String
  occurredAt : ℕ

/-- What row security leaves of the tables, in one snapshot. -/
structure Snapshot where
  tenantID : Uuid
  entities : List Entity
  invoices : List Invoice
  lineItems : List LineItem
  history : List HistoryRow
  submissions : List SubmissionJob
  exchanges : List Exchange
  memberships : List Audit.Membership
  entities_unique : (entities.map Entity.id).Nodup
  invoices_unique : (invoices.map Invoice.id).Nodup
  lineItems_unique : (lineItems.map fun l => (l.invoiceID, l.lineNo)).Nodup
  history_unique : (history.map HistoryRow.id).Nodup
  submissions_unique : (submissions.map SubmissionJob.id).Nodup
  exchanges_unique : (exchanges.map Exchange.id).Nodup

structure Request where
  entityID : String
  «from» : ℕ
  «to» : ℕ

/-! ### The manifest's document -/

abbrev Bytes := List UInt8

def bytesOf (s : String) : Bytes := s.toUTF8.data.toList

structure ManifestEntry where
  name : String
  bytes : ℕ
  sha256 : String
  rows : Option ℕ

structure ManifestEntity where
  id : Uuid
  name : String
  tin : Option String

structure ManifestPeriod where
  «from» : String
  «to» : String
  bounds : String
  basis : String

structure ManifestCounts where
  invoices : ℕ := 0
  lineItems : ℕ := 0
  statusTransitions : ℕ := 0
  submissions : ℕ := 0
  exchangeAttempts : ℕ := 0
  bodyFiles : ℕ := 0

structure ManifestDoc where
  format : String
  generatedAt : String
  generatedBy : Audit.Label
  tenantID : Uuid
  entity : ManifestEntity
  period : ManifestPeriod
  counts : ManifestCounts
  entries : List ManifestEntry
  notes : List String

/-- The uuid and JSON libraries, the header scrub over a stored header map, the formats of an
instant, and the digest. -/
structure Externals where
  uuidParse : String → Option Uuid
  compactJSON : String → Option String
  rescrubHeaders : String → Option String
  rfc3339 : ℕ → String
  rfc3339Nano : ℕ → String
  day : ℕ → String
  sha256 : Bytes → String
  marshal : ManifestDoc → String

inductive Err where
  | maxInvoices (got : ℤ)
  | entityID (raw : String)
  | entityNotFound
  | tooManyInvoices (count : ℕ) (limit : ℤ)
  | compact (invoice : Uuid)
  | rescrub (field : String) (exchange : Uuid)
  | openDocument (document : Uuid)
  | compactPayload (row : ℕ)
  deriving DecidableEq

section
variable (x : Externals) (db : Snapshot)

/-! ### The request -/

def normalizeEntityID (raw : String) : Except Err Uuid :=
  match x.uuidParse raw with
  | none => throw (.entityID raw)
  | some id => pure id

def selectEntity (entityID : String) : Except Err Entity := do
  let canonical ← normalizeEntityID x entityID
  match db.entities.find? fun e => e.id = canonical with
  | none => throw .entityNotFound
  | some e => pure e

def isAlnum (c : Char) : Bool :=
  ('A' ≤ c && c ≤ 'Z') || ('a' ≤ c && c ≤ 'z') || ('0' ≤ c && c ≤ '9')

def slugRuns : List Char → List Char
  | [] => []
  | c :: cs =>
    if isAlnum c then c :: slugRuns cs
    else
      match slugRuns cs with
      | '-' :: rest => '-' :: rest
      | rest => '-' :: rest

def maxSlugBytes : ℕ := 48

/-- The slug is ASCII, so its bytes are its characters. -/
def entitySlug (name fallbackID : String) : String :=
  let slug := trim (· = '-') (slugRuns name.toList)
  if slug = [] then fallbackID else String.ofList (slug.take maxSlugBytes)

def bundleFilename (entityName : String) (r : Request) : String :=
  "ASComply_evidence_" ++ entitySlug entityName r.entityID ++ "_" ++ x.day r.from ++ "_" ++
    x.day r.to ++ ".zip"

/-! ### The records -/

abbrev Record := List String

def emptyIfNil (s : Option String) : String := s.getD ""

def emptyIntIfNil (n : Option ℤ) : String := (n.map toString).getD ""

def byID {ρ : Type} (id : ρ → Uuid) : ρ → ρ → Bool := comparing id fun a b => decide (a ≤ b)

def byTime {ρ : Type} (time : ρ → ℕ) (id : ρ → Uuid) : ρ → ρ → Bool :=
  thenBy (comparing time fun a b => decide (a ≤ b)) (byID id)

def invoicesCSVHeader : Record :=
  ["invoice_id", "invoice_number", "status", "issue_date", "currency",
    "subtotal", "vat", "total", "supplier_tin", "supplier_name", "buyer_tin", "buyer_name",
    "irn", "csid", "qr_payload", "rejection_reasons", "created_at",
    "invoice_kind", "tax_currency_code", "payment_status", "due_date", "tax_point_date",
    "issue_time", "supplier_email", "supplier_telephone", "supplier_street", "supplier_city",
    "supplier_postal_zone", "supplier_country", "supplier_state", "supplier_lga",
    "buyer_email", "buyer_telephone", "buyer_street", "buyer_city",
    "buyer_postal_zone", "buyer_country", "buyer_state", "buyer_lga",
    "document_type", "original_invoice_number"]

def inScope (entityID : Uuid) (r : Request) (i : Invoice) : Bool :=
  i.entityID = entityID && r.from ≤ i.createdAt && i.createdAt ≤ r.to

def originalNumber (i : Invoice) : Option String :=
  i.originalInvoiceID.bind fun original =>
    (db.invoices.find? fun o => o.id = original).map Invoice.number

def invoiceRecord (i : Invoice) : Except Err Record :=
  match x.compactJSON i.rejectionReasons with
  | none => throw (.compact i.id)
  | some compact =>
    pure ([i.id.text, i.number, i.status, emptyIfNil i.issueDate, emptyIfNil i.currency,
      emptyIfNil i.subtotal, emptyIfNil i.vat, emptyIfNil i.total, emptyIfNil i.supplierTIN,
      emptyIfNil i.supplierName, emptyIfNil i.buyerTIN, emptyIfNil i.buyerName, emptyIfNil i.irn,
      emptyIfNil i.csid, emptyIfNil i.qrPayload, compact, x.rfc3339Nano i.createdAt] ++
      i.nrs.toList.map emptyIfNil ++ [i.documentType, emptyIfNil (originalNumber db i)])

def writeInvoiceRows (rows : List Invoice) : Except Err (List Uuid × List Record) := do
  let records ← rows.mapM (invoiceRecord x db)
  pure (rows.map Invoice.id, records)

def selectInvoices (r : Request) : Except Err (List Uuid × List Record) := do
  let canonical ← normalizeEntityID x r.entityID
  let rows := (db.invoices.filter (inScope canonical r)).mergeSort (byTime Invoice.createdAt Invoice.id)
  let (ids, records) ← writeInvoiceRows x db rows
  pure (ids, invoicesCSVHeader :: records)

def countInvoices (r : Request) : Except Err ℕ := do
  let canonical ← normalizeEntityID x r.entityID
  pure (db.invoices.countP (inScope canonical r))

def selectInvoiceIDs (r : Request) : Except Err (List Uuid) := do
  let canonical ← normalizeEntityID x r.entityID
  pure ((db.invoices.filter (inScope canonical r)).map Invoice.id)

def batchSize : ℕ := 500

/-- A missing id reads as the map's zero value. -/
def invoiceNumbers (ids : List Uuid) (id : Uuid) : String :=
  ((db.invoices.find? fun i => i.id ∈ ids && i.id = id).map Invoice.number).getD ""

def lineItemsCSVHeader : Record :=
  ["invoice_id", "invoice_number", "line_no", "description", "quantity", "unit_price",
    "line_total", "line_tax", "tax_category", "hsn_code", "isic_code", "product_category",
    "service_category", "sellers_item_identification", "price_unit", "tax_percent",
    "base_quantity"]

def lineItemRecord (numbers : Uuid → String) (l : LineItem) : Record :=
  [l.invoiceID.text, numbers l.invoiceID, toString l.lineNo] ++ l.cells.toList.map emptyIfNil

def byLine : LineItem → LineItem → Bool := comparing LineItem.lineNo fun a b => decide (a ≤ b)

def sortedIDs (ids : List Uuid) : List Uuid :=
  ids.mergeSort (comparing Uuid.text fun a b => decide (a ≤ b))

def selectLineItems (ids : List Uuid) : List Record :=
  let numbers := invoiceNumbers db ids
  let rows := (chunk batchSize (sortedIDs ids)).flatMap
    (batchRows LineItem.invoiceID byLine db.lineItems)
  lineItemsCSVHeader :: rows.map (lineItemRecord numbers)

def historyCSVHeader : Record :=
  ["invoice_id", "invoice_number", "seq", "from_status", "to_status",
    "actor_name", "actor_kind", "changed_at"]

def kindText : Audit.LabelKind → String
  | .system => "system"
  | .person => "person"
  | .raw => "raw"

def historyRecord (numbers : Uuid → String) (seq : ℕ) (h : HistoryRow) : Record :=
  let label := Audit.resolve db.memberships h.actor
  [h.invoiceID.text, numbers h.invoiceID, toString seq, emptyIfNil h.fromStatus, h.toStatus,
    label.text, kindText label.kind, x.rfc3339Nano h.changedAt]

def selectHistory (ids : List Uuid) : List Record :=
  let numbers := invoiceNumbers db ids
  let rows := (chunk batchSize ids).flatMap
    (batchRows HistoryRow.invoiceID (byTime HistoryRow.changedAt HistoryRow.id) db.history)
  historyCSVHeader ::
    (numbered HistoryRow.invoiceID none 0 rows).map fun e => historyRecord x db numbers e.1 e.2

def submissionsCSVHeader : Record :=
  ["invoice_id", "invoice_number", "submission_job_id", "idempotency_key",
    "state", "attempts", "adapter", "adapter_version", "poll_ref", "last_error",
    "created_at", "updated_at"]

def submissionRecord (numbers : Uuid → String) (s : SubmissionJob) : Record :=
  [s.invoiceID.text, numbers s.invoiceID, s.id.text, s.idempotencyKey, s.state,
    toString s.attempts, s.adapter, s.adapterVersion, emptyIfNil s.pollRef,
    emptyIfNil s.lastError, x.rfc3339Nano s.createdAt, x.rfc3339Nano s.updatedAt]

def selectSubmissions (ids : List Uuid) : List Record :=
  let numbers := invoiceNumbers db ids
  let rows := (chunk batchSize ids).flatMap
    (batchRows SubmissionJob.invoiceID (byTime SubmissionJob.createdAt SubmissionJob.id)
      db.submissions)
  submissionsCSVHeader :: rows.map (submissionRecord x numbers)

def exchangeCSVHeader : Record :=
  ["invoice_id", "invoice_number", "submission_job_id", "exchange_id", "operation",
    "outcome", "attempt", "http_status", "latency_ms", "truncated", "encoding_coerced",
    "request_headers", "response_headers", "request_body_file", "response_body_file",
    "adapter", "adapter_version", "occurred_at"]

/-- A body's file-name cell: empty where there is no body. -/
def bodyFile (e : Exchange) (suffix : String) (body : Option String) : String :=
  match body with
  | none => ""
  | some _ => "bodies/" ++ e.id.text ++ suffix

def requestBodyFile (e : Exchange) : String := bodyFile e ".request" e.requestBody

def responseBodyFile (e : Exchange) : String := bodyFile e ".response" e.responseBody

def exchangeRecord (numbers : Uuid → String) (e : Exchange) (reqHeaders respHeaders : String) :
    Record :=
  [e.invoiceID.text, numbers e.invoiceID, e.submissionJobID.text, e.id.text, e.operation,
    e.outcome, toString e.attempt, emptyIntIfNil e.httpStatus, emptyIntIfNil e.latencyMs,
    toString e.truncated, toString e.encodingCoerced, reqHeaders, respHeaders, requestBodyFile e,
    responseBodyFile e, e.adapter, e.adapterVersion, x.rfc3339Nano e.occurredAt]

/-! ### The ZIP -/

structure ZipEntry where
  name : String
  content : Bytes

structure BundleWriter where
  zip : List ZipEntry := []
  entries : List ManifestEntry := []

def csvText (records : List Record) : String :=
  String.ofList (Csv.writeAll isSpace (records.map (List.map String.toList)))

namespace BundleWriter

variable (bw : BundleWriter)

def create (name : String) (content : Bytes) (rows : Option ℕ) : BundleWriter where
  zip := bw.zip ++ [{ name := name, content := content }]
  entries := bw.entries ++
    [{ name := name, bytes := content.length, sha256 := x.sha256 content, rows := rows }]

/-- The header record is not counted in the rows. -/
def finalizeCSV (name : String) (records : List Record) : BundleWriter :=
  bw.create x name (bytesOf (csvText records)) (some (records.length - 1))

def writeBody (name : String) (body : Bytes) : BundleWriter := bw.create x name body none

def writeBodyOf (name : String) : Option String → BundleWriter
  | none => bw
  | some body => bw.writeBody x name (bytesOf body)

end BundleWriter

abbrev Abandoned := Err × BundleWriter

def writeExchange (numbers : Uuid → String) (dir : String) (bw : BundleWriter) (e : Exchange) :
    Except Abandoned (BundleWriter × Record) :=
  match x.rescrubHeaders e.requestHeaders with
  | none => throw (.rescrub "request_headers" e.id, bw)
  | some reqHeaders =>
    match x.rescrubHeaders e.responseHeaders with
    | none => throw (.rescrub "response_headers" e.id, bw)
    | some respHeaders =>
      let bw := bw.writeBodyOf x (dir ++ requestBodyFile e) e.requestBody
      let bw := bw.writeBodyOf x (dir ++ responseBodyFile e) e.responseBody
      pure (bw, exchangeRecord x numbers e reqHeaders respHeaders)

def writeExchanges (numbers : Uuid → String) (dir : String) (bw : BundleWriter) :
    List Exchange → Except Abandoned (BundleWriter × List Record)
  | [] => pure (bw, [])
  | e :: rest => do
    let (bw, record) ← writeExchange x numbers dir bw e
    let (bw, records) ← writeExchanges numbers dir bw rest
    pure (bw, record :: records)

def exchangeRows (ids : List Uuid) : List Exchange :=
  (chunk batchSize ids).flatMap
    (batchRows Exchange.invoiceID (byTime Exchange.occurredAt Exchange.id) db.exchanges)

def selectExchange (ids : List Uuid) (dir : String) (bw : BundleWriter) :
    Except Abandoned (BundleWriter × List Record) := do
  let (bw, records) ← writeExchanges x (invoiceNumbers db ids) dir bw (exchangeRows db ids)
  pure (bw, exchangeCSVHeader :: records)

def writeEntityStages (dir : String) (r : Request) (bw : BundleWriter) :
    Except Abandoned BundleWriter :=
  match selectInvoices x db r with
  | .error e => throw (e, bw)
  | .ok (ids, records) => do
    let bw := bw.finalizeCSV x (dir ++ "invoices.csv") records
    let bw := bw.finalizeCSV x (dir ++ "line_items.csv") (selectLineItems db ids)
    let bw := bw.finalizeCSV x (dir ++ "status_history.csv") (selectHistory x db ids)
    let bw := bw.finalizeCSV x (dir ++ "submissions.csv") (selectSubmissions x db ids)
    -- the bodies stream to entries of their own before the CSV that names them
    let (bw, records) ← selectExchange x db ids dir bw
    pure (bw.finalizeCSV x (dir ++ "exchange.csv") records)

/-! ### The manifest -/

def manifestFormat : String := "ascomply-evidence-bundle/1"

def manifestNotes : List String :=
  ["An empty CSV cell means the source column was NULL.",
    "irn, csid and qr_payload cannot hold an empty string (database CHECK), so an empty cell " ++
      "there means absent.",
    "Body files are the bytes recorded at transmission time, verbatim. A row whose truncated or " ++
      "encoding_coerced flag is true carries a body that is not the complete wire bytes.",
    "Request and response headers are limited to a twelve-name allowlist applied when the " ++
      "evidence was written; credential headers were never stored.",
    "This manifest lists a SHA-256 checksum for each entry, for self-verification. It is not a " ++
      "cryptographic signature."]

def entryCount (entries : List ManifestEntry) (name : String) : ℕ :=
  ((entries.find? fun e => e.name = name && e.rows.isSome).bind ManifestEntry.rows).getD 0

def hasPrefix (s start : String) : Bool := start.toList.isPrefixOf s.toList

def bodyFileCount (entries : List ManifestEntry) : ℕ :=
  entries.countP fun e => hasPrefix e.name "bodies/"

def bundleEntity (e : Entity) : ManifestEntity := { id := e.id, name := e.name, tin := e.tin }

def bundlePeriod (r : Request) : ManifestPeriod where
  «from» := x.rfc3339 r.from
  «to» := x.rfc3339 r.to
  bounds := "inclusive"
  basis := "invoices.created_at"

structure AssembleOpts where
  tenantID : Uuid
  subject : String
  maxInvoices : ℤ
  now : ℕ

def manifestDoc (o : AssembleOpts) (entity : Entity) (r : Request) (entries : List ManifestEntry) :
    ManifestDoc where
  format := manifestFormat
  generatedAt := x.rfc3339 o.now
  generatedBy := Audit.resolve db.memberships o.subject
  tenantID := o.tenantID
  entity := bundleEntity entity
  period := bundlePeriod x r
  counts := {
    invoices := entryCount entries "invoices.csv"
    lineItems := entryCount entries "line_items.csv"
    statusTransitions := entryCount entries "status_history.csv"
    submissions := entryCount entries "submissions.csv"
    exchangeAttempts := entryCount entries "exchange.csv"
    bodyFiles := bodyFileCount entries }
  entries := entries
  notes := manifestNotes

/-! ### Assembling and previewing -/

/-- What has reached the caller: without the central directory the archive does not open. -/
structure Sent where
  filename : Option String := none
  zip : List ZipEntry := []
  closed : Bool := false

structure Failure where
  err : Err
  sent : Sent := {}

def assemble (o : AssembleOpts) (r : Request) : Except Failure Sent :=
  if o.maxInvoices ≤ 0 then throw { err := .maxInvoices o.maxInvoices }
  else
    match selectEntity x db r.entityID with
    | .error e => throw { err := e }
    | .ok entity =>
      match countInvoices x db r with
      | .error e => throw { err := e }
      | .ok count =>
        if o.maxInvoices < count then throw { err := .tooManyInvoices count o.maxInvoices }
        else
          let filename := some (bundleFilename x entity.name r)
          match writeEntityStages x db "" r {} with
          | .error (e, bw) => throw { err := e, sent := { filename := filename, zip := bw.zip } }
          | .ok bw =>
            let doc := bytesOf (x.marshal (manifestDoc x db o entity r bw.entries))
            pure { filename := filename
                   zip := bw.zip ++ [{ name := "manifest.json", content := doc }]
                   closed := true }

structure Preview where
  entity : ManifestEntity
  period : ManifestPeriod
  filename : String
  counts : ManifestCounts
  overLimit : Bool

/-- The bodies of both columns, as the count statement filters them. -/
def bodyCount (rows : List Exchange) : ℕ :=
  rows.countP (fun e => e.requestBody.isSome) + rows.countP fun e => e.responseBody.isSome

def countBatch (c : ManifestCounts) (batch : List Uuid) : ManifestCounts where
  invoices := c.invoices
  statusTransitions := c.statusTransitions + (under HistoryRow.invoiceID db.history batch).length
  lineItems := c.lineItems + (under LineItem.invoiceID db.lineItems batch).length
  submissions := c.submissions + (under SubmissionJob.invoiceID db.submissions batch).length
  exchangeAttempts := c.exchangeAttempts + (under Exchange.invoiceID db.exchanges batch).length
  bodyFiles := c.bodyFiles + bodyCount (under Exchange.invoiceID db.exchanges batch)

def countChildren (ids : List Uuid) : ManifestCounts :=
  (chunk batchSize ids).foldl (countBatch db) {}

def preview (maxInvoices : ℤ) (r : Request) : Except Err Preview := do
  if maxInvoices ≤ 0 then throw (.maxInvoices maxInvoices)
  let entity ← selectEntity x db r.entityID
  let ids ← selectInvoiceIDs x db r
  pure {
    entity := bundleEntity entity
    period := bundlePeriod x r
    filename := bundleFilename x entity.name r
    counts := { countChildren db ids with invoices := ids.length }
    overLimit := decide (maxInvoices < ids.length) }

end
end InvoiceOs.Archive
