import InvoiceOs.Archive.Bundle
import InvoiceOs.Audit.ClientScope
import InvoiceOs.Lib.Keyset

/-! The admin's export of a whole workspace: every company's bundle over all time in a directory
of its own, every uploaded document, and the audit log, in one ZIP. -/

namespace InvoiceOs.Archive

open Lib

structure Document where
  id : Uuid
  hash : String
  filename : Option String
  storageKey : String
  createdAt : ℕ

/-- 9999-12-31T23:59:59Z, in microseconds since the zero time. -/
def allTimeTo : ℕ := 315537897599 * 10 ^ 6

structure Workspace extends Snapshot where
  tenantName : String
  documents : List Document
  log : Audit.Log
  documents_unique : (documents.map Document.id).Nodup
  hashes_unique : (documents.map Document.hash).Nodup
  hash_length : ∀ d ∈ documents, d.hash.toList.length = 64
  hash_hex : ∀ d ∈ documents, ∀ c ∈ d.hash.toList, Audit.isHexDigit c = true
  created_in_time : ∀ i ∈ invoices, i.createdAt ≤ allTimeTo
  invoice_entity : ∀ i ∈ invoices, i.entityID ∈ entities.map Entity.id
  line_invoice : ∀ l ∈ lineItems, l.invoiceID ∈ invoices.map Invoice.id
  history_invoice : ∀ h ∈ history, h.invoiceID ∈ invoices.map Invoice.id
  submission_invoice : ∀ s ∈ submissions, s.invoiceID ∈ invoices.map Invoice.id
  exchange_invoice : ∀ e ∈ exchanges, e.invoiceID ∈ invoices.map Invoice.id

structure WorkspaceCompany where
  id : Uuid
  name : String
  tin : Option String
  dir : String

structure WorkspaceCounts where
  companies : ℕ := 0
  invoices : ℕ := 0
  lineItems : ℕ := 0
  statusTransitions : ℕ := 0
  submissions : ℕ := 0
  exchangeAttempts : ℕ := 0
  bodyFiles : ℕ := 0
  documents : ℕ := 0
  auditRows : ℕ := 0

structure WorkspaceManifestDoc where
  format : String
  generatedAt : String
  generatedBy : Audit.Label
  tenantID : Uuid
  companies : List WorkspaceCompany
  counts : WorkspaceCounts
  entries : List ManifestEntry
  notes : List String

/-- Beside the bundle's: the uuid library over ids the database wrote, the collation of names, and
the stored objects. -/
structure WorkspaceExternals extends Externals where
  uuidParse_text : ∀ u : Uuid, uuidParse u.text = some u
  collation : Audit.Collation
  openObject : String → Option Bytes
  marshalWorkspace : WorkspaceManifestDoc → String

section
variable (x : WorkspaceExternals) (db : Workspace)

/-! ### Companies -/

def byName : Entity → Entity → Bool :=
  thenBy (comparing Entity.name x.collation.le) (byID Entity.id)

def selectWorkspaceCompanies : List Entity := db.entities.mergeSort (byName x)

/-- The lower-cased slug of the name; a slug already taken gets the id. -/
def companyDir (name : String) (id : Uuid) (taken : List String) : String :=
  let slug := (entitySlug name id.text).toLower
  if slug ∈ taken then slug ++ "-" ++ id.text else slug

def allTime (id : Uuid) : Request := { entityID := id.text, «from» := 0, «to» := allTimeTo }

def companyPath (dir : String) : String := "companies/" ++ dir ++ "/"

def writeCompanies (taken : List String) (bw : BundleWriter) :
    List Entity → Except Abandoned (BundleWriter × List WorkspaceCompany)
  | [] => pure (bw, [])
  | c :: rest => do
    let dir := companyDir c.name c.id taken
    let bw ← writeEntityStages x.toExternals db.toSnapshot (companyPath dir) (allTime c.id) bw
    let (bw, companies) ← writeCompanies (dir :: taken) bw rest
    pure (bw, { id := c.id, name := c.name, tin := c.tin, dir := dir } :: companies)

/-! ### Documents -/

/-- The extension after the last dot when it is 1 to 10 alphanumerics, lower-cased. -/
def documentExt (filename : Option String) : String :=
  match filename with
  | none => ""
  | some name =>
    let chars := name.toList
    let ext := (chars.reverse.takeWhile (· ≠ '.')).reverse
    if '.' ∈ chars && 1 ≤ ext.length && ext.length ≤ 10 && ext.all isAlnum then
      "." ++ (String.ofList ext).toLower
    else ""

def documentName (d : Document) : String := "documents/" ++ d.hash ++ documentExt d.filename

def documentPageSize : ℕ := 500

def documentPages : List (List Document) :=
  pages (byTime Document.createdAt Document.id) db.documents
    ((isOrder_le.comparing Document.createdAt).thenBy (isOrder_le.comparing Document.id))
    documentPageSize (by decide) none

def writeDocument (bw : BundleWriter) (d : Document) : Except Abandoned BundleWriter :=
  match x.openObject d.storageKey with
  | none => throw (.openDocument d.id, bw)
  | some body => pure (bw.writeBody x.toExternals (documentName d) body)

def writeDocuments (bw : BundleWriter) : List Document → Except Abandoned BundleWriter
  | [] => pure bw
  | d :: rest => do
    let bw ← writeDocument x bw d
    writeDocuments bw rest

/-! ### The audit log -/

def exportCSVHeader : Record :=
  ["id", "created_at", "event", "actor", "actor_name", "actor_kind",
    "entity_id", "company_name", "company_scope", "invoice_id", "payload"]

def exportPageSize : ℕ := 500

/-- The last page may be the empty one behind a full one; it adds nothing. -/
def exportPages : List (List Audit.Row) :=
  pages Audit.pageOrder db.log.rows Audit.isOrder_page exportPageSize (by decide) none

def companyScopeText : Audit.CompanyScope → String
  | .company => "company"
  | .workspace => "workspace"
  | .unattributed => "unattributed"

def exportRecord (r : Audit.Row) : Except Err Record :=
  match x.compactJSON r.payload.text with
  | none => throw (.compactPayload r.id)
  | some payload =>
    let label := Audit.resolve db.memberships r.actor
    let company := r.entityID.bind fun id =>
      (db.entities.find? fun e => e.id = id).map Entity.name
    pure [toString r.id, x.rfc3339Nano r.createdAt, r.event, r.actor, label.text,
      kindText label.kind, emptyIfNil (r.entityID.map Uuid.text), emptyIfNil company,
      companyScopeText (Audit.scopeOf r.event r.entityID), emptyIfNil (r.invoiceID.map Uuid.text),
      payload]

def writeExportCSV : Except Err (List Record) := do
  let records ← (exportPages db).flatten.mapM (exportRecord x db)
  pure (exportCSVHeader :: records)

/-! ### The manifest -/

def workspaceManifestFormat : String := "ascomply-workspace-export/1"

def workspaceNotes : List String := manifestNotes ++
  ["Each company directory holds the evidence bundle of that company over all time; its body " ++
      "file cells are relative to the directory.",
    "documents/ holds each original upload once, named by its SHA-256 content hash."]

def hasSuffix (s tail : String) : Bool := tail.toList.isSuffixOf s.toList

def contains (s part : String) : Bool := s.toList.tails.any part.toList.isPrefixOf

def countEntry (c : WorkspaceCounts) (e : ManifestEntry) : WorkspaceCounts :=
  let rows := e.rows.getD 0
  if hasSuffix e.name "/invoices.csv" then { c with invoices := c.invoices + rows }
  else if hasSuffix e.name "/line_items.csv" then { c with lineItems := c.lineItems + rows }
  else if hasSuffix e.name "/status_history.csv" then
    { c with statusTransitions := c.statusTransitions + rows }
  else if hasSuffix e.name "/submissions.csv" then { c with submissions := c.submissions + rows }
  else if hasSuffix e.name "/exchange.csv" then
    { c with exchangeAttempts := c.exchangeAttempts + rows }
  else if contains e.name "/bodies/" then { c with bodyFiles := c.bodyFiles + 1 }
  else if hasPrefix e.name "documents/" then { c with documents := c.documents + 1 }
  else if e.name = "audit_log.csv" then { c with auditRows := c.auditRows + rows }
  else c

def workspaceCountsOf (companies : ℕ) (entries : List ManifestEntry) : WorkspaceCounts :=
  entries.foldl countEntry { companies := companies }

structure WorkspaceOpts where
  subject : String
  now : ℕ

def workspaceManifestDoc (o : WorkspaceOpts) (companies : List WorkspaceCompany)
    (entries : List ManifestEntry) : WorkspaceManifestDoc where
  format := workspaceManifestFormat
  generatedAt := x.rfc3339 o.now
  generatedBy := Audit.resolve db.memberships o.subject
  tenantID := db.tenantID
  companies := companies
  counts := workspaceCountsOf companies.length entries
  entries := entries
  notes := workspaceNotes

/-! ### The export -/

structure Exported where
  files : ℕ
  bytes : ℕ

def exportFilename (o : WorkspaceOpts) : String :=
  "ASComply_workspace_" ++ entitySlug db.tenantName db.tenantID.text ++ "_" ++ x.day o.now ++ ".zip"

def writeWorkspaceStages : Except Abandoned (BundleWriter × List WorkspaceCompany) := do
  let (bw, companies) ← writeCompanies x db [] {} (selectWorkspaceCompanies x db)
  let bw ← writeDocuments x bw (documentPages db).flatten
  match writeExportCSV x db with
  | .error e => throw (e, bw)
  | .ok records => pure (bw.finalizeCSV x.toExternals "audit_log.csv" records, companies)

def assembleWorkspace (o : WorkspaceOpts) : Except Failure (Sent × Exported) :=
  let filename := some (exportFilename x db o)
  match writeWorkspaceStages x db with
  | .error (e, bw) => throw { err := e, sent := { filename := filename, zip := bw.zip } }
  | .ok (bw, companies) =>
    let exported := {
      files := bw.entries.length
      bytes := (bw.entries.map ManifestEntry.bytes).sum }
    let doc := bytesOf (x.marshalWorkspace (workspaceManifestDoc x db o companies bw.entries))
    pure ({ filename := filename
            zip := bw.zip ++ [{ name := "manifest.json", content := doc }]
            closed := true }, exported)

end
end InvoiceOs.Archive
