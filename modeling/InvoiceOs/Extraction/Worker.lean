import InvoiceOs.Extraction.Review
import InvoiceOs.Lib.Refusal

/-! The extract worker: one delivery's transactions and stages, each of which may fail, over the
rows of the River job. -/

namespace InvoiceOs.Extraction

open Lib

inductive JobState where
  | queued
  | extracting
  | succeeded
  | failed
  | deadLettered
  deriving DecidableEq, Repr

inductive FailureKind where
  | documentUnavailable
  | pagesNotRendered
  | pageRowsNotWritten
  | extractFailed
  | textNotRead
  | layoutNotWritten
  deriving DecidableEq, Repr

structure Field where
  name : String
  value : Option String := none
  region : Option Region := none
  reason : Option Reason := none
  deriving DecidableEq

structure FieldResult extends Field where
  alternatives : List Field := []
  deriving DecidableEq

structure PageImage where
  page : ℤ
  widthPx : ℤ
  heightPx : ℤ
  storageKey : String
  deriving DecidableEq

structure Job where
  id : Uuid
  documentID : Uuid
  extractor : String
  extractorVersion : String
  state : JobState := .queued
  attempts : ℕ := 0
  lastError : Option String := none
  failureKind : Option FailureKind := none
  layoutFingerprint : Option String := none
  layoutAnchors : Option String := none
  layoutTokens : Option String := none
  documentType : Option String := none
  deriving DecidableEq

structure ExtractionAudit where
  succeeded : Bool
  documentID : Uuid
  extractionJobID : Uuid
  extractor : String
  extractorVersion : String
  fieldCount : ℕ := 0
  flaggedCount : ℕ := 0
  state : Option JobState := none
  failureKind : Option FailureKind := none
  deriving DecidableEq

structure FieldRow where
  field : Field
  candidateRank : ℕ
  deriving DecidableEq

/-- Everything stored of one River job; the result rows by the transaction that wrote them. -/
structure JobStore where
  job : Option Job := none
  pageImages : List PageImage := []
  fieldResults : List (List FieldRow) := []
  marker : Bool := false
  audit : List ExtractionAudit := []
  deriving DecidableEq

inductive Statement where
  | lookUpJob
  | insertJob
  | advance (state : JobState)
  | clearPages
  | insertPage (p : PageImage)
  | layout
  | layoutTokens
  | marker
  | fieldRow (r : FieldRow)
  | documentType
  | audit
  deriving DecidableEq

inductive Stage where
  | openDocument
  | ingestPages
  | readText
  | extract
  | readImages
  | loadRules
  | readFields
  deriving DecidableEq, Repr

structure RiverJob where
  documentID : Uuid
  maxAttempts : ℕ

-- a document, a reader's pages, its token pages, a learned rule
variable {δ π τ ρ : Type}

structure ExtractWorker (δ τ : Type) where
  extractorName : String
  extractorVersion : String
  hasAudit : Bool
  hasText : Bool
  rendersPageImages : δ → Bool
  fingerprint : τ → String
  boxlessFingerprint : τ → String
  marshalAnchors : τ → Except String String
  storableTokens : τ → Option String

structure TextRead (π τ : Type) where
  pages : π
  tokens : τ
  textChars : ℕ

/-- What the document store, the readers and the database answer during one call of `Work`. -/
structure Delivery (δ π τ ρ : Type) where
  attempt : ℕ
  newID : Uuid
  refuse : Statement → Option String
  opened : Except String δ
  ingested : δ → Except String (List PageImage × τ)
  textRead : δ → Except String (TextRead π τ)
  extracted : δ → Except String (List FieldResult)
  imagesRead : List PageImage → Except String (Option (List FieldResult))
  rules : String → Except String (List ρ)
  read : List ρ → TextRead π τ → List FieldResult × String

/-! ### Statements -/

section
variable (d : Delivery δ π τ ρ)

def exec (stmt : Statement) : Except String Unit :=
  match d.refuse stmt with
  | some message => throw message
  | none => pure ()

def execAll : List Statement → Except String Unit
  | [] => pure ()
  | stmt :: stmts => do
    exec d stmt
    execAll stmts

/-- An update of the job's own row; no row affected is an error. -/
def updateJob (s : JobStore) (f : Job → Job) : Except String JobStore :=
  match s.job with
  | some j => pure { s with job := some (f j) }
  | none => throw "no row affected"

def ensureJobTx (w : ExtractWorker δ τ) (job : RiverJob) (s : JobStore) :
    Except String (JobStore × Job) := do
  exec d .lookUpJob
  match s.job with
  | some j => return (s, j)
  | none => do
    exec d .insertJob
    let j : Job := ⟨d.newID, job.documentID, w.extractorName, w.extractorVersion, .queued, 0,
      none, none, none, none, none, none⟩
    return ({ s with job := some j }, j)

/-- The empty text and no kind bind NULL. -/
def advanceJobTx (s : JobStore) (state : JobState) (lastErr : String) (kind : Option FailureKind) :
    Except String JobStore := do
  exec d (.advance state)
  updateJob s fun j => { j with
    state := state
    attempts := d.attempt
    lastError := if lastErr = "" then none else some lastErr
    failureKind := kind }

def writePageImagesTx (s : JobStore) (pages : List PageImage) : Except String JobStore := do
  exec d .clearPages
  execAll d (pages.map .insertPage)
  return { s with pageImages := pages }

def writeLayoutTx (s : JobStore) (fingerprint anchors : String) : Except String JobStore := do
  exec d .layout
  updateJob s fun j => { j with
    layoutFingerprint := some fingerprint
    layoutAnchors := some anchors }

def writeLayoutTokensTx (s : JobStore) (tokens : Option String) : Except String JobStore := do
  exec d .layoutTokens
  updateJob s fun j => { j with layoutTokens := tokens }

def writeDocumentTypeTx (s : JobStore) (docType : String) : Except String JobStore := do
  exec d .documentType
  updateJob s fun j => { j with documentType := some docType }

/-- Only a non-invoice verdict is written. -/
def writeVerdictTx (s : JobStore) (docType : String) : Except String JobStore :=
  if docType = "" then return s else writeDocumentTypeTx d s docType

def fieldRows (results : List FieldResult) : List FieldRow :=
  results.flatMap fun fr => ⟨fr.toField, 0⟩ :: fr.alternatives.mapIdx fun i alt => ⟨alt, i + 1⟩

def writeFieldResultsTx (s : JobStore) (results : List FieldResult) :
    Except String JobStore := do
  execAll d ((fieldRows results).map .fieldRow)
  return { s with fieldResults := s.fieldResults ++ [fieldRows results] }

def recordAudit (s : JobStore) (ev : ExtractionAudit) : Except String JobStore := do
  exec d .audit
  return { s with audit := s.audit ++ [ev] }

/-- `queue.OncePerJob`: the marker and the effect in one transaction. -/
def oncePerJob (s : JobStore) (fn : JobStore → Except String JobStore) :
    Except String JobStore := do
  exec d .marker
  if s.marker then return s
  else (fn { s with marker := true }).mapError ("queue: apply once-per-job effect: " ++ ·)

end

/-! ### Stages -/

structure Progress where
  calls : List Stage
  commits : List JobStore
  store : JobStore

/-- The chain of stages behind the first transaction: the first failure ends it, and what was
committed before stays. -/
def Chain (α : Type) : Type := Progress → Except (FailureKind × String) α × Progress

namespace Chain
variable {α β : Type}

protected def pure (a : α) : Chain α := fun p => (.ok a, p)

protected def bind (m : Chain α) (f : α → Chain β) : Chain β := fun p =>
  match m p with
  | (.ok a, p') => f a p'
  | (.error e, p') => (.error e, p')

instance : Monad Chain where
  pure := Chain.pure
  bind := Chain.bind

def call (stage : Stage) (kind : FailureKind) (answer : Except String α) : Chain α := fun p =>
  match answer with
  | .ok a => (.ok a, { p with calls := p.calls ++ [stage] })
  | .error message => (.error (kind, message), { p with calls := p.calls ++ [stage] })

def commit (kind : FailureKind) (tx : JobStore → Except String JobStore) : Chain Unit :=
  fun p =>
    match tx p.store with
    | .ok s => (.ok (), { p with commits := p.commits ++ [s], store := s })
    | .error message => (.error (kind, message), p)

end Chain

section
variable (w : ExtractWorker δ τ) (d : Delivery δ π τ ρ)

/-- A format with no page images skips the render and the page rows. -/
def renderPages (doc : δ) : Chain (List PageImage × String) :=
  if w.rendersPageImages doc then do
    let (images, tokens) ← Chain.call .ingestPages .pagesNotRendered (d.ingested doc)
    Chain.commit .pageRowsNotWritten fun s => do
      let s ← writePageImagesTx d s images
      let anchors ← w.marshalAnchors tokens
      writeLayoutTx d s (w.fingerprint tokens) anchors
    return (images, w.fingerprint tokens)
  else return ([], "")

def readText (doc : δ) : Chain (Option (TextRead π τ)) :=
  if w.hasText then do
    let text ← Chain.call .readText .textNotRead (d.textRead doc)
    return some text
  else return none

/-- A boxless format's identity comes off the tokens of its own text read. -/
def boxlessLayout (doc : δ) (fingerprint : String) (text : Option (TextRead π τ)) : Chain String :=
  match text with
  | none => return fingerprint
  | some text =>
    if !w.rendersPageImages doc && decide (0 < text.textChars) then do
      Chain.commit .layoutNotWritten fun s => do
        let anchors ← w.marshalAnchors text.tokens
        let s ← writeLayoutTx d s (w.boxlessFingerprint text.tokens) anchors
        writeLayoutTokensTx d s (w.storableTokens text.tokens)
      return w.boxlessFingerprint text.tokens
    else return fingerprint

def unreadableVerdict : List FieldResult :=
  [{ name := "document_text_layer", reason := some .unreadable }]

/-- With no stored layout there is no bucket of rules to look in. -/
def loadRules (fingerprint : String) : Chain (List ρ) :=
  if fingerprint = "" then return []
  else Chain.call .loadRules .extractFailed (d.rules fingerprint)

def readFields (doc : δ) (images : List PageImage) (fingerprint : String)
    (text : Option (TextRead π τ)) : Chain (List FieldResult × String) :=
  match text with
  | none => do
    let results ← Chain.call .extract .extractFailed (d.extracted doc)
    return (results, "")
  | some text =>
    if text.textChars = 0 then do
      let read ← Chain.call .readImages .extractFailed (d.imagesRead images)
      return (read.getD unreadableVerdict, "")
    else do
      let learned ← loadRules d fingerprint
      Chain.call .readFields .extractFailed (.ok (d.read learned text))

def stages : Chain (List FieldResult × String) := do
  let doc ← Chain.call .openDocument .documentUnavailable d.opened
  let (images, fingerprint) ← renderPages w d doc
  let text ← readText w d doc
  let fingerprint ← boxlessLayout w d doc fingerprint text
  readFields d doc images fingerprint text

end

/-! ### One delivery -/

section
variable (w : ExtractWorker δ τ) (job : RiverJob) (d : Delivery δ π τ ρ)

/-- The first transaction; `true` is a job that has ended. -/
def beginTx (s : JobStore) : Except String (JobStore × Bool) := do
  let (s, j) ← ensureJobTx d w job s
  if j.state = .succeeded ∨ j.state = .deadLettered then return (s, true)
  else do
    let s ← advanceJobTx d s .extracting "" none
    return (s, false)

def failedState : JobState := if job.maxAttempts ≤ d.attempt then .deadLettered else .failed

def outcomeEvent (s : JobStore) (succeeded : Bool) : ExtractionAudit where
  succeeded := succeeded
  documentID := job.documentID
  extractionJobID := (s.job.map Job.id).getD 0
  extractor := w.extractorName
  extractorVersion := w.extractorVersion

def recordFailure (s : JobStore) (kind : FailureKind) (message : String) :
    Except String JobStore := do
  let s ← advanceJobTx d s (failedState job d) message (some kind)
  if failedState job d ≠ .deadLettered then return s
  else recordAudit d s { outcomeEvent w job s false with
    state := some .deadLettered
    failureKind := some kind }

def flaggedCount (results : List FieldResult) : ℕ :=
  results.countP fun r => r.reason.isSome && r.name != "original_invoice_number"

def storeResults (s : JobStore) (results : List FieldResult) (docType : String) :
    Except String JobStore :=
  oncePerJob d s fun s => do
    let s ← writeFieldResultsTx d s results
    let s ← writeVerdictTx d s docType
    let s ← advanceJobTx d s .succeeded "" none
    recordAudit d s { outcomeEvent w job s true with
      fieldCount := results.length
      flaggedCount := flaggedCount results }

structure Ran where
  calls : List Stage := []
  commits : List JobStore := []
  results : Option (List FieldResult) := none
  answer : Except String Unit

def work (s : JobStore) : Ran :=
  if w.hasAudit = false then { answer := .error "extraction: ExtractWorker.Audit is nil" }
  else
    match beginTx w job d s with
    | .error e => { answer := .error e }
    | .ok (s₁, true) => { commits := [s₁], answer := .ok () }
    | .ok (s₁, false) =>
      match stages w d ⟨[], [s₁], s₁⟩ with
      | (.error (kind, message), p) =>
        match recordFailure w job d p.store kind message with
        | .error e => { calls := p.calls, commits := p.commits, answer := .error e }
        | .ok s₂ => { calls := p.calls, commits := p.commits ++ [s₂], answer := .error message }
      | (.ok (results, docType), p) =>
        match storeResults w job d p.store results docType with
        | .error e =>
          { calls := p.calls, commits := p.commits, results := some results, answer := .error e }
        | .ok s₂ =>
          { calls := p.calls, commits := p.commits ++ [s₂], results := some results
            answer := .ok () }

end

/-- A delivery, and after how many of its commits the process dies, if it does. -/
structure Call (δ π τ ρ : Type) where
  delivery : Delivery δ π τ ρ
  crash : Option ℕ := none

def lastCommit (s : JobStore) (commits : List JobStore) : JobStore :=
  commits.getLast?.getD s

def deliver (w : ExtractWorker δ τ) (job : RiverJob) (s : JobStore) (c : Call δ π τ ρ) :
    JobStore :=
  let ran := work w job c.delivery s
  match c.crash with
  | none => lastCommit s ran.commits
  | some n => lastCommit s (ran.commits.take n)

end InvoiceOs.Extraction
