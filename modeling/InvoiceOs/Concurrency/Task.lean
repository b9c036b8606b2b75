import InvoiceOs.Invoice.Request
import InvoiceOs.Lib.Interleave

/-! READ COMMITTED transactions of one workspace under way at the same time. A step is one
statement, or a commit with the writes before it: no other transaction sees a write earlier.
Locks are taken where the code takes them and kept to the end of the transaction. A call
whose unlocked reads decide nothing here is one step under its locks. -/

namespace InvoiceOs.Concurrency

open Lib Approval CustomRule Invoice

/-- A row lock, the tenant publish lock, and the custom-rule save lock in its two modes. -/
inductive Lock where
  | invoice (id : Uuid)
  | publish
  | saves (exclusive : Bool)
  deriving DecidableEq

def Lock.conflicts : Lock → Lock → Bool
  | .invoice a, .invoice b => a == b
  | .publish, .publish => true
  | .saves a, .saves b => a || b
  | _, _ => false

theorem Lock.conflicts_symm (a b : Lock) (h : a.conflicts b = true) : b.conflicts a = true := by
  have hcomm : b.conflicts a = a.conflicts b := by
    cases a with
    | invoice i =>
      cases b with
      | invoice j => exact BEq.comm
      | publish => rfl
      | saves f => rfl
    | publish => cases b <;> rfl
    | saves e =>
      cases b with
      | invoice j => rfl
      | publish => rfl
      | saves f => exact Bool.or_comm f e
  exact hcomm.trans h

/-- What one `Get` returned: a row statement's header, a later statement's lines. -/
structure Document where
  id : Uuid
  entityID : Uuid
  header : Header
  lines : List LineItem

def Document.fingerprint (sha256 : String → String) (d : Document) : String :=
  contentFingerprint sha256 d.header d.lines

inductive SweepCause where
  | none
  | version (id : Uuid)
  | customRule
  deriving DecidableEq

def SweepCause.demotionCause (revs : List Revision) (ev : Evaluation) :
    SweepCause → DemotionCause
  | .none => {}
  | .version id => { versionID := some id }
  | .customRule => customCause revs ev.customIDs ev.violations

/-- A re-check pass: the revisions it read as pending, and the ids behind its chunk. -/
structure Sweep where
  marks : List Uuid
  cause : SweepCause
  todo : List Uuid

structure Batch where
  caller : Uuid
  requestKey : String
  ids : List Uuid

structure Judgement where
  doc : Document
  caller : Uuid
  ev : Evaluation
  vs : List Violation
  original : Option Uuid

inductive Task where
  | idle
  | getting (id : Uuid) (row : Row)
  | evaluating (doc : Document) (again : Bool)
  | applying (doc : Document) (ev : Evaluation) (again : Bool)
  | judged (j : Judgement)
  | arming (j : Judgement) (versions : List InForceVersion)
  | sealing (ps : Policies)
  | sweeping (ps : Policies) (todo kept : List Uuid)
  | locking (b : Batch) (locked todo : List Uuid)
  | batchClear (b : Batch) (clear : Uuid → Bool)
  | batchReady (b : Batch) (clear pending : Uuid → Bool) (revisions : ℕ)
  | queueing (id caller : Uuid)
  | queuePending (id caller : Uuid) (pending : Bool) (revisions : ℕ)
  | queueReady (id caller : Uuid) (pending clear : Bool) (revisions : ℕ)
  | requeueing (id : Uuid) (actor : Subject) (original : Option Uuid)
  | listing (pending : List Revision)
  | reading (s : Sweep) (chunk : List Uuid) (docs : List Document)
  | readingLines (s : Sweep) (chunk : List Uuid) (docs : List Document) (id : Uuid) (row : Row)
  | demoting (s : Sweep) (revisions : ℕ) (verdicts : List (Document × Evaluation))

/-- What happened to an invoice, for the statements about runs; nothing reads it. -/
inductive Entry where
  | judged (id : Uuid) (evaluated locked : String) (ran : List Uuid) (revisions : ℕ)
  | demoted (id : Uuid) (evaluated locked : String)
  | passed (id : Uuid) (pending ran : List Uuid) (revisions : ℕ)
  | queued (id : Uuid) (revisions : ℕ)
  deriving DecidableEq

structure Store where
  db : Db
  journal : List Entry := []

def start (db : Db) : World Store Task where
  store := { db := db }

inductive Statement where
  | get (id : Uuid)
  | getLines
  | evaluate (verdict : Uuid → List Violation) (stamp : Uuid → Uuid)
  | apply (caller : Uuid)
  | readVersions
  | publish (caller id : Uuid)
  | selectBacklog
  | lockBacklog
  | batch (b : Batch)
  | lockNext
  | queue (id caller : Uuid)
  | readClear
  | readPending
  | requeue (id : Uuid) (actor : Subject)
  | revalidate
  | recheckCovered (v : Uuid) (versionFor : Option Date → Option Uuid)
  | recheck
  | listValidated
  | nextChunk
  | rollback

inductive Commit where
  | call (q : Request)
  | verdict (runID : Uuid) (now : ℕ)
  | publish (runIDs : Uuid → Uuid) (now : ℕ)
  | batch
  | queue
  | requeue
  | settle
  | mark

inductive Action where
  | read (s : Statement)
  | write (c : Commit)

/-- The locks of a call that is one step; the others are split into statements, and
`validated` is no target of the transition endpoint. -/
def callLocks : Request → Option (List Lock)
  | .create _ _ _ => some []
  | .edit id _ _ => some [.invoice id]
  | .applyValidation _ _ _ _ _ => none
  | .transition id target _ =>
    if target = .queued ∨ target = .validated then none else some [.invoice id]
  | .batchSubmit _ _ _ => none
  | .decide id _ _ _ => some [.invoice id]
  | .demoteCaused _ _ _ _ => none
  | .publishPolicy _ _ _ _ => none
  | .editPolicy _ => some [.publish]
  | .saveRule _ _ _ => some [.saves true]
  | .markRechecked _ => none
  | .markSubmitted id => some [.invoice id]
  | .markFailed id _ => some [.invoice id]
  | .markAccepted id _ _ _ => some [.invoice id]
  | .markRejected id _ => some [.invoice id]
  | .requeueFailed _ _ => none
  | .cancelQueued id => some [.invoice id]
  | .keepAsIs id _ _ => some [.invoice id]
  | .unkeepAsIs id => some [.invoice id]
  | .resolveOutside id _ _ => some [.invoice id]
  | .unresolveOutside id _ => some [.invoice id]
  | .directory _ => some []

def Judgement.locks (j : Judgement) : List Lock :=
  .saves false :: .invoice j.doc.id :: (j.original.map Lock.invoice).toList

def Task.holds : Task → List Lock
  | .judged j => j.locks
  | .arming j _ => j.locks
  | .sealing _ => [.publish]
  | .sweeping _ _ kept => .publish :: kept.map .invoice
  | .locking _ locked _ => locked.map .invoice
  | .batchClear b _ => b.ids.map .invoice
  | .batchReady b _ _ _ => b.ids.map .invoice
  | .queueing id _ => [.invoice id]
  | .queuePending id _ _ _ => [.invoice id]
  | .queueReady id _ _ _ _ => [.invoice id]
  | .requeueing id _ original => .invoice id :: (original.map Lock.invoice).toList
  | _ => []

def noteOriginal (db : Db) (id : Uuid) : Option Uuid :=
  match db.invoices.get? id with
  | some r => if locksOriginal r then r.originalInvoiceID else none
  | none => none

def revalidateChunkSize : ℕ := 200

def Sweep.start (s : Sweep) : Task :=
  .reading { s with todo := s.todo.drop revalidateChunkSize } (s.todo.take revalidateChunkSize) []

def validatedIDs (db : Db) (keep : Row → Bool) : List Uuid :=
  ((db.invoices.rows.filter fun e => e.2.status == .validated && keep e.2).map
    Prod.fst).insertionSort fun a b => a.toNat ≤ b.toNat

/-- What version `v` covers and did not judge; `versionFor` takes the issue date, and today where
there is none. -/
def covered (v : Uuid) (versionFor : Option Date → Option Uuid) (r : Row) : Bool :=
  r.ruleSetVersionID != some v && versionFor r.header.issueDate == some v

section
variable (sha256 : String → String)

def evaluateDocument (db : Db) (verdict : Uuid → List Violation) (stamp : Uuid → Uuid)
    (d : Document) : Evaluation where
  violations := verdict d.id
  ruleSetVersionID := stamp d.id
  customIDs := (currentTx db.revisions d.entityID).map Revision.id
  fingerprint := d.fingerprint sha256

/-- A changed rule set is evaluated once more; every other refusal ends the call. -/
def afterCheck (db : Db) (doc : Document) (caller : Uuid) (ev : Evaluation) (again : Bool) : Task :=
  match checkValidation sha256 db doc.id ev with
  | .ok vs => .judged ⟨doc, caller, ev, vs, noteOriginal db doc.id⟩
  | .error .rulesChanged => if again then .idle else .evaluating doc true
  | .error _ => .idle

def statement (db : Db) : Task → Statement → Option Task
  | .idle, .get id => (db.invoices.get? id).map (.getting id)
  | .getting id row, .getLines => (db.invoices.get? id).map fun r =>
    .evaluating ⟨id, row.entityID, row.header, r.lines⟩ false
  | .evaluating doc again, .evaluate verdict stamp =>
    some (.applying doc (evaluateDocument sha256 db verdict stamp doc) again)
  | .applying doc ev again, .apply caller => some (afterCheck sha256 db doc caller ev again)
  | .judged j, .readVersions =>
    if hasBlockingViolation j.vs then none else some (.arming j db.readInForce)
  | .idle, .publish caller id =>
    (publishVersion db.directory db.policies caller id).toOption.map .sealing
  | .sealing ps, .selectBacklog => some (.sweeping ps (validatedBacklog { db with policies := ps }) [])
  -- the row as locked is tested for its status again, and for nothing else
  | .sweeping ps (id :: todo) kept, .lockBacklog =>
    if kept.length > sweepCap then none
    else some (.sweeping ps todo (if statusOf db id = .validated then kept ++ [id] else kept))
  | .idle, .batch b => some (.locking b [] b.ids)
  | .locking b locked (id :: todo), .lockNext =>
    (db.invoices.get? id).map fun _ => .locking b (id :: locked) todo
  | .locking b _ [], .readClear => some (.batchClear b (transmitClearTx db))
  | .batchClear b clear, .readPending =>
    some (.batchReady b clear (rulePendingFor db) db.revisions.length)
  | .idle, .queue id caller => (db.invoices.get? id).map fun _ => .queueing id caller
  | .queueing id caller, .readPending =>
    some (.queuePending id caller (rulePendingFor db id) db.revisions.length)
  | .queuePending id caller pending n, .readClear =>
    some (.queueReady id caller pending (transmitClearTx db id) n)
  | .idle, .requeue id actor =>
    (checkRequeue db id).toOption.map fun _ => .requeueing id actor (noteOriginal db id)
  | .idle, .revalidate => some (Sweep.start ⟨[], .none, validatedIDs db fun _ => true⟩)
  | .idle, .recheckCovered v versionFor =>
    some (Sweep.start ⟨[], .version v, validatedIDs db (covered v versionFor)⟩)
  | .idle, .recheck => some (.listing (db.revisions.filter fun r => !r.rechecked))
  | .listing pending, .listValidated => if pending = [] then none else some (Sweep.start
    ⟨pending.map Revision.id, .customRule, validatedIDs db fun r =>
      pending.any fun q => q.covers r.entityID⟩)
  | .reading s (id :: chunk) docs, .get _ =>
    (db.invoices.get? id).map (.readingLines s chunk docs id)
  | .readingLines s chunk docs id row, .getLines => (db.invoices.get? id).map fun r =>
    .reading s chunk (docs ++ [⟨id, row.entityID, row.header, r.lines⟩])
  | .reading s [] docs, .evaluate verdict stamp => some (.demoting s db.revisions.length
    (docs.map fun d => (d, evaluateDocument sha256 db verdict stamp d)))
  | .demoting s _ [], .nextChunk => if s.todo = [] then none else some s.start
  | _, .rollback => some .idle
  | _, _ => none

def lockedFingerprint (db : Db) (id : Uuid) : String :=
  match db.invoices.get? id with
  | some r => r.fingerprint sha256
  | none => ""

def commitJudgement (σ : Store) (j : Judgement) (versions : List InForceVersion) (runID : Uuid)
    (now : ℕ) : Except Err Store := do
  let db ← commitValidation σ.db j.doc.id j.caller j.ev j.vs versions runID now
  return {
    db := db
    journal := .judged j.doc.id (j.doc.fingerprint sha256) (lockedFingerprint sha256 σ.db j.doc.id)
      j.ev.customIDs σ.db.revisions.length :: σ.journal }

/-- One evaluated invoice of a pass: nothing blocks it, it moved on, or it is demoted. -/
def settle (σ : Store) (s : Sweep) (n : ℕ) (doc : Document) (ev : Evaluation) : Except Err Store :=
  if hasBlockingViolation ev.violations = false then
    pure { σ with journal := .passed doc.id s.marks ev.customIDs n :: σ.journal }
  else if statusOf σ.db doc.id ≠ .validated then pure σ
  else do
    let db ← demoteRevalidated σ.db doc.id ev.violations ev.ruleSetVersionID
      (s.cause.demotionCause σ.db.revisions ev)
    return {
      db := db
      journal := .demoted doc.id (doc.fingerprint sha256) (lockedFingerprint sha256 σ.db doc.id) ::
        σ.journal }

def queuedEntries (n : ℕ) (items : List BatchSubmitResultItem) : List Entry :=
  (items.filter BatchSubmitResultItem.enqueued).map fun item => .queued item.invoiceID n

def commitBatch (σ : Store) (b : Batch) (clear pending : Uuid → Bool) (n : ℕ) :
    Except Err Store := do
  let (db, items) ← submitPositions b.caller b.requestKey
    (fun id => ⟨statusOf σ.db id, pending id, clear id⟩) σ.db b.ids
  return { db := db, journal := queuedEntries n items ++ σ.journal }

def commitQueue (σ : Store) (id caller : Uuid) (pending clear : Bool) (n : ℕ) :
    Except Err Store := do
  let db ← transitionGated σ.db id .queued caller pending clear
  return { db := db, journal := .queued id n :: σ.journal }

def commitCall (σ : Store) (q : Request) : Except Err Store := do
  let db ← q.call sha256 σ.db
  return { σ with db := db }

def commitPublish (σ : Store) (ps : Policies) (kept : List Uuid) (runIDs : Uuid → Uuid) (now : ℕ) :
    Except Err Store := do
  let db ← sweepLocked sha256 runIDs now { σ.db with policies := ps } kept
  return { σ with db := db }

def commitRequeued (σ : Store) (id : Uuid) (actor : Subject) : Except Err Store := do
  let db ← commitRequeue σ.db id actor
  return { σ with db := db }

def ending (x : Except Err Store) (t : Task) : Option (Store × Task) :=
  x.toOption.map fun σ => (σ, t)

def commit (σ : Store) : Task → Commit → Option (Store × Task)
  | .idle, .call q => if (callLocks q).isSome then ending (commitCall sha256 σ q) .idle else none
  | .judged j, .verdict runID now =>
    if hasBlockingViolation j.vs then ending (commitJudgement sha256 σ j [] runID now) .idle else none
  | .arming j versions, .verdict runID now =>
    ending (commitJudgement sha256 σ j versions runID now) .idle
  | .sweeping ps todo kept, .publish runIDs now =>
    if todo = [] then ending (commitPublish sha256 σ ps kept runIDs now) .idle else none
  | .batchReady b clear pending n, .batch => ending (commitBatch σ b clear pending n) .idle
  | .queueReady id caller pending clear n, .queue =>
    ending (commitQueue σ id caller pending clear n) .idle
  | .requeueing id actor _, .requeue => ending (commitRequeued σ id actor) .idle
  | .demoting s n ((doc, ev) :: rest), .settle =>
    ending (settle sha256 σ s n doc ev) (.demoting s n rest)
  | .demoting s _ [], .mark =>
    if s.todo = [] then
      some ({ σ with db := { σ.db with revisions := markRechecked σ.db.revisions s.marks } }, .idle)
    else none
  | _, _ => none

def next (σ : Store) (t : Task) : Action → Option (Store × Task)
  | .read s => (statement sha256 σ.db t s).map fun t' => (σ, t')
  | .write c => commit sha256 σ t c

def firstLocks : Task → Statement → List Lock
  | .applying doc _ _, .apply _ => [.saves false, .invoice doc.id]
  | .sweeping _ (id :: _) _, .lockBacklog => [.invoice id]
  | _, _ => []

def settleLocks : Task → List Lock
  | .demoting _ _ ((doc, ev) :: _) =>
    if hasBlockingViolation ev.violations then [.invoice doc.id] else []
  | _ => []

def needs (σ : Store) (t : Task) : Action → List Lock
  | .read s => firstLocks t s ++ ((statement sha256 σ.db t s).map Task.holds).getD []
  | .write (.call q) => (callLocks q).getD []
  | .write .settle => settleLocks t
  | .write _ => []

theorem holds_commit {σ σ' : Store} {t t' : Task} {c : Commit}
    (h : commit sha256 σ t c = some (σ', t')) : t'.holds = [] := by
  unfold commit at h
  split at h <;> (try split at h) <;>
    simp only [ending, Option.map_eq_some_iff, Option.some.injEq, Prod.mk.injEq, reduceCtorEq] at h
  all_goals
    obtain ⟨-, -, -, rfl⟩ := h
    rfl

def protocol : Protocol Store Task Action Lock where
  idle := .idle
  holds := Task.holds
  needs := needs sha256
  conflicts := Lock.conflicts
  next := next sha256
  holds_idle := rfl
  conflicts_symm := Lock.conflicts_symm
  holds_next := by
    intro σ t a σ' t' h l hl
    cases a with
    | read s =>
      obtain ⟨u, hu, heq⟩ := Option.map_eq_some_iff.mp h
      cases heq
      right
      simp only [needs, hu, Option.map_some, Option.getD_some]
      exact List.mem_append_right _ hl
    | write c =>
      rw [holds_commit sha256 h] at hl
      cases hl

def Task.isIdle : Task → Bool
  | .idle => true
  | _ => false

variable {sha256}

theorem quiet_of_idle {w : World Store Task} (h : (w.tasks.rows.all fun e => e.2.isIdle) = true) :
    (protocol sha256).Quiet w := by
  refine .of_rows fun e he => ?_
  have hidle := List.all_eq_true.mp h e he
  revert hidle
  cases e.2 <;> simp [Task.isIdle, protocol]

end
end InvoiceOs.Concurrency
