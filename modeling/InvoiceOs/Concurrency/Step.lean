import InvoiceOs.Concurrency.Task

/-! What one step can do, said once: a statement moves its task and nothing else; a commit
writes rows its task has locked and leaves an entry for what it did. -/

namespace InvoiceOs.Concurrency

open Lib Approval CustomRule Invoice

section
variable (sha256 : String → String)

inductive Reads (db : Db) : Task → Statement → Task → Prop
  | get {id : Uuid} {row : Row} (h : db.invoices.get? id = some row) :
    Reads db .idle (.get id) (.getting id row)
  | getLines {id : Uuid} {row r : Row} (h : db.invoices.get? id = some r) :
    Reads db (.getting id row) .getLines
      (.evaluating ⟨id, row.entityID, row.header, r.lines⟩ false)
  | evaluate {doc : Document} {again : Bool} {verdict : Uuid → List Violation}
    {stamp : Uuid → Uuid} : Reads db (.evaluating doc again) (.evaluate verdict stamp)
      (.applying doc (evaluateDocument sha256 db verdict stamp doc) again)
  | judge {doc : Document} {ev : Evaluation} {again : Bool} {caller : Uuid} {vs : List Violation}
    (h : checkValidation sha256 db doc.id ev = .ok vs) :
    Reads db (.applying doc ev again) (.apply caller)
      (.judged ⟨doc, caller, ev, vs, noteOriginal db doc.id⟩)
  | again {doc : Document} {ev : Evaluation} {caller : Uuid} :
    Reads db (.applying doc ev false) (.apply caller) (.evaluating doc true)
  | refuse {doc : Document} {ev : Evaluation} {again : Bool} {caller : Uuid} :
    Reads db (.applying doc ev again) (.apply caller) .idle
  | versions {j : Judgement} (h : hasBlockingViolation j.vs = false) :
    Reads db (.judged j) .readVersions (.arming j db.readInForce)
  | publish {caller id : Uuid} {ps : Policies}
    (h : publishVersion db.directory db.policies caller id = .ok ps) :
    Reads db .idle (.publish caller id) (.sealing ps)
  | backlog {ps : Policies} : Reads db (.sealing ps) .selectBacklog
      (.sweeping ps (validatedBacklog { db with policies := ps }) [])
  | keepBacklog {ps : Policies} {id : Uuid} {todo kept : List Uuid}
    (h : statusOf db id = .validated) :
    Reads db (.sweeping ps (id :: todo) kept) .lockBacklog (.sweeping ps todo (kept ++ [id]))
  | dropBacklog {ps : Policies} {id : Uuid} {todo kept : List Uuid}
    (h : statusOf db id ≠ .validated) :
    Reads db (.sweeping ps (id :: todo) kept) .lockBacklog (.sweeping ps todo kept)
  | batch {b : Batch} : Reads db .idle (.batch b) (.locking b [] b.ids)
  | lockNext {b : Batch} {locked todo : List Uuid} {id : Uuid} :
    Reads db (.locking b locked (id :: todo)) .lockNext (.locking b (id :: locked) todo)
  | batchClear {b : Batch} {locked : List Uuid} :
    Reads db (.locking b locked []) .readClear (.batchClear b (transmitClearTx db))
  | batchPending {b : Batch} {clear : Uuid → Bool} : Reads db (.batchClear b clear) .readPending
      (.batchReady b clear (rulePendingFor db) db.revisions.length)
  | queue {id caller : Uuid} : Reads db .idle (.queue id caller) (.queueing id caller)
  | queuePending {id caller : Uuid} : Reads db (.queueing id caller) .readPending
      (.queuePending id caller (rulePendingFor db id) db.revisions.length)
  | queueClear {id caller : Uuid} {pending : Bool} {n : ℕ} :
    Reads db (.queuePending id caller pending n) .readClear
      (.queueReady id caller pending (transmitClearTx db id) n)
  | requeue {id : Uuid} {actor : Subject} {u : Unit} (h : checkRequeue db id = .ok u) :
    Reads db .idle (.requeue id actor) (.requeueing id actor (noteOriginal db id))
  | revalidate : Reads db .idle .revalidate
      (Sweep.start ⟨[], .none, validatedIDs db fun _ => true⟩)
  | recheckCovered {v : Uuid} {versionFor : Option Date → Option Uuid} :
    Reads db .idle (.recheckCovered v versionFor)
      (Sweep.start ⟨[], .version v, validatedIDs db (covered v versionFor)⟩)
  | recheck : Reads db .idle .recheck (.listing (db.revisions.filter fun r => !r.rechecked))
  | list {pending : List Revision} : Reads db (.listing pending) .listValidated (Sweep.start
      ⟨pending.map Revision.id, .customRule, validatedIDs db fun r =>
        pending.any fun q => q.covers r.entityID⟩)
  | next {s : Sweep} {id i : Uuid} {chunk : List Uuid} {docs : List Document} {row : Row}
    (h : db.invoices.get? id = some row) :
    Reads db (.reading s (id :: chunk) docs) (.get i) (.readingLines s chunk docs id row)
  | nextLines {s : Sweep} {id : Uuid} {chunk : List Uuid} {docs : List Document} {row r : Row}
    (h : db.invoices.get? id = some r) :
    Reads db (.readingLines s chunk docs id row) .getLines
      (.reading s chunk (docs ++ [⟨id, row.entityID, row.header, r.lines⟩]))
  | evaluateChunk {s : Sweep} {docs : List Document} {verdict : Uuid → List Violation}
    {stamp : Uuid → Uuid} : Reads db (.reading s [] docs) (.evaluate verdict stamp)
      (.demoting s db.revisions.length
        (docs.map fun d => (d, evaluateDocument sha256 db verdict stamp d)))
  | nextChunk {s : Sweep} {n : ℕ} : Reads db (.demoting s n []) .nextChunk s.start
  | rollback {t : Task} : Reads db t .rollback .idle

theorem Reads.of_statement {db : Db} {t t' : Task} {s : Statement}
    (h : statement sha256 db t s = some t') : Reads sha256 db t s t' := by
  unfold statement at h
  split at h <;> simp only [Option.map_eq_some_iff, Option.some.injEq, reduceCtorEq,
    ite_eq_iff, and_false, false_or] at h
  · obtain ⟨row, hrow, rfl⟩ := h
    exact .get hrow
  · obtain ⟨row, hrow, rfl⟩ := h
    exact .getLines hrow
  · obtain rfl := h
    exact .evaluate
  · rename_i doc ev again caller
    obtain rfl := h
    unfold afterCheck
    split
    · rename_i vs hvs
      exact .judge hvs
    · split
      · exact .refuse
      · rename_i hagain
        obtain rfl : again = false := by simpa using hagain
        exact .again
    · exact .refuse
  · obtain ⟨hno, rfl⟩ := h
    exact .versions (by simpa using hno)
  · obtain ⟨ps, hps, rfl⟩ := h
    exact .publish (toOption_eq_some.mp hps)
  · obtain rfl := h
    exact .backlog
  · obtain ⟨-, rfl⟩ := h
    split
    · rename_i hv
      exact .keepBacklog hv
    · rename_i hv
      exact .dropBacklog hv
  · obtain rfl := h
    exact .batch
  · obtain ⟨row, -, rfl⟩ := h
    exact .lockNext
  · obtain rfl := h
    exact .batchClear
  · obtain rfl := h
    exact .batchPending
  · obtain ⟨row, -, rfl⟩ := h
    exact .queue
  · obtain rfl := h
    exact .queuePending
  · obtain rfl := h
    exact .queueClear
  · obtain ⟨u, hu, rfl⟩ := h
    exact .requeue (toOption_eq_some.mp hu)
  · obtain rfl := h
    exact .revalidate
  · obtain rfl := h
    exact .recheckCovered
  · obtain rfl := h
    exact .recheck
  · obtain ⟨-, rfl⟩ := h
    exact .list
  · obtain ⟨row, hrow, rfl⟩ := h
    exact .next hrow
  · obtain ⟨row, hrow, rfl⟩ := h
    exact .nextLines hrow
  · obtain rfl := h
    exact .evaluateChunk
  · obtain ⟨-, rfl⟩ := h
    exact .nextChunk
  · obtain rfl := h
    exact .rollback

inductive Writes (σ : Store) : Task → Commit → Store → Task → Prop
  | call {q : Request} {ls : List Lock} {db' : Db} (hq : callLocks q = some ls)
    (h : q.call sha256 σ.db = .ok db') :
    Writes σ .idle (.call q) { σ with db := db' } .idle
  | stamp {j : Judgement} {runID : Uuid} {now : ℕ} {σ' : Store}
    (hb : hasBlockingViolation j.vs = true)
    (h : commitJudgement sha256 σ j [] runID now = .ok σ') :
    Writes σ (.judged j) (.verdict runID now) σ' .idle
  | promote {j : Judgement} {versions : List InForceVersion} {runID : Uuid} {now : ℕ} {σ' : Store}
    (h : commitJudgement sha256 σ j versions runID now = .ok σ') :
    Writes σ (.arming j versions) (.verdict runID now) σ' .idle
  | publish {ps : Policies} {kept : List Uuid} {runIDs : Uuid → Uuid} {now : ℕ} {db' : Db}
    (h : sweepLocked sha256 runIDs now { σ.db with policies := ps } kept = .ok db') :
    Writes σ (.sweeping ps [] kept) (.publish runIDs now) { σ with db := db' } .idle
  | batch {b : Batch} {clear pending : Uuid → Bool} {n : ℕ} {db' : Db}
    {items : List BatchSubmitResultItem}
    (h : submitPositions b.caller b.requestKey
      (fun id => ⟨statusOf σ.db id, pending id, clear id⟩) σ.db b.ids = .ok (db', items)) :
    Writes σ (.batchReady b clear pending n) .batch
      { db := db', journal := queuedEntries n items ++ σ.journal } .idle
  | queue {id caller : Uuid} {pending clear : Bool} {n : ℕ} {db' : Db}
    (h : transitionGated σ.db id .queued caller pending clear = .ok db') :
    Writes σ (.queueReady id caller pending clear n) .queue
      { db := db', journal := .queued id n :: σ.journal } .idle
  | requeue {id : Uuid} {actor : Subject} {original : Option Uuid} {db' : Db}
    (h : commitRequeue σ.db id actor = .ok db') :
    Writes σ (.requeueing id actor original) .requeue { σ with db := db' } .idle
  | pass {s : Sweep} {n : ℕ} {doc : Document} {ev : Evaluation}
    {rest : List (Document × Evaluation)} (h : hasBlockingViolation ev.violations = false) :
    Writes σ (.demoting s n ((doc, ev) :: rest)) .settle
      { σ with journal := .passed doc.id s.marks ev.customIDs n :: σ.journal } (.demoting s n rest)
  | skip {s : Sweep} {n : ℕ} {doc : Document} {ev : Evaluation}
    {rest : List (Document × Evaluation)} (hb : hasBlockingViolation ev.violations = true)
    (h : statusOf σ.db doc.id ≠ .validated) :
    Writes σ (.demoting s n ((doc, ev) :: rest)) .settle σ (.demoting s n rest)
  | demote {s : Sweep} {n : ℕ} {doc : Document} {ev : Evaluation}
    {rest : List (Document × Evaluation)} {db' : Db} {row : Row} {cause : DemotionCause}
    (hb : hasBlockingViolation ev.violations = true) (hrow : σ.db.invoices.get? doc.id = some row)
    (hs : row.status = .validated)
    (h : db' = cancelLiveRunTx (σ.db.setInvoice doc.id ((row.withViolations ev.violations
      ev.ruleSetVersionID).applyTransition .draft .revalidateRuleSet cause)) doc.id
      .revalidateRuleSet) :
    Writes σ (.demoting s n ((doc, ev) :: rest)) .settle
      { db := db'
        journal := .demoted doc.id (doc.fingerprint sha256) (row.fingerprint sha256) :: σ.journal }
      (.demoting s n rest)
  | mark {s : Sweep} {n : ℕ} (h : s.todo = []) :
    Writes σ (.demoting s n []) .mark
      { σ with db := { σ.db with revisions := markRechecked σ.db.revisions s.marks } } .idle

theorem ending_eq_some {x : Except Err Store} {t : Task} {e : Store × Task} :
    ending x t = some e ↔ x = .ok e.1 ∧ e.2 = t := by
  obtain ⟨σ, u⟩ := e
  simp only [ending, Option.map_eq_some_iff, toOption_eq_some, Prod.mk.injEq]
  constructor
  · rintro ⟨σ', h, rfl, rfl⟩
    exact ⟨h, rfl⟩
  · rintro ⟨h, rfl⟩
    exact ⟨σ, h, rfl, rfl⟩

theorem statusOf_eq {db : Db} {id : Uuid} {row : Row} (h : db.invoices.get? id = some row) :
    statusOf db id = row.status := by
  simp only [statusOf, h]

theorem statusOf_validated {db : Db} {id : Uuid} (h : statusOf db id = .validated) :
    ∃ row, db.invoices.get? id = some row ∧ row.status = .validated := by
  unfold statusOf at h
  split at h
  · rename_i row hrow
    exact ⟨row, hrow, h⟩
  · cases h

theorem Writes.of_settle {σ σ' : Store} {s : Sweep} {n : ℕ} {doc : Document} {ev : Evaluation}
    {rest : List (Document × Evaluation)} (h : settle sha256 σ s n doc ev = .ok σ') :
    Writes sha256 σ (.demoting s n ((doc, ev) :: rest)) .settle σ' (.demoting s n rest) := by
  unfold settle at h
  split at h
  · rename_i hno
    cases h
    exact .pass hno
  · rename_i hb
    have hb : hasBlockingViolation ev.violations = true := by simpa using hb
    split at h
    · rename_i hs
      cases h
      exact .skip hb hs
    · rename_i hs
      obtain ⟨row, hrow, hv⟩ := statusOf_validated (not_not.mp hs)
      simp only [bind_eq_ok, pure_eq_ok, demoteRevalidated, hrow, hv, ne_eq, not_true_eq_false,
        if_false] at h
      obtain ⟨db', hdemote, rfl⟩ := h
      obtain ⟨q, hq, ⟨hne, -⟩ | ⟨-, hdb⟩⟩ := demoteCausedTx_spec hdemote
      · rw [hrow] at hq
        cases hq
        exact absurd hv hne
      · rw [hrow] at hq
        cases hq
        simp only [lockedFingerprint, hrow]
        exact .demote hb hrow hv hdb

theorem Writes.of_commit {σ σ' : Store} {t t' : Task} {c : Commit}
    (h : commit sha256 σ t c = some (σ', t')) : Writes sha256 σ t c σ' t' := by
  unfold commit at h
  split at h <;> simp only [ending_eq_some, Option.ite_none_right_eq_some, reduceCtorEq,
    Option.some.injEq, Prod.mk.injEq] at h
  · obtain ⟨hq, hcall, rfl⟩ := h
    obtain ⟨ls, hls⟩ := Option.isSome_iff_exists.mp hq
    simp only [commitCall, bind_eq_ok, pure_eq_ok] at hcall
    obtain ⟨db', hok, rfl⟩ := hcall
    exact .call hls hok
  · obtain ⟨hb, hok, rfl⟩ := h
    exact .stamp hb hok
  · obtain ⟨hok, rfl⟩ := h
    exact .promote hok
  · obtain ⟨rfl, hok, rfl⟩ := h
    simp only [commitPublish, bind_eq_ok, pure_eq_ok] at hok
    obtain ⟨db', hsweep, rfl⟩ := hok
    exact .publish hsweep
  · obtain ⟨hok, rfl⟩ := h
    simp only [commitBatch, bind_eq_ok, pure_eq_ok, Prod.exists] at hok
    obtain ⟨db', items, hpos, rfl⟩ := hok
    exact .batch hpos
  · obtain ⟨hok, rfl⟩ := h
    simp only [commitQueue, bind_eq_ok, pure_eq_ok] at hok
    obtain ⟨db', hgated, rfl⟩ := hok
    exact .queue hgated
  · obtain ⟨hok, rfl⟩ := h
    simp only [commitRequeued, bind_eq_ok, pure_eq_ok] at hok
    obtain ⟨db', hrequeue, rfl⟩ := hok
    exact .requeue hrequeue
  · obtain ⟨hok, rfl⟩ := h
    exact Writes.of_settle sha256 hok
  · obtain ⟨htodo, rfl, rfl⟩ := h
    exact .mark htodo

theorem next_cases {σ σ' : Store} {t t' : Task} {a : Action}
    (h : (protocol sha256).next σ t a = some (σ', t')) :
    (∃ s, a = .read s ∧ σ' = σ ∧ Reads sha256 σ.db t s t') ∨
      ∃ c, a = .write c ∧ Writes sha256 σ t c σ' t' := by
  cases a with
  | read s =>
    obtain ⟨u, hu, heq⟩ := Option.map_eq_some_iff.mp h
    cases heq
    exact .inl ⟨s, rfl, rfl, .of_statement sha256 hu⟩
  | write c => exact .inr ⟨c, rfl, .of_commit sha256 h⟩

end

/-! ### The moves of a commit and the rows they are on -/

/-- The moves a commit can make; a publish is told apart, as it writes no row. -/
def commitMay : Task → Commit → Move → Prop
  | .idle, .call q, m => q.may m
  | .judged j, .verdict _ _, m => m = .judge j.doc.id
  | .arming j versions, .verdict _ _, m => m = .judge j.doc.id ∨ m = .promote j.doc.id versions
  | .batchReady b _ _ _, .batch, m => ∃ id ∈ b.ids, m = .write id ∨ m = .send id
  | .queueReady id _ _ _ _, .queue, m => m = .write id ∨ m = .send id
  | .requeueing id _ _, .requeue, m => m = .requeue id
  | .demoting _ _ ((doc, ev) :: _), .settle, m =>
    hasBlockingViolation ev.violations = true ∧ m = .write doc.id
  | .demoting _ _ [], .mark, m => m = .revisions
  | _, _, _ => False

section
variable (sha256 : String → String)

def Checked (db : Db) : Task → Prop
  | .applying doc ev _ => ev.fingerprint = doc.fingerprint sha256
  | .judged j => j.ev.fingerprint = j.doc.fingerprint sha256 ∧ ∃ row,
    db.invoices.get? j.doc.id = some row ∧ row.status = .draft ∧
      row.fingerprint sha256 = j.ev.fingerprint
  | .arming j _ => hasBlockingViolation j.vs = false ∧
    j.ev.fingerprint = j.doc.fingerprint sha256 ∧ ∃ row,
      db.invoices.get? j.doc.id = some row ∧ row.status = .draft ∧
        row.fingerprint sha256 = j.ev.fingerprint
  | .sweeping _ _ kept => ∀ i ∈ kept, ∃ row, db.invoices.get? i = some row ∧ row.status = .validated
  | .requeueing id _ _ => ∃ row, db.invoices.get? id = some row ∧ row.status = .failed ∧
    row.keptAsIs = none
  | _ => True

end

variable {sha256 : String → String} {σ σ' : Store} {t t' u : Task} {c : Commit}

theorem commitJudgement_spec {j : Judgement} {versions : List InForceVersion} {runID : Uuid}
    {now : ℕ} (h : commitJudgement sha256 σ j versions runID now = .ok σ') :
    ∃ db', commitValidation σ.db j.doc.id j.caller j.ev j.vs versions runID now = .ok db' ∧
      σ' = { db := db'
             journal := .judged j.doc.id (j.doc.fingerprint sha256)
               (lockedFingerprint sha256 σ.db j.doc.id) j.ev.customIDs σ.db.revisions.length ::
                 σ.journal } := by
  simp only [commitJudgement, bind_eq_ok, pure_eq_ok] at h
  obtain ⟨db', hok, rfl⟩ := h
  exact ⟨db', hok, rfl⟩

theorem Writes.effects (h : Writes sha256 σ t c σ' t') (ht : Checked sha256 σ.db t)
    (hpublish : ∀ runIDs now, c ≠ .publish runIDs now) :
    Effects sha256 (commitMay t c) σ.db σ'.db := by
  cases h with
  | call hq h => exact Request.effects h
  | stamp hb h =>
    obtain ⟨-, row, hrow, hs, hfp⟩ := ht
    obtain ⟨db', hok, rfl⟩ := commitJudgement_spec h
    simp only [commitValidation, bind_eq_ok, Db.getInvoice_eq_ok, hrow, Option.some.injEq, hb,
      if_true, pure_eq_ok] at hok
    obtain ⟨q, rfl, rfl⟩ := hok
    rw [← hfp]
    exact .single (.rewrite hrow (.stamp rfl hs) rfl rfl ⟨rfl, rfl⟩)
  | promote h =>
    obtain ⟨-, -, row, hrow, hs, hfp⟩ := ht
    obtain ⟨db', hok, rfl⟩ := commitJudgement_spec h
    exact .single (commitValidation_effect (.inl rfl) (.inr rfl) hrow hs hfp hok)
  | publish h => exact absurd rfl (hpublish _ _)
  | batch h => exact submitPositions_effects (fun i hi => ⟨⟨i, hi, .inl rfl⟩, ⟨i, hi, .inr rfl⟩⟩) h
  | queue h =>
    refine .single (transitionGated_effect (.inl rfl) ?_ (fun _ => .inr rfl) h)
    intro hv
    cases hv
  | requeue h =>
    obtain ⟨row, hrow, hs, hk⟩ := ht
    exact .single (commitRequeue_effect rfl hrow hs hk h)
  | pass h => exact .refl
  | skip hb h => exact .refl
  | demote hb hrow hs h =>
    subst h
    exact .single (.demote ⟨hb, rfl⟩ hrow (.inl hs) rfl rfl rfl rfl ⟨rfl, rfl⟩)
  | mark h => exact .single (.revisions rfl rfl rfl rfl)

theorem callLocks_row {q : Request} {ls : List Lock} {m : Move} {i : Uuid}
    (hq : callLocks q = some ls) (hmay : q.may m) (hrow : m.row = some i) : .invoice i ∈ ls := by
  have hone : ∀ {m' : Move} {id : Uuid}, m = m' → m'.row = some id → ls = [.invoice id] →
      .invoice i ∈ ls := by
    intro m' id hm hid hls
    rw [hm, hid] at hrow
    cases hrow
    rw [hls]
    exact List.mem_singleton_self _
  cases q with
  | create caller id input =>
    subst hmay
    cases hrow
  | transition id target caller =>
    simp only [callLocks, Option.ite_none_left_eq_some, Option.some.injEq] at hq
    rcases hmay with hm | ⟨hm, -⟩ | ⟨hm, -⟩
    · exact hone hm rfl hq.2.symm
    · exact hone hm rfl hq.2.symm
    · exact hone hm rfl hq.2.symm
  | editPolicy e =>
    subst hmay
    cases hrow
  | saveRule caller revisionID s =>
    subst hmay
    cases hrow
  | directory d => exact hmay.elim
  | _ =>
    cases hq
    try exact hone hmay rfl rfl

theorem Writes.locks_row (h : Writes sha256 σ t c σ' t') {m : Move} {i : Uuid}
    (hmay : commitMay t c m) (hrow : m.row = some i) :
    .invoice i ∈ t.holds ++ needs sha256 σ t (.write c) := by
  have hheld : ∀ {j : Judgement}, m.row = some j.doc.id → .invoice i ∈ j.locks := by
    intro j hj
    rw [hrow] at hj
    cases hj
    exact List.mem_cons_of_mem _ List.mem_cons_self
  cases h with
  | call hq h =>
    refine List.mem_append_right _ ?_
    rw [needs, hq, Option.getD_some]
    exact callLocks_row hq hmay hrow
  | stamp hb h =>
    subst hmay
    exact List.mem_append_left _ (hheld rfl)
  | promote h =>
    refine List.mem_append_left _ (hheld ?_)
    rcases hmay with rfl | rfl <;> rfl
  | publish h => exact hmay.elim
  | batch h =>
    obtain ⟨id, hid, hm⟩ := hmay
    have heq : id = i := by
      rcases hm with rfl | rfl <;> exact Option.some.inj hrow
    exact List.mem_append_left _ (List.mem_map.mpr ⟨i, heq ▸ hid, rfl⟩)
  | @queue id =>
    have heq : m.row = some id := by
      rcases hmay with rfl | rfl <;> rfl
    rw [hrow] at heq
    cases heq
    exact List.mem_append_left _ List.mem_cons_self
  | requeue h =>
    subst hmay
    cases hrow
    exact List.mem_append_left _ List.mem_cons_self
  | pass h =>
    obtain ⟨hb, -⟩ := hmay
    rw [h] at hb
    cases hb
  | skip hb h =>
    obtain ⟨-, rfl⟩ := hmay
    cases hrow
    refine List.mem_append_right _ ?_
    simp only [needs, settleLocks, hb, if_true]
    exact List.mem_cons_self
  | demote hb hr hs h =>
    obtain ⟨-, rfl⟩ := hmay
    cases hrow
    refine List.mem_append_right _ ?_
    simp only [needs, settleLocks, hb, if_true]
    exact List.mem_cons_self
  | mark h =>
    subst hmay
    cases hrow

theorem Writes.publish_invoices {runIDs : Uuid → Uuid} {now : ℕ}
    (h : Writes sha256 σ t (.publish runIDs now) σ' t') : σ'.db.invoices = σ.db.invoices := by
  cases h with
  | publish h =>
    simp only [sweepLocked, check_eq_ok] at h
    exact (sweep_frame h.2).1

theorem Writes.keeps_row (h : Writes sha256 σ t c σ' t') (ht : Checked sha256 σ.db t) {i : Uuid}
    {r : Row} (hr : σ.db.invoices.get? i = some r)
    (hlock : .invoice i ∉ t.holds ++ needs sha256 σ t (.write c)) :
    σ'.db.invoices.get? i = some r := by
  by_cases hpublish : ∃ runIDs now, c = .publish runIDs now
  · obtain ⟨runIDs, now, rfl⟩ := hpublish
    rw [h.publish_invoices, hr]
  · have hne : ∀ runIDs now, c ≠ .publish runIDs now := by
      rintro runIDs now rfl
      exact hpublish ⟨runIDs, now, rfl⟩
    refine (h.effects ht hne).get?_of_unlicensed hr ?_
    intro m hmay hrow
    exact hlock (h.locks_row hmay hrow)

theorem not_mem_of_apart {as bs : List Lock} (h : (protocol sha256).Apart as bs) {i : Uuid}
    (hi : .invoice i ∈ bs) : .invoice i ∉ as := by
  intro ha
  have hself : Lock.conflicts (.invoice i) (.invoice i) = false := h _ ha _ hi
  have hyes : Lock.conflicts (.invoice i) (.invoice i) = true := beq_self_eq_true i
  rw [hyes] at hself
  cases hself

theorem Writes.keeps_locked (h : Writes sha256 σ t c σ' t') (ht : Checked sha256 σ.db t)
    (hapart : (protocol sha256).Apart
      (t.holds ++ needs sha256 σ t (.write c)) u.holds) {i : Uuid} (hi : .invoice i ∈ u.holds)
    {r : Row} (hr : σ.db.invoices.get? i = some r) : σ'.db.invoices.get? i = some r :=
  h.keeps_row ht hr (not_mem_of_apart hapart hi)

/-! ### Promotions -/

theorem callLocks_no_promotion {q : Request} {ls : List Lock} (hq : callLocks q = some ls)
    (j : Uuid) : ¬ q.may (.assert j) ∧ ∀ versions, ¬ q.may (.promote j versions) := by
  cases q with
  | applyValidation id caller ev runID now => cases hq
  | transition id target caller =>
    simp only [callLocks, Option.ite_none_left_eq_some, not_or] at hq
    refine ⟨?_, fun versions => ?_⟩
    · rintro (hm | ⟨-, ht⟩ | ⟨hm, -⟩)
      · cases hm
      · exact hq.1.2 ht
      · cases hm
    · rintro (hm | ⟨hm, -⟩ | ⟨hm, -⟩) <;> cases hm
  | batchSubmit caller requestKey ids => cases hq
  | publishPolicy caller id runIDs now => cases hq
  | _ => exact ⟨fun h => (nomatch h), fun _ h => (nomatch h)⟩

theorem Writes.promotions (h : Writes sha256 σ t c σ' t') (j : Uuid) :
    ¬ commitMay t c (.assert j) ∧
      ∀ versions, commitMay t c (.promote j versions) → ∃ jd, t = .arming jd versions := by
  cases h with
  | call hq h =>
    obtain ⟨hassert, hpromote⟩ := callLocks_no_promotion hq j
    exact ⟨hassert, fun versions hm => absurd hm (hpromote versions)⟩
  | stamp hb h => exact ⟨fun hm => (nomatch hm), fun _ hm => (nomatch hm)⟩
  | @promote jd vs runID now σ' h =>
    refine ⟨?_, fun versions hm => ?_⟩
    · rintro (hm | hm) <;> cases hm
    · rcases hm with hm | hm
      · cases hm
      · cases hm
        exact ⟨jd, rfl⟩
  | publish h => exact ⟨fun hm => hm, fun _ hm => hm.elim⟩
  | batch h =>
    refine ⟨?_, fun versions => ?_⟩
    · rintro ⟨id, -, hm | hm⟩ <;> cases hm
    · rintro ⟨id, -, hm | hm⟩ <;> cases hm
  | queue h =>
    refine ⟨?_, fun versions => ?_⟩
    · rintro (hm | hm) <;> cases hm
    · rintro (hm | hm) <;> cases hm
  | requeue h => exact ⟨fun hm => (nomatch hm), fun _ hm => (nomatch hm)⟩
  | pass h => exact ⟨fun hm => (nomatch hm.2), fun _ hm => (nomatch hm.2)⟩
  | skip hb h => exact ⟨fun hm => (nomatch hm.2), fun _ hm => (nomatch hm.2)⟩
  | demote hb hr hs h => exact ⟨fun hm => (nomatch hm.2), fun _ hm => (nomatch hm.2)⟩
  | mark h => exact ⟨fun hm => (nomatch hm), fun _ hm => (nomatch hm)⟩

theorem promote_spec {j : Judgement} {versions : List InForceVersion} {runID : Uuid} {now : ℕ}
    (ht : Checked sha256 σ.db (.arming j versions))
    (h : commitJudgement sha256 σ j versions runID now = .ok σ') :
    ∃ row row', σ.db.invoices.get? j.doc.id = some row ∧ row.status = .draft ∧
      row.fingerprint sha256 = j.doc.fingerprint sha256 ∧
      row' = (row.withVerdict j.vs j.ev.ruleSetVersionID j.ev.fingerprint).applyTransition
        .validated (.user j.caller) {} ∧
      armTx (σ.db.setInvoice j.doc.id row') versions j.doc.id runID j.ev.fingerprint now =
        .ok σ'.db ∧
      σ'.journal = .judged j.doc.id (j.doc.fingerprint sha256) (row.fingerprint sha256)
        j.ev.customIDs σ.db.revisions.length :: σ.journal := by
  obtain ⟨hb, hev, row, hrow, hs, hfp⟩ := ht
  obtain ⟨db', hok, rfl⟩ := commitJudgement_spec h
  simp only [commitValidation, bind_eq_ok, Db.getInvoice_eq_ok, hrow, Option.some.injEq, hb,
    Bool.false_eq_true, if_false, Row.transition_eq_ok] at hok
  obtain ⟨q, rfl, row', ⟨-, rfl⟩, harm⟩ := hok
  exact ⟨row, _, hrow, hs, hfp.trans hev, rfl, harm, by simp only [lockedFingerprint, hrow]⟩

theorem Writes.validated (h : Writes sha256 σ t c σ' t') (ht : Checked sha256 σ.db t) {i : Uuid}
    {r' : Row} (hr' : σ'.db.invoices.get? i = some r') (hs' : r'.status = .validated) :
    ∃ r, σ.db.invoices.get? i = some r ∧ r'.fingerprint sha256 = r.fingerprint sha256 ∧
      ((r.status = .validated ∧ (σ.db.hasLiveRun i = true → σ'.db.hasLiveRun i = true)) ∨
        ∃ j versions, t = .arming j versions ∧ i = j.doc.id ∧ r.status = .draft ∧
          ((∀ doc, (firstMatch doc versions).isSome) → σ'.db.hasLiveRun i = true)) := by
  by_cases hpublish : ∃ ps kept, t = .sweeping ps [] kept
  · obtain ⟨ps, kept, rfl⟩ := hpublish
    cases h with
    | publish h =>
      simp only [sweepLocked, check_eq_ok] at h
      rw [(sweep_frame h.2).1] at hr'
      exact ⟨r', hr', rfl, .inl ⟨hs', fun hl => sweep_live h.2 (.inl hl)⟩⟩
  · by_cases harming : ∃ j versions, t = .arming j versions
    · obtain ⟨j, versions, rfl⟩ := harming
      cases h with
      | promote h =>
        obtain ⟨row, row', hrow, hs, -, rfl, harm, -⟩ := promote_spec ht h
        rw [armTx_invoices harm, Db.setInvoice_invoices] at hr'
        by_cases hi : i = j.doc.id
        · subst hi
          rw [Table.get?_set_self] at hr'
          cases hr'
          exact ⟨row, hrow, rfl, .inr ⟨j, versions, rfl, rfl, hs, armTx_live harm⟩⟩
        · rw [Table.get?_set_of_ne _ _ hi] at hr'
          exact ⟨r', hr', rfl, .inl ⟨hs', fun hl => armTx_live_mono harm hl⟩⟩
    · have hne : ∀ runIDs now, c ≠ .publish runIDs now := by
        rintro runIDs now rfl
        cases h with
        | publish h => exact hpublish ⟨_, _, rfl⟩
      have hno := h.promotions
      obtain ⟨r, hr, hs, hfp, hlive⟩ := (h.effects ht hne).validated (fun j => (hno j).1)
        (fun j versions hm => harming ⟨_, versions, ((hno j).2 versions hm).choose_spec⟩) hr' hs'
      exact ⟨r, hr, hfp, .inl ⟨hs, hlive⟩⟩

/-! ### What a task knows of its locked rows, kept -/

theorem Checked.reads {db : Db} {s : Statement} (ht : Checked sha256 db t)
    (h : Reads sha256 db t s t') : Checked sha256 db t' := by
  cases h with
  | evaluate => rfl
  | judge h =>
    obtain ⟨row, hrow, hs, hfp, -⟩ := checkValidation_spec h
    exact ⟨ht, row, hrow, hs, hfp⟩
  | versions h => exact ⟨h, ht⟩
  | backlog =>
    intro i hi
    cases hi
  | keepBacklog h =>
    intro i hi
    rcases List.mem_append.mp hi with hi | hi
    · exact ht i hi
    · obtain rfl := List.mem_singleton.mp hi
      exact statusOf_validated h
  | dropBacklog => exact ht
  | requeue h =>
    obtain ⟨row, hrow, hs, hk, -⟩ := checkRequeue_spec h
    exact ⟨row, hrow, hs, hk⟩
  | _ => trivial

theorem Checked.writes (h : Writes sha256 σ t c σ' t') : Checked sha256 σ'.db t' := by
  cases h <;> trivial

theorem Checked.others (hu : Checked sha256 σ.db u) (ht : Checked sha256 σ.db t)
    (h : Writes sha256 σ t c σ' t')
    (hapart : (protocol sha256).Apart (t.holds ++ needs sha256 σ t (.write c)) u.holds) :
    Checked sha256 σ'.db u := by
  have hkeep : ∀ {i : Uuid}, .invoice i ∈ u.holds → ∀ {P : Row → Prop},
      (∃ row, σ.db.invoices.get? i = some row ∧ P row) →
        ∃ row, σ'.db.invoices.get? i = some row ∧ P row := by
    rintro i hi P ⟨row, hrow, hP⟩
    exact ⟨row, h.keeps_locked ht hapart hi hrow, hP⟩
  have hjudged : ∀ j : Judgement, .invoice j.doc.id ∈ j.locks :=
    fun j => List.mem_cons_of_mem _ List.mem_cons_self
  cases u with
  | judged j => exact ⟨hu.1, hkeep (hjudged j) hu.2⟩
  | arming j versions => exact ⟨hu.1, hu.2.1, hkeep (hjudged j) hu.2.2⟩
  | sweeping ps todo kept =>
    intro i hi
    exact hkeep (List.mem_cons_of_mem _ (List.mem_map.mpr ⟨i, hi, rfl⟩)) (hu i hi)
  | requeueing id actor original => exact hkeep List.mem_cons_self hu
  | applying doc ev again => exact hu
  | _ => trivial

end InvoiceOs.Concurrency
