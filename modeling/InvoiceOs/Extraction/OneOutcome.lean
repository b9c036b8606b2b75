import InvoiceOs.Extraction.Worker
import Mathlib.Data.List.Induction

/-! What a job's deliveries leave: no outcome, one stored result set, or one dead letter. -/

namespace InvoiceOs.Extraction

open Lib

variable {δ π τ ρ : Type}

/-! ### Statements -/

section
variable {d : Delivery δ π τ ρ}

theorem exec_eq_ok {stmt : Statement} {u : Unit} :
    exec d stmt = .ok u ↔ d.refuse stmt = none := by
  unfold exec
  split
  · rename_i message hrefuse
    rw [hrefuse, throw_ne_ok]
    exact ⟨False.elim, fun h => by cases h⟩
  · rename_i hrefuse
    rw [hrefuse]
    exact ⟨fun _ => rfl, fun _ => rfl⟩

theorem execAll_eq_ok {stmts : List Statement} {u : Unit} :
    execAll d stmts = .ok u ↔ ∀ stmt ∈ stmts, d.refuse stmt = none := by
  induction stmts with
  | nil => exact ⟨fun _ stmt h => absurd h List.not_mem_nil, fun _ => rfl⟩
  | cons stmt stmts ih =>
    simp only [execAll, bind_eq_ok, exec_eq_ok, ih, List.forall_mem_cons]
    constructor
    · rintro ⟨_, hhead, htail⟩
      exact ⟨hhead, htail⟩
    · rintro ⟨hhead, htail⟩
      exact ⟨(), hhead, htail⟩

theorem updateJob_eq_ok {s s' : JobStore} {f : Job → Job} :
    updateJob s f = .ok s' ↔ ∃ j, s.job = some j ∧ s' = { s with job := some (f j) } := by
  unfold updateJob
  split
  · rename_i j hj
    rw [pure_eq_ok, hj]
    constructor
    · rintro rfl
      exact ⟨j, rfl, rfl⟩
    · rintro ⟨j', hj', rfl⟩
      cases hj'
      rfl
  · rename_i hj
    rw [throw_ne_ok, hj]
    exact ⟨False.elim, by rintro ⟨j, ⟨⟩, _⟩⟩

end

/-! ### Outcomes -/

def JobStore.state (s : JobStore) : Option JobState := s.job.map Job.state

def JobStore.Ended (s : JobStore) : Prop :=
  s.state = some .succeeded ∨ s.state = some .deadLettered

inductive Outcome (s : JobStore) : Prop where
  | unfinished (hstate : ¬ s.Ended) (hmarker : s.marker = false) (hrows : s.fieldResults = [])
      (haudit : s.audit = [])
  | succeeded (hstate : s.state = some .succeeded) (hmarker : s.marker = true)
      {rows : List FieldRow} (hrows : s.fieldResults = [rows]) {ev : ExtractionAudit}
      (haudit : s.audit = [ev]) (hev : ev.succeeded = true)
  | deadLettered (hstate : s.state = some .deadLettered) (hmarker : s.marker = false)
      (hrows : s.fieldResults = []) {ev : ExtractionAudit} (haudit : s.audit = [ev])
      (hev : ev.succeeded = false)

structure SameOutcome (s s' : JobStore) : Prop where
  state : s'.state = s.state
  marker : s'.marker = s.marker
  rows : s'.fieldResults = s.fieldResults
  audit : s'.audit = s.audit

theorem SameOutcome.refl (s : JobStore) : SameOutcome s s := ⟨rfl, rfl, rfl, rfl⟩

theorem SameOutcome.trans {s t u : JobStore} (h : SameOutcome s t) (h' : SameOutcome t u) :
    SameOutcome s u :=
  ⟨h'.state.trans h.state, h'.marker.trans h.marker, h'.rows.trans h.rows,
    h'.audit.trans h.audit⟩

theorem Outcome.not_ended {s : JobStore} (h : Outcome s) (hs : ¬ s.Ended) :
    s.marker = false ∧ s.fieldResults = [] ∧ s.audit = [] := by
  cases h with
  | unfinished hstate hmarker hrows haudit => exact ⟨hmarker, hrows, haudit⟩
  | succeeded hstate => exact absurd (.inl hstate) hs
  | deadLettered hstate => exact absurd (.inr hstate) hs

/-! ### The chain of stages -/

namespace Chain
variable {α β : Type}

def Keeps (m : Chain α) : Prop := ∀ p : Progress, SameOutcome p.store (m p).2.store ∧
  ∃ new, (m p).2.commits = p.commits ++ new ∧ ∀ s ∈ new, SameOutcome p.store s

theorem keeps_pure (a : α) : Keeps (pure a : Chain α) := by
  intro p
  exact ⟨.refl _, [], (List.append_nil _).symm, fun s hs => (nomatch hs)⟩

theorem keeps_bind {m : Chain α} {f : α → Chain β} (hm : Keeps m) (hf : ∀ a, Keeps (f a)) :
    Keeps (m >>= f) := by
  intro p
  obtain ⟨hstore, new, hcommits, hnew⟩ := hm p
  change SameOutcome p.store (Chain.bind m f p).2.store ∧
    ∃ new, (Chain.bind m f p).2.commits = p.commits ++ new ∧ ∀ s ∈ new, SameOutcome p.store s
  unfold Chain.bind
  split
  · rename_i a q hq
    rw [hq] at hstore hcommits
    obtain ⟨hstore', new', hcommits', hnew'⟩ := hf a q
    refine ⟨hstore.trans hstore', new ++ new', ?_, fun s hs => ?_⟩
    · rw [hcommits', hcommits, List.append_assoc]
    · rcases List.mem_append.mp hs with hs | hs
      · exact hnew s hs
      · exact hstore.trans (hnew' s hs)
  · rename_i e q hq
    rw [hq] at hstore hcommits
    exact ⟨hstore, new, hcommits, hnew⟩

theorem keeps_call (stage : Stage) (kind : FailureKind) (answer : Except String α) :
    Keeps (call stage kind answer) := by
  intro p
  unfold call
  split
  · exact ⟨.refl _, [], (List.append_nil _).symm, fun s hs => (nomatch hs)⟩
  · exact ⟨.refl _, [], (List.append_nil _).symm, fun s hs => (nomatch hs)⟩

theorem keeps_commit (kind : FailureKind) {tx : JobStore → Except String JobStore}
    (htx : ∀ s s', tx s = .ok s' → SameOutcome s s') : Keeps (commit kind tx) := by
  intro p
  unfold commit
  split
  · rename_i s hs
    refine ⟨htx _ _ hs, [s], rfl, fun s' hs' => ?_⟩
    obtain rfl := List.mem_singleton.mp hs'
    exact htx _ _ hs
  · exact ⟨.refl _, [], (List.append_nil _).symm, fun s hs => (nomatch hs)⟩

end Chain

section
variable {d : Delivery δ π τ ρ} {s s' : JobStore}

theorem updateJob_same {f : Job → Job} (hf : ∀ j, (f j).state = j.state)
    (h : updateJob s f = .ok s') : SameOutcome s s' := by
  obtain ⟨j, hj, rfl⟩ := updateJob_eq_ok.mp h
  refine ⟨?_, rfl, rfl, rfl⟩
  change some (f j).state = s.job.map Job.state
  rw [hj, hf]
  rfl

theorem writeLayoutTx_same {fingerprint anchors : String}
    (h : writeLayoutTx d s fingerprint anchors = .ok s') : SameOutcome s s' := by
  simp only [writeLayoutTx, bind_eq_ok] at h
  obtain ⟨_, -, h⟩ := h
  refine updateJob_same ?_ h
  exact fun j => rfl

theorem writeLayoutTokensTx_same {tokens : Option String}
    (h : writeLayoutTokensTx d s tokens = .ok s') : SameOutcome s s' := by
  simp only [writeLayoutTokensTx, bind_eq_ok] at h
  obtain ⟨_, -, h⟩ := h
  refine updateJob_same ?_ h
  exact fun j => rfl

theorem writePageImagesTx_same {pages : List PageImage}
    (h : writePageImagesTx d s pages = .ok s') : SameOutcome s s' := by
  simp only [writePageImagesTx, bind_eq_ok, pure_eq_ok] at h
  obtain ⟨_, -, _, -, rfl⟩ := h
  exact ⟨rfl, rfl, rfl, rfl⟩

end

section
variable (w : ExtractWorker δ τ) (d : Delivery δ π τ ρ)

open Chain

theorem keeps_renderPages (doc : δ) : Keeps (renderPages w d doc) := by
  unfold renderPages
  split
  · refine keeps_bind (keeps_call _ _ _) fun a => ?_
    refine keeps_bind (keeps_commit _ fun s s' h => ?_) fun _ => keeps_pure _
    simp only [bind_eq_ok] at h
    obtain ⟨mid, hpages, anchors, -, hlayout⟩ := h
    exact (writePageImagesTx_same hpages).trans (writeLayoutTx_same hlayout)
  · exact keeps_pure _

theorem keeps_readText (doc : δ) : Keeps (readText w d doc) := by
  unfold readText
  split
  · exact keeps_bind (keeps_call _ _ _) fun a => keeps_pure _
  · exact keeps_pure _

theorem keeps_boxlessLayout (doc : δ) (fingerprint : String) (text : Option (TextRead π τ)) :
    Keeps (boxlessLayout w d doc fingerprint text) := by
  unfold boxlessLayout
  split
  · exact keeps_pure _
  · split
    · refine keeps_bind (keeps_commit _ fun s s' h => ?_) fun _ => keeps_pure _
      simp only [bind_eq_ok] at h
      obtain ⟨anchors, -, mid, hlayout, htokens⟩ := h
      exact (writeLayoutTx_same hlayout).trans (writeLayoutTokensTx_same htokens)
    · exact keeps_pure _

theorem keeps_readFields (doc : δ) (images : List PageImage) (fingerprint : String)
    (text : Option (TextRead π τ)) : Keeps (readFields d doc images fingerprint text) := by
  unfold readFields
  split
  · exact keeps_bind (keeps_call _ _ _) fun a => keeps_pure _
  · split
    · exact keeps_bind (keeps_call _ _ _) fun a => keeps_pure _
    · refine keeps_bind ?_ fun a => keeps_call _ _ _
      unfold loadRules
      split
      · exact keeps_pure _
      · exact keeps_call _ _ _

theorem keeps_stages : Keeps (stages w d) :=
  keeps_bind (keeps_call _ _ _) fun doc =>
    keeps_bind (keeps_renderPages w d doc) fun _ =>
      keeps_bind (keeps_readText w d doc) fun text =>
        keeps_bind (keeps_boxlessLayout w d doc _ text) fun _ => keeps_readFields d doc _ _ text

end

/-! ### The transactions around the chain -/

section
variable (w : ExtractWorker δ τ) (job : RiverJob) (d : Delivery δ π τ ρ) (s : JobStore)

def begun : JobStore :=
  let j := s.job.getD ⟨d.newID, job.documentID, w.extractorName, w.extractorVersion, .queued, 0,
    none, none, none, none, none, none⟩
  { s with job := some { j with
      state := .extracting
      attempts := d.attempt
      lastError := none
      failureKind := none } }

def beginStatements : List Statement :=
  .lookUpJob :: (if s.job.isNone then [.insertJob] else []) ++ [.advance .extracting]

def failureStatements : List Statement :=
  .advance (failedState job d) :: if failedState job d = .deadLettered then [.audit] else []

def resultStatements (results : List FieldResult) (docType : String) : List Statement :=
  .marker :: (fieldRows results).map .fieldRow ++
    (if docType = "" then [] else [.documentType]) ++ [.advance .succeeded, .audit]

end

section
variable {w : ExtractWorker δ τ} {job : RiverJob} {d : Delivery δ π τ ρ} {s s' : JobStore}

theorem ended_of_job {j : Job} (hj : s.job = some j) :
    s.Ended ↔ j.state = .succeeded ∨ j.state = .deadLettered := by
  simp only [JobStore.Ended, JobStore.state, hj, Option.map_some, Option.some.injEq]

theorem not_ended_of_no_job (hj : s.job = none) : ¬ s.Ended := by
  simp only [JobStore.Ended, JobStore.state, hj, Option.map_none, reduceCtorEq, or_self,
    not_false_eq_true]

theorem advanceJobTx_eq_ok {state : JobState} {lastErr : String} {kind : Option FailureKind} :
    advanceJobTx d s state lastErr kind = .ok s' ↔
      d.refuse (.advance state) = none ∧ ∃ j, s.job = some j ∧ s' = { s with job := some { j with
        state := state
        attempts := d.attempt
        lastError := if lastErr = "" then none else some lastErr
        failureKind := kind } } := by
  simp only [advanceJobTx, bind_eq_ok, exec_eq_ok, updateJob_eq_ok]
  constructor
  · rintro ⟨_, h⟩
    exact h
  · intro h
    exact ⟨(), h⟩

theorem forall_beginStatements : (∀ stmt ∈ beginStatements s, d.refuse stmt = none) ↔
    d.refuse .lookUpJob = none ∧ (s.job = none → d.refuse .insertJob = none) ∧
      d.refuse (.advance .extracting) = none := by
  cases hj : s.job with
  | some j =>
    simp only [beginStatements, hj, Option.isNone_some, Bool.false_eq_true, if_false,
      List.cons_append, List.nil_append, List.forall_mem_cons, List.not_mem_nil, false_implies,
      implies_true, and_true, reduceCtorEq, true_and]
  | none =>
    simp only [beginStatements, hj, Option.isNone_none, if_true, List.cons_append,
      List.nil_append, List.forall_mem_cons, List.not_mem_nil, false_implies, implies_true,
      and_true, true_implies]

theorem beginTx_eq_ok {b : Bool} : beginTx w job d s = .ok (s', b) ↔
    (b = true ∧ s.Ended ∧ s' = s ∧ d.refuse .lookUpJob = none) ∨
    (b = false ∧ ¬ s.Ended ∧ s' = begun w job d s ∧
      ∀ stmt ∈ beginStatements s, d.refuse stmt = none) := by
  rw [forall_beginStatements]
  cases hj : s.job with
  | some j =>
    simp only [beginTx, ensureJobTx, hj, bind_eq_ok, exec_eq_ok, pure_eq_ok, Prod.mk.injEq,
      Prod.exists, ended_of_job hj]
    constructor
    · rintro ⟨t, i, ⟨_, hlook, rfl, rfl⟩, h⟩
      split at h
      · rename_i hended
        cases h
        exact .inl ⟨rfl, hended, rfl, hlook⟩
      · rename_i hended
        simp only [bind_eq_ok, pure_eq_ok, Prod.mk.injEq, advanceJobTx_eq_ok] at h
        obtain ⟨u, ⟨hadvance, i, hi, rfl⟩, rfl, rfl⟩ := h
        rw [hj] at hi
        cases hi
        refine .inr ⟨rfl, hended, ?_, hlook, (by rintro ⟨⟩), hadvance⟩
        simp only [begun, hj]
        rfl
    · rintro (⟨rfl, hended, rfl, hlook⟩ | ⟨rfl, hended, rfl, hlook, -, hadvance⟩)
      · refine ⟨_, j, ⟨(), hlook, rfl, rfl⟩, ?_⟩
        rw [if_pos hended]
        rfl
      · refine ⟨s, j, ⟨(), hlook, rfl, rfl⟩, ?_⟩
        rw [if_neg hended]
        simp only [bind_eq_ok, pure_eq_ok, Prod.mk.injEq, advanceJobTx_eq_ok]
        refine ⟨_, ⟨hadvance, j, hj, rfl⟩, ?_, trivial⟩
        simp only [begun, hj]
        rfl
  | none =>
    have hnot := not_ended_of_no_job hj
    simp only [beginTx, ensureJobTx, hj, bind_eq_ok, exec_eq_ok, pure_eq_ok, Prod.mk.injEq,
      Prod.exists]
    constructor
    · rintro ⟨t, i, ⟨_, hlook, _, hinsert, rfl, rfl⟩, h⟩
      rw [if_neg (by simp)] at h
      simp only [bind_eq_ok, pure_eq_ok, Prod.mk.injEq, advanceJobTx_eq_ok] at h
      obtain ⟨u, ⟨hadvance, i, hi, rfl⟩, rfl, rfl⟩ := h
      cases hi
      refine .inr ⟨rfl, hnot, ?_, hlook, fun _ => hinsert, hadvance⟩
      simp only [begun, hj]
      rfl
    · rintro (⟨rfl, hended, rfl, hlook⟩ | ⟨rfl, -, rfl, hlook, hinsert, hadvance⟩)
      · exact absurd hended hnot
      · refine ⟨_, _, ⟨(), hlook, (), hinsert trivial, rfl, rfl⟩, ?_⟩
        rw [if_neg (by simp)]
        simp only [bind_eq_ok, pure_eq_ok, Prod.mk.injEq, advanceJobTx_eq_ok]
        refine ⟨_, ⟨hadvance, _, rfl, rfl⟩, ?_, trivial⟩
        simp only [begun, hj]
        rfl

theorem recordAudit_eq_ok {ev : ExtractionAudit} : recordAudit d s ev = .ok s' ↔
    d.refuse .audit = none ∧ s' = { s with audit := s.audit ++ [ev] } := by
  simp only [recordAudit, bind_eq_ok, exec_eq_ok, pure_eq_ok]
  constructor
  · rintro ⟨_, h, heq⟩
    exact ⟨h, heq.symm⟩
  · rintro ⟨h, heq⟩
    exact ⟨(), h, heq.symm⟩

theorem recordFailure_eq_ok {kind : FailureKind} {message : String}
    (h : recordFailure w job d s kind message = .ok s') :
    s'.state = some (failedState job d) ∧ s'.marker = s.marker ∧
      s'.fieldResults = s.fieldResults ∧
      (failedState job d ≠ .deadLettered → s'.audit = s.audit) ∧
      (failedState job d = .deadLettered →
        ∃ ev, ev.succeeded = false ∧ s'.audit = s.audit ++ [ev]) ∧
      ∀ stmt ∈ failureStatements job d, d.refuse stmt = none := by
  simp only [recordFailure, bind_eq_ok, advanceJobTx_eq_ok] at h
  obtain ⟨mid, ⟨hadvance, j, hj, rfl⟩, h⟩ := h
  unfold failureStatements
  split at h
  · rename_i hlater
    cases h
    refine ⟨rfl, rfl, rfl, fun _ => rfl, fun hdead => absurd hdead hlater, ?_⟩
    rw [if_neg hlater]
    exact List.forall_mem_cons.mpr ⟨hadvance, fun stmt h => absurd h List.not_mem_nil⟩
  · rename_i hlast
    obtain ⟨haudit, rfl⟩ := recordAudit_eq_ok.mp h
    have hdead := not_not.mp hlast
    refine ⟨rfl, rfl, rfl, fun hlater => absurd hdead hlater, fun _ => ⟨_, rfl, rfl⟩, ?_⟩
    rw [if_pos hdead]
    exact List.forall_mem_cons.mpr ⟨hadvance, List.forall_mem_singleton.mpr haudit⟩

theorem recordFailure_accepted (kind : FailureKind) (message : String) {j : Job}
    (hj : s.job = some j) (h : ∀ stmt ∈ failureStatements job d, d.refuse stmt = none) :
    ∃ s', recordFailure w job d s kind message = .ok s' := by
  obtain ⟨hadvance, hrest⟩ := List.forall_mem_cons.mp h
  have hmid : ∃ mid, advanceJobTx d s (failedState job d) message (some kind) = .ok mid :=
    ⟨_, advanceJobTx_eq_ok.mpr ⟨hadvance, j, hj, rfl⟩⟩
  obtain ⟨mid, hmid⟩ := hmid
  simp only [recordFailure, bind_eq_ok]
  by_cases hdead : failedState job d = .deadLettered
  · rw [if_pos hdead] at hrest
    have haudit : ∀ ev, ∃ s', recordAudit d mid ev = .ok s' := fun ev =>
      ⟨_, recordAudit_eq_ok.mpr ⟨hrest _ List.mem_cons_self, rfl⟩⟩
    obtain ⟨s', hs'⟩ := haudit { outcomeEvent w job mid false with
      state := some .deadLettered
      failureKind := some kind }
    refine ⟨s', mid, hmid, ?_⟩
    rw [if_neg (not_not.mpr hdead)]
    exact hs'
  · refine ⟨mid, mid, hmid, ?_⟩
    rw [if_pos hdead]
    rfl

theorem writeVerdictTx_eq_ok {docType : String} {j : Job} (hj : s.job = some j) :
    writeVerdictTx d s docType = .ok s' ↔
      (∀ stmt ∈ (if docType = "" then [] else [Statement.documentType]), d.refuse stmt = none) ∧
      s' = { s with job := some (if docType = "" then j else
        { j with documentType := some docType }) } := by
  unfold writeVerdictTx
  split
  · rw [pure_eq_ok]
    refine ⟨fun h => ⟨fun stmt h => (nomatch h), ?_⟩, fun h => ?_⟩
    · rw [← h, ← hj]
    · rw [h.2, ← hj]
  · simp only [writeDocumentTypeTx, bind_eq_ok, exec_eq_ok, updateJob_eq_ok, hj,
      Option.some.injEq, List.forall_mem_singleton]
    constructor
    · rintro ⟨_, hrefuse, i, rfl, rfl⟩
      exact ⟨hrefuse, rfl⟩
    · rintro ⟨hrefuse, rfl⟩
      exact ⟨(), hrefuse, j, rfl, rfl⟩

theorem mapError_eq_ok {ε ε' α : Type} {f : ε → ε'} {x : Except ε α} {a : α} :
    x.mapError f = .ok a ↔ x = .ok a := by
  cases x with
  | error e => exact ⟨fun h => (nomatch h), fun h => (nomatch h)⟩
  | ok b =>
    constructor
    · intro h
      cases h
      rfl
    · intro h
      cases h
      rfl

theorem storeResults_eq_ok {results : List FieldResult} {docType : String}
    (hmarker : s.marker = false) (h : storeResults w job d s results docType = .ok s') :
    s'.state = some .succeeded ∧ s'.marker = true ∧
      s'.fieldResults = s.fieldResults ++ [fieldRows results] ∧
      (∃ ev, ev.succeeded = true ∧ s'.audit = s.audit ++ [ev]) ∧
      ∀ stmt ∈ resultStatements results docType, d.refuse stmt = none := by
  simp only [storeResults, oncePerJob, bind_eq_ok, exec_eq_ok, hmarker, Bool.false_eq_true,
    if_false, mapError_eq_ok, writeFieldResultsTx, execAll_eq_ok, pure_eq_ok] at h
  obtain ⟨_, hmark, s₁, ⟨_, hrows, rfl⟩, s₂, hverdict, s₃, hended, hevent⟩ := h
  obtain ⟨hadvance, j', hj', rfl⟩ := advanceJobTx_eq_ok.mp hended
  obtain ⟨haudit, rfl⟩ := recordAudit_eq_ok.mp hevent
  have hjob : ∃ j, s.job = some j := by
    cases hj : s.job with
    | some j => exact ⟨j, rfl⟩
    | none =>
      unfold writeVerdictTx at hverdict
      split at hverdict
      · cases hverdict
        rw [hj] at hj'
        cases hj'
      · simp only [writeDocumentTypeTx, bind_eq_ok, updateJob_eq_ok, hj] at hverdict
        obtain ⟨_, -, j, hnone, -⟩ := hverdict
        cases hnone
  obtain ⟨j, hj⟩ := hjob
  obtain ⟨htype, rfl⟩ := (writeVerdictTx_eq_ok (by exact hj)).mp hverdict
  refine ⟨rfl, rfl, rfl, ⟨_, rfl, rfl⟩, ?_⟩
  refine List.forall_mem_cons.mpr ⟨hmark, List.forall_mem_append.mpr ⟨?_, ?_⟩⟩
  · exact List.forall_mem_append.mpr ⟨hrows, htype⟩
  · exact List.forall_mem_cons.mpr ⟨hadvance, List.forall_mem_singleton.mpr haudit⟩

theorem storeResults_accepted {results : List FieldResult} {docType : String} {j : Job}
    (hj : s.job = some j) (hmarker : s.marker = false)
    (h : ∀ stmt ∈ resultStatements results docType, d.refuse stmt = none) :
    ∃ s', storeResults w job d s results docType = .ok s' := by
  obtain ⟨hmark, h⟩ := List.forall_mem_cons.mp h
  obtain ⟨h, hlast⟩ := List.forall_mem_append.mp h
  obtain ⟨hrows, htype⟩ := List.forall_mem_append.mp h
  obtain ⟨hadvance, haudit⟩ := List.forall_mem_cons.mp hlast
  simp only [storeResults, oncePerJob, bind_eq_ok, exec_eq_ok, hmarker, Bool.false_eq_true,
    if_false, mapError_eq_ok, writeFieldResultsTx, execAll_eq_ok, pure_eq_ok]
  refine ⟨_, (), hmark, _, ⟨(), hrows, rfl⟩, _,
    (writeVerdictTx_eq_ok (by exact hj)).mpr ⟨htype, rfl⟩, _,
    advanceJobTx_eq_ok.mpr ⟨hadvance, _, rfl, rfl⟩,
    recordAudit_eq_ok.mpr ⟨haudit _ List.mem_cons_self, rfl⟩⟩

end

/-! ### One delivery -/

section
variable (w : ExtractWorker δ τ) (job : RiverJob) (d : Delivery δ π τ ρ) (s : JobStore)

def reading : Except (FailureKind × String) (List FieldResult × String) × Progress :=
  stages w d ⟨[], [begun w job d s], begun w job d s⟩

def endStatements : List Statement :=
  match (reading w job d s).1 with
  | .error _ => failureStatements job d
  | .ok (results, docType) => resultStatements results docType

/-- The job has ended before, or nothing is refused of the delivery's first transaction and of
its last. -/
def EndsAccepted : Prop :=
  s.Ended ∨ (w.hasAudit = true ∧ (∀ stmt ∈ beginStatements s, d.refuse stmt = none) ∧
    ∀ stmt ∈ endStatements w job d s, d.refuse stmt = none)

inductive Worked : Ran → Prop where
  | refused (hno : w.hasAudit = false ∨ d.refuse .lookUpJob ≠ none ∨
        ¬ s.Ended ∧ ¬ ∀ stmt ∈ beginStatements s, d.refuse stmt = none)
      (answer : Except String Unit) : Worked { answer := answer }
  | ended (hended : s.Ended) : Worked { commits := [s], answer := .ok () }
  | stageFailed (hs : ¬ s.Ended) (haudit : w.hasAudit = true)
      (hbegin : ∀ stmt ∈ beginStatements s, d.refuse stmt = none) {kind : FailureKind}
      {message : String} (hread : (reading w job d s).1 = .error (kind, message))
      (hrecord : ∀ s', recordFailure w job d (reading w job d s).2.store kind message ≠ .ok s')
      (answer : Except String Unit) :
      Worked { calls := (reading w job d s).2.calls, commits := (reading w job d s).2.commits
               answer := answer }
  | recorded (hs : ¬ s.Ended) (haudit : w.hasAudit = true)
      (hbegin : ∀ stmt ∈ beginStatements s, d.refuse stmt = none) {kind : FailureKind}
      {message : String} (hread : (reading w job d s).1 = .error (kind, message)) {s' : JobStore}
      (hrecord : recordFailure w job d (reading w job d s).2.store kind message = .ok s')
      (answer : Except String Unit) :
      Worked { calls := (reading w job d s).2.calls
               commits := (reading w job d s).2.commits ++ [s'], answer := answer }
  | unstored (hs : ¬ s.Ended) (haudit : w.hasAudit = true)
      (hbegin : ∀ stmt ∈ beginStatements s, d.refuse stmt = none) {results : List FieldResult}
      {docType : String} (hread : (reading w job d s).1 = .ok (results, docType))
      (hstore : ∀ s', storeResults w job d (reading w job d s).2.store results docType ≠ .ok s')
      (answer : Except String Unit) :
      Worked { calls := (reading w job d s).2.calls, commits := (reading w job d s).2.commits
               results := some results, answer := answer }
  | stored (hs : ¬ s.Ended) (haudit : w.hasAudit = true)
      (hbegin : ∀ stmt ∈ beginStatements s, d.refuse stmt = none) {results : List FieldResult}
      {docType : String} (hread : (reading w job d s).1 = .ok (results, docType)) {s' : JobStore}
      (hstore : storeResults w job d (reading w job d s).2.store results docType = .ok s')
      (answer : Except String Unit) :
      Worked { calls := (reading w job d s).2.calls
               commits := (reading w job d s).2.commits ++ [s'], results := some results
               answer := answer }

end

section
variable {w : ExtractWorker δ τ} {job : RiverJob} {d : Delivery δ π τ ρ} {s : JobStore}

theorem worked (w : ExtractWorker δ τ) (job : RiverJob) (d : Delivery δ π τ ρ) (s : JobStore) :
    Worked w job d s (work w job d s) := by
  unfold work
  split
  · rename_i hno
    exact .refused (.inl hno) _
  · rename_i hyes
    have haudit : w.hasAudit = true := Bool.not_eq_false _ ▸ hyes
    split
    · rename_i e hbegin
      refine .refused (.inr ?_) _
      by_cases hlook : d.refuse .lookUpJob = none
      · refine .inr ⟨fun hended => ?_, fun hall => ?_⟩
        · rw [(@beginTx_eq_ok _ _ _ _ w job d s s true).mpr (.inl ⟨rfl, hended, rfl, hlook⟩)]
            at hbegin
          cases hbegin
        · by_cases hended : s.Ended
          · rw [(@beginTx_eq_ok _ _ _ _ w job d s s true).mpr (.inl ⟨rfl, hended, rfl, hlook⟩)]
              at hbegin
            cases hbegin
          · rw [beginTx_eq_ok.mpr (.inr ⟨rfl, hended, rfl, hall⟩)] at hbegin
            cases hbegin
      · exact .inl hlook
    · rename_i s₁ hbegin
      obtain ⟨-, hended, rfl, -⟩ | ⟨hfalse, -⟩ := beginTx_eq_ok.mp hbegin
      · exact .ended hended
      · cases hfalse
    · rename_i s₁ hbegin
      obtain ⟨htrue, -⟩ | ⟨-, hs, rfl, hall⟩ := beginTx_eq_ok.mp hbegin
      · cases htrue
      · have hreading : stages w d ⟨[], [begun w job d s], begun w job d s⟩ = reading w job d s := rfl
        rw [hreading]
        split
        · rename_i kind message p hp
          have hfst : (reading w job d s).1 = .error (kind, message) := by rw [hp]
          have hsnd : (reading w job d s).2 = p := by rw [hp]
          subst hsnd
          split
          · rename_i e he
            refine .stageFailed hs haudit hall hfst (fun s' h => ?_) _
            rw [he] at h
            cases h
          · rename_i s₂ hs₂
            exact .recorded hs haudit hall hfst hs₂ _
        · rename_i results docType p hp
          have hfst : (reading w job d s).1 = .ok (results, docType) := by rw [hp]
          have hsnd : (reading w job d s).2 = p := by rw [hp]
          subst hsnd
          split
          · rename_i e he
            refine .unstored hs haudit hall hfst (fun s' h => ?_) _
            rw [he] at h
            cases h
          · rename_i s₂ hs₂
            exact .stored hs haudit hall hfst hs₂ _

theorem Outcome.same (h : Outcome s) (hs : ¬ s.Ended) {s' : JobStore}
    (hsame : SameOutcome (begun w job d s) s') :
    Outcome s' ∧ s'.marker = false ∧ s'.fieldResults = [] ∧ s'.audit = [] ∧
      ∃ j, s'.job = some j := by
  obtain ⟨hmarker, hrows, haudit⟩ := h.not_ended hs
  have hstate : s'.state = some .extracting := hsame.state
  have hmarker' : s'.marker = false := hsame.marker.trans hmarker
  have hrows' : s'.fieldResults = [] := hsame.rows.trans hrows
  have haudit' : s'.audit = [] := hsame.audit.trans haudit
  have hnot : ¬ s'.Ended := by
    rw [JobStore.Ended, hstate]
    exact fun h => by rcases h with h | h <;> cases h
  refine ⟨.unfinished hnot hmarker' hrows' haudit', hmarker', hrows', haudit', ?_⟩
  obtain ⟨j, hj, -⟩ := Option.map_eq_some_iff.mp hstate
  exact ⟨j, hj⟩

theorem reading_commits :
    ∀ s' ∈ (reading w job d s).2.commits, SameOutcome (begun w job d s) s' := by
  obtain ⟨-, new, hcommits, hnew⟩ := keeps_stages w d ⟨[], [begun w job d s], begun w job d s⟩
  intro s' hs'
  rw [reading, hcommits] at hs'
  obtain rfl | hs' := List.mem_cons.mp hs'
  · exact .refl _
  · exact hnew s' hs'

theorem reading_store : SameOutcome (begun w job d s) (reading w job d s).2.store :=
  (keeps_stages w d ⟨[], [begun w job d s], begun w job d s⟩).1

theorem failed_state_ended : s.state = some (failedState job d) →
    (s.Ended ↔ failedState job d = .deadLettered) := by
  intro hstate
  rw [JobStore.Ended, hstate, Option.some.injEq, Option.some.injEq]
  refine ⟨fun h => h.resolve_left fun hok => ?_, .inr⟩
  unfold failedState at hok
  split at hok <;> cases hok

theorem recordFailure_outcome (h : Outcome s) (hs : ¬ s.Ended) {kind : FailureKind}
    {message : String} {s' : JobStore}
    (hrecord : recordFailure w job d (reading w job d s).2.store kind message = .ok s') :
    Outcome s' ∧ s'.fieldResults = [] ∧ (s'.Ended ↔ failedState job d = .deadLettered) := by
  obtain ⟨-, hmarker, hrows, haudit, -⟩ := h.same hs (@reading_store _ _ _ _ w job d s)
  obtain ⟨hstate, hmarker', hrows', hlater, hlast, -⟩ := recordFailure_eq_ok hrecord
  have hiff := failed_state_ended hstate
  refine ⟨?_, hrows'.trans hrows, hiff⟩
  by_cases hdead : failedState job d = .deadLettered
  · obtain ⟨ev, hev, haudit'⟩ := hlast hdead
    rw [haudit, List.nil_append] at haudit'
    exact .deadLettered (hdead ▸ hstate) (hmarker'.trans hmarker) (hrows'.trans hrows) haudit' hev
  · exact .unfinished (fun hended => hdead (hiff.mp hended)) (hmarker'.trans hmarker)
      (hrows'.trans hrows) ((hlater hdead).trans haudit)

theorem storeResults_outcome (h : Outcome s) (hs : ¬ s.Ended) {results : List FieldResult}
    {docType : String} {s' : JobStore}
    (hstore : storeResults w job d (reading w job d s).2.store results docType = .ok s') :
    Outcome s' ∧ s'.fieldResults = [fieldRows results] ∧ s'.Ended := by
  obtain ⟨-, hmarker, hrows, haudit, -⟩ := h.same hs (@reading_store _ _ _ _ w job d s)
  obtain ⟨hstate, hmarker', hrows', ⟨ev, hev, haudit'⟩, -⟩ := storeResults_eq_ok hmarker hstore
  rw [haudit, List.nil_append] at haudit'
  rw [hrows, List.nil_append] at hrows'
  exact ⟨.succeeded hstate hmarker' hrows' haudit' hev, hrows', .inl hstate⟩

theorem work_commits (h : Outcome s) : ∀ s' ∈ (work w job d s).commits, Outcome s' ∧
    (s'.fieldResults = s.fieldResults ∨
      ∃ results, (work w job d s).results = some results ∧
        s'.fieldResults = [fieldRows results]) := by
  have hmid : ¬ s.Ended → ∀ s' ∈ (reading w job d s).2.commits,
      Outcome s' ∧ s'.fieldResults = s.fieldResults := by
    intro hs s' hs'
    obtain ⟨hout, -, hrows, -⟩ := h.same hs (reading_commits s' hs')
    exact ⟨hout, hrows.trans (h.not_ended hs).2.1.symm⟩
  have hworked := worked w job d s
  generalize work w job d s = ran at hworked ⊢
  cases hworked with
  | refused hno answer => exact fun s' hs' => (nomatch hs')
  | ended hended =>
    intro s' hs'
    obtain rfl := List.mem_singleton.mp hs'
    exact ⟨h, .inl rfl⟩
  | stageFailed hs haudit hbegin hread hrecord answer =>
    intro s' hs'
    obtain ⟨hout, hrows⟩ := hmid hs s' hs'
    exact ⟨hout, .inl hrows⟩
  | recorded hs haudit hbegin hread hrecord answer =>
    intro s' hs'
    rcases List.mem_append.mp hs' with hs' | hs'
    · obtain ⟨hout, hrows⟩ := hmid hs s' hs'
      exact ⟨hout, .inl hrows⟩
    · obtain rfl := List.mem_singleton.mp hs'
      obtain ⟨hout, hrows, -⟩ := recordFailure_outcome h hs hrecord
      exact ⟨hout, .inl (hrows.trans (h.not_ended hs).2.1.symm)⟩
  | unstored hs haudit hbegin hread hstore answer =>
    intro s' hs'
    obtain ⟨hout, hrows⟩ := hmid hs s' hs'
    exact ⟨hout, .inl hrows⟩
  | stored hs haudit hbegin hread hstore answer =>
    intro s' hs'
    rcases List.mem_append.mp hs' with hs' | hs'
    · obtain ⟨hout, hrows⟩ := hmid hs s' hs'
      exact ⟨hout, .inl hrows⟩
    · obtain rfl := List.mem_singleton.mp hs'
      obtain ⟨hout, hrows, -⟩ := storeResults_outcome h hs hstore
      exact ⟨hout, .inr ⟨_, rfl, hrows⟩⟩

theorem work_ended (hended : s.Ended) : (work w job d s).calls = [] ∧
    ∀ s' ∈ (work w job d s).commits, s' = s := by
  have hworked := worked w job d s
  generalize work w job d s = ran at hworked ⊢
  cases hworked with
  | refused hno answer => exact ⟨rfl, fun s' hs' => (nomatch hs')⟩
  | ended hended => exact ⟨rfl, fun s' hs' => List.mem_singleton.mp hs'⟩
  | stageFailed hs => exact absurd hended hs
  | recorded hs => exact absurd hended hs
  | unstored hs => exact absurd hended hs
  | stored hs => exact absurd hended hs

theorem last_attempt_ended_iff (h : Outcome s) (hlast : job.maxAttempts ≤ d.attempt) :
    (lastCommit s (work w job d s).commits).Ended ↔ EndsAccepted w job d s := by
  have hdead : failedState job d = .deadLettered := if_pos hlast
  by_cases hended : s.Ended
  · have hsame : lastCommit s (work w job d s).commits = s := by
      unfold lastCommit
      cases hget : (work w job d s).commits.getLast? with
      | none => rfl
      | some s' => exact (work_ended hended).2 s' (List.mem_of_getLast? hget)
    rw [hsame]
    exact ⟨fun _ => .inl hended, fun _ => hended⟩
  have hunended : ∀ commits : List JobStore,
      (∀ s' ∈ commits, SameOutcome (begun w job d s) s') → ¬ (lastCommit s commits).Ended := by
    intro commits hcommits hlastEnded
    unfold lastCommit at hlastEnded
    cases hget : commits.getLast? with
    | none =>
      rw [hget] at hlastEnded
      exact hended hlastEnded
    | some s' =>
      rw [hget, Option.getD_some] at hlastEnded
      obtain ⟨hout, -⟩ := h.same hended (hcommits s' (List.mem_of_getLast? hget))
      have hstate := (hcommits s' (List.mem_of_getLast? hget)).state
      rw [JobStore.Ended, hstate] at hlastEnded
      rcases hlastEnded with h | h <;> cases h
  have hlastOf : ∀ (commits : List JobStore) (s' : JobStore),
      lastCommit s (commits ++ [s']) = s' := by
    intro commits s'
    rw [lastCommit, List.getLast?_append_of_ne_nil _ (List.cons_ne_nil _ _)]
    rfl
  have hworked := worked w job d s
  generalize work w job d s = ran at hworked ⊢
  cases hworked with
  | refused hno answer =>
    refine ⟨fun hlastEnded => absurd hlastEnded hended, fun hacc => ?_⟩
    obtain hacc | ⟨haudit, hbegin, -⟩ := hacc
    · exact absurd hacc hended
    · obtain hno | hlook | ⟨-, hrefused⟩ := hno
      · rw [hno] at haudit
        cases haudit
      · exact absurd (hbegin _ List.mem_cons_self) hlook
      · exact absurd hbegin hrefused
  | ended hended' => exact absurd hended' hended
  | stageFailed hs haudit hbegin hread hrecord answer =>
    refine ⟨fun hlastEnded => absurd hlastEnded (hunended _ reading_commits), fun hacc => ?_⟩
    obtain hacc | ⟨-, -, hend⟩ := hacc
    · exact absurd hacc hended
    · rw [endStatements, hread] at hend
      obtain ⟨-, -, -, -, j, hj⟩ := h.same hs (@reading_store _ _ _ _ w job d s)
      obtain ⟨s', hs'⟩ := recordFailure_accepted _ _ hj hend
      exact absurd hs' (hrecord s')
  | recorded hs haudit hbegin hread hrecord answer =>
    rw [hlastOf]
    obtain ⟨-, -, hiff⟩ := recordFailure_outcome h hs hrecord
    obtain ⟨-, -, -, -, -, hstmts⟩ := recordFailure_eq_ok hrecord
    refine ⟨fun _ => .inr ⟨haudit, hbegin, ?_⟩, fun _ => hiff.mpr hdead⟩
    rw [endStatements, hread]
    exact hstmts
  | unstored hs haudit hbegin hread hstore answer =>
    refine ⟨fun hlastEnded => absurd hlastEnded (hunended _ reading_commits), fun hacc => ?_⟩
    obtain hacc | ⟨-, -, hend⟩ := hacc
    · exact absurd hacc hended
    · rw [endStatements, hread] at hend
      obtain ⟨-, hmarker, -, -, j, hj⟩ := h.same hs (@reading_store _ _ _ _ w job d s)
      obtain ⟨s', hs'⟩ := storeResults_accepted hj hmarker hend
      exact absurd hs' (hstore s')
  | stored hs haudit hbegin hread hstore answer =>
    rw [hlastOf]
    obtain ⟨-, hmarker, -⟩ := h.same hs (@reading_store _ _ _ _ w job d s)
    obtain ⟨-, -, hend⟩ := storeResults_outcome h hs hstore
    obtain ⟨-, -, -, -, hstmts⟩ := storeResults_eq_ok hmarker hstore
    refine ⟨fun _ => .inr ⟨haudit, hbegin, ?_⟩, fun _ => hend⟩
    rw [endStatements, hread]
    exact hstmts

end

/-! ### Runs -/

section
variable (w : ExtractWorker δ τ) (job : RiverJob) (calls : List (Call δ π τ ρ))

def reached : JobStore := calls.foldl (deliver w job) {}

structure OneOutcome : Prop where
  succeeded : ∀ pre, pre <+: calls → ((reached w job pre).state = some .succeeded ↔
    ∃ rows, (reached w job pre).fieldResults = [rows])
  complete : ∀ pre, pre <+: calls → ∀ rows ∈ (reached w job pre).fieldResults,
    ∃ before c results, before ++ [c] <+: pre ∧
      (work w job c.delivery (reached w job before)).results = some results ∧
      rows = fieldRows results
  event : ∀ pre, pre <+: calls → (reached w job pre).audit.length ≤ 1 ∧
    ∀ ev ∈ (reached w job pre).audit, (reached w job pre).state =
      some (if ev.succeeded then .succeeded else .deadLettered)
  idle : ∀ pre c, pre ++ [c] <+: calls → (reached w job pre).Ended →
    (work w job c.delivery (reached w job pre)).calls = [] ∧
      reached w job (pre ++ [c]) = reached w job pre
  ends : ∀ pre c, pre ++ [c] <+: calls → c.crash = none →
    job.maxAttempts ≤ c.delivery.attempt → (reached w job (pre ++ [c])).Ended

end

section
variable {w : ExtractWorker δ τ} {job : RiverJob}

theorem reached_concat (pre : List (Call δ π τ ρ)) (c : Call δ π τ ρ) :
    reached w job (pre ++ [c]) = deliver w job (reached w job pre) c := by
  rw [reached, List.foldl_append]
  rfl

theorem deliver_mem (s : JobStore) (c : Call δ π τ ρ) :
    deliver w job s c = s ∨ deliver w job s c ∈ (work w job c.delivery s).commits := by
  have hlast : ∀ commits : List JobStore,
      lastCommit s commits = s ∨ lastCommit s commits ∈ commits := by
    intro commits
    unfold lastCommit
    cases hget : commits.getLast? with
    | none => exact .inl rfl
    | some s' => exact .inr (List.mem_of_getLast? hget)
  unfold deliver
  split
  · exact hlast _
  · rename_i n hn
    exact (hlast _).imp_right List.mem_of_mem_take

theorem outcome_reached (pre : List (Call δ π τ ρ)) : Outcome (reached w job pre) := by
  induction pre using List.reverseRecOn with
  | nil =>
    refine .unfinished (fun h => ?_) rfl rfl rfl
    rcases h with h | h <;> cases h
  | append_singleton pre c ih =>
    rw [reached_concat]
    rcases @deliver_mem _ _ _ _ w job (reached w job pre) c with hsame | hmem
    · rw [hsame]
      exact ih
    · exact (work_commits ih _ hmem).1

theorem complete_reached (pre : List (Call δ π τ ρ)) :
    ∀ rows ∈ (reached w job pre).fieldResults, ∃ before c results, before ++ [c] <+: pre ∧
      (work w job c.delivery (reached w job before)).results = some results ∧
      rows = fieldRows results := by
  induction pre using List.reverseRecOn with
  | nil => exact fun rows hrows => (nomatch hrows)
  | append_singleton pre c ih =>
    have hearlier : ∀ rows ∈ (reached w job pre).fieldResults, ∃ before c' results,
        before ++ [c'] <+: pre ++ [c] ∧
        (work w job c'.delivery (reached w job before)).results = some results ∧
        rows = fieldRows results := by
      intro rows hrows
      obtain ⟨before, c', results, hprefix, hresults, heq⟩ := ih rows hrows
      exact ⟨before, c', results, hprefix.trans (List.prefix_append _ _), hresults, heq⟩
    rw [reached_concat]
    rcases @deliver_mem _ _ _ _ w job (reached w job pre) c with hsame | hmem
    · rw [hsame]
      exact hearlier
    · obtain ⟨-, hkept | ⟨results, hresults, hnew⟩⟩ := work_commits (outcome_reached pre) _ hmem
      · rw [hkept]
        exact hearlier
      · rw [hnew]
        intro rows hrows
        exact ⟨pre, c, results, List.prefix_rfl, hresults, List.mem_singleton.mp hrows⟩

/-- A run has one outcome exactly when every last attempt that does not crash finds the job
ended, or is refused nothing in its first transaction and in its last. -/
theorem one_outcome_iff {calls : List (Call δ π τ ρ)} : OneOutcome w job calls ↔
    ∀ pre c, pre ++ [c] <+: calls → c.crash = none → job.maxAttempts ≤ c.delivery.attempt →
      EndsAccepted w job c.delivery (reached w job pre) := by
  have hends : ∀ pre (c : Call δ π τ ρ), c.crash = none → job.maxAttempts ≤ c.delivery.attempt →
      ((reached w job (pre ++ [c])).Ended ↔
        EndsAccepted w job c.delivery (reached w job pre)) := by
    intro pre c hcrash hlast
    rw [reached_concat, deliver, hcrash]
    exact last_attempt_ended_iff (outcome_reached pre) hlast
  constructor
  · intro h pre c hpre hcrash hlast
    exact (hends pre c hcrash hlast).mp (h.ends pre c hpre hcrash hlast)
  · intro h
    refine ⟨fun pre _ => ?_, fun pre _ => complete_reached pre, fun pre _ => ?_,
      fun pre c _ hended => ?_, fun pre c hpre hcrash hlast => ?_⟩
    · cases outcome_reached pre with
      | unfinished hstate hmarker hrows haudit =>
        rw [hrows]
        exact ⟨fun hok => absurd (.inl hok) hstate, fun ⟨rows, h⟩ => (nomatch h)⟩
      | succeeded hstate hmarker hrows haudit hev => exact ⟨fun _ => ⟨_, hrows⟩, fun _ => hstate⟩
      | deadLettered hstate hmarker hrows haudit hev =>
        rw [hrows, hstate]
        exact ⟨fun h => (nomatch h), fun ⟨rows, h⟩ => (nomatch h)⟩
    · cases outcome_reached pre with
      | unfinished hstate hmarker hrows haudit =>
        rw [haudit]
        exact ⟨Nat.zero_le 1, fun ev hev => (nomatch hev)⟩
      | succeeded hstate hmarker hrows haudit hev =>
        rw [haudit]
        refine ⟨le_rfl, fun ev' hev' => ?_⟩
        obtain rfl := List.mem_singleton.mp hev'
        rw [hev, if_pos rfl, hstate]
      | deadLettered hstate hmarker hrows haudit hev =>
        rw [haudit]
        refine ⟨le_rfl, fun ev' hev' => ?_⟩
        obtain rfl := List.mem_singleton.mp hev'
        rw [hev, if_neg Bool.false_ne_true, hstate]
    · obtain ⟨hcalls, hcommits⟩ := @work_ended _ _ _ _ w job c.delivery _ hended
      refine ⟨hcalls, ?_⟩
      rw [reached_concat]
      exact (@deliver_mem _ _ _ _ w job (reached w job pre) c).elim id (hcommits _)
    · exact (hends pre c hcrash hlast).mpr (h pre c hpre hcrash hlast)

end

/-! ### A refused result set -/

def extractorOnly : ExtractWorker Unit Unit where
  extractorName := "mock"
  extractorVersion := "1"
  hasAudit := true
  hasText := false
  rendersPageImages := fun _ => false
  fingerprint := fun _ => ""
  boxlessFingerprint := fun _ => ""
  marshalAnchors := fun _ => .ok "[]"
  storableTokens := fun _ => none

def tripleJob : RiverJob where
  documentID := 7
  maxAttempts := 3

def totalRead (value : String) (attempt : ℕ) : Call Unit Unit Unit Unit where
  delivery := {
    attempt := attempt
    newID := 8
    refuse := fun stmt =>
      match stmt with
      | .fieldRow r =>
        if r.field.value = some "" then some "violates check constraint" else none
      | _ => none
    opened := .ok ()
    ingested := fun _ => .ok ([], ())
    textRead := fun _ => .ok ⟨(), (), 0⟩
    extracted := fun _ => .ok [{ name := "total", value := some value }]
    imagesRead := fun _ => .ok none
    rules := fun _ => .ok []
    read := fun _ _ => ([], "") }

example : (reached extractorOnly tripleJob [totalRead "125.00" 1]).state = some .succeeded := by
  decide

theorem refused_results_left_extracting :
    (reached extractorOnly tripleJob [totalRead "" 1, totalRead "" 2, totalRead "" 3]).state =
        some .extracting ∧
      ¬ OneOutcome extractorOnly tripleJob [totalRead "" 1, totalRead "" 2, totalRead "" 3] := by
  have hstate : (reached extractorOnly tripleJob
      [totalRead "" 1, totalRead "" 2, totalRead "" 3]).state = some .extracting := by decide
  refine ⟨hstate, fun h => ?_⟩
  have hended := h.ends [totalRead "" 1, totalRead "" 2] (totalRead "" 3) List.prefix_rfl rfl le_rfl
  change (reached extractorOnly tripleJob
    [totalRead "" 1, totalRead "" 2, totalRead "" 3]).Ended at hended
  rw [JobStore.Ended, hstate] at hended
  rcases hended with h | h <;> cases h

end InvoiceOs.Extraction
