import InvoiceOs.Concurrency.Step
import InvoiceOs.CustomRule.History

/-! Custom-rule saves beside submissions: an invoice queued after a blocking revision was
saved has answered it, by its last verdict or by a re-check that found nothing blocking. -/

namespace InvoiceOs.Concurrency

open Lib Approval CustomRule Invoice

def Entry.verdictOn (i : Uuid) : Entry → Option (List Uuid × ℕ)
  | .judged id _ _ ran n => if id = i then some (ran, n) else none
  | _ => none

def lastVerdict (journal : List Entry) (i : Uuid) : Option (List Uuid × ℕ) :=
  journal.findSome? (Entry.verdictOn i)

section
variable (journal : List Entry) (revs : List Revision) (i entityID : Uuid) (q : Revision)

/-- The last verdict ran the revision or a later one of its rule, or found the rule retired. -/
def JudgedSince : Prop := ∃ ran n, lastVerdict journal i = some (ran, n) ∧ n ≤ revs.length ∧
  (ranSince revs q ran = true ∨ retired (revs.take n) entityID q = true)

/-- A re-check that read the revision as pending ran the rules current at that time, and found
nothing blocking. -/
def RecheckedSince : Prop := ∃ marks ran n, Entry.passed i marks ran n ∈ journal ∧ q.id ∈ marks ∧
  n ≤ revs.length ∧ ran = (currentTx (revs.take n) entityID).map Revision.id

def Answered : Prop := JudgedSince journal revs i entityID q ∨ RecheckedSince journal revs i entityID q

end

/-! ### What tasks have under way -/

def Task.judgement : Task → Option Judgement
  | .judged j => some j
  | .arming j _ => some j
  | _ => none

/-- The read of the pending revisions, `n` of them saved, found none on this invoice. -/
def Task.foundFree (t : Task) (id : Uuid) (n : ℕ) : Prop :=
  match t with
  | .queuePending i _ pending m => i = id ∧ pending = false ∧ m = n
  | .queueReady i _ pending _ m => i = id ∧ pending = false ∧ m = n
  | .batchReady b _ pending m => id ∈ b.ids ∧ pending id = false ∧ m = n
  | _ => False

/-- The revisions a re-check pass will mark, and the invoices it has not settled. -/
def Task.pass : Task → Option (List Uuid × List Uuid)
  | .reading s chunk docs => some (s.marks, s.todo ++ (chunk ++ docs.map Document.id))
  | .readingLines s chunk docs id _ => some (s.marks, s.todo ++ (id :: chunk ++ docs.map Document.id))
  | .demoting s _ verdicts => some (s.marks, s.todo ++ verdicts.map fun v => v.1.id)
  | _ => none

/-- The invoices a pass has read, each with its client. -/
def Task.clients : Task → List (Uuid × Uuid)
  | .reading _ _ docs => docs.map fun d => (d.id, d.entityID)
  | .readingLines _ _ docs id row => (id, row.entityID) :: docs.map fun d => (d.id, d.entityID)
  | .demoting _ _ verdicts => verdicts.map fun v => (v.1.id, v.1.entityID)
  | _ => []

/-- The clients a pass has evaluated, with what ran, and how many revisions were saved then. -/
def Task.evaluated : Task → Option (ℕ × List (Uuid × List Uuid))
  | .demoting _ n verdicts => some (n, verdicts.map fun v => (v.1.entityID, v.2.customIDs))
  | _ => none

/-- The invoice is validated, and the revision one that it has to answer. -/
structure Due (db : Db) (i : Uuid) (r : Row) (q : Revision) : Prop where
  row : db.invoices.get? i = some r
  status : r.status = .validated
  blocks : q.blocks = true
  covers : q.covers r.entityID = true

structure SavesAnswered (σ : Store) : Prop where
  ordered : Ordered σ.db.revisions
  marked : ∀ {i r q}, Due σ.db i r q → q ∈ σ.db.revisions → q.rechecked = true →
    Answered σ.journal σ.db.revisions i r.entityID q
  queued : ∀ {newer older i n}, σ.journal = newer ++ .queued i n :: older →
    n ≤ σ.db.revisions.length ∧ ∃ r, σ.db.invoices.get? i = some r ∧
      ∀ q ∈ σ.db.revisions.take n, q.blocks = true → q.covers r.entityID = true →
        Answered older σ.db.revisions i r.entityID q

section
variable (sha256 : String → String)

structure LockKnows (σ : Store) (t : Task) : Prop where
  checked : Checked sha256 σ.db t
  current : ∀ {j r}, t.judgement = some j → σ.db.invoices.get? j.doc.id = some r →
    ∀ q ∈ currentTx σ.db.revisions r.entityID, q.id ∈ j.ev.customIDs
  free : ∀ {id n}, t.foundFree id n → n ≤ σ.db.revisions.length ∧ ∀ {r q}, Due σ.db id r q →
    q ∈ σ.db.revisions.take n → Answered σ.journal σ.db.revisions id r.entityID q

structure PassKnowsRules (σ : Store) (t : Task) : Prop where
  listed : ∀ {pending}, t = .listing pending → ∀ q ∈ pending, ∃ p ∈ σ.db.revisions, p.core = q.core
  marks : ∀ {marks ids}, t.pass = some (marks, ids) → ∀ m ∈ marks, ∃ p ∈ σ.db.revisions, p.id = m
  unsettled : ∀ {marks ids}, t.pass = some (marks, ids) → ∀ {i r q}, Due σ.db i r q →
    q ∈ σ.db.revisions → q.id ∈ marks →
      Answered σ.journal σ.db.revisions i r.entityID q ∨ i ∈ ids
  clients : ∀ e ∈ t.clients, ∃ r, σ.db.invoices.get? e.1 = some r ∧ r.entityID = e.2
  evaluated : ∀ {n evs}, t.evaluated = some (n, evs) → n ≤ σ.db.revisions.length ∧
    ∀ e ∈ evs, e.2 = (currentTx (σ.db.revisions.take n) e.1).map Revision.id

structure SaveKnows (σ : Store) (t : Task) : Prop where
  locked : LockKnows sha256 σ t
  pass : PassKnowsRules σ t

end

variable {sha256 : String → String} {σ σ' : Store} {t t' u : Task} {a : Action} {c : Commit}
  {es es' : List Entry} {revs revs' : List Revision} {i client : Uuid} {q q' : Revision}

/-! ### Answers are kept -/

def Grows (revs revs' : List Revision) : Prop := history revs <+: history revs'

theorem Grows.of_eq (h : history revs = history revs') : Grows revs revs' :=
  ⟨[], by rw [List.append_nil, h]⟩

theorem Grows.length_le (h : Grows revs revs') : revs.length ≤ revs'.length := by
  have hlen := List.IsPrefix.length_le h
  rwa [history_length, history_length] at hlen

theorem Grows.history_take (h : Grows revs revs') {n : ℕ} (hn : n ≤ revs.length) :
    history (revs'.take n) = history (revs.take n) := by
  obtain ⟨more, hmore⟩ := h
  rw [CustomRule.history_take, CustomRule.history_take, ← hmore,
    List.take_append_of_le_length (by rwa [history_length])]

theorem mem_of_history (h : history revs = history revs') (hq : q ∈ revs') :
    ∃ p ∈ revs, p.core = q.core := by
  have hmem : q.core ∈ history revs := by
    rw [h]
    exact List.mem_map_of_mem hq
  exact List.mem_map.mp hmem

theorem Grows.mem (h : Grows revs revs') (hq : q ∈ revs) : ∃ p ∈ revs', p.core = q.core := by
  have hmem : q.core ∈ history revs' := h.subset (List.mem_map_of_mem hq)
  exact List.mem_map.mp hmem

theorem core_id (h : q.core = q'.core) : q.id = q'.id := by
  have hids : q.core.id = q'.core.id := by rw [h]
  exact hids

theorem core_due (h : q.core = q'.core) :
    q.blocks = q'.blocks ∧ q.covers client = q'.covers client := by
  have hblocks : q.core.blocks = q'.core.blocks := by rw [h]
  have hcovers : q.core.covers client = q'.core.covers client := by rw [h]
  exact ⟨hblocks, hcovers⟩

theorem Due.core {db : Db} {r : Row} (h : Due db i r q) (hcore : q.core = q'.core) :
    Due db i r q' := by
  obtain ⟨hblocks, hcovers⟩ : q.blocks = q'.blocks ∧ q.covers r.entityID = q'.covers r.entityID :=
    core_due hcore
  exact ⟨h.row, h.status, hblocks ▸ h.blocks, hcovers ▸ h.covers⟩

theorem Answered.grows (h : Answered es revs i client q) (hgrows : Grows revs revs')
    (hcore : q.core = q'.core) : Answered es revs' i client q' := by
  rcases h with ⟨ran, n, hlast, hn, hran⟩ | ⟨marks, ran, n, hmem, hid, hn, hran⟩
  · refine .inl ⟨ran, n, hlast, hn.trans hgrows.length_le, ?_⟩
    rcases hran with hran | hretired
    · left
      obtain ⟨more, hmore⟩ := hgrows
      rw [← ranSince_history] at hran ⊢
      rw [← hmore, ← hcore]
      exact ranSince_append hran
    · right
      rw [← retired_history] at hretired ⊢
      rwa [hgrows.history_take hn, ← hcore]
  · refine .inr ⟨marks, ran, n, hmem, core_id hcore ▸ hid, hn.trans hgrows.length_le, ?_⟩
    rw [hran]
    exact currentIDs_of_history (hgrows.history_take hn).symm

theorem Answered.later (h : Answered es revs i client q)
    (hlast : lastVerdict es' i = lastVerdict es i) (hsub : es ⊆ es') :
    Answered es' revs i client q := by
  rcases h with ⟨ran, n, hran, hrest⟩ | ⟨marks, ran, n, hmem, hrest⟩
  · exact .inl ⟨ran, n, hlast.trans hran, hrest⟩
  · exact .inr ⟨marks, ran, n, hsub hmem, hrest⟩

/-! ### What a commit does to the revisions and the journal -/

theorem callLocks_revisions {q : Request} {ls : List Lock} (hq : callLocks q = some ls)
    (hmay : q.may .revisions) : ∃ caller id s, q = .saveRule caller id s := by
  cases q with
  | saveRule caller id s => exact ⟨caller, id, s, rfl⟩
  | markRechecked ids => cases hq
  | publishPolicy caller id runIDs now => cases hq
  | batchSubmit caller requestKey ids => cases hq
  | applyValidation id caller ev runID now => cases hq
  | transition id target caller =>
    rcases hmay with hm | ⟨hm, -⟩ | ⟨hm, -⟩ <;> cases hm
  | _ => exact nomatch hmay

theorem Writes.revisions (h : Writes sha256 σ t c σ' t') (ht : Checked sha256 σ.db t) :
    σ'.db.revisions = σ.db.revisions ∨
      (∃ caller id s, c = .call (.saveRule caller id s) ∧
        save σ.db.directory σ.db.revisions caller id s = .ok σ'.db.revisions) ∨
      ∃ s n, t = .demoting s n [] ∧ s.todo = [] ∧ σ'.journal = σ.journal ∧
        σ'.db.invoices = σ.db.invoices ∧
        σ'.db.revisions = markRechecked σ.db.revisions s.marks := by
  have hrest : (∀ runIDs now, c ≠ .publish runIDs now) → ¬ commitMay t c .revisions →
      σ'.db.revisions = σ.db.revisions := fun hne hno => (h.effects ht hne).revisions_eq hno
  cases h with
  | @call q ls db' hq hok =>
    by_cases hmay : q.may .revisions
    · obtain ⟨caller, id, s, rfl⟩ := callLocks_revisions hq hmay
      simp only [Request.call, bind_eq_ok, pure_eq_ok] at hok
      obtain ⟨revisions, hsave, rfl⟩ := hok
      exact .inr (.inl ⟨caller, id, s, rfl, hsave⟩)
    · exact .inl (hrest (by rintro _ _ ⟨⟩) hmay)
  | publish hok =>
    simp only [sweepLocked, check_eq_ok] at hok
    exact .inl (sweep_frame hok.2).2.revisions
  | stamp => exact .inl (hrest (by rintro _ _ ⟨⟩) (by rintro ⟨⟩))
  | promote =>
    refine .inl (hrest (by rintro _ _ ⟨⟩) ?_)
    rintro (hm | hm) <;> cases hm
  | batch =>
    refine .inl (hrest (by rintro _ _ ⟨⟩) ?_)
    rintro ⟨id, -, hm | hm⟩ <;> cases hm
  | queue =>
    refine .inl (hrest (by rintro _ _ ⟨⟩) ?_)
    rintro (hm | hm) <;> cases hm
  | requeue => exact .inl (hrest (by rintro _ _ ⟨⟩) (by rintro ⟨⟩))
  | pass => exact .inl rfl
  | skip => exact .inl rfl
  | demote => exact .inl (hrest (by rintro _ _ ⟨⟩) (by rintro ⟨-, ⟨⟩⟩))
  | mark htodo => exact .inr (.inr ⟨_, _, rfl, htodo, rfl, rfl, rfl⟩)

theorem Writes.grows (h : Writes sha256 σ t c σ' t') (ht : Checked sha256 σ.db t) :
    Grows σ.db.revisions σ'.db.revisions := by
  rcases h.revisions ht with hsame | ⟨caller, id, s, -, hsave⟩ | ⟨s, n, -, -, -, -, hmark⟩
  · exact .of_eq (by rw [hsame])
  · obtain ⟨p, hp, -⟩ := save_spec hsave
    rw [hp, Grows, history, history, List.map_append]
    exact List.prefix_append _ _
  · exact .of_eq (by rw [hmark, markRechecked_history])

theorem Writes.ordered (h : Writes sha256 σ t c σ' t') (ht : Checked sha256 σ.db t)
    (ho : Ordered σ.db.revisions) : Ordered σ'.db.revisions := by
  rcases h.revisions ht with hsame | ⟨caller, id, s, -, hsave⟩ | ⟨s, n, -, -, -, -, hmark⟩
  · rwa [hsame]
  · exact ho.save hsave
  · rw [hmark, ← Ordered.history_iff, markRechecked_history, Ordered.history_iff]
    exact ho

theorem Writes.journal (h : Writes sha256 σ t c σ' t') : ∃ es, σ'.journal = es ++ σ.journal ∧
    ∀ i, (∀ j, t.judgement = some j → j.doc.id ≠ i) →
      es.findSome? (Entry.verdictOn i) = none := by
  have hjudged : ∀ {j : Judgement} {x y : String} {ran : List Uuid} {n : ℕ},
      t.judgement = some j → ∀ i, (∀ j, t.judgement = some j → j.doc.id ≠ i) →
        [Entry.judged j.doc.id x y ran n].findSome? (Entry.verdictOn i) = none := by
    intro j x y ran n hj i hne
    simp [Entry.verdictOn, hne j hj]
  cases h with
  | call => exact ⟨[], rfl, fun _ _ => rfl⟩
  | stamp hb hok =>
    obtain ⟨db', -, rfl⟩ := commitJudgement_spec hok
    exact ⟨[_], rfl, hjudged rfl⟩
  | promote hok =>
    obtain ⟨db', -, rfl⟩ := commitJudgement_spec hok
    exact ⟨[_], rfl, hjudged rfl⟩
  | publish => exact ⟨[], rfl, fun _ _ => rfl⟩
  | batch =>
    refine ⟨_, rfl, fun i _ => List.findSome?_eq_none_iff.mpr fun e he => ?_⟩
    obtain ⟨item, -, rfl⟩ := List.mem_map.mp he
    rfl
  | queue => exact ⟨[_], rfl, fun _ _ => rfl⟩
  | requeue => exact ⟨[], rfl, fun _ _ => rfl⟩
  | pass => exact ⟨[_], rfl, fun _ _ => rfl⟩
  | skip => exact ⟨[], rfl, fun _ _ => rfl⟩
  | demote => exact ⟨[_], rfl, fun _ _ => rfl⟩
  | mark => exact ⟨[], rfl, fun _ _ => rfl⟩

theorem Writes.journal_subset (h : Writes sha256 σ t c σ' t') : σ.journal ⊆ σ'.journal := by
  obtain ⟨es, hes, -⟩ := h.journal
  rw [hes]
  exact List.subset_append_right _ _

theorem Writes.lastVerdict_eq (h : Writes sha256 σ t c σ' t') {i : Uuid}
    (hne : ∀ j, t.judgement = some j → j.doc.id ≠ i) :
    lastVerdict σ'.journal i = lastVerdict σ.journal i := by
  obtain ⟨es, hes, hnone⟩ := h.journal
  rw [lastVerdict, hes, List.findSome?_append, hnone i hne, Option.none_or]
  rfl

theorem judgement_draft {j : Judgement} (ht : Checked sha256 σ.db t) (hj : t.judgement = some j) :
    .invoice j.doc.id ∈ t.holds ∧ .saves false ∈ t.holds ∧
      ∃ row, σ.db.invoices.get? j.doc.id = some row ∧ row.status = .draft := by
  cases t with
  | judged j' =>
    cases hj
    obtain ⟨-, row, hrow, hs, -⟩ := ht
    exact ⟨List.mem_cons_of_mem _ List.mem_cons_self, List.mem_cons_self, row, hrow, hs⟩
  | arming j' versions =>
    cases hj
    obtain ⟨-, -, row, hrow, hs, -⟩ := ht
    exact ⟨List.mem_cons_of_mem _ List.mem_cons_self, List.mem_cons_self, row, hrow, hs⟩
  | _ => cases hj

theorem Writes.entityID (h : Writes sha256 σ t c σ' t') (ht : Checked sha256 σ.db t) {i : Uuid}
    {r : Row} (hr : σ.db.invoices.get? i = some r) :
    ∃ r', σ'.db.invoices.get? i = some r' ∧ r'.entityID = r.entityID := by
  by_cases hpublish : ∃ runIDs now, c = .publish runIDs now
  · obtain ⟨runIDs, now, rfl⟩ := hpublish
    exact ⟨r, by rw [h.publish_invoices, hr], rfl⟩
  · refine (h.effects ht ?_).entityID hr
    rintro runIDs now rfl
    exact hpublish ⟨runIDs, now, rfl⟩

theorem Writes.answered (h : Writes sha256 σ t c σ' t') (hI : SavesAnswered σ)
    (ht : LockKnows sha256 σ t) {i : Uuid} {r' : Row} (hr' : σ'.db.invoices.get? i = some r')
    (hs' : r'.status = .validated) :
    (∃ r, σ.db.invoices.get? i = some r ∧ r.status = .validated ∧ r.entityID = r'.entityID ∧
      lastVerdict σ'.journal i = lastVerdict σ.journal i) ∨
    ∀ q ∈ σ'.db.revisions, q.blocks = true → q.covers r'.entityID = true →
      Answered σ'.journal σ'.db.revisions i r'.entityID q := by
  obtain ⟨r, hr, -, hcases⟩ := h.validated ht.checked hr' hs'
  obtain ⟨r'', hr'', hent⟩ := h.entityID ht.checked hr
  obtain rfl : r'' = r' := Option.some.inj (hr''.symm.trans hr')
  rcases hcases with ⟨hs, -⟩ | ⟨j, versions, rfl, rfl, -, -⟩
  · refine .inl ⟨r, hr, hs, hent.symm, h.lastVerdict_eq fun j hj heq => ?_⟩
    obtain ⟨-, -, row, hrow, hdraft⟩ := judgement_draft ht.checked hj
    rw [heq, hr] at hrow
    cases hrow
    rw [hs] at hdraft
    cases hdraft
  · right
    have hwrite := h
    cases h with
    | promote hok =>
      obtain ⟨row, row', -, -, -, -, harm, hj⟩ := promote_spec ht.checked hok
      have hrevs : σ'.db.revisions = σ.db.revisions := (armTx_sameRules harm).revisions
      intro q hq hb hc
      rw [hrevs] at hq ⊢
      rw [hent] at hc ⊢
      have hran := ranSince_or_retired hI.ordered hq hb hc (ht.current rfl hr)
      refine .inl ⟨_, _, ?_, le_refl _, by rwa [List.take_length]⟩
      rw [lastVerdict, hj, List.findSome?_cons]
      simp [Entry.verdictOn]

/-! ### Statements -/

theorem mem_validatedIDs {db : Db} {keep : Row → Bool} {r : Row}
    (hr : db.invoices.get? i = some r) (hs : r.status = .validated) (hkeep : keep r = true) :
    i ∈ validatedIDs db keep := by
  refine List.mem_insertionSort _ |>.mpr (List.mem_map.mpr ⟨(i, r), ?_, rfl⟩)
  exact List.mem_filter.mpr ⟨Table.mem_rows.mpr hr, by simp [hs, hkeep]⟩

theorem LockKnows.reads {s : Statement} (hI : SavesAnswered σ) (ht : LockKnows sha256 σ t)
    (h : Reads sha256 σ.db t s t') : LockKnows sha256 σ t' := by
  have hpending : ∀ {id : Uuid}, rulePendingFor σ.db id = false → ∀ {r q}, Due σ.db id r q →
      q ∈ σ.db.revisions.take σ.db.revisions.length →
        Answered σ.journal σ.db.revisions id r.entityID q := by
    intro id hno r q hdue hq
    rw [List.take_length] at hq
    simp only [rulePendingFor, hdue.row, rulesPendingFor, List.any_eq_false] at hno
    have hmark := hno q hq
    rw [hdue.covers, Bool.and_true] at hmark
    exact hI.marked hdue hq (by simpa using hmark)
  refine ⟨ht.checked.reads h, ?_, ?_⟩
  · intro j r hj hr q hq
    cases h with
    | judge hcheck =>
      cases hj
      obtain ⟨row, hrow, -, -, hrules, -⟩ := checkValidation_spec hcheck
      obtain rfl : r = row := Option.some.inj (hr.symm.trans hrow)
      simp only [rulesUnchanged, Bool.and_eq_true, List.all_eq_true] at hrules
      simpa using hrules.2 q hq
    | versions hb => exact ht.current (by rw [← hj]; rfl) hr q hq
    | _ => cases hj
  · intro id n hfree
    cases h with
    | batchPending =>
      obtain ⟨-, hno, rfl⟩ := hfree
      exact ⟨le_refl _, hpending hno⟩
    | queuePending =>
      obtain ⟨rfl, hno, rfl⟩ := hfree
      exact ⟨le_refl _, hpending hno⟩
    | queueClear => exact ht.free hfree
    | _ => exact hfree.elim

theorem PassKnowsRules.start {s : Sweep}
    (hmarks : ∀ m ∈ s.marks, ∃ p ∈ σ.db.revisions, p.id = m)
    (hids : ∀ {i r q}, Due σ.db i r q → q ∈ σ.db.revisions → q.id ∈ s.marks →
      Answered σ.journal σ.db.revisions i r.entityID q ∨ i ∈ s.todo) :
    PassKnowsRules σ s.start where
  listed hpending := by cases hpending
  marks hpass := by
    cases hpass
    exact hmarks
  unsettled hpass := by
    cases hpass
    intro i r q hdue hq hid
    rcases hids hdue hq hid with hans | hmem
    · exact .inl hans
    · right
      rw [List.map_nil, List.append_nil, List.mem_append, or_comm, ← List.mem_append,
        List.take_append_drop]
      exact hmem
  clients e he := by cases he
  evaluated heval := by cases heval

theorem PassKnowsRules.reads {s : Statement} (hI : SavesAnswered σ) (ht : PassKnowsRules σ t)
    (h : Reads sha256 σ.db t s t') : PassKnowsRules σ t' := by
  have hnothing : t'.pass = none → t'.clients = [] → t'.evaluated = none →
      (∀ pending, t' ≠ .listing pending) → PassKnowsRules σ t' := by
    intro hpass hclients heval hlist
    refine ⟨fun hp => absurd hp (hlist _), fun hp => ?_, fun hp => ?_, fun e he => ?_, fun he => ?_⟩
    · rw [hpass] at hp
      cases hp
    · rw [hpass] at hp
      cases hp
    · rw [hclients] at he
      cases he
    · rw [heval] at he
      cases he
  cases h with
  | recheck =>
    refine ⟨fun hp q hq => ?_, fun hp => (nomatch hp), fun hp => (nomatch hp),
      fun e he => (nomatch he), fun he => (nomatch he)⟩
    cases hp
    exact ⟨q, (List.mem_filter.mp hq).1, rfl⟩
  | revalidate => exact .start (fun m hm => (nomatch hm)) fun _ _ hm => (nomatch hm)
  | recheckCovered => exact .start (fun m hm => (nomatch hm)) fun _ _ hm => (nomatch hm)
  | @list pending =>
    refine .start (fun m hm => ?_) fun {i r q} hdue hq hid => .inr ?_
    · obtain ⟨q, hq, rfl⟩ := List.mem_map.mp hm
      obtain ⟨p, hp, hcore⟩ := ht.listed rfl q hq
      exact ⟨p, hp, core_id hcore⟩
    · obtain ⟨p, hp, hpid⟩ := List.mem_map.mp hid
      obtain ⟨p', hp', hcore⟩ := ht.listed rfl p hp
      obtain rfl : p' = q := hI.ordered.eq_of_id hp' hq ((core_id hcore).trans hpid)
      have hcovers : p.covers r.entityID = true := by
        rw [← (core_due hcore).2]
        exact hdue.covers
      change i ∈ validatedIDs σ.db fun r => pending.any fun q => q.covers r.entityID
      refine mem_validatedIDs hdue.row hdue.status ?_
      exact List.any_eq_true.mpr ⟨p, hp, hcovers⟩
  | nextChunk =>
    refine .start (ht.marks rfl) fun hdue hq hid => ?_
    rcases ht.unsettled rfl hdue hq hid with hans | hmem
    · exact .inl hans
    · exact .inr (by simpa using hmem)
  | @next s id i chunk docs row hrow =>
    refine ⟨fun hp => (nomatch hp), fun hp => ?_, fun hp => ?_, fun e he => ?_,
      fun he => (nomatch he)⟩
    · cases hp
      exact ht.marks rfl
    · cases hp
      exact ht.unsettled rfl
    · rcases List.mem_cons.mp he with rfl | he
      · exact ⟨row, hrow, rfl⟩
      · exact ht.clients e he
  | @nextLines s id chunk docs row r hr =>
    refine ⟨fun hp => (nomatch hp), fun hp => ?_, fun hp => ?_, fun e he => ?_,
      fun he => (nomatch he)⟩
    · cases hp
      exact ht.marks rfl
    · cases hp
      intro i r q hdue hq hid
      rcases ht.unsettled rfl hdue hq hid with hans | hmem
      · exact .inl hans
      · right
        simp only [List.mem_append, List.mem_cons, List.map_append, List.map_cons, List.map_nil,
          List.not_mem_nil, or_false] at hmem ⊢
        tauto
    · simp only [Task.clients, List.map_append, List.map_cons, List.map_nil, List.mem_append,
        List.mem_singleton] at he
      rcases he with he | rfl
      · exact ht.clients e (List.mem_cons_of_mem _ he)
      · exact ht.clients _ List.mem_cons_self
  | @evaluateChunk s docs verdict stamp =>
    refine ⟨fun hp => (nomatch hp), fun hp => ?_, fun hp => ?_, fun e he => ?_, fun he => ?_⟩
    · cases hp
      exact ht.marks rfl
    · cases hp
      intro i r q hdue hq hid
      rcases ht.unsettled rfl hdue hq hid with hans | hmem
      · exact .inl hans
      · exact .inr (by simpa [List.map_map] using hmem)
    · refine ht.clients e ?_
      simpa [Task.clients, List.map_map] using he
    · cases he
      refine ⟨le_refl _, fun e he => ?_⟩
      obtain ⟨v, hv, rfl⟩ := List.mem_map.mp he
      obtain ⟨d, -, rfl⟩ := List.mem_map.mp hv
      rw [List.take_length]
      rfl
  | _ => exact hnothing rfl rfl rfl nofun

/-! ### Commits -/

theorem core_of_id (ho : Ordered σ.db.revisions) (hq : q ∈ σ.db.revisions)
    (hgrows : Grows revs σ.db.revisions) {p : Revision} (hp : p ∈ revs) (hid : p.id = q.id) :
    p.core = q.core := by
  obtain ⟨p', hp', hcore⟩ := hgrows.mem hp
  obtain rfl : p' = q := ho.eq_of_id hp' hq ((core_id hcore).trans hid)
  exact hcore.symm

theorem PassKnowsRules.writes (hI : SavesAnswered σ) (ht : LockKnows sha256 σ t)
    (hu : PassKnowsRules σ u) (h : Writes sha256 σ t c σ' t') : PassKnowsRules σ' u := by
  have hgrows := h.grows ht.checked
  have ho := h.ordered ht.checked hI.ordered
  refine ⟨fun hp q hq => ?_, fun hp m hm => ?_, fun hp => ?_, fun e he => ?_, fun he => ?_⟩
  · obtain ⟨p, hpr, hcore⟩ := hu.listed hp q hq
    obtain ⟨p', hp', hcore'⟩ := hgrows.mem hpr
    exact ⟨p', hp', hcore'.trans hcore⟩
  · obtain ⟨p, hpr, hid⟩ := hu.marks hp m hm
    obtain ⟨p', hp', hcore⟩ := hgrows.mem hpr
    exact ⟨p', hp', (core_id hcore).trans hid⟩
  · intro i r q hdue hq hid
    rcases h.answered hI ht hdue.row hdue.status with ⟨p, hrow, hps, hent, hlast⟩ | hans
    · -- the revision was there when the pass read its id
      obtain ⟨q₀, hq₀, hid₀⟩ := hu.marks hp q.id hid
      have hcore := core_of_id ho hq hgrows hq₀ hid₀
      have hdue₀ : Due σ.db i p q₀ := by
        obtain ⟨hb, hc⟩ : q₀.blocks = q.blocks ∧ q₀.covers r.entityID = q.covers r.entityID :=
          core_due hcore
        exact ⟨hrow, hps, hb.trans hdue.blocks, by rw [hent, hc, hdue.covers]⟩
      rcases hu.unsettled hp hdue₀ hq₀ (by rwa [hid₀]) with hans | hmem
      · left
        rw [hent] at hans
        exact (hans.grows hgrows hcore).later hlast h.journal_subset
      · exact .inr hmem
    · exact .inl (hans q hq hdue.blocks hdue.covers)
  · obtain ⟨r, hr, hent⟩ := hu.clients e he
    obtain ⟨r', hr', hent'⟩ := h.entityID ht.checked hr
    exact ⟨r', hr', hent'.trans hent⟩
  · obtain ⟨hn, hran⟩ := hu.evaluated he
    refine ⟨hn.trans hgrows.length_le, fun e he => ?_⟩
    rw [hran e he]
    exact currentIDs_of_history (hgrows.history_take hn).symm

theorem take_core (hgrows : Grows revs revs') {n : ℕ} (hn : n ≤ revs.length)
    (hq : q ∈ revs'.take n) : ∃ p ∈ revs.take n, p.core = q.core :=
  mem_of_history (hgrows.history_take hn).symm hq

theorem foundFree_holds {id : Uuid} {n : ℕ} (h : u.foundFree id n) : .invoice id ∈ u.holds := by
  cases u with
  | queuePending i caller pending m =>
    obtain ⟨rfl, -, -⟩ := h
    exact List.mem_cons_self
  | queueReady i caller pending clear m =>
    obtain ⟨rfl, -, -⟩ := h
    exact List.mem_cons_self
  | batchReady b clear pending m => exact List.mem_map.mpr ⟨id, h.1, rfl⟩
  | _ => exact h.elim

theorem Writes.save_excluded (h : Writes sha256 σ t c σ' t') (ht : Checked sha256 σ.db t)
    (hapart : (protocol sha256).Apart (t.holds ++ needs sha256 σ t (.write c)) u.holds)
    (hu : .saves false ∈ u.holds) : history σ'.db.revisions = history σ.db.revisions := by
  rcases h.revisions ht with hsame | ⟨caller, id, s, rfl, -⟩ | ⟨s, n, -, -, -, -, hmark⟩
  · rw [hsame]
  · have hneeds : .saves true ∈ t.holds ++ needs sha256 σ t (.write (.call (.saveRule caller id s))) :=
      List.mem_append_right _ (List.mem_singleton_self _)
    have hconflict : Lock.conflicts (.saves true) (.saves false) = false := hapart _ hneeds _ hu
    cases hconflict
  · rw [hmark, markRechecked_history]

theorem LockKnows.others (ht : LockKnows sha256 σ t) (hu : LockKnows sha256 σ u)
    (h : Writes sha256 σ t c σ' t')
    (hapart : (protocol sha256).Apart (t.holds ++ needs sha256 σ t (.write c)) u.holds) :
    LockKnows sha256 σ' u := by
  have hgrows := h.grows ht.checked
  refine ⟨hu.checked.others ht.checked h hapart, fun {j r} hj hr q hq => ?_, fun {id n} hfree => ?_⟩
  · obtain ⟨hlock, hsaves, row, hrow, -⟩ := judgement_draft hu.checked hj
    have hkept := h.keeps_locked ht.checked hapart hlock hrow
    obtain rfl : r = row := Option.some.inj (hr.symm.trans hkept)
    have hids : (currentTx σ'.db.revisions r.entityID).map Revision.id =
        (currentTx σ.db.revisions r.entityID).map Revision.id :=
      currentIDs_of_history (h.save_excluded ht.checked hapart hsaves)
    have hmem : q.id ∈ (currentTx σ'.db.revisions r.entityID).map Revision.id :=
      List.mem_map_of_mem hq
    rw [hids] at hmem
    obtain ⟨p, hp, hid⟩ := List.mem_map.mp hmem
    exact hid ▸ hu.current hj hrow p hp
  · obtain ⟨hn, hans⟩ := hu.free hfree
    have hlock := foundFree_holds hfree
    refine ⟨hn.trans hgrows.length_le, fun {r q} hdue hq => ?_⟩
    obtain ⟨q₀, hq₀, hcore⟩ := take_core hgrows hn hq
    have hfresh : ∀ j, t.judgement = some j → j.doc.id ≠ id := by
      rintro j hj rfl
      exact not_mem_of_apart hapart hlock
        (List.mem_append_left _ (judgement_draft ht.checked hj).1)
    have hrow : σ.db.invoices.get? id = some r := by
      rcases h.validated ht.checked hdue.row hdue.status with
        ⟨r₀, hr₀, -, -⟩
      have hkept := h.keeps_locked ht.checked hapart hlock hr₀
      rw [hr₀, Option.some.inj (hkept.symm.trans hdue.row)]
    have hdue₀ : Due σ.db id r q₀ := Due.core ⟨hrow, hdue.status, hdue.blocks, hdue.covers⟩ hcore.symm
    exact ((hans hdue₀ hq₀).grows hgrows hcore).later (h.lastVerdict_eq hfresh) h.journal_subset

theorem LockKnows.writes (h : Writes sha256 σ t c σ' t') : LockKnows sha256 σ' t' := by
  refine ⟨Checked.writes h, fun {j r} hj => ?_, fun {id n} hfree => ?_⟩
  · cases h <;> cases hj
  · cases h <;> exact hfree.elim

theorem PassKnowsRules.settled (hI : SavesAnswered σ) (ht : SaveKnows sha256 σ t)
    (h : Writes sha256 σ t c σ' t') : PassKnowsRules σ' t' := by
  have hkept := ht.pass.writes hI ht.locked h
  have hidle : t' = .idle → PassKnowsRules σ' t' := by
    rintro rfl
    exact ⟨fun hp => (nomatch hp), fun hp => (nomatch hp), fun hp => (nomatch hp),
      fun e he => (nomatch he), fun he => (nomatch he)⟩
  -- the rest of the chunk, once the head is answered or off the validated invoices
  have hrest : ∀ {s : Sweep} {n : ℕ} {doc : Document} {ev : Evaluation}
      {rest : List (Document × Evaluation)}, t = .demoting s n ((doc, ev) :: rest) →
      t' = .demoting s n rest →
      (∀ {r q}, Due σ'.db doc.id r q → q ∈ σ'.db.revisions → q.id ∈ s.marks →
        Answered σ'.journal σ'.db.revisions doc.id r.entityID q) → PassKnowsRules σ' t' := by
    rintro s n doc ev rest rfl rfl hhead
    refine ⟨fun hp => (nomatch hp), fun hp => ?_, fun hp => ?_, fun e he => ?_, fun he => ?_⟩
    · cases hp
      exact hkept.marks rfl
    · cases hp
      intro i r q hdue hq hid
      rcases hkept.unsettled rfl hdue hq hid with hans | hmem
      · exact .inl hans
      · simp only [List.map_cons, List.mem_append, List.mem_cons] at hmem ⊢
        rcases hmem with hmem | rfl | hmem
        · exact .inr (.inl hmem)
        · exact .inl (hhead hdue hq hid)
        · exact .inr (.inr hmem)
    · exact hkept.clients e (List.mem_cons_of_mem _ he)
    · cases he
      obtain ⟨hn, hran⟩ := hkept.evaluated rfl
      exact ⟨hn, fun e he => hran e (List.mem_cons_of_mem _ he)⟩
  cases h with
  | @pass s n doc ev rest hno =>
    refine hrest rfl rfl fun {r q} hdue hq hid => .inr ?_
    obtain ⟨hn, hran⟩ := hkept.evaluated rfl
    obtain ⟨p, hp, hent⟩ := hkept.clients _ List.mem_cons_self
    obtain rfl : r = p := Option.some.inj (hdue.row.symm.trans hp)
    refine ⟨s.marks, ev.customIDs, n, List.mem_cons_self, hid, hn, ?_⟩
    rw [hent]
    exact hran _ List.mem_cons_self
  | @skip s n doc ev rest hb hs =>
    refine hrest rfl rfl fun {r q} hdue _ _ => absurd ?_ hs
    rw [statusOf_eq hdue.row, hdue.status]
  | @demote s n doc ev rest db' row cause hb hrow hs hdb =>
    refine hrest rfl rfl fun {r q} hdue _ _ => ?_
    have hr := hdue.row
    rw [hdb, cancelLiveRunTx_invoices, Db.setInvoice_invoices, Table.get?_set_self] at hr
    cases hr
    cases hdue.status
  | _ => exact hidle rfl

/-! ### The store -/

theorem split_append {as bs newer older : List Entry} {e : Entry}
    (h : as ++ bs = newer ++ e :: older) :
    (∃ mid, bs = mid ++ e :: older) ∨ ∃ mid, as = newer ++ e :: mid ∧ older = mid ++ bs := by
  rcases List.append_eq_append_iff.mp h with ⟨mid, hnewer, hbs⟩ | ⟨mid, has, hrest⟩
  · exact .inl ⟨mid, hbs⟩
  · cases mid with
    | nil => exact .inl ⟨[], by simpa using hrest.symm⟩
    | cons e' mid =>
      cases hrest
      exact .inr ⟨mid, has, rfl⟩

theorem Writes.queued (h : Writes sha256 σ t c σ' t') {newer older : List Entry} {i : Uuid} {n : ℕ}
    (hj : σ'.journal = newer ++ .queued i n :: older) :
    (∃ mid, σ.journal = mid ++ .queued i n :: older) ∨
    (t.foundFree i n ∧ statusOf σ.db i = .validated ∧ ∃ mid, older = mid ++ σ.journal ∧
      mid.findSome? (Entry.verdictOn i) = none) := by
  have hone : ∀ {e : Entry}, σ'.journal = e :: σ.journal → e ≠ .queued i n →
      ∃ mid, σ.journal = mid ++ .queued i n :: older := by
    intro e he hne
    rw [he] at hj
    cases newer with
    | nil =>
      cases hj
      exact absurd rfl hne
    | cons e' newer => exact ⟨newer, (List.cons.inj hj).2⟩
  cases h with
  | call => exact .inl ⟨newer, hj⟩
  | stamp hb hok =>
    obtain ⟨db', -, rfl⟩ := commitJudgement_spec hok
    exact .inl (hone rfl nofun)
  | promote hok =>
    obtain ⟨db', -, rfl⟩ := commitJudgement_spec hok
    exact .inl (hone rfl nofun)
  | publish => exact .inl ⟨newer, hj⟩
  | @batch b clear pending m db' items hok =>
    rcases split_append hj with hold | ⟨mid, hnew, rfl⟩
    · exact .inl hold
    · right
      have hmem : Entry.queued i n ∈ queuedEntries m items := by
        rw [hnew]
        exact List.mem_append_right _ List.mem_cons_self
      obtain ⟨item, hitem, heq⟩ := List.mem_map.mp hmem
      cases heq
      obtain ⟨hitem, henq⟩ := List.mem_filter.mp hitem
      obtain ⟨hid, hskip⟩ := submitPositions_items hok item hitem
      obtain ⟨hstatus, hpending, -⟩ := skipReason_eq_none.mp (hskip henq)
      refine ⟨⟨hid, hpending, rfl⟩, hstatus, mid, rfl, List.findSome?_eq_none_iff.mpr fun e he => ?_⟩
      have hmem : e ∈ queuedEntries n items := by
        rw [hnew]
        exact List.mem_append_right _ (List.mem_cons_of_mem _ he)
      obtain ⟨item', -, rfl⟩ := List.mem_map.mp hmem
      rfl
  | @queue id caller pending clear m db' hok =>
    obtain ⟨hpending, -, -, r, hr, hs, -⟩ := transitionGated_queued hok
    cases newer with
    | nil =>
      cases hj
      exact .inr ⟨⟨rfl, hpending, rfl⟩, (statusOf_eq hr).trans hs, [], rfl, rfl⟩
    | cons e' newer => exact .inl ⟨newer, (List.cons.inj hj).2⟩
  | requeue => exact .inl ⟨newer, hj⟩
  | pass => exact .inl (hone rfl nofun)
  | skip => exact .inl ⟨newer, hj⟩
  | demote => exact .inl (hone rfl nofun)
  | mark => exact .inl ⟨newer, hj⟩

theorem SavesAnswered.writes (hI : SavesAnswered σ) (ht : SaveKnows sha256 σ t)
    (h : Writes sha256 σ t c σ' t') : SavesAnswered σ' := by
  have hgrows := h.grows ht.locked.checked
  refine ⟨h.ordered ht.locked.checked hI.ordered, fun {i r q} hdue hq hmark => ?_,
    fun {newer older i n} hj => ?_⟩
  · rcases h.answered hI ht.locked hdue.row hdue.status with ⟨p, hrow, hps, hent, hlast⟩ | hans
    · -- the revision as it was before the commit, answered as a marked one or by the pass
      have hback : ∀ {q₀}, q₀.core = q.core → Due σ.db i p q₀ := by
        intro q₀ hcore
        obtain ⟨hb, hc⟩ : q₀.blocks = q.blocks ∧ q₀.covers r.entityID = q.covers r.entityID :=
          core_due hcore
        exact ⟨hrow, hps, hb.trans hdue.blocks, by rw [hent, hc, hdue.covers]⟩
      have hlift : ∀ {q₀}, q₀.core = q.core →
          Answered σ.journal σ.db.revisions i p.entityID q₀ →
          Answered σ'.journal σ'.db.revisions i r.entityID q := by
        intro q₀ hcore hans
        rw [hent] at hans
        exact (hans.grows hgrows hcore).later hlast h.journal_subset
      rcases h.revisions ht.locked.checked with hsame | ⟨caller, id, s, -, hsave⟩ |
        ⟨s, n, rfl, htodo, -, -, hmarks⟩
      · rw [hsame] at hq
        exact hlift rfl (hI.marked (hback rfl) hq hmark)
      · obtain ⟨new, hrevs, -, -, -, hnew⟩ := save_spec hsave
        rw [hrevs, List.mem_append, List.mem_singleton] at hq
        rcases hq with hq | rfl
        · exact hlift rfl (hI.marked (hback rfl) hq hmark)
        · have hblocks := hdue.blocks
          unfold Revision.blocks at hblocks
          rw [hnew, hblocks] at hmark
          cases hmark
      · rw [hmarks] at hq
        obtain ⟨q₀, hq₀, hcore, hflag | hid⟩ := mem_markRechecked hq
        · exact hlift hcore (hI.marked (hback hcore) hq₀ (hflag.trans hmark))
        · rcases ht.pass.unsettled rfl (hback hcore) hq₀ hid with hans | hmem
          · exact hlift hcore hans
          · rw [htodo] at hmem
            cases hmem
    · exact hans q hq hdue.blocks hdue.covers
  · rcases h.queued hj with ⟨mid, hold⟩ | ⟨hfree, hs, mid, rfl, hnone⟩
    · obtain ⟨hn, r, hr, hans⟩ := hI.queued hold
      obtain ⟨r', hr', hent⟩ := h.entityID ht.locked.checked hr
      refine ⟨hn.trans hgrows.length_le, r', hr', fun q hq hb hc => ?_⟩
      obtain ⟨q₀, hq₀, hcore⟩ := take_core hgrows hn hq
      obtain ⟨hb₀, hc₀⟩ : q₀.blocks = q.blocks ∧ q₀.covers r.entityID = q.covers r.entityID :=
        core_due hcore
      rw [hent] at hc ⊢
      exact (hans q₀ hq₀ (hb₀.trans hb) (hc₀.trans hc)).grows hgrows hcore
    · obtain ⟨hn, hans⟩ := ht.locked.free hfree
      obtain ⟨r, hr, hv⟩ := statusOf_validated hs
      obtain ⟨r', hr', hent⟩ := h.entityID ht.locked.checked hr
      refine ⟨hn.trans hgrows.length_le, r', hr', fun q hq hb hc => ?_⟩
      obtain ⟨q₀, hq₀, hcore⟩ := take_core hgrows hn hq
      obtain ⟨hb₀, hc₀⟩ : q₀.blocks = q.blocks ∧ q₀.covers r.entityID = q.covers r.entityID :=
        core_due hcore
      rw [hent] at hc ⊢
      have hdue : Due σ.db i r q₀ := ⟨hr, hv, hb₀.trans hb, hc₀.trans hc⟩
      have hlast : lastVerdict (mid ++ σ.journal) i = lastVerdict σ.journal i := by
        rw [lastVerdict, List.findSome?_append, hnone, Option.none_or]
        rfl
      exact ((hans hdue hq₀).grows hgrows hcore).later hlast (List.subset_append_right _ _)

theorem saves_outline : (protocol sha256).Outline (fun _ _ _ => True) (fun _ _ _ _ => True)
    SavesAnswered (SaveKnows sha256) (fun _ _ => True) where
  store hI ht _ h := by
    obtain ⟨s, -, rfl, -⟩ | ⟨c, -, hw⟩ := next_cases sha256 h
    · exact hI
    · exact hI.writes ht hw
  own hI ht _ h := by
    obtain ⟨s, -, rfl, hr⟩ | ⟨c, -, hw⟩ := next_cases sha256 h
    · exact ⟨ht.locked.reads hI hr, ht.pass.reads hI hr⟩
    · exact ⟨.writes hw, .settled hI ht hw⟩
  other hI ht _ h hu _ _ hapart := by
    obtain ⟨s, -, rfl, -⟩ | ⟨c, rfl, hw⟩ := next_cases sha256 h
    · exact hu
    · exact ⟨ht.locked.others hu.locked hw hapart, hu.pass.writes hI ht.locked hw⟩
  pair _ _ _ _ _ _ _ _ := ⟨trivial, trivial⟩

/-- In every run from an empty workspace: an invoice queued by a transaction that read `n`
revisions has answered each of these that can block and covers its client, by its last verdict
or by a re-check that read it as pending. -/
theorem queued_has_answered {sha256 : String → String} {db : Db} {steps : List (ℕ × Action)}
    {w : World Store Task} (hinvoices : db.invoices = ∅) (hrevisions : db.revisions = [])
    (hrun : runFrom (protocol sha256).step (start db) steps = some w) {newer older : List Entry}
    {i : Uuid} {n : ℕ} (hj : w.store.journal = newer ++ .queued i n :: older) {r : Row}
    (hr : w.store.db.invoices.get? i = some r) {q : Revision}
    (hq : q ∈ w.store.db.revisions.take n) (hblocks : blockingCapable q.toRuleInput q.deleted = true)
    (hcovers : q.covers r.entityID = true) :
    JudgedSince older w.store.db.revisions i r.entityID q ∨
      RecheckedSince older w.store.db.revisions i r.entityID q := by
  have hstart : SavesAnswered (start db).store := by
    refine ⟨?_, fun {i r q} hdue => ?_, fun {newer older i n} hj => ?_⟩
    · have hnil : (start db).store.db.revisions = [] := hrevisions
      rw [hnil]
      exact List.Pairwise.nil
    · have hrow : db.invoices.get? i = some r := hdue.row
      rw [hinvoices, Table.get?_empty] at hrow
      cases hrow
    · cases newer <;> cases hj
  have hidle : SaveKnows sha256 (start db).store .idle := by
    refine ⟨⟨trivial, fun {j r} hj => (nomatch hj), fun {id n} hfree => hfree.elim⟩,
      fun hp => (nomatch hp), fun hp => (nomatch hp), fun hp => (nomatch hp),
      fun e he => (nomatch he), fun he => (nomatch he)⟩
  have hend := (Protocol.Holds.start (p := protocol sha256) hstart hidle trivial).run saves_outline
    (along_of_forall (fun _ _ => ⟨trivial, trivial, fun _ _ _ => trivial⟩) _ steps) hrun
  obtain ⟨-, row, hrow, hans⟩ := hend.store.queued hj
  obtain rfl : r = row := Option.some.inj (hr.symm.trans hrow)
  exact hans q hq hblocks hcovers

def dateRule (enabled : Bool) : RuleInput where
  type := "required"
  target := "issue_date"
  severity := .error
  message := "The issue date is missing."
  enabled := enabled

def ruleSaved : ℕ × Action := (0, .write (.call (.saveRule 1 71 (.create 70 (dateRule true)))))

def ruleDisabled : ℕ × Action := (0, .write (.call (.saveRule 1 72 (.update 70 (dateRule false)))))

def drafted40 : ℕ × Action := (0, .write (.call (.create 1 40 sampleInput)))

def judged40 : List (ℕ × Action) :=
  [(1, .read (.get 40)), (1, .read .getLines), (1, .read (.evaluate (fun _ => []) fun _ => 60)),
    (1, .read (.apply 1)), (1, .read .readVersions), (1, .write (.verdict 50 0))]

def queued40 : List (ℕ × Action) :=
  [(1, .read (.queue 40 1)), (1, .read .readPending), (1, .read .readClear), (1, .write .queue)]

def rechecked40 : List (ℕ × Action) :=
  [(2, .read .recheck), (2, .read .listValidated), (2, .read (.get 40)), (2, .read .getLines),
    (2, .read (.evaluate (fun _ => []) fun _ => 60)), (2, .write .settle), (2, .write .mark)]

def rechecked0 : List (ℕ × Action) :=
  [(2, .read .recheck), (2, .read .listValidated),
    (2, .read (.evaluate (fun _ => []) fun _ => 60)), (2, .write .mark)]

def queuedLast (n : ℕ) (w : World Store Task) : Bool :=
  w.store.journal.head? == some (.queued 40 n) &&
    (w.store.db.invoices.get? 40).any fun r => w.store.db.revisions.head?.any fun q =>
      q.id == 71 && q.blocks && q.covers r.entityID

theorem queuedLast_spec {n : ℕ} {w : World Store Task} (hn : 0 < n) (h : queuedLast n w = true) :
    ∃ older r q, w.store.journal = [] ++ .queued 40 n :: older ∧
      w.store.db.invoices.get? 40 = some r ∧ q ∈ w.store.db.revisions.take n ∧ q.id = 71 ∧
      blockingCapable q.toRuleInput q.deleted = true ∧ q.covers r.entityID = true := by
  obtain ⟨hhead, hrow⟩ := Bool.and_eq_true_iff.mp h
  obtain ⟨older, hj⟩ := List.head?_eq_some_iff.mp (beq_iff_eq.mp hhead)
  obtain ⟨r, hr, hrevs⟩ := (Option.any_eq_true _ _).mp hrow
  obtain ⟨q, hq, hdue⟩ := (Option.any_eq_true _ _).mp hrevs
  simp only [Bool.and_eq_true, beq_iff_eq] at hdue
  obtain ⟨rest, hrest⟩ := List.head?_eq_some_iff.mp hq
  have hmem : q ∈ w.store.db.revisions.take n := by
    obtain ⟨m, rfl⟩ := Nat.exists_eq_succ_of_ne_zero (Nat.ne_of_gt hn)
    rw [hrest, List.take_succ_cons]
    exact List.mem_cons_self
  exact ⟨older, r, q, hj, hr, hmem, hdue.1.1, hdue.1.2, hdue.2⟩

theorem queued_has_answered_sample :
    ∃ w older r q, runFrom (protocol id).step (start emptyDb)
        (ruleSaved :: drafted40 :: judged40 ++ rechecked40 ++ queued40) = some w ∧
      w.store.journal = [] ++ .queued 40 1 :: older ∧ q.id = 71 ∧
      (JudgedSince older w.store.db.revisions 40 r q ∨
        RecheckedSince older w.store.db.revisions 40 r q) := by
  have htest : (runFrom (protocol id).step (start emptyDb)
      (ruleSaved :: drafted40 :: judged40 ++ rechecked40 ++ queued40)).any (queuedLast 1) = true := by
    decide +kernel
  obtain ⟨w, hrun, hw⟩ := (Option.any_eq_true _ _).mp htest
  obtain ⟨older, r, q, hj, hr, hq, hid, hblocks, hcovers⟩ := queuedLast_spec (by decide) hw
  exact ⟨w, older, r.entityID, q, hrun, hj, hid,
    queued_has_answered rfl rfl hrun hj hr hq hblocks hcovers⟩

theorem disabled_before_verdict :
    ∃ w older r q, runFrom (protocol id).step (start emptyDb)
        (ruleSaved :: drafted40 :: ruleDisabled :: rechecked0 ++ judged40 ++ queued40) = some w ∧
      w.store.journal = [] ++ .queued 40 2 :: older ∧ w.store.db.invoices.get? 40 = some r ∧
      q ∈ w.store.db.revisions.take 2 ∧ blockingCapable q.toRuleInput q.deleted = true ∧
      q.covers r.entityID = true ∧
      (∀ ran n, lastVerdict older 40 = some (ran, n) →
        ranSince w.store.db.revisions q ran = false) ∧
      ∀ marks ran n, Entry.passed 40 marks ran n ∉ older := by
  have htest : (runFrom (protocol id).step (start emptyDb)
      (ruleSaved :: drafted40 :: ruleDisabled :: rechecked0 ++ judged40 ++ queued40)).any
        (fun w => queuedLast 2 w && w.store.journal.tail == [.judged 40 sampleFingerprint
          sampleFingerprint [] 2]) = true := by decide +kernel
  obtain ⟨w, hrun, hw⟩ := (Option.any_eq_true _ _).mp htest
  obtain ⟨hlast, htail⟩ := Bool.and_eq_true_iff.mp hw
  obtain ⟨older, r, q, hj, hr, hq, hid, hblocks, hcovers⟩ := queuedLast_spec (by decide) hlast
  have holder : older = [.judged 40 sampleFingerprint sampleFingerprint [] 2] := by
    rw [hj] at htail
    exact beq_iff_eq.mp htail
  refine ⟨w, older, r, q, hrun, hj, hr, hq, hblocks, hcovers, fun ran n hran => ?_,
    fun marks ran n hmem => ?_⟩
  · rw [holder] at hran
    cases hran
    simp [ranSince]
  · rw [holder, List.mem_singleton] at hmem
    cases hmem

end InvoiceOs.Concurrency
