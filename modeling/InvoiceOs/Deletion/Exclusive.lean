import InvoiceOs.Deletion.Calls

/-! In every interleaving the tables follow the life of the deletion: the cancel and the purge of
one schedule exclude each other, a purge that started is carried on, and a link is of one
schedule. -/

namespace InvoiceOs.Deletion

open Lib Approval Tenancy

/-! ### What is claimed of a state -/

def Schedule.stage (s : Schedule) : Stage :=
  if s.purgeStartedAt.isSome then .underway s.dueAt else .scheduled s.dueAt

def TenantRow.stage (r : TenantRow) : Stage :=
  match r.schedule with
  | none => .live
  | some s => s.stage

def Shows : Option TenantRow → Stage → Prop
  | none, g => ∃ d, g = .gone d
  | some r, g => r.stage = g

def queuedJobs (js : List Entry) : List Erasure :=
  js.filterMap fun
    | .queued _ job => some job
    | _ => none

def RowAt (σ : Store) (g : Stage) : Prop := ∃ r, σ.tenant = some r ∧ r.stage = g

def RowDue (σ : Store) (d : ℕ) : Prop := RowAt σ (.scheduled d) ∨ RowAt σ (.underway d)

section
variable (hash : String → String)

def LinkOf (σ : Store) (token : String) (d : ℕ) : Prop :=
  ∃ l ∈ σ.links, l.tokenHash = hash token ∧ l.expiresAt = d

/-- The links are read only while the row is there. -/
structure Linked (σ : Store) : Prop where
  hashes : (σ.links.map Link.tokenHash).Nodup
  minted : ∀ out, .scheduled out ∈ σ.journal → ∀ l ∈ out.links,
    σ.tenant = none ∨ LinkOf hash σ l.token out.dueAt
  spent : ∀ out token, .cancelled out (some token) ∈ σ.journal →
    σ.tenant = none ∨ LinkOf hash σ token out.dueAt
  own : ∀ out token, .cancelled out (some token) ∈ σ.journal →
    ∀ sched, .scheduled sched ∈ σ.journal → ∀ l ∈ sched.links, l.token = token →
      sched.dueAt = out.dueAt

structure Sound (σ : Store) : Prop where
  history : ∃ g, History σ.journal g ∧ Shows σ.tenant g
  staff : σ.staff = removals σ.journal
  erasures : σ.erasures.reverse = queuedJobs σ.journal
  house : dues σ.journal ≠ [] → σ.house = false
  linked : Linked hash σ

def Knows (σ : Store) : Task → Prop
  | .marked .. => RowAt σ .live ∧ σ.house = false
  | .issued _ now out => RowAt σ .live ∧ σ.house = false ∧ out.dueAt = now + dueAfter ∧
    (out.links.map fun l => hash l.token).Nodup ∧
    ∀ l ∈ out.links, hash l.token ∉ σ.links.map Link.tokenHash
  | .held _ _ none => RowAt σ .live
  | .held _ _ (some d) => RowDue σ d
  | .checked q d => RowDue σ d ∧ ∀ token, q.token = some token → LinkOf hash σ token d
  | .cleared q d => RowAt σ (.scheduled d) ∧ ∀ token, q.token = some token → LinkOf hash σ token d
  | .mailing q out => RowAt σ (.scheduled out.dueAt) ∧
    ∀ token, q.token = some token → LinkOf hash σ token out.dueAt
  | .purge _ (.due _ d) => RowDue σ d
  | .purge _ (.members _ d _) => RowDue σ d
  | .purge _ (.jobs _ d _) => RowDue σ d
  | .purge _ (.files d _ _ _) => .started d ∈ σ.journal
  | .purge _ (.listed d _ _ _) => .started d ∈ σ.journal
  | .purge _ (.emptied d _ _) => .started d ∈ σ.journal
  | .purge _ (.purging d _ _ _) => .started d ∈ σ.journal
  | .purge _ (.stillDue d _ _ again) => .started d ∈ σ.journal ∧ RowDue σ again
  | .purge _ .purged => σ.tenant = none
  | _ => True

end

/-! ### Stages of the row -/

section
variable {hash toLower : String → String} {σ σ' : Store} {t t' u : Task} {a : Act} {g : Stage}
  {d : ℕ}

theorem RowAt.shows (h : RowAt σ g) {g' : Stage} (hshows : Shows σ.tenant g') : g' = g := by
  obtain ⟨r, hr, hg⟩ := h
  rw [hr] at hshows
  exact hshows.symm.trans hg

theorem stage_of_schedule {r : TenantRow} {s : Schedule} (h : r.schedule = some s) :
    r.stage = s.stage := by
  rw [TenantRow.stage, h]

theorem Schedule.stage_due (s : Schedule) : s.stage = .scheduled s.dueAt ∨
    s.stage = .underway s.dueAt := by
  unfold Schedule.stage
  split
  · exact .inr rfl
  · exact .inl rfl

theorem rowDue_of_schedule {r : TenantRow} {s : Schedule} (hr : σ.tenant = some r)
    (hs : r.schedule = some s) : RowDue σ s.dueAt := by
  obtain hstage | hstage := s.stage_due
  · exact .inl ⟨r, hr, (stage_of_schedule hs).trans hstage⟩
  · exact .inr ⟨r, hr, (stage_of_schedule hs).trans hstage⟩

theorem RowDue.schedule (h : RowDue σ d) :
    ∃ r s, σ.tenant = some r ∧ r.schedule = some s ∧ s.dueAt = d := by
  have hrow : ∃ r, σ.tenant = some r ∧ r.stage.due = some d := by
    obtain ⟨r, hr, hg⟩ | ⟨r, hr, hg⟩ := h
    · exact ⟨r, hr, congrArg Stage.due hg⟩
    · exact ⟨r, hr, congrArg Stage.due hg⟩
  obtain ⟨r, hr, hdue⟩ := hrow
  cases hs : r.schedule with
  | none =>
    rw [TenantRow.stage, hs] at hdue
    cases hdue
  | some s =>
    refine ⟨r, s, hr, hs, ?_⟩
    rw [stage_of_schedule hs] at hdue
    obtain hstage | hstage := s.stage_due
    · rw [hstage] at hdue
      exact Option.some.inj hdue
    · rw [hstage] at hdue
      exact Option.some.inj hdue

theorem rowDue_of_lockDue {now : ℕ} (h : lockDue σ now = some d) : RowDue σ d := by
  unfold lockDue at h
  obtain ⟨s, hs, hdue⟩ := Option.bind_eq_some_iff.mp h
  obtain ⟨r, hr, hs⟩ := Option.bind_eq_some_iff.mp hs
  split at hdue
  · cases hdue
    exact rowDue_of_schedule hr hs
  · cases hdue

theorem lockDue_of_underway (h : RowAt σ (.underway d)) (now : ℕ) : lockDue σ now = some d := by
  obtain ⟨r, s, hr, hs, rfl⟩ := RowDue.schedule (.inr h)
  obtain ⟨r', hr', hg⟩ := h
  rw [hr, Option.some.injEq] at hr'
  subst hr'
  rw [stage_of_schedule hs, Schedule.stage] at hg
  unfold lockDue
  rw [hr, Option.bind_some, hs, Option.bind_some]
  split at hg
  · rename_i hstarted
    exact if_pos (.inr hstarted)
  · cases hg

/-! ### What a call knows -/

theorem issueDeletionLinks_spec {hashes : List String} {admins : List (Uuid × String)}
    {tokens : List String} {links : List IssuedDeletionLink}
    (h : issueDeletionLinks hash hashes admins tokens = .ok links) :
    (links.map fun l => hash l.token).Nodup ∧ ∀ l ∈ links, hash l.token ∉ hashes := by
  induction admins generalizing hashes tokens links with
  | nil =>
    rw [issueDeletionLinks, pure_eq_ok] at h
    subst h
    exact ⟨List.nodup_nil, fun l hl => absurd hl List.not_mem_nil⟩
  | cons a admins ih =>
    cases tokens with
    | nil => cases h
    | cons token tokens =>
      obtain ⟨hfresh, h⟩ := check_eq_ok.mp h
      obtain ⟨rest, hrest, h⟩ := bind_eq_ok.mp h
      cases h
      obtain ⟨hnodup, hout⟩ := ih hrest
      refine ⟨List.nodup_cons.mpr ⟨fun hmem => ?_, hnodup⟩, fun l hl => ?_⟩
      · obtain ⟨l, hl, hsame⟩ := List.mem_map.mp hmem
        exact hout l hl (hsame ▸ List.mem_cons_self)
      · obtain rfl | hl := List.mem_cons.mp hl
        · exact hfresh
        · exact fun hmem => hout l hl (List.mem_cons_of_mem _ hmem)

theorem checkUnscheduled_spec (h : checkUnscheduled σ = .ok ()) :
    RowAt σ .live ∧ σ.house = false := by
  unfold checkUnscheduled at h
  split at h
  · cases h
  · rename_i r hr
    obtain ⟨hnone, h⟩ := check_eq_ok.mp h
    obtain ⟨hhouse, -⟩ := check_eq_ok.mp h
    refine ⟨⟨r, hr, ?_⟩, Bool.eq_false_iff.mpr hhouse⟩
    rw [Bool.not_eq_true, Option.isSome_eq_false_iff, Option.isNone_iff_eq_none] at hnone
    rw [TenantRow.stage, hnone]

theorem readDue_spec {due : Option ℕ} (h : readDue σ = .ok due) :
    (due = none → RowAt σ .live) ∧ ∀ d, due = some d → RowDue σ d := by
  unfold readDue at h
  split at h
  · cases h
  · rename_i r hr
    rw [pure_eq_ok] at h
    subst h
    constructor
    · intro hnone
      refine ⟨r, hr, ?_⟩
      rw [TenantRow.stage, Option.map_eq_none_iff.mp hnone]
    · intro d hd
      obtain ⟨s, hs, rfl⟩ := Option.map_eq_some_iff.mp hd
      exact rowDue_of_schedule hr hs

theorem checkLink_spec {q : CancelCall} {now : ℕ}
    (h : checkLink hash σ q now (some d) = .ok ()) {token : String}
    (htoken : q.token = some token) : LinkOf hash σ token d := by
  unfold checkLink at h
  rw [htoken] at h
  obtain ⟨-, h⟩ := check_eq_ok.mp h
  obtain ⟨hany, -⟩ := check_eq_ok.mp h
  obtain ⟨l, hl, htest⟩ := List.any_eq_true.mp (not_not.mp hany)
  simp only [Option.all_some, Bool.and_eq_true, beq_iff_eq] at htest
  exact ⟨l, hl, htest.1, htest.2.1⟩

theorem clear_spec (h : clearDeletionSchedule σ = .ok ()) (hrow : RowDue σ d) :
    RowAt σ (.scheduled d) := by
  obtain hrow | ⟨r, hr, hg⟩ := hrow
  · exact hrow
  · obtain ⟨r', s, hr', hs, -⟩ := RowDue.schedule (.inr ⟨r, hr, hg⟩)
    rw [hr, Option.some.injEq] at hr'
    subst hr'
    unfold clearDeletionSchedule at h
    obtain ⟨hnot, -⟩ := check_eq_ok.mp h
    rw [hr, Option.bind_some, hs, Option.any_some] at hnot
    rw [stage_of_schedule hs, Schedule.stage, if_neg hnot] at hg
    cases hg

theorem Knows.reads (h : Knows hash σ t) (hreads : Reads hash σ t a t') : Knows hash σ t' := by
  cases hreads with
  | marked hfree => exact checkUnscheduled_spec hfree
  | issued hout =>
    unfold issueScheduled at hout
    obtain ⟨_, -, hout⟩ := bind_eq_ok.mp hout
    obtain ⟨links, hlinks, hout⟩ := bind_eq_ok.mp hout
    cases hout
    exact ⟨h.1, h.2, rfl, issueDeletionLinks_spec hlinks⟩
  | @held q now due hdue =>
    obtain ⟨hlive, hrow⟩ := readDue_spec hdue
    cases due with
    | none => exact hlive rfl
    | some d => exact hrow d rfl
  | checked hlink => exact ⟨h, fun token htoken => checkLink_spec hlink htoken⟩
  | cleared hclear => exact ⟨clear_spec hclear h.1, h.2⟩
  | mailing hout =>
    unfold readCancelled at hout
    split at hout
    · cases hout
    · obtain ⟨_, -, hout⟩ := bind_eq_ok.mp hout
      cases hout
      exact h
  | due hdue => exact rowDue_of_lockDue hdue
  | stillDue hdue => exact ⟨h, rowDue_of_lockDue hdue⟩
  | members | jobs | listed | emptied | purging => exact h
  | @sessionLost session phase =>
    cases phase with
    | _ => exact h
  | scheduling | named | cancelling | locked | erasing | ended => trivial

/-! ### Writes of more than one entry -/

theorem History.queue {js : List Entry} (h : History js (.underway d)) (jobs : List Erasure) :
    History (jobs.map (.queued d) ++ js) (.underway d) := by
  induction jobs with
  | nil => exact h
  | cons job jobs ih => exact .cons ih .queued

theorem History.delete {js : List Entry} (h : History js g) (hg : g.Begun d) (keys : List String) :
    History (keys.map (.deleted d) ++ js) g := by
  induction keys with
  | nil => exact h
  | cons key keys ih => exact .cons ih (.deleted hg)

theorem filterMap_block {α β : Type} {f : Entry → Option β} {block : α → Entry}
    (h : ∀ x, f (block x) = none) (xs : List α) (js : List Entry) :
    (xs.map block ++ js).filterMap f = js.filterMap f := by
  rw [List.filterMap_append, List.filterMap_map]
  have hnone : xs.filterMap (f ∘ block) = [] :=
    List.filterMap_eq_nil_iff.mpr fun x _ => h x
  rw [hnone, List.nil_append]

theorem queuedJobs_queued (jobs : List Erasure) (js : List Entry) :
    queuedJobs (jobs.map (.queued d) ++ js) = jobs ++ queuedJobs js := by
  rw [queuedJobs, List.filterMap_append, List.filterMap_map]
  exact congrArg (· ++ queuedJobs js) List.filterMap_some

def Entry.isOfLink : Entry → Bool
  | .scheduled _ => true
  | .cancelled _ _ => true
  | _ => false

theorem mem_older {α : Type} {block : α → Entry} (h : ∀ x, (block x).isOfLink = false)
    {xs : List α} {js : List Entry} {e : Entry} (he : e.isOfLink = true)
    (hmem : e ∈ xs.map block ++ js) : e ∈ js := by
  obtain hmem | hmem := List.mem_append.mp hmem
  · obtain ⟨x, -, rfl⟩ := List.mem_map.mp hmem
    rw [h x] at he
    cases he
  · exact hmem

theorem mem_older_cons {js : List Entry} {e e' : Entry} (h : e'.isOfLink = false)
    (he : e.isOfLink = true) (hmem : e ∈ e' :: js) : e ∈ js := by
  obtain rfl | hmem := List.mem_cons.mp hmem
  · rw [h] at he
    cases he
  · exact hmem

/-! ### The links -/

theorem Linked.frame (h : Linked hash σ) (hnone : σ.tenant = none → σ'.tenant = none)
    (hlinks : σ'.links = σ.links ∨ σ'.tenant = none ∧ σ'.links = [])
    (hold : ∀ e, e.isOfLink = true → e ∈ σ'.journal → e ∈ σ.journal) : Linked hash σ' := by
  have hof : ∀ token d, σ.tenant = none ∨ LinkOf hash σ token d →
      σ'.tenant = none ∨ LinkOf hash σ' token d := by
    intro token d hlink
    obtain hsame | ⟨hgone, -⟩ := hlinks
    · obtain hgone | hlink := hlink
      · exact .inl (hnone hgone)
      · refine .inr ?_
        unfold LinkOf
        rw [hsame]
        exact hlink
    · exact .inl hgone
  refine ⟨?_, fun out hout l hl => hof _ _ (h.minted out (hold _ rfl hout) l hl),
    fun out token hout => hof _ _ (h.spent out token (hold _ rfl hout)),
    fun out token hout sched hsched => h.own out token (hold _ rfl hout) sched (hold _ rfl hsched)⟩
  obtain hsame | ⟨-, hnil⟩ := hlinks
  · rw [hsame]
    exact h.hashes
  · rw [hnil]
    exact List.nodup_nil

theorem Linked.schedule (h : Linked hash σ) {q : ScheduleCall} {now : ℕ} {out : ScheduledDeletion}
    (hrow : RowAt σ .live) (hnodup : (out.links.map fun l => hash l.token).Nodup)
    (hfresh : ∀ l ∈ out.links, hash l.token ∉ σ.links.map Link.tokenHash) :
    Linked hash (commitSchedule hash σ q now out) := by
  have htenant : σ.tenant ≠ none := by
    obtain ⟨r, hr, -⟩ := hrow
    rw [hr]
    exact Option.some_ne_none r
  have hkeep : ∀ token d, LinkOf hash σ token d →
      LinkOf hash (commitSchedule hash σ q now out) token d := by
    rintro token d ⟨l, hl, hlink⟩
    exact ⟨l, List.mem_append_right _ hl, hlink⟩
  constructor
  · change ((out.links.map (IssuedDeletionLink.row hash out.dueAt) ++ σ.links).map
      Link.tokenHash).Nodup
    rw [List.map_append, List.map_map, List.nodup_append']
    refine ⟨hnodup, h.hashes, fun x hx hx' => ?_⟩
    obtain ⟨l, hl, rfl⟩ := List.mem_map.mp hx
    exact hfresh l hl hx'
  · intro sched hsched l hl
    obtain heq | hsched := List.mem_cons.mp hsched
    · cases heq
      exact .inr ⟨_, List.mem_append_left _ (List.mem_map.mpr ⟨l, hl, rfl⟩), rfl, rfl⟩
    · exact .inr (hkeep _ _ ((h.minted sched hsched l hl).resolve_left htenant))
  · intro out' token hout
    obtain heq | hout := List.mem_cons.mp hout
    · cases heq
    · exact .inr (hkeep _ _ ((h.spent out' token hout).resolve_left htenant))
  · intro out' token hout sched hsched l hl htoken
    obtain heq | hout := List.mem_cons.mp hout
    · cases heq
    obtain heq | hsched := List.mem_cons.mp hsched
    · -- a spent token's link still holds its hash
      cases heq
      obtain ⟨k, hk, hhash, -⟩ := (h.spent out' token hout).resolve_left htenant
      refine absurd (List.mem_map.mpr ⟨k, hk, ?_⟩) (hfresh l hl)
      rw [hhash, htoken]
    · exact h.own out' token hout sched hsched l hl htoken

theorem Linked.cancel (h : Linked hash σ) {q : CancelCall} {out : CancelledDeletion}
    (hrow : RowAt σ (.scheduled out.dueAt))
    (htoken : ∀ token, q.token = some token → LinkOf hash σ token out.dueAt) :
    Linked hash (commitCancel σ q out) := by
  have htenant : σ.tenant ≠ none := by
    obtain ⟨r, hr, -⟩ := hrow
    rw [hr]
    exact Option.some_ne_none r
  refine ⟨h.hashes, ?_, ?_, ?_⟩
  · intro sched hsched l hl
    obtain heq | hsched := List.mem_cons.mp hsched
    · cases heq
    · exact .inr ((h.minted sched hsched l hl).resolve_left htenant)
  · intro out' token hout
    obtain heq | hout := List.mem_cons.mp hout
    · obtain ⟨rfl, hq⟩ := Entry.cancelled.inj heq
      exact .inr (htoken token hq.symm)
    · exact .inr ((h.spent out' token hout).resolve_left htenant)
  · intro out' token hout sched hsched l hl hl'
    obtain heq | hmem := List.mem_cons.mp hsched
    · cases heq
    obtain heq | hout := List.mem_cons.mp hout
    · obtain ⟨rfl, hq⟩ := Entry.cancelled.inj heq
      obtain ⟨k, hk, hhash, hdue⟩ := (h.minted sched hmem l hl).resolve_left htenant
      obtain ⟨k', hk', hhash', hdue'⟩ := htoken token hq.symm
      have hsame : k = k' := List.inj_on_of_nodup_map h.hashes hk hk'
        (hhash.trans ((congrArg hash hl').trans hhash'.symm))
      rw [← hdue, ← hdue', hsame]
    · exact h.own out' token hout sched hmem l hl hl'

/-! ### The writes -/

theorem Sound.at (h : Sound hash σ) (hrow : RowAt σ g) : History σ.journal g := by
  obtain ⟨g', hhistory, hshows⟩ := h.history
  obtain rfl := hrow.shows hshows
  exact hhistory

theorem Sound.begun (h : Sound hash σ) (hd : .started d ∈ σ.journal) :
    History σ.journal (.underway d) ∧ RowAt σ (.underway d) ∨
      History σ.journal (.gone d) ∧ σ.tenant = none := by
  obtain ⟨g, hhistory, hshows⟩ := h.history
  obtain rfl | rfl := hhistory.started hd
  · cases htenant : σ.tenant with
    | none =>
      rw [htenant] at hshows
      obtain ⟨_, hg⟩ := hshows
      cases hg
    | some r =>
      rw [htenant] at hshows
      exact .inl ⟨hhistory, r, htenant, hshows⟩
  · cases htenant : σ.tenant with
    | none => exact .inr ⟨hhistory, rfl⟩
    | some r =>
      rw [htenant] at hshows
      have hstage : r.stage = .gone d := hshows
      cases hs : r.schedule with
      | none =>
        rw [TenantRow.stage, hs] at hstage
        cases hstage
      | some s =>
        rw [stage_of_schedule hs] at hstage
        obtain hg | hg := s.stage_due
        · rw [hg] at hstage
          cases hstage
        · rw [hg] at hstage
          cases hstage

theorem Sound.schedule (h : Sound hash σ) {q : ScheduleCall} {now : ℕ} {out : ScheduledDeletion}
    (hrow : RowAt σ .live) (hhouse : σ.house = false) (hdue : out.dueAt = now + dueAfter)
    (hnodup : (out.links.map fun l => hash l.token).Nodup)
    (hfresh : ∀ l ∈ out.links, hash l.token ∉ σ.links.map Link.tokenHash) :
    Sound hash (commitSchedule hash σ q now out) := by
  refine ⟨⟨.scheduled out.dueAt, .cons (h.at hrow) .scheduled, ?_⟩, h.staff, h.erasures,
    fun _ => hhouse, h.linked.schedule hrow hnodup hfresh⟩
  obtain ⟨r, hr, -⟩ := hrow
  unfold commitSchedule
  dsimp only
  rw [hr, Option.map_some, hdue]
  rfl

theorem Sound.cancel (h : Sound hash σ) {q : CancelCall} {out : CancelledDeletion}
    (hrow : RowAt σ (.scheduled out.dueAt))
    (htoken : ∀ token, q.token = some token → LinkOf hash σ token out.dueAt) :
    Sound hash (commitCancel σ q out) := by
  refine ⟨⟨.live, .cons (h.at hrow) .cancelled, ?_⟩, h.staff, h.erasures, h.house,
    h.linked.cancel hrow htoken⟩
  obtain ⟨r, hr, -⟩ := hrow
  unfold commitCancel
  dsimp only
  rw [hr, Option.map_some]
  rfl

theorem Sound.record (h : Sound hash σ) {e : Entry}
    (hstep : ∀ g, History σ.journal g → Shows σ.tenant g → Follows g e g)
    (he : e = .unscheduled ∨ ∃ purged, e = .returned purged) : Sound hash (record σ e) := by
  obtain ⟨g, hhistory, hshows⟩ := h.history
  have hcons : History (e :: σ.journal) g := .cons hhistory (hstep g hhistory hshows)
  have hlink : e.isOfLink = false := by
    obtain rfl | ⟨purged, rfl⟩ := he <;> rfl
  have hlinked : Linked hash (Deletion.record σ e) :=
    h.linked.frame id (.inl rfl) fun e' he' hmem => mem_older_cons hlink he' hmem
  obtain rfl | ⟨purged, rfl⟩ := he
  · exact ⟨⟨g, hcons, hshows⟩, h.staff, h.erasures, h.house, hlinked⟩
  · exact ⟨⟨g, hcons, hshows⟩, h.staff, h.erasures, h.house, hlinked⟩

theorem stage_started {r : TenantRow} {s : Schedule} (hs : r.schedule = some s) (now : ℕ) :
    TenantRow.stage { r with schedule := r.schedule.map fun s =>
      { s with purgeStartedAt := some (s.purgeStartedAt.getD now) } } = .underway s.dueAt := by
  rw [hs]
  rfl

theorem Sound.erase (h : Sound hash σ) (hrow : RowDue σ d) (now : ℕ) (jobs : List Erasure) :
    Sound hash (commitErase σ now d jobs) := by
  have hstarted : History (.started d :: σ.journal) (.underway d) := by
    obtain hrow | hrow := hrow
    · exact .cons (h.at hrow) .started
    · exact .cons (h.at hrow) .again
  obtain ⟨r, s, hr, hs, rfl⟩ := hrow.schedule
  refine ⟨⟨_, hstarted.queue jobs.reverse, ?_⟩, ?_, ?_, ?_, ?_⟩
  · unfold commitErase
    dsimp only
    rw [hr, Option.map_some]
    exact stage_started hs now
  · have hrows : removals (jobs.reverse.map (.queued s.dueAt) ++ .started s.dueAt :: σ.journal) =
        removals σ.journal := filterMap_block (fun _ => rfl) jobs.reverse _
    exact h.staff.trans hrows.symm
  · unfold commitErase
    dsimp only
    rw [List.reverse_append, queuedJobs_queued]
    exact congrArg (jobs.reverse ++ ·) h.erasures
  · intro hdues
    have hsame : dues (jobs.reverse.map (.queued s.dueAt) ++ .started s.dueAt :: σ.journal) =
        dues σ.journal := filterMap_block (fun _ => rfl) jobs.reverse _
    exact h.house fun hnil => hdues (hsame.trans hnil)
  · refine h.linked.frame (fun hnone => ?_) (.inl rfl) fun e he hmem => ?_
    · rw [hr] at hnone
      cases hnone
    · exact mem_older_cons rfl he (mem_older (fun _ => rfl) he hmem)

theorem Sound.delete (h : Sound hash σ) (hd : .started d ∈ σ.journal) (keys : List String) :
    Sound hash (deleteMany σ d keys) := by
  obtain ⟨g, hhistory, hshows⟩ := h.history
  refine ⟨⟨g, hhistory.delete (hhistory.started hd) keys, hshows⟩, ?_, ?_, ?_, ?_⟩
  · have hrows : removals (keys.map (.deleted d) ++ σ.journal) = removals σ.journal :=
      filterMap_block (fun _ => rfl) keys _
    exact h.staff.trans hrows.symm
  · have hjobs : queuedJobs (keys.map (.deleted d) ++ σ.journal) = queuedJobs σ.journal :=
      filterMap_block (fun _ => rfl) keys _
    exact h.erasures.trans hjobs.symm
  · intro hdues
    have hsame : dues (keys.map (.deleted d) ++ σ.journal) = dues σ.journal :=
      filterMap_block (fun _ => rfl) keys _
    exact h.house fun hnil => hdues (hsame.trans hnil)
  · exact h.linked.frame id (.inl rfl) fun e he hmem => mem_older (fun _ => rfl) he hmem

theorem purgeTenant_spec {row : StaffRow} (h : purgeTenant σ row = .ok σ') :
    σ' = { σ with tenant := none, members := ∅, links := [], cancelMails := [], audit := []
                  staff := row :: σ.staff, journal := .removed row :: σ.journal } := by
  unfold purgeTenant at h
  obtain ⟨-, h⟩ := check_eq_ok.mp h
  obtain ⟨-, h⟩ := check_eq_ok.mp h
  cases h
  rfl

theorem Sound.purge (h : Sound hash σ) (hd : .started d ∈ σ.journal) {row : StaffRow}
    (hrow : RowDue σ row.dueAt) (hpurge : purgeTenant σ row = .ok σ') : Sound hash σ' := by
  -- the row is due for the schedule whose purge started
  have hhistory : History σ.journal (.underway row.dueAt) := by
    obtain hrow | hrow := hrow
    · obtain hg | hg := (h.at hrow).started hd <;> cases hg
    · exact h.at hrow
  obtain rfl := purgeTenant_spec hpurge
  refine ⟨⟨.gone row.dueAt, .cons hhistory .removed, _, rfl⟩, ?_, h.erasures, h.house, ?_⟩
  · exact congrArg (row :: ·) h.staff
  · exact h.linked.frame (fun _ => rfl) (.inr ⟨rfl, rfl⟩) fun e he hmem =>
      mem_older_cons rfl he hmem

theorem Sound.tables (h : Sound hash σ) {members : Table Uuid Member} {objects : List String}
    {tenant : Option TenantRow}
    (htenant : tenant = σ.tenant ∨ ∃ name, tenant = σ.tenant.map fun r => { r with name := name }) :
    Sound hash { σ with tenant := tenant, members := members, objects := objects } := by
  have hshows : ∀ g, Shows σ.tenant g → Shows tenant g := by
    intro g hg
    obtain rfl | ⟨name, rfl⟩ := htenant
    · exact hg
    · cases hrow : σ.tenant with
      | none =>
        rw [hrow] at hg
        exact hg
      | some r =>
        rw [hrow] at hg
        exact hg
  have hnone : σ.tenant = none → tenant = none := by
    intro hgone
    obtain rfl | ⟨name, rfl⟩ := htenant
    · exact hgone
    · rw [hgone, Option.map_none]
  obtain ⟨g, hhistory, hg⟩ := h.history
  exact ⟨⟨g, hhistory, hshows g hg⟩, h.staff, h.erasures, h.house,
    h.linked.frame hnone (.inl rfl) fun _ _ hmem => hmem⟩

theorem not_underway_of_not_due {now : ℕ} (h : lockDue σ now = none) (hshows : Shows σ.tenant g) :
    g ≠ .underway d := by
  rintro rfl
  cases htenant : σ.tenant with
  | none =>
    rw [htenant] at hshows
    obtain ⟨_, hg⟩ := hshows
    cases hg
  | some r =>
    rw [htenant] at hshows
    rw [lockDue_of_underway ⟨r, htenant, hshows⟩ now] at h
    cases h

theorem Sound.writes (h : Sound hash σ) (hknows : Knows hash σ t)
    (hwrites : Writes hash σ t a σ' t') : Sound hash σ' := by
  cases hwrites with
  | scheduled =>
    obtain ⟨hrow, hhouse, hdue, hnodup, hfresh⟩ := hknows
    exact h.schedule hrow hhouse hdue hnodup hfresh
  | cancelled => exact h.cancel hknows.1 hknows.2
  | unscheduled =>
    have hrow : RowAt σ .live := hknows
    refine h.record (fun g _ hshows => ?_) (.inl rfl)
    obtain rfl := hrow.shows hshows
    exact .unscheduled
  | started => exact h.erase hknows _ _
  | deleted => exact h.delete hknows _
  | removed hpurge => exact h.purge hknows.1 hknows.2 hpurge
  | notDue _ hdue =>
    exact h.record (fun g _ hshows => .returned fun d => not_underway_of_not_due hdue hshows)
      (.inr ⟨_, rfl⟩)
  | finished =>
    have hgone : σ.tenant = none := hknows
    refine h.record (fun g _ hshows => .returned fun d hg => ?_) (.inr ⟨_, rfl⟩)
    rw [hgone] at hshows
    obtain ⟨_, hg'⟩ := hshows
    rw [hg] at hg'
    cases hg'
  | members => exact h.tables (.inl rfl)
  | renamed => exact h.tables (.inr ⟨_, rfl⟩)
  | put => exact h.tables (.inl rfl)

/-! ### What the others leave -/

theorem RowAt.frame (h : RowAt σ g) (htenant : σ'.tenant = σ.tenant) : RowAt σ' g := by
  obtain ⟨r, hr, hg⟩ := h
  exact ⟨r, htenant.trans hr, hg⟩

theorem RowDue.frame (h : RowDue σ d) (htenant : σ'.tenant = σ.tenant) : RowDue σ' d :=
  h.imp (fun hrow => hrow.frame htenant) fun hrow => hrow.frame htenant

theorem LinkOf.frame {token : String} (h : LinkOf hash σ token d) (hlinks : σ'.links = σ.links) :
    LinkOf hash σ' token d := by
  unfold LinkOf
  rw [hlinks]
  exact h

def Same (σ σ' : Store) : Prop :=
  σ'.tenant = σ.tenant ∧ σ'.links = σ.links ∧ σ'.house = σ.house

theorem Knows.frame (h : Knows hash σ u) (hrow : .row ∈ u.holds → Same σ σ')
    (hjournal : ∀ e ∈ σ.journal, e ∈ σ'.journal) (hnone : σ.tenant = none → σ'.tenant = none) :
    Knows hash σ' u := by
  cases u with
  | marked =>
    obtain ⟨htenant, -, hhouse⟩ := hrow List.mem_cons_self
    exact ⟨h.1.frame htenant, hhouse.trans h.2⟩
  | issued q now out =>
    obtain ⟨htenant, hlinks, hhouse⟩ := hrow List.mem_cons_self
    obtain ⟨hlive, hnot, hdue, hnodup, hfresh⟩ := h
    refine ⟨hlive.frame htenant, hhouse.trans hnot, hdue, hnodup, ?_⟩
    rw [hlinks]
    exact hfresh
  | held q now due =>
    obtain ⟨htenant, -, -⟩ := hrow List.mem_cons_self
    cases due with
    | none => exact RowAt.frame h htenant
    | some d => exact RowDue.frame h htenant
  | checked =>
    obtain ⟨htenant, hlinks, -⟩ := hrow List.mem_cons_self
    exact ⟨h.1.frame htenant, fun token htoken => (h.2 token htoken).frame hlinks⟩
  | cleared =>
    obtain ⟨htenant, hlinks, -⟩ := hrow List.mem_cons_self
    exact ⟨h.1.frame htenant, fun token htoken => (h.2 token htoken).frame hlinks⟩
  | mailing =>
    obtain ⟨htenant, hlinks, -⟩ := hrow List.mem_cons_self
    exact ⟨h.1.frame htenant, fun token htoken => (h.2 token htoken).frame hlinks⟩
  | purge session phase =>
    have hphase : .row ∈ phase.holds → Same σ σ' := fun hl => hrow (holds_purge.mpr (.inr hl))
    cases phase with
    | due | members | jobs =>
      obtain ⟨htenant, -, -⟩ := hphase List.mem_cons_self
      exact RowDue.frame h htenant
    | files | listed | emptied | purging => exact hjournal _ h
    | stillDue =>
      obtain ⟨htenant, -, -⟩ := hphase List.mem_cons_self
      exact ⟨hjournal _ h.1, h.2.frame htenant⟩
    | purged => exact hnone h
    | locked | erasing => trivial
  | idle | scheduling | named | cancelling => trivial

theorem Writes.journal (h : Writes hash σ t a σ' t') : ∀ e ∈ σ.journal, e ∈ σ'.journal := by
  intro e he
  cases h with
  | started => exact List.mem_append_right _ (List.mem_cons_of_mem _ he)
  | deleted => exact List.mem_append_right _ he
  | removed hpurge =>
    obtain rfl := purgeTenant_spec hpurge
    exact List.mem_cons_of_mem _ he
  | members | renamed | put => exact he
  | scheduled | cancelled | unscheduled | notDue | finished => exact List.mem_cons_of_mem _ he

theorem Writes.gone (h : Writes hash σ t a σ' t') (hgone : σ.tenant = none) :
    σ'.tenant = none := by
  cases h with
  | scheduled | cancelled | started | renamed =>
    exact Option.map_eq_none_iff.mpr hgone
  | removed hpurge =>
    obtain rfl := purgeTenant_spec hpurge
    rfl
  | deleted | unscheduled | notDue | finished | members | put => exact hgone

theorem Writes.row (h : Writes hash σ t a σ' t') :
    .row ∈ t.holds ++ needs σ t a ∨ Same σ σ' := by
  cases h with
  | scheduled => exact .inl (List.mem_append_left _ List.mem_cons_self)
  | cancelled => exact .inl (List.mem_append_left _ List.mem_cons_self)
  | started =>
    exact .inl (List.mem_append_left _ (holds_purge.mpr (.inr List.mem_cons_self)))
  | removed =>
    exact .inl (List.mem_append_left _ (holds_purge.mpr (.inr List.mem_cons_self)))
  | renamed => exact .inl (List.mem_append_right _ List.mem_cons_self)
  | unscheduled | deleted | notDue | finished | members | put => exact .inr ⟨rfl, rfl, rfl⟩

theorem Knows.others (hu : Knows hash σ u) (hwrites : Writes hash σ t a σ' t')
    (hapart : (protocol hash toLower).Apart (t.holds ++ needs σ t a) u.holds) :
    Knows hash σ' u := by
  refine hu.frame (fun hl => ?_) hwrites.journal hwrites.gone
  obtain hrow | hsame := hwrites.row
  · have hconflict : Lock.conflicts .row .row = true := rfl
    exact absurd (hconflict.symm.trans (hapart _ hrow _ hl)) Bool.true_eq_false.mp
  · exact hsame

theorem Knows.writes (h : Knows hash σ t) (hwrites : Writes hash σ t a σ' t') :
    Knows hash σ' t' := by
  cases hwrites with
  | started => exact List.mem_append_right _ List.mem_cons_self
  | deleted => exact List.mem_append_right _ h
  | removed hpurge =>
    obtain rfl := purgeTenant_spec hpurge
    rfl
  | _ => trivial

theorem outline : (protocol hash toLower).Outline (fun _ _ _ => True) (fun _ _ _ _ => True)
    (Sound hash) (Knows hash) fun _ _ => True where
  store := by
    intro σ t a σ' t' hI hL _ hnext
    cases next_move hnext with
    | reads => exact hI
    | writes hwrites => exact hI.writes hL hwrites
  own := by
    intro σ t a σ' t' _ hL _ hnext
    cases next_move hnext with
    | reads hreads => exact hL.reads hreads
    | writes hwrites => exact hL.writes hwrites
  other := by
    intro σ t a σ' t' u _ _ _ hnext hu _ _ hapart
    cases next_move hnext with
    | reads => exact hu
    | writes hwrites => exact hu.others hwrites hapart
  pair := fun _ _ _ _ _ _ _ _ => ⟨trivial, trivial⟩

end

def start (house : Bool) (name : String) (members : Table Uuid Member) (objects : List String) :
    World Store Task :=
  { store := { house := house, tenant := some { name := name }, members := members
               objects := objects } }

theorem sound_run {hash toLower : String → String} {house : Bool} {name : String}
    {members : Table Uuid Member} {objects : List String} {steps : List (ℕ × Act)}
    {w : World Store Task} (hrun : runFrom (protocol hash toLower).step
      (start house name members objects) steps = some w) :
    Sound hash w.store := by
  have hstart : Sound hash (start house name members objects).store :=
    ⟨⟨.live, .nil, rfl⟩, rfl, rfl, fun hdues => absurd rfl hdues,
      List.nodup_nil, nofun, nofun, nofun⟩
  exact ((Protocol.Holds.start (p := protocol hash toLower) hstart trivial trivial).run outline
    (along_of_forall (fun _ _ => ⟨trivial, trivial, fun _ _ _ => trivial⟩) _ _) hrun).store

end InvoiceOs.Deletion
