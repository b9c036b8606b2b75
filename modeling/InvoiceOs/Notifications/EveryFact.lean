import InvoiceOs.Notifications.Facts

/-! Every step of a merge, a delivery or River keeps what the others rely on, so each fact of an
address has a job that will carry it, or has been carried. -/

namespace InvoiceOs.Notifications.Merge

open Lib
open Submission (RiverState)

section
variable {st st' : Address} {t t' : Task} {act : Act}

theorem unfinished_iff {jobs : List DeliverJob} {args : DeliverArgs} :
    unfinished jobs args = true ↔ ∃ j ∈ jobs, j.args = args ∧ j.state.live = true := by
  simp only [unfinished, List.any_eq_true, Bool.and_eq_true, beq_iff_eq]

theorem workNext_cases {job : ℕ} {args : DeliverArgs} {phase : Phase}
    (h : workNext st job args phase act = some (st', t')) :
    (phase = .started ∧ act = .lock ∧ st' = st ∧ t' = .delivering job args .locked) ∨
    (phase = .locked ∧ st' = st ∧ t' = .delivering job args (readPhase args st.row)) ∨
    (∃ c, phase = .read c ∧
      st' = { st with log := st.log ++ [.call args.dest (contactOf c)] } ∧
      t' = .delivering job args (.sent c (sendsOptIn args.dest c))) ∨
    (∃ c optIn now, phase = .sent c optIn ∧ act = .mark now ∧ st' = st ∧
      t' = .delivering job args (.marked optIn ((marks st optIn).map fun r => r.markOptIn now))) ∨
    (∃ optIn written, phase = .marked optIn written ∧
      records (written.or st.row) args.version = none ∧ st' = st ∧
      t' = .delivering job args (.recorded optIn written)) ∨
    (∃ optIn written now mode r, phase = .marked optIn written ∧ act = .record now mode ∧
      records (written.or st.row) args.version = some r ∧ st' = st ∧
      t' = .delivering job args (.recorded optIn (some (r.recordDelivered args.dest now mode)))) ∨
    (∃ optIn written, phase = .recorded optIn written ∧
      st' = { st with
        row := written.or st.row
        log := st.log ++ if optIn then [.optIn] else [] } ∧
      t' = .delivering job args (.returned true)) ∨
    (∃ ok, phase = .returned ok ∧
      st' = st.setJob job (if ok then .completed else .waiting) ∧ t' = .idle) ∨
    (st' = st ∧ t' = .delivering job args (.returned false)) ∨
    (st' = st ∧ t' = .idle) := by
  unfold workNext at h
  split at h
  · cases h
    exact .inl ⟨rfl, rfl, rfl, rfl⟩
  · cases h
    exact .inr (.inl ⟨rfl, rfl, rfl⟩)
  · split at h
    · cases h
      exact .inr (.inr (.inl ⟨_, rfl, rfl, rfl⟩))
    · cases h
      exact .inr (.inr (.inr (.inr (.inr (.inr (.inr (.inr (.inl ⟨rfl, rfl⟩))))))))
  · cases h
    exact .inr (.inr (.inr (.inl ⟨_, _, _, rfl, rfl, rfl, rfl⟩)))
  · split at h
    · rename_i hnone
      cases h
      exact .inr (.inr (.inr (.inr (.inl ⟨_, _, rfl, hnone, rfl, rfl⟩))))
    · rename_i r hr
      cases h
      exact .inr (.inr (.inr (.inr (.inr (.inl ⟨_, _, _, _, r, rfl, rfl, hr, rfl, rfl⟩)))))
  · cases h
    exact .inr (.inr (.inr (.inr (.inr (.inr (.inl ⟨_, _, rfl, rfl, rfl⟩))))))
  · cases h
    exact .inr (.inr (.inr (.inr (.inr (.inr (.inr (.inl ⟨_, rfl, rfl, rfl⟩)))))))
  · cases h
  · cases h
    exact .inr (.inr (.inr (.inr (.inr (.inr (.inr (.inr (.inl ⟨rfl, rfl⟩))))))))
  · cases h
    exact .inr (.inr (.inr (.inr (.inr (.inr (.inr (.inr (.inr ⟨rfl, rfl⟩))))))))
  · cases h

theorem readPhase_cases (args : DeliverArgs) (row : Option Row) :
    (readPhase args row = .returned true ∧ ∀ c, row = some c →
      c.version = args.version → c.pending args.dest = false) ∨
    ∃ c, row = some c ∧ c.version = args.version ∧ readPhase args row = .read c := by
  cases row with
  | none => exact .inl ⟨rfl, nofun⟩
  | some c =>
    unfold readPhase
    dsimp only
    split
    · rename_i hskip
      refine .inl ⟨rfl, fun c' hc hversion => ?_⟩
      obtain rfl := Option.some.inj hc
      simp only [hversion, bne_self_eq_false, Bool.or_false] at hskip
      simp only [Row.pending, Option.isNone_eq_false_iff.mpr hskip, Bool.false_and]
    · rename_i hread
      simp only [Bool.or_eq_true, bne_iff_ne, not_or, not_not] at hread
      split
      · rename_i happlies
        refine .inl ⟨rfl, fun c' hc _ => ?_⟩
        obtain rfl := Option.some.inj hc
        rw [Bool.not_eq_true'] at happlies
        simp only [Row.pending, happlies, Bool.and_false]
      · exact .inr ⟨c, rfl, hread.2, rfl⟩

theorem rowLock_map (f : Row → Row) (row : Option Row) : rowLock (row.map f) = rowLock row := by
  cases row with
  | none => rfl
  | some _ => rfl

theorem workNext_holds {job : ℕ} {args : DeliverArgs} {phase : Phase}
    (h : workNext st job args phase act = some (st', t')) :
    ∀ l ∈ t'.holds, l ∈ (Task.delivering job args phase).holds ∨
      l ∈ (Task.delivering job args phase).needs st act := by
  have hphase : ∀ {phase' : Phase}, (∀ l ∈ phase'.locks args.dest, l ∈ phase.locks args.dest ∨
      l ∈ (Task.delivering job args phase).needs st act) →
      ∀ l ∈ (Task.delivering job args phase').holds, l ∈ (Task.delivering job args phase).holds ∨
        l ∈ (Task.delivering job args phase).needs st act := by
    intro phase' hlocks l hl
    rcases List.mem_cons.mp hl with rfl | hl
    · exact .inl List.mem_cons_self
    · exact (hlocks l hl).imp_left (List.mem_cons_of_mem _)
  obtain ⟨rfl, rfl, -, rfl⟩ | ⟨rfl, -, rfl⟩ | ⟨c, rfl, -, rfl⟩ | ⟨c, optIn, now, rfl, rfl, -, rfl⟩ |
    ⟨optIn, written, rfl, -, -, rfl⟩ | ⟨optIn, written, now, mode, r, rfl, rfl, hr, -, rfl⟩ |
    ⟨optIn, written, rfl, -, rfl⟩ | ⟨ok, rfl, -, rfl⟩ | ⟨-, rfl⟩ | ⟨-, rfl⟩ := workNext_cases h
  · exact hphase fun l hl => .inr hl
  · obtain ⟨hread, -⟩ | ⟨c, -, -, hread⟩ := readPhase_cases args st.row
    · rw [hread]
      exact hphase fun l hl => by cases hl
    · rw [hread]
      exact hphase fun l hl => .inl hl
  · exact hphase fun l hl => .inl hl
  · refine hphase fun l hl => ?_
    rcases List.mem_cons.mp hl with rfl | hl
    · exact .inl List.mem_cons_self
    · rw [rowLock_map] at hl
      exact .inr hl
  · exact hphase fun l hl => .inl hl
  · refine hphase fun l hl => ?_
    have hneeds : (Task.delivering job args (.marked optIn written)).needs st (.record now mode) =
        [.row] := by
      simp only [Task.needs, hr, rowLock]
    rw [hneeds]
    rcases List.mem_cons.mp hl with rfl | hl
    · exact .inl List.mem_cons_self
    · exact .inr hl
  · exact hphase fun l hl => by cases hl
  · exact fun l hl => by cases hl
  · exact hphase fun l hl => by cases hl
  · exact fun l hl => by cases hl

theorem mergeNext_cases {row : Row} {fact : Bool} {todo : List Dest} {queued : List DeliverArgs}
    (h : mergeNext st row fact todo queued act = some (st', t')) :
    (∃ dest todo', todo = dest :: todo' ∧ st' = st ∧ ∃ queued',
      t' = .merging row fact todo' queued' ∧
      (queued' = queued ∧ unfinished st.jobs ⟨dest, row.version⟩ = true ∨
        queued' = queued ++ [⟨dest, row.version⟩])) ∨
    (todo = [] ∧ t' = .idle ∧ st' =
      { row := some row
        jobs := st.jobs ++ queued.map fun args => { args := args }
        log := st.log ++ if fact then [.fact] else [] }) ∨
    (st' = st ∧ t' = .idle) := by
  unfold mergeNext at h
  split at h
  · split at h
    · rename_i hunfinished
      cases h
      exact .inl ⟨_, _, rfl, rfl, _, rfl, .inl ⟨rfl, hunfinished⟩⟩
    · cases h
      exact .inl ⟨_, _, rfl, rfl, _, rfl, .inr rfl⟩
  · cases h
    exact .inr (.inl ⟨rfl, rfl, rfl⟩)
  · cases h
    exact .inr (.inr ⟨rfl, rfl⟩)
  · cases h
    exact .inr (.inr ⟨rfl, rfl⟩)
  · cases h

theorem idleNext_cases (h : idleNext st act = some (st', t')) :
    (∃ i now row fact, act = .merge i now ∧ mergeRow st.row (excluded now i) = (row, fact) ∧
      st' = st ∧ t' = .merging row fact ([Dest.hubspot, .resend].filter row.pending) []) ∨
    (∃ job j, act = .fetch job ∧ st.jobs[job]? = some j ∧ st' = st.setJob job .running ∧
      t' = .delivering job j.args .started) ∨
    ∃ job, act = .rescue job ∧ st' = st.setJob job .waiting ∧ t' = .idle := by
  unfold idleNext at h
  split at h
  · cases h
    exact .inl ⟨_, _, _, _, rfl, rfl, rfl, rfl⟩
  · split at h
    · cases h
    · rename_i j hj
      split at h
      · cases h
        exact .inr (.inl ⟨_, j, rfl, hj, rfl, rfl⟩)
      · cases h
  · split at h
    · cases h
    · split at h
      · cases h
        exact .inr (.inr ⟨_, rfl, rfl, rfl⟩)
      · cases h
  · cases h

theorem next_holds (h : next st t act = some (st', t')) :
    ∀ l ∈ t'.holds, l ∈ t.holds ∨ l ∈ t.needs st act := by
  intro l hl
  cases t with
  | idle =>
    obtain ⟨i, now, row, fact, rfl, -, -, rfl⟩ | ⟨job, j, rfl, -, -, rfl⟩ | ⟨job, rfl, -, rfl⟩ :=
      idleNext_cases h
    · exact .inr hl
    · exact .inr hl
    · cases hl
  | merging row fact todo queued =>
    obtain ⟨_, _, _, _, _, rfl, _⟩ | ⟨_, rfl, _⟩ | ⟨_, rfl⟩ := mergeNext_cases h
    · exact .inl hl
    · cases hl
    · cases hl
  | delivering job args phase => exact workNext_holds h l hl

end

def protocol : Protocol Address Task Act Lock where
  idle := .idle
  holds := Task.holds
  needs := Task.needs
  conflicts a b := decide (a = b)
  next := next
  holds_idle := rfl
  conflicts_symm _ _ h := decide_eq_true (of_decide_eq_true h).symm
  holds_next _ _ _ _ _ h := next_holds h

/-! ### What a job, a delivery and a merge rely on -/

def Ahead (st : Address) (args : DeliverArgs) : Prop :=
  ∀ c, st.row = some c → c.version = args.version → Called st.log args.dest c.facts

def Past (st : Address) (args : DeliverArgs) : Prop := ∀ c, st.row = some c → args.version < c.version

def Settled (st : Address) (args : DeliverArgs) : Prop :=
  ∀ c, st.row = some c → c.version = args.version → c.pending args.dest = false

def Phase.Ok (st : Address) (args : DeliverArgs) : Phase → Prop
  | .started => True
  | .locked => True
  | .read c => c.version = args.version ∧ ∃ r, st.row = some r ∧ Later c r ∧
      (args.dest = .resend → r.resendOptInSentAt = c.resendOptInSentAt)
  | .sent _ optIn => Ahead st args ∧ (optIn = true → args.dest = .resend ∧
      ∀ r, st.row = some r → r.resendOptInSentAt = none)
  | .marked optIn none => Ahead st args ∧ optIn = false
  | .marked optIn (some c') => Ahead st args ∧ ∃ c, st.row = some c ∧ Touched args optIn c c'
  | .recorded optIn none => Past st args ∧ optIn = false
  | .recorded optIn (some c') => Ahead st args ∧ ∃ c, st.row = some c ∧ Touched args optIn c c' ∧
      (c'.version = args.version → (c'.deliveredAt args.dest).isSome = true)
  | .returned ok => ok = true → Settled st args

def Task.Ok (st : Address) : Task → Prop
  | .idle => True
  | .merging row fact todo queued =>
    (∃ i now, mergeRow st.row (excluded now i) = (row, fact)) ∧
    (∀ args ∈ queued, args.version = row.version) ∧
    ∀ dest, row.pending dest = true → dest ∈ todo ∨ (⟨dest, row.version⟩ : DeliverArgs) ∈ queued ∨
      unfinished st.jobs ⟨dest, row.version⟩ = true
  | .delivering job args phase => st.jobs[job]? = some ⟨args, .running⟩ ∧ phase.Ok st args

def Address.optedIn (st : Address) : Bool := st.row.any fun c => c.resendOptInSentAt.isSome

structure Address.Sound (st : Address) : Prop where
  queued : ∀ c dest, st.row = some c → c.pending dest = true →
    unfinished st.jobs ⟨dest, c.version⟩ = true
  bounded : ∀ j ∈ st.jobs, ∃ c, st.row = some c ∧ j.args.version ≤ c.version
  carried : ∀ c dest, st.row = some c → (c.deliveredAt dest).isSome = true →
    Called st.log dest c.facts
  text : ∀ c, st.row = some c → c.TextOfConsent
  optIn : st.log.count .optIn ≤ st.optedIn.toNat

/-! ### What a step does -/

inductive Change (st : Address) (locks : List Lock) : Address → Prop where
  | same : Change st locks st
  | job {id state} (hlock : .worker id ∈ locks)
      (hstate : state.live = true ∨ ∀ j, st.jobs[id]? = some j → Settled st j.args) :
      Change st locks (st.setJob id state)
  | call {dest k} (hlock : .deliver dest ∈ locks) :
      Change st locks { st with log := st.log ++ [.call dest k] }
  | merge {i now row fact} {queued : List DeliverArgs} (hlock : .row ∈ locks)
      (hmerge : mergeRow st.row (excluded now i) = (row, fact))
      (hqueued : ∀ args ∈ queued, args.version = row.version)
      (hcounted : ∀ dest, row.pending dest = true →
        (⟨dest, row.version⟩ : DeliverArgs) ∈ queued ∨
          unfinished st.jobs ⟨dest, row.version⟩ = true) :
      Change st locks
        { row := some row
          jobs := st.jobs ++ queued.map fun args => { args := args }
          log := st.log ++ if fact then [.fact] else [] }
  | commit {args : DeliverArgs} {optIn c c'} (hlock : .row ∈ locks)
    (hdeliver : .deliver args.dest ∈ locks)
      (hc : st.row = some c) (htouched : Touched args optIn c c') (hahead : Ahead st args) :
      Change st locks { st with
        row := some c'
        log := st.log ++ if optIn then [.optIn] else [] }

section
variable {st st' : Address} {locks : List Lock}

theorem setJob_get {id id' : ℕ} {state : RiverState} :
    (st.setJob id state).jobs[id']? = if id = id' then
      st.jobs[id']?.map fun j => { j with state := state } else st.jobs[id']? := by
  simp only [Address.setJob, List.getElem?_modify, Option.map_eq_map]
  split
  · rfl
  · cases st.jobs[id']? with
    | none => rfl
    | some _ => rfl

theorem setJob_unfinished {id : ℕ} {state : RiverState} {args : DeliverArgs}
    (hstate : state.live = true ∨ ∀ j, st.jobs[id]? = some j → Settled st j.args)
    (h : unfinished st.jobs args = true) :
    unfinished (st.setJob id state).jobs args = true ∨ Settled st args := by
  obtain ⟨j, hj, hargs, hlive⟩ := unfinished_iff.mp h
  obtain ⟨n, hn⟩ := List.mem_iff_getElem?.mp hj
  by_cases hid : id = n
  · subst hid
    rcases hstate with hstate | hsettled
    · refine .inl (unfinished_iff.mpr ⟨{ j with state := state }, ?_, hargs, hstate⟩)
      refine List.mem_iff_getElem?.mpr ⟨id, ?_⟩
      rw [setJob_get, if_pos rfl, hn, Option.map_some]
    · rw [← hargs]
      exact .inr (hsettled j hn)
  · refine .inl (unfinished_iff.mpr ⟨j, List.mem_iff_getElem?.mpr ⟨n, ?_⟩, hargs, hlive⟩)
    rw [setJob_get, if_neg hid, hn]

theorem unfinished_append {jobs new : List DeliverJob} {args : DeliverArgs}
    (h : unfinished jobs args = true) : unfinished (jobs ++ new) args = true := by
  rw [unfinished, List.any_append, ← unfinished, h, Bool.true_or]

theorem unfinished_queued {jobs : List DeliverJob} {queued : List DeliverArgs} {args : DeliverArgs}
    (h : args ∈ queued) :
    unfinished (jobs ++ queued.map fun args => { args := args }) args = true :=
  unfinished_iff.mpr ⟨{ args := args },
    List.mem_append_right _ (List.mem_map.mpr ⟨args, h, rfl⟩), rfl, rfl⟩

theorem Change.follows (hs : st.Sound) (h : Change st locks st') {c : Row} (hc : st.row = some c) :
    ∃ c', st'.row = some c' ∧ Later c c' ∧ (c'.version = c.version →
      ∀ dest f, Called st.log dest f → Called st'.log dest f) := by
  cases h with
  | same => exact ⟨c, hc, .refl c, fun _ _ _ h => h⟩
  | job => exact ⟨c, hc, .refl c, fun _ _ _ h => h⟩
  | call =>
    refine ⟨c, hc, .refl c, fun _ _ _ h => h.append ?_⟩
    simp only [List.mem_singleton, reduceCtorEq, not_false_eq_true]
  | merge _ hmerge =>
    rw [hc] at hmerge
    cases hmerge
    refine ⟨_, rfl, update_later (hs.text c hc) _, fun hversion dest f hcalled => ?_⟩
    rw [update_version.mp hversion]
    exact hcalled.append List.not_mem_nil
  | @commit _ optIn c₀ c' _ _ hc₀ htouched =>
    obtain rfl := Option.some.inj (hc.symm.trans hc₀)
    refine ⟨c', rfl, htouched.later, fun _ dest f hcalled => hcalled.append ?_⟩
    cases optIn <;> simp

theorem Change.row_kept (h : Change st locks st') (hfree : .row ∉ locks) : st'.row = st.row := by
  cases h with
  | same => rfl
  | job => rfl
  | call => rfl
  | merge hlock => exact absurd hlock hfree
  | commit hlock => exact absurd hlock hfree

theorem Change.optIn_kept (h : Change st locks st') (hfree : .deliver .resend ∉ locks) {c c' : Row}
    (hc : st.row = some c) (hc' : st'.row = some c') :
    c'.resendOptInSentAt = c.resendOptInSentAt := by
  cases h with
  | same => rw [Option.some.inj (hc.symm.trans hc')]
  | job => rw [Option.some.inj (hc.symm.trans hc')]
  | call => rw [Option.some.inj (hc.symm.trans hc')]
  | merge _ hmerge =>
    rw [hc] at hmerge
    cases hmerge
    cases hc'
    rfl
  | @commit args optIn c₀ c₁ _ hdeliver hc₀ htouched =>
    obtain rfl := Option.some.inj (hc.symm.trans hc₀)
    obtain rfl := Option.some.inj hc'
    refine htouched.optInKept (Bool.eq_false_iff.mpr fun hoptIn => hfree ?_)
    rw [← (htouched.optedIn hoptIn).1]
    exact hdeliver

theorem Change.job_kept (h : Change st locks st') {id : ℕ} {j : DeliverJob}
    (hfree : .worker id ∉ locks) (hj : st.jobs[id]? = some j) : st'.jobs[id]? = some j := by
  cases h with
  | same => exact hj
  | @job id' _ hlock =>
    have hne : id' ≠ id := by
      rintro rfl
      exact hfree hlock
    rw [setJob_get, if_neg hne, hj]
  | call => exact hj
  | merge => exact List.getElem?_append_left (List.getElem?_eq_some_iff.mp hj).1 ▸ hj
  | commit => exact hj

theorem Change.unfinished (h : Change st locks st') {args : DeliverArgs}
    (hunfinished : unfinished st.jobs args = true) :
    Merge.unfinished st'.jobs args = true ∨ Settled st args := by
  cases h with
  | same => exact .inl hunfinished
  | job _ hstate => exact setJob_unfinished hstate hunfinished
  | call => exact .inl hunfinished
  | merge => exact .inl (unfinished_append hunfinished)
  | commit => exact .inl hunfinished

/-! ### What the others rely on survives -/

def Reached (st : Address) (args : DeliverArgs) : Prop :=
  ∃ c, st.row = some c ∧ args.version ≤ c.version

theorem Address.Sound.reached (hs : st.Sound) {id : ℕ} {j : DeliverJob}
    (hj : st.jobs[id]? = some j) : Reached st j.args :=
  hs.bounded j (List.mem_iff_getElem?.mpr ⟨id, hj⟩)

theorem Change.at_version (hs : st.Sound) (h : Change st locks st') {args : DeliverArgs}
    (hreached : Reached st args) {c' : Row} (hc' : st'.row = some c')
    (hversion : c'.version = args.version) :
    ∃ c, st.row = some c ∧ c.version = args.version ∧ c'.version = c.version ∧ Later c c' ∧
      ∀ dest f, Called st.log dest f → Called st'.log dest f := by
  obtain ⟨c, hc, hle⟩ := hreached
  obtain ⟨c₁, hc₁, hlater, hcalled⟩ := h.follows hs hc
  obtain rfl := Option.some.inj (hc'.symm.trans hc₁)
  have := hlater.version
  have hsame : c'.version = c.version := by omega
  exact ⟨c, hc, hsame.symm.trans hversion, hsame, hlater, hcalled hsame⟩

theorem Ahead.frame {args : DeliverArgs} (hahead : Ahead st args) (hs : st.Sound)
    (h : Change st locks st') (hreached : Reached st args) : Ahead st' args := by
  intro c' hc' hversion
  obtain ⟨c, hc, hat, hsame, hlater, hcalled⟩ := h.at_version hs hreached hc' hversion
  rw [hlater.facts hsame]
  exact hcalled _ _ (hahead c hc hat)

theorem Past.frame {args : DeliverArgs} (hpast : Past st args) (hs : st.Sound)
    (h : Change st locks st') (hreached : Reached st args) : Past st' args := by
  intro c' hc'
  obtain ⟨c, hc, -⟩ := hreached
  obtain ⟨c₁, hc₁, hlater, -⟩ := h.follows hs hc
  obtain rfl := Option.some.inj (hc'.symm.trans hc₁)
  exact (hpast c hc).trans_le hlater.version

theorem Later.pending {c c' : Row} (h : Later c c') (hversion : c'.version = c.version)
    {dest : Dest} (hpending : c.pending dest = false) : c'.pending dest = false := by
  simp only [Row.pending, Bool.and_eq_false_iff, Option.isNone_eq_false_iff] at hpending ⊢
  rw [applies_of_facts (h.facts hversion)]
  exact hpending.imp_left (h.delivered hversion dest)

theorem Settled.frame {args : DeliverArgs} (hsettled : Settled st args) (hs : st.Sound)
    (h : Change st locks st') (hreached : Reached st args) : Settled st' args := by
  intro c' hc' hversion
  obtain ⟨c, hc, hat, hsame, hlater, -⟩ := h.at_version hs hreached hc' hversion
  exact hlater.pending hsame (hsettled c hc hat)

theorem Phase.Ok.frame {args : DeliverArgs} {phase : Phase} (hok : phase.Ok st args)
    (hs : st.Sound) (h : Change st locks st') (hreached : Reached st args)
    (hfree : ∀ l ∈ phase.locks args.dest, l ∉ locks) : phase.Ok st' args := by
  have hoptIn : Lock.deliver args.dest ∈ phase.locks args.dest → args.dest = .resend →
      Lock.deliver .resend ∉ locks := by
    intro hheld hdest
    rw [hdest] at hheld hfree
    exact hfree _ hheld
  obtain ⟨r, hr, -⟩ := id hreached
  obtain ⟨r', hr', hlater, -⟩ := h.follows hs hr
  cases phase with
  | started => trivial
  | locked => trivial
  | read c =>
    obtain ⟨hversion, r₀, hr₀, hafter, hkept⟩ := hok
    obtain rfl := Option.some.inj (hr.symm.trans hr₀)
    refine ⟨hversion, r', hr', hafter.trans hlater, fun hdest => ?_⟩
    rw [h.optIn_kept (hoptIn List.mem_cons_self hdest) hr hr']
    exact hkept hdest
  | sent c optIn =>
    obtain ⟨hahead, hfirst⟩ := hok
    refine ⟨hahead.frame hs h hreached, fun hsends => ?_⟩
    obtain ⟨hdest, hnone⟩ := hfirst hsends
    refine ⟨hdest, fun r₁ hr₁ => ?_⟩
    rw [h.optIn_kept (hoptIn List.mem_cons_self hdest) hr hr₁]
    exact hnone r hr
  | marked optIn written =>
    cases written with
    | none => exact ⟨hok.1.frame hs h hreached, hok.2⟩
    | some c' =>
      have hrow := h.row_kept (hfree _ (List.mem_cons_of_mem _ List.mem_cons_self))
      obtain ⟨hahead, c, hc, htouched⟩ := hok
      exact ⟨hahead.frame hs h hreached, c, hrow.trans hc, htouched⟩
  | recorded optIn written =>
    cases written with
    | none => exact ⟨hok.1.frame hs h hreached, hok.2⟩
    | some c' =>
      have hrow := h.row_kept (hfree _ (List.mem_cons_of_mem _ List.mem_cons_self))
      obtain ⟨hahead, c, hc, htouched⟩ := hok
      exact ⟨hahead.frame hs h hreached, c, hrow.trans hc, htouched⟩
  | returned ok => exact fun hreturned => (hok hreturned).frame hs h hreached

theorem Settled.not_pending {args : DeliverArgs} {i : Intake} {now : ℕ} {row : Row} {fact : Bool}
    (hsettled : Settled st args) (hs : st.Sound) (hunfinished : unfinished st.jobs args = true)
    (hmerge : mergeRow st.row (excluded now i) = (row, fact)) (hversion : args.version = row.version) :
    row.pending args.dest = false := by
  obtain ⟨j, hj, rfl, -⟩ := unfinished_iff.mp hunfinished
  obtain ⟨c, hc, hle⟩ := hs.bounded j hj
  rw [hc] at hmerge
  cases hmerge
  have hlater := update_later (hs.text c hc) (excluded now i)
  have := hlater.version
  have hsame : (update c (excluded now i)).version = c.version := by omega
  exact hlater.pending hsame (hsettled c hc (by omega))

theorem Task.Ok.frame {t : Task} (hu : t.Ok st) (hs : st.Sound) (h : Change st locks st')
    (hfree : ∀ l ∈ t.holds, l ∉ locks) : t.Ok st' := by
  cases t with
  | idle => trivial
  | merging row fact todo queued =>
    obtain ⟨⟨i, now, hmerge⟩, hqueued, hcounted⟩ := hu
    have hrow := h.row_kept (hfree _ List.mem_cons_self)
    refine ⟨⟨i, now, by rw [hrow]; exact hmerge⟩, hqueued, fun dest hpending => ?_⟩
    obtain htodo | hin | hunfinished := hcounted dest hpending
    · exact .inl htodo
    · exact .inr (.inl hin)
    · obtain hkept | hsettled := h.unfinished hunfinished
      · exact .inr (.inr hkept)
      · have hnot := hsettled.not_pending hs hunfinished hmerge rfl
        rw [hpending] at hnot
        cases hnot
  | delivering job args phase =>
    obtain ⟨hjob, hok⟩ := hu
    refine ⟨h.job_kept (hfree _ List.mem_cons_self) hjob, ?_⟩
    exact hok.frame hs h (hs.reached hjob) fun l hl => hfree l (List.mem_cons_of_mem _ hl)

/-! ### The step of a task -/

theorem Change.sound (hs : st.Sound) (h : Change st locks st') : st'.Sound := by
  cases h with
  | same => exact hs
  | @job id state hlock hstate =>
    refine ⟨fun c dest hc hpending => ?_, fun j hj => ?_, hs.carried, hs.text, hs.optIn⟩
    · obtain hkept | hsettled := setJob_unfinished hstate (hs.queued c dest hc hpending)
      · exact hkept
      · rw [hsettled c hc rfl] at hpending
        cases hpending
    · obtain ⟨n, hn⟩ := List.mem_iff_getElem?.mp hj
      rw [setJob_get] at hn
      split at hn
      · obtain ⟨j₀, hj₀, rfl⟩ := Option.map_eq_some_iff.mp hn
        have hreached := hs.reached hj₀
        exact hreached
      · exact hs.reached hn
  | @call dest k =>
    refine ⟨hs.queued, hs.bounded, fun c dest' hc hdelivered => ?_, hs.text, ?_⟩
    · refine (hs.carried c dest' hc hdelivered).append ?_
      simp only [List.mem_singleton, reduceCtorEq, not_false_eq_true]
    · rw [List.count_append, List.count_singleton]
      exact hs.optIn
  | @merge i now row fact queued hlock hmerge hqueued hcounted =>
    have hcount : (st.log ++ if fact then [Event.fact] else []).count Event.optIn =
        st.log.count Event.optIn := by
      cases fact <;> simp
    refine ⟨fun c dest hc hpending => ?_, fun j hj => ?_, fun c dest hc hdelivered => ?_,
      fun c hc => ?_, ?_⟩
    · obtain rfl := Option.some.inj hc
      exact (hcounted dest hpending).elim unfinished_queued unfinished_append
    · rcases List.mem_append.mp hj with hj | hj
      · obtain ⟨c, hc, hle⟩ := hs.bounded j hj
        rw [hc] at hmerge
        cases hmerge
        exact ⟨_, rfl, hle.trans (update_later (hs.text c hc) _).version⟩
      · obtain ⟨args, hargs, rfl⟩ := List.mem_map.mp hj
        exact ⟨row, rfl, (hqueued args hargs).le⟩
    · obtain rfl := Option.some.inj hc
      obtain ⟨-, rfl, -⟩ | ⟨c₀, hc₀, rfl, rfl⟩ := mergeRow_cases hmerge
      · rw [excluded_delivered] at hdelivered
        cases hdelivered
      · rw [update_delivered] at hdelivered
        split at hdelivered
        · cases hdelivered
        · rename_i hold
          rw [Bool.not_eq_true] at hold
          rw [update_facts hold, hold]
          exact (hs.carried c₀ dest hc₀ hdelivered).append List.not_mem_nil
    · obtain rfl := Option.some.inj hc
      obtain ⟨-, rfl, -⟩ | ⟨c₀, hc₀, rfl, -⟩ := mergeRow_cases hmerge
      · exact excluded_text now i
      · exact update_text (hs.text c₀ hc₀) (excluded_text now i)
    · refine hcount.trans_le (hs.optIn.trans ?_)
      obtain ⟨hnone, rfl, -⟩ | ⟨c, hc, rfl, -⟩ := mergeRow_cases hmerge
      · simp only [Address.optedIn, hnone, Option.any_none, Bool.toNat_false, Nat.zero_le]
      · simp only [Address.optedIn, hc, Option.any_some, update, le_refl]
  | @commit args optIn c c' hlock hdeliver hc htouched hahead =>
    have hnew : Event.fact ∉ (if optIn then [Event.optIn] else []) := by
      cases optIn <;> simp
    refine ⟨fun c₁ dest hc₁ hpending => ?_, fun j hj => ?_, fun c₁ dest hc₁ hdelivered => ?_,
      fun c₁ hc₁ => ?_, ?_⟩
    · obtain rfl := Option.some.inj hc₁
      rw [htouched.version]
      refine hs.queued c dest hc ?_
      by_contra hnot
      rw [htouched.later.pending htouched.version (Bool.eq_false_iff.mpr hnot)] at hpending
      cases hpending
    · obtain ⟨c₁, hc₁, hle⟩ := hs.bounded j hj
      obtain rfl := Option.some.inj (hc.symm.trans hc₁)
      exact ⟨c', rfl, hle.trans htouched.version.ge⟩
    · obtain rfl := Option.some.inj hc₁
      rw [htouched.later.facts htouched.version]
      obtain hold | ⟨rfl, hversion⟩ := htouched.delivered dest hdelivered
      · exact (hs.carried c dest hc hold).append hnew
      · exact (hahead c hc hversion).append hnew
    · obtain rfl := Option.some.inj hc₁
      exact htouched.text.mpr (hs.text c hc)
    · have hbefore := hs.optIn
      rw [List.count_append]
      cases optIn with
      | true =>
        -- the run that sends it is the first
        obtain ⟨-, hnone, hsome⟩ := htouched.optedIn rfl
        simp only [Address.optedIn, hc, Option.any_some, hnone, Option.isSome_none, Bool.toNat_false,
          Nat.le_zero] at hbefore
        simp only [hbefore, Address.optedIn, Option.any_some, hsome]
        decide
      | false =>
        simp only [Address.optedIn, hc, Option.any_some] at hbefore
        simpa only [Address.optedIn, Option.any_some, htouched.optInKept rfl, Bool.false_eq_true,
          if_false, List.count_nil, Nat.add_zero] using hbefore

theorem sendsOptIn_iff {dest : Dest} {c : Row} : sendsOptIn dest c = true ↔
    dest = .resend ∧ c.resendOptInSentAt = none ∧ c.marketingConsentedAt.isSome = true := by
  cases dest <;> simp [sendsOptIn, and_comm]

theorem mark_ok {args : DeliverArgs} {optIn : Bool} {c : Row} (hok : (Phase.sent c optIn).Ok st args)
    (hreached : Reached st args) (now : ℕ) :
    (Phase.marked optIn ((marks st optIn).map fun r => r.markOptIn now)).Ok st args := by
  obtain ⟨hahead, hfirst⟩ := hok
  obtain ⟨r, hr, -⟩ := hreached
  cases optIn with
  | false =>
    have hmarks : marks st false = none := by
      simp only [marks, hr, Bool.false_and, Bool.false_eq_true, if_false]
    rw [hmarks]
    exact ⟨hahead, rfl⟩
  | true =>
    obtain ⟨hdest, hnone⟩ := hfirst rfl
    have hmarks : marks st true = some r := by
      simp only [marks, hr, hnone r hr, Option.isNone_none, Bool.and_self, if_true]
    rw [hmarks]
    exact ⟨hahead, r, hr, markOptIn_touched hdest (hnone r hr) now⟩

theorem records_eq_some {row : Option Row} {version : ℕ} {r : Row}
    (h : records row version = some r) : row = some r ∧ r.version = version := by
  unfold records at h
  split at h
  · cases h
  · split at h
    · rename_i hversion
      obtain rfl := Option.some.inj h
      exact ⟨rfl, hversion⟩
    · cases h

theorem records_eq_none {row : Option Row} {version : ℕ} (h : records row version = none) {r : Row}
    (hr : row = some r) : r.version ≠ version := by
  subst hr
  simpa only [records, ite_eq_right_iff, reduceCtorEq, imp_false] using h

theorem miss_ok {args : DeliverArgs} {optIn : Bool} {written : Option Row}
    (hok : (Phase.marked optIn written).Ok st args) (hreached : Reached st args)
    (hmiss : records (written.or st.row) args.version = none) :
    (Phase.recorded optIn written).Ok st args := by
  cases written with
  | none =>
    obtain ⟨c, hc, hle⟩ := hreached
    refine ⟨fun c₁ hc₁ => ?_, hok.2⟩
    obtain rfl := Option.some.inj (hc.symm.trans hc₁)
    exact lt_of_le_of_ne hle (records_eq_none hmiss hc).symm
  | some c' =>
    obtain ⟨hahead, c, hc, htouched⟩ := hok
    exact ⟨hahead, c, hc, htouched, fun hversion => absurd hversion (records_eq_none hmiss rfl)⟩

theorem record_ok {args : DeliverArgs} {optIn : Bool} {written : Option Row} {r : Row}
    (hok : (Phase.marked optIn written).Ok st args)
    (hfound : records (written.or st.row) args.version = some r) (now : ℕ) (mode : String) :
    (Phase.recorded optIn (some (r.recordDelivered args.dest now mode))).Ok st args := by
  obtain ⟨hrow, hversion⟩ := records_eq_some hfound
  have hdelivered : ((r.recordDelivered args.dest now mode).deliveredAt args.dest).isSome = true := by
    rw [recordDelivered_at, if_pos rfl]
    rfl
  cases written with
  | none =>
    obtain ⟨hahead, rfl⟩ := hok
    exact ⟨hahead, r, hrow, (Touched.refl args r).record hversion now mode, fun _ => hdelivered⟩
  | some c' =>
    obtain ⟨hahead, c, hc, htouched⟩ := hok
    obtain rfl := Option.some.inj hrow
    exact ⟨hahead, c, hc, htouched.record hversion now mode, fun _ => hdelivered⟩

theorem move_own {t t' : Task} {act : Act} (hs : st.Sound) (ht : t.Ok st)
    (h : next st t act = some (st', t')) :
    Change st (t.holds ++ t.needs st act) st' ∧ t'.Ok st' := by
  cases t with
  | idle =>
    obtain ⟨i, now, row, fact, rfl, hmerge, rfl, rfl⟩ | ⟨job, j, rfl, hj, rfl, rfl⟩ |
      ⟨job, rfl, rfl, rfl⟩ := idleNext_cases h
    · refine ⟨.same, ⟨i, now, hmerge⟩, nofun, fun dest hpending => .inl ?_⟩
      refine List.mem_filter.mpr ⟨?_, hpending⟩
      cases dest <;> decide
    · refine ⟨.job List.mem_cons_self (.inl rfl), ?_, trivial⟩
      rw [setJob_get, if_pos rfl, hj, Option.map_some]
    · exact ⟨.job List.mem_cons_self (.inl rfl), trivial⟩
  | merging row fact todo queued =>
    obtain ⟨⟨i, now, hmerge⟩, hqueued, hcounted⟩ := ht
    obtain ⟨dest, todo', rfl, rfl, queued', rfl, hinsert⟩ | ⟨rfl, rfl, rfl⟩ | ⟨rfl, rfl⟩ :=
      mergeNext_cases h
    · refine ⟨.same, ⟨i, now, hmerge⟩, ?_, fun dest' hpending => ?_⟩
      · intro args hargs
        obtain ⟨rfl, -⟩ | rfl := hinsert
        · exact hqueued args hargs
        · rcases List.mem_append.mp hargs with hargs | hargs
          · exact hqueued args hargs
          · rw [List.mem_singleton.mp hargs]
      · have hsub : ∀ args ∈ queued, args ∈ queued' := by
          obtain ⟨rfl, -⟩ | rfl := hinsert
          · exact fun _ h => h
          · exact fun _ h => List.mem_append_left _ h
        obtain htodo | hin | hunfinished := hcounted dest' hpending
        · rcases List.mem_cons.mp htodo with rfl | htodo
          · obtain ⟨-, hunfinished⟩ | rfl := hinsert
            · exact .inr (.inr hunfinished)
            · exact .inr (.inl (List.mem_append_right _ List.mem_cons_self))
          · exact .inl htodo
        · exact .inr (.inl (hsub _ hin))
        · exact .inr (.inr hunfinished)
    · refine ⟨.merge List.mem_cons_self hmerge hqueued fun dest hpending => ?_, trivial⟩
      exact (hcounted dest hpending).resolve_left List.not_mem_nil
    · exact ⟨.same, trivial⟩
  | delivering job args phase =>
    obtain ⟨hjob, hok⟩ := ht
    have hreached : Reached st args := hs.reached hjob
    obtain ⟨rfl, rfl, rfl, rfl⟩ | ⟨rfl, rfl, rfl⟩ | ⟨c, rfl, rfl, rfl⟩ |
      ⟨c, optIn, now, rfl, rfl, rfl, rfl⟩ | ⟨optIn, written, rfl, hmiss, rfl, rfl⟩ |
      ⟨optIn, written, now, mode, r, rfl, rfl, hfound, rfl, rfl⟩ |
      ⟨optIn, written, rfl, rfl, rfl⟩ | ⟨ok, rfl, rfl, rfl⟩ | ⟨rfl, rfl⟩ | ⟨rfl, rfl⟩ :=
      workNext_cases h
    · exact ⟨.same, hjob, trivial⟩
    · refine ⟨.same, hjob, ?_⟩
      obtain ⟨hread, hskip⟩ | ⟨c, hc, hversion, hread⟩ := readPhase_cases args st'.row
      · rw [hread]
        exact fun _ => hskip
      · rw [hread]
        exact ⟨hversion, c, hc, .refl c, fun _ => rfl⟩
    · obtain ⟨hversion, r, hr, hlater, hkept⟩ := hok
      refine ⟨.call (List.mem_append_left _ (List.mem_cons_of_mem _ List.mem_cons_self)), hjob,
        fun r₁ hr₁ hat => ?_, fun hsends => ?_⟩
      · obtain rfl := Option.some.inj (hr.symm.trans hr₁)
        rw [hlater.facts (hat.trans hversion.symm)]
        exact called_now _ _ c
      · obtain ⟨hdest, hnone, -⟩ := sendsOptIn_iff.mp hsends
        refine ⟨hdest, fun r₁ hr₁ => ?_⟩
        obtain rfl := Option.some.inj (hr.symm.trans hr₁)
        rw [hkept hdest, hnone]
    · exact ⟨.same, hjob, mark_ok hok hreached now⟩
    · exact ⟨.same, hjob, miss_ok hok hreached hmiss⟩
    · exact ⟨.same, hjob, record_ok hok hfound now mode⟩
    · cases written with
      | none =>
        obtain ⟨hpast, rfl⟩ := hok
        have hsame : ({ st with row := (none : Option Row).or st.row, log := st.log ++ [] } : Address) =
            st := by
          rw [List.append_nil]
          rfl
        simp only [Bool.false_eq_true, if_false, hsame]
        exact ⟨.same, hjob, fun _ c hc hversion => absurd hversion (hpast c hc).ne'⟩
      | some c' =>
        obtain ⟨hahead, c, hc, htouched, hdelivered⟩ := hok
        refine ⟨.commit (List.mem_append_left _ ?_) (List.mem_append_left _ ?_) hc htouched hahead,
          hjob, fun _ c₁ hc₁ hversion => ?_⟩
        · exact List.mem_cons_of_mem _ (List.mem_cons_of_mem _ List.mem_cons_self)
        · exact List.mem_cons_of_mem _ List.mem_cons_self
        · obtain rfl := Option.some.inj hc₁
          simp only [Row.pending, Option.isNone_eq_false_iff.mpr (hdelivered hversion),
            Bool.false_and]
    · refine ⟨.job (List.mem_append_left _ List.mem_cons_self) ?_, trivial⟩
      cases ok with
      | false => exact .inl rfl
      | true =>
        refine .inr fun j hj => ?_
        obtain rfl := Option.some.inj (hjob.symm.trans hj)
        exact hok rfl
    · exact ⟨.same, hjob, nofun⟩
    · exact ⟨.same, trivial⟩

end

/-! ### Runs -/

theorem facts_outline : protocol.Outline (fun _ _ _ => True) (fun _ _ _ _ => True)
    Address.Sound (fun st t => t.Ok st) (fun _ _ => True) where
  store hs ht _ h := (move_own hs ht h).1.sound hs
  own hs ht _ h := (move_own hs ht h).2
  other hs ht _ h hu _ _ hapart := by
    refine hu.frame hs (move_own hs ht h).1 fun l hl hlock => ?_
    have hfree := hapart l hlock l hl
    simp only [protocol, decide_true, Bool.true_eq_false] at hfree
  pair _ _ _ _ _ _ _ _ := ⟨trivial, trivial⟩

theorem Address.Sound.start : ({} : Address).Sound where
  queued _ _ h := by cases h
  bounded _ h := by cases h
  carried _ _ h := by cases h
  text _ h := by cases h
  optIn := le_rfl

theorem holds_start : protocol.Holds Address.Sound (fun st t => t.Ok st) (fun _ _ => True)
    { store := {} } :=
  .start .start trivial trivial

theorem later_run {w w' : World Address Task} {steps : List (ℕ × Act)} {c : Row}
    (h : protocol.Holds Address.Sound (fun st t => t.Ok st) (fun _ _ => True) w)
    (hc : w.store.row = some c) (hrun : runFrom protocol.step w steps = some w') :
    ∃ c', w'.store.row = some c' ∧ Later c c' := by
  have hkept := invariant_run (I := fun w =>
    protocol.Holds Address.Sound (fun st t => t.Ok st) (fun _ _ => True) w ∧
      ∃ c', w.store.row = some c' ∧ Later c c') (fun w na w' hw hstep => ?_) ⟨h, c, hc, .refl c⟩ hrun
  · exact hkept.2
  · obtain ⟨hholds, c₁, hc₁, hlater⟩ := hw
    refine ⟨hholds.step facts_outline ⟨trivial, trivial, fun _ _ _ => trivial⟩ hstep, ?_⟩
    obtain ⟨-, d', t', hnext, rfl⟩ := Protocol.step_eq_some.mp hstep
    obtain ⟨c₂, hc₂, hnew, -⟩ :=
      (move_own hholds.store (hholds.each na.1) hnext).1.follows hholds.store hc₁
    exact ⟨c₂, hc₂, hlater.trans hnew⟩

/-- In every state each destination that applies and is not delivered has a job of the row's
version that has not finished; what is delivered was told the row's facts after the last of them
came; facts and their text stay; and one committed run at most sends the opt-in. -/
theorem every_fact_reaches {w : World Address Task} {steps : List (ℕ × Act)}
    (hrun : runFrom protocol.step { store := {} } steps = some w) :
    (∀ c dest, w.store.row = some c → c.applies dest = true → c.deliveredAt dest = none →
      ∃ j ∈ w.store.jobs, j.args = ⟨dest, c.version⟩ ∧ j.state.live = true) ∧
    (∀ c dest now, w.store.row = some c → c.deliveredAt dest = some now →
      Called w.store.log dest c.facts) ∧
    (∀ c later w', w.store.row = some c → runFrom protocol.step w later = some w' →
      ∃ c', w'.store.row = some c' ∧ c.Keeps c') ∧
    w.store.log.count .optIn ≤ 1 := by
  have hholds := holds_start.run facts_outline
    (along_of_forall (fun _ _ => ⟨trivial, trivial, fun _ _ _ => trivial⟩) _ _) hrun
  obtain ⟨hqueued, -, hcarried, -, hoptIn⟩ := hholds.store
  refine ⟨fun c dest hc happlies hnone => ?_, fun c dest now hc hdelivered => ?_,
    fun c later w' hc hlater => ?_, hoptIn.trans (Bool.toNat_le _)⟩
  · refine unfinished_iff.mp (hqueued c dest hc ?_)
    rw [Row.pending, hnone, happlies]
    rfl
  · refine hcarried c dest hc ?_
    rw [hdelivered]
    rfl
  · obtain ⟨c', hc', hkept⟩ := later_run hholds hc hlater
    exact ⟨c', hc', hkept.keeps⟩

def consentSteps : List (ℕ × Act) :=
  let merge (i : Intake) (jobs : ℕ) : List (ℕ × Act) :=
    (0, .merge i 5) :: List.replicate jobs (0, .insertJob) ++ [(0, .commit)]
  let worker (acts : List Act) : List (ℕ × Act) := acts.map fun act => (1, act)
  merge (registrant ⟨none, "Ada Eze", "Eze Ltd", "", none⟩) 2 ++
    worker [.fetch 1, .lock, .read, .send true] ++
    merge (demoRequest ⟨"Ada Eze", "Eze Ltd", "I agree"⟩) 2 ++
    worker [.mark 7, .record 7 "live", .commit, .complete, .fetch 3, .lock, .read, .send true,
      .mark 8, .record 8 "live", .commit, .complete]

theorem every_fact_reaches_sample :
    ∃ w c, runFrom protocol.step { store := {} } consentSteps = some w ∧
      w.store.row = some c ∧ c.version = 2 ∧ Called w.store.log .resend c.facts ∧
      w.store.log.count .optIn ≤ 1 := by
  have htest : (runFrom protocol.step { store := {} } consentSteps).any (fun w =>
      w.store.row.any fun c => c.version == 2 && c.deliveredAt .resend == some 8) = true := by
    decide +kernel
  obtain ⟨w, hrun, hw⟩ := (Option.any_eq_true _ _).mp htest
  obtain ⟨c, hc, hat⟩ := (Option.any_eq_true _ _).mp hw
  rw [Bool.and_eq_true, beq_iff_eq, beq_iff_eq] at hat
  obtain ⟨-, hcalled, -, honce⟩ := every_fact_reaches hrun
  exact ⟨w, c, hrun, hc, hat.1, hcalled c .resend 8 hc hat.2, honce⟩

end InvoiceOs.Notifications.Merge
