import InvoiceOs.Notifications.Erased

/-! Every step of an attempt, a delivery or River keeps what the others rely on, so the row is
finished only over a clean store. -/

namespace InvoiceOs.Notifications

open Lib
open Submission (RiverState)

inductive Change (st : Store) : Task → List Lock → Store → Prop where
  | same {t locks} : Change st t locks st
  | request {locks} : Change st .idle locks st.enqueueErasure
  | job {t locks id j state} (hjob : st.jobs.get? id = some j) (hlive : j.state.live = true)
      (hlock : .worker id ∈ locks) : Change st t locks (st.setJobState id state)
  | cleaned {locks id j} (hjob : st.jobs.get? id = some j) (hended : j.state.live = false)
      (hleaves : leavesRow st .idle (.clean id) = true) : Change st .idle locks (st.removeJob id)
  | write {t locks dest id st'} (hruns : st.Runs id) (hlock : .deliver dest ∈ locks)
      (herasure : st'.erasure = st.erasure) (hjobs : st'.jobs = st.jobs)
      (hother : ∀ dest', dest' ≠ dest → st'.vendorEmpty dest' = st.vendorEmpty dest') :
      Change st t locks st'
  | erase {t locks dest cut} : Change st t locks (st.eraseContact dest cut).1
  | swept {a locks r found} (hr : st.erasure = some r) (hg : r.generation = a.generation)
      (hstep : a.step = .sweep) :
      Change st (.erasing a) locks ((st.sweep found).setErasure { r with localErased := true })
  | cameBack {a locks r found} (hr : st.erasure = some r) (hg : r.generation = a.generation) :
      Change st (.erasing a) locks
        ((st.sweep found).setErasure { r with hubspotErased := false, resendErased := false })
  | finished {a locks r found} (hr : st.erasure = some r) (hg : r.generation = a.generation)
      (hstep : a.step = .final) (hphase : a.phase = .found found)
      (hcount : st.sweepCount found = 0) :
      Change st (.erasing a) locks ((st.sweep found).setErasure { r with finished := true })
  | account {a locks r} (hr : st.erasure = some r) (hg : r.generation = a.generation) :
      Change st (.erasing a) locks (st.setErasure { r with accountErased := true })
  | hubspot {a locks r} (hr : st.erasure = some r) (hg : r.generation = a.generation)
      (hstep : a.step = .hubspot) (hphase : a.phase = .erased) :
      Change st (.erasing a) locks (st.setErasure { r with hubspotErased := true })
  | resend {a locks r} (hr : st.erasure = some r) (hg : r.generation = a.generation)
      (hstep : a.step = .resend) (hphase : a.phase = .erased) :
      Change st (.erasing a) locks (st.setErasure { r with resendErased := true })

theorem Store.Runs.of_jobs {st st' : Store} {job : ℕ} (h : st.Runs job) (hjobs : st'.jobs = st.jobs) :
    st'.Runs job := by
  unfold Store.Runs
  rw [hjobs]
  exact h

section
variable {st st' record : Store} {t' : Task} {act : Act}

theorem workNext_change {job : ℕ} {dest : Dest} {phase : WorkPhase} {task : WorkPhase → Task}
    {call : Option ℕ → Store × Answer}
    (h : workNext st job phase task call record act = some (st', t'))
    (hholds : ∀ phase, (task phase).holds = .worker job :: Task.workLocks dest phase)
    (hcall : ∀ cut, (call cut).1.erasure = st.erasure ∧ (call cut).1.jobs = st.jobs ∧
      ∀ dest', dest' ≠ dest → (call cut).1.vendorEmpty dest' = st.vendorEmpty dest')
    (hrecord : record.erasure = st.erasure ∧ record.jobs = st.jobs ∧
      ∀ dest', dest' ≠ dest → record.vendorEmpty dest' = st.vendorEmpty dest')
    (hruns : st.Runs job) (hok : ∀ phase st₁, st₁.Runs job → (task phase).Ok st₁) :
    (∀ t, Change st t ((task phase).holds ++ (task phase).needs act) st') ∧ t'.Ok st' := by
  have hworker : Lock.worker job ∈ (task phase).holds ++ (task phase).needs act := by
    rw [hholds]
    exact List.mem_cons_self
  have hdeliver : phase = .locked ∨ phase = .sent →
      Lock.deliver dest ∈ (task phase).holds ++ (task phase).needs act := by
    rw [hholds]
    rintro (rfl | rfl)
    · exact List.mem_cons_of_mem _ List.mem_cons_self
    · exact List.mem_cons_of_mem _ List.mem_cons_self
  obtain ⟨-, -, rfl, rfl⟩ | ⟨cut, hphase, rfl, rfl⟩ | ⟨hphase, rfl, rfl⟩ | ⟨rfl, rfl⟩ |
    ⟨state, -, rfl, rfl⟩ | ⟨rfl, rfl⟩ := workNext_cases h
  · exact ⟨fun _ => .same, hok _ _ hruns⟩
  · obtain ⟨herasure, hjobs, hother⟩ := hcall cut
    exact ⟨fun _ => .write hruns (hdeliver (.inl hphase)) herasure hjobs hother,
      hok _ _ (hruns.of_jobs hjobs)⟩
  · obtain ⟨herasure, hjobs, hother⟩ := hrecord
    exact ⟨fun _ => .write hruns (hdeliver (.inr hphase)) herasure hjobs hother,
      hok _ _ (hruns.of_jobs hjobs)⟩
  · exact ⟨fun _ => .same, hok _ _ hruns⟩
  · obtain ⟨j, hj, hrunning⟩ := hruns
    have hlive : j.state.live = true := by
      rw [hrunning]
      rfl
    exact ⟨fun _ => .job hj hlive hworker, trivial⟩
  · exact ⟨fun _ => .same, trivial⟩

end

section
variable {st st' : Store} {t t' : Task} {act : Act}

theorem deliver_setRunning {job : ℕ} {j : Job} (hj : st.jobs.get? job = some j) :
    (st.setJobState job .running).Runs job := by
  refine ⟨{ j with state := .running }, ?_, rfl⟩
  rw [setJobState_get?, if_pos rfl, hj, Option.map_some]

theorem ofAttempt_ok {a : Attempt} {steps : List EraseStep}
    (horder : ∀ b, a.enter steps = some b → b.Order) (hreads : a.Reads st) :
    (Task.ofAttempt (a.enter steps)).Ok st := by
  cases hb : a.enter steps with
  | none => trivial
  | some b =>
    have hbefore := horder b hb
    obtain ⟨step, rfl⟩ := enter_eq hb
    exact ⟨hbefore, hreads, ⟨nofun, nofun⟩⟩

theorem afterFailure_ok {a : Attempt} (horder : a.Order) (hreads : a.Reads st) :
    (Task.ofAttempt a.afterFailure).Ok st := by
  unfold Attempt.afterFailure
  unfold Attempt.Order at horder
  split
  · trivial
  · trivial
  · rename_i hsweep hfinal
    refine ofAttempt_ok (fun b hb => ?_) hreads
    cases hstep : a.step with
    | sweep => exact absurd hstep hsweep
    | final => exact absurd hstep hfinal
    | account =>
      rw [hstep] at horder hb
      exact enter_hubspot (a := { a with failed := true, step := .account }) horder hb
    | hubspot =>
      rw [hstep] at horder hb
      exact enter_resend (a := { a with failed := true, step := .hubspot }) horder (.inl rfl) hb
    | resend =>
      rw [hstep] at horder hb
      exact enter_final (a := { a with failed := true, step := .resend }) horder.1 (.inl rfl) hb

theorem reads_commit {a : Attempt} {r : Erasure} (hr : st.erasure = some r)
    (hgeneration : r.generation = a.generation) (hfinished : r.finished = false)
    (hlocal : r.localErased = a.localErased)
    (hhubspot : a.hubspotErased = true → r.hubspotErased = true)
    (hresend : a.resendErased = true → r.resendErased = true) : a.Reads st :=
  ⟨r, hr, hgeneration.ge, fun _ => ⟨hfinished, hlocal, hhubspot, hresend⟩⟩

theorem Attempt.Reads.row {a : Attempt} {r : Erasure} (h : a.Reads st) (hr : st.erasure = some r)
    (hg : r.generation = a.generation) : r.finished = false ∧ r.localErased = a.localErased ∧
      (a.hubspotErased = true → r.hubspotErased = true) ∧
      (a.resendErased = true → r.resendErased = true) := by
  obtain ⟨r', hr', -, hrow⟩ := h
  obtain rfl := Option.some.inj (hr.symm.trans hr')
  exact hrow hg

theorem move_own (ht : t.Ok st) (hleaves : leavesRow st t act = true) (h : Move st t act st' t') :
    Change st t (t.holds ++ t.needs act) st' ∧ t'.Ok st' := by
  cases h with
  | request => exact ⟨.request, trivial⟩
  | @begin generation =>
    refine ⟨.same, ?_⟩
    cases hb : st.beginErase generation with
    | none => trivial
    | some b =>
      obtain ⟨r, hr, hfinished, hg, henter⟩ := beginErase_eq hb
      rw [← henter]
      exact ofAttempt_ok (fun _ => enter_sweep) (reads_commit hr hg hfinished rfl id id)
  | deliver hjob => exact ⟨.job hjob rfl List.mem_cons_self, deliver_setRunning hjob⟩
  | deal hjob => exact ⟨.job hjob rfl List.mem_cons_self, deliver_setRunning hjob⟩
  | rescue hjob hrunning _ =>
    refine ⟨.job hjob ?_ List.mem_cons_self, trivial⟩
    rw [hrunning]
    rfl
  | clean hjob hended => exact ⟨.cleaned hjob hended hleaves, trivial⟩
  | @lock a dest phase hnext =>
    refine ⟨.same, ht.1, ht.2.1, ?_⟩
    unfold Task.nextLock at hnext
    split at hnext
    all_goals cases hnext
    all_goals exact ⟨nofun, nofun⟩
  | find =>
    refine ⟨.same, ht.1, ht.2.1, fun hnone => ?_, nofun⟩
    exact liveJobs_nil (Phase.found.inj hnone)
  | @sweep a ids st' t' hphase hcommit =>
    obtain ⟨horder, hreads, -⟩ := ht
    obtain ⟨rfl, rfl⟩ | ⟨r, hr, hg, ⟨hstep, rfl, rfl⟩ | ⟨hstep, rfl, rfl⟩ | ⟨hstep, rfl, hcount, rfl⟩⟩ :=
      commitSweep_cases hcommit
    · exact ⟨.same, trivial⟩
    · obtain ⟨hfinished, -, hhubspot, hresend⟩ := hreads.row hr hg
      refine ⟨.swept hr hg hstep, ofAttempt_ok (fun _ => enter_account rfl) ?_⟩
      exact reads_commit rfl hg hfinished rfl hhubspot hresend
    · exact ⟨.cameBack hr hg, trivial⟩
    · exact ⟨.finished hr hg hstep hphase hcount, trivial⟩
  | @erase a dest cut hstep hphase =>
    obtain ⟨horder, hreads, -⟩ := ht
    obtain ⟨herasure, -⟩ := eraseContact_frame st dest cut
    have hkept : a.Reads (st.eraseContact dest cut).1 := by
      unfold Attempt.Reads
      rw [herasure]
      exact hreads
    refine ⟨.erase, ?_⟩
    split
    · rename_i hok
      refine ⟨horder, hkept, nofun, fun dest' hdest' _ => ?_⟩
      obtain rfl := Option.some.inj (hstep.symm.trans hdest')
      exact eraseContact_ok hok
    · exact afterFailure_ok horder hkept
  | @stamp a act st' t' _ hcommit =>
    obtain ⟨horder, hreads, -⟩ := ht
    obtain ⟨rfl, rfl⟩ | ⟨r, hr, hg, hstamp⟩ := commitStamp_cases hcommit
    · exact ⟨.same, trivial⟩
    · obtain ⟨hfinished, hlocal, hhubspot, hresend⟩ := hreads.row hr hg
      unfold Attempt.Order at horder
      obtain ⟨hstep, rfl, rfl⟩ | ⟨hstep, hphase, rfl, rfl⟩ | ⟨hstep, hphase, rfl, rfl⟩ := hstamp
      · rw [hstep] at horder
        refine ⟨.account hr hg, ofAttempt_ok (fun _ => enter_hubspot horder) ?_⟩
        exact reads_commit rfl hg hfinished hlocal hhubspot hresend
      · rw [hstep] at horder
        refine ⟨.hubspot hr hg hstep hphase,
          ofAttempt_ok (fun _ => enter_resend horder (.inr rfl)) ?_⟩
        exact reads_commit rfl hg hfinished hlocal (fun _ => rfl) hresend
      · rw [hstep] at horder
        refine ⟨.resend hr hg hstep hphase, ofAttempt_ok (fun _ => enter_final horder.1
          (horder.2.imp_right fun hh => ⟨hh, rfl⟩)) ?_⟩
        exact reads_commit rfl hg hfinished hlocal hhubspot fun _ => rfl
  | fail => exact ⟨.same, afterFailure_ok ht.1 ht.2.1⟩
  | crash => exact ⟨.same, trivial⟩
  | @delivering job dest version phase act st' t' hwork =>
    have hown := workNext_change hwork (fun _ => rfl) (deliver_frame st dest version)
      ⟨rfl, rfl, fun dest' _ => by cases dest' <;> rfl⟩ ht (fun _ _ h => h)
    exact ⟨hown.1 _, hown.2⟩
  | dealing hwork =>
    have hown := workNext_change hwork (fun _ => rfl) (openDeal_frame st)
      ⟨rfl, rfl, fun _ _ => rfl⟩ ht (fun _ _ h => h)
    exact ⟨hown.1 _, hown.2⟩

end

/-! ### What every step keeps -/

theorem enqueueErasure_eq (st : Store) : ∃ r, st.enqueueErasure = st.setErasure r ∧
    r.hubspotErased = false ∧ r.resendErased = false ∧ r.finished = false ∧
    ∀ r₀, st.erasure = some r₀ → r₀.generation < r.generation := by
  unfold Store.enqueueErasure
  split
  · rename_i hnone
    refine ⟨_, rfl, rfl, rfl, rfl, fun r₀ hr₀ => ?_⟩
    rw [hnone] at hr₀
    cases hr₀
  · rename_i r hr
    refine ⟨_, rfl, rfl, rfl, rfl, fun r₀ hr₀ => ?_⟩
    obtain rfl := Option.some.inj (hr.symm.trans hr₀)
    exact Nat.lt_succ_self _

section
variable {st st' : Store} {t u : Task} {locks : List Lock}

theorem Task.Ok.frame (hu : u.Ok st)
    (hreads : ∀ a : Attempt, .attempt a.generation ∈ u.holds → a.Reads st → a.Reads st')
    (hfinal : st.AllFinal → st'.AllFinal)
    (hempty : ∀ dest, .deliver dest ∈ u.holds → st.vendorEmpty dest = true →
      st'.vendorEmpty dest = true)
    (hruns : ∀ job, .worker job ∈ u.holds → st.Runs job → st'.Runs job) : u.Ok st' := by
  cases u with
  | idle => trivial
  | delivering job dest version phase => exact hruns job List.mem_cons_self hu
  | dealing job phase => exact hruns job List.mem_cons_self hu
  | erasing a =>
    obtain ⟨horder, hknown, hnone, herased⟩ := hu
    refine ⟨horder, hreads a List.mem_cons_self hknown, fun hphase => hfinal (hnone hphase),
      fun dest hstep hphase => hempty dest ?_ (herased dest hstep hphase)⟩
    refine List.mem_cons_of_mem _ ?_
    rw [hphase]
    unfold EraseStep.dest? at hstep
    split at hstep
    · rename_i hs
      cases hstep
      rw [hs]
      exact List.mem_cons_self
    · rename_i hs
      cases hstep
      rw [hs]
      exact List.mem_cons_self
    · cases hstep

theorem Attempt.Reads.request {a : Attempt} (h : a.Reads st) : a.Reads st.enqueueErasure := by
  obtain ⟨r, hr, hle, -⟩ := h
  obtain ⟨r', hst', -, -, -, hraise⟩ := enqueueErasure_eq st
  have hlt := hraise r hr
  rw [hst']
  exact ⟨r', rfl, hle.trans hlt.le, fun hg => absurd (hg ▸ hlt) (not_lt.mpr hle)⟩

theorem Attempt.Reads.commit {a : Attempt} {r r' : Erasure} (h : a.Reads st)
    (hr : st.erasure = some r) (hr' : st'.erasure = some r') (hg : r'.generation = r.generation)
    (hne : r.generation ≠ a.generation) : a.Reads st' := by
  obtain ⟨r₀, hr₀, hle, -⟩ := h
  obtain rfl := Option.some.inj (hr.symm.trans hr₀)
  exact ⟨r', hr', hg ▸ hle, fun hsame => absurd (hg ▸ hsame) hne⟩

theorem generation_ne {a b : Attempt} {r : Erasure}
    (hapart : protocol.Apart locks u.holds) (hmine : .attempt a.generation ∈ locks)
    (htheirs : .attempt b.generation ∈ u.holds) (hg : r.generation = a.generation) :
    r.generation ≠ b.generation := by
  intro hsame
  have hfree := hapart _ hmine _ htheirs
  rw [← hg, ← hsame] at hfree
  exact of_decide_eq_false hfree rfl

theorem Task.Ok.commit {a : Attempt} {r r' : Erasure} {mid : Store} (hu : u.Ok st)
    (hapart : protocol.Apart locks u.holds) (hmine : .attempt a.generation ∈ locks)
    (hr : st.erasure = some r) (hg : r.generation = a.generation)
    (hg' : r'.generation = r.generation) (hfinal : st.AllFinal → mid.AllFinal)
    (hempty : ∀ dest, mid.vendorEmpty dest = st.vendorEmpty dest)
    (hruns : ∀ job, st.Runs job → mid.Runs job) : u.Ok (mid.setErasure r') := by
  refine hu.frame (fun b hb hreads => ?_) hfinal (fun dest _ h => (hempty dest).trans h)
    fun job _ => hruns job
  exact hreads.commit hr rfl hg' (generation_ne hapart hmine hb hg)

theorem Change.other (hmine : ∀ a, t = .erasing a → .attempt a.generation ∈ locks)
    (h : Change st t locks st') (hu : u.Ok st) (hapart : protocol.Apart locks u.holds) :
    u.Ok st' := by
  have hfree : ∀ l, l ∈ locks → l ∉ u.holds :=
    fun l hl hl' => of_decide_eq_false (hapart l hl l hl') rfl
  cases h with
  | same => exact hu
  | request =>
    obtain ⟨r, hst', -⟩ := enqueueErasure_eq st
    refine hu.frame (fun a _ ha => ha.request) ?_ ?_ ?_
    all_goals
      rw [hst']
    · exact id
    · exact fun _ _ => id
    · exact fun _ _ => id
  | job hjob hlive hlock =>
    refine hu.frame (fun _ _ => id) (fun hfinal => ?_) (fun _ _ => id) ?_
    · rw [hfinal _ _ hjob] at hlive
      cases hlive
    · rintro job hjob' ⟨j', hj', hrunning⟩
      refine ⟨j', ?_, hrunning⟩
      rw [setJobState_get?, if_neg, hj']
      rintro rfl
      exact hfree _ hlock hjob'
  | cleaned hjob hended =>
    refine hu.frame (fun _ _ => id) (fun hfinal id j hj => ?_) (fun _ _ => id) ?_
    · exact hfinal id j (removeJob_get?.mp hj).1
    · rintro job - ⟨j', hj', hrunning⟩
      refine ⟨j', removeJob_get?.mpr ⟨hj', ?_⟩, hrunning⟩
      rintro rfl
      obtain rfl := Option.some.inj (hjob.symm.trans hj')
      rw [hrunning] at hended
      cases hended
  | write _ hlock herasure hjobs hother =>
    refine hu.frame (fun a _ ha => ?_) (fun hfinal => ?_) (fun dest hdest hempty => ?_)
      fun job _ hruns => hruns.of_jobs hjobs
    · unfold Attempt.Reads
      rw [herasure]
      exact ha
    · unfold Store.AllFinal
      rw [hjobs]
      exact hfinal
    · rw [hother, hempty]
      rintro rfl
      exact hfree _ hlock hdest
  | @erase _ _ dest cut =>
    obtain ⟨herasure, hjobs, -⟩ := eraseContact_frame st dest cut
    refine hu.frame (fun a _ ha => ?_) (fun hfinal => ?_) (fun _ _ => eraseContact_empty)
      fun job _ hruns => hruns.of_jobs hjobs
    · unfold Attempt.Reads
      rw [herasure]
      exact ha
    · unfold Store.AllFinal
      rw [hjobs]
      exact hfinal
  | swept hr hg =>
    exact hu.commit hapart (hmine _ rfl) hr hg rfl sweep_final (fun _ => rfl) fun _ => sweep_runs
  | cameBack hr hg =>
    exact hu.commit hapart (hmine _ rfl) hr hg rfl sweep_final (fun _ => rfl) fun _ => sweep_runs
  | finished hr hg =>
    exact hu.commit hapart (hmine _ rfl) hr hg rfl sweep_final (fun _ => rfl) fun _ => sweep_runs
  | account hr hg =>
    exact hu.commit hapart (hmine _ rfl) hr hg rfl id (fun _ => rfl) fun _ => id
  | hubspot hr hg =>
    exact hu.commit hapart (hmine _ rfl) hr hg rfl id (fun _ => rfl) fun _ => id
  | resend hr hg =>
    exact hu.commit hapart (hmine _ rfl) hr hg rfl id (fun _ => rfl) fun _ => id

/-! ### The store -/

theorem setJobState_some {id job : ℕ} {state : RiverState} {j : Job}
    (h : st.jobs.get? id = some j) : ∃ j', (st.setJobState job state).jobs.get? id = some j' := by
  rw [setJobState_get?]
  split
  · rename_i hid
    rw [← hid, h]
    exact ⟨_, rfl⟩
  · exact ⟨j, h⟩

theorem Store.Clean.no_job {id : ℕ} {j : Job} (h : st.Clean) (hj : st.jobs.get? id = some j) :
    False := by
  rw [h.jobs id] at hj
  cases hj

theorem Store.Sound.commit {r' : Erasure} {mid : Store}
    (hfinished : r'.finished = false)
    (horder : ∀ dest, r'.stamped dest = true → r'.localErased = true)
    (hstamped : ∀ dest, r'.stamped dest = true →
      mid.vendorEmpty dest = true ∨ ∃ id j, mid.jobs.get? id = some j) :
    (mid.setErasure r').Sound where
  order r dest hr := by
    obtain rfl := Option.some.inj hr
    exact horder dest
  stamped r dest hr := by
    obtain rfl := Option.some.inj hr
    exact hstamped dest
  finished r hr hfin := by
    obtain rfl := Option.some.inj hr
    rw [hfinished] at hfin
    cases hfin

theorem Store.Sound.vendorEmpty {r : Erasure} {dest : Dest} (h : st.Sound)
    (hr : st.erasure = some r) (hstamp : r.stamped dest = true)
    (hjobs : ∀ id, st.jobs.get? id = none) : st.vendorEmpty dest = true := by
  obtain hempty | ⟨id, j, hj⟩ := h.stamped r dest hr hstamp
  · exact hempty
  · rw [hjobs id] at hj
    cases hj

theorem sweep_no_job {found : List ℕ} (hjobs : ∀ id, st.jobs.get? id = none) (id : ℕ) :
    (st.sweep found).jobs.get? id = none := by
  rw [Option.eq_none_iff_forall_ne_some]
  intro j hj
  obtain ⟨j₀, hj₀, -⟩ := sweep_jobs.mp hj
  rw [hjobs id] at hj₀
  cases hj₀

theorem Change.sound (hs : st.Sound) (ht : t.Ok st) (h : Change st t locks st') : st'.Sound := by
  cases h with
  | same => exact hs
  | request =>
    obtain ⟨r, hst', hhubspot, hresend, hfinished, -⟩ := enqueueErasure_eq st
    have hfresh : ∀ dest, r.stamped dest ≠ true := by
      intro dest
      cases dest <;> simp [Erasure.stamped, hhubspot, hresend]
    rw [hst']
    exact .commit hfinished (fun dest h => absurd h (hfresh dest))
      fun dest h => absurd h (hfresh dest)
  | job hjob hlive hlock =>
    refine ⟨hs.order, fun r dest hr hstamp => ?_, fun r hr hfinished => ?_⟩
    · obtain hempty | ⟨id, j, hj⟩ := hs.stamped r dest hr hstamp
      · exact .inl hempty
      · exact .inr ⟨id, setJobState_some hj⟩
    · exact ((hs.finished r hr hfinished).no_job hjob).elim
  | cleaned hjob hended hleaves =>
    refine ⟨hs.order, fun r dest hr hstamp => row_left hleaves hr hstamp, fun r hr hfinished => ?_⟩
    exact ((hs.finished r hr hfinished).no_job hjob).elim
  | write hruns hlock herasure hjobs hother =>
    obtain ⟨j, hj, -⟩ := hruns
    refine ⟨?_, fun r dest _ _ => .inr ⟨_, j, by rw [hjobs]; exact hj⟩, fun r hr hfinished => ?_⟩
    · rw [herasure]
      exact hs.order
    · rw [herasure] at hr
      exact ((hs.finished r hr hfinished).no_job hj).elim
  | @erase _ _ dest cut =>
    obtain ⟨herasure, hjobs, hcontact, hcopies⟩ := eraseContact_frame st dest cut
    constructor
    · rw [herasure]
      exact hs.order
    · rw [herasure, hjobs]
      exact fun r dest' hr hstamp => (hs.stamped r dest' hr hstamp).imp_left eraseContact_empty
    · rw [herasure]
      intro r hr hfinished
      obtain ⟨hnone, hempty, hno, hvendors⟩ := hs.finished r hr hfinished
      exact ⟨hcontact.trans hnone, hcopies.trans hempty, fun id => by rw [hjobs, hno],
        fun dest' => eraseContact_empty (hvendors dest')⟩
  | @swept a _ r found hr hg hstep =>
    obtain ⟨horder, hreads, -⟩ := ht
    obtain ⟨hfinished, hlocal, -⟩ := hreads.row hr hg
    unfold Attempt.Order at horder
    rw [hstep] at horder
    -- nothing was stamped before the first sweep
    refine .commit hfinished (fun _ _ => rfl) fun dest hstamp => ?_
    have hearly : r.localErased = true := hs.order _ dest hr hstamp
    rw [hlocal, horder] at hearly
    cases hearly
  | cameBack hr hg =>
    refine .commit (ht.2.1.row hr hg).1 ?_ ?_
    all_goals
      intro dest hstamp
      cases dest <;> cases hstamp
  | @finished a _ r found hr hg hstep hphase hcount =>
    obtain ⟨horder, hreads, hfound, -⟩ := ht
    obtain ⟨-, -, hhubspot, hresend⟩ := hreads.row hr hg
    unfold Attempt.Order at horder
    rw [hstep] at horder
    obtain ⟨-, hnohubspot, hnoresend⟩ := horder
    obtain ⟨-, -, hjobs⟩ := sweepCount_zero hcount fun hnil => hfound (hnil ▸ hphase)
    have hstamps : ∀ dest, r.stamped dest = true := by
      intro dest
      cases dest with
      | hubspot => exact hhubspot hnohubspot
      | resend => exact hresend hnoresend
    have hvendors : ∀ dest, st.vendorEmpty dest = true :=
      fun dest => hs.vendorEmpty hr (hstamps dest) hjobs
    constructor
    · intro r' dest hr' _
      obtain rfl := Option.some.inj hr'
      exact hs.order r dest hr (hstamps dest)
    · exact fun _ dest _ _ => .inl (hvendors dest)
    · exact fun _ _ _ => ⟨rfl, rfl, sweep_no_job hjobs, hvendors⟩
  | @account a _ r hr hg =>
    have hsame : ∀ dest, Erasure.stamped { r with accountErased := true } dest = r.stamped dest :=
      fun dest => by cases dest <;> rfl
    refine .commit (ht.2.1.row hr hg).1 (fun dest hstamp => ?_) fun dest hstamp => ?_
    · rw [hsame] at hstamp
      exact hs.order r dest hr hstamp
    · rw [hsame] at hstamp
      exact hs.stamped r dest hr hstamp
  | hubspot hr hg hstep hphase =>
    obtain ⟨horder, hreads, hfound⟩ := ht
    obtain ⟨hfinished, hlocal, -⟩ := hreads.row hr hg
    unfold Attempt.Order at horder
    rw [hstep] at horder
    refine .commit hfinished (fun _ _ => hlocal.trans horder) fun dest hstamp => ?_
    cases dest with
    | hubspot => exact .inl (hfound.erased .hubspot (by rw [hstep]; rfl) hphase)
    | resend => exact hs.stamped _ .resend hr hstamp
  | resend hr hg hstep hphase =>
    obtain ⟨horder, hreads, hfound⟩ := ht
    obtain ⟨hfinished, hlocal, -⟩ := hreads.row hr hg
    unfold Attempt.Order at horder
    rw [hstep] at horder
    refine .commit hfinished (fun _ _ => hlocal.trans horder.1) fun dest hstamp => ?_
    cases dest with
    | hubspot => exact hs.stamped _ .hubspot hr hstamp
    | resend => exact .inl (hfound.erased .resend (by rw [hstep]; rfl) hphase)

theorem Store.Clean.setErasure (h : st.Clean) (r : Erasure) : (st.setErasure r).Clean :=
  ⟨h.contact, h.copies, h.jobs, h.vendors⟩

theorem Change.clean (hclean : st.Clean) (h : Change st t locks st') : st'.Clean := by
  have hsweep : ∀ found, (st.sweep found).Clean :=
    fun found => ⟨rfl, rfl, sweep_no_job hclean.jobs, hclean.vendors⟩
  cases h with
  | same => exact hclean
  | request =>
    obtain ⟨r, hst', -⟩ := enqueueErasure_eq st
    rw [hst']
    exact hclean.setErasure r
  | job hjob => exact (hclean.no_job hjob).elim
  | cleaned hjob => exact (hclean.no_job hjob).elim
  | write hruns =>
    obtain ⟨j, hj, -⟩ := hruns
    exact (hclean.no_job hj).elim
  | @erase _ _ dest cut =>
    obtain ⟨-, hjobs, hcontact, hcopies⟩ := eraseContact_frame st dest cut
    exact ⟨hcontact.trans hclean.contact, hcopies.trans hclean.copies,
      fun id => by rw [hjobs, hclean.jobs], fun dest' => eraseContact_empty (hclean.vendors dest')⟩
  | swept => exact (hsweep _).setErasure _
  | cameBack => exact (hsweep _).setErasure _
  | finished => exact (hsweep _).setErasure _
  | account => exact hclean.setErasure _
  | hubspot => exact hclean.setErasure _
  | resend => exact hclean.setErasure _

theorem Change.row {a : Attempt} {r : Erasure} (h : Change st (.erasing a) locks st')
    (hr : st.erasure = some r) (hg : r.generation ≠ a.generation) : st'.erasure = st.erasure := by
  have hother : ∀ r', st.erasure = some r' → r'.generation ≠ a.generation := by
    intro r' hr'
    obtain rfl := Option.some.inj (hr.symm.trans hr')
    exact hg
  cases h with
  | same => rfl
  | job => rfl
  | write _ _ herasure => exact herasure
  | erase => exact (eraseContact_frame st _ _).1
  | swept hr' hg' => exact absurd hg' (hother _ hr')
  | cameBack hr' hg' => exact absurd hg' (hother _ hr')
  | finished hr' hg' => exact absurd hg' (hother _ hr')
  | account hr' hg' => exact absurd hg' (hother _ hr')
  | hubspot hr' hg' => exact absurd hg' (hother _ hr')
  | resend hr' hg' => exact absurd hg' (hother _ hr')

end

/-! ### Runs -/

/-- River's cleaner leaves a row of the address where a stamped vendor holds a copy. -/
def RowLeft : World Store Task → ℕ × Act → Prop :=
  protocol.Meets (fun st t act => leavesRow st t act = true) fun _ _ _ _ => True

instance (w : World Store Task) (na : ℕ × Act) : Decidable (RowLeft w na) := by
  unfold RowLeft
  infer_instance

theorem erasure_outline : protocol.Outline (fun st t act => leavesRow st t act = true)
    (fun _ _ _ _ => True) Store.Sound (fun st t => t.Ok st) (fun _ _ => True) where
  store hs ht hleaves h := (move_own ht hleaves (next_move h)).1.sound hs ht
  own _ ht hleaves h := (move_own ht hleaves (next_move h)).2
  other _ ht hleaves h hu _ _ hapart := by
    refine (move_own ht hleaves (next_move h)).1.other (fun a ha => ?_) hu hapart
    rw [ha]
    exact List.mem_cons_self
  pair _ _ _ _ _ _ _ _ := ⟨trivial, trivial⟩

/-- The jobs of the address are queued or under way as the erasure is requested. -/
structure Underway (w : World Store Task) : Prop where
  fresh : ∀ r, w.store.erasure = some r → r = { generation := r.generation }
  unattempted : ∀ n a, protocol.task w n ≠ .erasing a
  running : ∀ n job, .worker job ∈ (protocol.task w n).holds → w.store.Runs job
  exclusive : protocol.Exclusive w

theorem Underway.holds {w : World Store Task} (h : Underway w) :
    protocol.Holds Store.Sound (fun st t => t.Ok st) (fun _ _ => True) w where
  store := by
    refine ⟨fun r dest hr hstamp => ?_, fun r dest hr hstamp => ?_, fun r hr hfinished => ?_⟩
    · rw [h.fresh r hr] at hstamp
      cases dest <;> cases hstamp
    · rw [h.fresh r hr] at hstamp
      cases dest <;> cases hstamp
    · rw [h.fresh r hr] at hfinished
      cases hfinished
  each n := by
    have hrunning := h.running n
    cases ht : protocol.task w n with
    | idle => trivial
    | erasing a => exact absurd ht (h.unattempted n a)
    | delivering job dest version phase =>
      rw [ht] at hrunning
      exact hrunning job List.mem_cons_self
    | dealing job phase =>
      rw [ht] at hrunning
      exact hrunning job List.mem_cons_self
  pair _ _ _ := trivial
  exclusive := h.exclusive

theorem clean_run {w w' : World Store Task} {steps : List (ℕ × Act)}
    (h : protocol.Holds Store.Sound (fun st t => t.Ok st) (fun _ _ => True) w)
    (hclean : w.store.Clean) (hrun : runFrom protocol.step w steps = some w') : w'.store.Clean := by
  refine (invariant_run (I := fun w => protocol.Holds Store.Sound (fun st t => t.Ok st)
    (fun _ _ => True) w ∧ w.store.Clean) (fun w na w' hw hstep => ?_) ⟨h, hclean⟩ hrun).2
  obtain ⟨hholds, hclean⟩ := hw
  have hleaves := hclean.leavesRow (protocol.task w na.1) na.2
  refine ⟨hholds.step erasure_outline ⟨hleaves, trivial, fun _ _ _ => trivial⟩ hstep, ?_⟩
  obtain ⟨-, d', t', hnext, rfl⟩ := Protocol.step_eq_some.mp hstep
  exact (move_own (hholds.each na.1) hleaves (next_move hnext)).1.clean hclean

/-- Once the row is finished nothing of the person is left and nothing is under way, now or after
any further steps; and an attempt of another generation never touches the row. -/
theorem erasure_leaves_no_copy {w₀ w : World Store Task} {steps : List (ℕ × Act)}
    (hstart : Underway w₀) (hleft : Along protocol.step RowLeft w₀ steps)
    (hrun : runFrom protocol.step w₀ steps = some w) :
    (∀ r, w.store.erasure = some r → r.finished = true →
      (∀ n job dest version phase, protocol.task w n ≠ .delivering job dest version phase) ∧
      (∀ n job phase, protocol.task w n ≠ .dealing job phase) ∧
      ∀ later w', runFrom protocol.step w later = some w' → w'.store.Clean) ∧
    ∀ n a act w' r, protocol.task w n = .erasing a → protocol.step w (n, act) = some w' →
      w.store.erasure = some r → r.generation ≠ a.generation →
      w'.store.erasure = w.store.erasure := by
  have hholds := hstart.holds.run erasure_outline hleft hrun
  constructor
  · intro r hr hfinished
    have hclean := hholds.store.finished r hr hfinished
    have hidle : ∀ job, ¬ w.store.Runs job := fun job ⟨j, hj, _⟩ => hclean.no_job hj
    refine ⟨fun n job dest version phase ht => ?_, fun n job phase ht => ?_,
      fun later w' hlater => clean_run hholds hclean hlater⟩
    · have hok := hholds.each n
      rw [ht] at hok
      exact hidle job hok
    · have hok := hholds.each n
      rw [ht] at hok
      exact hidle job hok
  · intro n a act w' r ht hstep hr hg
    obtain ⟨-, d', t', hnext, rfl⟩ := Protocol.step_eq_some.mp hstep
    have hok := hholds.each n
    rw [ht] at hok hnext
    exact (move_own hok rfl (next_move hnext)).1.row hr hg

def demoWorld : World Store Task where
  store := {
    contact := some { version := 1, consented := true }
    copies := { blogSubscribers := 1 }
    jobs := Table.set (Table.set ∅ 1 { args := .demoDeal }) 2 { args := .deliver .resend 1 } }

def attempt (acts : List Act) : List (ℕ × Act) := acts.map fun act => (0, act)
def worker (n : ℕ) (acts : List Act) : List (ℕ × Act) := acts.map fun act => (n, act)

def demoSteps : List (ℕ × Act) :=
  worker 2 [.fetch 2, .lock, .send none, .record, .complete .completed, .clean 2] ++
    worker 1 [.fetch 1] ++
    attempt [.request, .begin 1, .lock, .lock, .find, .sweep, .deleteAccount, .lock, .erase none,
      .stamp] ++
    worker 1 [.lock, .send none, .record, .complete .completed] ++
    attempt [.lock, .erase none, .stamp, .lock, .lock, .find, .sweep] ++
    attempt [.begin 1, .lock, .erase none, .stamp, .lock, .erase none, .stamp, .lock, .lock,
      .find, .sweep]

theorem demoWorld_underway : Underway demoWorld where
  fresh _ hr := by cases hr
  unattempted _ _ h := by cases h
  running _ _ h := by cases h
  exclusive _ _ _ _ h := by cases h

theorem erasure_leaves_no_copy_sample :
    ∃ w, runFrom protocol.step demoWorld demoSteps = some w ∧ w.store.Clean ∧
      ∃ r, w.store.erasure = some r ∧ r.finished = true := by
  have htest : (runFrom protocol.step demoWorld demoSteps).any (fun w =>
      w.store.erasure.any fun r => r.finished) = true := by
    decide +kernel
  have hleft : Along protocol.step RowLeft demoWorld demoSteps := by decide +kernel
  obtain ⟨w, hrun, hw⟩ := (Option.any_eq_true _ _).mp htest
  obtain ⟨r, hr, hfinished⟩ := (Option.any_eq_true _ _).mp hw
  have hclean :=
    ((erasure_leaves_no_copy demoWorld_underway hleft hrun).1 r hr hfinished).2.2 [] w rfl
  exact ⟨w, hrun, hclean, r, hr, hfinished⟩

def cleanedSteps : List (ℕ × Act) :=
  worker 1 [.fetch 1] ++
    attempt [.request, .begin 1, .lock, .lock, .find, .sweep, .deleteAccount, .lock, .erase none,
      .stamp, .lock, .fail] ++
    worker 1 [.lock, .send none, .record, .complete .completed, .clean 1] ++
    attempt [.begin 1, .lock, .erase none, .stamp, .lock, .lock, .find, .sweep]

theorem cleaned_row_hides_copy : Underway demoWorld ∧ ∃ w r,
    runFrom protocol.step demoWorld cleanedSteps = some w ∧ w.store.erasure = some r ∧
      r.finished = true ∧ w.store.hubspot = some [false] := by
  have htest : (runFrom protocol.step demoWorld cleanedSteps).any (fun w =>
      w.store.hubspot == some [false] && w.store.erasure.any fun r => r.finished) = true := by
    decide +kernel
  obtain ⟨w, hrun, hw⟩ := (Option.any_eq_true _ _).mp htest
  obtain ⟨hcopy, hrow⟩ := Bool.and_eq_true_iff.mp hw
  obtain ⟨r, hr, hfinished⟩ := (Option.any_eq_true _ _).mp hrow
  exact ⟨demoWorld_underway, w, r, hrun, hr, hfinished, eq_of_beq hcopy⟩

end InvoiceOs.Notifications
