import InvoiceOs.Submission.Moves

/-! A staff cancel against the deliveries of the same job. River works a job in one place at a
time: it hands none out while another delivery of it is under way. Then a queued job has no
delivery between its two transactions, and a cancelled one never gets one. -/

namespace InvoiceOs.Submission

open Lib Invoice

/-- River's single delivery, as a condition on the step that hands a job out. -/
def singleDelivery (a : Act) (u : Task) : Bool :=
  match a with
  | .fetch n _ => u.riverID? != some n
  | _ => true

def SingleDelivery : World Store Task → ℕ × Act → Prop :=
  protocol.Meets (fun _ _ _ => True) fun _ _ a u => singleDelivery a u = true

instance (w : World Store Task) (na : ℕ × Act) : Decidable (SingleDelivery w na) := by
  unfold SingleDelivery
  infer_instance

def Distinct (t u : Task) : Prop := ∀ n, t.riverID? = some n → u.riverID? ≠ some n

structure Stoppable (job : Job) (r : Row) : Prop where
  acknowledged : job.pollRef.isSome = true → r.status ≠ .queued
  pending : job.state = .pending → job.pollRef.isSome = true
  queued : r.status = .queued → r.failureKind = none
  cancelled : job.state = .cancelled →
    job.pollRef = none ∧ r.status = .failed ∧ r.failureKind = none

def OutOfReach : Task → Job → Prop
  | .ready _ _, job => job.state ≠ .queued ∧ job.state ≠ .cancelled
  | .sent _ _, job => job.state ≠ .queued ∧ job.state ≠ .cancelled
  | .polling _ _ _, job => job.pollRef.isSome = true
  | .lost _ _, job => job.pollRef.isSome = true
  | .rearming _ _ _, job => job.pollRef.isSome = true
  | _, _ => True

/-! ### One move -/

section
variable {g : SubmitArgs} {st : Store} {k' : Core} {t u : Task} {a : Act} {id : Uuid}
  {job job' : Job} {r r' : Row}

theorem Stoppable.moves (hP : Stoppable job r) (hQ : t.jobID? = some id → OutOfReach t job)
    (h : Moves g st k' id t a job r job' r') : Stoppable job' r' := by
  cases h with
  | stay => exact hP
  | cleared hlocked hopen hcleared haudit => exact ⟨hP.acknowledged, nofun, hP.queued, nofun⟩
  | submitting hlocked hopen hclear hallowed haudit =>
    exact ⟨hP.acknowledged, nofun, hP.queued, nofun⟩
  | @closed t a c s target outcome out job r r' attempts lastError hcall hid hfresh hv ha hr =>
    obtain ⟨hterminal, hcancelled, hqueued⟩ := hv.closes
    have hstatus : r'.status ≠ .queued := by
      rw [hr.status]
      exact hqueued
    refine ⟨fun _ => hstatus, fun hs => ?_, fun hs => absurd hs hstatus,
      fun hs => absurd hs hcancelled⟩
    have hpending : s = .pending := hs
    rw [hpending] at hterminal
    cases hterminal
  | sentPending hreply hid hfresh hr =>
    have hstatus : r'.status ≠ .queued := by
      rw [hr.status]
      nofun
    exact ⟨fun _ => hstatus, fun _ => rfl, fun hs => absurd hs hstatus, nofun⟩
  | pollPending hreply hid hfresh =>
    have hstatus := hP.acknowledged (hQ (congrArg some hid))
    exact ⟨fun _ => hstatus, fun _ => rfl, hP.queued, nofun⟩
  | retried hreply hmid hid => exact ⟨hP.acknowledged, nofun, hP.queued, nofun⟩
  | pollRetried hreply hmid hid => exact ⟨hP.acknowledged, hP.pending, hP.queued, hP.cancelled⟩
  | cancelled hs hqueued =>
    refine ⟨fun _ => nofun, nofun, nofun, fun _ => ⟨?_, rfl, hP.queued hqueued⟩⟩
    have hnone : ¬ job.pollRef.isSome = true := fun href => hP.acknowledged href hqueued
    exact Option.not_isSome_iff_eq_none.mp hnone

theorem OutOfReach.others (hk : st.core.Owned g) (ht : st.core.Minds g t) (hu : st.core.Minds g u)
    (hR : Distinct t u) (hQ : OutOfReach u job) (h : Moves g st k' id t a job r job' r') :
    OutOfReach u job' := by
  cases h with
  | stay => exact hQ
  | cleared hlocked hopen hcleared haudit =>
    cases u with
    | ready c number => exact ⟨nofun, nofun⟩
    | sent c number => exact ⟨nofun, nofun⟩
    | _ => exact hQ
  | submitting hlocked hopen hclear hallowed haudit =>
    cases u with
    | ready c number => exact ⟨nofun, nofun⟩
    | sent c number => exact ⟨nofun, nofun⟩
    | _ => exact hQ
  | closed hcall hid hfresh hv ha hr =>
    obtain ⟨hterminal, hcancelled, -⟩ := hv.closes
    have hne : ∀ s, isTerminalJobState s = true → s ≠ .queued := by
      intro s hs hq
      rw [hq] at hs
      cases hs
    cases u with
    | ready c number => exact ⟨hne _ hterminal, hcancelled⟩
    | sent c number => exact ⟨hne _ hterminal, hcancelled⟩
    | _ => exact hQ
  | sentPending hreply hid hfresh hr =>
    cases u with
    | ready c number => exact ⟨nofun, nofun⟩
    | sent c number => exact ⟨nofun, nofun⟩
    | polling c s ref => rfl
    | lost i j => rfl
    | rearming i j n => rfl
    | _ => trivial
  | pollPending hreply hid hfresh =>
    cases u with
    | ready c number => exact ⟨nofun, nofun⟩
    | sent c number => exact ⟨nofun, nofun⟩
    | polling c s ref => rfl
    | lost i j => rfl
    | rearming i j n => rfl
    | _ => trivial
  | @retried c number reply err job r hreply hmid hid =>
    -- the retried submit is the only delivery of the one SubmitArgs job
    have hsame : ∀ c', st.core.Carries g c' (.submit g) → c.riverID = c'.riverID := by
      intro c' hc'
      have hc : st.core.Carries g c (.submit g) := ht
      obtain ⟨i, hi, hsi⟩ := hc.river
      obtain ⟨j, hj, hsj⟩ := hc'.river
      exact hk.single hi hj hsi hsj
    cases u with
    | ready c' number' => exact absurd (congrArg some (hsame c' hu).symm) (hR _ rfl)
    | sent c' number' => exact absurd (congrArg some (hsame c' hu).symm) (hR _ rfl)
    | _ => exact hQ
  | pollRetried hreply hmid hid =>
    cases u with
    | _ => exact hQ
  | cancelled hs hqueued =>
    cases u with
    | ready c number => exact absurd hs hQ.1
    | sent c number => exact absurd hs hQ.1
    | _ => exact hQ

theorem cancelled_stays (hP : Stoppable job r) (hQ : t.jobID? = some id → OutOfReach t job)
    (hs : job.state = .cancelled) (h : Moves g st k' id t a job r job' r') :
    job'.state = .cancelled := by
  have hcall : ∀ c, t.call? = some c → c.jobID = id → False := by
    intro c hc hid
    subst hid
    cases t with
    | ready c' number =>
      cases hc
      exact (hQ rfl).2 hs
    | sent c' number =>
      cases hc
      exact (hQ rfl).2 hs
    | polling c' s ref =>
      cases hc
      have href := hQ rfl
      rw [OutOfReach, (hP.cancelled hs).1] at href
      cases href
    | _ => cases hc
  cases h with
  | stay => exact hs
  | cleared hlocked hopen hcleared haudit =>
    rw [hs] at hopen
    cases hopen
  | submitting hlocked hopen hclear hallowed haudit =>
    rw [hs] at hopen
    cases hopen
  | closed hc hid => exact (hcall _ hc hid).elim
  | sentPending hreply hid => exact (hcall _ rfl hid).elim
  | pollPending hreply hid => exact (hcall _ rfl hid).elim
  | retried hreply hmid hid => exact (hcall _ rfl hid).elim
  | pollRetried hreply hmid hid => exact (hcall _ rfl hid).elim
  | cancelled hq => rfl

end

theorem next_riverID {st st' : Store} {t t' : Task} {a : Act} {n : ℕ}
    (h : next st t a = some (st', t')) (hn : t'.riverID? = some n) :
    t.riverID? = some n ∨ ∃ attempt, a = .fetch n attempt := by
  have heffect := next_effect h
  generalize st'.core = k' at heffect
  cases heffect with
  | fetched hrow hs =>
    cases hn
    exact .inr ⟨_, rfl⟩
  | submitting => exact .inl hn
  | polled => exact .inl hn
  | sent => exact .inl hn
  | _ => cases hn

theorem Distinct.symm {t u : Task} (h : Distinct t u) : Distinct u t :=
  fun n hu ht => h n ht hu

theorem distinct_next {st st' : Store} {t t' u : Task} {a : Act} (hD : singleDelivery a u = true)
    (hR : Distinct t u) (h : next st t a = some (st', t')) : Distinct t' u := by
  intro n hn
  rcases next_riverID h hn with ht | ⟨attempt, rfl⟩
  · exact hR n ht
  · simpa only [singleDelivery, bne_iff_ne] using hD

theorem stoppable_rules (g : SubmitArgs) : RowRules g (fun _ _ _ => True)
    (fun _ _ a u => singleDelivery a u = true) Distinct (fun _ _ job r => Stoppable job r)
    OutOfReach where
  moves _ _ _ _ _ _ _ hP hQ h := hP.moves hQ h
  others hk ht hu _ _ hR _ _ _ hQ h := hQ.others hk ht hu hR h
  ready _ _ _ _ _ _ _ _ _ _ := ⟨nofun, nofun⟩
  sent h := h
  polling hP hs := hP.pending hs
  lost hP hs := hP.pending hs
  rearming h := h

def Orderly (g : SubmitArgs) : World Store Task → Prop :=
  protocol.Holds (fun st => st.core.Owned g ∧ Keeps g (fun _ _ job r => Stoppable job r) st.core)
    (fun st t => st.core.Minds g t ∧ Knows g OutOfReach st.core t) Distinct

theorem orderly_outline (g : SubmitArgs) : protocol.Outline (fun _ _ _ => True)
    (fun _ _ a u => singleDelivery a u = true)
    (fun st => st.core.Owned g ∧ Keeps g (fun _ _ job r => Stoppable job r) st.core)
    (fun st t => st.core.Minds g t ∧ Knows g OutOfReach st.core t) Distinct :=
  (stoppable_rules g).outline fun _ hD hR h =>
    ⟨distinct_next hD hR h, (distinct_next hD hR h).symm⟩

theorem Begins.orderly {g : SubmitArgs} {st : Store} (h : Begins g st) : Orderly g (start st) := by
  refine Protocol.Holds.start ⟨h.owned, fun {id job r} hjob hr => ?_⟩ ⟨trivial, nofun⟩ nofun
  obtain ⟨hstatus, -, hkind⟩ := h.invoice hr
  have hfresh : job.state = .queued ∧ job.pollRef = none := by
    cases hjob with
    | row hjob hkey => exact h.fresh hjob hkey
    | unborn _ _ _ _ hs _ href => exact ⟨hs, href⟩
  refine ⟨fun href => ?_, fun hs => ?_, fun _ => hkind, fun hs => ?_⟩
  · rw [hfresh.2] at href
    cases href
  · rw [hfresh.1] at hs
    cases hs
  · rw [hfresh.1] at hs
    cases hs

def IsCancelled (g : SubmitArgs) (id : Uuid) (k : Core) : Prop :=
  ∃ job, k.jobs.get? id = some job ∧ job.idempotencyKey = g.idempotencyKey ∧
    job.state = .cancelled

theorem IsCancelled.step {g : SubmitArgs} {id : Uuid} {w w' : World Store Task} {na : ℕ × Act}
    (hw : Orderly g w) (h : IsCancelled g id w.store.core) (hstep : protocol.step w na = some w') :
    IsCancelled g id w'.store.core := by
  obtain ⟨n, a⟩ := na
  obtain ⟨-, d', t', hn, rfl⟩ := Protocol.step_eq_some.mp hstep
  obtain ⟨job, hjob, hkey, hs⟩ := h
  have heffect := next_effect hn
  have hk := hw.store.1
  have ht := hw.each n
  obtain ⟨hgrows, hk', -⟩ := effect_owned hk ht.1 heffect
  obtain ⟨job', hjob', hkey', -⟩ := hgrows.jobs hjob
  obtain ⟨r', hr'⟩ := hk'.invoice
  have hkey'' := hkey'.trans hkey
  obtain ⟨job₀, r, hstands, hr, hmoves⟩ := effect_moves hk ht.1 heffect (.row hjob' hkey'') hr'
  obtain ⟨-, rfl⟩ := hstands.eq_row hk hjob hkey
  exact ⟨job', hjob', hkey'', cancelled_stays (hw.store.2 hstands hr)
    (fun hid => ht.2 hid hstands) hs hmoves⟩

theorem IsCancelled.no_submit {g : SubmitArgs} {id : Uuid} {w w' : World Store Task} {m : ℕ}
    (hw : Orderly g w) (h : IsCancelled g id w.store.core)
    (hstep : protocol.step w (m, .submit) = some w') : False := by
  obtain ⟨-, d', t', hn, -⟩ := Protocol.step_eq_some.mp hstep
  obtain ⟨job, hjob, hkey, hs⟩ := h
  have hm := hw.each m
  have hready : ∃ c number, protocol.task w m = .ready c number := by
    cases ht : protocol.task w m with
    | ready c number => exact ⟨c, number, rfl⟩
    | _ =>
      rw [ht] at hn
      cases hn
  obtain ⟨c, number, ht⟩ := hready
  rw [ht] at hm
  have hc : w.store.core.Carries g c (.submit g) := hm.1
  obtain ⟨b, hb, hbkey⟩ := hc.job
  obtain rfl := hw.store.1.unique hjob hb hkey hbkey
  exact (hm.2 rfl (.row hjob hkey)).2 hs

theorem cancel_isCancelled {g : SubmitArgs} {st st' : Store} {id : Uuid} (hk : st.core.Owned g)
    (h : cancel st id = .ok st') :
    IsCancelled g id st'.core := by
  obtain ⟨job, r, river, hjob, hs, -, -, -, hcore⟩ := cancel_core h
  have hkey : job.idempotencyKey = g.idempotencyKey :=
    (hk.isJob hjob (by rw [hs]; rfl)).key hjob
  rw [hcore]
  exact ⟨job.withState .cancelled, Table.get?_set_self _ _ _, hkey, rfl⟩

/-- However the deliveries, sweeps and cancels interleave: a cancel that answers an error leaves
the tables as they are, and after one that commits no adapter call starts for the job, which
stays cancelled, its invoice failed with no kind. -/
theorem cancelled_never_transmitted {g : SubmitArgs} {st : Store} (hbegins : Begins g st)
    {steps : List (ℕ × Act)} {w w₁ : World Store Task} {n : ℕ} {id : Uuid}
    (hsingle : Along protocol.step SingleDelivery (start st) steps)
    (hrun : runFrom protocol.step (start st) steps = some w)
    (hcancel : protocol.step w (n, .cancel id) = some w₁) :
    (∀ e, cancel w.store id = .error e → w₁.store = w.store) ∧
      ∀ st', cancel w.store id = .ok st' → ∀ rest w',
        Along protocol.step SingleDelivery w₁ rest → runFrom protocol.step w₁ rest = some w' →
          (∀ m, (m, Act.submit) ∉ rest) ∧
          (∃ job, w'.store.jobs.get? id = some job ∧ job.state = .cancelled) ∧
          ∃ r, w'.store.db.invoices.get? g.invoiceID = some r ∧ r.status = .failed ∧
            r.failureKind = none := by
  have hw : Orderly g w := hbegins.orderly.run (orderly_outline g) hsingle hrun
  obtain ⟨-, d', t', hn, hw₁⟩ := Protocol.step_eq_some.mp hcancel
  have hidle : protocol.task w n = .idle := by
    cases ht : protocol.task w n with
    | idle => rfl
    | _ =>
      rw [ht] at hn
      cases hn
  rw [hidle] at hn
  have hcommit : commit w.store (cancel w.store id) = d' := congrArg Prod.fst (Option.some.inj hn)
  have hstore : w₁.store = commit w.store (cancel w.store id) := by
    rw [hw₁]
    exact hcommit.symm
  refine ⟨fun e he => ?_, fun st' hok rest w' hrest hrun' => ?_⟩
  · rw [hstore, he]
    rfl
  · rw [hok] at hstore
    have hclosed : IsCancelled g id w₁.store.core := by
      rw [hstore]
      exact cancel_isCancelled hw.store.1 hok
    have horderly : Orderly g w₁ :=
      hw.step (orderly_outline g) ⟨trivial, rfl, fun _ _ _ => rfl⟩ hcancel
    have hkeep : ∀ v na v', Orderly g v ∧ IsCancelled g id v.store.core →
        SingleDelivery v na → protocol.step v na = some v' →
          Orderly g v' ∧ IsCancelled g id v'.store.core :=
      fun v na v' hv hmeets hstep => ⟨hv.1.step (orderly_outline g) hmeets hstep,
        hv.2.step hv.1 hstep⟩
    refine ⟨fun m hm => ?_, ?_⟩
    · obtain ⟨pre, post, rfl⟩ := List.append_of_mem hm
      obtain ⟨v, hpre, hpost⟩ := runFrom_append.mp hrun'
      obtain ⟨v', hsubmit, -⟩ := runFrom_cons.mp hpost
      have hv := invariant_along hkeep ⟨horderly, hclosed⟩ hrest.prefix hpre
      exact hv.2.no_submit hv.1 hsubmit
    · obtain ⟨hend, job, hjob, hkey, hs⟩ := invariant_along hkeep ⟨horderly, hclosed⟩ hrest hrun'
      obtain ⟨r, hr⟩ := hend.store.1.invoice
      obtain ⟨-, hfailed, hkind⟩ := (hend.store.2 (.row hjob hkey) hr).cancelled hs
      exact ⟨⟨job, hjob, hs⟩, r, hr, hfailed, hkind⟩

def retriedAttempt : List (ℕ × Act) :=
  [(0, .fetch 1 1), (0, .tx1 ⟨7, 0, true⟩), (0, .submit), (0, .reply ⟨.retryable "503", true⟩)]

def nextAttempt : List (ℕ × Act) := [(1, .river 1 .waiting), (0, .fetch 1 2), (0, .tx1 ⟨8, 0, true⟩)]

theorem cancelled_never_transmitted_sample :
    ∃ w w₁ st' w', runFrom protocol.step (start sampleStore) retriedAttempt = some w ∧
      protocol.step w (1, .cancel 7) = some w₁ ∧ cancel w.store 7 = .ok st' ∧
      runFrom protocol.step w₁ nextAttempt = some w' ∧ (∀ m, (m, Act.submit) ∉ nextAttempt) ∧
      ∃ job, w'.store.jobs.get? 7 = some job ∧ job.state = .cancelled := by
  have htest : (runFrom protocol.step (start sampleStore) retriedAttempt).any (fun w =>
      (protocol.step w (1, .cancel 7)).any fun w₁ => (cancel w.store 7).toOption.isSome &&
        (runFrom protocol.step w₁ nextAttempt).isSome &&
          decide (Along protocol.step SingleDelivery w₁ nextAttempt)) = true := by decide +kernel
  obtain ⟨w, hrun, hw⟩ := (Option.any_eq_true _ _).mp htest
  obtain ⟨w₁, hstep, hw₁⟩ := (Option.any_eq_true _ _).mp hw
  simp only [Bool.and_eq_true, decide_eq_true_eq] at hw₁
  obtain ⟨⟨hcancel, hnext⟩, hmeets⟩ := hw₁
  obtain ⟨st', hst'⟩ := Option.isSome_iff_exists.mp hcancel
  obtain ⟨w', hrun'⟩ := Option.isSome_iff_exists.mp hnext
  have hok := toOption_eq_some.mp hst'
  obtain ⟨hnone, hjob, -⟩ := (cancelled_never_transmitted sampleStore_begins (by decide +kernel)
    hrun hstep).2 st' hok nextAttempt w' hmeets hrun'
  exact ⟨w, w₁, st', w', hrun, hstep, hok, hrun', hnone, hjob⟩

end InvoiceOs.Submission
