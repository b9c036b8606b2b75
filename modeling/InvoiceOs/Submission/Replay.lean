import InvoiceOs.Submission.Moves

/-! A submission NRS acknowledged, and the replays of its `SubmitArgs` job. The gate of the
first transaction does not count `pending` among the finished states, so a replay that passes
it writes the job back and sends the invoice once more. Without such a replay the job leaves
`pending` through a poll hop's verdict alone. -/

namespace InvoiceOs.Submission

open Lib Invoice

def turnsAway (st : Store) (invoiceID jobID : Uuid) (u : Tx1Input) : Bool :=
  st.workspaceLocked || (!st.alreadyCleared invoiceID jobID && !u.allowed)

/-- No first transaction of a submit gets past its gates on a pending job, and no retry of one
is written behind a ticket. -/
def leavesTicket (st : Store) (t : Task) (a : Act) : Bool :=
  match t, a with
  | .fetched _ _ (.submit args), .tx1 u =>
    (st.jobByKey args.idempotencyKey).all fun e =>
      e.2.state != .pending || turnsAway st args.invoiceID e.1 u
  | .sent c _, .reply ⟨.retryable _, _⟩ =>
    decide (maxAttempts ≤ c.attempt) || (st.jobs.get? c.jobID).all fun job => job.pollRef.isNone
  | _, _ => true

/-- No other delivery is on its way to the adapter when the ticket is written. -/
def ticketAlone (st : Store) (t : Task) (a : Act) (u : Task) : Bool :=
  match t, a, u with
  | .sent c _, .reply ⟨.pending _ _, _⟩, .ready c' _ =>
    st.used (markerKey c.riverID) || c.jobID != c'.jobID
  | _, _, _ => true

def NoReplay : World Store Task → ℕ × Act → Prop :=
  protocol.Meets (fun st t a => leavesTicket st t a = true)
    fun st t a u => ticketAlone st t a u = true

instance (w : World Store Task) (na : ℕ × Act) : Decidable (NoReplay w na) := by
  unfold NoReplay
  infer_instance

structure Ticketed (g : SubmitArgs) (k : Core) (job : Job) : Prop where
  pending : job.state = .pending → job.pollRef.isSome = true
  marked : job.pollRef.isSome = true → ∃ n, k.Holds n (.submit g) ∧ markerKey n ∈ k.keys
  waits : job.pollRef.isSome = true → job.state = .pending ∨ isTerminalJobState job.state = true

def TicketKnown : Task → Job → Prop
  | .ready _ _, job => job.pollRef = none
  | .polling _ _ _, job => job.pollRef.isSome = true
  | .lost _ _, job => job.pollRef.isSome = true
  | .rearming _ _ _, job => job.pollRef.isSome = true
  | _, _ => True

section
variable {g : SubmitArgs} {st : Store} {k k' : Core} {t u : Task} {a : Act} {id : Uuid}
  {job job' : Job} {r r' : Row}

theorem Stands.row_of_ticket (h : Stands g k id job) (href : job.pollRef.isSome = true) :
    k.jobs.get? id = some job := by
  cases h with
  | row hjob _ => exact hjob
  | unborn _ _ _ _ _ _ hnone =>
    rw [hnone] at href
    cases href

theorem jobByKey_of_row (hk : st.core.Owned g) (hjob : st.jobs.get? id = some job)
    (hkey : job.idempotencyKey = g.idempotencyKey) :
    st.jobByKey g.idempotencyKey = some (id, job) := by
  cases hfind : st.jobByKey g.idempotencyKey with
  | none => exact absurd hkey (jobByKey_eq_none hfind hjob)
  | some e =>
    obtain ⟨he, hekey⟩ := jobByKey_eq_some hfind
    obtain rfl := hk.unique hjob he hkey hekey
    obtain rfl := Option.some.inj (hjob.symm.trans he)
    rfl

theorem Ticketed.shut (hP : Ticketed g st.core job) (hk : st.core.Owned g)
    (hstands : Stands g st.core id job) (href : job.pollRef.isSome = true) {n attempt : ℕ}
    {v : Tx1Input} (hC : leavesTicket st (.fetched n attempt (.submit g)) (.tx1 v) = true)
    (hopen : isTerminalJobState job.state = false) (hlocked : st.workspaceLocked = false)
    (hpass : st.alreadyCleared g.invoiceID id = true ∨ v.allowed = true) : False := by
  have hjob := hstands.row_of_ticket href
  have hpending : job.state = .pending := by
    rcases hP.waits href with hs | hs
    · exact hs
    · rw [hs] at hopen
      cases hopen
  simp only [leavesTicket, jobByKey_of_row hk hjob hstands.key, Option.all_some, hpending,
    bne_self_eq_false, Bool.false_or, turnsAway, hlocked, Bool.and_eq_true, Bool.not_eq_true'] at hC
  rcases hpass with hcleared | hallowed
  · rw [hcleared] at hC
    cases hC.1
  · rw [hallowed] at hC
    cases hC.2

theorem Core.Grows.marked (h : k.Grows k')
    (hm : ∃ n, k.Holds n (.submit g) ∧ markerKey n ∈ k.keys) :
    ∃ n, k'.Holds n (.submit g) ∧ markerKey n ∈ k'.keys := by
  obtain ⟨n, hn, hmark⟩ := hm
  exact ⟨n, h.holds hn, h.keys hmark⟩

theorem Ticketed.skips (hP : Ticketed g st.core job) (hk : st.core.Owned g)
    (href : job.pollRef.isSome = true) {c : Call} (hc : st.core.Carries g c (.submit g)) :
    st.used (markerKey c.riverID) = true := by
  obtain ⟨n, ⟨i, hi, hsi⟩, hmark⟩ := hP.marked href
  obtain ⟨j, hj, hsj⟩ := hc.river
  obtain rfl := hk.single hi hj hsi hsj
  exact Store.used_iff.mpr hmark

theorem Ticketed.grow (hP : Ticketed g k job) (h : k.Grows k') : Ticketed g k' job :=
  ⟨hP.pending, fun href => h.marked (hP.marked href), hP.waits⟩

theorem Ticketed.close (hP : Ticketed g k job) (h : k.Grows k') (href : job'.pollRef = job.pollRef)
    (hs : isTerminalJobState job'.state = true) : Ticketed g k' job' where
  pending hp := by
    rw [hp] at hs
    cases hs
  marked hsome := h.marked (hP.marked (href ▸ hsome))
  waits _ := .inr hs

theorem Ticketed.of_none (href : job.pollRef = none) (hs : job.state ≠ .pending) :
    Ticketed g k job where
  pending hp := absurd hp hs
  marked hsome := by
    rw [href] at hsome
    cases hsome
  waits hsome := by
    rw [href] at hsome
    cases hsome

theorem Ticketed.moves (hk : st.core.Owned g) (hgrows : st.core.Grows k')
    (ht : st.core.Minds g t) (hC : leavesTicket st t a = true) (hstands : Stands g st.core id job)
    (hP : Ticketed g st.core job) (hQ : t.jobID? = some id → TicketKnown t job)
    (h : Moves g st k' id t a job r job' r') : Ticketed g k' job' := by
  cases h with
  | stay => exact hP.grow hgrows
  | cleared hlocked hopen hcleared =>
    refine .of_none (Option.not_isSome_iff_eq_none.mp fun href => ?_) nofun
    exact hP.shut hk hstands href hC hopen hlocked (.inl hcleared)
  | submitting hlocked hopen hclear hallowed =>
    refine .of_none (Option.not_isSome_iff_eq_none.mp fun href => ?_) nofun
    exact hP.shut hk hstands href hC hopen hlocked (.inr hallowed)
  | closed hcall hid hfresh hv ha hr => exact hP.close hgrows rfl hv.closes.1
  | @sentPending c number reply ref pollAfter job r r' hreply hid hfresh hr hmarked =>
    have hc : st.core.Carries g c (.submit g) := ht
    exact ⟨fun _ => rfl, fun _ => ⟨c.riverID, hgrows.holds hc.river, hmarked⟩, fun _ => .inl rfl⟩
  | pollPending hreply hid hfresh hmarked =>
    exact ⟨fun _ => rfl, fun _ => hgrows.marked (hP.marked (hQ (congrArg some hid))),
      fun _ => .inl rfl⟩
  | @retried c number reply err job r hreply hmid hid =>
    refine .of_none (Option.not_isSome_iff_eq_none.mp fun hsome => ?_) nofun
    have href : job.pollRef.isSome = true := hsome
    have hjob : st.jobs.get? c.jobID = some job := by
      rw [hid]
      exact hstands.row_of_ticket href
    obtain ⟨result, reached⟩ := reply
    obtain rfl : result = .retryable err := hreply
    rw [leavesTicket, hjob, Option.all_some, decide_eq_false (Nat.not_le_of_lt hmid),
      Bool.false_or] at hC
    rw [Option.isNone_iff_eq_none.mp hC] at href
    cases href
  | pollRetried hreply hmid hid =>
    exact ⟨hP.pending, fun href => hgrows.marked (hP.marked href), hP.waits⟩
  | cancelled hs hqueued =>
    refine .of_none (Option.not_isSome_iff_eq_none.mp fun href => ?_) nofun
    rcases hP.waits href with hw | hw
    · rw [hs] at hw
      cases hw
    · rw [hs] at hw
      cases hw

theorem TicketKnown.others (hD : ticketAlone st t a u = true)
    (hid : u.jobID? = some id) (hQt : t.jobID? = some id → TicketKnown t job)
    (hQ : TicketKnown u job) (h : Moves g st k' id t a job r job' r') : TicketKnown u job' := by
  cases h with
  | stay => exact hQ
  | @sentPending c number reply ref pollAfter job r r' hreply hcid hfresh hr hmarked =>
    obtain ⟨result, reached⟩ := reply
    obtain rfl : result = .pending ref pollAfter := hreply
    cases u with
    | ready c' number' =>
      have hsame : c.jobID = c'.jobID := hcid.trans (Option.some.inj hid).symm
      rw [ticketAlone, hfresh, hsame, bne_self_eq_false] at hD
      cases hD
    | polling c' s ref' => rfl
    | lost i j => rfl
    | rearming i j n => rfl
    | _ => trivial
  | @pollPending c sequence pollRef reply ref pollAfter job r hreply hcid hfresh hmarked =>
    have href : job.pollRef.isSome = true := hQt (congrArg some hcid)
    cases u with
    | ready c' number' =>
      have hnone : job.pollRef = none := hQ
      rw [hnone] at href
      cases href
    | polling c' s ref' => rfl
    | lost i j => rfl
    | rearming i j n => rfl
    | _ => trivial
  | _ =>
    cases u with
    | _ => exact hQ

theorem ticketed_rules (g : SubmitArgs) : RowRules g (fun st t a => leavesTicket st t a = true)
    (fun st t a u => ticketAlone st t a u = true) (fun _ _ => True)
    (fun k _ job _ => Ticketed g k job) TicketKnown where
  moves hk _ hgrows ht hC hstands _ hP hQ h := hP.moves hk hgrows ht hC hstands hQ h
  others _ _ _ _ hD _ _ hQt hid hQ h := hQ.others hD hid hQt h
  ready {st t a u c number job r id} hk hC hstands hP ht ha hlocked hopen _ hallowed := by
    subst ht
    subst ha
    exact Option.not_isSome_iff_eq_none.mp fun href =>
      hP.shut hk hstands href hC hopen hlocked (.inr hallowed)
  sent _ := trivial
  polling hP hs := hP.pending hs
  lost hP hs := hP.pending hs
  rearming h := h

end

theorem Begins.ticketed {g : SubmitArgs} {st : Store} (h : Begins g st) :
    Keeps g (fun k _ job _ => Ticketed g k job) st.core := by
  intro id job r hjob _
  have hfresh : job.state = .queued ∧ job.pollRef = none := by
    cases hjob with
    | row hjob hkey => exact h.fresh hjob hkey
    | unborn _ _ _ _ hs _ href => exact ⟨hs, href⟩
  refine .of_none hfresh.2 ?_
  rw [hfresh.1]
  nofun

def isSubmitDelivery : Task → Bool
  | .fetched _ _ (.submit _) => true
  | .ready _ _ => true
  | .sent _ _ => true
  | _ => false

def isPollVerdict (t : Task) (a : Act) : Prop :=
  ∃ c sequence pollRef reply target, t = .polling c sequence pollRef ∧ a = .reply reply ∧
    verdictStatus c reply.result = some target

section
variable {g : SubmitArgs} {st : Store} {k' : Core} {t : Task} {a : Act} {id : Uuid}
  {job job' : Job} {r r' : Row}

theorem Ticketed.step (hk : st.core.Owned g) (ht : st.core.Minds g t)
    (hC : leavesTicket st t a = true) (hstands : Stands g st.core id job)
    (hP : Ticketed g st.core job) (hQ : t.jobID? = some id → TicketKnown t job)
    (href : job.pollRef.isSome = true) (h : Moves g st k' id t a job r job' r') :
    (isSubmitDelivery t = true → job' = job) ∧
      (job.state = .pending → job'.state ≠ .pending → isPollVerdict t a) := by
  cases h with
  | stay => exact ⟨fun _ => rfl, fun hs hne => absurd hs hne⟩
  | cleared hlocked hopen hcleared =>
    exact (hP.shut hk hstands href hC hopen hlocked (.inl hcleared)).elim
  | submitting hlocked hopen hclear hallowed =>
    exact (hP.shut hk hstands href hC hopen hlocked (.inr hallowed)).elim
  | @closed t a c s target outcome out job r r' attempts lastError hcall hid hfresh hv ha hr =>
    cases t with
    | ready c' number =>
      cases hcall
      have hnone : job.pollRef = none := hQ (congrArg some hid)
      rw [hnone] at href
      cases href
    | sent c' number =>
      cases hcall
      rw [hP.skips hk href ht] at hfresh
      cases hfresh
    | polling c' sequence pollRef =>
      cases hcall
      refine ⟨nofun, fun _ _ => ?_⟩
      cases a with
      | reply reply => exact ⟨c, sequence, pollRef, reply, target, rfl, rfl, ha⟩
      | _ => cases ha
    | _ => cases hcall
  | @sentPending c number reply ref pollAfter job r r' hreply hid hfresh hr hmarked =>
    rw [hP.skips hk href ht] at hfresh
    cases hfresh
  | pollPending hreply hid hfresh hmarked => exact ⟨nofun, fun _ hne => absurd rfl hne⟩
  | @retried c number reply err job r hreply hmid hid =>
    have hjob : st.jobs.get? c.jobID = some job := by
      rw [hid]
      exact hstands.row_of_ticket href
    obtain ⟨result, reached⟩ := reply
    obtain rfl : result = .retryable err := hreply
    rw [leavesTicket, hjob, Option.all_some, decide_eq_false (Nat.not_le_of_lt hmid),
      Bool.false_or] at hC
    rw [Option.isNone_iff_eq_none.mp hC] at href
    cases href
  | pollRetried hreply hmid hid => exact ⟨nofun, fun hs hne => absurd hs hne⟩
  | cancelled hs hqueued =>
    rcases hP.waits href with hw | hw
    · rw [hs] at hw
      cases hw
    · rw [hs] at hw
      cases hw

end

/-- In every run without such a replay, once a ticket is written: no delivery calls the adapter's
submit again or changes the job, the job leaves pending through a poll hop's verdict alone, and
a hop that finds it no longer pending finds it closed. -/
theorem acknowledged_is_not_replayed {g : SubmitArgs} {st : Store} (hbegins : Begins g st)
    {steps : List (ℕ × Act)} {w w' : World Store Task} {m : ℕ} {a : Act} {id : Uuid} {job : Job}
    (hmeets : Along protocol.step NoReplay (start st) (steps ++ [(m, a)]))
    (hrun : runFrom protocol.step (start st) steps = some w)
    (hstep : protocol.step w (m, a) = some w') (hjob : w.store.jobs.get? id = some job)
    (hkey : job.idempotencyKey = g.idempotencyKey) (hticket : job.pollRef.isSome = true) :
    a ≠ .submit ∧
      (isSubmitDelivery (protocol.task w m) = true → w'.store.jobs.get? id = some job) ∧
      (∀ job', w'.store.jobs.get? id = some job' → job.state = .pending → job'.state ≠ .pending →
        isPollVerdict (protocol.task w m) a) ∧
      (job.state = .pending ∨ isTerminalJobState job.state = true) := by
  have hw := (ticketed_rules g).run (fun _ _ _ _ => ⟨trivial, trivial⟩) trivial hbegins
    hbegins.ticketed hmeets.prefix hrun
  have hlast : NoReplay w (m, a) := hmeets.last hrun
  obtain ⟨-, d', t', hn, rfl⟩ := Protocol.step_eq_some.mp hstep
  have hk := hw.store.1
  have ht := hw.each m
  have hstands : Stands g w.store.core id job := .row hjob hkey
  obtain ⟨r, hr⟩ := hk.invoice
  have hP := hw.store.2 hstands hr
  have heffect := next_effect hn
  obtain ⟨hgrows, hk', -⟩ := effect_owned hk ht.1 heffect
  obtain ⟨job', hjob', hkey', -⟩ := hgrows.jobs hjob
  obtain ⟨r', hr'⟩ := hk'.invoice
  obtain ⟨job₀, r₀, hstands₀, hr₀, hmoves⟩ :=
    effect_moves hk ht.1 heffect (.row hjob' (hkey'.trans hkey)) hr'
  obtain ⟨-, rfl⟩ := hstands₀.eq_row hk hjob hkey
  obtain ⟨hsame, hleaves⟩ := hP.step hk ht.1 hlast.1 hstands (fun hid => ht.2 hid hstands) hticket
    hmoves
  refine ⟨?_, fun hsubmit => (hsame hsubmit) ▸ hjob', fun job'' hjob'' => ?_, hP.waits hticket⟩
  · rintro rfl
    have hready : ∃ c number, protocol.task w m = .ready c number := by
      cases hm : protocol.task w m with
      | ready c number => exact ⟨c, number, rfl⟩
      | _ =>
        rw [hm] at hn
        cases hn
    obtain ⟨c, number, hm⟩ := hready
    rw [hm] at ht
    have hc : w.store.core.Carries g c (.submit g) := ht.1
    obtain ⟨b, hb, hbkey⟩ := hc.job
    obtain rfl := hk.unique hjob hb hkey hbkey
    have hnone : job₀.pollRef = none := ht.2 rfl hstands
    rw [hnone] at hticket
    cases hticket
  · obtain rfl := Option.some.inj (hjob'.symm.trans hjob'')
    exact hleaves

def replayedAttempt : List (ℕ × Act) :=
  [(1, .river 1 .waiting), (0, .fetch 1 2), (0, .tx1 ⟨8, 0, true⟩), (0, .submit)]

def awaitsVerdict (st : Store) : Prop :=
  (st.jobs.get? 7).map (fun job => (job.state, job.pollRef)) = some (.pending, some "ticket") ∧
    st.river.get? 2 = some { args := .poll ⟨40, 7, 1⟩ }

theorem replay_sends_twice :
    ∃ w w', runFrom protocol.step (start sampleStore) acknowledgedAttempt = some w ∧
      awaitsVerdict w.store ∧ runFrom protocol.step w replayedAttempt = some w' ∧
      protocol.task w' 0 = .sent ⟨1, 2, 7, 40, 1⟩ "INV-1" ∧
      (w'.store.jobs.get? 7).map Job.state = some .submitting ∧
      w'.store.river.get? 2 = some { args := .poll ⟨40, 7, 1⟩ } ∧
      pollTx1 w'.store 2 1 ⟨40, 7, 1⟩ = .ok none := by
  have htest : (runFrom protocol.step (start sampleStore) acknowledgedAttempt).any (fun w =>
      decide ((w.store.jobs.get? 7).map (fun job => (job.state, job.pollRef)) =
        some (.pending, some "ticket")) &&
      decide (w.store.river.get? 2 = some { args := .poll ⟨40, 7, 1⟩ }) &&
      (runFrom protocol.step w replayedAttempt).any fun w' =>
        decide (protocol.task w' 0 = .sent ⟨1, 2, 7, 40, 1⟩ "INV-1") &&
        decide ((w'.store.jobs.get? 7).map Job.state = some .submitting) &&
        decide (w'.store.river.get? 2 = some { args := .poll ⟨40, 7, 1⟩ }) &&
        decide ((pollTx1 w'.store 2 1 ⟨40, 7, 1⟩).toOption = some none)) = true := by
    decide +kernel
  obtain ⟨w, hrun, hw⟩ := (Option.any_eq_true _ _).mp htest
  simp only [Bool.and_eq_true, decide_eq_true_eq] at hw
  obtain ⟨hbefore, hrest⟩ := hw
  obtain ⟨w', hrun', hw'⟩ := (Option.any_eq_true _ _).mp hrest
  simp only [Bool.and_eq_true, decide_eq_true_eq] at hw'
  obtain ⟨⟨⟨hsent, hstate⟩, hriver⟩, hpoll⟩ := hw'
  exact ⟨w, w', hrun, hbefore, hrun', hsent, hstate, hriver, toOption_eq_some.mp hpoll⟩

theorem acknowledged_is_not_replayed_sample :
    ∃ w w' job, runFrom protocol.step (start sampleStore) acknowledgedAttempt = some w ∧
      protocol.step w (1, .fetch 2 1) = some w' ∧ w.store.jobs.get? 7 = some job ∧
      (job.state = .pending ∨ isTerminalJobState job.state = true) := by
  have htest : (runFrom protocol.step (start sampleStore) acknowledgedAttempt).any (fun w =>
      (protocol.step w (1, .fetch 2 1)).isSome && (w.store.jobs.get? 7).any fun job =>
        decide (job.idempotencyKey = sampleArgs.idempotencyKey) && job.pollRef.isSome) = true := by
    decide +kernel
  obtain ⟨w, hrun, hw⟩ := (Option.any_eq_true _ _).mp htest
  simp only [Bool.and_eq_true] at hw
  obtain ⟨hfetch, hrow⟩ := hw
  obtain ⟨w', hstep⟩ := Option.isSome_iff_exists.mp hfetch
  obtain ⟨job, hjob, hjob'⟩ := (Option.any_eq_true _ _).mp hrow
  simp only [Bool.and_eq_true, decide_eq_true_eq] at hjob'
  have hmeets : Along protocol.step NoReplay (start sampleStore)
      (acknowledgedAttempt ++ [(1, .fetch 2 1)]) := by decide +kernel
  exact ⟨w, w', job, hrun, hstep, hjob,
    (acknowledged_is_not_replayed sampleStore_begins hmeets hrun hstep hjob hjob'.1 hjob'.2).2.2.2⟩

end InvoiceOs.Submission
