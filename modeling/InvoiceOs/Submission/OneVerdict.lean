import InvoiceOs.Submission.Moves

/-! One verdict for a submission, and its two rows at one. The second transactions write by id,
without a look at the state the first one read, so a closed job keeps its verdict as long as
no second transaction that the marker lets through would still write over it. -/

namespace InvoiceOs.Submission

open Lib Invoice

def Store.hasClosed (st : Store) (jobID : Uuid) : Bool :=
  (st.jobs.get? jobID).any fun job => isTerminalJobState job.state

/-- What the marker and the invoice's own state machine let a second transaction write on a
closed job: the verdict once more, another ticket, or one more attempt. -/
def rewrites (st : Store) (t : Task) (a : Act) (c : Call) : Bool :=
  match closesAt t a with
  | some target => !st.used (markerKey c.riverID) &&
      (st.db.invoices.get? c.invoiceID).any fun r => r.status == target
  | none =>
    match t, a with
    | .sent _ _, .reply ⟨.retryable _, _⟩ => true
    | .polling _ _ _, .reply ⟨.retryable _, _⟩ =>
      (st.jobs.get? c.jobID).any fun job => job.attempts != c.attempts + 1
    | .polling _ _ _, .reply ⟨.pending ref _, _⟩ => !st.used (markerKey c.riverID) && ref != ""
    | _, _ => false

def leavesVerdict (st : Store) (t : Task) (a : Act) : Bool :=
  t.call?.all fun c => !st.hasClosed c.jobID || !rewrites st t a c

def VerdictStands : World Store Task → ℕ × Act → Prop :=
  protocol.Meets (fun st t a => leavesVerdict st t a = true) fun _ _ _ _ => True

instance (w : World Store Task) (na : ℕ × Act) : Decidable (VerdictStands w na) := by
  unfold VerdictStands
  infer_instance

inductive Decided (k : Core) (id : Uuid) : JobState → Row → Prop
  | verdict {s : JobState} {target : Status} {outcome : Row → Row} {out : AuditOutcome}
      {row : AuditRow} (r : Row) (hv : Verdict s target outcome out) (haudit : k.audit = [row])
      (hjob : row.jobID = id) (hout : row.outcome = out) :
      Decided k id s ((outcome r).applyTransition target .system {})
  | cancelled (r : Row) (haudit : k.audit = []) :
      Decided k id .cancelled (r.applyTransition .failed .support {})

structure Agreed (k : Core) (id : Uuid) (job : Job) (r : Row) : Prop where
  undecided : isTerminalJobState job.state = false →
    (r.status = .queued ∨ r.status = .submitted) ∧ r.irn = none ∧ k.audit = []
  decided : isTerminalJobState job.state = true → Decided k id job.state r

section
variable {g : SubmitArgs} {st : Store} {k k' : Core} {t : Task} {a : Act} {id : Uuid}
  {job job' : Job} {r r' : Row}

theorem Decided.status {s : JobState} (h : Decided k id s r) :
    r.status = .accepted ∨ r.status = .rejected ∨ r.status = .failed := by
  cases h with
  | verdict r hv haudit hjob hout => cases hv <;> simp only [Row.applyTransition_status, reduceCtorEq,
      or_true, true_or]
  | cancelled r haudit => exact .inr (.inr rfl)

theorem Decided.once {s : JobState} (h : Decided k id s r) : k.audit.length ≤ 1 := by
  cases h with
  | verdict r hv haudit hjob hout => exact le_of_eq (congrArg List.length haudit)
  | cancelled r haudit => exact (congrArg List.length haudit).trans_le (Nat.zero_le 1)

theorem Decided.congr {s : JobState} (h : Decided k id s r) (haudit : k'.audit = k.audit) :
    Decided k' id s r := by
  cases h with
  | verdict r hv hrow hjob hout => exact .verdict r hv (haudit.trans hrow) hjob hout
  | cancelled r hrow => exact .cancelled r (haudit.trans hrow)

theorem Agreed.stay (h : Agreed k id job r) (haudit : k'.audit = k.audit)
    (hs : job'.state = job.state) : Agreed k' id job' r where
  undecided hopen := by
    rw [hs] at hopen
    obtain ⟨hstatus, hirn, hnone⟩ := h.undecided hopen
    exact ⟨hstatus, hirn, haudit.trans hnone⟩
  decided hclosed := by
    rw [hs] at hclosed ⊢
    exact (h.decided hclosed).congr haudit

theorem Verdict.not_after {s : JobState} {target : Status} {outcome : Row → Row}
    {out : AuditOutcome} (hv : Verdict s target outcome out) {status : Status}
    (hs : status = .accepted ∨ status = .rejected ∨ status = .failed) :
    canTransition status target = false := by
  rcases hs with rfl | rfl | rfl <;> cases hv <;> rfl

theorem alreadyCleared_open (hk : st.core.Owned g) (hstands : Stands g st.core id job)
    (hr : st.db.invoices.get? g.invoiceID = some r) (hirn : r.irn = none) :
    st.alreadyCleared g.invoiceID id = false := by
  have hsibling : st.invoiceHasSiblingAcceptedJob g.invoiceID id = false := by
    rw [Bool.eq_false_iff]
    intro hany
    simp only [Store.invoiceHasSiblingAcceptedJob, List.any_eq_true, Prod.exists, Table.mem_rows,
      Bool.and_eq_true, beq_iff_eq, bne_iff_ne] at hany
    obtain ⟨i, b, hb, ⟨hinv, hs⟩, hne⟩ := hany
    by_cases hkey : b.idempotencyKey = g.idempotencyKey
    · exact hne (hstands.eq_row hk hb hkey).1.symm
    · exact (hk.others hb hkey).2 hinv hs
  have houtcome : st.hasFiscalOutcome g.invoiceID = false := by
    simp only [Store.hasFiscalOutcome, hr, hirn, Option.isSome_none]
  rw [Store.alreadyCleared, hsibling, houtcome, Bool.or_self]

theorem leavesVerdict_closed {c : Call} (hC : leavesVerdict st t a = true) (hcall : t.call? = some c)
    (hjob : st.jobs.get? c.jobID = some job) (hs : isTerminalJobState job.state = true) :
    rewrites st t a c = false := by
  simp only [leavesVerdict, hcall, Option.all_some, Store.hasClosed, hjob, Option.any_some, hs,
    Bool.not_true, Bool.false_or, Bool.not_eq_true'] at hC
  exact hC

theorem Stands.of_call (hstands : Stands g st.core id job) (hk : st.core.Owned g) {c : Call}
    {args : RiverArgs} (hc : st.core.Carries g c args) : st.jobs.get? c.jobID = some job := by
  obtain ⟨b, hb, hkey⟩ := hc.job
  obtain ⟨-, rfl⟩ := hstands.eq_row hk hb hkey
  exact hb

theorem Agreed.frozen (hk : st.core.Owned g) (ht : st.core.Minds g t)
    (hC : leavesVerdict st t a = true) (hstands : Stands g st.core id job)
    (hr : st.db.invoices.get? g.invoiceID = some r) (hP : Agreed st.core id job r)
    (hs : isTerminalJobState job.state = true) (h : Moves g st k' id t a job r job' r') :
    job'.state = job.state ∧ job'.attempts = job.attempts ∧ r' = r ∧ k'.audit = st.audit := by
  have hstatus := (hP.decided hs).status
  have hstill : ∀ {c : Call} {args : RiverArgs}, t.call? = some c → st.core.Carries g c args →
      rewrites st t a c = false := fun hcall hc =>
    leavesVerdict_closed hC hcall (hstands.of_call hk hc) hs
  cases h with
  | stay _ _ _ _ haudit => exact ⟨rfl, rfl, rfl, haudit⟩
  | cleared hlocked hopen hcleared haudit =>
    rw [hs] at hopen
    cases hopen
  | submitting hlocked hopen hclear hallowed haudit =>
    rw [hs] at hopen
    cases hopen
  | @closed t a c s target outcome out job r r' attempts lastError hcall hid hfresh hv ha hmark
      hmarked haudit =>
    obtain ⟨args, hc⟩ := ht.carries hcall
    have hleft := hstill hcall hc
    cases hmark with
    | already hsame =>
      simp only [rewrites, ha, hfresh, hc.invoiceID, hr, Option.any_some, hsame, Bool.not_false,
        beq_self_eq_true, Bool.and_self, Bool.true_eq_false] at hleft
    | moved hlegal hout =>
      rw [hv.not_after hstatus] at hlegal
      cases hlegal
  | sentPending hreply hid hfresh hmark hmarked haudit =>
    cases hmark with
    | already hsame =>
      rw [hsame] at hstatus
      rcases hstatus with h | h | h <;> cases h
    | moved hlegal hout =>
      rcases hstatus with h | h | h <;> rw [h] at hlegal <;> cases hlegal
  | @pollPending c sequence pollRef reply ref pollAfter job r hreply hid hfresh hmarked haudit
      hticket =>
    have hc : st.core.Carries g c _ := ht
    have hleft := hstill rfl hc
    obtain ⟨result, reached⟩ := reply
    obtain rfl : result = .pending ref pollAfter := hreply
    have hwrites : (!st.used (markerKey c.riverID) && ref != "") = false := hleft
    rw [hfresh, Bool.not_false, Bool.true_and, bne_eq_false_iff_eq] at hwrites
    exact absurd hwrites hticket
  | @retried c number reply err job r hreply hmid hid haudit =>
    have hc : st.core.Carries g c _ := ht
    have hleft := hstill rfl hc
    obtain ⟨result, reached⟩ := reply
    obtain rfl : result = .retryable err := hreply
    have hnone : closesAt (.sent c number) (.reply ⟨.retryable err, reached⟩) = none :=
      if_neg (Nat.not_le_of_lt hmid)
    rw [rewrites, hnone] at hleft
    cases hleft
  | @pollRetried c sequence pollRef reply err job r hreply hmid hid haudit =>
    have hc : st.core.Carries g c _ := ht
    have hjob := hstands.of_call hk hc
    have hleft := hstill rfl hc
    obtain ⟨result, reached⟩ := reply
    obtain rfl : result = .retryable err := hreply
    have hnone : closesAt (.polling c sequence pollRef) (.reply ⟨.retryable err, reached⟩) = none :=
      if_neg (Nat.not_le_of_lt hmid)
    rw [rewrites, hnone] at hleft
    have hcount : ((st.jobs.get? c.jobID).any fun job => job.attempts != c.attempts + 1) = false :=
      hleft
    rw [hjob, Option.any_some, bne_eq_false_iff_eq] at hcount
    exact ⟨rfl, hcount.symm, rfl, haudit⟩
  | cancelled hqueued hrow haudit =>
    rw [hqueued] at hs
    cases hs

theorem Agreed.moves_open (hk : st.core.Owned g) (ht : st.core.Minds g t)
    (hstands : Stands g st.core id job) (hr : st.db.invoices.get? g.invoiceID = some r)
    (hP : Agreed st.core id job r) (hs : isTerminalJobState job.state = false)
    (h : Moves g st k' id t a job r job' r') : Agreed k' id job' r' := by
  obtain ⟨hstatus, hirn, hnone⟩ := hP.undecided hs
  cases h with
  | stay _ _ _ _ haudit => exact hP.stay haudit rfl
  | cleared hlocked hopen hcleared haudit =>
    rw [alreadyCleared_open hk hstands hr hirn] at hcleared
    cases hcleared
  | submitting hlocked hopen hclear hallowed haudit =>
    exact ⟨fun _ => ⟨hstatus, hirn, haudit.trans hnone⟩, nofun⟩
  | @closed t a c s target outcome out job r r' attempts lastError hcall hid hfresh hv ha hmark
      hmarked haudit =>
    obtain ⟨number, haudit⟩ := haudit
    rw [show st.audit = [] from hnone, List.nil_append] at haudit
    refine ⟨fun hopen => ?_, fun _ => ?_⟩
    · rw [show (job.attempted s attempts lastError).state = s from rfl, hv.closes.1] at hopen
      cases hopen
    · cases hmark with
      | already hsame =>
        rw [hsame] at hstatus
        rcases hstatus with hq | hq <;> rw [hq] at hv <;> cases hv
      | moved hlegal hout => exact .verdict r hv haudit hid rfl
  | sentPending hreply hid hfresh hmark hmarked haudit =>
    refine ⟨fun _ => ⟨.inr hmark.status, ?_, haudit.trans hnone⟩, nofun⟩
    cases hmark with
    | already hsame => exact hirn
    | moved hlegal hout => exact hirn
  | pollPending hreply hid hfresh hmarked haudit hticket =>
    exact ⟨fun _ => ⟨hstatus, hirn, haudit.trans hnone⟩, nofun⟩
  | retried hreply hmid hid haudit =>
    exact ⟨fun _ => ⟨hstatus, hirn, haudit.trans hnone⟩, nofun⟩
  | pollRetried hreply hmid hid haudit => exact hP.stay haudit rfl
  | cancelled hqueued hrow haudit =>
    exact ⟨nofun, fun _ => .cancelled r (haudit.trans hnone)⟩

theorem Agreed.moves (hk : st.core.Owned g) (ht : st.core.Minds g t)
    (hC : leavesVerdict st t a = true) (hstands : Stands g st.core id job)
    (hr : st.db.invoices.get? g.invoiceID = some r) (hP : Agreed st.core id job r)
    (h : Moves g st k' id t a job r job' r') : Agreed k' id job' r' := by
  cases hs : isTerminalJobState job.state with
  | false => exact hP.moves_open hk ht hstands hr hs h
  | true =>
    obtain ⟨hstate, -, rfl, haudit⟩ := hP.frozen hk ht hC hstands hr hs h
    exact hP.stay haudit hstate

end

theorem agreed_rules (g : SubmitArgs) : RowRules g (fun st t a => leavesVerdict st t a = true)
    (fun _ _ _ _ => True) (fun _ _ => True) Agreed fun _ _ => True where
  moves hk _ _ ht hC hstands hr hP _ h := hP.moves hk ht hC hstands hr h
  others _ _ _ _ _ _ _ _ _ _ _ := trivial
  ready _ _ _ _ _ _ _ _ _ _ := trivial
  sent _ := trivial
  polling _ _ := trivial
  lost _ _ := trivial
  rearming _ := trivial

theorem Begins.agreed {g : SubmitArgs} {st : Store} (h : Begins g st) :
    Keeps g Agreed st.core := by
  intro id job r hjob hr
  obtain ⟨hstatus, hirn, -⟩ := h.invoice hr
  have hs : job.state = .queued := by
    cases hjob with
    | row hjob hkey => exact (h.fresh hjob hkey).1
    | unborn _ _ _ _ hs _ _ => exact hs
  refine ⟨fun _ => ⟨.inl hstatus, hirn, h.audit⟩, fun hclosed => ?_⟩
  rw [hs] at hclosed
  cases hclosed

/-- In every run whose second transactions leave closed jobs alone: a closed job's invoice stands
at the verdict, with the IRN the audit row names, no second audit row is written, and no further
step changes the job's state or its count. -/
theorem one_verdict {g : SubmitArgs} {st : Store} (hbegins : Begins g st)
    {steps : List (ℕ × Act)} {w : World Store Task} {id : Uuid} {job : Job}
    (hmeets : Along protocol.step VerdictStands (start st) steps)
    (hrun : runFrom protocol.step (start st) steps = some w)
    (hjob : w.store.jobs.get? id = some job) (hkey : job.idempotencyKey = g.idempotencyKey) :
    ∃ r, w.store.db.invoices.get? g.invoiceID = some r ∧
      (job.state = .accepted → r.status = .accepted ∧ ∃ irn row, r.irn = some irn ∧
        w.store.audit = [row] ∧ row.jobID = id ∧ row.outcome = .accepted irn) ∧
      (job.state = .rejected → r.status = .rejected) ∧
      (job.state = .deadLettered ∨ job.state = .failed → r.status = .failed) ∧
      w.store.audit.length ≤ 1 ∧
      ∀ na w', VerdictStands w na → protocol.step w na = some w' →
        isTerminalJobState job.state = true →
          ∃ job', w'.store.jobs.get? id = some job' ∧ job'.state = job.state ∧
            job'.attempts = job.attempts := by
  have hw := (agreed_rules g).run (fun _ _ _ _ => ⟨trivial, trivial⟩) trivial hbegins
    hbegins.agreed hmeets hrun
  have hk := hw.store.1
  have hstands : Stands g w.store.core id job := .row hjob hkey
  obtain ⟨r, hr⟩ := hk.invoice
  have hP := hw.store.2 hstands hr
  refine ⟨r, hr, ?_, ?_, ?_, ?_, ?_⟩
  · intro hs
    have hdecided := hP.decided (by rw [hs]; rfl)
    rw [hs] at hdecided
    cases hdecided with
    | verdict r hv haudit hid hout =>
      cases hv with
      | accepted irn csid qrPayload => exact ⟨rfl, irn, _, rfl, haudit, hid, hout⟩
  · intro hs
    have hdecided := hP.decided (by rw [hs]; rfl)
    rw [hs] at hdecided
    cases hdecided with
    | verdict r hv haudit hid hout =>
      cases hv with
      | rejected reasons => rfl
  · intro hs
    rcases hs with hs | hs
    · have hdecided := hP.decided (by rw [hs]; rfl)
      rw [hs] at hdecided
      cases hdecided with
      | verdict r hv haudit hid hout =>
        cases hv with
        | deadLettered kind => rfl
    · have hdecided := hP.decided (by rw [hs]; rfl)
      rw [hs] at hdecided
      cases hdecided with
      | verdict r hv haudit hid hout =>
        cases hv with
        | transformFailed => rfl
  · cases hs : isTerminalJobState job.state with
    | false =>
      have hnone : w.store.audit = [] := (hP.undecided hs).2.2
      rw [hnone]
      exact Nat.zero_le 1
    | true => exact (hP.decided hs).once
  · rintro ⟨n, a⟩ w' hlast hstep hs
    obtain ⟨-, d', t', hn, rfl⟩ := Protocol.step_eq_some.mp hstep
    have ht := hw.each n
    have heffect := next_effect hn
    obtain ⟨hgrows, hk', -⟩ := effect_owned hk ht.1 heffect
    obtain ⟨job', hjob', hkey', -⟩ := hgrows.jobs hjob
    obtain ⟨r', hr'⟩ := hk'.invoice
    obtain ⟨job₀, r₀, hstands₀, hr₀, hmoves⟩ :=
      effect_moves hk ht.1 heffect (.row hjob' (hkey'.trans hkey)) hr'
    obtain ⟨-, rfl⟩ := hstands₀.eq_row hk hjob hkey
    obtain ⟨hstate, hattempts, -, -⟩ := Agreed.frozen hk ht.1 hlast.1 hstands₀ hr₀
      (hw.store.2 hstands₀ hr₀) hs hmoves
    exact ⟨job', hjob', hstate, hattempts⟩

def overlappingHops : List (ℕ × Act) :=
  acknowledgedAttempt ++ [(0, .fetch 2 1), (0, .tx1 ⟨8, 0, true⟩), (1, .river 2 .discarded),
    (1, .scan 7 ⟨100, 10⟩), (1, .readAttempts), (1, .rearm), (1, .fetch 3 1),
    (1, .tx1 ⟨8, 0, true⟩), (1, .reply ⟨.accepted "IRN-1" "" "", true⟩)]

theorem late_ticket_reopens :
    ∃ w w', runFrom protocol.step (start sampleStore) overlappingHops = some w ∧
      (w.store.jobs.get? 7).map Job.state = some .accepted ∧
      protocol.step w (0, .reply ⟨.pending "ticket" 90, true⟩) = some w' ∧
      (w'.store.jobs.get? 7).map Job.state = some .pending ∧
      (w'.store.db.invoices.get? 40).map Row.status = some .accepted := by
  have htest : (runFrom protocol.step (start sampleStore) overlappingHops).any (fun w =>
      decide ((w.store.jobs.get? 7).map Job.state = some .accepted) &&
      (protocol.step w (0, .reply ⟨.pending "ticket" 90, true⟩)).any fun w' =>
        decide ((w'.store.jobs.get? 7).map Job.state = some .pending) &&
        decide ((w'.store.db.invoices.get? 40).map Row.status = some .accepted)) = true := by
    decide +kernel
  obtain ⟨w, hrun, hw⟩ := (Option.any_eq_true _ _).mp htest
  simp only [Bool.and_eq_true, decide_eq_true_eq] at hw
  obtain ⟨haccepted, hnext⟩ := hw
  obtain ⟨w', hstep, hw'⟩ := (Option.any_eq_true _ _).mp hnext
  simp only [Bool.and_eq_true, decide_eq_true_eq] at hw'
  exact ⟨w, w', hrun, haccepted, hstep, hw'.1, hw'.2⟩

theorem one_verdict_sample :
    ∃ w job r, runFrom protocol.step (start sampleStore) overlappingHops = some w ∧
      w.store.jobs.get? 7 = some job ∧ job.state = .accepted ∧
      w.store.db.invoices.get? 40 = some r ∧ r.status = .accepted := by
  have htest : (runFrom protocol.step (start sampleStore) overlappingHops).any (fun w =>
      (w.store.jobs.get? 7).any fun job => decide (job.state = .accepted) &&
        decide (job.idempotencyKey = sampleArgs.idempotencyKey)) = true := by decide +kernel
  obtain ⟨w, hrun, hw⟩ := (Option.any_eq_true _ _).mp htest
  obtain ⟨job, hjob, hw⟩ := (Option.any_eq_true _ _).mp hw
  simp only [Bool.and_eq_true, decide_eq_true_eq] at hw
  obtain ⟨r, hr, haccepted, -⟩ :=
    one_verdict sampleStore_begins (by decide +kernel) hrun hjob hw.2
  exact ⟨w, job, r, hrun, hjob, hw.1, hr, (haccepted hw.1).1⟩

end InvoiceOs.Submission
