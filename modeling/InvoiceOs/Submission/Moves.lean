import InvoiceOs.Submission.Cycle

/-! The submission's own two rows, its job and its invoice: where they stand, and how one
step can move them. -/

namespace InvoiceOs.Submission

open Lib Invoice

inductive Stands (g : SubmitArgs) (k : Core) (id : Uuid) (job : Job) : Prop
  | row (hjob : k.jobs.get? id = some job) (hkey : job.idempotencyKey = g.idempotencyKey)
  | unborn (hnone : ∀ i a, k.jobs.get? i = some a → a.idempotencyKey ≠ g.idempotencyKey)
      (hnew : k.jobs.get? id = none) (hinv : job.invoiceID = g.invoiceID)
      (hkey : job.idempotencyKey = g.idempotencyKey) (hstate : job.state = .queued)
      (hattempts : job.attempts = 0) (href : job.pollRef = none)

inductive Marked (target : Status) (outcome : Row → Row) (r : Row) : Row → Prop
  | already (hs : r.status = target) : Marked target outcome r r
  | moved (hlegal : canTransition r.status target = true) (hout : (outcome r).status = r.status) :
      Marked target outcome r ((outcome r).applyTransition target .system {})

inductive Moves (g : SubmitArgs) (st : Store) (k' : Core) (id : Uuid) :
    Task → Act → Job → Row → Job → Row → Prop
  | stay (t : Task) (a : Act) (job : Job) (r : Row) (haudit : k'.audit = st.audit) :
      Moves g st k' id t a job r job r
  | cleared {n attempt : ℕ} {u : Tx1Input} {job : Job} {r : Row}
      (hlocked : st.workspaceLocked = false) (hopen : isTerminalJobState job.state = false)
      (hcleared : st.alreadyCleared g.invoiceID id = true) (haudit : k'.audit = st.audit) :
      Moves g st k' id (.fetched n attempt (.submit g)) (.tx1 u) job r (job.withState .accepted) r
  | submitting {n attempt : ℕ} {u : Tx1Input} {job : Job} {r : Row}
      (hlocked : st.workspaceLocked = false) (hopen : isTerminalJobState job.state = false)
      (hclear : st.alreadyCleared g.invoiceID id = false) (hallowed : u.allowed = true)
      (haudit : k'.audit = st.audit) :
      Moves g st k' id (.fetched n attempt (.submit g)) (.tx1 u) job r (job.withState .submitting) r
  | closed {t : Task} {a : Act} {c : Call} {s : JobState} {target : Status} {outcome : Row → Row}
      {out : AuditOutcome} {job : Job} {r r' : Row} {attempts : ℕ} {lastError : Option String}
      (hcall : t.call? = some c) (hid : c.jobID = id)
      (hfresh : st.used (markerKey c.riverID) = false) (hv : Verdict s target outcome out)
      (ha : closesAt t a = some target) (hr : Marked target outcome r r')
      (hmarked : markerKey c.riverID ∈ k'.keys)
      (haudit : ∃ number, k'.audit = st.audit ++ [c.audit out number]) :
      Moves g st k' id t a job r (job.attempted s attempts lastError) r'
  | sentPending {c : Call} {invoiceNumber : String} {reply : Reply} {ref : String} {pollAfter : ℕ}
      {job : Job} {r r' : Row} (hreply : reply.result = .pending ref pollAfter) (hid : c.jobID = id)
      (hfresh : st.used (markerKey c.riverID) = false) (hr : Marked .submitted (fun r => r) r r')
      (hmarked : markerKey c.riverID ∈ k'.keys) (haudit : k'.audit = st.audit) :
      Moves g st k' id (.sent c invoiceNumber) (.reply reply) job r
        (job.acknowledged (c.attempts + 1) ref pollAfter) r'
  | pollPending {c : Call} {sequence : ℕ} {pollRef : String} {reply : Reply} {ref : String}
      {pollAfter : ℕ} {job : Job} {r : Row} (hreply : reply.result = .pending ref pollAfter)
      (hid : c.jobID = id) (hfresh : st.used (markerKey c.riverID) = false)
      (hmarked : markerKey c.riverID ∈ k'.keys) (haudit : k'.audit = st.audit) (hticket : ref ≠ "") :
      Moves g st k' id (.polling c sequence pollRef) (.reply reply) job r
        (job.acknowledged (c.attempts + 1) ref pollAfter) r
  | retried {c : Call} {invoiceNumber : String} {reply : Reply} {err : String} {job : Job} {r : Row}
      (hreply : reply.result = .retryable err) (hmid : c.attempt < maxAttempts) (hid : c.jobID = id)
      (haudit : k'.audit = st.audit) :
      Moves g st k' id (.sent c invoiceNumber) (.reply reply) job r
        (job.attempted .queued (c.attempts + 1) (some err)) r
  | pollRetried {c : Call} {sequence : ℕ} {pollRef : String} {reply : Reply} {err : String}
      {job : Job} {r : Row} (hreply : reply.result = .retryable err)
      (hmid : c.attempt < maxAttempts) (hid : c.jobID = id)
      (haudit : k'.audit = st.audit) :
      Moves g st k' id (.polling c sequence pollRef) (.reply reply) job r
        (job.attempted job.state (c.attempts + 1) (some err)) r
  | cancelled {job : Job} {r : Row} (hs : job.state = .queued) (hqueued : r.status = .queued)
      (haudit : k'.audit = st.audit) :
      Moves g st k' id .idle (.cancel id) job r (job.withState .cancelled)
        (r.applyTransition .failed .support {})

section
variable {g : SubmitArgs} {k k' : Core} {st : Store} {t t' : Task} {a : Act} {id : Uuid}
  {job job' : Job} {r r' : Row}

theorem Stands.key (h : Stands g k id job) : job.idempotencyKey = g.idempotencyKey := by
  cases h with
  | row _ hkey => exact hkey
  | unborn _ _ _ hkey _ _ _ => exact hkey

theorem Stands.of_jobs (h : Stands g k' id job) (hjobs : k'.jobs = k.jobs) : Stands g k id job := by
  cases h with
  | row hjob hkey => exact .row (hjobs ▸ hjob) hkey
  | unborn hnone hnew hinv hkey hs ha href =>
    exact .unborn (hjobs ▸ hnone) (hjobs ▸ hnew) hinv hkey hs ha href

theorem Stands.eq_row (h : Stands g k id job) (hk : k.Owned g) {i : Uuid} {b : Job}
    (hb : k.jobs.get? i = some b) (hkey : b.idempotencyKey = g.idempotencyKey) :
    id = i ∧ job = b := by
  cases h with
  | row hjob hjkey =>
    obtain rfl := hk.unique hjob hb hjkey hkey
    exact ⟨rfl, Option.some.inj (hjob.symm.trans hb)⟩
  | unborn hnone _ _ _ _ _ _ => exact absurd hkey (hnone i b hb)

theorem Stands.of_ensures {args : SubmitArgs} {newID : Uuid}
    (h : Ensures st args newID id job) : Stands args st.core id job := by
  cases h with
  | found hjob hkey => exact .row hjob hkey
  | created hnone hnew hinv hkey hs ha href => exact .unborn hnone hnew hinv hkey hs ha href

theorem Marked.status {target : Status} {outcome : Row → Row} (h : Marked target outcome r r') :
    r'.status = target := by
  cases h with
  | already hs => exact hs
  | moved _ _ => rfl

theorem Verdict.closes {s : JobState} {target : Status} {outcome : Row → Row} {out : AuditOutcome}
    (h : Verdict s target outcome out) :
    isTerminalJobState s = true ∧ s ≠ .cancelled ∧ target ≠ .queued := by
  cases h <;> exact ⟨rfl, nofun, nofun⟩

theorem Core.Marks.marked {i : Uuid} {target : Status} {outcome : Row → Row}
    (h : k.Marks i target outcome k') (hr' : k'.invoices.get? i = some r') :
    k'.jobs = k.jobs ∧ k'.keys = k.keys ∧ k'.audit = k.audit ∧
      ∃ r, k.invoices.get? i = some r ∧ Marked target outcome r r' := by
  cases h with
  | @already r₀ hrow hs =>
    obtain rfl : r₀ = r' := Option.some.inj (hrow.symm.trans hr')
    exact ⟨rfl, rfl, rfl, r₀, hrow, .already hs⟩
  | @moved r₀ hrow hlegal hout =>
    obtain rfl : (outcome r₀).applyTransition target .system {} = r' :=
      Option.some.inj ((Table.get?_set_self _ _ _).symm.trans hr')
    exact ⟨rfl, rfl, rfl, r₀, hrow, .moved hlegal hout⟩

theorem marker_mem (k : Core) (n : ℕ) (i : Uuid) (b : Job) :
    markerKey n ∈ ((k.addKey (markerKey n)).writeJob i b).keys :=
  List.mem_append_right _ (List.mem_singleton.mpr rfl)

theorem effect_moves (hk : st.core.Owned g) (ht : st.core.Minds g t) (h : Effect st t a k' t')
    (hjob' : Stands g k' id job') (hr' : k'.invoices.get? g.invoiceID = some r') :
    ∃ job r, Stands g st.core id job ∧ st.db.invoices.get? g.invoiceID = some r ∧
      Moves g st k' id t a job r job' r' := by
  obtain ⟨-, hk', -⟩ := effect_owned hk ht h
  cases h with
  | stop => exact ⟨job', r', hjob', hr', .stay _ _ _ _ rfl⟩
  | fetched hrow hs => exact ⟨job', r', hjob'.of_jobs rfl, hr', .stay _ _ _ _ rfl⟩
  | settled hrow hlive hs => exact ⟨job', r', hjob'.of_jobs rfl, hr', .stay _ _ _ _ rfl⟩
  | @created n attempt args u job hnone hens =>
    obtain rfl : args = g := ht.2
    have hstands := Stands.of_ensures hens
    obtain ⟨rfl, rfl⟩ := hjob'.eq_row hk' (Table.get?_set_self _ _ _) hstands.key
    exact ⟨job', r', hstands, hr', .stay _ _ _ _ rfl⟩
  | @cleared n attempt args u i job hlocked hens hopen hcleared =>
    obtain rfl : args = g := ht.2
    have hstands := Stands.of_ensures hens
    obtain ⟨rfl, rfl⟩ := hjob'.eq_row hk' (Table.get?_set_self _ _ _) hstands.key
    exact ⟨job, r', hstands, hr', .cleared hlocked hopen hcleared rfl⟩
  | @submitting n attempt args u i job number hlocked hens hopen hclear hallowed =>
    obtain rfl : args = g := ht.2
    have hstands := Stands.of_ensures hens
    obtain ⟨rfl, rfl⟩ := hjob'.eq_row hk' (Table.get?_set_self _ _ _) hstands.key
    exact ⟨job, r', hstands, hr', .submitting hlocked hopen hclear hallowed rfl⟩
  | polled hjob hs => exact ⟨job', r', hjob', hr', .stay _ _ _ _ rfl⟩
  | sent => exact ⟨job', r', hjob', hr', .stay _ _ _ _ rfl⟩
  | @closed t a c s target outcome out k' hcall hfresh hv ha hclose =>
    obtain ⟨args, hc⟩ := ht.carries hcall
    cases hclose with
    | @intro job attempts lastError number k' hjob hmarks =>
      have hr'' : k'.invoices.get? c.invoiceID = some r' := by
        rw [hc.invoiceID]
        exact hr'
      obtain ⟨hjobs, hkeys, haudit, r, hr, hmarked⟩ := hmarks.marked hr''
      rw [hc.invoiceID] at hr
      have hkey := hc.job.key hjob
      have hwritten : k'.jobs.get? c.jobID = some (job.attempted s attempts lastError) := by
        rw [hjobs]
        exact Table.get?_set_self _ _ _
      obtain ⟨rfl, rfl⟩ := hjob'.eq_row hk' hwritten hkey
      have hmem : markerKey c.riverID ∈ k'.keys := by
        rw [hkeys]
        exact marker_mem _ _ _ _
      exact ⟨job, r, .row hjob hkey, hr, .closed hcall rfl hfresh hv ha hmarked hmem
        ⟨number, congrArg (· ++ [c.audit out number]) haudit⟩⟩
  | @sentPending c number reply job ref pollAfter k₁ hreply hfresh hjob hmarks =>
    have hc : st.core.Carries g c _ := ht
    have hr₁ : k₁.invoices.get? c.invoiceID = some r' := by
      rw [hc.invoiceID, ← hr', Core.enqueue_invoices]
    obtain ⟨hjobs, hkeys, haudit, r, hr, hmarked⟩ := hmarks.marked hr₁
    rw [hc.invoiceID] at hr
    have hkey := hc.job.key hjob
    have hwritten : (k₁.enqueue (pollKey c.jobID 1) (.poll ⟨c.invoiceID, c.jobID, 1⟩)).jobs.get?
        c.jobID = some (job.acknowledged (c.attempts + 1) ref pollAfter) := by
      rw [Core.enqueue_jobs, hjobs]
      exact Table.get?_set_self _ _ _
    obtain ⟨rfl, rfl⟩ := hjob'.eq_row hk' hwritten hkey
    have hmem : markerKey c.riverID ∈ k₁.keys := by
      rw [hkeys]
      exact marker_mem _ _ _ _
    exact ⟨job, r, .row hjob hkey, hr, .sentPending hreply rfl hfresh hmarked
      (Core.mem_enqueue_keys hmem) ((Core.enqueue_audit _ _ _).trans haudit)⟩
  | @pollPending c sequence pollRef reply job ref pollAfter hreply hfresh hjob hticket =>
    have hc : st.core.Carries g c _ := ht
    rw [Core.enqueue_invoices] at hr'
    have hkey := hc.job.key hjob
    have hwritten : (((st.core.addKey (markerKey c.riverID)).writeJob c.jobID
        (job.acknowledged (c.attempts + 1) ref pollAfter)).enqueue
          (pollKey c.jobID (sequence + 1)) (.poll ⟨c.invoiceID, c.jobID, sequence + 1⟩)).jobs.get?
            c.jobID = some (job.acknowledged (c.attempts + 1) ref pollAfter) := by
      rw [Core.enqueue_jobs]
      exact Table.get?_set_self _ _ _
    obtain ⟨rfl, rfl⟩ := hjob'.eq_row hk' hwritten hkey
    exact ⟨job, r', .row hjob hkey, hr', .pollPending hreply rfl hfresh
      (Core.mem_enqueue_keys (marker_mem _ _ _ _)) (Core.enqueue_audit _ _ _) hticket⟩
  | @retried c number reply job err hreply hmid hjob =>
    have hc : st.core.Carries g c _ := ht
    have hkey := hc.job.key hjob
    obtain ⟨rfl, rfl⟩ := hjob'.eq_row hk' (Table.get?_set_self _ _ _) hkey
    exact ⟨job, r', .row hjob hkey, hr', .retried hreply hmid rfl rfl⟩
  | @pollRetried c sequence pollRef reply job err hreply hmid hjob =>
    have hc : st.core.Carries g c _ := ht
    have hkey := hc.job.key hjob
    obtain ⟨rfl, rfl⟩ := hjob'.eq_row hk' (Table.get?_set_self _ _ _) hkey
    exact ⟨job, r', .row hjob hkey, hr', .pollRetried hreply hmid rfl rfl⟩
  | found hjob hs hpoll => exact ⟨job', r', hjob', hr', .stay _ _ _ _ rfl⟩
  | counted hjob => exact ⟨job', r', hjob', hr', .stay _ _ _ _ rfl⟩
  | rearmed =>
    rw [Core.enqueue_invoices] at hr'
    exact ⟨job', r', hjob'.of_jobs (Core.enqueue_jobs _ _ _), hr',
      .stay _ _ _ _ (Core.enqueue_audit _ _ _)⟩
  | @cancelled i job r river hjob hs hrow hqueued hriver =>
    have hmine := hk.isJob hjob (by rw [hs]; rfl)
    have hkey := hmine.key hjob
    obtain ⟨rfl, rfl⟩ := hjob'.eq_row hk' (Table.get?_set_self _ _ _) hkey
    have hinv : job.invoiceID = g.invoiceID := hk.own hjob hkey
    rw [← hinv] at hr'
    obtain rfl : r.applyTransition .failed .support {} = r' :=
      Option.some.inj ((Table.get?_set_self _ _ _).symm.trans hr')
    rw [hinv] at hrow
    exact ⟨job, r, .row hjob hkey, hrow, .cancelled hs hqueued rfl⟩

end

/-! ### The rule for invariants of the two rows -/

def Task.jobID? : Task → Option Uuid
  | .idle => none
  | .fetched _ _ _ => none
  | .ready c _ => some c.jobID
  | .sent c _ => some c.jobID
  | .polling c _ _ => some c.jobID
  | .lost id _ => some id
  | .rearming id _ _ => some id

def Keeps (g : SubmitArgs) (P : Core → Uuid → Job → Row → Prop) (k : Core) : Prop :=
  ∀ {id job r}, Stands g k id job → k.invoices.get? g.invoiceID = some r → P k id job r

def Knows (g : SubmitArgs) (Q : Task → Job → Prop) (k : Core) (t : Task) : Prop :=
  ∀ {id job}, t.jobID? = some id → Stands g k id job → Q t job

structure RowRules (g : SubmitArgs) (C : Store → Task → Act → Prop)
    (D : Store → Task → Act → Task → Prop) (R : Task → Task → Prop)
    (P : Core → Uuid → Job → Row → Prop) (Q : Task → Job → Prop) : Prop where
  moves : ∀ {st k' t a id job r job' r'}, st.core.Owned g → k'.Owned g → st.core.Grows k' →
    st.core.Minds g t → C st t a → Stands g st.core id job →
      st.db.invoices.get? g.invoiceID = some r → P st.core id job r →
      (t.jobID? = some id → Q t job) → Moves g st k' id t a job r job' r' → P k' id job' r'
  others : ∀ {st k' t a u id job r job' r'}, st.core.Owned g → st.core.Minds g t →
    st.core.Minds g u → C st t a → D st t a u → R t u → P st.core id job r →
      (t.jobID? = some id → Q t job) → u.jobID? = some id → Q u job →
        Moves g st k' id t a job r job' r' → Q u job'
  ready : ∀ {st : Store} {t a u c number job r id}, st.core.Owned g → C st t a →
    Stands g st.core id job → P st.core id job r → t = .fetched c.riverID c.attempt (.submit g) →
      a = .tx1 u → st.workspaceLocked = false → isTerminalJobState job.state = false →
        st.alreadyCleared g.invoiceID id = false → u.allowed = true →
          Q (.ready c number) (job.withState .submitting)
  sent : ∀ {c number job}, Q (.ready c number) job → Q (.sent c number) job
  polling : ∀ {k : Core} {c s ref job r id}, P k id job r → job.state = .pending →
    Q (.polling c s ref) job
  lost : ∀ {k : Core} {i job r id}, P k id job r → job.state = .pending → Q (.lost id i) job
  rearming : ∀ {i attempts job id}, Q (.lost id i) job → Q (.rearming id i attempts) job

section
variable {g : SubmitArgs} {C : Store → Task → Act → Prop} {D : Store → Task → Act → Task → Prop}
  {R : Task → Task → Prop} {P : Core → Uuid → Job → Row → Prop} {Q : Task → Job → Prop}

theorem Stands.of_row {k : Core} (hk : k.Owned g) {id : Uuid} {job b : Job}
    (h : Stands g k id job) (hb : k.jobs.get? id = some b) (hmine : k.IsJob g id) : job = b :=
  (h.eq_row hk hb (hmine.key hb)).2

theorem RowRules.keeps (rules : RowRules g C D R P Q) {st : Store} {t t' : Task} {a : Act}
    {k' : Core} (hk : st.core.Owned g) (hP : Keeps g P st.core) (ht : st.core.Minds g t)
    (hQ : Knows g Q st.core t) (hC : C st t a) (h : Effect st t a k' t') : Keeps g P k' := by
  intro id job' r' hjob' hr'
  obtain ⟨hgrows, hk', -⟩ := effect_owned hk ht h
  obtain ⟨job, r, hjob, hr, hmoves⟩ := effect_moves hk ht h hjob' hr'
  exact rules.moves hk hk' hgrows ht hC hjob hr (hP hjob hr) (fun hid => hQ hid hjob) hmoves

theorem RowRules.learns (rules : RowRules g C D R P Q) {st : Store} {t t' : Task} {a : Act}
    {k' : Core} (hk : st.core.Owned g) (hP : Keeps g P st.core) (ht : st.core.Minds g t)
    (hQ : Knows g Q st.core t) (hC : C st t a) (h : Effect st t a k' t') : Knows g Q k' t' := by
  intro id job' hid hjob'
  obtain ⟨-, hk', ht'⟩ := effect_owned hk ht h
  obtain ⟨r, hr⟩ := hk.invoice
  cases h with
  | @submitting n attempt args u i job number hlocked hens hopen hclear hallowed =>
    obtain rfl : args = g := ht.2
    cases hid
    have hstands := Stands.of_ensures hens
    obtain ⟨-, rfl⟩ := hjob'.eq_row hk' (Table.get?_set_self _ _ _) hstands.key
    exact rules.ready hk hC hstands (hP hstands hr) rfl rfl hlocked hopen hclear hallowed
  | @polled n attempt args u job pollRef hjob hs =>
    cases hid
    have hmine : st.core.IsJob g args.submissionJobID := ht.2.2
    obtain rfl := hjob'.of_row hk hjob hmine
    exact rules.polling (hP hjob' hr) hs
  | sent => exact rules.sent (hQ hid hjob')
  | @found i th job hjob hs hpoll =>
    cases hid
    obtain rfl := hjob'.of_row hk hjob (hk.isJob hjob (by rw [hs]; rfl))
    exact rules.lost (hP hjob' hr) hs
  | counted hjob =>
    cases hid
    exact rules.rearming (hQ rfl hjob')
  | _ => cases hid

theorem RowRules.outline (rules : RowRules g C D R P Q)
    (hpair : ∀ {st t a st' t' u}, C st t a → D st t a u → R t u → next st t a = some (st', t') →
      R t' u ∧ R u t') :
    protocol.Outline C D (fun st => st.core.Owned g ∧ Keeps g P st.core)
      (fun st t => st.core.Minds g t ∧ Knows g Q st.core t) R where
  store hI ht hC h :=
    ⟨(effect_owned hI.1 ht.1 (next_effect h)).2.1,
      rules.keeps hI.1 hI.2 ht.1 ht.2 hC (next_effect h)⟩
  own hI ht hC h :=
    ⟨(effect_owned hI.1 ht.1 (next_effect h)).2.2,
      rules.learns hI.1 hI.2 ht.1 ht.2 hC (next_effect h)⟩
  other {st t a st' t' u} hI ht hC h hu hR hD _ := by
    have heffect := next_effect h
    have hgrows := (effect_owned hI.1 ht.1 heffect).1
    refine ⟨hgrows.minds hu.1, fun {id job'} hid hjob' => ?_⟩
    obtain ⟨r', hr'⟩ := (effect_owned hI.1 ht.1 heffect).2.1.invoice
    obtain ⟨job, r, hjob, hr, hmoves⟩ := effect_moves hI.1 ht.1 heffect hjob' hr'
    exact rules.others hI.1 ht.1 hu.1 hC hD hR (hI.2 hjob hr) (fun hid => ht.2 hid hjob) hid
      (hu.2 hid hjob) hmoves
  pair hI ht hC h hu hR hD _ := hpair hC hD hR h

theorem RowRules.run (rules : RowRules g C D R P Q)
    (hpair : ∀ {st t a st' t' u}, C st t a → D st t a u → R t u → next st t a = some (st', t') →
      R t' u ∧ R u t') (hidle : R .idle .idle) {st : Store} (hbegins : Begins g st)
    (hstart : Keeps g P st.core) {steps : List (ℕ × Act)} {w : World Store Task}
    (hmeets : Along protocol.step (protocol.Meets C D) (start st) steps)
    (hrun : runFrom protocol.step (start st) steps = some w) :
    protocol.Holds (fun st => st.core.Owned g ∧ Keeps g P st.core)
      (fun st t => st.core.Minds g t ∧ Knows g Q st.core t) R w :=
  (Protocol.Holds.start (p := protocol) (I := fun st => st.core.Owned g ∧ Keeps g P st.core)
    (L := fun st t => st.core.Minds g t ∧ Knows g Q st.core t) ⟨hbegins.owned, hstart⟩
      ⟨trivial, nofun⟩ hidle).run (rules.outline hpair) hmeets hrun

end

end InvoiceOs.Submission
