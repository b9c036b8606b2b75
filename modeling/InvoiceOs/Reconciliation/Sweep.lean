import InvoiceOs.Submission.Delivery

/-! The reconciler's sweep over one workspace: `Scan`'s lost polls are re-armed and audited as
fixed, everything else it finds is audited as drift, in one transaction. -/

namespace InvoiceOs.Reconciliation

open Lib Invoice Submission

inductive DriftKind where
  | pendingTooManyHops
  | pendingTooLong
  | submittingOrphan
  | queuedNeverSent
  | irnWithoutAccepted
  | acceptedWithoutIRN
  | verdictNotRouted
  | approvalRunOrphaned
  | approvalBlockedUnstaffed
  deriving DecidableEq, Repr

structure Drift where
  invoiceID : Uuid
  invoiceNumber : String
  submissionJobID : Option Uuid
  kind : DriftKind
  deriving DecidableEq

structure LostPoll where
  invoiceID : Uuid
  invoiceNumber : String
  submissionJobID : Uuid
  deriving DecidableEq

inductive LedgerRow where
  | autoFixed (f : LostPoll)
  | driftDetected (f : Drift)
  deriving DecidableEq

/-- The invoice's row of the `latest` CTE. -/
def latestJob (st : Store) (invoiceID : Uuid) : Option (Uuid × Job) :=
  (st.jobs.rows.filter (·.2.invoiceID = invoiceID)).foldl (fun latest e =>
    match latest with
    | none => some e
    | some l => if l.2.createdAt < e.2.createdAt then some e else some l) none

def lostPolls (st : Store) (th : Thresholds) : List LostPoll :=
  st.db.invoices.rows.filterMap fun e => do
    let latest ← latestJob st e.1
    let _ ← lostPoll st latest.1 th
    some ⟨e.1, e.2.header.invoiceNumber, latest.1⟩

/-- Reads the job's attempts again, re-arms its poll and audits the fix; none is an error. -/
def heal (acc : Store × List LedgerRow) (f : LostPoll) : Option (Store × List LedgerRow) := do
  let job ← acc.1.jobs.get? f.submissionJobID
  some (reArmPoll acc.1 f.submissionJobID f.invoiceID job.attempts, acc.2 ++ [.autoFixed f])

/-- `sweepTenant`, with what the other arms of `Scan` found; none is a rollback. -/
def sweepTenant (st : Store) (th : Thresholds) (drifts : List Drift) :
    Option (Store × List LedgerRow) := do
  let (st', rows) ← (lostPolls st th).foldlM heal (st, [])
  some (st', rows ++ drifts.map .driftDetected)

structure Swept where
  th : Thresholds
  before : Store
  rows : List LedgerRow
  after : Store

/-- The sweep put a poll of the job into River's queue. -/
def Swept.Inserted (s : Swept) (jobID : Uuid) : Prop :=
  ∃ n args, s.before.nextRiverID ≤ n ∧ n < s.after.nextRiverID ∧
    s.after.river.get? n = some { args := .poll args } ∧ args.submissionJobID = jobID

/-- An audit row for each poll put back and for no other, and no lost poll left lost. -/
structure Swept.True (s : Swept) : Prop where
  rows : ∀ jobID, (∃ f, .autoFixed f ∈ s.rows ∧ f.submissionJobID = jobID) ↔ s.Inserted jobID
  live : ∀ f ∈ lostPolls s.before s.th, livePoll s.after f.submissionJobID = true

def Swept.KeysNew (s : Swept) : Prop :=
  ∀ f ∈ lostPolls s.before s.th, ∀ job, s.before.jobs.get? f.submissionJobID = some job →
    s.before.used (reconcilePollKey f.submissionJobID job.attempts) = false

structure Desk where
  world : World Store Task
  swept : List Swept := []

inductive Event where
  | job (n : ℕ) (a : Act)
  | sweep (th : Thresholds) (drifts : List Drift)

def ofReconciler : Act → Bool
  | .scan _ _ => true
  | .readAttempts => true
  | .rearm => true
  | _ => false

def Desk.step (d : Desk) : Event → Option Desk
  | .job n a =>
    if ofReconciler a then none
    else (protocol.step d.world (n, a)).map fun w => { d with world := w }
  | .sweep th drifts => (sweepTenant d.world.store th drifts).map fun (st, rows) =>
    { world := { d.world with store := st }
      swept := d.swept ++ [⟨th, d.world.store, rows, st⟩] }

/-! ### What a sweep writes -/

theorem enqueueTx_cases (st : Store) (key : String) (args : RiverArgs) :
    (st.used key = true ∧ st.enqueueTx key args = st) ∨
      (st.used key = false ∧ (st.enqueueTx key args).nextRiverID = st.nextRiverID + 1 ∧
        (st.enqueueTx key args).jobs = st.jobs ∧
        (∀ k, (st.enqueueTx key args).used k = true ↔ st.used k = true ∨ k = key) ∧
        ∀ n, (st.enqueueTx key args).river.get? n =
          if n = st.nextRiverID then some { args := args } else st.river.get? n) := by
  unfold Store.enqueueTx
  cases hused : st.used key with
  | true => exact .inl ⟨rfl, rfl⟩
  | false =>
    refine .inr ⟨rfl, rfl, rfl, fun k => ?_, fun n => Table.get?_set _ _ _ _⟩
    simp only [Store.used_iff, Store.insertRiver, Store.useKey, Bool.false_eq_true, if_false,
      List.mem_append, List.mem_singleton]

def IsKey (st : Store) (f : LostPoll) (key : String) : Prop :=
  ∃ job, st.jobs.get? f.submissionJobID = some job ∧
    key = reconcilePollKey f.submissionJobID job.attempts

/-- What re-arming a list of findings leaves: River's new rows are polls of findings whose key
was new, one for each at least, and nothing else changed. -/
structure ReArmed (fs : List LostPoll) (st st' : Store) : Prop where
  jobs : st'.jobs = st.jobs
  used : ∀ key, st'.used key = true ↔ st.used key = true ∨ ∃ f ∈ fs, IsKey st f key
  next : st.nextRiverID ≤ st'.nextRiverID
  old : ∀ n, n < st.nextRiverID ∨ st'.nextRiverID ≤ n → st'.river.get? n = st.river.get? n
  new : ∀ n, st.nextRiverID ≤ n → n < st'.nextRiverID → ∃ f ∈ fs, ∃ key args,
    IsKey st f key ∧ st.used key = false ∧ args.submissionJobID = f.submissionJobID ∧
      st'.river.get? n = some { args := .poll args }
  each : ∀ f ∈ fs, ∀ key, IsKey st f key → st.used key = false →
    ∃ n args, st.nextRiverID ≤ n ∧ n < st'.nextRiverID ∧
      st'.river.get? n = some { args := .poll args } ∧ args.submissionJobID = f.submissionJobID

theorem ReArmed.nil (st : Store) : ReArmed [] st st where
  jobs := rfl
  used _ := ⟨.inl, fun h => h.elim id fun ⟨_, hf, _⟩ => nomatch hf⟩
  next := le_rfl
  old _ _ := rfl
  new _ hle hlt := absurd hle (Nat.not_le.mpr hlt)
  each := nofun

theorem isKey_jobs {st st' : Store} (h : st'.jobs = st.jobs) {f : LostPoll} {key : String} :
    IsKey st' f key ↔ IsKey st f key := by
  unfold IsKey
  rw [h]

theorem ReArmed.cons {st st' : Store} {f : LostPoll} {fs : List LostPoll} {job : Job}
    (hjob : st.jobs.get? f.submissionJobID = some job)
    (h : ReArmed fs (reArmPoll st f.submissionJobID f.invoiceID job.attempts) st') :
    ReArmed (f :: fs) st st' := by
  let key₀ := reconcilePollKey f.submissionJobID job.attempts
  have hkey₀ : ∀ {key}, IsKey st f key ↔ key = key₀ := by
    intro key
    constructor
    · rintro ⟨job', hjob', rfl⟩
      rw [hjob] at hjob'
      obtain rfl := Option.some.inj hjob'
      rfl
    · rintro rfl
      exact ⟨job, hjob, rfl⟩
  obtain ⟨hused, hsame⟩ | ⟨hfresh, hnext, hjobs, hkeys, hriver⟩ :=
    enqueueTx_cases st key₀ (.poll ⟨f.invoiceID, f.submissionJobID, job.attempts⟩)
  · -- the key was used: the store is as it was
    have hsame : reArmPoll st f.submissionJobID f.invoiceID job.attempts = st := hsame
    rw [hsame] at h
    refine ⟨h.jobs, fun key => ?_, h.next, h.old, fun n hle hlt => ?_, fun f' hf' key hkey hnew => ?_⟩
    · rw [h.used]
      constructor
      · rintro (hold | ⟨f', hf', hkey⟩)
        · exact .inl hold
        · exact .inr ⟨f', List.mem_cons_of_mem _ hf', hkey⟩
      · rintro (hold | ⟨f', hf', hkey⟩)
        · exact .inl hold
        · obtain rfl | hf' := List.mem_cons.mp hf'
          · exact .inl (hkey₀.mp hkey ▸ hused)
          · exact .inr ⟨f', hf', hkey⟩
    · obtain ⟨f', hf', hrest⟩ := h.new n hle hlt
      exact ⟨f', List.mem_cons_of_mem _ hf', hrest⟩
    · obtain rfl | hf' := List.mem_cons.mp hf'
      · rw [hkey₀.mp hkey, hused] at hnew
        cases hnew
      · exact h.each f' hf' key hkey hnew
  · obtain ⟨st₁, hst₁⟩ : ∃ st₁, reArmPoll st f.submissionJobID f.invoiceID job.attempts = st₁ :=
      ⟨_, rfl⟩
    rw [hst₁] at h
    have hst₁ : st.enqueueTx key₀ (.poll ⟨f.invoiceID, f.submissionJobID, job.attempts⟩) = st₁ :=
      hst₁
    rw [hst₁] at hnext hjobs hkeys hriver
    have hle : st.nextRiverID ≤ st₁.nextRiverID := hnext ▸ Nat.le_succ _
    have hfirst : st'.river.get? st.nextRiverID =
        some { args := .poll ⟨f.invoiceID, f.submissionJobID, job.attempts⟩ } := by
      rw [h.old _ (.inl (by omega)), hriver, if_pos rfl]
    have hlast : st.nextRiverID < st'.nextRiverID := by
      have := h.next
      omega
    refine ⟨h.jobs.trans hjobs, fun key => ?_, hle.trans h.next, fun n hn => ?_,
      fun n hfrom hto => ?_, fun f' hf' key hkey hnew => ?_⟩
    · rw [h.used, hkeys, or_assoc]
      refine or_congr_right ⟨?_, ?_⟩
      · rintro (heq | ⟨f', hf', hkey⟩)
        · exact ⟨f, List.mem_cons_self, hkey₀.mpr heq⟩
        · exact ⟨f', List.mem_cons_of_mem _ hf', (isKey_jobs hjobs).mp hkey⟩
      · rintro ⟨f', hf', hkey⟩
        obtain rfl | hf' := List.mem_cons.mp hf'
        · exact .inl (hkey₀.mp hkey)
        · exact .inr ⟨f', hf', (isKey_jobs hjobs).mpr hkey⟩
    · rw [h.old n (hn.imp_left fun h => by omega), hriver, if_neg (by omega)]
    · by_cases hn : n = st.nextRiverID
      · subst hn
        exact ⟨f, List.mem_cons_self, key₀, _, hkey₀.mpr rfl, hfresh, rfl, hfirst⟩
      · obtain ⟨f', hf', key, args, hkey, hnew, hargs, hrow⟩ := h.new n (by omega) hto
        refine ⟨f', List.mem_cons_of_mem _ hf', key, args, (isKey_jobs hjobs).mp hkey, ?_, hargs, hrow⟩
        cases hold : st.used key with
        | false => rfl
        | true =>
          rw [(hkeys key).mpr (.inl hold)] at hnew
          cases hnew
    · by_cases heq : key = key₀
      · -- the same key is a finding of the same job
        obtain ⟨job', -, hkey'⟩ := hkey
        obtain ⟨hid, -⟩ := reconcilePollKey_inj (hkey'.symm.trans heq)
        exact ⟨_, _, le_rfl, hlast, hfirst, hid.symm⟩
      · have hf' : f' ∈ fs := by
          obtain rfl | hf' := List.mem_cons.mp hf'
          · exact absurd (hkey₀.mp hkey) heq
          · exact hf'
        have hnew₁ : st₁.used key = false := by
          cases hused : st₁.used key with
          | false => rfl
          | true =>
            obtain hold | hkey' := (hkeys key).mp hused
            · rw [hold] at hnew
              cases hnew
            · exact absurd hkey' heq
        obtain ⟨n, args, hfrom, hto, hrow, hargs⟩ :=
          h.each f' hf' key ((isKey_jobs hjobs).mpr hkey) hnew₁
        exact ⟨n, args, hle.trans hfrom, hto, hrow, hargs⟩

theorem foldlM_heal {fs : List LostPoll} {st st' : Store} {rows rows' : List LedgerRow}
    (h : fs.foldlM heal (st, rows) = some (st', rows')) :
    ReArmed fs st st' ∧ rows' = rows ++ fs.map .autoFixed := by
  induction fs generalizing st rows with
  | nil =>
    rw [List.foldlM_nil] at h
    cases h
    exact ⟨.nil _, (List.append_nil _).symm⟩
  | cons f fs ih =>
    rw [List.foldlM_cons] at h
    obtain ⟨⟨st₁, rows₁⟩, hheal, hrest⟩ := Option.bind_eq_some_iff.mp h
    obtain ⟨job, hjob, heq⟩ := Option.bind_eq_some_iff.mp hheal
    cases heq
    obtain ⟨hrearmed, hrows⟩ := ih hrest
    exact ⟨hrearmed.cons hjob, by rw [hrows, List.append_assoc]; rfl⟩

end InvoiceOs.Reconciliation
