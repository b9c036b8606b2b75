import InvoiceOs.Reconciliation.Sweep

/-! When the sweep's ledger is true: exactly where every lost job's re-arm key is new. -/

namespace InvoiceOs.Reconciliation

open Lib Invoice Submission

theorem of_sweepTenant {st st' : Store} {th : Thresholds} {drifts : List Drift}
    {rows : List LedgerRow} (h : sweepTenant st th drifts = some (st', rows)) :
    ReArmed (lostPolls st th) st st' ∧ ∀ f, .autoFixed f ∈ rows ↔ f ∈ lostPolls st th := by
  obtain ⟨⟨st₁, rows₁⟩, hheal, heq⟩ := Option.bind_eq_some_iff.mp h
  cases heq
  obtain ⟨hrearmed, rfl⟩ := foldlM_heal hheal
  refine ⟨hrearmed, fun f => ?_⟩
  simp only [List.nil_append, List.mem_append, List.mem_map, LedgerRow.autoFixed.injEq,
    exists_eq_right, reduceCtorEq, and_false, exists_false, or_false]

theorem of_mem_lostPolls {st : Store} {th : Thresholds} {f : LostPoll} (h : f ∈ lostPolls st th) :
    (∃ job, st.jobs.get? f.submissionJobID = some job) ∧ livePoll st f.submissionJobID = false := by
  obtain ⟨e, -, he⟩ := List.mem_filterMap.mp h
  obtain ⟨latest, -, he⟩ := Option.bind_eq_some_iff.mp he
  obtain ⟨job, hlost, hf⟩ := Option.bind_eq_some_iff.mp he
  cases hf
  obtain ⟨job', hjob', hlost⟩ := Option.bind_eq_some_iff.mp hlost
  obtain ⟨r, -, hlost⟩ := Option.bind_eq_some_iff.mp hlost
  split at hlost
  · rename_i hsignature
    exact ⟨⟨job', hjob'⟩, hsignature.2.2.2.2.2⟩
  · cases hlost

theorem livePoll_of_row {st : Store} {n : ℕ} {args : PollArgs}
    (h : st.river.get? n = some { args := .poll args }) :
    livePoll st args.submissionJobID = true := by
  refine List.any_eq_true.mpr ⟨(n, _), Table.mem_rows.mpr h, ?_⟩
  simp only [beq_self_eq_true, Bool.true_and]
  rfl

theorem swept_true_iff {s : Swept} {drifts : List Drift}
    (h : sweepTenant s.before s.th drifts = some (s.after, s.rows)) : s.True ↔ s.KeysNew := by
  obtain ⟨hrearmed, hrows⟩ := of_sweepTenant h
  constructor
  · intro htrue f hf job hjob
    obtain ⟨n, args, hfrom, hto, hrow, hargs⟩ :=
      (htrue.rows f.submissionJobID).mp ⟨f, (hrows f).mpr hf, rfl⟩
    -- the row put in is a finding's of the same job, and its key was new
    obtain ⟨f', -, key, args', ⟨job', hjob', rfl⟩, hnew, hargs', hrow'⟩ := hrearmed.new n hfrom hto
    rw [hrow] at hrow'
    cases hrow'
    have hid : f'.submissionJobID = f.submissionJobID := hargs'.symm.trans hargs
    rw [hid, hjob] at hjob'
    obtain rfl := Option.some.inj hjob'
    rw [hid] at hnew
    exact hnew
  · intro hnew
    have hinserted : ∀ f ∈ lostPolls s.before s.th, s.Inserted f.submissionJobID := by
      intro f hf
      obtain ⟨⟨job, hjob⟩, -⟩ := of_mem_lostPolls hf
      exact hrearmed.each f hf _ ⟨job, hjob, rfl⟩ (hnew f hf job hjob)
    refine ⟨fun jobID => ⟨?_, ?_⟩, fun f hf => ?_⟩
    · rintro ⟨f, hf, rfl⟩
      exact hinserted f ((hrows f).mp hf)
    · rintro ⟨n, args, hfrom, hto, hrow, rfl⟩
      obtain ⟨f, hf, key, args', -, -, hargs, hrow'⟩ := hrearmed.new n hfrom hto
      rw [hrow] at hrow'
      cases hrow'
      exact ⟨f, (hrows f).mpr hf, hargs.symm⟩
    · obtain ⟨n, args, -, -, hrow, hargs⟩ := hinserted f hf
      rw [← hargs]
      exact livePoll_of_row hrow

/-- In every run of sweeps and job events from any state, a sweep's ledger is true exactly where
no job it found lost has been re-armed at its count of attempts before. -/
theorem ledger_true_iff {st : Store} {es : List Event} {d : Desk}
    (hrun : runFrom Desk.step { world := { store := st } } es = some d) :
    ∀ s ∈ d.swept, s.True ↔ s.KeysNew := by
  refine invariant_run (I := fun d => ∀ s ∈ d.swept, s.True ↔ s.KeysNew) (fun d e d' hd hstep => ?_)
    nofun hrun
  cases e with
  | job n a =>
    have hworld : ∃ w, d' = { d with world := w } := by
      change (if ofReconciler a then none
        else (protocol.step d.world (n, a)).map fun w => { d with world := w }) = some d' at hstep
      split at hstep
      · cases hstep
      · obtain ⟨w, -, rfl⟩ := Option.map_eq_some_iff.mp hstep
        exact ⟨w, rfl⟩
    obtain ⟨w, rfl⟩ := hworld
    exact hd
  | sweep th drifts =>
    obtain ⟨⟨st', rows⟩, hsweep, rfl⟩ := Option.map_eq_some_iff.mp hstep
    intro s hs
    obtain hs | hs := List.mem_append.mp hs
    · exact hd s hs
    · obtain rfl := List.mem_singleton.mp hs
      exact swept_true_iff hsweep

def acknowledgedRow : Row where
  entityID := 9
  status := .submitted
  header := { invoiceNumber := "INV-1" }
  history := []

def pendingJob : Job where
  invoiceID := 1
  idempotencyKey := "k"
  state := .pending
  attempts := 1
  pollRef := some "T-1"
  nextPollAt := some 5
  createdAt := 1

def pollGone : Store where
  db := {
    directory := { isFirm := false, members := [], roles := [] }
    invoices := (∅ : Table Uuid Row).set 1 acknowledgedRow }
  jobs := (∅ : Table Uuid Job).set 2 pendingJob

def cutoffs : Thresholds := { graceCutoff := 10, hopCeiling := 20 }

def lostAgain : List Event :=
  [.sweep cutoffs [], .job 1 (.fetch 1 8), .job 1 .crash, .job 0 (.river 1 .discarded),
    .sweep cutoffs []]

theorem second_fix_fixes_nothing : ∃ d, runFrom Desk.step { world := { store := pollGone } } lostAgain =
    some d ∧ ∃ s ∈ d.swept, .autoFixed ⟨1, "INV-1", 2⟩ ∈ s.rows ∧ ¬ s.True := by
  have htest : (runFrom Desk.step { world := { store := pollGone } } lostAgain).any (fun d =>
      d.swept.any fun s => decide (.autoFixed ⟨1, "INV-1", 2⟩ ∈ s.rows) &&
        (lostPolls s.before s.th).any fun f => !livePoll s.after f.submissionJobID) = true := by
    decide +kernel
  obtain ⟨d, hrun, hd⟩ := (Option.any_eq_true _ _).mp htest
  obtain ⟨s, hs, htest⟩ := List.any_eq_true.mp hd
  obtain ⟨hfixed, hlost⟩ := (Bool.and_eq_true _ _).mp htest
  obtain ⟨f, hf, hdead⟩ := List.any_eq_true.mp hlost
  refine ⟨d, hrun, s, hs, of_decide_eq_true hfixed, fun htrue => ?_⟩
  rw [htrue.live f hf] at hdead
  cases hdead

theorem ledger_true_iff_sample : ∃ d,
    runFrom Desk.step { world := { store := pollGone } } [.sweep cutoffs []] = some d ∧
      ∃ s ∈ d.swept, .autoFixed ⟨1, "INV-1", 2⟩ ∈ s.rows ∧ s.True := by
  have htest : (runFrom Desk.step { world := { store := pollGone } } [.sweep cutoffs []]).any (fun d =>
      d.swept.any fun s => decide (.autoFixed ⟨1, "INV-1", 2⟩ ∈ s.rows) &&
        s.before.db.outboxKeys.isEmpty) = true := by
    decide +kernel
  obtain ⟨d, hrun, hd⟩ := (Option.any_eq_true _ _).mp htest
  obtain ⟨s, hs, htest⟩ := List.any_eq_true.mp hd
  obtain ⟨hfixed, hempty⟩ := (Bool.and_eq_true _ _).mp htest
  refine ⟨d, hrun, s, hs, of_decide_eq_true hfixed, (ledger_true_iff hrun s hs).mpr ?_⟩
  intro f _ job _
  rw [Store.used, List.isEmpty_iff.mp hempty]
  rfl

end InvoiceOs.Reconciliation
