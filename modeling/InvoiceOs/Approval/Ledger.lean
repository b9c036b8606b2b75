import InvoiceOs.Approval.Decision
import InvoiceOs.Lib.Run

/-! The run, its steps and the decision ledger move together. `Progress` is the shape the
steps have in each run state; every arm starts in it and every decision keeps it. -/

namespace InvoiceOs.Approval

open Lib

namespace StoredStep

def Settled (s : StoredStep) : Prop :=
  s.kind ≠ .approval ∧ (s.state = .skipped ∨ s.state = .satisfied ∧ s.satisfiedBy = some .system)

def Done (s : StoredStep) : Prop :=
  s.Settled ∨ s.kind = .approval ∧ s.state = .satisfied ∧ ∃ u, s.satisfiedBy = some (.user u)

def Waiting (s : StoredStep) : Prop :=
  s.Settled ∨ s.kind = .approval ∧ s.state = .pending

def Bypassed (s : StoredStep) : Prop :=
  s.Settled ∨ s.kind = .approval ∧ s.state = .skipped

def verdict (s : StoredStep) : Option (ℕ × Decision) :=
  match s.kind, s.state with
  | .approval, .satisfied => some (s.ord, .approved)
  | .approval, .rejected => some (s.ord, .rejected)
  | _, _ => none

theorem pendingApproval_iff {s : StoredStep} :
    s.pendingApproval = true ↔ s.kind = .approval ∧ s.state = .pending := by
  simp only [pendingApproval, Bool.and_eq_true, beq_iff_eq]

theorem Settled.state_ne {s : StoredStep} (h : s.Settled) :
    s.state ≠ .pending ∧ s.state ≠ .rejected := by
  rcases h.2 with hs | ⟨hs, -⟩ <;> rw [hs] <;> decide

theorem Settled.verdict {s : StoredStep} (h : s.Settled) : s.verdict = none := by
  unfold StoredStep.verdict
  split
  · rename_i hk _
    exact absurd hk h.1
  · rename_i hk _
    exact absurd hk h.1
  · rfl

theorem Waiting.verdict {s : StoredStep} (h : s.Waiting) : s.verdict = none := by
  rcases h with h | ⟨hk, hs⟩
  · exact h.verdict
  · simp only [StoredStep.verdict, hk, hs]

theorem Bypassed.verdict {s : StoredStep} (h : s.Bypassed) : s.verdict = none := by
  rcases h with h | ⟨hk, hs⟩
  · exact h.verdict
  · simp only [StoredStep.verdict, hk, hs]

theorem Done.state_ne {s : StoredStep} (h : s.Done) :
    s.state ≠ .pending ∧ s.state ≠ .rejected := by
  rcases h with h | ⟨-, hs, -⟩
  · exact h.state_ne
  · rw [hs]
    decide

theorem Waiting.state_ne {s : StoredStep} (h : s.Waiting) : s.state ≠ .rejected := by
  rcases h with h | ⟨-, hs⟩
  · exact h.state_ne.2
  · rw [hs]
    decide

theorem Bypassed.state_ne {s : StoredStep} (h : s.Bypassed) :
    s.state ≠ .pending ∧ s.state ≠ .rejected := by
  rcases h with h | ⟨-, hs⟩
  · exact h.state_ne
  · rw [hs]
    decide

end StoredStep

inductive Progress : RunState → List StoredStep → Prop
  | bypassed {steps : List StoredStep} (h : ∀ t ∈ steps, t.Bypassed) : Progress .approved steps
  | open {pre post : List StoredStep} {s : StoredStep} (hpre : ∀ t ∈ pre, t.Done)
      (hs : s.pendingApproval = true) (hpost : ∀ t ∈ post, t.Waiting) :
      Progress .open (pre ++ s :: post)
  | approved {steps : List StoredStep} (h : ∀ t ∈ steps, t.Done) : Progress .approved steps
  | rejected {pre post : List StoredStep} {s : StoredStep} (hpre : ∀ t ∈ pre, t.Done)
      (hk : s.kind = .approval) (hs : s.state = .rejected) (hpost : ∀ t ∈ post, t.Waiting) :
      Progress .rejected (pre ++ s :: post)

def Dense (steps : List StoredStep) : Prop :=
  ∀ (i : ℕ) (s : StoredStep), steps[i]? = some s → s.ord = i

structure Ledger (r : Run) : Prop where
  dense : Dense r.steps
  progress : Progress r.state r.steps
  rows : r.decisions.map (fun d => (d.stepOrd, d.decision)) = r.steps.filterMap StoredStep.verdict

theorem split_waiting {steps : List StoredStep} (h : ∀ t ∈ steps, t.Waiting) :
    (∀ t ∈ steps, t.Settled) ∨ ∃ pre s post, steps = pre ++ s :: post ∧
      (∀ t ∈ pre, t.Settled) ∧ s.pendingApproval = true ∧ ∀ t ∈ post, t.Waiting := by
  induction steps with
  | nil => exact .inl fun t ht => absurd ht List.not_mem_nil
  | cons a steps ih =>
    have hrest := fun t ht => h t (List.mem_cons_of_mem a ht)
    rcases h a List.mem_cons_self with ha | ha
    · rcases ih hrest with hall | ⟨pre, s, post, rfl, hpre, hs, hpost⟩
      · exact .inl (List.forall_mem_cons.mpr ⟨ha, hall⟩)
      · exact .inr ⟨a :: pre, s, post, rfl, List.forall_mem_cons.mpr ⟨ha, hpre⟩, hs, hpost⟩
    · exact .inr ⟨[], a, steps, rfl, fun t ht => absurd ht List.not_mem_nil,
        StoredStep.pendingApproval_iff.mpr ha, hrest⟩

theorem progress_of_waiting {pre post : List StoredStep} (hpre : ∀ t ∈ pre, t.Done)
    (hpost : ∀ t ∈ post, t.Waiting) :
    Progress (if (pre ++ post).any StoredStep.pendingApproval then .open else .approved)
      (pre ++ post) := by
  rcases split_waiting hpost with hall | ⟨mid, s, rest, rfl, hmid, hs, hrest⟩
  · have hdone : ∀ t ∈ pre ++ post, t.Done := by
      intro t ht
      rcases List.mem_append.mp ht with ht | ht
      · exact hpre t ht
      · exact .inl (hall t ht)
    have hno : (pre ++ post).any StoredStep.pendingApproval = false := by
      rw [List.any_eq_false]
      intro t ht hp
      exact (hdone t ht).state_ne.1 (StoredStep.pendingApproval_iff.mp hp).2
    rw [if_neg (by rw [hno]; exact Bool.false_ne_true)]
    exact .approved hdone
  · have hyes : (pre ++ (mid ++ s :: rest)).any StoredStep.pendingApproval = true :=
      List.any_eq_true.mpr ⟨s, by simp, hs⟩
    rw [if_pos hyes, ← List.append_assoc]
    refine .open (fun t ht => ?_) hs hrest
    rcases List.mem_append.mp ht with ht | ht
    · exact hpre t ht
    · exact .inl (hmid t ht)

/-! ### Arming -/

theorem armStep_bypassed (s : RunStep) : (armStep true s).Bypassed := by
  cases h : s.kind <;>
    simp [armStep, armState, StoredStep.Bypassed, StoredStep.Settled, h]

theorem armStep_waiting (s : RunStep) : (armStep false s).Waiting := by
  cases h : s.kind <;>
    simp [armStep, armState, StoredStep.Waiting, StoredStep.Settled, h]

theorem Ledger.armed {versions : List InForceVersion} {trees : Uuid → List Step} {f : ArmFacts}
    {i : Uuid} {fp : String} {now : ℕ} {r : Run}
    (h : armRun versions trees f i fp now = some r) : Ledger r := by
  obtain ⟨-, -, -, hd, v, -, -, hsteps, hstate⟩ := armRun_eq_some h
  have hdense : Dense r.steps := fun n s hs => armedSteps_ord (hsteps ▸ hs)
  cases hauto : (materialise (trees v.versionID) (parseTotal f.total)).auto with
  | true =>
    have hall : ∀ t ∈ r.steps, t.Bypassed := by
      intro t ht
      simp only [hsteps, armedSteps, List.mem_map, hauto] at ht
      obtain ⟨q, -, rfl⟩ := ht
      exact armStep_bypassed q
    have hno : r.steps.any StoredStep.pendingApproval = false := by
      rw [List.any_eq_false]
      intro t ht hp
      exact (hall t ht).state_ne.1 (StoredStep.pendingApproval_iff.mp hp).2
    refine ⟨hdense, ?_, ?_⟩
    · rw [hstate, if_neg (by rw [hno]; exact Bool.false_ne_true)]
      exact .bypassed hall
    · rw [hd, List.filterMap_eq_nil_iff.mpr fun t ht => (hall t ht).verdict]
      rfl
  | false =>
    have hall : ∀ t ∈ r.steps, t.Waiting := by
      intro t ht
      simp only [hsteps, armedSteps, List.mem_map, hauto] at ht
      obtain ⟨q, -, rfl⟩ := ht
      exact armStep_waiting q
    refine ⟨hdense, ?_, ?_⟩
    · rw [hstate]
      exact progress_of_waiting (List.forall_mem_nil StoredStep.Done) hall
    · rw [hd, List.filterMap_eq_nil_iff.mpr fun t ht => (hall t ht).verdict]
      rfl

/-! ### Deciding -/

theorem Dense.split {pre post : List StoredStep} {s : StoredStep} (h : Dense (pre ++ s :: post)) :
    s.ord = pre.length ∧ (∀ t ∈ pre, t.ord < s.ord) ∧ ∀ t ∈ post, s.ord < t.ord := by
  have hs : s.ord = pre.length := h pre.length s (by simp)
  refine ⟨hs, fun t ht => ?_, fun t ht => ?_⟩
  · obtain ⟨n, hn, rfl⟩ := List.getElem_of_mem ht
    rw [h n pre[n] (by rw [List.getElem?_append_left hn, List.getElem?_eq_getElem hn]), hs]
    exact hn
  · obtain ⟨n, hn, rfl⟩ := List.getElem_of_mem ht
    have hat : (pre ++ s :: post)[pre.length + (n + 1)]? = some post[n] := by
      rw [List.getElem?_append_right (Nat.le_add_right _ _), Nat.add_sub_cancel_left,
        List.getElem?_cons_succ, List.getElem?_eq_getElem hn]
    rw [h _ _ hat, hs]
    exact Nat.lt_add_of_pos_right n.succ_pos

theorem decideStep_of_ne {d : Decision} {u : Uuid} {o : ℕ} {s : StoredStep} (h : s.ord ≠ o) :
    decideStep d u o s = s :=
  if_neg fun hs => h hs.1

@[simp] theorem decideStep_ord (d : Decision) (u : Uuid) (o : ℕ) (s : StoredStep) :
    (decideStep d u o s).ord = s.ord := by
  unfold decideStep
  split
  · cases d <;> rfl
  · rfl

theorem Dense.map_decideStep {steps : List StoredStep} (h : Dense steps) (d : Decision) (u : Uuid)
    (o : ℕ) : Dense (steps.map (decideStep d u o)) := by
  intro i s hs
  rw [List.getElem?_map] at hs
  obtain ⟨q, hq, rfl⟩ := Option.map_eq_some_iff.mp hs
  rw [decideStep_ord]
  exact h i q hq

theorem map_decideStep {pre post : List StoredStep} {s : StoredStep} (h : Dense (pre ++ s :: post))
    (d : Decision) (u : Uuid) :
    (pre ++ s :: post).map (decideStep d u s.ord) = pre ++ decideStep d u s.ord s :: post := by
  obtain ⟨-, hpre, hpost⟩ := h.split
  rw [List.map_append, List.map_cons,
    List.map_congr_left fun t ht => decideStep_of_ne (hpre t ht).ne,
    List.map_congr_left fun t ht => decideStep_of_ne (hpost t ht).ne', List.map_id', List.map_id']

theorem Ledger.turn {r : Run} (h : Ledger r) (hopen : r.state = .open) {s : StoredStep}
    (hs : s ∈ r.steps) (hp : s.pendingApproval = true)
    (hmin : ∀ t ∈ r.steps, t.pendingApproval = true → s.ord ≤ t.ord) :
    ∃ pre post, r.steps = pre ++ s :: post ∧ (∀ t ∈ pre, t.Done) ∧ ∀ t ∈ post, t.Waiting := by
  obtain ⟨hdense, hprog, -⟩ := h
  rw [hopen] at hprog
  generalize hst : r.steps = steps at hprog hdense hs hmin
  cases hprog with
  | @«open» pre post c hpre hc hpost =>
    obtain ⟨-, -, hgt⟩ := hdense.split
    have hle := hmin c (by simp) hc
    rcases List.mem_append.mp hs with hin | hin
    · exact absurd (StoredStep.pendingApproval_iff.mp hp).2 (hpre s hin).state_ne.1
    · rcases List.mem_cons.mp hin with rfl | hin
      · exact ⟨pre, post, rfl, hpre, hpost⟩
      · exact absurd (hgt s hin) (Nat.not_lt_of_le hle)

theorem filterMap_verdict_split {pre post : List StoredStep} {s : StoredStep}
    (hpost : ∀ t ∈ post, t.Waiting) :
    (pre ++ s :: post).filterMap StoredStep.verdict =
      pre.filterMap StoredStep.verdict ++ s.verdict.toList := by
  rw [List.filterMap_append, List.filterMap_cons,
    List.filterMap_eq_nil_iff.mpr fun t ht => (hpost t ht).verdict]
  cases s.verdict <;> rfl

theorem Ledger.decide {r : Run} (h : Ledger r) (hopen : r.state = .open) {s : StoredStep}
    (hs : s ∈ r.steps) (hp : s.pendingApproval = true)
    (hmin : ∀ t ∈ r.steps, t.pendingApproval = true → s.ord ≤ t.ord) (d : Decision) (u : Uuid)
    (reason : Option String) (asDelegate : Bool) :
    Ledger (r.decide d u s.ord reason asDelegate) := by
  obtain ⟨pre, post, hsteps, hpre, hpost⟩ := h.turn hopen hs hp hmin
  have hdense := hsteps ▸ h.dense
  have hmap : r.steps.map (decideStep d u s.ord) = pre ++ decideStep d u s.ord s :: post := by
    rw [hsteps, map_decideStep hdense]
  obtain ⟨hk, hst⟩ := StoredStep.pendingApproval_iff.mp hp
  have hrows : r.decisions.map (fun d => (d.stepOrd, d.decision)) =
      pre.filterMap StoredStep.verdict := by
    have hv : s.verdict = none := by simp only [StoredStep.verdict, hk, hst]
    rw [h.rows, hsteps, filterMap_verdict_split hpost, hv, Option.toList_none, List.append_nil]
  have hstep : (decideStep d u s.ord s).verdict = some (s.ord, d) := by
    cases d <;> simp [decideStep, hst, StoredStep.verdict, hk]
  have hmapped : (r.decide d u s.ord reason asDelegate).steps =
      pre ++ decideStep d u s.ord s :: post := by
    rw [Run.decide_steps, hmap]
  refine ⟨?_, ?_, ?_⟩
  · rw [Run.decide_steps]
    exact h.dense.map_decideStep d u s.ord
  · cases d with
    | approved =>
      have hdone : (decideStep .approved u s.ord s).Done := by
        refine .inr ?_
        simp [decideStep, hst, hk]
      have hpre' : ∀ t ∈ pre ++ [decideStep .approved u s.ord s], t.Done := by
        intro t ht
        rcases List.mem_append.mp ht with ht | ht
        · exact hpre t ht
        · exact List.mem_singleton.mp ht ▸ hdone
      have hprog := progress_of_waiting hpre' hpost
      rw [List.append_assoc, List.singleton_append] at hprog
      rw [hmapped, Run.decide_approved_state, hmap, hopen]
      exact hprog
    | rejected =>
      have hrej : (decideStep .rejected u s.ord s).kind = .approval ∧
          (decideStep .rejected u s.ord s).state = .rejected := by
        simp [decideStep, hst, hk]
      rw [hmapped]
      exact .rejected hpre hrej.1 hrej.2 hpost
  · rw [hmapped, filterMap_verdict_split hpost, hstep, Run.decide_decisions, List.map_append, hrows]
    rfl

/-! ### What the ledger says, in the run's own words -/

def StoredStep.DecidedByPerson (s : StoredStep) : Prop :=
  s.state = .rejected ∨ s.state = .satisfied ∧ s.satisfiedBy ≠ some .system

instance (s : StoredStep) : Decidable s.DecidedByPerson := by
  unfold StoredStep.DecidedByPerson
  infer_instance

namespace Run

def OpenShape (r : Run) : Prop :=
  (∃ s ∈ r.steps, s.kind = .approval ∧ s.state = .pending) ∧ ∀ s ∈ r.steps, s.state ≠ .rejected

def ApprovedShape (r : Run) : Prop :=
  (∀ s ∈ r.steps, s.kind = .approval → s.state ≠ .pending) ∧ ∀ s ∈ r.steps, s.state ≠ .rejected

def RejectedShape (r : Run) : Prop :=
  ∃ s, r.steps.filter (fun t => t.state == .rejected) = [s] ∧
    ∀ t ∈ r.steps, t.kind = .approval →
      (t.ord < s.ord → t.state = .satisfied) ∧ (s.ord < t.ord → t.state = .pending)

structure LedgerTruth (r : Run) : Prop where
  open_iff : r.state = .open ↔ r.OpenShape
  approved_iff : r.state = .approved ↔ r.ApprovedShape
  rejected_iff : r.state = .rejected ↔ r.RejectedShape
  inOrder : (r.decisions.map DecisionRow.stepOrd).Pairwise (· < ·)
  oneRow : ∀ s ∈ r.steps, (r.decisions.filter fun d => d.stepOrd == s.ord).length =
    if s.DecidedByPerson then 1 else 0
  noStray : ∀ d ∈ r.decisions, ∃ s ∈ r.steps, s.ord = d.stepOrd ∧ s.DecidedByPerson

end Run

theorem StoredStep.Settled.not_decided {s : StoredStep} (h : s.Settled) : ¬ s.DecidedByPerson := by
  rintro (hr | ⟨hs, hne⟩)
  · exact h.state_ne.2 hr
  · rcases h.2 with hk | ⟨-, hsys⟩
    · rw [hk] at hs
      cases hs
    · exact hne hsys

theorem Progress.verdict_isSome {st : RunState} {steps : List StoredStep} (h : Progress st steps)
    {s : StoredStep} (hs : s ∈ steps) : s.verdict.isSome = true ↔ s.DecidedByPerson := by
  have settled : s.Settled → (s.verdict.isSome = true ↔ s.DecidedByPerson) := fun hset => by
    rw [hset.verdict]
    exact ⟨fun hx => absurd hx Bool.false_ne_true, fun hx => absurd hx hset.not_decided⟩
  have done : s.Done → (s.verdict.isSome = true ↔ s.DecidedByPerson) := by
    rintro (hset | ⟨hk, hst, u, hu⟩)
    · exact settled hset
    · simp [StoredStep.verdict, hk, hst, StoredStep.DecidedByPerson, hu]
  have waiting : s.Waiting → (s.verdict.isSome = true ↔ s.DecidedByPerson) := by
    rintro (hset | ⟨hk, hst⟩)
    · exact settled hset
    · simp [StoredStep.verdict, hk, hst, StoredStep.DecidedByPerson]
  cases h with
  | bypassed hall =>
    rcases hall s hs with hset | ⟨hk, hst⟩
    · exact settled hset
    · simp [StoredStep.verdict, hk, hst, StoredStep.DecidedByPerson]
  | approved hall => exact done (hall s hs)
  | «open» hpre hc hpost =>
    rcases List.mem_append.mp hs with hin | hin
    · exact done (hpre s hin)
    · rcases List.mem_cons.mp hin with rfl | hin
      · exact waiting (.inr (StoredStep.pendingApproval_iff.mp hc))
      · exact waiting (hpost s hin)
  | rejected hpre hk hst hpost =>
    rcases List.mem_append.mp hs with hin | hin
    · exact done (hpre s hin)
    · rcases List.mem_cons.mp hin with rfl | hin
      · simp [StoredStep.verdict, hk, hst, StoredStep.DecidedByPerson]
      · exact waiting (hpost s hin)

theorem verdict_ord {s : StoredStep} {o : ℕ} {d : Decision} (h : s.verdict = some (o, d)) :
    o = s.ord := by
  unfold StoredStep.verdict at h
  split at h
  · cases h
    rfl
  · cases h
    rfl
  · cases h

theorem Dense.ord_inj {steps : List StoredStep} (h : Dense steps) {s t : StoredStep}
    (hs : s ∈ steps) (ht : t ∈ steps) (ho : s.ord = t.ord) : s = t := by
  obtain ⟨i, hi, rfl⟩ := List.getElem_of_mem hs
  obtain ⟨j, hj, rfl⟩ := List.getElem_of_mem ht
  have hij : i = j := by
    rw [← h i _ (List.getElem?_eq_getElem hi), ← h j _ (List.getElem?_eq_getElem hj), ho]
  subst hij
  rfl

theorem Dense.pairwise {steps : List StoredStep} (h : Dense steps) :
    steps.Pairwise fun a b => a.ord < b.ord := by
  rw [List.pairwise_iff_getElem]
  intro i j hi hj hij
  rw [h i _ (List.getElem?_eq_getElem hi), h j _ (List.getElem?_eq_getElem hj)]
  exact hij

theorem Ledger.stepOrds {r : Run} (h : Ledger r) :
    r.decisions.map DecisionRow.stepOrd = (r.steps.filterMap StoredStep.verdict).map Prod.fst := by
  rw [← h.rows, List.map_map]
  rfl

theorem verdicts_pairwise {steps : List StoredStep} (h : Dense steps) :
    ((steps.filterMap StoredStep.verdict).map Prod.fst).Pairwise (· < ·) := by
  rw [List.pairwise_map, List.pairwise_filterMap]
  refine h.pairwise.imp ?_
  rintro a b hab ⟨o, d⟩ ha ⟨o', d'⟩ hb
  rw [verdict_ord ha, verdict_ord hb]
  exact hab

theorem Ledger.oneRow {r : Run} (h : Ledger r) {s : StoredStep} (hs : s ∈ r.steps) :
    (r.decisions.filter fun d => d.stepOrd == s.ord).length =
      if s.DecidedByPerson then 1 else 0 := by
  have hcount : (r.decisions.filter fun d => d.stepOrd == s.ord).length =
      (r.decisions.map DecisionRow.stepOrd).count s.ord := by
    rw [List.count, List.countP_map, List.countP_eq_length_filter]
    rfl
  rw [hcount, h.stepOrds]
  have hnd : ((r.steps.filterMap StoredStep.verdict).map Prod.fst).Nodup :=
    (verdicts_pairwise h.dense).imp fun hlt => hlt.ne
  split
  · rename_i hd
    obtain ⟨⟨o, d⟩, hv⟩ := Option.isSome_iff_exists.mp ((h.progress.verdict_isSome hs).mpr hd)
    obtain rfl := verdict_ord hv
    exact List.count_eq_one_of_mem hnd
      (List.mem_map.mpr ⟨_, List.mem_filterMap.mpr ⟨s, hs, hv⟩, rfl⟩)
  · rename_i hd
    refine List.count_eq_zero.mpr fun hm => hd ?_
    obtain ⟨⟨o, d⟩, hm, ho⟩ := List.mem_map.mp hm
    obtain ⟨t, ht, hv⟩ := List.mem_filterMap.mp hm
    have hts : t.ord = s.ord := (verdict_ord hv).symm.trans ho
    obtain rfl := h.dense.ord_inj ht hs hts
    exact (h.progress.verdict_isSome hs).mp (Option.isSome_iff_exists.mpr ⟨_, hv⟩)

theorem Ledger.noStray {r : Run} (h : Ledger r) {d : DecisionRow} (hd : d ∈ r.decisions) :
    ∃ s ∈ r.steps, s.ord = d.stepOrd ∧ s.DecidedByPerson := by
  have hm : (d.stepOrd, d.decision) ∈ r.steps.filterMap StoredStep.verdict := by
    rw [← h.rows]
    exact List.mem_map.mpr ⟨d, hd, rfl⟩
  obtain ⟨s, hs, hv⟩ := List.mem_filterMap.mp hm
  exact ⟨s, hs, (verdict_ord hv).symm,
    (h.progress.verdict_isSome hs).mp (Option.isSome_iff_exists.mpr ⟨_, hv⟩)⟩

theorem Progress.shape {r : Run} (h : Progress r.state r.steps) (hd : Dense r.steps) :
    r.state = .open ∧ r.OpenShape ∨ r.state = .approved ∧ r.ApprovedShape ∨
      r.state = .rejected ∧ r.RejectedShape := by
  unfold Run.OpenShape Run.ApprovedShape Run.RejectedShape
  generalize hst : r.state = st at h
  generalize r.steps = steps at h hd
  cases h with
  | bypassed hall =>
    exact .inr (.inl ⟨rfl, fun s hs _ => (hall s hs).state_ne.1, fun s hs => (hall s hs).state_ne.2⟩)
  | approved hall =>
    exact .inr (.inl ⟨rfl, fun s hs _ => (hall s hs).state_ne.1, fun s hs => (hall s hs).state_ne.2⟩)
  | @«open» pre post c hpre hc hpost =>
    have hcs := StoredStep.pendingApproval_iff.mp hc
    refine .inl ⟨rfl, ⟨c, by simp, hcs⟩, fun s hs => ?_⟩
    rcases List.mem_append.mp hs with hin | hin
    · exact (hpre s hin).state_ne.2
    · rcases List.mem_cons.mp hin with rfl | hin
      · rw [hcs.2]
        decide
      · exact (hpost s hin).state_ne
  | @rejected pre post c hpre hk hs hpost =>
    obtain ⟨-, hlt, hgt⟩ := hd.split
    refine .inr (.inr ⟨rfl, c, ?_, fun t ht htk => ?_⟩)
    · rw [List.filter_append, List.filter_cons, hs, if_pos (by decide),
        List.filter_eq_nil_iff.mpr fun t ht => by simpa using (hpre t ht).state_ne.2,
        List.filter_eq_nil_iff.mpr fun t ht => by simpa using (hpost t ht).state_ne]
      rfl
    · rcases List.mem_append.mp ht with hin | hin
      · refine ⟨fun _ => ?_, fun hc => absurd hc (hlt t hin).asymm⟩
        rcases hpre t hin with hset | ⟨-, hst, -⟩
        · exact absurd htk hset.1
        · exact hst
      · rcases List.mem_cons.mp hin with rfl | hin
        · exact ⟨fun hc => absurd hc (lt_irrefl _), fun hc => absurd hc (lt_irrefl _)⟩
        · refine ⟨fun hc => absurd hc (hgt t hin).asymm, fun _ => ?_⟩
          rcases hpost t hin with hset | ⟨-, hst⟩
          · exact absurd htk hset.1
          · exact hst

theorem Run.RejectedShape.exists_rejected {r : Run} (h : r.RejectedShape) :
    ∃ s ∈ r.steps, s.state = .rejected := by
  obtain ⟨s, hs, -⟩ := h
  obtain ⟨hm, hr⟩ := List.mem_filter.mp (hs ▸ List.mem_singleton_self s)
  exact ⟨s, hm, beq_iff_eq.mp hr⟩

theorem Run.OpenShape.not_approved {r : Run} (h : r.OpenShape) : ¬ r.ApprovedShape := by
  obtain ⟨⟨s, hs, hk, hp⟩, -⟩ := h
  exact fun ha => ha.1 s hs hk hp

theorem Ledger.truth {r : Run} (h : Ledger r) : r.LedgerTruth where
  open_iff := by
    rcases h.progress.shape h.dense with ⟨hs, ho⟩ | ⟨hs, ha⟩ | ⟨hs, hr⟩ <;> rw [hs]
    · exact iff_of_true rfl ho
    · exact iff_of_false (by decide) fun ho => ho.not_approved ha
    · obtain ⟨s, hm, hsr⟩ := hr.exists_rejected
      exact iff_of_false (by decide) fun ho => ho.2 s hm hsr
  approved_iff := by
    rcases h.progress.shape h.dense with ⟨hs, ho⟩ | ⟨hs, ha⟩ | ⟨hs, hr⟩ <;> rw [hs]
    · exact iff_of_false (by decide) ho.not_approved
    · exact iff_of_true rfl ha
    · obtain ⟨s, hm, hsr⟩ := hr.exists_rejected
      exact iff_of_false (by decide) fun ha => ha.2 s hm hsr
  rejected_iff := by
    rcases h.progress.shape h.dense with ⟨hs, ho⟩ | ⟨hs, ha⟩ | ⟨hs, hr⟩ <;> rw [hs]
    · refine iff_of_false (by decide) fun hr => ?_
      obtain ⟨s, hm, hsr⟩ := hr.exists_rejected
      exact ho.2 s hm hsr
    · refine iff_of_false (by decide) fun hr => ?_
      obtain ⟨s, hm, hsr⟩ := hr.exists_rejected
      exact ha.2 s hm hsr
    · exact iff_of_true rfl hr
  inOrder := by
    rw [h.stepOrds]
    exact verdicts_pairwise h.dense
  oneRow := fun _ hs => h.oneRow hs
  noStray := fun _ hd => h.noStray hd

/-! ### Every sequence of calls -/

inductive Call where
  | decide (invoiceID caller : Uuid) (decision : Decision) (reason : Option String)
  | directory (d : Directory)

def callStep (db : Db) : Call → Option Db
  | .decide i u d reason =>
    match decide db i u d reason with
    | .ok db' => some db'
    | .error _ => some db
  | .directory d => some { db with directory := d }

def LedgerFrom (runID : Uuid) (r₀ : Run) (db : Db) : Prop :=
  ∃ r, db.runs.get? runID = some r ∧ Ledger r ∧ r₀.decisions <+: r.decisions ∧
    ∀ t ∈ r₀.steps, t.state ≠ .pending → t ∈ r.steps

theorem mem_decide_steps {r : Run} {t : StoredStep} (ht : t ∈ r.steps) (hp : t.state ≠ .pending)
    (d : Decision) (u : Uuid) (o : ℕ) (reason : Option String) (asDelegate : Bool) :
    t ∈ (r.decide d u o reason asDelegate).steps := by
  rw [Run.decide_steps]
  exact List.mem_map.mpr ⟨t, ht, if_neg fun h => hp h.2⟩

theorem LedgerFrom.decide {runID : Uuid} {r₀ : Run} {db db' : Db} {i u : Uuid} {d : Decision}
    {reason : Option String} (h : LedgerFrom runID r₀ db)
    (hok : Approval.decide db i u d reason = .ok db') : LedgerFrom runID r₀ db' := by
  obtain ⟨row, k, run, s, why, asDelegate, -, -, hk, -, hopen, hs, hp, hmin, hdb⟩ :=
    decide_spec hok
  have hruns : db'.runs = db.runs.set k (run.decide d u s.ord why asDelegate) := by
    rcases hdb with ⟨rfl, rfl⟩ | ⟨rfl, rfl⟩ <;> rfl
  obtain ⟨r, hr, hl, hpre, hkeep⟩ := h
  rw [LedgerFrom, hruns]
  by_cases hkr : runID = k
  · subst hkr
    rw [hr] at hk
    cases hk
    refine ⟨_, Table.get?_set_self _ _ _, hl.decide hopen hs hp hmin d u why asDelegate, ?_, ?_⟩
    · rw [Run.decide_decisions]
      exact hpre.trans (List.prefix_append _ _)
    · exact fun t ht htp => mem_decide_steps (hkeep t ht htp) htp d u s.ord why asDelegate
  · exact ⟨r, (Table.get?_set_of_ne _ _ hkr).trans hr, hl, hpre, hkeep⟩

theorem LedgerFrom.callStep {runID : Uuid} {r₀ : Run} {db db' : Db} {c : Call}
    (h : LedgerFrom runID r₀ db) (hstep : callStep db c = some db') : LedgerFrom runID r₀ db' := by
  cases c with
  | decide i u d reason =>
    simp only [Approval.callStep] at hstep
    split at hstep
    · rename_i db'' hok
      cases hstep
      exact h.decide hok
    · cases hstep
      exact h
  | directory d =>
    cases hstep
    exact h

theorem LedgerFrom.run {runID : Uuid} {r₀ : Run} {db db' : Db} {calls : List Call}
    (h : LedgerFrom runID r₀ db) (hrun : runFrom Approval.callStep db calls = some db') :
    LedgerFrom runID r₀ db' :=
  invariant_run (fun _ _ _ => LedgerFrom.callStep) h hrun

/-- After an arm wrote a run, every sequence of decisions keeps run, steps and ledger in
agreement; what one point of it decided stays decided at every later point. -/
theorem ledger_of_calls {db db₁ db₂ db₃ : Db} {versions : List InForceVersion} {i runID : Uuid}
    {fp : String} {now : ℕ} {r₀ : Run} {before after : List Call}
    (harm : armTx db versions i runID fp now = .ok db₁) (hnew : db.runs.get? runID = none)
    (hr₀ : db₁.runs.get? runID = some r₀)
    (hbefore : runFrom callStep db₁ before = some db₂)
    (hafter : runFrom callStep db₂ after = some db₃) :
    ∃ r r', db₂.runs.get? runID = some r ∧ db₃.runs.get? runID = some r' ∧
      r.LedgerTruth ∧ r'.LedgerTruth ∧ r.decisions <+: r'.decisions ∧
      (∀ t ∈ r.steps, t.state ≠ .pending → t ∈ r'.steps) ∧
      ∀ j u d reason e, decide db₃ j u d reason = .error e →
        callStep db₃ (.decide j u d reason) = some db₃ := by
  have hledger : Ledger r₀ := by
    obtain ⟨row, -, ⟨-, rfl⟩ | ⟨run, hrun, -, -, rfl⟩⟩ := armTx_spec harm
    · rw [hnew] at hr₀
      cases hr₀
    · rw [Db.setRun_runs, Table.get?_set_self] at hr₀
      cases hr₀
      exact Ledger.armed hrun
  have hstart : LedgerFrom runID r₀ db₁ :=
    ⟨r₀, hr₀, hledger, List.prefix_refl _, fun t ht _ => ht⟩
  obtain ⟨r, hr, hl, -, -⟩ := hstart.run hbefore
  have hmid : LedgerFrom runID r db₂ := ⟨r, hr, hl, List.prefix_refl _, fun t ht _ => ht⟩
  obtain ⟨r', hr', hl', hpre, hkeep⟩ := hmid.run hafter
  refine ⟨r, r', hr, hr', hl.truth, hl'.truth, hpre, hkeep, fun j u d reason e he => ?_⟩
  simp only [callStep, he]

def sampleDirectory : Directory where
  isFirm := false
  members := [⟨1, .admin, true, true, []⟩, ⟨2, .reviewer, true, true, []⟩]
  roles := [⟨10, "checker", "Checker", false, [1, 2]⟩]

def sampleTree : List Step :=
  [{ kind := .approval, workflowRoleKey := some "checker" },
    { kind := .notify, notifyTarget := some "checker", notifyChannel := some "email" },
    { kind := .approval, workflowRoleKey := some "checker" }]

def samplePolicy : PolicyRow where
  name := "Default"
  position := 1
  versions := [{ id := 20, version := 1, sealed := true, isActive := true, steps := sampleTree }]

def sampleInvoice : Invoice.Row where
  entityID := 5
  status := .validated
  header := { invoiceNumber := "INV-1", total := some (.hundredths 12500) }
  history := [⟨none, .draft, .system, {}⟩, ⟨some .draft, .validated, .system, {}⟩]

def sampleDb : Db where
  directory := sampleDirectory
  policies := (∅ : Policies).set 30 samplePolicy
  invoices := (∅ : Table Uuid Invoice.Row).set 40 sampleInvoice

theorem ledger_of_calls_sample :
    ∃ db₁ db₂ db₃ r r', armTx sampleDb sampleDb.readInForce 40 50 "fp" 7 = .ok db₁ ∧
      runFrom callStep db₁ [.decide 40 1 .approved none] = some db₂ ∧
      runFrom callStep db₂ [.decide 40 2 .rejected (some "wrong total")] = some db₃ ∧
      db₂.runs.get? 50 = some r ∧ db₃.runs.get? 50 = some r' ∧ r.state = .open ∧
      r'.state = .rejected ∧ r'.decisions.length = 2 ∧ r.LedgerTruth ∧ r'.LedgerTruth := by
  obtain ⟨r, r', hr, hr', hl, hl', -, -, -⟩ :=
    @ledger_of_calls sampleDb _ _ _ sampleDb.readInForce 40 50 "fp" 7 _
      [.decide 40 1 .approved none] [.decide 40 2 .rejected (some "wrong total")]
      rfl rfl rfl rfl rfl
  exact ⟨_, _, _, r, r', rfl, rfl, rfl, hr, hr', by cases hr; rfl, by cases hr'; rfl,
    by cases hr'; rfl, hl, hl'⟩

end InvoiceOs.Approval
