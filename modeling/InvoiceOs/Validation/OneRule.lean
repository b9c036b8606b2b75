import InvoiceOs.Lib.Refusal
import InvoiceOs.Validation.Engine

/-! What one rule finds is under its key, and no two findings of it are at one path. -/

namespace InvoiceOs.Validation

open Lib

/-! ### Line paths -/

theorem digits_no_bracket (n : ℕ) : ∀ c ∈ n.repr.toList, c ≠ ']' := by
  intro c hc
  rw [Nat.toList_repr] at hc
  have hdigit : c.isDigit = true := Nat.isDigit_of_mem_toDigits (by decide) (by decide) hc
  rintro rfl
  cases hdigit

theorem repr_inj_of_toList {n m : ℕ} (h : n.repr.toList = m.repr.toList) : n = m := by
  rw [Nat.toList_repr, Nat.toList_repr] at h
  have hread : ∀ k : ℕ, Nat.ofDigitChars 10 (Nat.toDigits 10 k) 0 = k := fun _ =>
    Nat.ofDigitChars_toDigits (by decide) (by decide)
  rw [← hread n, ← hread m, h]

theorem linePath_number {list : String} {n m : ℕ} {f g : String}
    (h : linePath list n f = linePath list m g) : n = m := by
  have htext : ∀ (k : ℕ) (field : String), ∃ rest,
      (linePath list k field).toList = list.toList ++ '[' :: (k.repr.toList ++ ']' :: rest) := by
    intro k field
    unfold linePath
    by_cases hfield : field = ""
    · exact ⟨[], by simp [hfield]⟩
    · exact ⟨'.' :: field.toList, by simp [hfield]⟩
  obtain ⟨rest, hn⟩ := htext n f
  obtain ⟨rest', hm⟩ := htext m g
  have hbody : n.repr.toList ++ ']' :: rest = m.repr.toList ++ ']' :: rest' := by
    have hboth := hn.symm.trans ((congrArg String.toList h).trans hm)
    exact (List.cons.inj (List.append_cancel_left hboth)).2
  have hdigits : ∀ (k : ℕ) (rest : List Char),
      (k.repr.toList ++ ']' :: rest).takeWhile (· ≠ ']') = k.repr.toList := by
    intro k rest
    rw [List.takeWhile_append_of_pos fun c hc => decide_eq_true (digits_no_bracket k c hc)]
    simp
  refine repr_inj_of_toList ?_
  rw [← hdigits n rest, hbody, hdigits]

/-! ### One rule -/

structure OfRule (r : Rule) (vs : List Violation) : Prop where
  key : ∀ v ∈ vs, v.ruleKey = r.key
  paths : (vs.map Violation.path).Nodup

variable {b : Backend} {p : Payload} {r : Rule}

theorem OfRule.nil : OfRule r [] := ⟨nofun, List.nodup_nil⟩

theorem OfRule.single {v : Violation} (h : v.ruleKey = r.key) : OfRule r [v] :=
  ⟨fun _ hw => List.mem_singleton.mp hw ▸ h, List.nodup_singleton _⟩

theorem OfRule.toList {o : Option Violation} (h : ∀ v ∈ o, v.ruleKey = r.key) :
    OfRule r o.toList := by
  cases o with
  | none => exact .nil
  | some v => exact .single (h v rfl)

theorem OfRule.perLine (list : String) (els : List Json)
    {judge : Json → Option (String × Violation)}
    (h : ∀ el, ∀ e ∈ judge el, e.2.ruleKey = r.key) : OfRule r (perLine list els judge) := by
  constructor
  · intro v hv
    obtain ⟨o, ho, hov⟩ := List.mem_filterMap.mp hv
    obtain ⟨i, hi, rfl⟩ := List.mem_mapIdx.mp ho
    obtain ⟨e, he, rfl⟩ := Option.map_eq_some_iff.mp hov
    exact h _ e he
  · rw [Validation.perLine, List.Nodup, List.pairwise_map, List.pairwise_filterMap,
      List.pairwise_iff_getElem]
    intro i j hi hj hij v hv w hw hpath
    rw [List.getElem_mapIdx] at hv hw
    obtain ⟨e, _, rfl⟩ := Option.map_eq_some_iff.mp hv
    obtain ⟨e', _, rfl⟩ := Option.map_eq_some_iff.mp hw
    have := linePath_number hpath
    omega

def NoneOrOwn (r : Rule) (o : Option Violation) : Prop := ∀ v ∈ o, v.ruleKey = r.key

theorem noneOrOwn_none : NoneOrOwn r none := nofun

theorem noneOrOwn_some {v : Violation} (h : v.ruleKey = r.key) : NoneOrOwn r (some v) := by
  rintro _ ⟨⟩
  exact h

theorem requiredEval_own {o : Option Violation} (h : requiredEval p r = .ok o) :
    NoneOrOwn r o := by
  simp only [requiredEval, bind_eq_ok] at h
  obtain ⟨_, _, _, _, h⟩ := h
  split at h
  · cases h
    exact noneOrOwn_some rfl
  · split at h <;> cases h
    · exact noneOrOwn_some rfl
    · exact noneOrOwn_none

theorem formatEval_own {o : Option Violation} (h : formatEval b p r = .ok o) : NoneOrOwn r o := by
  simp only [formatEval, bind_eq_ok] at h
  obtain ⟨_, _, pattern, _, h⟩ := h
  cases pattern with
  | none => cases h
  | some pattern =>
    obtain ⟨re, _, h⟩ := bind_eq_ok.mp h
    split at h
    · cases h
      exact noneOrOwn_none
    · split at h <;> cases h
      · exact noneOrOwn_none
      · exact noneOrOwn_some rfl

theorem rangeEval_own {o : Option Violation} (h : rangeEval b p r = .ok o) : NoneOrOwn r o := by
  simp only [rangeEval, bind_eq_ok] at h
  obtain ⟨_, _, _, _, _, _, _, _, _, _, h⟩ := h
  split at h
  · cases h
    exact noneOrOwn_none
  · split at h
    · cases h
      exact noneOrOwn_some rfl
    · split at h <;> cases h
      · exact noneOrOwn_some rfl
      · exact noneOrOwn_none

theorem dateEval_own {o : Option Violation} (h : dateEval b p r = .ok o) : NoneOrOwn r o := by
  simp only [dateEval, bind_eq_ok] at h
  obtain ⟨_, _, _, _, _, _, _, _, _, _, _, _, _, _, h⟩ := h
  split at h
  · cases h
    exact noneOrOwn_none
  · split at h
    · cases h
      exact noneOrOwn_some rfl
    · split at h <;> cases h
      · exact noneOrOwn_some rfl
      · exact noneOrOwn_none
  · cases h
    exact noneOrOwn_some rfl

theorem crossFieldEval_own {o : Option Violation} (h : crossFieldEval b p r = .ok o) :
    NoneOrOwn r o := by
  simp only [crossFieldEval, bind_eq_ok] at h
  obtain ⟨_, _, _, _, _, _, _, _, holds, _, h⟩ := h
  split at h <;> cases h
  · exact noneOrOwn_none
  · exact noneOrOwn_some rfl

theorem conditionalEval_own {o : Option Violation} (h : conditionalEval b p r = .ok o) :
    NoneOrOwn r o := by
  simp only [conditionalEval, bind_eq_ok] at h
  obtain ⟨_, _, _, _, _, _, given, _, h⟩ := h
  split at h
  · obtain ⟨wanted, _, h⟩ := bind_eq_ok.mp h
    split at h <;> cases h
    · exact noneOrOwn_none
    · exact noneOrOwn_some rfl
  · cases h
    exact noneOrOwn_none

theorem judgeCode_key (list : String) (el : Json) :
    ∀ e ∈ judgeCode b r list el, e.2.ruleKey = r.key := by
  intro e he
  unfold judgeCode at he
  split at he
  · split at he
    · cases he
    · split at he <;> cases he
      rfl
  · cases he
    rfl

theorem evalList_ofRule (list : String) (items : Option String) :
    OfRule r (evalList b p r list items) := by
  cases items with
  | none =>
    simp only [evalList]
    split
    · exact .nil
    · split
      · exact .nil
      · exact .single rfl
  | some items =>
    simp only [evalList]
    split
    · exact .perLine items _ (judgeCode_key list)
    · exact .nil

theorem enumEval_ofRule {vs : List Violation} (h : enumEval b p r = .ok vs) : OfRule r vs := by
  simp only [enumEval, bind_eq_ok] at h
  obtain ⟨_, _, values, _, list, _, items, _, h⟩ := h
  split at h
  · cases h
  · split at h
    · cases h
    · split at h
      · cases h
      · split at h <;> cases h
        exact evalList_ofRule _ _
  · cases h
  · split at h
    · cases h
    · split at h
      · cases h
        exact .nil
      · split at h <;> cases h
        · exact .nil
        · exact .single rfl

theorem taxHeader_own {params : List (String × Json)} {o : Option Violation}
    (h : taxHeader b p r params = .ok o) : NoneOrOwn r o := by
  simp only [taxHeader, bind_eq_ok] at h
  obtain ⟨_, _, _, _, h⟩ := h
  split at h
  · cases h
  · cases h
  · cases h
  · split at h
    · cases h
    · split at h
      · split at h <;> cases h
        · exact noneOrOwn_some rfl
        · exact noneOrOwn_none
      · cases h
        exact noneOrOwn_some rfl

theorem judgeTax_key (rateOf : Json → Option ℚ) (base expected : Json) (tolerance : ℚ) (el : Json) :
    ∀ e ∈ judgeTax b r rateOf base expected tolerance el, e.2.ruleKey = r.key := by
  intro e he
  unfold judgeTax at he
  split at he
  · split at he
    · cases he
    · split at he
      · cases he
        rfl
      · split at he
        · cases he
          rfl
        · split at he <;> cases he
          rfl
  · cases he
    rfl

theorem map_toList_ofRule {x : Except String (Option Violation)} {vs : List Violation}
    (hown : ∀ o, x = .ok o → NoneOrOwn r o) (h : x.map Option.toList = .ok vs) : OfRule r vs := by
  cases x with
  | error => cases h
  | ok o =>
    cases h
    exact .toList (hown o rfl)

theorem taxMathEval_ofRule {vs : List Violation} (h : taxMathEval b p r = .ok vs) :
    OfRule r vs := by
  simp only [taxMathEval, bind_eq_ok] at h
  obtain ⟨_, _, items, _, rateBy, _, rates, _, rate, _, tolerance, _, h⟩ := h
  split at h
  · exact map_toList_ofRule (fun _ => taxHeader_own) h
  · -- the checks of the rates, each a fault of the rule's
    iterate 5 (split at h; · cases h)
    split at h
    · cases h
    · cases h
    · cases h
    · cases h
    · split at h <;> cases h
      exact .perLine _ _ (judgeTax_key _ _ _ _)

theorem lineSumEval_ofRule {vs : List Violation} (h : lineSumEval b p r = .ok vs) :
    OfRule r vs := by
  simp only [lineSumEval, bind_eq_ok] at h
  obtain ⟨_, _, items, _, amount, _, quantity, _, expected, _, tolerance, _, h⟩ := h
  have hlines : ∀ el, ∀ e ∈ judgeLine r amount quantity el, e.2.ruleKey = r.key := by
    intro el e he
    unfold judgeLine at he
    split at he <;> cases he
    rfl
  iterate 4 (split at h; · cases h)
  split at h
  · cases h
    exact .nil
  · split at h
    · cases h
      exact .perLine items _ hlines
    · split at h
      · cases h
        exact .single rfl
      · split at h <;> cases h
        · exact .single rfl
        · exact .nil

theorem celLineViolations_ofRule (expr : String) : OfRule r (celLineViolations b p r expr) := by
  unfold celLineViolations
  split
  · exact .nil
  · split
    · exact .nil
    · refine .perLine _ _ fun el e he => ?_
      unfold judgeElement at he
      split at he <;> cases he
      rfl

theorem celEval_ofRule {vs : List Violation} (h : celEval b p r = .ok vs) : OfRule r vs := by
  simp only [celEval, bind_eq_ok] at h
  obtain ⟨_, _, expr, _, h⟩ := h
  split at h
  · cases h
  · obtain ⟨holds, _, h⟩ := bind_eq_ok.mp h
    split at h
    · cases h
      exact .nil
    · cases h
      split
      · exact .single rfl
      · exact celLineViolations_ofRule expr

theorem evalRule_ofRule {vs : List Violation} (h : evalRule b p r = .ok vs) : OfRule r vs := by
  unfold evalRule at h
  split at h
  · exact map_toList_ofRule (fun _ => requiredEval_own) h
  · exact map_toList_ofRule (fun _ => formatEval_own) h
  · exact enumEval_ofRule h
  · exact map_toList_ofRule (fun _ => rangeEval_own) h
  · exact taxMathEval_ofRule h
  · exact map_toList_ofRule (fun _ => crossFieldEval_own) h
  · exact map_toList_ofRule (fun _ => conditionalEval_own) h
  · exact map_toList_ofRule (fun _ => dateEval_own) h
  · exact celEval_ofRule h
  · exact lineSumEval_ofRule h
  · cases h

theorem ruleViolations_ofRule {vs : List Violation} (h : ruleViolations b p r = .ok vs) :
    OfRule r vs := by
  obtain ⟨chosen, _, h⟩ := bind_eq_ok.mp h
  split at h
  · exact evalRule_ofRule h
  · cases h
    exact .nil

end InvoiceOs.Validation
