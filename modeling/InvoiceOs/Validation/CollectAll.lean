import InvoiceOs.Validation.OneRule

/-! A payload is judged by every rule on its own: the violations of a set are those of its rules
together, in one order, and no custom rule touches another rule's. -/

namespace InvoiceOs.Validation

open Lib

variable {b : Backend} {p : Payload}

/-! ### The order -/

theorem violationLe_isOrder : IsOrder violationLe :=
  (isOrder_le.comparing Violation.ruleKey).thenBy (isOrder_le.comparing Violation.path)

def place (v : Violation) : String × String := (v.ruleKey, v.path)

theorem violationLe_ties {v w : Violation} (h : violationLe v w = true)
    (h' : violationLe w v = true) : place v = place w := by
  obtain ⟨hkey, hpath⟩ := thenBy_ties h h'
  simp only [comparing, decide_eq_true_eq] at hkey hpath
  exact Prod.ext (le_antisymm hkey.1 hkey.2) (le_antisymm hpath.1 hpath.2)

theorem eq_of_place {vs : List Violation} (h : (vs.map place).Nodup) {v w : Violation}
    (hv : v ∈ vs) (hw : w ∈ vs) (heq : place v = place w) : v = w :=
  List.inj_on_of_nodup_map h hv hw heq

def Sorted (vs : List Violation) : Prop := vs.Pairwise fun v w => violationLe v w = true

theorem sortViolations_sorted (vs : List Violation) : Sorted (sortViolations vs) :=
  List.pairwise_mergeSort violationLe_isOrder.trans violationLe_isOrder.total vs

theorem sortViolations_perm (vs : List Violation) : (sortViolations vs).Perm vs :=
  List.mergeSort_perm vs violationLe

theorem sorted_unique {vs ws : List Violation} (hperm : vs.Perm ws) (hv : Sorted vs)
    (hw : Sorted ws) (h : (vs.map place).Nodup) : vs = ws :=
  hperm.eq_of_pairwise (fun _ _ hx hy hxy hyx => eq_of_place h hx (hperm.mem_iff.mpr hy)
    (violationLe_ties hxy hyx)) hv hw

/-! ### A set of rules -/

theorem mapM_eq_ok {α β ε : Type} {f : α → Except ε β} {l : List α} {ys : List β} :
    l.mapM f = .ok ys ↔ List.Forall₂ (fun x y => f x = .ok y) l ys := by
  induction l generalizing ys with
  | nil =>
    rw [List.mapM_nil, pure_eq_ok, List.forall₂_nil_left_iff, eq_comm]
  | cons x l ih =>
    simp only [List.mapM_cons, bind_eq_ok, pure_eq_ok, ih]
    constructor
    · rintro ⟨y, hy, ys, hys, rfl⟩
      exact .cons hy hys
    · rintro (_ | ⟨hy, hys⟩)
      exact ⟨_, hy, _, hys, rfl⟩

def only (rs : RuleSet) (r : Rule) : RuleSet := { rs with rules := [r] }

def alone (b : Backend) (p : Payload) (rs : RuleSet) (r : Rule) : List Violation :=
  match evaluate b p (only rs r) with
  | .ok res => res.violations
  | .error _ => []

def applies (b : Backend) (p : Payload) (r : Rule) : Bool :=
  match selected b p r with
  | .ok chosen => chosen
  | .error _ => false

theorem evaluate_eq_ok {rs : RuleSet} {res : Result} :
    evaluate b p rs = .ok res ↔
      ∃ found, List.Forall₂ (fun r vs => ruleViolations b p r = .ok vs) rs.rules found ∧
        res = ⟨rs.version, sortViolations found.flatten⟩ := by
  simp only [evaluate, bind_eq_ok, mapM_eq_ok, Except.ok.injEq, eq_comm (b := res)]

theorem evaluate_only {rs : RuleSet} {r : Rule} {res : Result} :
    evaluate b p (only rs r) = .ok res ↔
      ∃ vs, ruleViolations b p r = .ok vs ∧ res = ⟨rs.version, sortViolations vs⟩ := by
  rw [evaluate_eq_ok]
  constructor
  · rintro ⟨_, hfound, rfl⟩
    obtain ⟨vs, _, hvs, hnil, rfl⟩ := List.forall₂_cons_left_iff.mp hfound
    cases hnil
    exact ⟨vs, hvs, by simp [only]⟩
  · rintro ⟨vs, hvs, rfl⟩
    exact ⟨[vs], .cons hvs .nil, by simp [only]⟩

theorem alone_perm {rs : RuleSet} {r : Rule} {vs : List Violation}
    (h : ruleViolations b p r = .ok vs) : (alone b p rs r).Perm vs := by
  have heval : evaluate b p (only rs r) = .ok ⟨rs.version, sortViolations vs⟩ :=
    evaluate_only.mpr ⟨vs, h, rfl⟩
  rw [alone, heval]
  exact sortViolations_perm vs

theorem applies_of_found {r : Rule} {vs : List Violation} (h : ruleViolations b p r = .ok vs)
    (hout : applies b p r = false) : vs = [] := by
  obtain ⟨chosen, hchosen, h⟩ := bind_eq_ok.mp h
  rw [applies, hchosen] at hout
  subst hout
  cases h
  rfl

theorem found_perm {rs : RuleSet} {rules : List Rule} {found : List (List Violation)}
    (h : List.Forall₂ (fun r vs => ruleViolations b p r = .ok vs) rules found) :
    found.flatten.Perm ((rules.filter (applies b p)).flatMap (alone b p rs)) := by
  induction h with
  | nil => exact .nil
  | @cons r vs rules found hr _ ih =>
    rw [List.flatten_cons, List.filter_cons]
    split
    · rw [List.flatMap_cons]
      exact (alone_perm hr).symm.append ih
    · rename_i hout
      rw [applies_of_found hr (Bool.eq_false_iff.mpr hout), List.nil_append]
      exact ih

theorem forall₂_of_forall {rules : List Rule}
    (h : ∀ r ∈ rules, ∃ vs, ruleViolations b p r = .ok vs) :
    ∃ found, List.Forall₂ (fun r vs => ruleViolations b p r = .ok vs) rules found := by
  induction rules with
  | nil => exact ⟨[], .nil⟩
  | cons r rules ih =>
    obtain ⟨vs, hvs⟩ := h r List.mem_cons_self
    obtain ⟨found, hfound⟩ := ih fun x hx => h x (List.mem_cons_of_mem r hx)
    exact ⟨vs :: found, .cons hvs hfound⟩

theorem evaluate_iff_only {rs : RuleSet} :
    (∃ res, evaluate b p rs = .ok res) ↔
      ∀ r ∈ rs.rules, ∃ res, evaluate b p (only rs r) = .ok res := by
  constructor
  · rintro ⟨_, h⟩ r hr
    obtain ⟨found, hfound, _⟩ := evaluate_eq_ok.mp h
    obtain ⟨hlength, hget⟩ := List.forall₂_iff_get.mp hfound
    obtain ⟨i, hi, rfl⟩ := List.mem_iff_getElem.mp hr
    exact ⟨_, evaluate_only.mpr ⟨_, hget i hi (hlength ▸ hi), rfl⟩⟩
  · intro h
    have hall : ∀ r ∈ rs.rules, ∃ vs, ruleViolations b p r = .ok vs := by
      intro r hr
      obtain ⟨_, hres⟩ := h r hr
      obtain ⟨vs, hvs, _⟩ := evaluate_only.mp hres
      exact ⟨vs, hvs⟩
    obtain ⟨found, hfound⟩ := forall₂_of_forall hall
    exact ⟨_, evaluate_eq_ok.mpr ⟨found, hfound, rfl⟩⟩

theorem alone_ofRule {rs : RuleSet} {r : Rule} : OfRule r (alone b p rs r) := by
  unfold alone
  split
  · rename_i res hres
    obtain ⟨vs, hvs, rfl⟩ := evaluate_only.mp hres
    have hown := ruleViolations_ofRule hvs
    have hperm := sortViolations_perm vs
    exact ⟨fun v hv => hown.key v (hperm.mem_iff.mp hv), (hperm.map _).nodup_iff.mpr hown.paths⟩
  · exact .nil

theorem alone_sorted {rs : RuleSet} {r : Rule} : Sorted (alone b p rs r) := by
  unfold alone
  split
  · rename_i res hres
    obtain ⟨vs, _, rfl⟩ := evaluate_only.mp hres
    exact sortViolations_sorted vs
  · exact .nil

theorem alone_of_not_applies {rs : RuleSet} {r : Rule} (h : applies b p r = false) :
    alone b p rs r = [] := by
  unfold alone
  split
  · rename_i res hres
    obtain ⟨vs, hvs, rfl⟩ := evaluate_only.mp hres
    rw [applies_of_found hvs h]
    exact List.mergeSort_nil
  · rfl

theorem evaluate_union {rs : RuleSet} {res : Result} (h : evaluate b p rs = .ok res) :
    res.violations.Perm ((rs.rules.filter (applies b p)).flatMap (alone b p rs)) ∧
      Sorted res.violations := by
  obtain ⟨found, hfound, rfl⟩ := evaluate_eq_ok.mp h
  exact ⟨(sortViolations_perm _).trans (found_perm hfound), sortViolations_sorted _⟩

/-! ### Families of rules with keys of their own -/

section
variable {ι : Type} {f : ι → List Violation} (rule : ι → Rule) {l : List ι}

theorem places_nodup (hown : ∀ x ∈ l, OfRule (rule x) (f x))
    (hkeys : (l.map fun x => (rule x).key).Nodup) : ((l.flatMap f).map place).Nodup := by
  rw [List.map_flatMap, List.nodup_flatMap]
  constructor
  · intro x hx
    have hpaths := (hown x hx).paths
    rw [List.Nodup, List.pairwise_map] at hpaths ⊢
    exact hpaths.imp fun hne heq => hne (Prod.mk.inj heq).2
  · rw [List.Nodup, List.pairwise_map] at hkeys
    refine hkeys.imp_of_mem fun {x y} hx hy hne => ?_
    intro q hq hq'
    obtain ⟨v, hv, rfl⟩ := List.mem_map.mp hq
    obtain ⟨w, hw, heq⟩ := List.mem_map.mp hq'
    have hkey : w.ruleKey = v.ruleKey := (Prod.mk.inj heq).1
    rw [(hown x hx).key v hv, (hown y hy).key w hw] at hkey
    exact hne hkey.symm

theorem filter_own (hown : ∀ x ∈ l, OfRule (rule x) (f x))
    (hkeys : (l.map fun x => (rule x).key).Nodup) {x : ι} (hx : x ∈ l) :
    (l.flatMap f).filter (fun v => v.ruleKey = (rule x).key) = f x := by
  have hother : ∀ y ∈ l, (rule y).key ≠ (rule x).key →
      (f y).filter (fun v => v.ruleKey = (rule x).key) = [] := by
    intro y hy hne
    refine List.filter_eq_nil_iff.mpr fun v hv => ?_
    rw [decide_eq_true_eq, (hown y hy).key v hv]
    exact hne
  have hself : (f x).filter (fun v => v.ruleKey = (rule x).key) = f x :=
    List.filter_eq_self.mpr fun v hv => decide_eq_true ((hown x hx).key v hv)
  obtain ⟨before, after, rfl⟩ := List.append_of_mem hx
  rw [List.map_append, List.map_cons, List.nodup_middle, List.nodup_cons, List.mem_append] at hkeys
  have hnil : ∀ part : List ι, (∀ y ∈ part, y ∈ before ++ x :: after) →
      (∀ y ∈ part, (rule y).key ≠ (rule x).key) →
      (part.flatMap f).filter (fun v => v.ruleKey = (rule x).key) = [] := by
    intro part hpart hne
    rw [List.filter_flatMap, List.flatMap_eq_nil_iff]
    exact fun y hy => hother y (hpart y hy) (hne y hy)
  have hbefore := hnil before (fun y hy => List.mem_append_left _ hy) fun y hy heq =>
    hkeys.1 (.inl (heq ▸ List.mem_map_of_mem (f := fun x => (rule x).key) hy))
  have hafter := hnil after (fun y hy => List.mem_append_right _ (List.mem_cons_of_mem x hy))
    fun y hy heq => hkeys.1 (.inr (heq ▸ List.mem_map_of_mem (f := fun x => (rule x).key) hy))
  rw [List.flatMap_append, List.flatMap_cons, List.filter_append, List.filter_append, hbefore,
    hafter, hself, List.nil_append, List.append_nil]

end

theorem flatMap_applies (rs : RuleSet) (rules : List Rule) :
    (rules.filter (applies b p)).flatMap (alone b p rs) = rules.flatMap (alone b p rs) := by
  induction rules with
  | nil => rfl
  | cons r rules ih =>
    rw [List.filter_cons]
    split
    · rw [List.flatMap_cons, List.flatMap_cons, ih]
    · rename_i hout
      rw [List.flatMap_cons, alone_of_not_applies (Bool.eq_false_iff.mpr hout), ih]
      rfl

theorem golden_places {rs : RuleSet} {res : Result} (hkeys : (rs.rules.map Rule.key).Nodup)
    (h : evaluate b p rs = .ok res) : (res.violations.map place).Nodup := by
  have hperm := (evaluate_union h).1
  rw [flatMap_applies] at hperm
  exact (hperm.map place).nodup_iff.mpr (places_nodup id (fun _ _ => alone_ofRule) hkeys)

theorem evaluate_perm {rs rs' : RuleSet} (hversion : rs.version = rs'.version)
    (hrules : rs.rules.Perm rs'.rules) (hkeys : (rs.rules.map Rule.key).Nodup) {res : Result}
    (h : evaluate b p rs = .ok res) : evaluate b p rs' = .ok res := by
  have hone : ∀ r, alone b p rs r = alone b p rs' r ∧
      ((∃ res, evaluate b p (only rs r) = .ok res) ↔
        ∃ res, evaluate b p (only rs' r) = .ok res) := by
    intro r
    have hsame : ∀ res, evaluate b p (only rs r) = .ok res ↔
        evaluate b p (only rs' r) = .ok res := by
      intro res
      rw [evaluate_only, evaluate_only, hversion]
    refine ⟨?_, exists_congr hsame⟩
    unfold alone
    cases hr : evaluate b p (only rs r) with
    | ok res => rw [(hsame res).mp hr]
    | error e =>
      cases hr' : evaluate b p (only rs' r) with
      | ok res => rw [(hsame res).mpr hr'] at hr; cases hr
      | error e => rfl
  obtain ⟨res', h'⟩ : ∃ res', evaluate b p rs' = .ok res' := by
    refine evaluate_iff_only.mpr fun r hr => (hone r).2.mp ?_
    exact evaluate_iff_only.mp ⟨res, h⟩ r (hrules.mem_iff.mpr hr)
  obtain ⟨hperm, hsorted⟩ := evaluate_union h
  obtain ⟨hperm', hsorted'⟩ := evaluate_union h'
  rw [flatMap_applies] at hperm hperm'
  have hunion : (rs.rules.flatMap (alone b p rs)).Perm (rs'.rules.flatMap (alone b p rs')) := by
    rw [funext fun r => (hone r).1]
    exact hrules.flatMap_right _
  have hviolations := sorted_unique (hperm.trans (hunion.trans hperm'.symm)) hsorted hsorted'
    (golden_places hkeys h)
  have hres : res = res' := by
    obtain ⟨found, _, rfl⟩ := evaluate_eq_ok.mp h
    obtain ⟨found', _, rfl⟩ := evaluate_eq_ok.mp h'
    simp only [Result.mk.injEq]
    exact ⟨hversion, hviolations⟩
  rw [hres]
  exact h'

/-! ### Custom rules -/

structure CustomKeys (rules : List CustomRule) : Prop where
  distinct : (rules.map fun c => c.rule.key).Nodup
  marked : ∀ c ∈ rules, hasCustomPrefix c.rule.key = true

theorem CustomKeys.nil : CustomKeys [] := ⟨List.nodup_nil, nofun⟩

theorem checkCustomRule_key {w : CustomRuleWire} {r : Rule} (h : checkCustomRule b w = .ok r) :
    r.key = w.key ∧ hasCustomPrefix r.key = true := by
  unfold checkCustomRule at h
  split at h
  · cases h
  · split at h
    · cases h
    · rename_i hprefix
      split at h
      · cases h
      · split at h
        · cases h
        · split at h <;> cases h
          simp only [Bool.or_eq_true, Bool.not_eq_true', decide_eq_true_eq, not_or,
            Bool.not_eq_false] at hprefix
          exact ⟨rfl, hprefix.1⟩

theorem addCustomRule_keys {name : String} {seen seen' : List CustomRule} {w : CustomRuleWire}
    (hseen : CustomKeys seen) (h : addCustomRule b name seen w = .ok seen') :
    CustomKeys seen' := by
  obtain ⟨rule, hrule, h⟩ := bind_eq_ok.mp h
  have hcheck : checkCustomRule b w = .ok rule := by
    cases hw : checkCustomRule b w with
    | error => rw [hw] at hrule; cases hrule
    | ok r => rw [hw] at hrule; cases hrule; rfl
  obtain ⟨hkey, hprefix⟩ := checkCustomRule_key hcheck
  split at h
  · cases h
  · split at h
    · cases h
    · rename_i hnew
      cases h
      rw [List.any_eq_true, not_exists] at hnew
      constructor
      · rw [List.map_append, List.nodup_append]
        refine ⟨hseen.distinct, List.nodup_singleton _, ?_⟩
        rintro _ hk _ hk' rfl
        obtain ⟨c, hc, hck⟩ := List.mem_map.mp hk
        have hk' := List.mem_singleton.mp hk'
        exact hnew c ⟨hc, decide_eq_true (hck.trans (hk'.trans hkey))⟩
      · intro c hc
        rcases List.mem_append.mp hc with hc | hc
        · exact hseen.marked c hc
        · obtain rfl := List.mem_singleton.mp hc
          exact hprefix

theorem foldlM_keys {α : Type} {step : List CustomRule → α → Except String (List CustomRule)}
    (hstep : ∀ seen x seen', CustomKeys seen → step seen x = .ok seen' → CustomKeys seen')
    {xs : List α} {seen rules : List CustomRule} (hseen : CustomKeys seen)
    (h : xs.foldlM step seen = .ok rules) : CustomKeys rules := by
  induction xs generalizing seen with
  | nil =>
    cases h
    exact hseen
  | cons x xs ih =>
    rw [List.foldlM_cons, bind_eq_ok] at h
    obtain ⟨seen', hx, h⟩ := h
    exact ih (hstep seen x seen' hseen hx) h

theorem checkName_nodup {sets : List (String × List CustomRuleWire)} {i : ℕ}
    {names seen seen' : List String} (hseen : seen.Nodup)
    (h : names.foldlM (checkName b sets i) seen = .ok seen') : (seen ++ names).Nodup := by
  induction names generalizing seen with
  | nil => rwa [List.append_nil]
  | cons name names ih =>
    rw [List.foldlM_cons, bind_eq_ok] at h
    obtain ⟨seen₁, hname, h⟩ := h
    unfold checkName at hname
    split at hname
    · cases hname
    · split at hname
      · cases hname
      · rename_i hnew
        obtain rfl := Except.ok.inj hname
        have hnext : (seen ++ [name]).Nodup :=
          hseen.append (List.nodup_singleton _) (List.disjoint_singleton.mpr hnew)
        have hall := ih hnext h
        rwa [List.append_assoc] at hall

theorem newCustomSets_keys {sets : List (String × List CustomRuleWire)}
    {items : List (List String)} {rules : List CustomRule}
    (h : newCustomSets b sets items = .ok rules) :
    CustomKeys rules ∧ ∀ names ∈ items, names.Nodup := by
  simp only [newCustomSets, bind_eq_ok, mapM_eq_ok, Except.ok.injEq] at h
  obtain ⟨rules', hrules, checks, hchecks, rfl⟩ := h
  refine ⟨foldlM_keys ?_ .nil hrules, ?_⟩
  · intro seen set seen' hseen hset
    unfold addCustomSet at hset
    split at hset
    · cases hset
    · exact foldlM_keys (fun _ _ _ => addCustomRule_keys) hseen hset
  · intro names hnames
    obtain ⟨hlength, hget⟩ := List.forall₂_iff_get.mp hchecks
    obtain ⟨i, hi, rfl⟩ := List.mem_iff_getElem.mp hnames
    have hi' : i < items.zipIdx.length := by rwa [List.length_zipIdx]
    have hcheck : checkNames b sets items.zipIdx[i] = .ok _ := hget i hi' (hlength ▸ hi')
    rw [List.getElem_zipIdx, Nat.zero_add] at hcheck
    exact checkName_nodup List.nodup_nil hcheck

theorem attachCodes_keys {codes : Rule → List String} {rules : List CustomRule}
    (h : CustomKeys rules) : CustomKeys (attachCodes codes rules) := by
  constructor
  · rw [attachCodes, List.map_map]
    exact h.distinct
  · intro c hc
    obtain ⟨c', hc', rfl⟩ := List.mem_map.mp hc
    exact h.marked c' hc'

theorem namedRules_keys {rules : List CustomRule} {names : List String} (h : CustomKeys rules)
    (hnames : names.Nodup) : CustomKeys (namedRules rules names) := by
  have hmem : ∀ c ∈ namedRules rules names, c ∈ rules := by
    intro c hc
    obtain ⟨name, _, hc⟩ := List.mem_flatMap.mp hc
    exact List.mem_of_mem_filter hc
  refine ⟨?_, fun c hc => h.marked c (hmem c hc)⟩
  have hdistinct := h.distinct
  have hrules : rules.Nodup := hdistinct.of_map _
  have hnodup : (namedRules rules names).Nodup := by
    rw [namedRules, List.nodup_flatMap]
    refine ⟨fun _ _ => hrules.filter _, hnames.imp fun {name name'} hne => ?_⟩
    intro c hc hc'
    have hset := of_decide_eq_true (List.mem_filter.mp hc).2
    have hset' := of_decide_eq_true (List.mem_filter.mp hc').2
    exact hne (hset.symm.trans hset')
  exact hnodup.map_on fun c hc c' hc' heq =>
    List.inj_on_of_nodup_map hdistinct (hmem c hc) (hmem c' hc') heq

theorem evaluateCustom_spec {rs : RuleSet} {r : Rule} :
    OfRule r (evaluateCustom b p rs r) ∧ Sorted (evaluateCustom b p rs r) := by
  have halone : OfRule r (alone b p rs r) := alone_ofRule
  have hsorted : Sorted (alone b p rs r) := alone_sorted
  unfold evaluateCustom
  unfold alone only at halone hsorted
  split
  · rename_i res hres
    rw [hres] at halone hsorted
    exact ⟨halone, hsorted⟩
  · exact ⟨.single rfl, List.pairwise_singleton _ _⟩

/-! ### One item of a batch -/

theorem evaluateItem_eq_ok {rs : RuleSet} {rules : List CustomRule} {names : List String}
    {out : List Violation × List String} (h : evaluateItem b p rs rules names = .ok out) :
    ∃ res, evaluate b p rs = .ok res ∧ Sorted out.1 ∧
      out.1.Perm (res.violations ++
        (namedRules rules names).flatMap fun c => evaluateCustom b p rs c.rule) := by
  obtain ⟨res, hres, h⟩ := bind_eq_ok.mp h
  cases h
  refine ⟨res, hres, ?_⟩
  dsimp only
  split
  · rename_i hnone
    rw [hnone, List.append_nil]
    exact ⟨(evaluate_union hres).2, .refl _⟩
  · exact ⟨sortViolations_sorted _, sortViolations_perm _⟩

structure Collected (b : Backend) (p : Payload) (rs : RuleSet) (named : List CustomRule)
    (out : List Violation) : Prop where
  golden : ∃ res, evaluate b p rs = .ok res ∧
    out.filter (fun v => !hasCustomPrefix v.ruleKey) = res.violations
  custom : (out.filter fun v => hasCustomPrefix v.ruleKey).Perm
    (named.flatMap fun c => evaluateCustom b p rs c.rule)
  golden_own : ∀ r ∈ rs.rules, out.filter (fun v => v.ruleKey = r.key) = alone b p rs r
  custom_own : ∀ c ∈ named,
    out.filter (fun v => v.ruleKey = c.rule.key) = evaluateCustom b p rs c.rule
  sorted : Sorted out
  once : (out.map place).Nodup

theorem evaluateItem_collected {rs : RuleSet} {rules : List CustomRule} {names : List String}
    {out : List Violation × List String} (hkeys : (rs.rules.map Rule.key).Nodup)
    (hgolden : ∀ r ∈ rs.rules, hasCustomPrefix r.key = false) (hcustom : CustomKeys rules)
    (hnames : names.Nodup) (h : evaluateItem b p rs rules names = .ok out) :
    Collected b p rs (namedRules rules names) out.1 := by
  obtain ⟨res, hres, hsorted, hperm⟩ := evaluateItem_eq_ok h
  have hnamed := namedRules_keys hcustom hnames
  generalize namedRules rules names = named at hperm hnamed
  have hgoldenUnion : res.violations.Perm (rs.rules.flatMap (alone b p rs)) := by
    rw [← flatMap_applies]
    exact (evaluate_union hres).1
  have hgoldenKey : ∀ v ∈ res.violations, ∃ r ∈ rs.rules, v.ruleKey = r.key := by
    intro v hv
    obtain ⟨r, hr, hv⟩ := List.mem_flatMap.mp (hgoldenUnion.mem_iff.mp hv)
    exact ⟨r, hr, alone_ofRule.key v hv⟩
  have hcustomOwn : ∀ c ∈ named, OfRule c.rule (evaluateCustom b p rs c.rule) :=
    fun _ _ => evaluateCustom_spec.1
  have hcustomKey : ∀ v ∈ named.flatMap fun c => evaluateCustom b p rs c.rule,
      ∃ c ∈ named, v.ruleKey = c.rule.key := by
    intro v hv
    obtain ⟨c, hc, hv⟩ := List.mem_flatMap.mp hv
    exact ⟨c, hc, (hcustomOwn c hc).key v hv⟩
  -- the prefix tells the two apart
  have hgoldenMark : ∀ v ∈ res.violations, hasCustomPrefix v.ruleKey = false := by
    intro v hv
    obtain ⟨r, hr, hkey⟩ := hgoldenKey v hv
    rw [hkey]
    exact hgolden r hr
  have hcustomMark : ∀ v ∈ named.flatMap fun c => evaluateCustom b p rs c.rule,
      hasCustomPrefix v.ruleKey = true := by
    intro v hv
    obtain ⟨c, hc, hkey⟩ := hcustomKey v hv
    rw [hkey]
    exact hnamed.marked c hc
  have honce : (out.1.map place).Nodup := by
    rw [(hperm.map place).nodup_iff, List.map_append, List.nodup_append]
    refine ⟨golden_places hkeys hres, places_nodup CustomRule.rule hcustomOwn hnamed.distinct, ?_⟩
    intro q hq q' hq' heq
    obtain ⟨v, hv, rfl⟩ := List.mem_map.mp hq
    obtain ⟨w, hw, rfl⟩ := List.mem_map.mp hq'
    have hkey : v.ruleKey = w.ruleKey := (Prod.mk.inj heq).1
    have hv' := hgoldenMark v hv
    rw [hkey, hcustomMark w hw] at hv'
    cases hv'
  -- a test of the key keeps the order, so what it keeps is decided by its members
  have hpick : ∀ (keep : Violation → Bool) (vs : List Violation), Sorted vs →
      ((res.violations ++ named.flatMap fun c => evaluateCustom b p rs c.rule).filter keep).Perm
        vs → out.1.filter keep = vs := by
    intro keep vs hvs hsame
    exact sorted_unique ((hperm.filter keep).trans hsame) (hsorted.filter keep) hvs
      (honce.sublist (List.filter_sublist.map place))
  refine ⟨⟨res, hres, ?_⟩, ?_, ?_, ?_, hsorted, honce⟩
  · refine hpick _ _ (evaluate_union hres).2 (.of_eq ?_)
    rw [List.filter_append, List.filter_eq_self.mpr fun v hv => by rw [hgoldenMark v hv]; rfl,
      List.filter_eq_nil_iff.mpr fun v hv =>
        by rw [hcustomMark v hv]; exact Bool.false_ne_true, List.append_nil]
  · refine (hperm.filter _).trans ?_
    rw [List.filter_append, List.filter_eq_nil_iff.mpr fun v hv =>
        by rw [hgoldenMark v hv]; exact Bool.false_ne_true,
      List.filter_eq_self.mpr fun v hv => hcustomMark v hv, List.nil_append]
  · intro r hr
    refine hpick _ _ alone_sorted ?_
    have hnone : (named.flatMap fun c => evaluateCustom b p rs c.rule).filter
        (fun v => v.ruleKey = r.key) = [] := by
      refine List.filter_eq_nil_iff.mpr fun v hv => ?_
      have hmark := hcustomMark v hv
      intro hkey
      rw [of_decide_eq_true hkey, hgolden r hr] at hmark
      cases hmark
    rw [List.filter_append, hnone, List.append_nil]
    refine (hgoldenUnion.filter _).trans (.of_eq ?_)
    exact filter_own id (fun _ _ => alone_ofRule) hkeys hr
  · intro c hc
    refine hpick _ _ evaluateCustom_spec.2 (.of_eq ?_)
    have hnone : res.violations.filter (fun v => v.ruleKey = c.rule.key) = [] := by
      refine List.filter_eq_nil_iff.mpr fun v hv => ?_
      have hmark := hgoldenMark v hv
      intro hkey
      rw [of_decide_eq_true hkey, hnamed.marked c hc] at hmark
      cases hmark
    rw [List.filter_append, hnone, List.nil_append]
    exact filter_own CustomRule.rule hcustomOwn hnamed.distinct hc

theorem evaluateItem_isOk {rs : RuleSet} {rules : List CustomRule} {names : List String} :
    (∃ out, evaluateItem b p rs rules names = .ok out) ↔ ∃ res, evaluate b p rs = .ok res := by
  constructor
  · rintro ⟨out, h⟩
    obtain ⟨res, hres, _⟩ := evaluateItem_eq_ok h
    exact ⟨res, hres⟩
  · rintro ⟨res, hres⟩
    exact ⟨_, bind_eq_ok.mpr ⟨res, hres, rfl⟩⟩

/-- The violations of a set are the union of its rules' own, in one order, under any order of the
rules; an item's answer adds each named custom rule's own and changes nothing else, and no key and
path come twice. -/
theorem collect_all (b : Backend) (p : Payload) (rs : RuleSet) :
    ((∃ res, evaluate b p rs = .ok res) ↔
      ∀ r ∈ rs.rules, ∃ res, evaluate b p (only rs r) = .ok res) ∧
    (∀ res, evaluate b p rs = .ok res →
      res.violations.Perm ((rs.rules.filter (applies b p)).flatMap (alone b p rs)) ∧
        Sorted res.violations) ∧
    ((rs.rules.map Rule.key).Nodup →
      (∀ res, evaluate b p rs = .ok res → (res.violations.map place).Nodup ∧
        ∀ rs', rs.version = rs'.version → rs.rules.Perm rs'.rules →
          evaluate b p rs' = .ok res) ∧
      ((∀ r ∈ rs.rules, hasCustomPrefix r.key = false) →
        ∀ sets items rules codes, newCustomSets b sets items = .ok rules → ∀ names ∈ items,
          ((∃ out, evaluateItem b p rs (attachCodes codes rules) names = .ok out) ↔
            ∃ res, evaluate b p rs = .ok res) ∧
          ∀ out, evaluateItem b p rs (attachCodes codes rules) names = .ok out →
            Collected b p rs (namedRules (attachCodes codes rules) names) out.1)) := by
  refine ⟨evaluate_iff_only, fun res => evaluate_union, fun hkeys => ⟨fun res hres => ?_, ?_⟩⟩
  · exact ⟨golden_places hkeys hres, fun rs' hversion hrules =>
      evaluate_perm hversion hrules hkeys hres⟩
  · intro hgolden sets items rules codes hrules names hnames
    obtain ⟨hcustom, hitems⟩ := newCustomSets_keys hrules
    exact ⟨evaluateItem_isOk, fun out hout => evaluateItem_collected hkeys hgolden
      (attachCodes_keys hcustom) (hitems names hnames) hout⟩

def bareBackend : Backend where
  compileRegexp := fun _ => .error "error parsing regexp"
  parseDay := fun _ _ => .error "cannot parse"
  today := 0
  formatValue := fun _ => ""
  quote := id
  decimalText := fun _ => ""
  evalCELBool := fun _ _ => .error "cel compile"
  elementBody := fun _ _ => none

def buyerRequired : Rule where
  key := "buyer-tin-required"
  type := .required
  target := "buyer.tin"
  params := some (.obj [])
  severity := .error
  message := "Give the buyer's TIN."

def brokenWire : CustomRuleWire where
  id := "1"
  key := "custom:po-number"
  type := .format
  target := "po_number"
  params := some (.obj [("pattern", .str "(")])
  severity := "warning"
  guard := none
  message := "Give a purchase order."

theorem collect_all_sample :
    ∃ out rules, newCustomSets bareBackend [("acme", [brokenWire])] [["acme"]] = .ok rules ∧
      evaluateItem bareBackend ⟨some (.obj [])⟩ ⟨"v", 1, [buyerRequired]⟩
        (attachCodes (fun _ => []) rules) ["acme"] = .ok out ∧
      Collected bareBackend ⟨some (.obj [])⟩ ⟨"v", 1, [buyerRequired]⟩
        (namedRules (attachCodes (fun _ => []) rules) ["acme"]) out.1 := by
  have hall := collect_all bareBackend ⟨some (.obj [])⟩ ⟨"v", 1, [buyerRequired]⟩
  obtain ⟨rules, hrules⟩ : ∃ rules,
      newCustomSets bareBackend [("acme", [brokenWire])] [["acme"]] = .ok rules := by
    have hok : (newCustomSets bareBackend [("acme", [brokenWire])] [["acme"]]).toOption.isSome := by
      decide +kernel
    obtain ⟨rules, hrules⟩ := Option.isSome_iff_exists.mp hok
    exact ⟨rules, toOption_eq_some.mp hrules⟩
  have hitem := (hall.2.2 (by decide)).2 (by decide +kernel) _ _ rules (fun _ => []) hrules
    ["acme"] List.mem_cons_self
  obtain ⟨out, hout⟩ := hitem.1.mpr (hall.1.mpr (by
    intro r hr
    obtain rfl := List.mem_singleton.mp hr
    exact ⟨_, rfl⟩))
  exact ⟨out, rules, hrules, hout, hitem.2 out hout⟩

end InvoiceOs.Validation
