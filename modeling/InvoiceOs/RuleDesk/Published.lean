import InvoiceOs.RuleDesk.Past

/-! The gate always has rules to judge by: a version in force is never without rules, and one that
staff published evaluates the probes it passed, whatever is switched since. -/

namespace InvoiceOs.RuleDesk

open Lib Validation

variable {x : Externals} {e : Env} {actor : String} {s s' : Desk} {acts : List Act}

/-! ### A version in force has rules -/

def Stocked (vs : Versions) : Prop := ∀ id v start, vs.get? id = some v →
  v.standing = .sealed (some start) → v.rules.rows ≠ []

theorem Stocked.set {vs : Versions} (h : Stocked vs) {id : String} {v : Version}
    (hv : ∀ start, v.standing = .sealed (some start) → v.rules.rows ≠ []) :
    Stocked (vs.set id v) := by
  intro j w start hw hstanding
  rw [Table.get?_set] at hw
  split at hw
  · cases hw
    exact hv start hstanding
  · exact h j w start hw hstanding

theorem Move.stocked (h : Move x e actor s s') (hstocked : Stocked s.versions) :
    Stocked s'.versions := by
  have hdrafted : ∀ id v v', draftOf s.versions = some (id, v) → v'.standing = v.standing →
      Stocked (s.versions.set id v') := by
    intro id v v' hdraft hsame
    refine hstocked.set fun start hstanding => ?_
    rw [hsame, (draftOf_eq_some hdraft).2] at hstanding
    cases hstanding
  cases h with
  | unchanged => exact hstocked
  | opened src v hsrc hno hnew =>
    refine hstocked.set fun start hstanding => ?_
    cases hstanding
  | added id v key rule hdraft hnew => exact hdrafted id v _ hdraft rfl
  | edited id v key rule old hdraft hold => exact hdrafted id v _ hdraft rfl
  | removed id v key hdraft => exact hdrafted id v _ hdraft rfl
  | published id v start rs hdraft hstart hrules hload hprobe =>
    exact hstocked.set fun _ _ => hrules
  | switched id v key enabled reason hforce =>
    refine hstocked.set fun start hstanding => ?_
    have hv := (versionFor_eq_some.mp hforce).2
    have hsealed : v.standing ≠ .draft := by
      intro hdraft
      rw [show (v.switch key enabled).standing = v.standing from rfl, hdraft] at hstanding
      cases hstanding
    have hlength := (Kept.switch v key enabled).keys hsealed
    have hne := hstocked id v start hv hstanding
    intro hempty
    rw [hempty] at hlength
    exact hne (List.length_eq_zero_iff.mp hlength.symm)

theorem run_stocked (x : Externals) (acts : List Act) (h : Stocked s.versions) :
    Stocked (run x s acts).versions := by
  induction acts generalizing s with
  | nil => exact h
  | cons a acts ih => exact ih ((step_move x s a).stocked h)

/-! ### Loading -/

section
variable {lists : String → Option (List String)} {v : Version} {r r' : Rule}

theorem mem_rulesByKey : r ∈ rulesByKey x v ↔
    ∃ key row, v.rules.get? key = some row ∧ row.rule key = r := by
  unfold rulesByKey
  rw [(List.mergeSort_perm _ _).mem_iff, List.mem_map]
  constructor
  · rintro ⟨⟨key, row⟩, hmem, rfl⟩
    exact ⟨key, row, Table.mem_rows.mp hmem, rfl⟩
  · rintro ⟨key, row, hrow, rfl⟩
    exact ⟨(key, row), Table.mem_rows.mpr hrow, rfl⟩

theorem rulesByKey_ne_nil (h : v.rules.rows ≠ []) : rulesByKey x v ≠ [] := by
  intro hnil
  have hlength := (List.mergeSort_perm (v.rules.rows.map fun e => e.2.rule e.1)
    (comparing Rule.key x.keyLe)).length_eq
  rw [show List.mergeSort _ _ = rulesByKey x v from rfl, hnil, List.length_map] at hlength
  exact h (List.length_eq_zero_iff.mp hlength.symm)

theorem attachCodeList_eq_ok : attachCodeList lists r = .ok r' ↔
    (listName r = none ∧ r' = r) ∨
      ∃ list codes, listName r = some list ∧ lists list = some codes ∧ r' = { r with codes } := by
  unfold attachCodeList
  cases listName r with
  | none =>
    dsimp only
    constructor
    · intro h
      cases h
      exact .inl ⟨rfl, rfl⟩
    · rintro (⟨-, rfl⟩ | ⟨list, codes, hno, -⟩)
      · rfl
      · cases hno
  | some list =>
    dsimp only
    constructor
    · intro h
      split at h
      · cases h
      · rename_i codes hcodes
        cases h
        exact .inr ⟨list, codes, rfl, hcodes, rfl⟩
    · rintro (⟨hno, -⟩ | ⟨list', codes, heq, hcodes, rfl⟩)
      · cases hno
      · cases heq
        rw [hcodes]

structure Names (r : Rule) (list : String) : Prop where
  type : r.type = .enum
  enabled : r.enabled = true
  scope : r.scope = "document"
  param : ∃ entries, decodeParams r.params = .ok entries ∧
    stringPtr entries "list" = .ok (some list)
  nonempty : list ≠ ""

theorem listName_eq_some {list : String} : listName r = some list ↔ Names r list := by
  unfold listName
  constructor
  · intro h
    split at h
    · cases h
    · rename_i hlisted
      simp only [Bool.or_eq_true, not_or, decide_eq_true_eq, not_not, Bool.not_eq_true',
        Bool.not_eq_false] at hlisted
      split at h
      · rename_i named hparam
        split at h
        · cases h
        · rename_i hne
          obtain rfl := Option.some.inj h
          exact ⟨hlisted.1.1, hlisted.1.2, hlisted.2, bind_eq_ok.mp hparam, hne⟩
      · cases h
  · rintro ⟨htype, henabled, hscope, hparam, hne⟩
    rw [if_neg (by simp [htype, henabled, hscope]), bind_eq_ok.mpr hparam]
    exact if_neg hne

theorem attachCodeList_eq_error {err : LoadError} (h : attachCodeList lists r = .error err) :
    ∃ list, err = .codeListMissing list ∧ lists list = none ∧ Names r list := by
  unfold attachCodeList at h
  split at h
  · cases h
  · rename_i list hlist
    split at h
    · rename_i hnone
      cases h
      exact ⟨list, rfl, hnone, listName_eq_some.mp hlist⟩
    · cases h

theorem loadRuleSetByID_eq_ok {vs : Versions} {id : String} {rs : RuleSet}
    (hv : vs.get? id = some v) (h : loadRuleSetByID lists x vs id = .ok rs) :
    rulesByKey x v ≠ [] ∧ (rulesByKey x v).mapM (attachCodeList lists) = .ok rs.rules := by
  unfold loadRuleSetByID at h
  rw [hv] at h
  dsimp only at h
  split at h
  · cases h
  · rename_i hne
    refine ⟨hne, ?_⟩
    unfold attachCodeLists at h
    cases hall : (rulesByKey x v).mapM (attachCodeList lists) with
    | error err =>
      rw [hall] at h
      cases h
    | ok rules =>
      rw [hall] at h
      cases h
      rfl

theorem loadRuleSetByID_attached {vs : Versions} {id : String} (hv : vs.get? id = some v)
    (hne : v.rules.rows ≠ [])
    (hall : ∀ r ∈ rulesByKey x v, ∃ r', attachCodeList lists r = .ok r') :
    ∃ rs, loadRuleSetByID lists x vs id = .ok rs := by
  obtain ⟨rules, hrules⟩ := exists_mapM hall
  unfold loadRuleSetByID attachCodeLists
  rw [hv]
  dsimp only
  rw [if_neg (rulesByKey_ne_nil hne), hrules]
  exact ⟨_, rfl⟩

theorem loadRuleSetByID_stocked (x : Externals) (lists : String → Option (List String))
    {vs : Versions} {id : String} (hv : vs.get? id = some v)
    (hne : v.rules.rows ≠ []) :
    (∃ rs, loadRuleSetByID lists x vs id = .ok rs ∧ rs.rules ≠ []) ∨
      ∃ list, loadRuleSetByID lists x vs id = .error (.codeListMissing list) ∧
        lists list = none ∧
          ∃ key row, v.rules.get? key = some row ∧ Names (row.rule key) list := by
  have hrules : rulesByKey x v ≠ [] := rulesByKey_ne_nil hne
  unfold loadRuleSetByID attachCodeLists
  rw [hv]
  dsimp only
  rw [if_neg hrules]
  cases hall : (rulesByKey x v).mapM (attachCodeList lists) with
  | error err =>
    obtain ⟨r, hmem, hr⟩ := exists_of_mapM_error hall
    obtain ⟨list, rfl, hnone, hnames⟩ := attachCodeList_eq_error hr
    obtain ⟨key, row, hrow, rfl⟩ := mem_rulesByKey.mp hmem
    exact .inr ⟨list, rfl, hnone, key, row, hrow, hnames⟩
  | ok rules =>
    refine .inl ⟨_, rfl, ?_⟩
    have hlength := (mapM_eq_ok.mp hall).length_eq
    intro hnil
    rw [show rules = [] from hnil] at hlength
    exact hrules (List.length_eq_zero_iff.mp hlength)

end

def Unlisted (lists : String → Option (List String)) (vs : Versions) (dates : List ℤ)
    (list : String) : Prop :=
  lists list = none ∧ ∃ d ∈ dates, ∃ id v key row, ruleSetVersionFor vs d = some id ∧
    vs.get? id = some v ∧ v.rules.get? key = some row ∧ Names (row.rule key) list

/-- Whatever staff do, the gate loads a rule set that is not empty for each date it is asked for,
and fails only where a code list its rules name is missing. -/
theorem gate_loads (x : Externals) (acts : List Act) (hstocked : Stocked s.versions)
    (hdated : dated s.versions ≠ []) (lists : String → Option (List String)) (dates : List ℤ) :
    (∃ sets, loadForDates lists x (run x s acts).versions dates = .ok sets ∧
      sets.length = dates.length ∧ ∀ rs ∈ sets, rs.rules ≠ []) ∨
    ∃ list, loadForDates lists x (run x s acts).versions dates = .error (.codeListMissing list) ∧
      Unlisted lists (run x s acts).versions dates list := by
  have hstocked' := run_stocked x acts hstocked
  have hdated' : dated (run x s acts).versions ≠ [] := by
    intro hnil
    obtain ⟨v, hv⟩ := List.exists_mem_of_ne_nil _ hdated
    have hv' := run_dated x s acts v hv
    rw [hnil] at hv'
    cases hv'
  generalize hvs : (run x s acts).versions = vs at hstocked' hdated'
  -- every date has a version, and it has rules
  have hids : ∀ d ∈ dates, ∃ id, idForDate vs d = .ok id := by
    intro d _
    unfold idForDate
    cases hin : ruleSetVersionFor vs d with
    | none => exact absurd (versionFor_eq_none.mp hin) hdated'
    | some id => exact ⟨id, rfl⟩
  obtain ⟨ids, hall⟩ := exists_mapM hids
  have hstock : ∀ id ∈ ids, ∃ d ∈ dates, ruleSetVersionFor vs d = some id ∧
      ∃ v, vs.get? id = some v ∧ v.rules.rows ≠ [] := by
    intro id hid
    obtain ⟨d, hmem, hd⟩ := exists_of_mapM hall hid
    have hfor := idForDate_eq_ok hd
    refine ⟨d, hmem, hfor, ?_⟩
    obtain ⟨u, hu, rfl, -⟩ := exists_of_versionFor hfor
    obtain ⟨v, hv, hstanding, -⟩ := mem_dated.mp hu
    exact ⟨v, hv, hstocked' _ _ _ hv hstanding⟩
  unfold loadForDates
  rw [hall, show (Except.ok ids >>= fun ids => ids.mapM (loadRuleSetByID lists x vs)) =
    ids.mapM (loadRuleSetByID lists x vs) from rfl]
  cases hload : ids.mapM (loadRuleSetByID lists x vs) with
  | ok sets =>
    refine .inl ⟨sets, rfl, ?_, fun rs hrs => ?_⟩
    · exact (mapM_eq_ok.mp hload).length_eq.symm.trans (mapM_eq_ok.mp hall).length_eq.symm
    · obtain ⟨id, hid, hok⟩ := exists_of_mapM hload hrs
      obtain ⟨-, -, -, v, hv, hne⟩ := hstock id hid
      obtain ⟨rs', hrs', hrules⟩ | ⟨list, herr, -⟩ :=
        loadRuleSetByID_stocked x lists hv hne
      · rw [hok] at hrs'
        cases hrs'
        exact hrules
      · rw [hok] at herr
        cases herr
  | error err =>
    obtain ⟨id, hid, hfail⟩ := exists_of_mapM_error hload
    obtain ⟨d, hd, hfor, v, hv, hne⟩ := hstock id hid
    obtain ⟨rs, hrs, -⟩ | ⟨list, herr, hnone, key, row, hrow, hnames⟩ :=
      loadRuleSetByID_stocked x lists hv hne
    · rw [hfail] at hrs
      cases hrs
    · rw [hfail] at herr
      cases herr
      exact .inr ⟨list, rfl, hnone, d, hd, id, v, key, row, hfor, hv, hrow, hnames⟩

theorem migrated_stocked : Stocked migrated.versions := by
  intro id v start hv _
  obtain ⟨-, rfl⟩ | ⟨-, rfl⟩ := migrated_get? hv
  · nofun
  · nofun

theorem rulesByKey_of_sorted {v : Version} (h : (v.rules.rows.map fun e => e.2.rule e.1).Pairwise
    fun r r' => comparing Rule.key x.keyLe r r') :
    rulesByKey x v = v.rules.rows.map fun e => e.2.rule e.1 :=
  List.mergeSort_of_pairwise h

def listed : Desk := run bareExternals migrated
  [adaAt 11 (.switchRule "currency-listed" true "The list is agreed.")]

theorem listed_unloaded : loadForDates (fun _ => none) bareExternals listed.versions [3, 12] =
    .error (.codeListMissing "currencies") := by
  have hid : idForDate listed.versions 3 = .ok "five" := by decide +kernel
  have hid' : idForDate listed.versions 12 = .ok "six" := by decide +kernel
  have hids : [3, 12].mapM (idForDate listed.versions) = .ok ["five", "six"] :=
    mapM_eq_ok.mpr (.cons hid (.cons hid' .nil))
  have hfive : listed.versions.get? "five" = some fifth := rfl
  have hsix : listed.versions.get? "six" = some (sixth.switch "currency-listed" true) := rfl
  have hrules : rulesByKey bareExternals (sixth.switch "currency-listed" true) =
      [{ listedRule.rule "currency-listed" with enabled := true },
        currencyRule.rule "currency-required"] :=
    rulesByKey_of_sorted (List.pairwise_pair.mpr (by decide +kernel))
  have hload : loadRuleSetByID (fun _ => none) bareExternals listed.versions "five" =
      .ok ⟨"five", 5, [currencyRule.rule "currency-required"]⟩ := by
    unfold loadRuleSetByID
    rw [hfive]
    dsimp only
    rw [fifth_rules]
    rfl
  have hload' : loadRuleSetByID (fun _ => none) bareExternals listed.versions "six" =
      .error (.codeListMissing "currencies") := by
    unfold loadRuleSetByID
    rw [hsix]
    dsimp only
    rw [hrules]
    rfl
  unfold loadForDates
  rw [hids]
  change ["five", "six"].mapM
    (loadRuleSetByID (fun _ => none) bareExternals listed.versions) = _
  rw [List.mapM_cons, List.mapM_cons, hload, hload']
  rfl

theorem gate_loads_migrated :
    (∃ sets, loadForDates (fun _ => some ["NGN"]) bareExternals
      (run bareExternals migrated deskDay).versions [3, 12] = .ok sets ∧
      sets.length = 2 ∧ ∀ rs ∈ sets, rs.rules ≠ []) ∧
    ∃ list, loadForDates (fun _ => none) bareExternals listed.versions [3, 12] =
      .error (.codeListMissing list) ∧ Unlisted (fun _ => none) listed.versions [3, 12] list := by
  constructor
  · obtain h | ⟨list, -, hmissing, -⟩ := gate_loads bareExternals deskDay migrated_stocked nofun
      (fun _ => some ["NGN"]) [3, 12]
    · exact h
    · cases hmissing
  · obtain ⟨sets, hsets, -⟩ | h := gate_loads bareExternals
      [adaAt 11 (.switchRule "currency-listed" true "The list is agreed.")] migrated_stocked nofun
      (fun _ => none) [3, 12]
    · rw [show run bareExternals migrated _ = listed from rfl, listed_unloaded] at hsets
      cases hsets
    · exact h

end InvoiceOs.RuleDesk
