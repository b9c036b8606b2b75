import InvoiceOs.RuleDesk.Published

/-! What staff published was tried first: every rule on, on an empty invoice and on the sample.
Neither the day nor the codes a list holds decide whether a rule can be evaluated. -/

namespace InvoiceOs.RuleDesk

open Lib Validation

/-! ### Faults -/

section
variable {b : Backend} {p : Payload} {r : Rule} (today : ℤ) (codes : List String)

theorem resolveDateBound_ok {layout text : String} {bound : Option ℤ}
    (h : resolveDateBound b layout text = .ok bound) :
    ∃ bound', resolveDateBound { b with today } layout text = .ok bound' := by
  unfold resolveDateBound at *
  split at h
  · rename_i hblank
    rw [if_pos hblank]
    exact ⟨none, rfl⟩
  · rename_i hblank
    rw [if_neg hblank]
    split at h
    · rename_i htoday
      rw [if_pos htoday]
      exact ⟨_, rfl⟩
    · rename_i htoday
      rw [if_neg htoday]
      exact ⟨bound, h⟩

theorem judged_ok (low high : Option ℤ) (v : Option Json) (layout : String) : ∃ found,
    (match v with
      | none => Except.ok none
      | some (.str s) =>
        match b.parseDay layout s with
        | .error _ => .ok (some (violation { r with codes }))
        | .ok day =>
          if (low.any fun bound => day < bound) || (high.any fun bound => bound < day)
            then .ok (some (violation { r with codes })) else .ok none
      | some _ => .ok (some (violation { r with codes })) :
      Except String (Option Violation)) = .ok found := by
  split
  · exact ⟨_, rfl⟩
  · split
    · exact ⟨_, rfl⟩
    · split
      · exact ⟨_, rfl⟩
      · exact ⟨_, rfl⟩
  · exact ⟨_, rfl⟩

theorem dateEval_ok {found : Option Violation} (h : dateEval b p r = .ok found) :
    ∃ found', dateEval { b with today } p { r with codes } = .ok found' := by
  unfold dateEval at h
  obtain ⟨params, hparams, h⟩ := bind_eq_ok.mp h
  obtain ⟨format, hformat, h⟩ := bind_eq_ok.mp h
  obtain ⟨notBefore, hbefore, h⟩ := bind_eq_ok.mp h
  obtain ⟨notAfter, hafter, h⟩ := bind_eq_ok.mp h
  obtain ⟨relative, hrelative, h⟩ := bind_eq_ok.mp h
  obtain ⟨low, hlow, h⟩ := bind_eq_ok.mp h
  obtain ⟨high, hhigh, h⟩ := bind_eq_ok.mp h
  obtain ⟨low', hlow'⟩ := resolveDateBound_ok today hlow
  obtain ⟨high', hhigh'⟩ := resolveDateBound_ok today hhigh
  obtain ⟨found', hfound'⟩ :=
    judged_ok codes low' high' (presentValue p r.target) (if format = "" then "2006-01-02" else format)
  refine ⟨found', ?_⟩
  unfold dateEval
  exact bind_eq_ok.mpr ⟨params, hparams, bind_eq_ok.mpr ⟨format, hformat, bind_eq_ok.mpr
    ⟨notBefore, hbefore, bind_eq_ok.mpr ⟨notAfter, hafter, bind_eq_ok.mpr ⟨relative, hrelative,
      bind_eq_ok.mpr ⟨low', hlow', bind_eq_ok.mpr ⟨high', hhigh', hfound'⟩⟩⟩⟩⟩⟩⟩

theorem enumEval_ok {found : List Violation} (hcodes : r.codes ≠ [] → codes ≠ [])
    (h : enumEval b p r = .ok found) :
    ∃ found', enumEval { b with today } p { r with codes } = .ok found' := by
  unfold enumEval at h
  obtain ⟨params, hparams, h⟩ := bind_eq_ok.mp h
  obtain ⟨values, hvalues, h⟩ := bind_eq_ok.mp h
  obtain ⟨list, hlist, h⟩ := bind_eq_ok.mp h
  obtain ⟨items, hitems, h⟩ := bind_eq_ok.mp h
  cases values with
  | none =>
    cases list with
    | none => cases h
    | some list =>
      dsimp only at h
      split at h
      · cases h
      · rename_i hblank
        split at h
        · cases h
        · rename_i hitem
          split at h
          · cases h
          · rename_i hnone
            refine ⟨evalList { b with today } p { r with codes } list items, ?_⟩
            unfold enumEval
            refine bind_eq_ok.mpr ⟨params, hparams, bind_eq_ok.mpr ⟨none, hvalues, bind_eq_ok.mpr
              ⟨some list, hlist, bind_eq_ok.mpr ⟨items, hitems, ?_⟩⟩⟩⟩
            dsimp only
            rw [if_neg hblank, if_neg hitem, if_neg (hcodes hnone)]
  | some values =>
    cases list with
    | some list => cases h
    | none =>
      refine ⟨found, ?_⟩
      unfold enumEval
      exact bind_eq_ok.mpr ⟨params, hparams, bind_eq_ok.mpr ⟨some values, hvalues, bind_eq_ok.mpr
        ⟨none, hlist, bind_eq_ok.mpr ⟨items, hitems, h⟩⟩⟩⟩

theorem evalRule_ok {found : List Violation} (hcodes : r.codes ≠ [] → codes ≠ [])
    (h : evalRule b p r = .ok found) :
    ∃ found', evalRule { b with today } p { r with codes } = .ok found' := by
  unfold evalRule at h ⊢
  dsimp only
  cases htype : r.type with
  | required => exact ⟨found, by rw [htype] at h; exact h⟩
  | format => exact ⟨found, by rw [htype] at h; exact h⟩
  | enum =>
    rw [htype] at h
    exact enumEval_ok today codes hcodes h
  | range => exact ⟨found, by rw [htype] at h; exact h⟩
  | taxMath => exact ⟨found, by rw [htype] at h; exact h⟩
  | crossField => exact ⟨found, by rw [htype] at h; exact h⟩
  | conditional => exact ⟨found, by rw [htype] at h; exact h⟩
  | date =>
    rw [htype] at h
    obtain ⟨judged, hjudged, -⟩ := map_eq_ok.mp h
    obtain ⟨judged', hjudged'⟩ := dateEval_ok today codes hjudged
    rw [htype] at hjudged'
    dsimp only
    rw [hjudged']
    exact ⟨_, rfl⟩
  | cel => exact ⟨found, by rw [htype] at h; exact h⟩
  | lineSum => exact ⟨found, by rw [htype] at h; exact h⟩
  | other name =>
    rw [htype] at h
    cases h

theorem ruleViolations_ok {found : List Violation} (hcodes : r.codes ≠ [] → codes ≠ [])
    (h : ruleViolations b p r = .ok found) :
    ∃ found', ruleViolations { b with today } p { r with codes } = .ok found' := by
  unfold ruleViolations at h
  obtain ⟨chosen, hchosen, h⟩ := bind_eq_ok.mp h
  have hsame : selected { b with today } p { r with codes } = .ok chosen := hchosen
  unfold ruleViolations
  cases chosen with
  | false => exact ⟨[], bind_eq_ok.mpr ⟨false, hsame, rfl⟩⟩
  | true =>
    obtain ⟨found', hfound'⟩ := evalRule_ok today codes hcodes h
    exact ⟨found', bind_eq_ok.mpr ⟨true, hsame, hfound'⟩⟩

theorem ruleViolations_disabled (hoff : r.enabled = false) : ruleViolations b p r = .ok [] := by
  unfold ruleViolations selected
  rw [hoff]
  rfl

end

/-! ### A published version -/

section
variable {x : Externals} {e : Env} {s s' : Desk} {lists : String → Option (List String)}

def StillListed (before lists : String → Option (List String)) (r : Rule) : Prop :=
  ∀ list codes, Names { r with enabled := true } list → before list = some codes →
    ∃ codes', lists list = some codes' ∧ (codes ≠ [] → codes' ≠ [])

theorem probed {rs : RuleSet} {r : Rule} (h : probeRule x e rs r = .ok ()) :
    ∃ one, attachCodeList e.lists { r with enabled := true } = .ok one ∧
      ∀ p ∈ probes, ∃ vs, ruleViolations (x.on e.today) p one = .ok vs := by
  unfold probeRule at h
  dsimp only at h
  split at h
  · cases h
  · rename_i one hone
    refine ⟨one, hone, fun p hp => ?_⟩
    have hevaluated := forM_ok h p hp
    split at hevaluated
    · cases hevaluated
    · rename_i res hres
      obtain ⟨vs, hvs, -⟩ := evaluate_only.mp hres
      exact ⟨vs, hvs⟩

theorem probeRule_ok {rs : RuleSet} {r one : Rule}
    (hone : attachCodeList e.lists { r with enabled := true } = .ok one)
    (hprobes : ∀ p ∈ probes, ∃ vs, ruleViolations (x.on e.today) p one = .ok vs) :
    probeRule x e rs r = .ok () := by
  unfold probeRule
  dsimp only
  rw [hone]
  refine ok_of_forM fun p hp => ?_
  obtain ⟨vs, hvs⟩ := hprobes p hp
  have hres : evaluate (x.on e.today) p (only rs one) = .ok ⟨rs.version, sortViolations vs⟩ :=
    evaluate_only.mpr ⟨vs, hvs, rfl⟩
  unfold only at hres
  rw [hres]

theorem rule_switched {key : String} {row row' : RuleRow} (hcontent : row'.content = row.content)
    (henabled : row'.enabled = true) :
    row'.rule key = { row.rule key with enabled := true } := by
  cases row
  cases row'
  cases hcontent
  cases henabled
  rfl

theorem listName_on {r : Rule} {list : String} (h : listName r = some list) :
    listName { r with enabled := true } = some list := by
  have hon : r.enabled = true := by
    unfold listName at h
    split at h
    · cases h
    · rename_i hlisted
      simp only [Bool.or_eq_true, Bool.not_eq_true', not_or] at hlisted
      simpa using hlisted.1.2
  have hsame : { r with enabled := true } = r := by
    rw [← hon]
  rw [hsame, h]

theorem rule_of_probed {rs : RuleSet} {key : String} {row row' : RuleRow} {r : Rule}
    (hlists : StillListed e.lists lists (row.rule key)) (hcontent : row'.content = row.content)
    (hattached : attachCodeList e.lists (row.rule key) = .ok r)
    (hprobe : probeRule x e rs r = .ok ()) (today : ℤ) :
    ∃ r', attachCodeList lists (row'.rule key) = .ok r' ∧
      ∀ p ∈ probes, ∃ vs, ruleViolations (x.on today) p r' = .ok vs := by
  obtain ⟨one, hone, hprobed⟩ := probed hprobe
  cases henabled : row'.enabled with
  | false =>
    have hoff : (row'.rule key).enabled = false := henabled
    have hnone : listName (row'.rule key) = none := by
      unfold listName
      rw [hoff]
      simp
    exact ⟨_, attachCodeList_eq_ok.mpr (.inl ⟨hnone, rfl⟩),
      fun p _ => ⟨[], ruleViolations_disabled hoff⟩⟩
  | true =>
    have hon : row'.rule key = { row.rule key with enabled := true } := rule_switched hcontent henabled
    have hr : r = { row.rule key with codes := r.codes } := by
      obtain ⟨-, rfl⟩ | ⟨list, codes, -, -, rfl⟩ := attachCodeList_eq_ok.mp hattached
      · rfl
      · rfl
    have hname : listName { r with enabled := true } = listName (row'.rule key) := by
      rw [hon, hr]
      rfl
    obtain ⟨hnone, rfl⟩ | ⟨list, codes, hlist, hcodes, rfl⟩ := attachCodeList_eq_ok.mp hone
    · -- a rule that names no list when on names none when off
      have hbare : ({ r with enabled := true } : Rule).codes = [] := by
        obtain ⟨-, rfl⟩ | ⟨list, codes, hlist, -, rfl⟩ := attachCodeList_eq_ok.mp hattached
        · rfl
        · rw [hname, hon, listName_on hlist] at hnone
          cases hnone
      refine ⟨_, attachCodeList_eq_ok.mpr (.inl ⟨hname ▸ hnone, rfl⟩), fun p hp => ?_⟩
      obtain ⟨vs, hvs⟩ := hprobed p hp
      obtain ⟨vs', hvs'⟩ := ruleViolations_ok today [] (fun hne => absurd hbare hne) hvs
      refine ⟨vs', ?_⟩
      rw [hon]
      rw [hr] at hvs'
      exact hvs'
    · have hnames : Names { row.rule key with enabled := true } list := by
        rw [← hon]
        exact listName_eq_some.mp (hname ▸ hlist)
      obtain ⟨codes', hcodes', hkept⟩ := hlists list codes hnames hcodes
      refine ⟨_, attachCodeList_eq_ok.mpr (.inr ⟨list, codes', hname ▸ hlist, hcodes', rfl⟩),
        fun p hp => ?_⟩
      obtain ⟨vs, hvs⟩ := hprobed p hp
      obtain ⟨vs', hvs'⟩ := ruleViolations_ok today codes' hkept hvs
      refine ⟨vs', ?_⟩
      rw [hon]
      rw [hr] at hvs'
      exact hvs'

/-- A version staff published loads at once, and can be evaluated on the empty invoice and on the
sample, on every later day, whatever staff have done and switched since, for as long as the code
lists it was tried with have codes. -/
theorem published_evaluates {a : Act} {start : ℤ} (hcall : a.call = .publishDraft start)
    (hserve : serve x s a = .ok s') {id : String} {v : Version}
    (hdraft : draftOf s.versions = some (id, v))
    (hlists : ∀ r ∈ rulesByKey x v, StillListed a.env.lists lists r)
    (acts : List Act) (today : ℤ) :
    ∃ rs, loadRuleSetByID lists x (run x s' acts).versions id = .ok rs ∧ rs.rules ≠ [] ∧
      ∀ p ∈ probes, ∃ res, evaluate (x.on today) p rs = .ok res := by
  have hpublish : publishDraft x a.env a.actor s start = .ok s' := by
    unfold serve at hserve
    rw [hcall] at hserve
    exact hserve
  obtain ⟨rs₀, hstart, hrules, hload, hprobe, rfl⟩ := publishDraft_eq hpublish hdraft
  have hv := (draftOf_eq_some hdraft).1
  obtain ⟨-, hall₀⟩ := loadRuleSetByID_eq_ok hv hload
  obtain ⟨v', hv', hkept⟩ := run_kept x
    (s.record (s.versions.set id (v.seal start))
      ⟨a.actor, .published v.number start v.rules.rows.length, id⟩) acts
    (Table.get?_set_self s.versions id (v.seal start))
  have hsealed : (v.seal start).standing ≠ .draft := nofun
  -- each rule of the version, as it is now, against the one that was probed
  have hrule : ∀ r₀ ∈ rulesByKey x v', ∃ r', attachCodeList lists r₀ = .ok r' ∧
      ∀ p ∈ probes, ∃ vs, ruleViolations (x.on today) p r' = .ok vs := by
    intro r₀ hr₀
    obtain ⟨key, row', hrow', rfl⟩ := mem_rulesByKey.mp hr₀
    have hcontent := hkept.content hsealed key
    rw [hrow', Option.map_some] at hcontent
    obtain ⟨row, hrow, hsame⟩ := Option.map_eq_some_iff.mp hcontent.symm
    have hmem : row.rule key ∈ rulesByKey x v := mem_rulesByKey.mpr ⟨key, row, hrow, rfl⟩
    obtain ⟨r, hr, hattached⟩ := exists_mem_mapM hall₀ hmem
    exact rule_of_probed (hlists _ hmem) hsame.symm hattached (hprobe r hr) today
  have hne : v'.rules.rows ≠ [] := by
    have hlength := hkept.keys hsealed
    intro hnil
    rw [hnil] at hlength
    exact hrules (List.length_eq_zero_iff.mp hlength.symm)
  obtain ⟨rs, hrs, hsome⟩ | ⟨list, herr, hnone⟩ :=
    loadRuleSetByID_stocked x lists hv' hne
  · refine ⟨rs, hrs, hsome, fun p hp => evaluate_iff_only.mpr fun r' hr' => ?_⟩
    obtain ⟨-, hall⟩ := loadRuleSetByID_eq_ok hv' hrs
    obtain ⟨r₀, hr₀, hattached⟩ := exists_of_mapM hall hr'
    obtain ⟨r₁, hr₁, hprobed⟩ := hrule r₀ hr₀
    rw [hattached] at hr₁
    cases hr₁
    obtain ⟨vs, hvs⟩ := hprobed p hp
    exact ⟨_, evaluate_only.mpr ⟨vs, hvs, rfl⟩⟩
  · have hall : ∀ r₀ ∈ rulesByKey x v', ∃ r', attachCodeList lists r₀ = .ok r' := by
      intro r₀ hr₀
      obtain ⟨r', hr', -⟩ := hrule r₀ hr₀
      exact ⟨r', hr'⟩
    obtain ⟨rs, hrs⟩ := loadRuleSetByID_attached hv' hne hall
    rw [herr] at hrs
    cases hrs

end

/-! ### A publishing -/

def drafted : Desk := run bareExternals migrated [adaAt 10 .openDraft]

def seventh : Version := opened 7 sixth

theorem seventh_rules : rulesByKey bareExternals seventh =
    [listedRule.rule "currency-listed", currencyRule.rule "currency-required"] :=
  rulesByKey_of_sorted (List.pairwise_pair.mpr (by decide +kernel))

theorem drafted_loads : loadRuleSetByID currencies bareExternals drafted.versions "seven" =
    .ok ⟨"seven", 7,
      [listedRule.rule "currency-listed", currencyRule.rule "currency-required"]⟩ := by
  have hrow : drafted.versions.get? "seven" = some seventh := rfl
  unfold loadRuleSetByID
  rw [hrow]
  dsimp only
  rw [seventh_rules]
  rfl

theorem drafted_probed (rs : RuleSet) :
    ∀ r ∈ [listedRule.rule "currency-listed", currencyRule.rule "currency-required"],
      probeRule bareExternals (adaAt 10 .openDraft).env rs r = .ok () := by
  have hlisted : ∀ p : Payload, p ∈ probes → ∃ vs, ruleViolations (bareExternals.on 10) p
      { listedRule.rule "currency-listed" with enabled := true, codes := ["NGN"] } = .ok vs := by
    intro p hp
    obtain rfl | hp := List.mem_cons.mp hp
    · exact ⟨_, rfl⟩
    · obtain rfl := List.mem_singleton.mp hp
      exact ⟨_, rfl⟩
  have hrequired : ∀ p : Payload, p ∈ probes → ∃ vs, ruleViolations (bareExternals.on 10) p
      (currencyRule.rule "currency-required") = .ok vs := by
    intro p hp
    obtain rfl | hp := List.mem_cons.mp hp
    · exact ⟨_, rfl⟩
    · obtain rfl := List.mem_singleton.mp hp
      exact ⟨_, rfl⟩
  intro r hr
  obtain rfl | hr := List.mem_cons.mp hr
  · exact probeRule_ok rfl hlisted
  · obtain rfl := List.mem_singleton.mp hr
    exact probeRule_ok rfl hrequired

theorem drafted_published : ∃ s', serve bareExternals drafted (adaAt 10 (.publishDraft 11)) =
    .ok s' := by
  have hdraft : draftOf drafted.versions = some ("seven", seventh) := rfl
  exact ⟨_, publishDraft_of hdraft drafted_loads (drafted_probed _) rfl (by decide) nofun⟩

theorem published_evaluates_drafted : ∃ s', serve bareExternals drafted
    (adaAt 10 (.publishDraft 11)) = .ok s' ∧
    ∃ rs, loadRuleSetByID (fun _ => some ["NGN", "USD"]) bareExternals
      (run bareExternals s' [adaAt 11 (.switchRule "currency-listed" true "The list is agreed.")]
        ).versions "seven" = .ok rs ∧ rs.rules ≠ [] ∧
      ∀ p ∈ probes, ∃ res, evaluate (bareExternals.on 12) p rs = .ok res := by
  obtain ⟨s', hs'⟩ := drafted_published
  have hlists : ∀ r ∈ rulesByKey bareExternals seventh,
      StillListed currencies (fun _ => some ["NGN", "USD"]) r :=
    fun _ _ _ _ _ _ => ⟨["NGN", "USD"], rfl, fun _ => by decide⟩
  exact ⟨s', hs', published_evaluates rfl hs' (v := seventh) rfl hlists _ 12⟩

end InvoiceOs.RuleDesk
