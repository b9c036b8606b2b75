import InvoiceOs.RuleDesk.Moves

/-! The version in force on a date is the last one started by it: the latest start, and the highest
number of those that start together. -/

namespace InvoiceOs.RuleDesk

open Lib Validation

variable {vs vs' : Versions} {d : ℤ}

def Beats (w v : Dated) : Prop :=
  v.effectiveFrom < w.effectiveFrom ∨ v.effectiveFrom = w.effectiveFrom ∧ v.version < w.version

theorem mem_dated {v : Dated} : v ∈ dated vs ↔ ∃ row, vs.get? v.id = some row ∧
    row.standing = .sealed (some v.effectiveFrom) ∧ row.number = v.version := by
  unfold dated
  rw [List.mem_filterMap]
  constructor
  · rintro ⟨⟨id, row⟩, hmem, hrow⟩
    unfold datedRow at hrow
    dsimp only at hrow
    split at hrow
    · rename_i start hstanding
      cases hrow
      exact ⟨row, Table.mem_rows.mp hmem, hstanding, rfl⟩
    · cases hrow
  · rintro ⟨row, hrow, hstanding, hnumber⟩
    refine ⟨(v.id, row), Table.mem_rows.mpr hrow, ?_⟩
    unfold datedRow
    dsimp only
    rw [hstanding]
    dsimp only
    rw [hnumber]

theorem dated_inj {v w : Dated} (hv : v ∈ dated vs) (hw : w ∈ dated vs) (h : v.id = w.id) :
    v = w := by
  obtain ⟨row, hrow, hstanding, hnumber⟩ := mem_dated.mp hv
  obtain ⟨row', hrow', hstanding', hnumber'⟩ := mem_dated.mp hw
  rw [h, hrow'] at hrow
  cases hrow
  rw [hstanding'] at hstanding
  have hversion : v.version = w.version := hnumber.symm.trans hnumber'
  cases v
  cases w
  cases hstanding
  cases h
  cases hversion
  rfl

/-! ### The order -/

theorem isOrder_forOrder (d : ℤ) : IsOrder (forOrder d) := by
  have hle : IsOrder fun k l : ℤ => decide (k ≤ l) := isOrder_le
  have hbool : IsOrder fun k l : Bool => decide (k ≤ l) := isOrder_le
  exact (hbool.comparing _).descending.thenBy <|
    (hle.nullsLast.comparing _).descending.thenBy <|
    (hle.comparing _).thenBy (hle.comparing _).descending

theorem forOrder_iff {v w : Dated} : forOrder d v w = true ↔
    if v.effectiveFrom ≤ d then w.effectiveFrom ≤ d → ¬ Beats w v
    else d < w.effectiveFrom ∧ (v.effectiveFrom < w.effectiveFrom ∨
      v.effectiveFrom = w.effectiveFrom ∧ w.version ≤ v.version) := by
  by_cases hv : v.effectiveFrom ≤ d
  · by_cases hw : w.effectiveFrom ≤ d
    · simp [forOrder, thenBy, descending, comparing, started, nullsLast, Beats, hv, hw]
      omega
    · simp [forOrder, thenBy, descending, comparing, Beats, hv, hw]
  · by_cases hw : w.effectiveFrom ≤ d
    · have hlast : ¬ (true ≤ false) := by decide
      simp [forOrder, thenBy, descending, comparing, hv, hw, hlast]
    · simp [forOrder, thenBy, descending, comparing, started, nullsLast, hv, hw]
      omega

theorem forOrder_ties (hs : Sound vs) : ∀ v ∈ dated vs, ∀ w ∈ dated vs,
    forOrder d v w = true → forOrder d w v = true → v = w := by
  intro v hv w hw hvw hwv
  obtain ⟨row, hrow, -, hnumber⟩ := mem_dated.mp hv
  obtain ⟨row', hrow', -, hnumber'⟩ := mem_dated.mp hw
  have hversion : v.version = w.version := by
    rw [forOrder_iff] at hvw hwv
    unfold Beats at hvw hwv
    split at hvw
    · split at hwv <;> omega
    · split at hwv <;> omega
  exact dated_inj hv hw (hs.numbers _ _ _ _ hrow hrow' (by rw [hnumber, hnumber', hversion]))

/-! ### The version taken -/

theorem exists_of_versionFor {id : String} (h : ruleSetVersionFor vs d = some id) :
    ∃ v ∈ dated vs, v.id = id ∧ ∀ w ∈ dated vs, forOrder d v w = true := by
  obtain ⟨v, hv, hid⟩ := Option.map_eq_some_iff.mp h
  exact ⟨v, mem_of_leastBy hv, hid, le_of_leastBy (isOrder_forOrder d) hv⟩

theorem versionFor_of_least (hs : Sound vs) {v : Dated} (hv : v ∈ dated vs)
    (hleast : ∀ w ∈ dated vs, forOrder d v w = true) : ruleSetVersionFor vs d = some v.id := by
  unfold ruleSetVersionFor
  rw [leastBy_eq_some (isOrder_forOrder d) (forOrder_ties hs) hv hleast]
  rfl

theorem versionFor_eq_none : ruleSetVersionFor vs d = none ↔ dated vs = [] := by
  unfold ruleSetVersionFor
  rw [Option.map_eq_none_iff, leastBy_eq_none]

theorem versionFor_started (hs : Sound vs) {v : Dated} (hv : v ∈ dated vs)
    (hstart : v.effectiveFrom ≤ d) : ruleSetVersionFor vs d = some v.id ↔
      ∀ w ∈ dated vs, w.effectiveFrom ≤ d → ¬ Beats w v := by
  constructor
  · intro h w hw
    obtain ⟨u, hu, hid, hleast⟩ := exists_of_versionFor h
    obtain rfl := dated_inj hu hv hid
    have hle := forOrder_iff.mp (hleast w hw)
    rwa [if_pos hstart] at hle
  · intro h
    refine versionFor_of_least hs hv fun w hw => ?_
    rw [forOrder_iff, if_pos hstart]
    exact h w hw

theorem started_of_versionFor {id : String} (h : ruleSetVersionFor vs d = some id)
    (hstarted : ∃ w ∈ dated vs, w.effectiveFrom ≤ d) :
    ∃ v ∈ dated vs, v.id = id ∧ v.effectiveFrom ≤ d := by
  obtain ⟨v, hv, hid, hleast⟩ := exists_of_versionFor h
  obtain ⟨w, hw, hstart⟩ := hstarted
  refine ⟨v, hv, hid, ?_⟩
  by_contra hlate
  have hle := forOrder_iff.mp (hleast w hw)
  rw [if_neg hlate] at hle
  omega

theorem versionFor_past (hs' : Sound vs') {t : ℤ} (hkept : ∀ v ∈ dated vs, v ∈ dated vs')
    (hlater : ∀ w ∈ dated vs', w ∈ dated vs ∨ t ≤ w.effectiveFrom)
    (hearly : ∃ v ∈ dated vs, v.effectiveFrom < t) (hd : d < t) :
    ruleSetVersionFor vs' d = ruleSetVersionFor vs d := by
  obtain ⟨v₀, hv₀, hbefore⟩ := hearly
  cases hold : ruleSetVersionFor vs d with
  | none =>
    rw [versionFor_eq_none.mp hold] at hv₀
    cases hv₀
  | some id =>
    obtain ⟨v, hv, rfl, hleast⟩ := exists_of_versionFor hold
    refine versionFor_of_least hs' (hkept v hv) fun w hw => ?_
    obtain hw | hw := hlater w hw
    · exact hleast w hw
    · have hfirst := forOrder_iff.mp (hleast v₀ hv₀)
      rw [forOrder_iff]
      split
      · omega
      · rename_i hlate
        rw [if_neg hlate] at hfirst
        omega

end InvoiceOs.RuleDesk
