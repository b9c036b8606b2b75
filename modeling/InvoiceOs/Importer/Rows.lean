import InvoiceOs.Importer.Import

/-! Where the data rows of a sheet go: each is blank, or in exactly one group, and the triage cites
the rows it does not keep. -/

namespace InvoiceOs.Importer

open Lib

/-! ### Groups -/

structure Grouped.Spec (number : ℕ → String) (n : ℕ) (acc : Grouped) : Prop where
  nodup : (acc.groups.map InvoiceGroup.number).Nodup
  rows : ∀ g ∈ acc.groups, g.rowIdxs = (List.range n).filter fun i => number i = g.number
  named : ∀ g ∈ acc.groups, trimSpace g.number ≠ ""
  nonempty : ∀ g ∈ acc.groups, g.rowIdxs ≠ []
  covered : ∀ i < n, trimSpace (number i) ≠ "" → number i ∈ acc.groups.map InvoiceGroup.number
  blank : acc.ungroupable = (List.range n).filter fun i => trimSpace (number i) = ""

theorem filter_range_succ (p : ℕ → Bool) (n : ℕ) :
    (List.range (n + 1)).filter p = (List.range n).filter p ++ if p n then [n] else [] := by
  rw [List.range_succ, List.filter_append, List.filter_singleton]
  cases p n <;> rfl

theorem number_extended (i : ℕ) (g : InvoiceGroup) :
    InvoiceGroup.number { g with rowIdxs := g.rowIdxs ++ [i] } = g.number := rfl

section
variable {number : ℕ → String} {n : ℕ} {acc : Grouped}

theorem mem_addRow (h : acc.Spec number n) (hnumber : trimSpace (number n) ≠ "")
    {g : InvoiceGroup} (hg : g ∈ addRow acc.groups (number n) n) :
    (g ∈ acc.groups ∧ g.number ≠ number n) ∨
      (g.number = number n ∧
        g.rowIdxs = ((List.range n).filter fun i => number i = number n) ++ [n]) := by
  unfold addRow at hg
  split at hg
  · rename_i hmem
    have hkeys := map_key_modifyKey (number_extended n) acc.groups (number n)
    have hfound := (findKey_eq_some (hkeys.symm ▸ h.nodup)).mpr ⟨hg, rfl⟩
    rw [findKey_modifyKey (number_extended n) h.nodup] at hfound
    split at hfound
    · rename_i hkey
      obtain ⟨old, hold, rfl⟩ := Option.map_eq_some_iff.mp hfound
      obtain ⟨hin, hname⟩ := (findKey_eq_some h.nodup).mp hold
      exact Or.inr ⟨hname, by rw [h.rows old hin, hname]⟩
    · rename_i hkey
      exact Or.inl ⟨((findKey_eq_some h.nodup).mp hfound).1, hkey⟩
  · rename_i hmem
    rcases List.mem_append.mp hg with hold | hnew
    · refine Or.inl ⟨hold, fun heq => hmem ?_⟩
      exact heq ▸ List.mem_map_of_mem hold
    · have hnone : ((List.range n).filter fun i => number i = number n) = [] := by
        rw [List.filter_eq_nil_iff]
        intro i hi heq
        have heq' : number i = number n := of_decide_eq_true heq
        have hcovered := h.covered i (List.mem_range.mp hi) (heq' ▸ hnumber)
        exact hmem (heq' ▸ hcovered)
      rw [List.mem_singleton.mp hnew, hnone]
      exact Or.inr ⟨rfl, rfl⟩

theorem numbers_addRow (groups : List InvoiceGroup) (num : String) (i : ℕ) :
    (addRow groups num i).map InvoiceGroup.number =
      groups.map InvoiceGroup.number ++
        if num ∈ groups.map InvoiceGroup.number then [] else [num] := by
  unfold addRow
  split
  · rw [map_key_modifyKey (number_extended i), List.append_nil]
  · rw [List.map_append]
    rfl

theorem Grouped.Spec.step (h : acc.Spec number n) : (groupRow number acc n).Spec number (n + 1) := by
  unfold groupRow
  by_cases hblank : trimSpace (number n) = ""
  · rw [if_pos hblank]
    have hrows : ∀ g ∈ acc.groups,
        g.rowIdxs = (List.range (n + 1)).filter fun i => number i = g.number := by
      intro g hg
      have hne : number n ≠ g.number := fun heq => h.named g hg (heq ▸ hblank)
      rw [filter_range_succ, h.rows g hg]
      simp [hne]
    refine ⟨h.nodup, hrows, h.named, h.nonempty, fun i hi hne => ?_, ?_⟩
    · rcases Nat.lt_succ_iff_lt_or_eq.mp hi with hlt | rfl
      · exact h.covered i hlt hne
      · exact absurd hblank hne
    · rw [filter_range_succ, ← h.blank]
      simp [hblank]
  · rw [if_neg hblank]
    refine ⟨?_, fun g hg => ?_, fun g hg => ?_, fun g hg => ?_, fun i hi hne => ?_, ?_⟩
    · rw [numbers_addRow]
      split
      · rw [List.append_nil]
        exact h.nodup
      · rename_i hmem
        exact List.nodup_append.mpr ⟨h.nodup, List.nodup_singleton _, fun a ha b hb => by
          rintro rfl
          exact hmem (List.mem_singleton.mp hb ▸ ha)⟩
    · rw [filter_range_succ]
      rcases mem_addRow h hblank hg with ⟨hold, hne⟩ | ⟨hname, hrows⟩
      · rw [h.rows g hold]
        simp [Ne.symm hne]
      · rw [hrows, hname]
        simp
    · rcases mem_addRow h hblank hg with ⟨hold, -⟩ | ⟨hname, -⟩
      · exact h.named g hold
      · exact hname ▸ hblank
    · rcases mem_addRow h hblank hg with ⟨hold, -⟩ | ⟨-, hrows⟩
      · exact h.nonempty g hold
      · simp [hrows]
    · change number i ∈ (addRow acc.groups (number n) n).map InvoiceGroup.number
      rw [numbers_addRow, List.mem_append]
      rcases Nat.lt_succ_iff_lt_or_eq.mp hi with hlt | rfl
      · exact Or.inl (h.covered i hlt hne)
      · by_cases hmem : number i ∈ acc.groups.map InvoiceGroup.number
        · exact Or.inl hmem
        · rw [if_neg hmem]
          exact Or.inr (List.mem_singleton_self _)
    · rw [filter_range_succ, ← h.blank]
      simp [hblank]

end

theorem groupRows_spec (number : ℕ → String) (n : ℕ) : (groupRows number n).Spec number n := by
  induction n with
  | zero => exact ⟨List.nodup_nil, by simp [groupRows], by simp [groupRows], by simp [groupRows],
      by simp, rfl⟩
  | succ n ih =>
    have hstep : groupRows number (n + 1) = groupRow number (groupRows number n) n := by
      unfold groupRows
      rw [List.range_succ, List.foldl_append]
      rfl
    rw [hstep]
    exact ih.step

theorem groupRows_perm (number : ℕ → String) (n : ℕ) :
    ((groupRows number n).groups.flatMap InvoiceGroup.rowIdxs ++
      (groupRows number n).ungroupable).Perm (List.range n) := by
  have h := groupRows_spec number n
  have hgroups : ((groupRows number n).groups.flatMap InvoiceGroup.rowIdxs).Nodup := by
    rw [List.nodup_flatMap]
    refine ⟨fun g hg => ?_, ?_⟩
    · rw [h.rows g hg]
      exact List.nodup_range.filter _
    · refine (List.pairwise_map.mp h.nodup).imp_of_mem ?_
      intro g g' hg hg' hne i hi hi'
      rw [h.rows g hg, List.mem_filter] at hi
      rw [h.rows g' hg', List.mem_filter] at hi'
      exact hne ((of_decide_eq_true hi.2).symm.trans (of_decide_eq_true hi'.2))
  have hdisjoint : ∀ i ∈ (groupRows number n).groups.flatMap InvoiceGroup.rowIdxs,
      ∀ j ∈ (groupRows number n).ungroupable, i ≠ j := by
    rintro i hi j hj rfl
    obtain ⟨g, hg, hi⟩ := List.mem_flatMap.mp hi
    rw [h.rows g hg, List.mem_filter] at hi
    rw [h.blank, List.mem_filter] at hj
    have hname : number i = g.number := of_decide_eq_true hi.2
    exact h.named g hg (hname ▸ of_decide_eq_true hj.2)
  have hall : ((groupRows number n).groups.flatMap InvoiceGroup.rowIdxs ++
      (groupRows number n).ungroupable).Nodup := by
    refine List.nodup_append.mpr ⟨hgroups, ?_, hdisjoint⟩
    rw [h.blank]
    exact List.nodup_range.filter _
  refine (List.perm_ext_iff_of_nodup hall List.nodup_range).mpr fun i => ?_
  rw [List.mem_append, List.mem_flatMap]
  constructor
  · rintro (⟨g, hg, hi⟩ | hi)
    · rw [h.rows g hg] at hi
      exact (List.mem_filter.mp hi).1
    · rw [h.blank] at hi
      exact (List.mem_filter.mp hi).1
  · intro hi
    by_cases hblank : trimSpace (number i) = ""
    · right
      rw [h.blank, List.mem_filter]
      exact ⟨hi, decide_eq_true hblank⟩
    · left
      obtain ⟨g, hg, hname⟩ := List.mem_map.mp (h.covered i (List.mem_range.mp hi) hblank)
      refine ⟨g, hg, ?_⟩
      rw [h.rows g hg, List.mem_filter]
      exact ⟨hi, decide_eq_true hname.symm⟩

/-! ### Triage -/

def RowError.cited (e : RowError) : List ℕ := if e.rows = [] then [e.row] else e.rows

theorem sheetRows_perm (headerRow : ℕ) (rowIdxs : List ℕ) :
    (sheetRows headerRow rowIdxs).Perm (rowIdxs.map (sheetRow headerRow)) :=
  List.perm_insertionSort _ _

theorem length_sheetRows (headerRow : ℕ) (rowIdxs : List ℕ) :
    (sheetRows headerRow rowIdxs).length = rowIdxs.length :=
  (sheetRows_perm headerRow rowIdxs).length_eq.trans (List.length_map _)

theorem sheetRows_ne_nil {headerRow : ℕ} {rowIdxs : List ℕ} (h : rowIdxs ≠ []) :
    sheetRows headerRow rowIdxs ≠ [] := by
  intro hnil
  have hlength := length_sheetRows headerRow rowIdxs
  rw [hnil] at hlength
  exact h (List.length_eq_zero_iff.mp hlength.symm)

theorem cited_of_rows {e : RowError} {headerRow : ℕ} {rowIdxs : List ℕ} (hne : rowIdxs ≠ [])
    (h : e.rows = sheetRows headerRow rowIdxs) :
    e.cited.Perm (rowIdxs.map (sheetRow headerRow)) := by
  unfold RowError.cited
  rw [if_neg (h ▸ sheetRows_ne_nil hne), h]
  exact sheetRows_perm headerRow rowIdxs

section
variable {quote : String → String} {cols : Columns} {rows : Sheet} {headerRow : ℕ}
  {existing : String → Option Uuid}

variable (quote cols rows headerRow existing) in
theorem rows_of_classify (g : InvoiceGroup) (e : RowError)
    (h : classify quote cols rows headerRow existing g = some e) :
    e.rows = sheetRows headerRow g.rowIdxs := by
  obtain ⟨o, ho, rfl⟩ := List.exists_of_findSome?_eq_some h
  simp only [checks, List.mem_cons, List.not_mem_nil, or_false] at ho
  rcases ho with ho | ho | ho | ho | ho | ho | ho
  all_goals
    obtain ⟨v, -, rfl⟩ := Option.map_eq_some_iff.mp ho.symm
    rfl

variable (quote cols rows headerRow existing) in
def passes (g : InvoiceGroup) : Bool := (classify quote cols rows headerRow existing g).isNone

theorem foldl_triageGroup (groups : List InvoiceGroup) (t : Triage) :
    groups.foldl (triageGroup quote cols rows headerRow existing) t =
      { ready := t.ready ++ groups.filter (passes quote cols rows headerRow existing)
        errors := t.errors ++ groups.filterMap (classify quote cols rows headerRow existing)
        quarantined := t.quarantined +
          (groups.filterMap (classify quote cols rows headerRow existing)).length
        invalidRows := t.invalidRows + ((groups.filter fun g =>
          !passes quote cols rows headerRow existing g).map fun g => g.rowIdxs.length).sum } := by
  induction groups generalizing t with
  | nil => simp
  | cons g groups ih =>
    rw [List.foldl_cons, ih]
    unfold triageGroup
    cases hc : classify quote cols rows headerRow existing g with
    | none => simp [passes, hc]
    | some e =>
      simp [passes, hc, Triage.quarantine]
      omega

theorem foldl_triageBlank (blank : List ℕ) (t : Triage) :
    blank.foldl (triageBlank headerRow) t =
      { t with
        errors := t.errors ++ blank.map (blankNumberError headerRow)
        quarantined := t.quarantined + blank.length
        invalidRows := t.invalidRows + blank.length } := by
  induction blank generalizing t with
  | nil => simp
  | cons i blank ih =>
    rw [List.foldl_cons, ih]
    simp [triageBlank, Triage.quarantine]
    omega

variable (grouped : Grouped)

theorem triage_ready : (triage quote cols rows headerRow existing grouped).ready =
    grouped.groups.filter (passes quote cols rows headerRow existing) := by
  unfold triage
  rw [foldl_triageBlank, foldl_triageGroup]
  rfl

theorem triage_errors : (triage quote cols rows headerRow existing grouped).errors =
    grouped.groups.filterMap (classify quote cols rows headerRow existing) ++
      grouped.ungroupable.map (blankNumberError headerRow) := by
  unfold triage
  rw [foldl_triageBlank, foldl_triageGroup]
  rfl

theorem triage_quarantined : (triage quote cols rows headerRow existing grouped).quarantined =
    (triage quote cols rows headerRow existing grouped).errors.length := by
  rw [triage_errors]
  unfold triage
  rw [foldl_triageBlank, foldl_triageGroup]
  simp

theorem cited_groups {err : InvoiceGroup → Option RowError}
    (herr : ∀ g e, err g = some e → e.rows = sheetRows headerRow g.rowIdxs)
    (groups : List InvoiceGroup) (h : ∀ g ∈ groups, g.rowIdxs ≠ []) :
    ((groups.filterMap err).flatMap RowError.cited).Perm
      (((groups.filter fun g => !(err g).isNone).flatMap InvoiceGroup.rowIdxs).map
        (sheetRow headerRow)) := by
  induction groups with
  | nil => exact List.Perm.refl _
  | cons g groups ih =>
    have hrest := ih fun g' hg' => h g' (List.mem_cons_of_mem _ hg')
    cases hc : err g with
    | none => simpa [hc] using hrest
    | some e =>
      have hhead := cited_of_rows (h g List.mem_cons_self) (herr g e hc)
      simpa [hc] using hhead.append hrest

theorem flatMap_blank (blank : List ℕ) :
    (blank.map (blankNumberError headerRow)).flatMap RowError.cited =
      blank.map (sheetRow headerRow) := by
  rw [List.flatMap_map]
  exact List.map_eq_flatMap.symm

theorem triage_invalidRows (h : ∀ g ∈ grouped.groups, g.rowIdxs ≠ []) :
    (triage quote cols rows headerRow existing grouped).invalidRows =
      ((triage quote cols rows headerRow existing grouped).errors.flatMap
        RowError.cited).length := by
  have hcited := (cited_groups (rows_of_classify quote cols rows headerRow existing)
    grouped.groups h).length_eq
  rw [triage_errors, List.flatMap_append, List.length_append, hcited, flatMap_blank]
  unfold triage
  rw [foldl_triageBlank, foldl_triageGroup]
  simp [List.length_flatMap, passes]

theorem triage_perm (number : ℕ → String) (n : ℕ) :
    ((triage quote cols rows headerRow existing (groupRows number n)).errors.flatMap
        RowError.cited ++
      ((triage quote cols rows headerRow existing (groupRows number n)).ready.flatMap
        InvoiceGroup.rowIdxs).map (sheetRow headerRow)).Perm
      ((List.range n).map (sheetRow headerRow)) := by
  have hspec := groupRows_spec number n
  have hcited := cited_groups (rows_of_classify quote cols rows headerRow existing) _
    hspec.nonempty
  have hsplit := List.filter_append_perm (passes quote cols rows headerRow existing)
    (groupRows number n).groups
  have hgroups : (((groupRows number n).groups.filter fun g =>
        !passes quote cols rows headerRow existing g).flatMap InvoiceGroup.rowIdxs ++
      ((groupRows number n).groups.filter
        (passes quote cols rows headerRow existing)).flatMap InvoiceGroup.rowIdxs).Perm
      ((groupRows number n).groups.flatMap InvoiceGroup.rowIdxs) := by
    rw [← List.flatMap_append]
    exact (List.perm_append_comm.trans hsplit).flatMap_right _
  rw [triage_errors, triage_ready, List.flatMap_append, flatMap_blank]
  refine ((hcited.append_right _).append_right _).trans ?_
  rw [← List.map_append, ← List.map_append]
  refine List.Perm.map _ (List.Perm.trans ?_ (groupRows_perm number n))
  rw [List.append_assoc]
  refine (List.perm_append_comm.append_left _).trans ?_
  rw [← List.append_assoc]
  exact hgroups.append_right _

end
end InvoiceOs.Importer
