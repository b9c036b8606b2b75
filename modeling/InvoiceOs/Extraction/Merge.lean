import InvoiceOs.Extraction.Review

/-! What the merged detail holds under a field's name: its reading where the latest correction is
an undo or there is none, else the reading settled by that correction. -/

namespace InvoiceOs.Extraction

open Lib

def entry (fields : List ExtractionFieldState) (name : String) : Option ExtractionFieldState :=
  findKey ExtractionFieldState.name fields name

def names (fields : List ExtractionFieldState) : List String :=
  fields.map ExtractionFieldState.name

/-! ### The readings -/

def Distinct (rows : List FieldResultRow) : Prop :=
  ((rows.filter fun r => r.candidateRank = 0).map FieldResultRow.fieldName).Nodup

section
variable {rows : List FieldResultRow}

theorem withAlternative_name (r : FieldResultRow) (f : ExtractionFieldState) :
    (withAlternative r f).name = f.name := rfl

theorem withAlternative_value (r : FieldResultRow) (f : ExtractionFieldState) :
    (withAlternative r f).value = f.value := rfl

theorem resultRows_perm (rows : List FieldResultRow) : (resultRows rows).Perm rows :=
  List.perm_insertionSort _ rows

theorem names_detailFields (rows : List FieldResultRow) :
    names (detailFields rows) =
      ((resultRows rows).filter fun r => r.candidateRank = 0).map FieldResultRow.fieldName := by
  have hkept : names (detailFields rows) =
      names (((resultRows rows).filter fun r => r.candidateRank = 0).map decided) :=
    map_key_foldl withAlternative_name _ _
  rw [hkept]
  unfold names
  rw [List.map_map]
  rfl

theorem decisions_perm (rows : List FieldResultRow) :
    ((resultRows rows).filter fun r => r.candidateRank = 0).Perm
      (rows.filter fun r => r.candidateRank = 0) :=
  (resultRows_perm rows).filter _

theorem detailFields_nodup (h : Distinct rows) : (names (detailFields rows)).Nodup := by
  rw [names_detailFields]
  exact ((decisions_perm rows).map _).nodup_iff.mpr h

theorem rankZero_eq (h : Distinct rows) (name : String) : rankZero rows name =
    findKey FieldResultRow.fieldName (rows.filter fun r => r.candidateRank = 0) name := by
  have hmem : ∀ r, rankZero rows name = some r →
      r ∈ rows.filter (fun r => r.candidateRank = 0) ∧ r.fieldName = name := by
    intro r hr
    have hr := (List.mem_insertionSort _).mp (List.mem_of_mem_head? hr)
    simp only [List.mem_filter, decide_eq_true_eq] at hr ⊢
    exact ⟨⟨hr.1, hr.2.2⟩, hr.2.1⟩
  cases hzero : rankZero rows name with
  | some r => exact ((findKey_eq_some h).mpr (hmem r hzero)).symm
  | none =>
    symm
    rw [findKey_eq_none, List.mem_map]
    rintro ⟨r, hr, rfl⟩
    have hempty := List.head?_eq_none_iff.mp hzero
    have hr' : r ∈ List.insertionSort (fun a b => ((compare b.createdAt a.createdAt).then
        (compare b.id a.id)).isLE = true)
        (rows.filter fun r' => r'.fieldName = r.fieldName ∧ r'.candidateRank = 0) := by
      rw [List.mem_insertionSort]
      simp only [List.mem_filter, decide_eq_true_eq] at hr ⊢
      exact ⟨hr.1, trivial, hr.2⟩
    rw [hempty] at hr'
    cases hr'

theorem detailFields_value (h : Distinct rows) (name : String) :
    (entry (detailFields rows) name).map ExtractionFieldState.value =
      (rankZero rows name).map FieldResultRow.value := by
  have hdecided : names (((resultRows rows).filter fun r => r.candidateRank = 0).map decided) =
      names (detailFields rows) := (map_key_foldl withAlternative_name _ _).symm
  have hnodup := detailFields_nodup h
  rw [← hdecided] at hnodup
  have hkept : (entry (detailFields rows) name).map ExtractionFieldState.value =
      (entry (((resultRows rows).filter fun r => r.candidateRank = 0).map decided) name).map
        ExtractionFieldState.value :=
    map_findKey_foldl withAlternative_name withAlternative_value hnodup _ _
  rw [hkept, rankZero_eq h, ← findKey_perm h (decisions_perm rows).symm]
  unfold entry findKey
  rw [List.find?_map, Option.map_map]
  rfl

theorem ruleBreakField_frame (b : RuleBreakRow) (f : ExtractionFieldState) :
    (ruleBreakField b f).name = f.name ∧ (ruleBreakField b f).value = f.value := by
  unfold ruleBreakField
  split
  · exact ⟨rfl, rfl⟩
  · exact ⟨rfl, rfl⟩

def readings (rows : List FieldResultRow) (breaks : List RuleBreakRow) :
    List ExtractionFieldState :=
  applyRuleBreaks (detailFields rows) breaks

theorem readings_nodup (h : Distinct rows) (breaks : List RuleBreakRow) :
    (names (readings rows breaks)).Nodup := by
  have hkept : names (readings rows breaks) = names (detailFields rows) :=
    map_key_foldl (fun b f => (ruleBreakField_frame b f).1) _ _
  rw [hkept]
  exact detailFields_nodup h

theorem readings_value (h : Distinct rows) (breaks : List RuleBreakRow) (name : String) :
    (entry (readings rows breaks) name).bind ExtractionFieldState.value =
      rankZeroReading rows name := by
  have hkept : (entry (readings rows breaks) name).map ExtractionFieldState.value =
      (entry (detailFields rows) name).map ExtractionFieldState.value :=
    map_findKey_foldl (fun b f => (ruleBreakField_frame b f).1)
      (fun b f => (ruleBreakField_frame b f).2) (detailFields_nodup h) _ _
  rw [detailFields_value h] at hkept
  have hbind := congrArg (fun value => value.bind id) hkept
  unfold rankZeroReading
  simpa only [Option.bind_map, Function.id_comp] using hbind

end

/-! ### The corrections -/

def Ordered (log : List Correction) : Prop :=
  log.Pairwise fun a b => a.seq < b.seq

def latest (log : List Correction) (field : String) : Option Correction :=
  latestOf (fieldCorrections log field)

section
variable {log : List Correction} {field : String}

theorem Ordered.seq_inj (h : Ordered log) {a b : Correction} (ha : a ∈ log) (hb : b ∈ log)
    (hseq : a.seq = b.seq) : a = b := by
  have hnodup : (log.map Correction.seq).Nodup := by
    unfold List.Nodup
    rw [List.pairwise_map]
    exact List.Pairwise.imp (fun hlt => ne_of_lt hlt) h
  exact List.inj_on_of_nodup_map hnodup ha hb hseq

theorem fieldCorrections_eq (h : Ordered log) (field : String) :
    fieldCorrections log field = (log.filter fun c => c.fieldName = field).reverse := by
  have htotal : Std.Total fun a b : Correction => b.seq ≤ a.seq :=
    ⟨fun a b => Nat.le_total b.seq a.seq⟩
  have htrans : IsTrans Correction fun a b => b.seq ≤ a.seq :=
    ⟨fun _ _ _ hab hbc => Nat.le_trans hbc hab⟩
  have hperm : (fieldCorrections log field).Perm
      (log.filter fun c => c.fieldName = field).reverse :=
    (List.perm_insertionSort _ _).trans (List.reverse_perm _).symm
  have hsorted : (log.filter fun c => c.fieldName = field).reverse.Pairwise
      fun a b => b.seq ≤ a.seq := by
    rw [List.pairwise_reverse]
    exact (List.Pairwise.filter _ h).imp fun hlt => hlt.le
  refine hperm.eq_of_pairwise (fun a b ha hb hba hab => ?_)
    (List.pairwise_insertionSort _ _) hsorted
  have ha := List.mem_of_mem_filter ((List.mem_insertionSort _).mp ha)
  have hb := List.mem_of_mem_filter (List.mem_reverse.mp hb)
  exact h.seq_inj ha hb (Nat.le_antisymm hab hba)

theorem mem_fieldCorrections {c : Correction} :
    c ∈ fieldCorrections log field ↔ c ∈ log ∧ c.fieldName = field := by
  unfold fieldCorrections
  rw [List.mem_insertionSort, List.mem_filter, decide_eq_true_eq]

theorem latest_fieldName {c : Correction} (h : latest log field = some c) : c.fieldName = field := by
  unfold latest at h
  cases hrows : fieldCorrections log field with
  | nil =>
    rw [hrows] at h
    cases h
  | cons newest older =>
    rw [hrows] at h
    cases h
    have hmem : newest ∈ fieldCorrections log field := by
      rw [hrows]
      exact List.mem_cons_self
    exact (mem_fieldCorrections.mp hmem).2

theorem latest_eq_none : latest log field = none ↔ field ∉ log.map Correction.fieldName := by
  have hmem : field ∈ log.map Correction.fieldName ↔ ∃ c, c ∈ fieldCorrections log field := by
    rw [List.mem_map]
    exact exists_congr fun c => mem_fieldCorrections.symm
  rw [hmem]
  unfold latest
  cases fieldCorrections log field with
  | nil => simp [latestOf]
  | cons c older => simp [latestOf]

theorem fieldNames_latestCorrections (log : List Correction) :
    (latestCorrectionsPerField log).map Correction.fieldName =
      (log.map Correction.fieldName).dedup.insertionSort (· ≤ ·) := by
  have hall : ∀ fields : List String, (∀ field ∈ fields, field ∈ log.map Correction.fieldName) →
      (fields.filterMap fun field => latestOf (fieldCorrections log field)).map
        Correction.fieldName = fields := by
    intro fields hfields
    induction fields with
    | nil => rfl
    | cons field fields ih =>
      obtain ⟨hhead, htail⟩ := List.forall_mem_cons.mp hfields
      cases hc : latest log field with
      | none => exact absurd hhead (latest_eq_none.mp hc)
      | some c =>
        have hc' : latestOf (fieldCorrections log field) = some c := hc
        rw [List.filterMap_cons, hc', List.map_cons, ih htail, latest_fieldName hc]
  refine hall _ fun field hfield => ?_
  exact List.mem_dedup.mp ((List.mem_insertionSort _).mp hfield)

theorem latestCorrections_nodup (log : List Correction) :
    ((latestCorrectionsPerField log).map Correction.fieldName).Nodup := by
  rw [fieldNames_latestCorrections]
  exact (List.perm_insertionSort _ _).nodup_iff.mpr (List.nodup_dedup _)

theorem mem_latestCorrections {c : Correction} :
    c ∈ latestCorrectionsPerField log ↔ latest log c.fieldName = some c := by
  unfold latestCorrectionsPerField
  rw [List.mem_filterMap]
  constructor
  · rintro ⟨field, -, hc⟩
    have hname : c.fieldName = field := latest_fieldName hc
    rw [hname]
    exact hc
  · intro hc
    refine ⟨c.fieldName, ?_, hc⟩
    rw [List.mem_insertionSort, List.mem_dedup]
    by_contra hno
    rw [latest_eq_none.mpr hno] at hc
    cases hc

theorem findKey_latestCorrections (log : List Correction) (field : String) :
    findKey Correction.fieldName (latestCorrectionsPerField log) field = latest log field := by
  refine Option.ext fun c => ?_
  rw [findKey_eq_some (latestCorrections_nodup log), mem_latestCorrections]
  constructor
  · rintro ⟨hc, rfl⟩
    exact hc
  · intro hc
    have hname := latest_fieldName hc
    rw [hname]
    exact ⟨hc, rfl⟩

end

/-! ### The merge -/

def merged (reading : Option ExtractionFieldState) (name : String) (c : Option Correction) :
    Option ExtractionFieldState :=
  match c with
  | none => reading
  | some c =>
    if c.method = .undone then reading else some (settle (reading.getD { name := name }) c)

section
variable {acc : List ExtractionFieldState × List ExtractionFieldState} {c : Correction}

theorem settle_name (f : ExtractionFieldState) (c : Correction) : (settle f c).name = f.name := rfl

def Apart (acc : List ExtractionFieldState × List ExtractionFieldState) : Prop :=
  (names (acc.1 ++ acc.2)).Nodup

theorem mergeCorrection_read (hmem : c.fieldName ∈ names acc.1) (hmethod : c.method ≠ .undone) :
    mergeCorrection acc c =
      (modifyKey ExtractionFieldState.name acc.1 c.fieldName fun f => settle f c, acc.2) := by
  unfold mergeCorrection modifyKey
  rw [if_neg hmethod]
  cases hi : indexOfKey ExtractionFieldState.name acc.1 c.fieldName with
  | some i => rfl
  | none => exact absurd hmem (indexOfKey_eq_none.mp hi)

theorem mergeCorrection_added (hmem : c.fieldName ∉ names acc.1) (hmethod : c.method ≠ .undone) :
    mergeCorrection acc c = (acc.1, acc.2 ++ [settle { name := c.fieldName } c]) := by
  unfold mergeCorrection
  rw [if_neg hmethod, indexOfKey_eq_none.mpr hmem]

theorem entry_append (fields fields' : List ExtractionFieldState) (name : String) :
    entry (fields ++ fields') name = (entry fields name).or (entry fields' name) :=
  findKey_append fields fields' name

theorem names_append (fields fields' : List ExtractionFieldState) :
    names (fields ++ fields') = names fields ++ names fields' := List.map_append

theorem entry_mergeCorrection (hapart : Apart acc) (hfresh : c.fieldName ∉ names acc.2)
    (name : String) : entry ((mergeCorrection acc c).1 ++ (mergeCorrection acc c).2) name =
      if name = c.fieldName then merged (entry (acc.1 ++ acc.2) name) name (some c)
      else entry (acc.1 ++ acc.2) name := by
  have hread : (names acc.1).Nodup := by
    unfold Apart at hapart
    rw [names_append] at hapart
    exact hapart.of_append_left
  by_cases hmethod : c.method = .undone
  · have hsame : mergeCorrection acc c = acc := if_pos hmethod
    rw [hsame]
    unfold merged
    simp only [hmethod, if_true, ite_self]
  · by_cases hmem : c.fieldName ∈ names acc.1
    · rw [mergeCorrection_read hmem hmethod, entry_append, entry_append]
      have hwrite := findKey_modifyKey (settle_name · c) hread c.fieldName name
      unfold entry at *
      rw [hwrite]
      split
      · rename_i hname
        rw [hname]
        cases hf : findKey ExtractionFieldState.name acc.1 c.fieldName with
        | none => exact absurd hmem (findKey_eq_none.mp hf)
        | some f => simp only [Option.map_some, Option.some_or, merged, if_neg hmethod,
            Option.getD_some]
      · rfl
    · rw [mergeCorrection_added hmem hmethod]
      have hassoc : acc.1 ++ (acc.2 ++ [settle { name := c.fieldName } c]) =
          (acc.1 ++ acc.2) ++ [settle { name := c.fieldName } c] := (List.append_assoc _ _ _).symm
      dsimp only
      rw [hassoc, entry_append]
      split
      · rename_i hname
        have hnone : entry (acc.1 ++ acc.2) name = none := by
          rw [hname]
          refine findKey_eq_none.mpr ?_
          change c.fieldName ∉ names (acc.1 ++ acc.2)
          rw [names_append, List.mem_append, not_or]
          exact ⟨hmem, hfresh⟩
        rw [hnone]
        simp [merged, hmethod, entry, findKey, settle_name, hname]
      · rename_i hname
        have hnone : entry [settle { name := c.fieldName } c] name = none :=
          findKey_eq_none.mpr (by simpa [settle_name] using hname)
        rw [hnone, Option.or_none]

theorem names_mergeCorrection (acc : List ExtractionFieldState × List ExtractionFieldState)
    (c : Correction) : names (mergeCorrection acc c).1 = names acc.1 ∧
      (names (mergeCorrection acc c).2 = names acc.2 ∨
        c.fieldName ∉ names acc.1 ∧
          names (mergeCorrection acc c).2 = names acc.2 ++ [c.fieldName]) := by
  by_cases hmethod : c.method = .undone
  · have hsame : mergeCorrection acc c = acc := if_pos hmethod
    rw [hsame]
    exact ⟨rfl, .inl rfl⟩
  · by_cases hmem : c.fieldName ∈ names acc.1
    · rw [mergeCorrection_read hmem hmethod]
      exact ⟨map_key_modifyKey (settle_name · c) _ _, .inl rfl⟩
    · rw [mergeCorrection_added hmem hmethod]
      exact ⟨rfl, .inr ⟨hmem, names_append _ _⟩⟩

theorem apart_mergeCorrection (hapart : Apart acc) (hfresh : c.fieldName ∉ names acc.2) :
    Apart (mergeCorrection acc c) := by
  unfold Apart at *
  rw [names_append] at *
  obtain ⟨hread, hadded | ⟨hmem, hadded⟩⟩ := names_mergeCorrection acc c
  · rw [hread, hadded]
    exact hapart
  · rw [hread, hadded, ← List.append_assoc, List.nodup_append]
    refine ⟨hapart, List.nodup_singleton _, ?_⟩
    rintro name hname _ hlast rfl
    rw [List.mem_singleton.mp hlast] at hname
    exact (List.mem_append.mp hname).elim hmem hfresh

theorem foldl_mergeCorrection {cs : List Correction} (hnodup : (cs.map Correction.fieldName).Nodup)
    (hapart : Apart acc) (hfresh : ∀ c ∈ cs, c.fieldName ∉ names acc.2) :
    Apart (cs.foldl mergeCorrection acc) ∧ ∀ name,
      entry ((cs.foldl mergeCorrection acc).1 ++ (cs.foldl mergeCorrection acc).2) name =
        merged (entry (acc.1 ++ acc.2) name) name (findKey Correction.fieldName cs name) := by
  induction cs generalizing acc with
  | nil => exact ⟨hapart, fun _ => rfl⟩
  | cons c cs ih =>
    obtain ⟨hnew, hrest⟩ := List.nodup_cons.mp hnodup
    have hmine := hfresh c List.mem_cons_self
    have hkeep : ∀ c' ∈ cs, c'.fieldName ∉ names (mergeCorrection acc c).2 := by
      intro c' hc'
      have hother := hfresh c' (List.mem_cons_of_mem _ hc')
      obtain ⟨-, hadded | ⟨-, hadded⟩⟩ := names_mergeCorrection acc c
      · rw [hadded]
        exact hother
      · rw [hadded, List.mem_append, List.mem_singleton, not_or]
        refine ⟨hother, fun hsame => hnew ?_⟩
        rw [← hsame]
        exact List.mem_map_of_mem hc'
    obtain ⟨hlast, hentry⟩ := ih hrest (apart_mergeCorrection hapart hmine) hkeep
    refine ⟨hlast, fun name => ?_⟩
    rw [List.foldl_cons, hentry, entry_mergeCorrection hapart hmine]
    unfold findKey
    rw [List.find?_cons]
    by_cases hname : c.fieldName = name
    · have hnone : findKey Correction.fieldName cs name = none :=
        findKey_eq_none.mpr (hname ▸ hnew)
      unfold findKey at hnone
      rw [hnone]
      simp [hname, merged]
    · simp [hname, Ne.symm hname]

end

section
variable (parseLineItemsJSON : String → Option (List LineItemInput)) {rows : List FieldResultRow}
  {log : List Correction}

theorem expandLineCorrection_none {corrections : List Correction}
    (h : ∀ c ∈ corrections, c.fieldName ≠ lineItemsField) (fields : List ExtractionFieldState) :
    expandLineCorrection parseLineItemsJSON fields corrections = fields := by
  have hnone : (corrections.reverse.find? fun c =>
      c.fieldName = lineItemsField ∧ c.method ≠ .undone) = none := by
    rw [List.find?_eq_none]
    intro c hc hline
    exact h c (List.mem_reverse.mp hc) (of_decide_eq_true hline).1
  unfold expandLineCorrection
  simp only [hnone]

theorem mergedDetail_spec (hrows : Distinct rows) (breaks : List RuleBreakRow)
    (hlog : ∀ c ∈ log, c.fieldName ≠ lineItemsField) :
    (names (mergedDetail parseLineItemsJSON rows breaks log)).Nodup ∧
      ∀ name, entry (mergedDetail parseLineItemsJSON rows breaks log) name =
        merged (entry (readings rows breaks) name) name (latest log name) := by
  have hapart : Apart (readings rows breaks, []) := by
    unfold Apart
    rw [List.append_nil]
    exact readings_nodup hrows breaks
  obtain ⟨hlast, hentry⟩ := foldl_mergeCorrection (latestCorrections_nodup log) hapart
    fun _ _ hmem => List.not_mem_nil hmem
  have hexpand : ∀ c ∈ latestCorrectionsPerField log, c.fieldName ≠ lineItemsField := by
    intro c hc
    have hsome : latest log c.fieldName ≠ none := by
      rw [mem_latestCorrections.mp hc]
      exact Option.some_ne_none c
    rw [Ne, latest_eq_none, not_not] at hsome
    obtain ⟨c', hc', hname⟩ := List.mem_map.mp hsome
    rw [← hname]
    exact hlog c' hc'
  unfold mergedDetail mergeCorrections
  simp only [expandLineCorrection_none parseLineItemsJSON hexpand]
  have hperm := ((List.perm_insertionSort (fun a b : ExtractionFieldState => a.name ≤ b.name)
    ((latestCorrectionsPerField log).foldl mergeCorrection (readings rows breaks, [])).2).symm.append_left
      ((latestCorrectionsPerField log).foldl mergeCorrection (readings rows breaks, [])).1)
  refine ⟨(hperm.map _).nodup_iff.mp hlast, fun name => ?_⟩
  rw [← findKey_latestCorrections, ← List.append_nil (readings rows breaks), ← hentry name]
  exact findKey_perm hlast hperm name

end
end InvoiceOs.Extraction
