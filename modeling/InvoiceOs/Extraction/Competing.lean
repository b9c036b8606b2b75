import InvoiceOs.Extraction.Reconcile
import InvoiceOs.Extraction.Reordered
import InvoiceOs.Lib.Digits
import Mathlib.Tactic.Linarith

/-! Competing readings of a field are never silently dropped: each stays among the answers, unless
the arithmetic of the document singles one out or the cut before the decision hid it. -/

namespace InvoiceOs.Extraction

open Lib

variable {R : Runtime} {D : Decimals} {toLower : Char → Char}

/-! ### Rows by their name -/

theorem nodup_headerFields : headerFields.Nodup := by decide +kernel

def Rowed (row : String → FieldResult) : Prop := ∀ n, (row n).name = n

theorem updateFirst_map {row : String → FieldResult} (hrow : Rowed row) {p : FieldResult → Bool}
    {m : String} (hp : ∀ r, p r = true → r.name = m) (f : FieldResult → FieldResult)
    {names : List String} (hnodup : names.Nodup) :
    updateFirst p f (names.map row) =
      names.map fun n => if p (row n) then f (row n) else row n := by
  induction names with
  | nil => rfl
  | cons n names ih =>
    obtain ⟨hn, hnames⟩ := List.nodup_cons.mp hnodup
    rw [List.map_cons, updateFirst, List.map_cons]
    by_cases hpn : p (row n) = true
    · have hrest : ∀ k ∈ names, (if p (row k) then f (row k) else row k) = row k := by
        intro k hk
        refine if_neg fun hpk => hn ?_
        have hsame : k = n := (hrow k).symm.trans ((hp _ hpk).trans ((hp _ hpn).symm.trans (hrow n)))
        rwa [← hsame]
      rw [if_pos hpn, if_pos hpn, List.map_congr_left hrest]
    · rw [if_neg hpn, if_neg hpn, ih hnames]

theorem find?_map_row {row : String → FieldResult} (hrow : Rowed row) {names : List String}
    {n : String} (hn : n ∈ names) :
    (names.map row).find? (fun r => r.name = n) = some (row n) := by
  induction names with
  | nil => cases hn
  | cons k names ih =>
    by_cases hk : k = n
    · subst hk
      exact List.find?_cons_of_pos (decide_eq_true (hrow k))
    · have hlater := (List.mem_cons.mp hn).resolve_left (Ne.symm hk)
      rw [List.map_cons, List.find?_cons_of_neg (by rw [hrow k]; simpa using hk)]
      exact ih hlater

/-! ### The stage, row by row -/

def checkRow (D : Decimals) (lines : List DocLine) (r : FieldResult) : FieldResult :=
  if (lineTotals D lines).isEmpty then r
  else if r.name = "subtotal" && r.reason = none then
    match parseMoney D r.value with
    | some printed =>
      if exceedsTolerance D |(lineTotals D lines).sum - printed| then
        { r with reason := some .inconsistent }
      else r
    | none => r
  else r

theorem checkRow_cases (lines : List DocLine) (r : FieldResult) :
    checkRow D lines r = r ∨ r.name = "subtotal" ∧ r.reason = none ∧
      checkRow D lines r = { r with reason := some .inconsistent } := by
  unfold checkRow
  split
  · exact .inl rfl
  split
  · rename_i hsub
    obtain ⟨hname, hreason⟩ := Bool.and_eq_true_iff.mp hsub
    split
    · split
      · exact .inr ⟨of_decide_eq_true hname, of_decide_eq_true hreason, rfl⟩
      · exact .inl rfl
    · exact .inl rfl
  · exact .inl rfl

@[simp] theorem checkRow_name (lines : List DocLine) (r : FieldResult) :
    (checkRow D lines r).name = r.name := by
  rcases checkRow_cases (D := D) lines r with h | ⟨-, -, h⟩ <;> rw [h]

theorem checkRow_of_ne {lines : List DocLine} {r : FieldResult} (h : r.name ≠ "subtotal") :
    checkRow D lines r = r :=
  (checkRow_cases lines r).resolve_right fun hsub => h hsub.1

theorem checkRow_of_doubt {lines : List DocLine} {r : FieldResult} (h : r.reason ≠ none) :
    checkRow D lines r = r :=
  (checkRow_cases lines r).resolve_right fun hsub => h hsub.2.1

theorem checkSubtotal_map {row : String → FieldResult} (hrow : Rowed row) (lines : List DocLine) :
    checkSubtotal D lines (headerFields.map row) =
      headerFields.map fun n => checkRow D lines (row n) := by
  unfold checkSubtotal
  by_cases hempty : (lineTotals D lines).isEmpty = true
  · rw [if_pos hempty]
    exact List.map_congr_left fun n _ => by rw [checkRow, if_pos hempty]
  · have hp : ∀ r : FieldResult, (r.name = "subtotal" && r.reason = none) = true →
        r.name = "subtotal" := fun r h => of_decide_eq_true (Bool.and_eq_true_iff.mp h).1
    rw [if_neg hempty, updateFirst_map hrow hp _ nodup_headerFields]
    exact List.map_congr_left fun n _ => (if_neg hempty).symm

@[simp] theorem decideField_name (cands : List Candidate) (field : String) :
    (decideField cands field).name = field := by
  unfold decideField
  split <;> rfl

def decidedRow (D : Decimals) (input : Input) (n : String) : FieldResult :=
  checkRow D input.lines (decideField input.candidates n)

theorem rowed_decidedRow (input : Input) : Rowed (decidedRow D input) := by
  intro n
  rw [decidedRow, checkRow_name, decideField_name]

@[simp] theorem corroborateTotal_name (res : FieldResult) (decided : List FieldResult) :
    (corroborateTotal D res decided).name = res.name := by
  unfold corroborateTotal
  split
  · rfl
  split
  · rfl
  · split <;> rfl

@[simp] theorem findTotal_name (res : FieldResult) (decided : List FieldResult)
    (cands : List Candidate) (pages : List TokenPage) :
    (findTotal D res decided cands pages).name = res.name := by
  unfold findTotal
  dsimp only
  split
  · rfl
  split
  · rfl
  split
  · rfl
  · split <;> rfl

def weighedRow (D : Decimals) (input : Input) (n : String) : FieldResult :=
  if n = totalField then
    corroborateTotal D (decidedRow D input n) (headerFields.map (decidedRow D input))
  else decidedRow D input n

theorem rowed_weighedRow (input : Input) : Rowed (weighedRow D input) := by
  intro n
  unfold weighedRow
  split
  · rw [corroborateTotal_name, rowed_decidedRow]
  · exact rowed_decidedRow input n

def headerRow (D : Decimals) (input : Input) (n : String) : FieldResult :=
  if n = totalField then
    findTotal D (weighedRow D input n) (headerFields.map (weighedRow D input)) input.candidates
      input.pages
  else weighedRow D input n

theorem rowed_headerRow (input : Input) : Rowed (headerRow D input) := by
  intro n
  unfold headerRow
  split
  · rw [findTotal_name, rowed_weighedRow]
  · exact rowed_weighedRow input n

theorem headerRows_eq (input : Input) :
    headerRows D input = headerFields.map (headerRow D input) := by
  have hp : ∀ r : FieldResult, decide (r.name = totalField) = true → r.name = totalField :=
    fun r h => of_decide_eq_true h
  have hchecked : checkSubtotal D input.lines (headerFields.map (decideField input.candidates)) =
      headerFields.map (decidedRow D input) :=
    checkSubtotal_map (fun n => decideField_name _ n) input.lines
  unfold headerRows
  dsimp only
  rw [hchecked, updateFirst_map (rowed_decidedRow input) hp _ nodup_headerFields]
  have hweighed : (fun n => if decide ((decidedRow D input n).name = totalField) = true then
        corroborateTotal D (decidedRow D input n) (headerFields.map (decidedRow D input))
      else decidedRow D input n) = weighedRow D input := by
    funext n
    rw [rowed_decidedRow, weighedRow]
    simp only [decide_eq_true_eq]
  rw [hweighed, updateFirst_map (rowed_weighedRow input) hp _ nodup_headerFields]
  refine List.map_congr_left fun n _ => ?_
  rw [rowed_weighedRow, headerRow]
  simp only [decide_eq_true_eq]

def answers (r : FieldResult) : List (Option String) := r.value :: r.alternatives.map Field.value

theorem supplierCheck_map (toLower : Char → Char) {row : String → FieldResult} (hrow : Rowed row)
    (entity : Entity) :
    ∃ final : String → FieldResult, Rowed final ∧
      supplierCheck toLower entity (headerFields.map row) = headerFields.map final ∧
      (∀ n, answers (final n) = answers (row n)) ∧
      ∀ n, (n ≠ "supplier_tin" ∧ n ≠ "supplier_name") ∨ (row n).reason ≠ none →
        final n = row n := by
  have hflag : ∀ {row : String → FieldResult} (_ : Rowed row) (name : String)
      (agrees : String → Bool), ∃ final : String → FieldResult, Rowed final ∧
        flagIfInconsistent name agrees (headerFields.map row) = headerFields.map final ∧
        (∀ n, answers (final n) = answers (row n)) ∧
        ∀ n, n ≠ name ∨ (row n).reason ≠ none → final n = row n := by
    intro row hrow name agrees
    have hp : ∀ r : FieldResult, (r.name = name && r.reason = none) = true → r.name = name :=
      fun r h => of_decide_eq_true (Bool.and_eq_true_iff.mp h).1
    refine ⟨_, fun n => ?_, updateFirst_map hrow hp _ nodup_headerFields, fun n => ?_,
      fun n hn => ?_⟩
    · split
      · split <;> exact hrow n
      · exact hrow n
    · split
      · split <;> rfl
      · rfl
    · refine if_neg fun hpn => ?_
      obtain ⟨hname, hreason⟩ := Bool.and_eq_true_iff.mp hpn
      rcases hn with hn | hn
      · exact hn ((hrow n).symm.trans (of_decide_eq_true hname))
      · exact hn (of_decide_eq_true hreason)
  have htin : ∃ final : String → FieldResult, Rowed final ∧
      (if entity.tin = "" then headerFields.map row
        else flagIfInconsistent "supplier_tin" (fun v => v = entity.tin) (headerFields.map row)) =
        headerFields.map final ∧
      (∀ n, answers (final n) = answers (row n)) ∧
      ∀ n, n ≠ "supplier_tin" ∨ (row n).reason ≠ none → final n = row n := by
    by_cases h : entity.tin = ""
    · exact ⟨row, hrow, if_pos h, fun n => rfl, fun n _ => rfl⟩
    · rw [if_neg h]
      exact hflag hrow _ _
  obtain ⟨mid, hmid, heq, hmidAnswers, hsame⟩ := htin
  unfold supplierCheck
  dsimp only
  rw [heq]
  by_cases h : entity.name = ""
  · refine ⟨mid, hmid, if_pos h, hmidAnswers, fun n hn => hsame n ?_⟩
    exact hn.imp_left And.left
  · rw [if_neg h]
    obtain ⟨final, hfinal, hmap, hanswers, hlast⟩ := hflag hmid "supplier_name"
      (fun v => liNormalizeHeaderText toLower v = liNormalizeHeaderText toLower entity.name)
    refine ⟨final, hfinal, hmap, fun n => (hanswers n).trans (hmidAnswers n), fun n hn => ?_⟩
    have hsame := hsame n (hn.imp_left And.left)
    exact (hlast n (by rw [hsame]; exact hn.imp_left And.right)).trans hsame

theorem exists_row (toLower : Char → Char) (input : Input) {n : String} (hn : n ∈ headerFields) :
    ∃ r, (reconcile D toLower input).find? (fun r => r.name = n) = some r ∧
      answers r = answers (headerRow D input n) ∧
      ((n ≠ "supplier_tin" ∧ n ≠ "supplier_name") ∨ (headerRow D input n).reason ≠ none →
        r = headerRow D input n) := by
  obtain ⟨final, hfinal, hmap, hanswers, hsame⟩ :=
    supplierCheck_map toLower (rowed_headerRow (D := D) input) input.entity
  refine ⟨final n, ?_, hanswers n, hsame n⟩
  rw [reconcile, headerRows_eq, hmap, List.find?_append, find?_map_row hfinal hn]
  rfl

theorem decidedMoney_map {row : String → FieldResult} (hrow : Rowed row) {n : String}
    (hn : n ∈ headerFields) : decidedMoney D (headerFields.map row) n =
      if (row n).reason = none then parseMoney D (row n).value else none := by
  rw [decidedMoney, find?_map_row hrow hn]
  rfl

theorem wantedTotal_weighed (input : Input) :
    wantedTotal D (headerFields.map (weighedRow D input)) =
      wantedTotal D (headerFields.map (decidedRow D input)) := by
  have hsame : ∀ n ∈ headerFields, n ≠ totalField →
      decidedMoney D (headerFields.map (weighedRow D input)) n =
        decidedMoney D (headerFields.map (decidedRow D input)) n := by
    intro n hn htotal
    rw [decidedMoney_map (rowed_weighedRow input) hn, decidedMoney_map (rowed_decidedRow input) hn,
      weighedRow, if_neg htotal]
  unfold wantedTotal
  rw [hsame "subtotal" (by decide +kernel) (by decide), hsame "vat" (by decide +kernel) (by decide)]

theorem wantedTotal_reconcile (toLower : Char → Char) (input : Input) :
    wantedTotal D (reconcile D toLower input) =
      wantedTotal D (headerFields.map (decidedRow D input)) := by
  have hsame : ∀ n ∈ headerFields, n ≠ totalField → n ≠ "supplier_tin" → n ≠ "supplier_name" →
      decidedMoney D (reconcile D toLower input) n =
        decidedMoney D (headerFields.map (decidedRow D input)) n := by
    intro n hn htotal htin hname
    obtain ⟨r, hr, -, hrow⟩ := exists_row (D := D) toLower input hn
    have hr' : r = decidedRow D input n := by
      rw [hrow (.inl ⟨htin, hname⟩), headerRow, if_neg htotal, weighedRow, if_neg htotal]
    rw [decidedMoney_map (rowed_decidedRow input) hn, decidedMoney, hr, hr']
    rfl
  unfold wantedTotal
  rw [hsame "subtotal" (by decide +kernel) (by decide) (by decide) (by decide),
    hsame "vat" (by decide +kernel) (by decide) (by decide) (by decide)]

/-! ### Readings of one field -/

def rivalReadings (cands : List Candidate) (field : String) : List Candidate :=
  firstsBy Candidate.value (standing (peersOf cands field))

theorem decideField_cons {cands : List Candidate} {field : String} {c : Candidate}
    {others : List Candidate} (h : rivalReadings cands field = c :: others) :
    decideField cands field = {
      name := field
      value := some c.value
      region := c.region
      reason := if others.isEmpty then none else some .ambiguous
      alternatives := others.map fun c =>
        { name := field, value := some c.value, region := c.region } } := by
  unfold rivalReadings at h
  rw [decideField, h]

theorem readings_decideField {cands : List Candidate} {field : String} {c : Candidate}
    {others : List Candidate} (h : rivalReadings cands field = c :: others) :
    answers (decideField cands field) = (c :: others).map fun c => some c.value := by
  rw [decideField_cons h, answers, List.map_map, List.map_cons]
  rfl

theorem decideField_of_rivals {cands : List Candidate} {field : String} {c d : Candidate}
    {others : List Candidate} (h : rivalReadings cands field = c :: d :: others) :
    (decideField cands field).reason = some .ambiguous ∧
      (decideField cands field).alternatives ≠ [] := by
  rw [decideField_cons h]
  exact ⟨rfl, List.cons_ne_nil _ _⟩

theorem standing_subset {peers : List Candidate} {c : Candidate} (h : c ∈ standing peers) :
    c ∈ peers := by
  unfold standing at h
  split at h
  · cases h
  split at h
  · exact h
  · exact (List.mem_filter.mp h).1

theorem mem_of_standing {cands : List Candidate} {field : String} {c : Candidate}
    (h : c ∈ standing (peersOf cands field)) : c ∈ cands ∧ c.field = field := by
  have hc := mem_sortCandidates.mp (standing_subset h)
  obtain ⟨hc, hfield⟩ := List.mem_filter.mp hc
  exact ⟨hc, of_decide_eq_true hfield⟩

theorem two_rivals {cands : List Candidate} {field : String}
    (h : ∃ a ∈ standing (peersOf cands field), ∃ b ∈ standing (peersOf cands field),
      a.value ≠ b.value) : ∃ c d others, rivalReadings cands field = c :: d :: others := by
  obtain ⟨a, ha, b, hb, hne⟩ := h
  have hkeys : ∀ e ∈ standing (peersOf cands field),
      e.value ∈ (rivalReadings cands field).map Candidate.value :=
    fun e he => mem_keys_firstsBy.mpr (List.mem_map_of_mem he)
  cases hrivals : rivalReadings cands field with
  | nil =>
    have hnone := hkeys a ha
    rw [hrivals] at hnone
    cases hnone
  | cons c others =>
    cases others with
    | nil =>
      -- a lone rival has every value there is
      have hsame : ∀ e ∈ standing (peersOf cands field), e.value = c.value := by
        intro e he
        have hmem := hkeys e he
        rw [hrivals] at hmem
        exact List.mem_singleton.mp hmem
      exact absurd ((hsame a ha).trans (hsame b hb).symm) hne
    | cons d others => exact ⟨c, d, others, rfl⟩

theorem readings_of_rivals {cands : List Candidate} {field : String} {c : Candidate}
    {others : List Candidate} (h : rivalReadings cands field = c :: others) :
    (answers (decideField cands field)).Nodup ∧ ∀ v : Option String,
      v ∈ answers (decideField cands field) ↔
        ∃ e ∈ standing (peersOf cands field), v = some e.value := by
  have hkeys : answers (decideField cands field) =
      ((rivalReadings cands field).map Candidate.value).map some := by
    rw [readings_decideField h, h, List.map_map]
    rfl
  rw [hkeys]
  refine ⟨(nodup_keys_firstsBy _).map (Option.some_injective _), fun v => ?_⟩
  rw [List.mem_map]
  constructor
  · rintro ⟨w, hw, rfl⟩
    obtain ⟨e, he, rfl⟩ := List.mem_map.mp (mem_keys_firstsBy.mp hw)
    exact ⟨e, he, rfl⟩
  · rintro ⟨e, he, rfl⟩
    exact ⟨e.value, mem_keys_firstsBy.mpr (List.mem_map_of_mem he), rfl⟩

/-! ### The total -/

/-- Within a cent of what the decided subtotal and the decided VAT come to. -/
def Balances (D : Decimals) (out : List FieldResult) (v : String) : Prop :=
  ∃ want ∈ wantedTotal D out, ∃ amount ∈ D.newFromString v, |want - amount| ≤ 1 / 100

theorem balancesWith_iff {want : ℚ} {v : String} :
    balancesWith D want (some v) = true ↔ ∃ amount ∈ D.newFromString v, |want - amount| ≤ 1 / 100 := by
  have hcent : ∀ diff : ℚ, exceedsTolerance D diff = decide (1 / 100 < diff) := by
    intro diff
    rw [exceedsTolerance, show D.newFromString reconcileTolerance = some (1 / 100) from D.cent]
  unfold balancesWith
  rw [show parseMoney D (some v) = D.newFromString v from rfl]
  cases D.newFromString v with
  | none =>
    refine ⟨fun h => Bool.noConfusion h, ?_⟩
    rintro ⟨amount, hamount, -⟩
    cases hamount
  | some amount =>
    simp only [Option.any_some, hcent, Bool.not_eq_true', decide_eq_false_iff_not, not_lt]
    refine ⟨fun h => ⟨amount, rfl, h⟩, ?_⟩
    rintro ⟨other, hother, h⟩
    cases hother
    exact h

theorem balances_iff {out : List FieldResult} {want : ℚ} (h : wantedTotal D out = some want)
    {v : String} : Balances D out v ↔ balancesWith D want (some v) = true := by
  rw [balancesWith_iff, Balances, h]
  refine ⟨?_, fun h => ⟨want, rfl, h⟩⟩
  rintro ⟨other, hother, h⟩
  cases hother
  exact h

def SoleBalance (D : Decimals) (out : List FieldResult) (competing : List Candidate)
    (v : String) : Prop :=
  v ∈ competing.map Candidate.value ∧ Balances D out v ∧
    ∀ w ∈ competing.map Candidate.value, Balances D out w → w = v

/-- What becomes of readings that differ: all stay, each once, under an ambiguous answer, unless
the field is the total and just one of them balances, which is then decided. -/
def Kept (D : Decimals) (competing : List Candidate) (out : List FieldResult) (field : String) :
    Prop :=
  (∃ a ∈ competing, ∃ b ∈ competing, a.value ≠ b.value) →
    ∃ row, out.find? (fun r => r.name = field) = some row ∧
      (field = totalField → ∀ v, SoleBalance D out competing v →
        row.value = some v ∧ row.reason = none) ∧
      ((field = totalField → ¬ ∃ v, SoleBalance D out competing v) →
        row.reason = some .ambiguous ∧
          ∀ c ∈ competing, (answers row).count (some c.value) = 1)

theorem filter_eq_singleton {α : Type} {l : List α} (hnodup : l.Nodup) {p : α → Bool} {a : α}
    (ha : a ∈ l) (hp : p a = true) (hsole : ∀ b ∈ l, p b = true → b = a) : l.filter p = [a] := by
  have hall : l.filter p = List.replicate (l.filter p).length a :=
    List.eq_replicate_of_mem fun b hb => hsole b (List.mem_filter.mp hb).1 (List.mem_filter.mp hb).2
  have hone := hnodup.filter p
  rw [hall, List.nodup_replicate] at hone
  have hpos : 0 < (l.filter p).length := List.length_pos_of_mem (List.mem_filter.mpr ⟨ha, hp⟩)
  rw [hall, show (l.filter p).length = 1 by omega]
  rfl

theorem corroborateTotal_sole {res : FieldResult} {decided : List FieldResult} {v : String}
    (hnodup : (answers res).Nodup) (halts : res.alternatives ≠ [])
    (hv : some v ∈ answers res) (hbalances : Balances D decided v)
    (hsole : ∀ w, some w ∈ answers res → Balances D decided w → w = v) :
    (corroborateTotal D res decided).value = some v ∧
      (corroborateTotal D res decided).reason = none := by
  obtain ⟨want, hwant, -⟩ := id hbalances
  obtain ⟨winner, hwinner, hvalue⟩ := List.mem_map.mp (show some v ∈
    (res.toField :: res.alternatives).map Field.value from hv)
  have hnodup' : ((res.toField :: res.alternatives).map Field.value).Nodup := hnodup
  have hwon : (res.toField :: res.alternatives).filter
      (fun f => balancesWith D want f.value) = [winner] := by
    refine filter_eq_singleton (List.Nodup.of_map _ hnodup') hwinner ?_ fun f hf hbal => ?_
    · rw [hvalue]
      exact (balances_iff hwant).mp hbalances
    · cases hfv : f.value with
      | none =>
        rw [hfv] at hbal
        cases hbal
      | some w =>
        rw [hfv] at hbal
        have hw : w = v := hsole w (hfv ▸ List.mem_map_of_mem hf) ((balances_iff hwant).mpr hbal)
        exact List.inj_on_of_nodup_map hnodup' hf hwinner (by rw [hfv, hw, hvalue])
  rw [corroborateTotal, if_neg (by simpa using halts), hwant]
  dsimp only
  rw [hwon]
  exact ⟨hvalue, rfl⟩

theorem corroborateTotal_of_not_sole {res : FieldResult} {decided : List FieldResult}
    (hsome : none ∉ answers res)
    (h : ¬ ∃ v, some v ∈ answers res ∧ Balances D decided v ∧
      ∀ w, some w ∈ answers res → Balances D decided w → w = v) :
    corroborateTotal D res decided = res := by
  unfold corroborateTotal
  split
  · rfl
  cases hwant : wantedTotal D decided with
  | none => rfl
  | some want =>
    dsimp only
    split
    · rename_i winner hwon
      refine (h ?_).elim
      have hbalanced : ∀ f, f ∈ (res.toField :: res.alternatives) →
          balancesWith D want f.value = true → f = winner := by
        intro f hf hbal
        have hmem : f ∈ (res.toField :: res.alternatives).filter
            fun f => balancesWith D want f.value := List.mem_filter.mpr ⟨hf, hbal⟩
        rw [hwon] at hmem
        exact List.mem_singleton.mp hmem
      obtain ⟨hwinner, hbal⟩ := List.mem_filter.mp (hwon ▸ List.mem_singleton_self winner)
      have hread : winner.value ∈ answers res := List.mem_map_of_mem hwinner
      cases hvalue : winner.value with
      | none => exact absurd (hvalue ▸ hread) hsome
      | some v =>
        rw [hvalue] at hread hbal
        refine ⟨v, hread, (balances_iff hwant).mpr hbal, fun w hw hbw => ?_⟩
        obtain ⟨f, hf, hfv⟩ := List.mem_map.mp (show some w ∈
          (res.toField :: res.alternatives).map Field.value from hw)
        have hfw := hbalanced f hf (by rw [hfv]; exact (balances_iff hwant).mp hbw)
        rw [hfw, hvalue] at hfv
        exact (Option.some.inj hfv).symm
    · rfl

/-- A page amount that could be the total: in a usable box that is neither addend's own, read as
one amount, and that one within a cent of the addends' sum. -/
structure TotalToken (D : Decimals) (decided : List FieldResult) (tok : Token) (text : String) :
    Prop where
  box : usableBox tok.region = true
  apart : ∀ name ∈ ["subtotal", "vat"], lastBoxOf decided name ≠ some tok.region
  reads : normalizeAmount tok.text = [text]
  balances : Balances D decided text

/-- A total taken from the page: no anchored total balances and none was taught, the readings so
far stay beside it, and no other token of the pages adds up. -/
structure FoundTotal (D : Decimals) (res : FieldResult) (decided : List FieldResult)
    (cands : List Candidate) (pages : List TokenPage) (r : FieldResult) : Prop where
  unsettled : ∀ c ∈ cands, c.field = totalField → c.tier ≠ .learned ∧ ¬ Balances D decided c.value
  doubtful : r.reason = some .ambiguous
  kept : ∀ f ∈ res.toField :: res.alternatives, f.value ≠ none →
    ∃ g ∈ r.alternatives, g.value = f.value ∧ g.region = f.region
  lone : ∃ before tok behind text, pages.flatMap TokenPage.tokens = before ++ tok :: behind ∧
    TotalToken D decided tok text ∧ (∀ t ∈ before ++ behind, ∀ other, ¬ TotalToken D decided t other) ∧
      r.value = some text ∧ r.region = some tok.region

theorem balancingToken_iff {want : ℚ} {decided : List FieldResult} {tok : Token}
    (hwant : wantedTotal D decided = some want) :
    balancingToken D want (lastBoxOf decided "subtotal") (lastBoxOf decided "vat") tok = true ↔
      ∃ text, TotalToken D decided tok text := by
  simp only [balancingToken, Bool.and_eq_true, decide_eq_true_eq]
  constructor
  · rintro ⟨⟨⟨husable, hsub⟩, hvat⟩, hbal⟩
    split at hbal
    · rename_i text htext
      exact ⟨text, husable, by simp [hsub, hvat], htext, (balances_iff hwant).mpr hbal⟩
    · cases hbal
  · rintro ⟨text, husable, hapart, htext, hbal⟩
    refine ⟨⟨⟨husable, hapart _ (by simp)⟩, hapart _ (by simp)⟩, ?_⟩
    rw [htext]
    exact (balances_iff hwant).mp hbal

theorem not_settlesTotal {want : ℚ} {decided : List FieldResult} {cands : List Candidate}
    (hwant : wantedTotal D decided = some want)
    (h : ¬ cands.any (settlesTotal D want) = true) :
    ∀ c ∈ cands, c.field = totalField → c.tier ≠ .learned ∧ ¬ Balances D decided c.value := by
  intro c hc hfield
  have hno : ¬ settlesTotal D want c = true := fun hc' => h (List.any_eq_true.mpr ⟨c, hc, hc'⟩)
  rw [settlesTotal, Bool.and_eq_true, Bool.or_eq_true, decide_eq_true_eq, decide_eq_true_eq] at hno
  refine ⟨fun hlearned => hno ⟨hfield, .inl hlearned⟩, fun hbal => hno ⟨hfield, .inr ?_⟩⟩
  exact (balances_iff hwant).mp hbal

theorem mem_rivalsOf {res : FieldResult} {f : Field} (hf : f ∈ res.toField :: res.alternatives)
    (hvalue : f.value ≠ none) : ∃ g ∈ rivalsOf res, g.value = f.value ∧ g.region = f.region := by
  rcases List.mem_cons.mp hf with rfl | hf
  · refine ⟨{ name := res.name, value := res.value, region := res.region },
      List.mem_append_left _ ?_, rfl, rfl⟩
    rw [if_neg (by simpa using hvalue)]
    exact List.mem_singleton_self _
  · exact ⟨_, List.mem_append_right _ (List.mem_map_of_mem hf), rfl, rfl⟩

theorem findTotal_cases (D : Decimals) (res : FieldResult) (decided : List FieldResult)
    (cands : List Candidate) (pages : List TokenPage) :
    findTotal D res decided cands pages = res ∨
      (findTotal D res decided cands pages).alternatives = rivalsOf res ∧
        FoundTotal D res decided cands pages (findTotal D res decided cands pages) := by
  rw [findTotal]
  split
  · exact .inl rfl
  cases hwant : wantedTotal D decided with
  | none => exact .inl rfl
  | some want =>
    dsimp only
    split
    · exact .inl rfl
    rename_i hsettled
    split
    · rename_i tok hlone
      obtain ⟨before, behind, hpages, hbefore, htok, hbehind⟩ := List.filter_eq_cons_iff.mp hlone
      obtain ⟨text, hadds⟩ := (balancingToken_iff hwant).mp htok
      refine .inr ⟨rfl, not_settlesTotal hwant hsettled, rfl, fun f => mem_rivalsOf, before, tok,
        behind, text, hpages, hadds, fun t ht other hother => ?_, ?_, if_pos hadds.box⟩
      · have hmatch := (balancingToken_iff hwant).mpr ⟨other, hother⟩
        rcases List.mem_append.mp ht with ht | ht
        · exact hbefore t ht hmatch
        · exact List.filter_eq_nil_iff.mp hbehind t ht hmatch
      · rw [hadds.reads]
        rfl
    · exact .inl rfl

theorem findTotal_of_balances {res : FieldResult} {decided : List FieldResult}
    {cands : List Candidate} {pages : List TokenPage} {c : Candidate} (hc : c ∈ cands)
    (hfield : c.field = totalField) (h : Balances D decided c.value) :
    findTotal D res decided cands pages = res :=
  (findTotal_cases D res decided cands pages).resolve_right
    fun hfound => (hfound.2.unsettled c hc hfield).2 h

theorem values_rivalsOf {res : FieldResult} (h : res.value ≠ none) :
    (rivalsOf res).map Field.value = answers res := by
  rw [rivalsOf, if_neg (by simpa using h), List.map_append, List.map_map]
  rfl

/-! ### Every candidate list -/

theorem total_kept (input : Input)
    (h : ∃ a ∈ standing (peersOf input.candidates totalField),
      ∃ b ∈ standing (peersOf input.candidates totalField), a.value ≠ b.value) :
    let decided := headerFields.map (decidedRow D input)
    let competing := standing (peersOf input.candidates totalField)
    (∀ v, SoleBalance D decided competing v →
      (headerRow D input totalField).value = some v ∧
        (headerRow D input totalField).reason = none) ∧
    ((¬ ∃ v, SoleBalance D decided competing v) →
      (headerRow D input totalField).reason = some .ambiguous ∧
        ∀ c ∈ competing, (answers (headerRow D input totalField)).count (some c.value) = 1) := by
  intro decided competing
  obtain ⟨c, d, others, hrivals⟩ := two_rivals h
  obtain ⟨hreason, halts⟩ := decideField_of_rivals hrivals
  obtain ⟨hnodup, hmem⟩ := readings_of_rivals hrivals
  have hrow : decidedRow D input totalField = decideField input.candidates totalField :=
    checkRow_of_doubt (by rw [hreason]; exact Option.some_ne_none _)
  have hvalues : ∀ v, some v ∈ answers (decideField input.candidates totalField) ↔
      v ∈ competing.map Candidate.value := by
    intro v
    rw [hmem, List.mem_map]
    exact ⟨fun ⟨e, he, hv⟩ => ⟨e, he, (Option.some.inj hv).symm⟩,
      fun ⟨e, he, hv⟩ => ⟨e, he, congrArg some hv.symm⟩⟩
  have hsome : none ∉ answers (decideField input.candidates totalField) := by
    intro hnone
    obtain ⟨e, -, he⟩ := (hmem none).mp hnone
    cases he
  have hwanted : wantedTotal D (headerFields.map (weighedRow D input)) = wantedTotal D decided :=
    wantedTotal_weighed input
  have hbalances : ∀ v, Balances D (headerFields.map (weighedRow D input)) v ↔
      Balances D decided v := fun v => by rw [Balances, hwanted, Balances]
  have hweighed : weighedRow D input totalField =
      corroborateTotal D (decideField input.candidates totalField) decided := by
    rw [weighedRow, if_pos rfl, hrow]
  have hheader : headerRow D input totalField = findTotal D
      (corroborateTotal D (decideField input.candidates totalField) decided)
      (headerFields.map (weighedRow D input)) input.candidates input.pages := by
    rw [headerRow, if_pos rfl, hweighed]
  constructor
  · rintro v ⟨hv, hbal, hsole⟩
    have hwin := corroborateTotal_sole hnodup halts ((hvalues v).mpr hv) hbal
      fun w hw => hsole w ((hvalues w).mp hw)
    obtain ⟨e, he, rfl⟩ := List.mem_map.mp hv
    obtain ⟨hcand, hfield⟩ := mem_of_standing he
    rw [hheader, findTotal_of_balances hcand hfield ((hbalances _).mpr hbal)]
    exact hwin
  · intro hnone
    have hstands : corroborateTotal D (decideField input.candidates totalField) decided =
        decideField input.candidates totalField := by
      refine corroborateTotal_of_not_sole hsome ?_
      rintro ⟨v, hv, hbal, hsole⟩
      exact hnone ⟨v, (hvalues v).mp hv, hbal, fun w hw => hsole w ((hvalues w).mpr hw)⟩
    rw [hheader, hstands]
    have honce : ∀ e ∈ competing,
        (answers (decideField input.candidates totalField)).count (some e.value) = 1 :=
      fun e he => List.count_eq_one_of_mem hnodup ((hmem _).mpr ⟨e, he, rfl⟩)
    rcases findTotal_cases D (decideField input.candidates totalField)
      (headerFields.map (weighedRow D input)) input.candidates input.pages with hsame | hfound
    · rw [hsame]
      exact ⟨hreason, honce⟩
    · obtain ⟨halternatives, hfound⟩ := hfound
      refine ⟨hfound.doubtful, fun e he => ?_⟩
      obtain ⟨-, tok, -, text, -, hadds, -, hvalue, -⟩ := hfound.lone
      obtain ⟨hcand, hfield⟩ := mem_of_standing he
      have hne : ¬ some text = some e.value := by
        intro htext
        obtain rfl := Option.some.inj htext
        exact (hfound.unsettled e hcand hfield).2 hadds.balances
      have hvalue' : (decideField input.candidates totalField).value ≠ none := by
        intro hnone
        exact hsome (hnone ▸ List.mem_cons_self)
      rw [answers, halternatives, values_rivalsOf hvalue', hvalue, List.count_cons_of_ne hne]
      exact honce e he

theorem kept (toLower : Char → Char) (input : Input) {field : String} (hfield : field ∈ headerFields) :
    Kept D (standing (peersOf input.candidates field)) (reconcile D toLower input) field := by
  intro h
  obtain ⟨row, hfind, -, hrow⟩ := exists_row (D := D) toLower input hfield
  refine ⟨row, hfind, ?_⟩
  have hwanted := wantedTotal_reconcile (D := D) toLower input
  have hsole : ∀ v, SoleBalance D (reconcile D toLower input)
      (standing (peersOf input.candidates field)) v ↔
      SoleBalance D (headerFields.map (decidedRow D input))
        (standing (peersOf input.candidates field)) v := by
    intro v
    simp only [SoleBalance, Balances, hwanted]
  by_cases htotal : field = totalField
  · subst htotal
    have hrow := hrow (.inl (by decide))
    obtain ⟨hwins, hkeeps⟩ := total_kept (D := D) input h
    rw [hrow]
    refine ⟨fun _ v hv => hwins v ((hsole v).mp hv), fun hnone => hkeeps fun ⟨v, hv⟩ => ?_⟩
    exact hnone rfl ⟨v, (hsole v).mpr hv⟩
  · obtain ⟨c, d, others, hrivals⟩ := two_rivals h
    obtain ⟨hreason, -⟩ := decideField_of_rivals hrivals
    obtain ⟨hnodup, hmem⟩ := readings_of_rivals hrivals
    have hdecided : headerRow D input field = decideField input.candidates field := by
      rw [headerRow, if_neg htotal, weighedRow, if_neg htotal]
      exact checkRow_of_doubt (by rw [hreason]; exact Option.some_ne_none _)
    have hrow := hrow (.inr (by rw [hdecided, hreason]; exact Option.some_ne_none _))
    rw [hrow, hdecided]
    refine ⟨fun h => absurd h htotal, fun _ => ⟨hreason, fun e he => ?_⟩⟩
    exact List.count_eq_one_of_mem hnodup ((hmem _).mpr ⟨e, he, rfl⟩)

theorem reconcile_perm (toLower : Char → Char) (input : Input) {cands : List Candidate}
    (hfollows : AdjacentFollowsRule input.candidates) (hperm : input.candidates.Perm cands) :
    reconcile D toLower { input with candidates := cands } = reconcile D toLower input := by
  have hdecide : ∀ field, decideField cands field = decideField input.candidates field := by
    intro field
    simp only [decideField, peersOf, hfollows.sort_perm hperm field]
  have hfind : ∀ res decided, findTotal D res decided cands input.pages =
      findTotal D res decided input.candidates input.pages := by
    intro res decided
    simp only [findTotal, hperm.any_eq]
  simp only [reconcile, headerRows, funext hdecide, hfind]

/-! ### Resolve, then Reconcile -/

theorem field_of_mem_ranked {pages : List TokenPage} {rules : RuleSet} {field : String}
    {c : Candidate} (h : c ∈ ranked R pages rules field) : c.field = field :=
  of_decide_eq_true (List.mem_filter.mp (mem_sortCandidates.mp h)).2

theorem peersOf_resolve (pages : List TokenPage) (rules : RuleSet) {field : String}
    (hfield : field ∈ headerFields) : peersOf (resolve R pages rules) field =
      (ranked R pages rules field).take maxCandidatesPerField := by
  have hown : ∀ names : List String, names.Nodup → field ∈ names →
      (names.flatMap fun f => (ranked R pages rules f).take maxCandidatesPerField).filter
        (fun c => c.field = field) = (ranked R pages rules field).take maxCandidatesPerField := by
    intro names hnodup hmem
    have hself : ((ranked R pages rules field).take maxCandidatesPerField).filter
        (fun c => c.field = field) = (ranked R pages rules field).take maxCandidatesPerField :=
      List.filter_eq_self.mpr fun c hc =>
        decide_eq_true (field_of_mem_ranked (List.mem_of_mem_take hc))
    have hother : ∀ f, f ≠ field → ((ranked R pages rules f).take maxCandidatesPerField).filter
        (fun c => c.field = field) = [] := by
      intro f hf
      refine List.filter_eq_nil_iff.mpr fun c hc hcf => hf ?_
      exact (field_of_mem_ranked (List.mem_of_mem_take hc)).symm.trans (of_decide_eq_true hcf)
    induction names with
    | nil => cases hmem
    | cons f names ih =>
      obtain ⟨hf, hnames⟩ := List.nodup_cons.mp hnodup
      rw [List.flatMap_cons, List.filter_append]
      by_cases hff : f = field
      · subst hff
        have hrest : (names.flatMap fun g => (ranked R pages rules g).take
            maxCandidatesPerField).filter (fun c => c.field = f) = [] := by
          rw [List.filter_flatMap]
          refine List.flatMap_eq_nil_iff.mpr fun g hg => hother g ?_
          rintro rfl
          exact hf hg
        rw [hself, hrest, List.append_nil]
      · rw [hother f hff, List.nil_append]
        exact ih hnames ((List.mem_cons.mp hmem).resolve_left (Ne.symm hff))
  have hsorted : ((ranked R pages rules field).take maxCandidatesPerField).Pairwise
      fun a b => candidateLE a b = true :=
    (pairwise_sortCandidates _).sublist (List.take_sublist _ _)
  rw [peersOf, resolve, hown headerFields nodup_headerFields hfield]
  exact hsorted.insertionSort_eq

def WithinCut (peers : List Candidate) : Prop :=
  ∀ c ∈ standing peers, ∃ d ∈ standing (peers.take maxCandidatesPerField), d.value = c.value

theorem standing_take {peers : List Candidate} {c : Candidate}
    (h : c ∈ standing (peers.take maxCandidatesPerField)) : c ∈ standing peers := by
  cases peers with
  | nil => exact h
  | cons head rest =>
    change c ∈ standing (head :: rest.take 7) at h
    have hsub : ∀ c ∈ head :: rest.take 7, c ∈ head :: rest := fun c hc =>
      (List.mem_cons.mp hc).elim (fun h => h ▸ List.mem_cons_self)
        fun h => List.mem_cons_of_mem _ (List.mem_of_mem_take h)
    unfold standing at h ⊢
    dsimp only at h ⊢
    split at h
    · rename_i hhead
      rw [if_pos hhead]
      exact hsub c h
    · rename_i hhead
      rw [if_neg hhead]
      obtain ⟨hc, hstands⟩ := List.mem_filter.mp h
      exact List.mem_filter.mpr ⟨hsub c hc, hstands⟩

theorem exists_head_standing {peers : List Candidate} (h : peers ≠ []) :
    ∃ c, c ∈ standing (peers.take maxCandidatesPerField) := by
  obtain ⟨head, rest, rfl⟩ := List.exists_cons_of_ne_nil h
  refine ⟨head, ?_⟩
  change head ∈ standing (head :: rest.take 7)
  unfold standing
  dsimp only
  split
  · exact List.mem_cons_self
  · exact List.mem_filter.mpr ⟨List.mem_cons_self, by simp⟩

theorem Kept.congr {competing others : List Candidate} {out : List FieldResult} {field : String}
    (hsame : ∀ v, v ∈ competing.map Candidate.value ↔ v ∈ others.map Candidate.value)
    (h : Kept D competing out field) : Kept D others out field := by
  have hsole : ∀ v, SoleBalance D out others v ↔ SoleBalance D out competing v := by
    intro v
    simp only [SoleBalance, hsame]
  rintro ⟨a, ha, b, hb, hne⟩
  obtain ⟨a', ha', hav⟩ := List.mem_map.mp ((hsame _).mpr (List.mem_map_of_mem ha))
  obtain ⟨b', hb', hbv⟩ := List.mem_map.mp ((hsame _).mpr (List.mem_map_of_mem hb))
  obtain ⟨row, hrow, hwins, hkeeps⟩ := h ⟨a', ha', b', hb', by rwa [hav, hbv]⟩
  refine ⟨row, hrow, fun ht v hv => hwins ht v ((hsole v).mp hv), fun hnone => ?_⟩
  obtain ⟨hreason, honce⟩ := hkeeps fun ht ⟨v, hv⟩ => hnone ht ⟨v, (hsole v).mpr hv⟩
  refine ⟨hreason, fun c hc => ?_⟩
  obtain ⟨c', hc', hcv⟩ := List.mem_map.mp ((hsame _).mpr (List.mem_map_of_mem hc))
  rw [← hcv]
  exact honce c' hc'

theorem exists_undecided (input : Input) : ∃ lines,
    wantedTotal D (headerFields.map (decidedRow D { input with lines := lines })) = none := by
  let sub := decideField input.candidates "subtotal"
  have hnone : ∀ lines, decidedMoney D (headerFields.map
      (decidedRow D { input with lines := lines })) "subtotal" = none →
      wantedTotal D (headerFields.map (decidedRow D { input with lines := lines })) = none := by
    intro lines h
    rw [wantedTotal, h]
    rfl
  by_cases hclean : sub.reason = none
  · cases hprinted : parseMoney D sub.value with
    | none =>
      refine ⟨[], hnone _ ?_⟩
      rw [decidedMoney_map (rowed_decidedRow _) (by decide +kernel)]
      change (if sub.reason = none then parseMoney D sub.value else none) = none
      rw [hprinted, ite_self]
    | some printed =>
      -- of a lone line total of 0 and one of 1, one is off by more than a cent
      have hfar : ∃ s t, D.newFromString s = some t ∧ 1 / 100 < |t - printed| := by
        by_cases hzero : 1 / 100 < |0 - printed|
        · exact ⟨"0", 0, D.zero, hzero⟩
        · refine ⟨"1", 1, D.one, ?_⟩
          rw [not_lt, abs_le] at hzero
          rw [lt_abs]
          exact .inl (by linarith [hzero.1, hzero.2])
      obtain ⟨s, t, hs, hst⟩ := hfar
      let line : DocLine := { index := 1, lineTotal := some s }
      have htotals : lineTotals D [line] = [t] := by
        rw [lineTotals, List.filterMap_cons, show parseMoney D line.lineTotal = some t from hs]
        rfl
      have hflagged : checkRow D [line] sub = { sub with reason := some .inconsistent } := by
        have hname : sub.name = "subtotal" := decideField_name _ _
        have hexceeds : exceedsTolerance D |t - printed| = true := by
          rw [exceedsTolerance, show D.newFromString reconcileTolerance = some (1 / 100) from D.cent]
          exact decide_eq_true hst
        unfold checkRow
        rw [htotals, hprinted]
        simp [hname, hclean, hexceeds]
      refine ⟨[line], hnone _ ?_⟩
      rw [decidedMoney_map (rowed_decidedRow _) (by decide +kernel)]
      change (if (checkRow D [line] sub).reason = none then _ else none) = none
      rw [hflagged, if_neg (Option.some_ne_none _)]
  · refine ⟨[], hnone _ ?_⟩
    rw [decidedMoney_map (rowed_decidedRow _) (by decide +kernel)]
    exact if_neg hclean

theorem headerRow_total_undecided {input : Input}
    (h : wantedTotal D (headerFields.map (decidedRow D input)) = none) :
    headerRow D input totalField = decideField input.candidates totalField := by
  have hcorroborated : ∀ res, corroborateTotal D res (headerFields.map (decidedRow D input)) =
      res := by
    intro res
    rw [corroborateTotal, h]
    exact ite_self _
  have hfound : ∀ res cands pages,
      findTotal D res (headerFields.map (weighedRow D input)) cands pages = res := by
    intro res cands pages
    rw [findTotal, wantedTotal_weighed, h]
    exact ite_self _
  rw [headerRow, if_pos rfl, hfound, weighedRow, if_pos rfl, hcorroborated]
  exact checkRow_of_ne (by rw [decideField_name]; decide)

theorem answers_of_kept {input : Input} {field : String} (hfield : field ∈ headerFields)
    (hsum : field = totalField → wantedTotal D (headerFields.map (decidedRow D input)) = none)
    {competing : List Candidate} (h : Kept D competing (reconcile D toLower input) field)
    (hdiffer : ∃ a ∈ competing, ∃ b ∈ competing, a.value ≠ b.value)
    {c : Candidate} (hc : c ∈ competing) :
    ∃ d ∈ standing (peersOf input.candidates field), d.value = c.value := by
  obtain ⟨row, hfind, -, hkeeps⟩ := h hdiffer
  obtain ⟨row', hfind', hanswers, -⟩ := exists_row (D := D) toLower input hfield
  obtain rfl : row = row' := Option.some.inj (hfind.symm.trans hfind')
  have hnobalance : field = totalField →
      ¬ ∃ v, SoleBalance D (reconcile D toLower input) competing v := by
    rintro htotal ⟨v, -, ⟨want, hwant, -⟩, -⟩
    rw [wantedTotal_reconcile, hsum htotal] at hwant
    cases hwant
  obtain ⟨hreason, honce⟩ := hkeeps hnobalance
  have hmem : some c.value ∈ answers row :=
    List.count_pos_iff.mp (by rw [honce c hc]; exact Nat.one_pos)
  have hdecided : answers (headerRow D input field) =
      answers (decideField input.candidates field) := by
    by_cases htotal : field = totalField
    · subst htotal
      rw [headerRow_total_undecided (hsum rfl)]
    · rw [headerRow, if_neg htotal, weighedRow, if_neg htotal, decidedRow]
      rcases checkRow_cases (D := D) input.lines (decideField input.candidates field) with h | h
      · rw [h]
      · rw [h.2.2]
        rfl
  rw [hanswers, hdecided] at hmem
  cases hrivals : rivalReadings input.candidates field with
  | nil =>
    unfold rivalReadings at hrivals
    rw [decideField, hrivals] at hmem
    rcases List.mem_cons.mp hmem with hnone | hnone <;> cases hnone
  | cons e others =>
    obtain ⟨d, hd, hvalue⟩ := ((readings_of_rivals hrivals).2 _).mp hmem
    exact ⟨d, hd, (Option.some.inj hvalue).symm⟩

theorem kept_iff_withinCut (toLower : Char → Char) (pages : List TokenPage) (rules : RuleSet) :
    (∀ lines entity, ∀ field ∈ headerFields, Kept D (standing (ranked R pages rules field))
        (reconcile D toLower ⟨resolve R pages rules, lines, entity, pages⟩) field) ↔
      ∀ field ∈ headerFields, WithinCut (ranked R pages rules field) := by
  have hpeers : ∀ field ∈ headerFields, peersOf (resolve R pages rules) field =
      (ranked R pages rules field).take maxCandidatesPerField := fun field hfield =>
    peersOf_resolve pages rules hfield
  constructor
  · intro h field hfield c hc
    by_contra hhidden
    have hne : ∀ d ∈ standing ((ranked R pages rules field).take maxCandidatesPerField),
        d.value ≠ c.value := fun d hd hvalue => hhidden ⟨d, hd, hvalue⟩
    have hpresent : ranked R pages rules field ≠ [] := by
      intro hnil
      rw [hnil] at hc
      cases hc
    obtain ⟨head, hhead⟩ := exists_head_standing hpresent
    obtain ⟨lines, hlines⟩ := exists_undecided (D := D) ⟨resolve R pages rules, [], {}, pages⟩
    have hkept := answers_of_kept hfield (fun _ => hlines) (h lines {} field hfield)
      ⟨head, standing_take hhead, c, hc, hne head hhead⟩ hc
    obtain ⟨d, hd, hvalue⟩ := hkept
    rw [hpeers field hfield] at hd
    exact hne d hd hvalue
  · intro h lines entity field hfield
    have hkept := kept (D := D) toLower ⟨resolve R pages rules, lines, entity, pages⟩ hfield
    rw [hpeers field hfield] at hkept
    refine hkept.congr fun v => ?_
    constructor
    · intro hv
      obtain ⟨c, hc, rfl⟩ := List.mem_map.mp hv
      exact List.mem_map_of_mem (standing_take hc)
    · intro hv
      obtain ⟨c, hc, rfl⟩ := List.mem_map.mp hv
      obtain ⟨d, hd, hvalue⟩ := h field hfield c hc
      exact hvalue ▸ List.mem_map_of_mem hd

theorem adjacentFollowsRule_resolve (R : Runtime) (pages : List TokenPage)
    (learned : List AnchorRule) :
    AdjacentFollowsRule (resolve R pages ⟨learned, tier1Rules R⟩) := by
  have hall : AdjacentFollowsRule (allCandidates R pages ⟨learned, tier1Rules R⟩) :=
    adjacentFollowsRule_allCandidates pages (nodup_tier1_keys R)
  have hsub : ∀ c ∈ resolve R pages ⟨learned, tier1Rules R⟩,
      c ∈ allCandidates R pages ⟨learned, tier1Rules R⟩ := by
    intro c hc
    obtain ⟨field, -, hc⟩ := List.mem_flatMap.mp hc
    exact (List.mem_filter.mp (mem_sortCandidates.mp (List.mem_of_mem_take hc))).1
  exact ⟨fun a ha b hb => hall.adjacent a (hsub a ha) b (hsub b hb),
    fun a ha => hall.reason a (hsub a ha)⟩

/-- Reconcile drops no competing reading of the candidates it is given, in whatever order; what
Resolve gives it holds every value of equal standing just where its cut hides none. -/
theorem competing_readings_iff (D : Decimals) (toLower : Char → Char) :
    ((∀ R pages learned, AdjacentFollowsRule (resolve R pages ⟨learned, tier1Rules R⟩)) ∧
      ∀ (input : Input) (cands : List Candidate), AdjacentFollowsRule input.candidates →
        input.candidates.Perm cands →
          reconcile D toLower { input with candidates := cands } = reconcile D toLower input) ∧
    (∀ input : Input, ∀ field ∈ headerFields,
      Kept D (standing (peersOf input.candidates field)) (reconcile D toLower input) field) ∧
    (∀ res decided cands pages, findTotal D res decided cands pages ≠ res →
      FoundTotal D res decided cands pages (findTotal D res decided cands pages)) ∧
    ∀ R pages rules,
      (∀ lines entity, ∀ field ∈ headerFields, Kept D (standing (ranked R pages rules field))
        (reconcile D toLower ⟨resolve R pages rules, lines, entity, pages⟩) field) ↔
      ∀ field ∈ headerFields, WithinCut (ranked R pages rules field) := by
  refine ⟨⟨adjacentFollowsRule_resolve, fun input cands => reconcile_perm toLower input⟩,
    fun input field => kept toLower input, fun res decided cands pages hne => ?_,
    fun R pages rules => kept_iff_withinCut toLower pages rules⟩
  exact ((findTotal_cases D res decided cands pages).resolve_left hne).2

/-! ### A number printed on every page -/

def plainDecimal (s : String) : Option ℚ :=
  (numberRe 2 s.toList).map fun (minus, whole, fraction) =>
    (-1) ^ minus.length * (readDigits (whole ++ fraction) : ℚ) / 10 ^ fraction.length

def plainDecimals : Decimals where
  newFromString := plainDecimal
  cent := by decide +kernel
  zero := by decide +kernel
  one := by decide +kernel

def totalPage (n : ℤ) (text : String) : TokenPage :=
  ⟨n, [⟨text, ⟨n, 1 / 10, 4 / 10, 3 / 10, 5 / 10⟩⟩]⟩

theorem competing_readings_iff_sample :
    Kept plainDecimals
      (standing (ranked threeLabels [totalPage 1 "Total: 100.00", totalPage 2 "Total: 200.00"]
        ⟨[], tier1Rules threeLabels⟩ "total"))
      (reconcile plainDecimals Char.toLower
        ⟨resolve threeLabels [totalPage 1 "Total: 100.00", totalPage 2 "Total: 200.00"]
          ⟨[], tier1Rules threeLabels⟩, [], {},
        [totalPage 1 "Total: 100.00", totalPage 2 "Total: 200.00"]⟩) "total" := by
  have hcut : ∀ field ∈ headerFields, WithinCut (ranked threeLabels
      [totalPage 1 "Total: 100.00", totalPage 2 "Total: 200.00"] ⟨[], tier1Rules threeLabels⟩
      field) := by
    unfold WithinCut
    decide +kernel
  have hiff := (competing_readings_iff plainDecimals Char.toLower).2.2.2
  exact (hiff _ _ _).mpr hcut [] {} "total" (by decide +kernel)

def ninePages : List TokenPage :=
  [totalPage 1 "Total: 100.00", totalPage 2 "Total: 100.00", totalPage 3 "Total: 100.00",
    totalPage 4 "Total: 100.00", totalPage 5 "Total: 100.00", totalPage 6 "Total: 100.00",
    totalPage 7 "Total: 100.00", totalPage 8 "Total: 100.00", totalPage 9 "Total: 200.00"]

theorem ninth_total_hidden :
    (∃ a ∈ standing (ranked threeLabels ninePages ⟨[], tier1Rules threeLabels⟩ "total"),
      ∃ b ∈ standing (ranked threeLabels ninePages ⟨[], tier1Rules threeLabels⟩ "total"),
        a.value = "100.00" ∧ b.value = "200.00") ∧
    ((reconcile plainDecimals Char.toLower
        ⟨resolve threeLabels ninePages ⟨[], tier1Rules threeLabels⟩, [], {}, ninePages⟩).find?
      fun r => r.name = "total") = some {
        name := "total"
        value := some "100.00"
        region := some ⟨1, 1 / 10, 4 / 10, 3 / 10, 5 / 10⟩
        reason := none
        alternatives := [] } := by
  constructor
  · decide +kernel
  · decide +kernel

end InvoiceOs.Extraction
