import InvoiceOs.Extraction.Tokens
import InvoiceOs.Importer.Grouping
import Mathlib.Tactic.Linarith
import Mathlib.Tactic.Positivity

/-! The amounts a text prints: what the amount shape matches, its grouping removed, and the number
it stands for. -/

namespace InvoiceOs.Extraction

open Lib
open Importer (Amount Group Whole minusText fractionText groupsText uncommaed decimalValue sign)

/-! ### Amounts -/

theorem groupsRe_iff {s : List Char} : groupsRe s = true ↔ ∃ groups, s = groupsText groups := by
  constructor
  · intro h
    induction s using groupsRe.induct with
    | case1 => exact ⟨[], rfl⟩
    | case2 a b c s ih =>
      simp only [groupsRe, Bool.and_eq_true] at h
      obtain ⟨⟨⟨ha, hb⟩, hc⟩, hs⟩ := h
      obtain ⟨groups, rfl⟩ := ih hs
      obtain ⟨da, rfl⟩ := Digit.exists_char ha
      obtain ⟨db, rfl⟩ := Digit.exists_char hb
      obtain ⟨dc, rfl⟩ := Digit.exists_char hc
      exact ⟨⟨da, db, dc⟩ :: groups, rfl⟩
    | case3 s hnil hcons =>
      rw [groupsRe] at h
      · cases h
      · exact hnil
      · exact hcons
  · rintro ⟨groups, rfl⟩
    induction groups with
    | nil => rfl
    | cons g groups ih =>
      change (g.hundreds.char.isDigit && g.tens.char.isDigit && g.units.char.isDigit &&
        groupsRe (groupsText groups)) = true
      rw [ih, Digit.isDigit_char, Digit.isDigit_char, Digit.isDigit_char]
      rfl

def wholeDigits : Whole → List Digit
  | .plain digits _ => digits
  | .grouped lead groups _ => lead.digits ++ groups.flatMap Group.digits

theorem wholeDigits_ne_nil (w : Whole) : wholeDigits w ≠ [] := by
  cases w with
  | plain digits h => exact h
  | grouped lead groups h => exact fun hnil => lead.nonempty (List.append_eq_nil_iff.mp hnil).1

theorem uncommaed_whole (w : Whole) : uncommaed w.text = digitsText (wholeDigits w) := by
  cases w with
  | plain digits h => exact Importer.uncommaed_of_plain (Importer.digitsText_ne_comma digits)
  | grouped lead groups h =>
    rw [Whole.text, Importer.uncommaed_append, Importer.uncommaed_groups,
      Importer.uncommaed_of_plain (Importer.digitsText_ne_comma _), wholeDigits,
      digitsText_append]

theorem value_whole (w : Whole) : w.value = number (wholeDigits w) := by
  cases w with
  | plain digits h => rfl
  | grouped lead groups h => exact (Importer.number_groups _ _).symm

theorem wholeRe_iff {s : List Char} : wholeRe s = true ↔ ∃ w : Whole, s = w.text := by
  constructor
  · intro h
    simp only [wholeRe, Bool.and_eq_true, Bool.or_eq_true, Bool.not_eq_true',
      List.isEmpty_eq_false_iff, decide_eq_true_eq] at h
    obtain ⟨hlead, hgroups⟩ := h
    obtain ⟨lead, hleadText⟩ := exists_digitsText (s := s.takeWhile Char.isDigit)
      fun c hc => List.mem_takeWhile_imp hc
    have hne : lead ≠ [] := by
      rintro rfl
      exact hlead hleadText.symm
    have hsplit := List.takeWhile_append_dropWhile (p := Char.isDigit) (l := s)
    rw [← hleadText] at hsplit
    by_cases hrest : s.dropWhile Char.isDigit = []
    · refine ⟨.plain lead hne, ?_⟩
      rw [← hsplit, hrest, List.append_nil]
      rfl
    · obtain ⟨hshort, hre⟩ := hgroups.resolve_left fun h => hrest (List.isEmpty_iff.mp h)
      obtain ⟨groups, hgroups⟩ := groupsRe_iff.mp hre
      rw [← hleadText, length_digitsText] at hshort
      have hgne : groups ≠ [] := by
        rintro rfl
        exact hrest hgroups
      refine ⟨.grouped ⟨lead, hne, hshort⟩ groups hgne, ?_⟩
      rw [← hsplit, hgroups]
      rfl
  · rintro ⟨w, rfl⟩
    cases w with
    | plain digits h =>
      have htake := takeWhile_digitsText digits []
      have hdrop := dropWhile_digitsText digits []
      rw [List.append_nil] at htake hdrop
      have hne : (digitsText digits).isEmpty = false :=
        List.isEmpty_eq_false_iff.mpr fun hnil => h (digitsText_eq_nil.mp hnil)
      simp only [wholeRe, Whole.text, htake, hdrop, List.takeWhile_nil, List.append_nil,
        List.dropWhile_nil, hne, List.isEmpty_nil, Bool.not_false, Bool.true_or, Bool.and_self]
    | grouped lead groups h =>
      have hstops : (groupsText groups).takeWhile Char.isDigit = [] := by
        have hs := Importer.stops_groupsText groups (s := []) rfl
        rwa [List.append_nil] at hs
      have hdrop : (groupsText groups).dropWhile Char.isDigit = groupsText groups := by
        have hsplit := List.takeWhile_append_dropWhile (p := Char.isDigit) (l := groupsText groups)
        rwa [hstops, List.nil_append] at hsplit
      have hne : (digitsText lead.digits).isEmpty = false :=
        List.isEmpty_eq_false_iff.mpr fun hnil => lead.nonempty (digitsText_eq_nil.mp hnil)
      have hre := groupsRe_iff.mpr ⟨groups, rfl⟩
      simp only [wholeRe, Whole.text, takeWhile_digitsText, dropWhile_digitsText, hstops,
        List.append_nil, hdrop, hne, hre, length_digitsText, lead.short, decide_true,
        Bool.not_false, Bool.true_and, Bool.or_true]

def ungroupedAmount (a : Amount) : Amount where
  negative := a.negative
  whole := .plain (wholeDigits a.whole) (wholeDigits_ne_nil a.whole)
  fraction := a.fraction

def submatches (a : Amount) : List Char × List Char × List Char :=
  (minusText a.negative, a.whole.text, digitsText a.fraction)

theorem whole_text_spec (w : Whole) :
    (∃ d : Digit, ∃ rest, w.text = d.char :: rest) ∧ ∀ c ∈ w.text, c = ',' ∨ c.isDigit = true := by
  have hdigits : ∀ {ds : List Digit}, ∀ c ∈ digitsText ds, c = ',' ∨ c.isDigit = true :=
    fun c hc => .inr (isDigit_of_mem hc)
  cases w with
  | plain digits h =>
    obtain ⟨d, ds, rfl⟩ := List.exists_cons_of_ne_nil h
    exact ⟨⟨d, digitsText ds, rfl⟩, hdigits⟩
  | grouped lead groups h =>
    obtain ⟨d, ds, hlead⟩ := List.exists_cons_of_ne_nil lead.nonempty
    refine ⟨⟨d, digitsText ds ++ groupsText groups, ?_⟩, fun c hc => ?_⟩
    · rw [Whole.text, hlead]
      rfl
    · rcases List.mem_append.mp hc with hc | hc
      · exact hdigits c hc
      · obtain ⟨g, -, hc⟩ := List.mem_flatMap.mp hc
        rcases List.mem_cons.mp hc with rfl | hc
        · exact .inl rfl
        · exact hdigits c hc

theorem whole_text_no_point (w : Whole) : ∀ c ∈ w.text, decide (c ≠ '.') = true := by
  intro c hc
  refine decide_eq_true ?_
  rcases (whole_text_spec w).2 c hc with rfl | hdigit
  · decide
  · exact Importer.digit_ne hdigit rfl

theorem fractionText_point (ds : List Digit) :
    (fractionText ds).takeWhile (· ≠ '.') = [] ∧
      (fractionText ds).dropWhile (· ≠ '.') = fractionText ds ∧
      (fractionText ds).tail = digitsText ds ∧ ((fractionText ds).isEmpty = true ↔ ds = []) := by
  unfold fractionText
  split
  · rename_i hnil
    subst hnil
    exact ⟨rfl, rfl, rfl, by simp⟩
  · rename_i hne
    exact ⟨rfl, rfl, rfl, by simp [hne]⟩

theorem numberRe_text {n : ℕ} {a : Amount} (h : a.fraction.length ≤ n) :
    numberRe n a.text = some (submatches a) := by
  obtain ⟨⟨d, rest, hwhole⟩, -⟩ := whole_text_spec a.whole
  have hminus : a.text.takeWhile (· = '-') = minusText a.negative ∧
      a.text.dropWhile (· = '-') = a.whole.text ++ fractionText a.fraction := by
    have hd : d.char ≠ '-' := Importer.digit_ne d.isDigit_char rfl
    have hneg : ∀ c ∈ minusText a.negative, decide (c = '-') = true := fun c hc =>
      decide_eq_true (Importer.eq_of_mem_minusText hc)
    rw [Amount.text, List.append_assoc, List.takeWhile_append_of_pos hneg,
      List.dropWhile_append_of_pos hneg, hwhole, List.cons_append,
      List.takeWhile_cons_of_neg (by simpa using hd), List.dropWhile_cons_of_neg (by simpa using hd)]
    exact ⟨List.append_nil _, rfl⟩
  obtain ⟨hnone, hall, htail, hempty⟩ := fractionText_point a.fraction
  have htake : (a.whole.text ++ fractionText a.fraction).takeWhile (· ≠ '.') = a.whole.text := by
    rw [List.takeWhile_append_of_pos (whole_text_no_point _), hnone, List.append_nil]
  have hdrop : (a.whole.text ++ fractionText a.fraction).dropWhile (· ≠ '.') =
      fractionText a.fraction := by
    rw [List.dropWhile_append_of_pos (whole_text_no_point _), hall]
  have hshort : (minusText a.negative).length ≤ 1 := by
    cases a.negative <;> decide
  have hre := wholeRe_iff.mpr ⟨a.whole, rfl⟩
  have hdigits : (digitsText a.fraction).all Char.isDigit = true :=
    List.all_eq_true.mpr fun c hc => isDigit_of_mem hc
  have hpoint : ((fractionText a.fraction).isEmpty || (!(digitsText a.fraction).isEmpty &&
      decide ((digitsText a.fraction).length ≤ n) && (digitsText a.fraction).all Char.isDigit)) =
      true := by
    by_cases hf : a.fraction = []
    · rw [hempty.mpr hf, Bool.true_or]
    · have hne : (digitsText a.fraction).isEmpty = false :=
        List.isEmpty_eq_false_iff.mpr fun hnil => hf (digitsText_eq_nil.mp hnil)
      rw [hne, hdigits, length_digitsText, decide_eq_true h]
      exact Bool.or_true _
  unfold numberRe
  simp only [hminus.1, hminus.2, htake, hdrop, htail, hre, hshort, hpoint, decide_true,
    Bool.and_self, if_true]
  rfl

theorem exists_amount {n : ℕ} {s : List Char} {m : List Char × List Char × List Char}
    (h : numberRe n s = some m) :
    ∃ a : Amount, a.fraction.length ≤ n ∧ s = a.text ∧ m = submatches a := by
  unfold numberRe at h
  dsimp only at h
  split at h
  · rename_i hmatch
    obtain rfl := Option.some.inj h
    simp only [Bool.and_eq_true, Bool.or_eq_true, decide_eq_true_eq, Bool.not_eq_true',
      List.isEmpty_eq_false_iff, List.all_eq_true] at hmatch
    obtain ⟨⟨hminus, hwhole⟩, hpoint⟩ := hmatch
    obtain ⟨w, hw⟩ := wholeRe_iff.mp hwhole
    have hneg : ∃ negative, s.takeWhile (· = '-') = minusText negative := by
      have hall : ∀ c ∈ s.takeWhile (· = '-'), c = '-' := by
        intro c hc
        have hdash := List.mem_takeWhile_imp hc
        simpa using hdash
      match hs : s.takeWhile (· = '-'), hminus with
      | [], _ => exact ⟨false, rfl⟩
      | [c], _ =>
        rw [hs] at hall
        rw [hall c (List.mem_singleton_self c)]
        exact ⟨true, rfl⟩
    obtain ⟨negative, hneg⟩ := hneg
    have hrest : ∃ fraction : List Digit, fraction.length ≤ n ∧
        (s.dropWhile (· = '-')).dropWhile (· ≠ '.') = fractionText fraction ∧
        ((s.dropWhile (· = '-')).dropWhile (· ≠ '.')).tail = digitsText fraction := by
      rcases hpoint with hnone | ⟨⟨hne, hlen⟩, hdigits⟩
      · have hnil := List.isEmpty_iff.mp hnone
        exact ⟨[], Nat.zero_le n, hnil, by rw [hnil]; rfl⟩
      · obtain ⟨fraction, hfraction⟩ := exists_digitsText hdigits
        rw [← hfraction, length_digitsText] at hlen
        have hfne : fraction ≠ [] := by
          rintro rfl
          exact hne hfraction.symm
        refine ⟨fraction, hlen, ?_, hfraction.symm⟩
        -- what follows the whole part opens with the point
        have hcons : (s.dropWhile (· = '-')).dropWhile (· ≠ '.') ≠ [] := by
          intro hnil
          rw [hnil] at hne
          exact hne rfl
        obtain ⟨c, t, hct⟩ := List.exists_cons_of_ne_nil hcons
        have hhead : ∀ c ∈ ((s.dropWhile (· = '-')).dropWhile (· ≠ '.')).head?,
            decide (c ≠ '.') = false := dropWhile_head
        have hc := hhead c (by rw [hct]; rfl)
        obtain rfl : c = '.' := by simpa using hc
        rw [hct] at hfraction ⊢
        rw [fractionText, if_neg hfne, hfraction]
        rfl
    obtain ⟨fraction, hlen, hpoint', htail⟩ := hrest
    refine ⟨⟨negative, w, fraction⟩, hlen, ?_, ?_⟩
    · have hone := List.takeWhile_append_dropWhile (p := (· = '-')) (l := s)
      have htwo := List.takeWhile_append_dropWhile (p := (· ≠ '.')) (l := s.dropWhile (· = '-'))
      rw [Amount.text, ← hneg, ← hw, ← hpoint', List.append_assoc, htwo, hone]
    · rw [submatches, ← hneg, ← hw, ← htail]
  · cases h

theorem ungrouped_submatches (a : Amount) :
    (ungrouped (submatches a)).toList = (ungroupedAmount a).text := by
  have hfilter : a.whole.text.filter (fun c => c ≠ ',') = digitsText (wholeDigits a.whole) :=
    uncommaed_whole a.whole
  have hfraction : (if (digitsText a.fraction).isEmpty then [] else '.' :: digitsText a.fraction) =
      fractionText a.fraction := by
    unfold fractionText
    simp only [List.isEmpty_iff, digitsText_eq_nil]
  unfold ungrouped submatches
  dsimp only
  rw [String.toList_ofList, hfilter, hfraction]
  rfl

def reAmount (raw : String) : Option (List Char × List Char × List Char) :=
  numberRe 2 ((dropCurrency (trim reSpace raw.toList)).dropWhile reSpace)

theorem normalizeAmount_eq (raw : String) :
    normalizeAmount raw = ((reAmount raw).map ungrouped).toList := rfl

def currencies : List (List Char) := [[], ['N', 'G', 'N'], ['₦'], ['N']]

theorem exists_currency (s : List Char) : ∃ currency ∈ currencies, s = currency ++ dropCurrency s := by
  unfold dropCurrency
  split
  · exact ⟨['N', 'G', 'N'], by decide, rfl⟩
  · exact ⟨['₦'], by decide, rfl⟩
  · exact ⟨['N'], by decide, rfl⟩
  · exact ⟨[], by decide, rfl⟩

def Prints (raw : String) (a : Amount) : Prop :=
  ∃ front currency gap back, raw.toList = front ++ (currency ++ (gap ++ a.text)) ++ back ∧
    currency ∈ currencies ∧ (∀ c ∈ front, reSpace c = true) ∧ (∀ c ∈ gap, reSpace c = true) ∧
    ∀ c ∈ back, reSpace c = true

theorem prints_of_reAmount {raw : String} {m : List Char × List Char × List Char}
    (h : reAmount raw = some m) :
    ∃ a : Amount, a.fraction.length ≤ 2 ∧ m = submatches a ∧ Prints raw a := by
  obtain ⟨a, hlen, htext, rfl⟩ := exists_amount h
  obtain ⟨front, back, hraw, hfront, hback, -⟩ := exists_trim reSpace raw.toList
  obtain ⟨currency, hcurrency, htrim⟩ := exists_currency (trim reSpace raw.toList)
  refine ⟨a, hlen, rfl, front, currency,
    (dropCurrency (trim reSpace raw.toList)).takeWhile reSpace, back, ?_, hcurrency, hfront,
    fun c hc => List.mem_takeWhile_imp hc, hback⟩
  rw [← htext, List.takeWhile_append_dropWhile, ← htrim]
  exact hraw

theorem mem_ungroupedText {a : Amount} {c : Char} (h : c ∈ (ungroupedAmount a).text) :
    c = '-' ∨ c = '.' ∨ c.isDigit = true := by
  rcases List.mem_append.mp h with h | h
  · rcases List.mem_append.mp h with h | h
    · exact .inl (Importer.eq_of_mem_minusText h)
    · exact .inr (.inr (isDigit_of_mem h))
  · change c ∈ fractionText a.fraction at h
    unfold fractionText at h
    split at h
    · cases h
    · rcases List.mem_cons.mp h with rfl | h
      · exact .inr (.inl rfl)
      · exact .inr (.inr (isDigit_of_mem h))

theorem reSpace_digit {c : Char} (h : c.isDigit = true) : reSpace c = false := by
  obtain ⟨d, rfl⟩ := Digit.exists_char h
  revert d
  decide

theorem ungroupedText_blank {a : Amount} : ∀ c ∈ (ungroupedAmount a).text, reSpace c = false := by
  intro c hc
  rcases mem_ungroupedText hc with rfl | rfl | hdigit
  · rfl
  · rfl
  · exact reSpace_digit hdigit

theorem dropCurrency_of_head {c : Char} (hn : c ≠ 'N') (hnaira : c ≠ '₦') (s : List Char) :
    dropCurrency (c :: s) = c :: s := by
  unfold dropCurrency
  split
  · rename_i heq
    exact absurd (List.cons.inj heq).1 hn
  · rename_i heq
    exact absurd (List.cons.inj heq).1 hnaira
  · rename_i heq
    exact absurd (List.cons.inj heq).1 hn
  · rfl

theorem normalizeAmount_of_text {a : Amount} (hlen : a.fraction.length ≤ 2) {r : String}
    (hr : r.toList = (ungroupedAmount a).text) : normalizeAmount r = [r] := by
  have htrim : trim reSpace r.toList = r.toList := by
    rw [hr]
    exact trim_of_tight (Tight.of_forall ungroupedText_blank)
  have hmark : dropCurrency r.toList = r.toList := by
    cases htext : r.toList with
    | nil => rfl
    | cons c s =>
      have hc := mem_ungroupedText (hr ▸ htext ▸ List.mem_cons_self : c ∈ (ungroupedAmount a).text)
      have hword : ∀ d : Char, d.isDigit = false → d ≠ '-' → d ≠ '.' → c ≠ d := by
        rintro d hd hdash hpoint rfl
        rcases hc with hc | hc | hc
        · exact hdash hc
        · exact hpoint hc
        · exact Importer.digit_ne hc hd rfl
      exact dropCurrency_of_head (hword 'N' rfl (by decide) (by decide))
        (hword '₦' rfl (by decide) (by decide)) s
  have hhead : r.toList.dropWhile reSpace = r.toList := by
    rw [hr]
    exact dropWhile_of_head (Tight.of_forall ungroupedText_blank).1
  have hre : reAmount r = some (submatches (ungroupedAmount a)) := by
    have hnumber : numberRe 2 (ungroupedAmount a).text = some (submatches (ungroupedAmount a)) :=
      numberRe_text hlen
    rw [reAmount, htrim, hmark, hhead, hr, hnumber]
  have hself : ungrouped (submatches (ungroupedAmount a)) = r :=
    String.toList_inj.mp ((ungrouped_submatches _).trans hr.symm)
  rw [normalizeAmount_eq, hre, Option.map_some, hself]
  rfl

theorem decimalValue_ungrouped (a : Amount) :
    decimalValue (ungroupedAmount a).text = a.value := by
  have h : decimalValue (minusText a.negative ++ digitsText (wholeDigits a.whole) ++
      fractionText a.fraction) = _ :=
    Importer.decimalValue_text (wholeDigits_ne_nil a.whole) a.fraction
  rw [Amount.value, value_whole]
  exact h

theorem number_lt (ds : List Digit) : number ds < 10 ^ ds.length := by
  induction ds with
  | nil => exact Nat.one_pos
  | cons d ds ih =>
    have hcons : number (d :: ds) = d.val * 10 ^ ds.length + number ds := by
      rw [number, List.foldl_cons, foldl_number, Nat.mul_zero, Nat.zero_add]
    have hd : d.val * 10 ^ ds.length ≤ 9 * 10 ^ ds.length :=
      Nat.mul_le_mul_right _ (Nat.le_of_lt_succ d.isLt)
    rw [hcons, List.length_cons, pow_succ]
    omega

theorem abs_value_lt_iff (a : Amount) (bound : ℕ) : |a.value| < bound ↔ a.whole.value < bound := by
  have hfraction : (number a.fraction : ℚ) / 10 ^ a.fraction.length < 1 := by
    rw [div_lt_one (by positivity)]
    exact_mod_cast number_lt a.fraction
  have hpos : (0 : ℚ) ≤ number a.fraction / 10 ^ a.fraction.length := by positivity
  have habs : |a.value| = a.whole.value + number a.fraction / 10 ^ a.fraction.length := by
    have hsign : |sign a.negative| = 1 := by
      cases a.negative with
      | true => norm_num [sign]
      | false => norm_num [sign]
    rw [Amount.value, abs_mul, hsign, one_mul, abs_of_nonneg (by positivity)]
  rw [habs]
  constructor
  · intro h
    have hwhole : (a.whole.value : ℚ) < bound := by linarith
    exact_mod_cast hwhole
  · intro h
    have hwhole : (a.whole.value : ℚ) + 1 ≤ bound := by exact_mod_cast h
    linarith

end InvoiceOs.Extraction
