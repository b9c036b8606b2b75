import InvoiceOs.Extraction.PrintedAmounts
import InvoiceOs.Extraction.Shapes
import InvoiceOs.Invoice.ContentStream
import Mathlib.Tactic.IntervalCases
import Mathlib.Tactic.NormNum

/-! The shapes are projections: a reading reads as itself. An amount keeps the number printed, a
date is a day of the calendar, and each fits its column unless the text already overflows it. -/

namespace InvoiceOs.Extraction

open Lib
open Importer (Amount Group Whole minusText fractionText groupsText uncommaed decimalValue)
open Invoice (padLeft padChars)

/-! ### Days -/

def Day (year month day : ℕ) (r : String) : Prop :=
  1 ≤ month ∧ month ≤ 12 ∧ 1 ≤ day ∧ day ≤ daysIn month year ∧
    r = padLeft 4 year ++ "-" ++ padLeft 2 month ++ "-" ++ padLeft 2 day

theorem isoOf_iff {year month day : ℕ} {rest : List Char} {r : String} :
    isoOf year month day rest = some r ↔ rest = [] ∧ Day year month day r := by
  unfold isoOf Day
  split
  · rename_i h
    rw [Option.some.injEq]
    exact ⟨fun heq => ⟨h.1, h.2.1, h.2.2.1, h.2.2.2.1, h.2.2.2.2, heq.symm⟩,
      fun hday => hday.2.2.2.2.2.symm⟩
  · rename_i h
    refine ⟨nofun, fun hday => (h ?_).elim⟩
    exact ⟨hday.1, hday.2.1, hday.2.2.1, hday.2.2.2.1, hday.2.2.2.2.1⟩

theorem daysIn_le (month year : ℕ) : daysIn month year ≤ 31 := by
  unfold daysIn
  split
  · split <;> decide
  all_goals decide

theorem padChars_digits {w n : ℕ} (h : n < 10 ^ w) (hw : 0 < w) :
    ∃ ds : List Digit, ds.length = w ∧ number ds = n ∧ padChars w n = digitsText ds := by
  obtain ⟨ds, hds⟩ := exists_digitsText fun c hc => Invoice.isDigit_of_mem_padChars (w := w) (n := n) hc
  have hlen : (digits n).length ≤ w := by
    rw [digits_eq]
    exact Nat.length_toDigits_le_iff (by decide) hw |>.mpr h
  have hvalue : readDigits (padChars w n) = n := by
    change Nat.ofDigitChars 10 (padChars w n) 0 = n
    rw [padChars, Nat.ofDigitChars_append, Nat.ofDigitChars_replicate_zero, Nat.mul_zero,
      digits_eq]
    exact Nat.ofDigitChars_ten_toDigits
  refine ⟨ds, ?_, ?_, hds.symm⟩
  · rw [← length_digitsText ds, hds, padChars, List.length_append, List.length_replicate]
    omega
  · rw [← readDigits_text, hds, hvalue]

/-! ### The layouts -/

theorem toNat_char (d : Digit) : d.char.toNat - 48 = d.val := digitValue_char d

theorem twoDigits_text (a b : Digit) (rest : List Char) :
    twoDigits (digitsText [a, b] ++ rest) = some (number [a, b], rest) := by
  change twoDigits (a.char :: b.char :: rest) = _
  simp only [twoDigits, Digit.isDigit_char, Bool.and_self, if_true, toNat_char, number,
    List.foldl_cons, List.foldl_nil, Nat.mul_zero, Nat.zero_add]

theorem fourDigits_text (a b c d : Digit) (rest : List Char) :
    fourDigits (digitsText [a, b, c, d] ++ rest) = some (number [a, b, c, d], rest) := by
  have hhigh := twoDigits_text a b (digitsText [c, d] ++ rest)
  have hlow := twoDigits_text c d rest
  have hsplit : digitsText [a, b, c, d] ++ rest =
      digitsText [a, b] ++ (digitsText [c, d] ++ rest) := rfl
  have hnumber := number_append [a, b] [c, d]
  rw [hsplit, fourDigits, hhigh, Option.bind_eq_bind, Option.bind_some]
  dsimp only
  rw [hlow, Option.bind_some, Nat.mul_comm]
  exact congrArg (fun n => some (n, rest)) hnumber.symm

theorem twoDigits_pad {n : ℕ} (h : n < 100) (rest : List Char) :
    twoDigits (padChars 2 n ++ rest) = some (n, rest) := by
  obtain ⟨ds, hlen, hnumber, htext⟩ := padChars_digits (w := 2) h (by decide)
  match ds, hlen with
  | [a, b], _ => rw [htext, twoDigits_text, hnumber]

theorem fourDigits_pad {n : ℕ} (h : n < 10000) (rest : List Char) :
    fourDigits (padChars 4 n ++ rest) = some (n, rest) := by
  obtain ⟨ds, hlen, hnumber, htext⟩ := padChars_digits (w := 4) h (by decide)
  match ds, hlen with
  | [a, b, c, d], _ => rw [htext, fourDigits_text, hnumber]

theorem toList_day {year month day : ℕ} {r : String} (h : Day year month day r) :
    r.toList = padChars 4 year ++ ('-' :: (padChars 2 month ++ ('-' :: padChars 2 day))) := by
  rw [h.2.2.2.2]
  simp only [String.toList_append, Invoice.padLeft_toList, List.append_assoc]
  rfl

theorem normalizeDate_of_day {year month day : ℕ} {r : String} (hyear : year < 10000)
    (h : Day year month day r) : normalizeDate r = [r] := by
  have hblank : ∀ c ∈ r.toList, isSpace c = false := by
    intro c hc
    rw [toList_day h] at hc
    simp only [List.mem_append, List.mem_cons] at hc
    have hdigit : ∀ {w n}, c ∈ padChars w n → isSpace c = false := fun hc =>
      Importer.isSpace_digit (Invoice.isDigit_of_mem_padChars hc)
    rcases hc with hc | rfl | hc | rfl | hc
    · exact hdigit hc
    · rfl
    · exact hdigit hc
    · rfl
    · exact hdigit hc
  have htrim : (trimSpace r).toList = r.toList := by
    rw [toList_trimSpace]
    exact trim_of_tight (Tight.of_forall hblank)
  have hmonth : month < 100 := lt_of_le_of_lt h.2.1 (by decide)
  have hday : day < 100 := lt_of_le_of_lt (h.2.2.2.1.trans (daysIn_le month year)) (by decide)
  have hlast := twoDigits_pad hday []
  rw [List.append_nil] at hlast
  have hparse : parseISO r.toList = some r := by
    rw [toList_day h, parseISO, fourDigits_pad hyear]
    simp only [Option.bind_eq_bind, Option.bind_some, skipChar, if_true, twoDigits_pad hmonth, hlast]
    exact isoOf_iff.mpr ⟨rfl, h⟩
  unfold normalizeDate
  dsimp only
  rw [htrim, hparse]

theorem twoDigits_lt {cs rest : List Char} {n : ℕ} (h : twoDigits cs = some (n, rest)) :
    n < 100 := by
  unfold twoDigits at h
  split at h
  · split at h
    · rename_i a b s hdigits
      obtain ⟨ha, hb⟩ := Bool.and_eq_true_iff.mp hdigits
      obtain ⟨x, rfl⟩ := Digit.exists_char ha
      obtain ⟨y, rfl⟩ := Digit.exists_char hb
      obtain ⟨rfl, -⟩ := Prod.mk.inj (Option.some.inj h)
      rw [toNat_char, toNat_char]
      omega
    · cases h
  · cases h

theorem fourDigits_lt {cs rest : List Char} {n : ℕ} (h : fourDigits cs = some (n, rest)) :
    n < 10000 := by
  obtain ⟨⟨high, s⟩, hhigh, h⟩ := Option.bind_eq_some_iff.mp h
  obtain ⟨⟨low, t⟩, hlow, h⟩ := Option.bind_eq_some_iff.mp h
  obtain ⟨rfl, -⟩ := Prod.mk.inj (Option.some.inj h)
  have hhigh := twoDigits_lt hhigh
  have hlow := twoDigits_lt hlow
  omega

def IsDay (r : String) : Prop := ∃ year month day, year < 10000 ∧ Day year month day r

theorem isDay_parseISO {cs : List Char} {r : String} (h : parseISO cs = some r) : IsDay r := by
  obtain ⟨⟨year, cs⟩, hyear, h⟩ := Option.bind_eq_some_iff.mp h
  obtain ⟨cs, -, h⟩ := Option.bind_eq_some_iff.mp h
  obtain ⟨⟨month, cs⟩, -, h⟩ := Option.bind_eq_some_iff.mp h
  obtain ⟨cs, -, h⟩ := Option.bind_eq_some_iff.mp h
  obtain ⟨⟨day, cs⟩, -, h⟩ := Option.bind_eq_some_iff.mp h
  exact ⟨year, month, day, fourDigits_lt hyear, (isoOf_iff.mp h).2⟩

theorem isDay_parseDayMonth {cs : List Char} {r : String} (h : parseDayMonth cs = some r) :
    IsDay r := by
  obtain ⟨⟨day, cs⟩, -, h⟩ := Option.bind_eq_some_iff.mp h
  obtain ⟨cs, -, h⟩ := Option.bind_eq_some_iff.mp h
  obtain ⟨⟨month, cs⟩, -, h⟩ := Option.bind_eq_some_iff.mp h
  obtain ⟨cs, -, h⟩ := Option.bind_eq_some_iff.mp h
  obtain ⟨⟨year, cs⟩, hyear, h⟩ := Option.bind_eq_some_iff.mp h
  exact ⟨year, month, day, fourDigits_lt hyear, (isoOf_iff.mp h).2⟩

theorem isDay_parseMonthDay {cs : List Char} {r : String} (h : parseMonthDay cs = some r) :
    IsDay r := by
  obtain ⟨⟨month, cs⟩, -, h⟩ := Option.bind_eq_some_iff.mp h
  obtain ⟨cs, -, h⟩ := Option.bind_eq_some_iff.mp h
  obtain ⟨⟨day, cs⟩, -, h⟩ := Option.bind_eq_some_iff.mp h
  obtain ⟨cs, -, h⟩ := Option.bind_eq_some_iff.mp h
  obtain ⟨cs, -, h⟩ := Option.bind_eq_some_iff.mp h
  obtain ⟨⟨year, cs⟩, hyear, h⟩ := Option.bind_eq_some_iff.mp h
  exact ⟨year, month, day, fourDigits_lt hyear, (isoOf_iff.mp h).2⟩

theorem year_numericDate {sep : Char} {cs : List Char} {a b year : ℕ}
    (h : numericDate sep cs = some (a, b, year)) : year < 10000 := by
  obtain ⟨⟨a', cs⟩, -, h⟩ := Option.bind_eq_some_iff.mp h
  obtain ⟨cs, -, h⟩ := Option.bind_eq_some_iff.mp h
  obtain ⟨⟨b', cs⟩, -, h⟩ := Option.bind_eq_some_iff.mp h
  obtain ⟨cs, -, h⟩ := Option.bind_eq_some_iff.mp h
  obtain ⟨⟨year', cs⟩, hyear, h⟩ := Option.bind_eq_some_iff.mp h
  dsimp only at h
  split at h
  · obtain ⟨-, h⟩ := Prod.mk.inj (Option.some.inj h)
    obtain ⟨-, rfl⟩ := Prod.mk.inj h
    exact fourDigits_lt hyear
  · cases h

theorem mem_numericDateReadings {a b year : ℕ} {r : String} :
    r ∈ numericDateReadings a b year ↔ Day year b a r ∨ Day year a b r := by
  have hday : ∀ m d, r ∈ (isoOf year m d []).toList ↔ Day year m d r := by
    intro m d
    rw [Option.mem_toList, isoOf_iff]
    exact and_iff_right rfl
  unfold numericDateReadings
  dsimp only
  rw [List.mem_append, List.mem_filter, decide_eq_true_eq, hday, hday]
  constructor
  · exact Or.imp_right And.left
  · rintro (h | h)
    · exact .inl h
    · by_cases hsame : (isoOf year b a []).toList = [r]
      · refine .inl ((hday b a).mp ?_)
        rw [hsame]
        exact List.mem_singleton_self r
      · exact .inr ⟨h, hsame⟩

theorem nodup_numericDateReadings (a b year : ℕ) : (numericDateReadings a b year).Nodup := by
  unfold numericDateReadings
  dsimp only
  cases isoOf year b a [] with
  | none =>
    cases isoOf year a b [] with
    | none => exact List.nodup_nil
    | some iso =>
      rw [Option.toList_none, List.nil_append, Option.toList_some]
      exact (List.nodup_singleton iso).filter _
  | some first =>
    cases isoOf year a b [] with
    | none => exact List.nodup_singleton first
    | some iso =>
      dsimp only [Option.toList_some]
      by_cases hsame : [first] = [iso]
      · rw [List.filter_cons_of_neg (by simpa using hsame)]
        exact List.nodup_singleton first
      · rw [List.filter_cons_of_pos (by simpa using hsame)]
        have hne : first ≠ iso := fun h => hsame (by rw [h])
        exact List.nodup_cons.mpr ⟨by simpa using hne, List.nodup_singleton iso⟩

theorem of_orElse {α : Type} {x y : Option α} {a : α} (h : (x <|> y) = some a) :
    x = some a ∨ y = some a := by
  cases x with
  | none => exact .inr h
  | some b => exact .inl h

theorem isDay_normalizeDate {raw r : String} (h : r ∈ normalizeDate raw) : IsDay r := by
  unfold normalizeDate at h
  dsimp only at h
  split at h
  · rename_i iso hiso
    rw [List.mem_singleton.mp h]
    exact isDay_parseISO hiso
  split at h
  · rename_i a b year hnumeric
    have hyear : year < 10000 := by
      rcases of_orElse hnumeric with hnumeric | hnumeric
      · exact year_numericDate hnumeric
      rcases of_orElse hnumeric with hnumeric | hnumeric
      · exact year_numericDate hnumeric
      · exact year_numericDate hnumeric
    rcases mem_numericDateReadings.mp h with h | h
    · exact ⟨_, _, _, hyear, h⟩
    · exact ⟨_, _, _, hyear, h⟩
  · rcases of_orElse (Option.mem_toList.mp h) with h | h
    · exact isDay_parseDayMonth h
    · exact isDay_parseMonthDay h

/-! ### `NN/NN/YYYY` -/

theorem shortNumber_text {ds : List Digit} (hne : ds ≠ []) (hlen : ds.length ≤ 2) {sep : Char}
    (hsep : sep.isDigit = false) (rest : List Char) :
    shortNumber (digitsText ds ++ sep :: rest) = some (number ds, sep :: rest) := by
  match ds, hlen with
  | [], _ => exact absurd rfl hne
  | [a], _ =>
    change shortNumber (a.char :: sep :: rest) = _
    simp [shortNumber, Digit.isDigit_char, hsep, toNat_char, number]
  | [a, b], _ =>
    change shortNumber (a.char :: b.char :: sep :: rest) = _
    simp [shortNumber, Digit.isDigit_char, toNat_char, number]

def numericText (sep : Char) (a b : List Digit) (year : List Digit) : List Char :=
  digitsText a ++ sep :: (digitsText b ++ sep :: digitsText year)

theorem numericDate_text {sep : Char} (hsep : sep.isDigit = false) {a b year : List Digit}
    (ha : a ≠ []) (ha2 : a.length ≤ 2) (hb : b ≠ []) (hb2 : b.length ≤ 2)
    (hyear : year.length = 4) (t : Char) : numericDate t (numericText sep a b year) =
      if t = sep then some (number a, number b, number year) else none := by
  have hfour : fourDigits (digitsText year) = some (number year, []) := by
    match year, hyear with
    | [p, q, r, s], _ =>
      have h := fourDigits_text p q r s []
      rwa [List.append_nil] at h
  unfold numericDate numericText
  rw [shortNumber_text ha ha2 hsep]
  simp only [Option.bind_eq_bind, Option.bind_some, skipChar]
  by_cases ht : t = sep
  · subst ht
    simp only [if_true, Option.bind_some, shortNumber_text hb hb2 hsep, hfour]
  · rw [if_neg (Ne.symm ht), if_neg ht]
    rfl

theorem parseISO_text {sep : Char} (hsep : sep.isDigit = false) {a : List Digit} (ha : a ≠ [])
    (ha2 : a.length ≤ 2) (rest : List Char) : parseISO (digitsText a ++ sep :: rest) = none := by
  have hfour : fourDigits (digitsText a ++ sep :: rest) = none := by
    match a, ha2 with
    | [], _ => exact absurd rfl ha
    | [x], _ =>
      change fourDigits (x.char :: sep :: rest) = none
      simp [fourDigits, twoDigits, hsep]
    | [x, y], _ =>
      rw [fourDigits, twoDigits_text]
      cases rest with
      | nil => rfl
      | cons c rest => simp [twoDigits, hsep]
  rw [parseISO, hfour]
  rfl

theorem normalizeDate_numeric {raw : String} {sep : Char} (hsep : sep ∈ ['/', '-', '.'])
    {a b year : List Digit} (ha : a ≠ []) (ha2 : a.length ≤ 2) (hb : b ≠ []) (hb2 : b.length ≤ 2)
    (hyear : year.length = 4) (htext : (trimSpace raw).toList = numericText sep a b year) :
    normalizeDate raw = numericDateReadings (number a) (number b) (number year) := by
  have hnodigit : sep.isDigit = false := by
    simp only [List.mem_cons, List.not_mem_nil, or_false] at hsep
    obtain rfl | rfl | rfl := hsep <;> decide
  have hread := numericDate_text hnodigit ha ha2 hb hb2 hyear
  have hiso : parseISO (numericText sep a b year) = none := parseISO_text hnodigit ha ha2 _
  have hfound : (numericDate '/' (numericText sep a b year) <|>
      numericDate '-' (numericText sep a b year) <|>
      numericDate '.' (numericText sep a b year)) =
        some (number a, number b, number year) := by
    rw [hread, hread, hread]
    simp only [List.mem_cons, List.not_mem_nil, or_false] at hsep
    rcases hsep with rfl | rfl | rfl <;> rfl
  unfold normalizeDate
  dsimp only
  rw [htext, hiso, hfound]

/-! ### The other shapes -/

theorem trimSpace_trimSpace (s : String) : trimSpace (trimSpace s) = trimSpace s := by
  rw [← String.toList_inj, toList_trimSpace, toList_trimSpace, trim_trim]

theorem isAlpha_toUpper {c : Char} (h : c.isAlpha = true) :
    c.toUpper.isAlpha = true ∧ c.toUpper.toUpper = c.toUpper ∧ reSpace c.toUpper = false ∧
      c.toUpper ≠ Char.ofNat 0 := by
  have hrange : (65 ≤ c.toNat ∧ c.toNat ≤ 90) ∨ (97 ≤ c.toNat ∧ c.toNat ≤ 122) := by
    have hletter : c.isAlpha = (decide (65 ≤ c.val ∧ c.val ≤ 90) ||
        (decide (97 ≤ c.val) && decide (c.val ≤ 122))) := rfl
    simp only [hletter, Bool.or_eq_true, Bool.and_eq_true, decide_eq_true_eq,
      UInt32.le_iff_toNat_le] at h
    exact h
  rw [← Char.ofNat_toNat c]
  generalize c.toNat = n at hrange
  rcases hrange with ⟨hlow, hhigh⟩ | ⟨hlow, hhigh⟩
  · interval_cases n <;> decide
  · interval_cases n <;> decide

theorem normalizeTIN_fixed {raw r : String} (h : r ∈ normalizeTIN raw) :
    normalizeTIN r = [r] ∧ ∀ c ∈ r.toList, c.isDigit = true ∨ c = '-' := by
  unfold normalizeTIN at h
  dsimp only at h
  split at h
  · rename_i rest _
    split at h
    · rename_i hmatch
      obtain rfl := List.mem_singleton.mp h
      simp only [allDigits, Bool.and_eq_true, decide_eq_true_eq, List.all_eq_true] at hmatch
      obtain ⟨⟨hlen, hfirst⟩, hlen', hlast⟩ := hmatch
      generalize (trim reSpace raw.toList).take 8 = first at hlen hfirst ⊢
      generalize rest.dropWhile reSpace = last at hlen' hlast ⊢
      have hchars : ∀ c ∈ first ++ '-' :: last, c.isDigit = true ∨ c = '-' := by
        intro c hc
        rcases List.mem_append.mp hc with hc | hc
        · exact .inl (hfirst c hc)
        · rcases List.mem_cons.mp hc with rfl | hc
          · exact .inr rfl
          · exact .inl (hlast c hc)
      rw [String.toList_ofList]
      refine ⟨?_, hchars⟩
      have hblank : ∀ c ∈ first ++ '-' :: last, reSpace c = false := by
        intro c hc
        rcases hchars c hc with hc | rfl
        · exact reSpace_digit hc
        · rfl
      have hlastBlank : last.dropWhile reSpace = last :=
        dropWhile_of_head (Tight.of_forall fun c hc => reSpace_digit (hlast c hc)).1
      have htake : (first ++ '-' :: last).take 8 = first := by
        rw [← hlen, List.take_left]
      have hdrop : (first ++ '-' :: last).drop 8 = '-' :: last := by
        rw [← hlen, List.drop_left]
      have hdash : ('-' :: last).dropWhile reSpace = '-' :: last := rfl
      have hdigits : allDigits 8 first = true := by
        rw [allDigits, hlen, List.all_eq_true.mpr hfirst]
        rfl
      have hdigits' : allDigits 4 last = true := by
        rw [allDigits, hlen', List.all_eq_true.mpr hlast]
        rfl
      unfold normalizeTIN
      rw [String.toList_ofList, trim_of_tight (Tight.of_forall hblank)]
      simp only [htake, hdrop, hdash, hlastBlank, hdigits, hdigits', Bool.and_self, if_true]
    · cases h
  · cases h

theorem normalizeCurrency_fixed {raw r : String} (h : r ∈ normalizeCurrency raw) :
    normalizeCurrency r = [r] ∧ ∀ c ∈ r.toList, c ≠ Char.ofNat 0 := by
  unfold normalizeCurrency at h
  dsimp only at h
  split at h
  · rename_i hcode
    obtain rfl := List.mem_singleton.mp h
    obtain ⟨hlen, halpha⟩ := Bool.and_eq_true_iff.mp hcode
    generalize trim reSpace raw.toList = code at hlen halpha ⊢
    have hupper : ∀ c ∈ code, _ := fun c hc => isAlpha_toUpper (List.all_eq_true.mp halpha c hc)
    have hblank : ∀ c ∈ code.map Char.toUpper, reSpace c = false := by
      intro c hc
      obtain ⟨d, hd, rfl⟩ := List.mem_map.mp hc
      exact (hupper d hd).2.2.1
    have htrim : trim reSpace (code.map Char.toUpper) = code.map Char.toUpper :=
      trim_of_tight (Tight.of_forall hblank)
    have halpha' : (code.map Char.toUpper).all Char.isAlpha = true := by
      refine List.all_eq_true.mpr fun c hc => ?_
      obtain ⟨d, hd, rfl⟩ := List.mem_map.mp hc
      exact (hupper d hd).1
    have hsame : (code.map Char.toUpper).map Char.toUpper = code.map Char.toUpper := by
      rw [List.map_map]
      exact List.map_congr_left fun c hc => (hupper c hc).2.1
    refine ⟨?_, ?_⟩
    · unfold normalizeCurrency
      rw [String.toList_ofList, htrim]
      dsimp only
      rw [List.length_map, hlen, halpha', hsame]
      rfl
    · rw [String.toList_ofList]
      intro c hc
      obtain ⟨d, hd, rfl⟩ := List.mem_map.mp hc
      exact (hupper d hd).2.2.2
  split at h
  · obtain rfl := List.mem_singleton.mp h
    refine ⟨by decide +kernel, fun c hc => ?_⟩
    have hletters : c = 'N' ∨ c = 'G' ∨ c = 'N' := by simpa using hc
    obtain rfl | rfl | rfl := hletters <;> decide
  · cases h

theorem normalizeInvoiceNumber_fixed {R : Runtime} {raw r : String}
    (h : r ∈ normalizeInvoiceNumber R raw) :
    normalizeInvoiceNumber R r = [r] ∧ reInvNum r.toList = true := by
  unfold normalizeInvoiceNumber at h
  dsimp only at h
  split at h
  · cases h
  rename_i hre
  split at h
  · cases h
  rename_i hother
  obtain rfl := List.mem_singleton.mp h
  refine ⟨?_, by simpa using hre⟩
  unfold normalizeInvoiceNumber
  rw [trimSpace_trimSpace]
  dsimp only
  rw [if_neg hre, if_neg hother]

theorem normalizeName_fixed {R : Runtime} {raw r : String} (h : r ∈ normalizeName R raw) :
    normalizeName R r = [r] ∧ r = trimSpace raw := by
  unfold normalizeName at h
  dsimp only at h
  split at h
  · cases h
  rename_i hlen
  split at h
  · cases h
  rename_i hlabel
  obtain rfl := List.mem_singleton.mp h
  refine ⟨?_, rfl⟩
  unfold normalizeName
  rw [trimSpace_trimSpace]
  dsimp only
  rw [if_neg hlen, if_neg hlabel]

theorem normalizeEmail_fixed {raw r : String} (h : r ∈ normalizeEmail raw) :
    normalizeEmail r = [r] ∧ r = trimSpace raw := by
  unfold normalizeEmail at h
  dsimp only at h
  split at h
  · cases h
  rename_i hlen
  split at h
  · cases h
  rename_i hat
  split at h
  · cases h
  rename_i hdomain
  obtain rfl := List.mem_singleton.mp h
  refine ⟨?_, rfl⟩
  unfold normalizeEmail
  rw [trimSpace_trimSpace]
  dsimp only
  rw [if_neg hlen, if_neg hat, if_neg hdomain]

def phoneChar (c : Char) : Bool :=
  c = '+' || (c.isDigit || c = ' ' || c = '(' || c = ')' || c = '-' || c = '.')

theorem normalizePhone_fixed {raw r : String} (h : r ∈ normalizePhone raw) :
    normalizePhone r = [r] ∧ ∀ c ∈ r.toList, phoneChar c = true := by
  unfold normalizePhone at h
  dsimp only at h
  split at h
  · cases h
  rename_i hlen
  split at h
  · cases h
  rename_i hchars
  split at h
  · cases h
  rename_i hdigits
  obtain rfl := List.mem_singleton.mp h
  refine ⟨?_, ?_⟩
  · unfold normalizePhone
    rw [trimSpace_trimSpace]
    dsimp only
    rw [if_neg hlen, if_neg hchars, if_neg hdigits]
  · intro c hc
    rw [Bool.or_eq_true, not_or, Bool.not_eq_true', Bool.not_eq_true', Bool.not_eq_false,
      Bool.not_eq_false, List.all_eq_true] at hchars
    have haccepted : ∀ c, (c.isDigit || c = ' ' || c = '(' || c = ')' || c = '-' || c = '.') = true →
        phoneChar c = true := by
      intro c hc
      rw [phoneChar, hc, Bool.or_true]
    cases htext : (trimSpace raw).toList with
    | nil =>
      rw [htext] at hc
      cases hc
    | cons d rest =>
      rw [htext] at hc hchars
      rcases List.mem_cons.mp hc with rfl | hc
      · have hfirst := hchars.1
        rw [List.head?_cons, Option.all_some, Bool.or_eq_true] at hfirst
        rcases hfirst with hplus | hfirst
        · rw [of_decide_eq_true hplus]
          rfl
        · exact haccepted c hfirst
      · exact haccepted c (hchars.2 c hc)

/-! ### Every shape -/

def Fits (S : Shape) (r : String) : Prop :=
  match S with
  | .amount => |decimalValue r.toList| < (10 ^ 12 : ℕ)
  | .date => IsDay r
  | _ => hasNUL r = false

/-- What the shape makes of a text. No shape caps the digits of an amount. -/
structure Projects (R : Runtime) (S : Shape) (raw : String) : Prop where
  fixed : ∀ r ∈ S.normalize R raw, S.normalize R r = [r]
  amount : S = .amount → ∀ r ∈ S.normalize R raw, ∃ a : Amount, Prints raw a ∧
    r.toList = uncommaed a.text ∧ decimalValue r.toList = a.value ∧ a.fraction.length ≤ 2 ∧
      (Fits .amount r ↔ a.whole.value < 10 ^ 12)
  date : S = .date → (∀ r ∈ S.normalize R raw, IsDay r) ∧
    ∀ sep ∈ ['/', '-', '.'], ∀ a b year : List Digit, a.length ∈ [1, 2] → b.length ∈ [1, 2] →
      year.length = 4 → (trimSpace raw).toList = numericText sep a b year →
        (S.normalize R raw).Nodup ∧ ∀ r, r ∈ S.normalize R raw ↔
          Day (number year) (number b) (number a) r ∨ Day (number year) (number a) (number b) r
  text : S = .name ∨ S = .email → ∀ r ∈ S.normalize R raw, r = trimSpace raw
  fits : S ∉ [.amount, .name, .email] → ∀ r ∈ S.normalize R raw, Fits S r

theorem uncommaed_text (a : Amount) : uncommaed a.text = (ungroupedAmount a).text := by
  rw [Amount.text, Importer.uncommaed_append, Importer.uncommaed_append, uncommaed_whole,
    Importer.uncommaed_of_plain (Importer.minusText_ne_comma _),
    Importer.uncommaed_of_plain (Importer.fractionText_ne_comma _)]
  rfl

theorem exists_reading {raw r : String} (h : r ∈ normalizeAmount raw) : ∃ a : Amount,
    reAmount raw = some (submatches a) ∧ a.fraction.length ≤ 2 ∧ Prints raw a ∧
      r.toList = (ungroupedAmount a).text := by
  rw [normalizeAmount_eq, Option.mem_toList] at h
  obtain ⟨m, hm, rfl⟩ := Option.map_eq_some_iff.mp h
  obtain ⟨a, hlen, rfl, hprints⟩ := prints_of_reAmount hm
  exact ⟨a, hm, hlen, hprints, ungrouped_submatches a⟩

theorem fits_amount_iff {a : Amount} {r : String} (h : r.toList = (ungroupedAmount a).text) :
    Fits .amount r ↔ a.whole.value < 10 ^ 12 := by
  change |decimalValue r.toList| < ((10 ^ 12 : ℕ) : ℚ) ↔ _
  rw [h, decimalValue_ungrouped, abs_value_lt_iff]

theorem hasNUL_eq_false {s : String} (h : ∀ c ∈ s.toList, c ≠ Char.ofNat 0) :
    hasNUL s = false := by
  rw [hasNUL, Bool.eq_false_iff]
  intro hmem
  exact h _ (List.contains_iff_mem.mp hmem) rfl

theorem normalize_fixed {R : Runtime} (S : Shape) {raw r : String} (h : r ∈ S.normalize R raw) :
    S.normalize R r = [r] := by
  cases S with
  | invoiceNumber =>
    simp only [Shape.normalize] at h ⊢
    exact (normalizeInvoiceNumber_fixed h).1
  | date =>
    simp only [Shape.normalize] at h ⊢
    obtain ⟨year, month, day, hyear, hday⟩ := isDay_normalizeDate h
    exact normalizeDate_of_day hyear hday
  | amount =>
    simp only [Shape.normalize] at h ⊢
    obtain ⟨a, -, hlen, -, htext⟩ := exists_reading h
    exact normalizeAmount_of_text hlen htext
  | tin =>
    simp only [Shape.normalize] at h ⊢
    exact (normalizeTIN_fixed h).1
  | currency =>
    simp only [Shape.normalize] at h ⊢
    exact (normalizeCurrency_fixed h).1
  | name =>
    simp only [Shape.normalize] at h ⊢
    exact (normalizeName_fixed h).1
  | email =>
    simp only [Shape.normalize] at h ⊢
    exact (normalizeEmail_fixed h).1
  | phone =>
    simp only [Shape.normalize] at h ⊢
    exact (normalizePhone_fixed h).1

theorem normalizeDate_readings {raw : String} {sep : Char} (hsep : sep ∈ ['/', '-', '.'])
    {a b year : List Digit} (ha : a.length ∈ [1, 2]) (hb : b.length ∈ [1, 2])
    (hyear : year.length = 4) (htext : (trimSpace raw).toList = numericText sep a b year) :
    (normalizeDate raw).Nodup ∧ ∀ r, r ∈ normalizeDate raw ↔
      Day (number year) (number b) (number a) r ∨ Day (number year) (number a) (number b) r := by
  have hshort : ∀ ds : List Digit, ds.length ∈ [1, 2] → ds ≠ [] ∧ ds.length ≤ 2 := by
    intro ds hds
    simp only [List.mem_cons, List.not_mem_nil, or_false] at hds
    exact ⟨List.ne_nil_of_length_pos (by omega), by omega⟩
  rw [normalizeDate_numeric hsep (hshort a ha).1 (hshort a ha).2 (hshort b hb).1 (hshort b hb).2
    hyear htext]
  exact ⟨nodup_numericDateReadings _ _ _, fun r => mem_numericDateReadings⟩

theorem normalize_fits {R : Runtime} {S : Shape} (hS : S ∉ [.amount, .name, .email])
    {raw r : String} (h : r ∈ S.normalize R raw) : Fits S r := by
  cases S with
  | invoiceNumber =>
    simp only [Shape.normalize, Fits] at h ⊢
    refine hasNUL_eq_false fun c hc hnul => ?_
    have hre := (normalizeInvoiceNumber_fixed h).2
    simp only [reInvNum, Bool.and_eq_true, List.all_eq_true] at hre
    cases htext : r.toList with
    | nil =>
      rw [htext] at hc
      cases hc
    | cons d rest =>
      rw [htext] at hc hre
      rcases List.mem_cons.mp hc with rfl | hc
      · have hfirst := hre.1.1
        rw [hnul] at hfirst
        cases hfirst
      · have hlater := hre.2 c hc
        rw [hnul] at hlater
        cases hlater
  | date =>
    simp only [Shape.normalize] at h
    exact isDay_normalizeDate h
  | tin =>
    simp only [Shape.normalize, Fits] at h ⊢
    refine hasNUL_eq_false fun c hc hnul => ?_
    rcases (normalizeTIN_fixed h).2 c hc with hdigit | hdash
    · rw [hnul] at hdigit
      cases hdigit
    · rw [hnul] at hdash
      exact absurd hdash (by decide)
  | currency =>
    simp only [Shape.normalize, Fits] at h ⊢
    exact hasNUL_eq_false (normalizeCurrency_fixed h).2
  | phone =>
    simp only [Shape.normalize, Fits] at h ⊢
    refine hasNUL_eq_false fun c hc hnul => ?_
    have hchar := (normalizePhone_fixed h).2 c hc
    rw [hnul] at hchar
    exact absurd hchar (by decide)
  | amount => exact absurd (by decide) hS
  | name => exact absurd (by decide) hS
  | email => exact absurd (by decide) hS

/-- Every shape projects every text. -/
theorem shapes_project (R : Runtime) (S : Shape) (raw : String) : Projects R S raw := by
  refine ⟨fun r => normalize_fixed S, ?_, ?_, ?_, fun hS r => normalize_fits hS⟩
  · rintro rfl r hr
    obtain ⟨a, -, hlen, hprints, htext⟩ := exists_reading hr
    refine ⟨a, hprints, ?_, ?_, hlen, fits_amount_iff htext⟩
    · rw [htext, uncommaed_text]
    · rw [htext, decimalValue_ungrouped]
  · rintro rfl
    refine ⟨fun r hr => isDay_normalizeDate hr, fun sep hsep a b year ha hb hyear htext => ?_⟩
    exact normalizeDate_readings hsep ha hb hyear htext
  · rintro (rfl | rfl) r hr
    · simp only [Shape.normalize] at hr
      exact (normalizeName_fixed hr).2
    · simp only [Shape.normalize] at hr
      exact (normalizeEmail_fixed hr).2

theorem thirteen_digits_overflow : ∃ r ∈ Shape.amount.normalize
    ⟨fun _ _ => none, Char.isAlpha, id⟩ "1,000,000,000,000.00", ¬ Fits .amount r := by
  refine ⟨"1000000000000.00", by decide +kernel, ?_⟩
  have hvalue : decimalValue ("1000000000000.00" : String).toList = 10 ^ 12 := by decide +kernel
  change ¬ |decimalValue ("1000000000000.00" : String).toList| < ((10 ^ 12 : ℕ) : ℚ)
  rw [hvalue]
  norm_num

end InvoiceOs.Extraction
