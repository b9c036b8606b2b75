import InvoiceOs.Importer.Cells
import InvoiceOs.Lib.Digits
import Mathlib.Algebra.Field.Rat

/-! What a numeric cell says, and what the import makes of it. -/

namespace InvoiceOs.Importer

open Lib

/-! ### Amounts as they are written -/

def minusText (negative : Bool) : List Char := if negative then ['-'] else []

def sign (negative : Bool) : ℚ := if negative then -1 else 1

def fractionText (digits : List Digit) : List Char :=
  if digits = [] then [] else '.' :: digitsText digits

structure Group where
  hundreds : Digit
  tens : Digit
  units : Digit

def Group.digits (g : Group) : List Digit := [g.hundreds, g.tens, g.units]

def groupsText (groups : List Group) : List Char :=
  groups.flatMap fun g => ',' :: digitsText g.digits

structure Lead where
  digits : List Digit
  nonempty : digits ≠ []
  short : digits.length ≤ 3

inductive Whole where
  | plain (digits : List Digit) (nonempty : digits ≠ [])
  | grouped (lead : Lead) (groups : List Group) (nonempty : groups ≠ [])

def Whole.text : Whole → List Char
  | plain digits _ => digitsText digits
  | grouped lead groups _ => digitsText lead.digits ++ groupsText groups

def Whole.value : Whole → ℕ
  | plain digits _ => number digits
  | grouped lead groups _ =>
    groups.foldl (fun n g => 1000 * n + number g.digits) (number lead.digits)

structure Amount where
  negative : Bool
  whole : Whole
  fraction : List Digit

def Amount.text (a : Amount) : List Char :=
  minusText a.negative ++ a.whole.text ++ fractionText a.fraction

def Amount.value (a : Amount) : ℚ :=
  sign a.negative * (a.whole.value + number a.fraction / 10 ^ a.fraction.length)

def decimalValue (s : List Char) : ℚ :=
  let digits := unsigned s
  let fraction := (digits.dropWhile Char.isDigit).tail
  sign (s.head? = some '-') *
    (readDigits (digits.takeWhile Char.isDigit) + readDigits fraction / 10 ^ fraction.length)

def cellText (type : FieldType) (raw : String) : List Char :=
  match type with
  | .percent => (trimSpace (trimSuffix (trimSpace raw) '%')).toList
  | _ => (trimSpace raw).toList

def StrayGroups (s : List Char) : Prop :=
  ∃ (negative : Bool) (lead : Lead) (groups : List Group) (fraction : List Digit)
    (strays : List Group), groups ≠ [] ∧ strays ≠ [] ∧
      s = minusText negative ++ digitsText lead.digits ++ groupsText groups ++
        '.' :: (digitsText fraction ++ groupsText strays)

/-! ### Plain decimals -/

theorem isSpace_digit {c : Char} (h : c.isDigit = true) : isSpace c = false := by
  obtain ⟨d, rfl⟩ := Digit.exists_char h
  revert d
  decide

theorem digit_ne {c d : Char} (h : c.isDigit = true) (hd : d.isDigit = false) : c ≠ d := by
  rintro rfl
  rw [h] at hd
  cases hd

theorem unsigned_minusText {negative : Bool} {digits : List Digit} (h : digits ≠ [])
    (s : List Char) :
    unsigned (minusText negative ++ digitsText digits ++ s) = digitsText digits ++ s := by
  cases negative with
  | true => rfl
  | false =>
    cases digits with
    | nil => exact absurd rfl h
    | cons d digits =>
      have hd : d.char ≠ '-' := digit_ne d.isDigit_char rfl
      change unsigned (d.char :: (digitsText digits ++ s)) = _
      unfold unsigned
      split
      · rename_i heq
        exact absurd (List.cons.inj heq).1 hd
      · rfl

theorem exists_unsigned (s : List Char) : ∃ negative, s = minusText negative ++ unsigned s := by
  unfold unsigned
  split
  · exact ⟨true, rfl⟩
  · exact ⟨false, rfl⟩

theorem decimalNumberRe_append {negative : Bool} {digits : List Digit} (h : digits ≠ [])
    (s : List Char) : decimalNumberRe (minusText negative ++ digitsText digits ++ s) =
      fractionRe (s.dropWhile Char.isDigit) := by
  have hfirst : (digitsText digits ++ s.takeWhile Char.isDigit).isEmpty = false := by
    rw [List.isEmpty_eq_false_iff]
    intro hnil
    exact h (digitsText_eq_nil.mp (List.append_eq_nil_iff.mp hnil).1)
  simp only [decimalNumberRe, unsigned_minusText h, takeWhile_digitsText, dropWhile_digitsText,
    hfirst, Bool.not_false, Bool.true_and]

theorem dropWhile_fractionText (fraction : List Digit) :
    (fractionText fraction).dropWhile Char.isDigit = fractionText fraction := by
  unfold fractionText
  split
  · rfl
  · rfl

theorem fractionRe_iff {s : List Char} :
    fractionRe s = true ↔ ∃ fraction, s = fractionText fraction := by
  constructor
  · intro h
    cases s with
    | nil => exact ⟨[], rfl⟩
    | cons c digits =>
      simp only [fractionRe, Bool.and_eq_true, decide_eq_true_eq, Bool.not_eq_true',
        List.all_eq_true] at h
      obtain ⟨⟨rfl, hnonempty⟩, hdigits⟩ := h
      obtain ⟨fraction, rfl⟩ := exists_digitsText hdigits
      have hfraction : fraction ≠ [] := by
        rintro rfl
        cases hnonempty
      exact ⟨fraction, by rw [fractionText, if_neg hfraction]⟩
  · rintro ⟨fraction, rfl⟩
    unfold fractionText
    split
    · rfl
    · rename_i hfraction
      have hnonempty : (digitsText fraction).isEmpty = false := by
        rw [List.isEmpty_eq_false_iff]
        exact fun h => hfraction (digitsText_eq_nil.mp h)
      simp only [fractionRe, hnonempty, decide_true, Bool.not_false, Bool.true_and,
        List.all_eq_true]
      exact fun c hc => isDigit_of_mem hc

theorem decimalNumberRe_text {negative : Bool} {digits : List Digit} (h : digits ≠ [])
    (fraction : List Digit) :
    decimalNumberRe (minusText negative ++ digitsText digits ++ fractionText fraction) = true := by
  rw [decimalNumberRe_append h, dropWhile_fractionText]
  exact fractionRe_iff.mpr ⟨fraction, rfl⟩

theorem exists_decimal {s : List Char} (h : decimalNumberRe s = true) :
    ∃ negative digits fraction, digits ≠ [] ∧
      s = minusText negative ++ digitsText digits ++ fractionText fraction := by
  simp only [decimalNumberRe, Bool.and_eq_true, Bool.not_eq_true', List.isEmpty_eq_false_iff] at h
  obtain ⟨hfirst, hfraction⟩ := h
  obtain ⟨negative, hs⟩ := exists_unsigned s
  obtain ⟨digits, hdigits⟩ := exists_digitsText (s := (unsigned s).takeWhile Char.isDigit)
    fun c hc => List.mem_takeWhile_imp hc
  obtain ⟨fraction, hf⟩ := fractionRe_iff.mp hfraction
  refine ⟨negative, digits, fraction, ?_, ?_⟩
  · rintro rfl
    exact hfirst hdigits.symm
  · rw [hdigits, ← hf, List.append_assoc, List.takeWhile_append_dropWhile]
    exact hs

theorem decimalValue_text {negative : Bool} {digits : List Digit} (h : digits ≠ [])
    (fraction : List Digit) :
    decimalValue (minusText negative ++ digitsText digits ++ fractionText fraction) =
      sign negative * (number digits + number fraction / 10 ^ fraction.length) := by
  have hsign : decide ((minusText negative ++ digitsText digits ++ fractionText fraction).head? =
      some '-') = negative := by
    cases negative with
    | true => rfl
    | false =>
      cases digits with
      | nil => exact absurd rfl h
      | cons d digits =>
        have hd : d.char ≠ '-' := digit_ne d.isDigit_char rfl
        exact decide_eq_false fun heq => hd (Option.some.inj heq)
  have htake : (fractionText fraction).takeWhile Char.isDigit = [] := by
    unfold fractionText
    split
    · rfl
    · rfl
  have htail : (fractionText fraction).tail = digitsText fraction := by
    unfold fractionText
    split
    · rename_i hnil
      rw [hnil]
      rfl
    · rfl
  simp only [decimalValue, hsign, unsigned_minusText h, takeWhile_digitsText,
    dropWhile_digitsText, dropWhile_fractionText, htake, htail, List.append_nil, readDigits_text,
    length_digitsText]

end InvoiceOs.Importer
