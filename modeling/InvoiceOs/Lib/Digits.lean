import Mathlib.Tactic.IntervalCases
import Mathlib.Tactic.Ring

/-! Decimal digits as they are written, and the numbers they stand for. -/

namespace InvoiceOs.Lib

abbrev Digit := Fin 10

namespace Digit

def char (d : Digit) : Char := Nat.digitChar d

theorem isDigit_char (d : Digit) : d.char.isDigit = true := by
  revert d
  decide

theorem exists_char {c : Char} (h : c.isDigit = true) : ∃ d : Digit, d.char = c := by
  simp only [Char.isDigit, ge_iff_le, Bool.and_eq_true, decide_eq_true_eq, UInt32.le_iff_toNat_le] at h
  obtain ⟨hlow, hhigh⟩ := h
  have hlow' : 48 ≤ c.toNat := hlow
  have hhigh' : c.toNat ≤ 57 := hhigh
  rw [← Char.ofNat_toNat c]
  generalize c.toNat = n at hlow' hhigh'
  interval_cases n
  exacts [⟨0, rfl⟩, ⟨1, rfl⟩, ⟨2, rfl⟩, ⟨3, rfl⟩, ⟨4, rfl⟩, ⟨5, rfl⟩, ⟨6, rfl⟩, ⟨7, rfl⟩, ⟨8, rfl⟩,
    ⟨9, rfl⟩]

end Digit

def digitValue (c : Char) : ℕ := c.toNat - 48

theorem digitValue_char (d : Digit) : digitValue d.char = d := by
  revert d
  decide

def digitsText (ds : List Digit) : List Char := ds.map Digit.char

def readDigits (s : List Char) : ℕ := s.foldl (fun n c => 10 * n + digitValue c) 0

def number (ds : List Digit) : ℕ := ds.foldl (fun n d => 10 * n + d.val) 0

@[simp] theorem digitsText_nil : digitsText [] = [] := rfl

@[simp] theorem digitsText_cons (d : Digit) (ds : List Digit) :
    digitsText (d :: ds) = d.char :: digitsText ds := rfl

@[simp] theorem digitsText_append (ds es : List Digit) :
    digitsText (ds ++ es) = digitsText ds ++ digitsText es := List.map_append

@[simp] theorem digitsText_eq_nil {ds : List Digit} : digitsText ds = [] ↔ ds = [] :=
  List.map_eq_nil_iff

@[simp] theorem length_digitsText (ds : List Digit) : (digitsText ds).length = ds.length :=
  List.length_map _

theorem isDigit_of_mem {ds : List Digit} {c : Char} (h : c ∈ digitsText ds) : c.isDigit = true := by
  obtain ⟨d, -, rfl⟩ := List.mem_map.mp h
  exact d.isDigit_char

theorem takeWhile_digitsText (ds : List Digit) (s : List Char) :
    (digitsText ds ++ s).takeWhile Char.isDigit = digitsText ds ++ s.takeWhile Char.isDigit :=
  List.takeWhile_append_of_pos fun _ hc => isDigit_of_mem hc

theorem dropWhile_digitsText (ds : List Digit) (s : List Char) :
    (digitsText ds ++ s).dropWhile Char.isDigit = s.dropWhile Char.isDigit :=
  List.dropWhile_append_of_pos fun _ hc => isDigit_of_mem hc

theorem exists_digitsText {s : List Char} (h : ∀ c ∈ s, c.isDigit = true) :
    ∃ ds, digitsText ds = s := by
  induction s with
  | nil => exact ⟨[], rfl⟩
  | cons c s ih =>
    obtain ⟨d, rfl⟩ := Digit.exists_char (h c List.mem_cons_self)
    obtain ⟨ds, rfl⟩ := ih fun c' hc' => h c' (List.mem_cons_of_mem _ hc')
    exact ⟨d :: ds, rfl⟩

theorem foldl_number (ds : List Digit) (n : ℕ) :
    ds.foldl (fun n d => 10 * n + d.val) n = n * 10 ^ ds.length + number ds := by
  induction ds generalizing n with
  | nil => simp [number]
  | cons d ds ih =>
    have hd : number (d :: ds) = d * 10 ^ ds.length + number ds := by
      rw [number, List.foldl_cons, ih]
      ring
    rw [List.foldl_cons, ih, hd, List.length_cons, pow_succ]
    ring

theorem number_append (ds es : List Digit) :
    number (ds ++ es) = number ds * 10 ^ es.length + number es := by
  rw [number, List.foldl_append, foldl_number]
  rfl

theorem readDigits_text (ds : List Digit) : readDigits (digitsText ds) = number ds := by
  unfold readDigits number digitsText
  rw [List.foldl_map]
  simp only [digitValue_char]

end InvoiceOs.Lib
