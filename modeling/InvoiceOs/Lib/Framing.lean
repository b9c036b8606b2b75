import Mathlib.Algebra.GroupWithZero.Nat
import Mathlib.Algebra.Order.BigOperators.Group.List
import Mathlib.Data.List.Basic

/-! Framed text: encodings that a reader can cut off the front of a longer text without
losing its place. -/

namespace InvoiceOs.Lib

/-- Whatever follows, an encoded value and the rest of the text are determined. -/
def Framed {α : Type*} (enc : α → List Char) : Prop :=
  ∀ a b x y, enc a ++ x = enc b ++ y → a = b ∧ x = y

theorem append_sep_inj {s : Char} {as bs x y : List Char} (ha : s ∉ as) (hb : s ∉ bs)
    (h : as ++ s :: x = bs ++ s :: y) : as = bs ∧ x = y := by
  induction as generalizing bs with
  | nil =>
    cases bs with
    | nil =>
      cases h
      exact ⟨rfl, rfl⟩
    | cons b bs =>
      cases h
      exact absurd List.mem_cons_self hb
  | cons a as ih =>
    cases bs with
    | nil =>
      cases h
      exact absurd List.mem_cons_self ha
    | cons b bs =>
      simp only [List.cons_append, List.cons.injEq] at h
      obtain ⟨rfl, h⟩ := h
      obtain ⟨rfl, hxy⟩ := ih (fun hm => ha (List.mem_cons_of_mem _ hm))
        (fun hm => hb (List.mem_cons_of_mem _ hm)) h
      exact ⟨rfl, hxy⟩

/-! ### Decimal numbers -/

def digits (n : ℕ) : List Char := (toString n).toList

theorem digits_eq (n : ℕ) : digits n = Nat.toDigits 10 n := Nat.toList_repr

theorem digits_inj {m n : ℕ} (h : digits m = digits n) : m = n := by
  rw [digits_eq, digits_eq] at h
  calc m = Nat.ofDigitChars 10 (Nat.toDigits 10 m) 0 := Nat.ofDigitChars_ten_toDigits.symm
    _ = Nat.ofDigitChars 10 (Nat.toDigits 10 n) 0 := by rw [h]
    _ = n := Nat.ofDigitChars_ten_toDigits

theorem isDigit_of_mem_digits {n : ℕ} {c : Char} (h : c ∈ digits n) : c.isDigit = true := by
  rw [digits_eq] at h
  exact Nat.isDigit_of_mem_toDigits (by decide) (by decide) h

theorem digits_ne_nil (n : ℕ) : digits n ≠ [] := by
  rw [digits_eq]
  exact Nat.toDigits_ne_nil

theorem digits_sep_inj {s : Char} (hs : s.isDigit = false) {m n : ℕ} {x y : List Char}
    (h : digits m ++ s :: x = digits n ++ s :: y) : m = n ∧ x = y := by
  have hno : ∀ k, s ∉ digits k := by
    intro k hk
    rw [isDigit_of_mem_digits hk] at hs
    cases hs
  obtain ⟨hd, hxy⟩ := append_sep_inj (hno m) (hno n) h
  exact ⟨digits_inj hd, hxy⟩

/-! ### Text behind its byte count -/

def byteSize (s : List Char) : ℕ := (s.map Char.utf8Size).sum

theorem byteSize_toList (s : String) : s.utf8ByteSize = byteSize s.toList := by
  have h : ∀ l : List Char, (String.ofList l).utf8ByteSize = byteSize l := by
    intro l
    induction l with
    | nil => rfl
    | cons c l ih =>
      rw [String.ofList_cons, String.utf8ByteSize_append, String.utf8ByteSize_singleton, ih]
      rfl
  calc s.utf8ByteSize = (String.ofList s.toList).utf8ByteSize := by rw [String.ofList_toList]
    _ = byteSize s.toList := h s.toList

theorem append_inj_of_byteSize {as bs x y : List Char} (hsize : byteSize as = byteSize bs)
    (h : as ++ x = bs ++ y) : as = bs ∧ x = y := by
  induction as generalizing bs with
  | nil =>
    cases bs with
    | nil => exact ⟨rfl, h⟩
    | cons b bs =>
      have hpos := Char.utf8Size_pos b
      simp only [byteSize, List.map_nil, List.sum_nil, List.map_cons, List.sum_cons] at hsize
      omega
  | cons a as ih =>
    cases bs with
    | nil =>
      have hpos := Char.utf8Size_pos a
      simp only [byteSize, List.map_nil, List.sum_nil, List.map_cons, List.sum_cons] at hsize
      omega
    | cons b bs =>
      simp only [List.cons_append, List.cons.injEq] at h
      obtain ⟨rfl, h⟩ := h
      have hrest : byteSize as = byteSize bs := by
        simp only [byteSize, List.map_cons, List.sum_cons] at hsize ⊢
        omega
      obtain ⟨rfl, hxy⟩ := ih hrest h
      exact ⟨rfl, hxy⟩

theorem counted_inj {s : Char} (hs : s.isDigit = false) {v w : List Char} {x y : List Char}
    (h : digits (byteSize v) ++ s :: (v ++ x) = digits (byteSize w) ++ s :: (w ++ y)) :
    v = w ∧ x = y := by
  obtain ⟨hsize, hrest⟩ := digits_sep_inj hs h
  exact append_inj_of_byteSize hsize hrest

/-! ### Sequences -/

theorem framed_sequence {α : Type*} {enc : α → List Char} (henc : Framed enc) {as bs : List α}
    (hlen : as.length = bs.length) {x y : List Char}
    (h : as.flatMap enc ++ x = bs.flatMap enc ++ y) : as = bs ∧ x = y := by
  induction as generalizing bs with
  | nil =>
    cases bs with
    | nil => exact ⟨rfl, h⟩
    | cons b bs => cases hlen
  | cons a as ih =>
    cases bs with
    | nil => cases hlen
    | cons b bs =>
      simp only [List.flatMap_cons, List.append_assoc] at h
      obtain ⟨hab, hrest⟩ := henc _ _ _ _ h
      obtain ⟨rfl, hxy⟩ := ih (Nat.succ.inj hlen) hrest
      exact ⟨by rw [hab], hxy⟩

end InvoiceOs.Lib
