import InvoiceOs.Lib.OrderBy
import InvoiceOs.Submission.Keys
import Mathlib.Data.String.Basic

/-! The order of uuids: the canonical texts sort as the values do. -/

namespace InvoiceOs

instance : LinearOrder Uuid where
  le_refl := BitVec.le_refl
  le_trans _ _ _ := BitVec.le_trans
  le_antisymm _ _ := BitVec.le_antisymm
  le_total := BitVec.le_total
  lt_iff_le_not_ge _ _ := by
    rw [BitVec.not_le]
    exact ⟨fun h => ⟨BitVec.le_of_lt h, h⟩, And.right⟩
  toDecidableLE := inferInstance
  toDecidableEq := instDecidableEqBitVec
  toDecidableLT := inferInstance

namespace Archive

open Lib

theorem append_lt_append {a b c d : List Char} (hlen : a.length = b.length) :
    a ++ c < b ++ d ↔ a < b ∨ a = b ∧ c < d := by
  induction a generalizing b with
  | nil =>
    have hb : b = [] := List.eq_nil_of_length_eq_zero hlen.symm
    subst hb
    simp
  | cons x a ih =>
    cases b with
    | nil => cases hlen
    | cons y b =>
      have hlen' : a.length = b.length := Nat.succ.inj hlen
      rw [List.cons_append, List.cons_append, List.cons_lt_cons_iff, List.cons_lt_cons_iff,
        ih hlen', List.cons.injEq]
      tauto

theorem digitChar_lt : ∀ m < 16, ∀ n < 16, Nat.digitChar m < Nat.digitChar n ↔ m < n := by
  decide

theorem mod_mul_lt (a b v w : ℕ) :
    v % (a * b) < w % (a * b) ↔
      v / a % b < w / a % b ∨ v / a % b = w / a % b ∧ v % a < w % a := by
  rcases Nat.eq_zero_or_pos a with rfl | ha
  · simp
  have hv := Nat.mod_lt v ha
  have hw := Nat.mod_lt w ha
  rw [Nat.mod_mul, Nat.mod_mul]
  generalize v / a % b = m at *
  generalize w / a % b = n at *
  constructor
  · intro h
    rcases Nat.lt_trichotomy m n with hmn | rfl | hmn
    · exact Or.inl hmn
    · exact Or.inr ⟨rfl, by omega⟩
    · have hstep : a * (n + 1) ≤ a * m := Nat.mul_le_mul_left _ hmn
      rw [Nat.mul_succ] at hstep
      omega
  · rintro (h | ⟨rfl, h⟩)
    · have hstep : a * (m + 1) ≤ a * n := Nat.mul_le_mul_left _ h
      rw [Nat.mul_succ] at hstep
      omega
    · omega

theorem hexGroup_lt (n v w : ℕ) : hexGroup n v < hexGroup n w ↔ v % 16 ^ n < w % 16 ^ n := by
  induction n with
  | zero => simp [hexGroup, Nat.mod_one]
  | succ n ih =>
    have hv := Nat.mod_lt (v / 16 ^ n) (show 0 < 16 by decide)
    have hw := Nat.mod_lt (w / 16 ^ n) (show 0 < 16 by decide)
    have hdigit : Nat.digitChar (v / 16 ^ n % 16) = Nat.digitChar (w / 16 ^ n % 16) ↔
        v / 16 ^ n % 16 = w / 16 ^ n % 16 := ⟨digitChar_inj _ hv _ hw, congrArg _⟩
    rw [hexGroup_succ, hexGroup_succ, List.cons_lt_cons_iff, ih, digitChar_lt _ hv _ hw, hdigit,
      Nat.pow_succ, mod_mul_lt]

theorem hexGroup_congr {n v w : ℕ} (h : v % 16 ^ n = w % 16 ^ n) : hexGroup n v = hexGroup n w := by
  have hnot : ¬ hexGroup n v < hexGroup n w := by rw [hexGroup_lt, h]; exact lt_irrefl _
  have hnot' : ¬ hexGroup n w < hexGroup n v := by rw [hexGroup_lt, h]; exact lt_irrefl _
  exact le_antisymm (not_lt.mp hnot') (not_lt.mp hnot)

theorem dashed_lt {m n v w : ℕ} {c d : List Char} (hrest : c < d ↔ v % 16 ^ m < w % 16 ^ m) :
    hexGroup n (v / 16 ^ m) ++ '-' :: c < hexGroup n (w / 16 ^ m) ++ '-' :: d ↔
      v % 16 ^ (m + n) < w % 16 ^ (m + n) := by
  have hlen : (hexGroup n (v / 16 ^ m)).length = (hexGroup n (w / 16 ^ m)).length := by
    rw [length_hexGroup, length_hexGroup]
  have hdash : ('-' :: c < '-' :: d) ↔ c < d := by
    rw [List.cons_lt_cons_iff]
    simp
  rw [append_lt_append hlen, hexGroup_lt, hdash, hrest, Nat.pow_add, mod_mul_lt]
  refine or_congr_right (and_congr_left fun _ => ⟨hexGroup_inj, hexGroup_congr⟩)

theorem chars_lt (u v : Uuid) : u.chars < v.chars ↔ u < v := by
  have hu : u.toNat % 16 ^ 32 = u.toNat := Nat.mod_eq_of_lt u.isLt
  have hv : v.toNat % 16 ^ 32 = v.toNat := Nat.mod_eq_of_lt v.isLt
  have h12 := hexGroup_lt 12 u.toNat v.toNat
  have h16 := dashed_lt (m := 12) (n := 4) h12
  have h20 := dashed_lt (m := 16) (n := 4) h16
  have h24 := dashed_lt (m := 20) (n := 4) h20
  have h32 := dashed_lt (m := 24) (n := 8) h24
  unfold Uuid.chars
  simp only [List.append_assoc, List.cons_append]
  rw [h32, hu, hv, BitVec.lt_def]

theorem text_le (u v : Uuid) : u.text ≤ v.text ↔ u ≤ v := by
  rw [← not_lt (a := v.text), ← not_lt (a := v), String.lt_iff_toList_lt, Uuid.text_toList,
    Uuid.text_toList, chars_lt]

theorem text_injective : Function.Injective Uuid.text := by
  intro u v h
  exact le_antisymm ((text_le u v).mp h.le) ((text_le v u).mp h.ge)

end Archive
end InvoiceOs
