import InvoiceOs.Builder.Wire
import InvoiceOs.Submission.Keys
import Mathlib.Tactic.NormNum
import Mathlib.Tactic.Ring

/-! A uuid's text reads back as the uuid. -/

namespace InvoiceOs.Builder

theorem hexValue_digitChar : ∀ d < 16, hexValue (Nat.digitChar d) = some d := by decide

theorem readHex_hexGroup (n v w : ℕ) (rest : List Char) :
    readHex n w (hexGroup n v ++ rest) = some (w * 16 ^ n + v % 16 ^ n, rest) := by
  induction n generalizing w with
  | zero =>
    rw [pow_zero, Nat.mod_one, Nat.mul_one, Nat.add_zero]
    rfl
  | succ n ih =>
    have hdigit := hexValue_digitChar (v / 16 ^ n % 16) (Nat.mod_lt _ (by decide))
    rw [hexGroup_succ, List.cons_append, readHex, hdigit, Option.bind_some, ih, Nat.mod_pow_succ]
    congr 2
    ring

theorem parseUuid_text (u : Uuid) : parseUuid u.text = some u := by
  unfold parseUuid
  rw [Uuid.text_toList]
  unfold Uuid.chars
  simp only [List.append_assoc, List.cons_append, readHex_hexGroup, readDash, Option.bind_eq_bind,
    Option.bind_some]
  have hlast := fun w => readHex_hexGroup 12 u.toNat w []
  simp only [List.append_nil] at hlast
  rw [hlast, Option.bind_some, if_pos rfl]
  refine congrArg some (BitVec.eq_of_toNat_eq ?_)
  have hbound : u.toNat < 2 ^ 128 := u.isLt
  rw [BitVec.toNat_ofNat]
  generalize u.toNat = v at hbound ⊢
  norm_num only
  omega

end InvoiceOs.Builder
