import InvoiceOs.Lib.Utf8

/-! What an exchange's body is stored as: text without NULs, at most the cap long and cut
between characters. -/

namespace InvoiceOs.Submission

open Lib.Utf8

def maxBodyBytes : ℕ := 256 * 1024

def replacementRune : List UInt8 := [0xEF, 0xBF, 0xBD]

def withoutNUL (s : List UInt8) : List UInt8 := s.filter (· ≠ 0)

def coerce (s : List UInt8) : List UInt8 :=
  let body := if (0 : UInt8) ∈ s then withoutNUL s else s
  if validString body then body else toValidUTF8 body replacementRune

def safeBody (s : List UInt8) : List UInt8 × Bool × Bool :=
  let nul := decide ((0 : UInt8) ∈ s)
  let body := if nul then withoutNUL s else s
  let broken := !validString body
  let body := if broken then toValidUTF8 body replacementRune else body
  if body.length > maxBodyBytes then (body.take (cutBack body maxBodyBytes), true, nul || broken)
  else (body, false, nul || broken)

theorem withoutNUL_of_not_mem {s : List UInt8} (h : (0 : UInt8) ∉ s) : withoutNUL s = s := by
  refine List.filter_eq_self.mpr fun c hc => decide_eq_true ?_
  rintro rfl
  exact h hc

theorem coerce_eq (s : List UInt8) : coerce s = toValidUTF8 (withoutNUL s) replacementRune := by
  have hbody : (if (0 : UInt8) ∈ s then withoutNUL s else s) = withoutNUL s := by
    split
    · rfl
    · rename_i h
      exact (withoutNUL_of_not_mem h).symm
  unfold coerce
  rw [hbody]
  dsimp only
  split
  · rename_i h
    exact (toValidUTF8_of_valid (validString_iff.mp h) _).symm
  · rfl

theorem safeBody_eq (s : List UInt8) : safeBody s =
    (if (coerce s).length > maxBodyBytes then (coerce s).take (cutBack (coerce s) maxBodyBytes)
      else coerce s,
      decide ((coerce s).length > maxBodyBytes),
      decide ((0 : UInt8) ∈ s) || !validString (withoutNUL s)) := by
  have hbody : (if decide ((0 : UInt8) ∈ s) then withoutNUL s else s) = withoutNUL s := by
    split
    · rfl
    · rename_i h
      exact (withoutNUL_of_not_mem (of_decide_eq_false (Bool.not_eq_true _ ▸ h))).symm
  have hcoerced : (if (!validString (withoutNUL s)) = true then
      toValidUTF8 (withoutNUL s) replacementRune else withoutNUL s) = coerce s := by
    rw [coerce_eq]
    cases hvalid : validString (withoutNUL s) with
    | true => exact (toValidUTF8_of_valid (validString_iff.mp hvalid) _).symm
    | false => rfl
  unfold safeBody
  dsimp only
  rw [hbody, hcoerced]
  split
  · rename_i h
    rw [decide_eq_true h]
  · rename_i h
    rw [decide_eq_false h]

theorem coerce_runes (s : List UInt8) : ∃ runes : List (List UInt8),
    (∀ r ∈ runes, isRune r = true ∧ (0 : UInt8) ∉ r) ∧ coerce s = runes.flatten := by
  have hchunks := mem_chunks (s := withoutNUL s)
  obtain ⟨runes, hrunes, heq⟩ := repair_runes replacementRune (by decide +kernel)
    (chunks (withoutNUL s)) false fun r hr => (hchunks _ hr).1
  refine ⟨runes, fun r hr => ⟨(hrunes r hr).1, fun hzero => ?_⟩, by rw [coerce_eq]; exact heq⟩
  obtain rfl | hchunk := (hrunes r hr).2
  · revert hzero
    decide
  · have hmem := (hchunks _ hchunk).2 0 hzero
    exact of_decide_eq_true (List.mem_filter.mp hmem).2 rfl

theorem coerce_of_clean {s : List UInt8} (hnul : (0 : UInt8) ∉ s) (hvalid : Valid s) : coerce s = s := by
  rw [coerce_eq, withoutNUL_of_not_mem hnul, toValidUTF8_of_valid hvalid]

theorem safeBody_of_clean {s : List UInt8} (hnul : (0 : UInt8) ∉ s) (hvalid : Valid s)
    (hshort : s.length ≤ maxBodyBytes) : safeBody s = (s, false, false) := by
  rw [safeBody_eq, coerce_of_clean hnul hvalid, if_neg (Nat.not_lt.mpr hshort),
    decide_eq_false (Nat.not_lt.mpr hshort), decide_eq_false hnul, withoutNUL_of_not_mem hnul,
    validString_iff.mpr hvalid]
  rfl

/-- Every body is stored as text the column takes, whole characters from the start of the coerced
text, with flags that say what was lost; storing it again changes nothing. -/
theorem safe_body_storable (s : List UInt8) :
    Valid (safeBody s).1 ∧ (0 : UInt8) ∉ (safeBody s).1 ∧ (safeBody s).1.length ≤ maxBodyBytes ∧
    (∃ runes rest : List (List UInt8), (∀ r ∈ runes ++ rest, isRune r = true) ∧
      toValidUTF8 (withoutNUL s) replacementRune = (runes ++ rest).flatten ∧
      (safeBody s).1 = runes.flatten) ∧
    ((safeBody s).2.1 = true ↔
      maxBodyBytes < (toValidUTF8 (withoutNUL s) replacementRune).length) ∧
    ((safeBody s).2.1 = true → maxBodyBytes < (safeBody s).1.length + 4) ∧
    ((safeBody s).2.2 = true ↔ ¬(Valid s ∧ (0 : UInt8) ∉ s)) ∧
    safeBody (safeBody s).1 = ((safeBody s).1, false, false) := by
  obtain ⟨runes, hrunes, hcoerce⟩ := coerce_runes s
  have hisRune : ∀ r ∈ runes, isRune r = true := fun r hr => (hrunes r hr).1
  obtain ⟨kept, rest, hsplit, hbody, hlength, hmissing⟩ : ∃ kept rest, runes = kept ++ rest ∧
      (safeBody s).1 = kept.flatten ∧ kept.flatten.length ≤ maxBodyBytes ∧
      (maxBodyBytes < (coerce s).length → maxBodyBytes < kept.flatten.length + 4) := by
    rw [safeBody_eq, hcoerce]
    split
    · rename_i hlong
      obtain ⟨before, r, after, hsplit, htake, hle, hlt, hr⟩ := take_cutBack hisRune hlong
      exact ⟨before, r :: after, hsplit, htake, hle, fun _ => by omega⟩
    · rename_i hshort
      exact ⟨runes, [], (List.append_nil _).symm, rfl, Nat.not_lt.mp hshort, fun h => absurd h hshort⟩
  have hkept : ∀ r ∈ kept, isRune r = true ∧ (0 : UInt8) ∉ r := fun r hr =>
    hrunes r (hsplit ▸ List.mem_append_left _ hr)
  have hvalid : Valid (safeBody s).1 := ⟨kept, fun r hr => (hkept r hr).1, hbody⟩
  have hnul : (0 : UInt8) ∉ (safeBody s).1 := by
    rw [hbody]
    intro hzero
    obtain ⟨r, hr, hzero⟩ := List.mem_flatten.mp hzero
    exact (hkept r hr).2 hzero
  have hshort : (safeBody s).1.length ≤ maxBodyBytes := hbody ▸ hlength
  have hclipped : (safeBody s).2.1 = decide ((coerce s).length > maxBodyBytes) := by
    rw [safeBody_eq]
  refine ⟨hvalid, hnul, hshort, ⟨kept, rest, ?_, ?_, hbody⟩, ?_, ?_, ?_,
    safeBody_of_clean hnul hvalid hshort⟩
  · rw [← hsplit]
    exact hisRune
  · rw [← hsplit, ← hcoerce, coerce_eq]
  · rw [hclipped, ← coerce_eq, decide_eq_true_eq]
  · rw [hclipped, decide_eq_true_eq, hbody]
    exact hmissing
  · rw [safeBody_eq]
    simp only [Bool.or_eq_true, decide_eq_true_eq, Bool.not_eq_true', not_and_or, not_not]
    by_cases hzero : (0 : UInt8) ∈ s
    · exact ⟨fun _ => .inr hzero, fun _ => .inl hzero⟩
    · rw [withoutNUL_of_not_mem hzero, ← validString_iff, Bool.not_eq_true]
      exact ⟨fun h => .inl (h.resolve_left hzero), fun h => .inr (h.resolve_right hzero)⟩

end InvoiceOs.Submission
