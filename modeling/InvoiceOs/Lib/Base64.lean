import Mathlib.Data.List.Basic
import Mathlib.Data.Nat.Basic

/-! Base64 in the alphabet of URLs, without padding. A byte is a number below 256. -/

namespace InvoiceOs.Lib.Base64

def alphabet : List Char :=
  "ABCDEFGHIJKLMNOPQRSTUVWXYZabcdefghijklmnopqrstuvwxyz0123456789-_".toList

/-! ### Sextets -/

def toSextets : List ℕ → List ℕ
  | a :: b :: c :: rest =>
    a / 4 :: (a % 4 * 16 + b / 16) :: (b % 16 * 4 + c / 64) :: c % 64 :: toSextets rest
  | [a, b] => [a / 4, a % 4 * 16 + b / 16, b % 16 * 4]
  | [a] => [a / 4, a % 4 * 16]
  | [] => []

/-- The bytes of whole groups; the bits a last group has too many are not looked at. -/
def ofSextets : List ℕ → Option (List ℕ)
  | s :: t :: u :: v :: rest =>
    (ofSextets rest).map fun bytes =>
      (s * 4 + t / 16) :: (t % 16 * 16 + u / 4) :: (u % 4 * 64 + v) :: bytes
  | [s, t, u] => some [s * 4 + t / 16, t % 16 * 16 + u / 4]
  | [s, t] => some [s * 4 + t / 16]
  | [_] => none
  | [] => some []

theorem ofSextets_toSextets (bytes : List ℕ) (h : ∀ b ∈ bytes, b < 256) :
    ofSextets (toSextets bytes) = some bytes := by
  induction bytes using toSextets.induct with
  | case1 a b c rest ih =>
    have ha := h a (by simp)
    have hb := h b (by simp)
    have hc := h c (by simp)
    have hrest := ih fun d hd => h d (by simp [hd])
    rw [toSextets, ofSextets, hrest, Option.map_some]
    congr 2
    · omega
    · congr 1
      · omega
      · congr 1
        omega
  | case2 a b =>
    have ha := h a (by simp)
    have hb := h b (by simp)
    rw [toSextets, ofSextets]
    congr 2
    · omega
    · congr 1
      omega
  | case3 a =>
    have ha := h a (by simp)
    rw [toSextets, ofSextets]
    congr 2
    omega
  | case4 => rfl

theorem sextet_lt (bytes : List ℕ) (h : ∀ b ∈ bytes, b < 256) : ∀ s ∈ toSextets bytes, s < 64 := by
  induction bytes using toSextets.induct with
  | case1 a b c rest ih =>
    have ha := h a (by simp)
    have hb := h b (by simp)
    have hc := h c (by simp)
    have hrest := ih fun d hd => h d (by simp [hd])
    intro s hs
    simp only [toSextets, List.mem_cons] at hs
    obtain rfl | rfl | rfl | rfl | hs := hs
    · omega
    · omega
    · omega
    · omega
    · exact hrest s hs
  | case2 a b =>
    have ha := h a (by simp)
    have hb := h b (by simp)
    intro s hs
    simp only [toSextets, List.mem_cons, List.not_mem_nil, or_false] at hs
    obtain rfl | rfl | rfl := hs <;> omega
  | case3 a =>
    have ha := h a (by simp)
    intro s hs
    simp only [toSextets, List.mem_cons, List.not_mem_nil, or_false] at hs
    obtain rfl | rfl := hs <;> omega
  | case4 => exact fun s hs => absurd hs List.not_mem_nil

/-! ### Characters -/

def charOf (s : ℕ) : Char := alphabet.getD s 'A'

def sextetOf (c : Char) : Option ℕ := alphabet.findIdx? fun d => d = c

theorem sextetOf_charOf {s : ℕ} (h : s < 64) : sextetOf (charOf s) = some s := by
  have hall : ∀ s < 64, sextetOf (charOf s) = some s := by decide +kernel
  exact hall s h

def isLineEnd (c : Char) : Bool := c = '\r' || c = '\n'

theorem charOf_not_lineEnd {s : ℕ} (h : s < 64) : isLineEnd (charOf s) = false := by
  have hall : ∀ s < 64, isLineEnd (charOf s) = false := by decide +kernel
  exact hall s h

def encode (bytes : List ℕ) : List Char := (toSextets bytes).map charOf

/-- Line ends are skipped wherever they stand. -/
def decode (s : List Char) : Option (List ℕ) :=
  ((s.filter fun c => !isLineEnd c).mapM sextetOf).bind ofSextets

theorem decode_encode {bytes : List ℕ} (h : ∀ b ∈ bytes, b < 256) :
    decode (encode bytes) = some bytes := by
  have hsextets := sextet_lt bytes h
  have hkept : (encode bytes).filter (fun c => !isLineEnd c) = encode bytes := by
    rw [List.filter_eq_self]
    intro c hc
    obtain ⟨s, hs, rfl⟩ := List.mem_map.mp hc
    rw [charOf_not_lineEnd (hsextets s hs)]
    rfl
  have hread : ∀ ss : List ℕ, (∀ s ∈ ss, s < 64) → (ss.map charOf).mapM sextetOf = some ss := by
    intro ss hss
    induction ss with
    | nil => rfl
    | cons s ss ih =>
      rw [List.map_cons, List.mapM_cons, sextetOf_charOf (hss s List.mem_cons_self),
        ih fun t ht => hss t (List.mem_cons_of_mem s ht)]
      rfl
  rw [decode, hkept, encode, hread _ hsextets, Option.bind_some, ofSextets_toSextets bytes h]

end InvoiceOs.Lib.Base64
