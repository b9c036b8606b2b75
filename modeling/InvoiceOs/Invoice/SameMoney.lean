import InvoiceOs.Invoice.DraftTotals
import InvoiceOs.Invoice.ContentStream
import InvoiceOs.Invoice.NoteKobo
import Mathlib.Data.List.Induction
import Mathlib.Data.List.ReduceOption
import Mathlib.Data.List.TakeWhile
import Mathlib.Tactic.FieldSimp

/-! The wizard and the note agree to the kobo: scaled integers carry the note's decimals, and the
two groupings of the lines come to one. -/

namespace InvoiceOs.Invoice

open Lib

/-! ### Plain texts -/

def unsigned : List Char → List Char
  | '-' :: cs => cs
  | cs => cs

def unpadded (s : String) : Bool :=
  match unsigned s.toList with
  | '0' :: c :: _ => !c.isDigit
  | _ => true

namespace Scaled

def value (a : Scaled) : ℚ := a.u / 10 ^ a.s

end Scaled

theorem readWholePart_eq {cs : List Char} (hne : cs.takeWhile Char.isDigit ≠ [])
    (hpad : ∀ c rest, cs = '0' :: c :: rest → c.isDigit = false) :
    readWholePart cs = some (cs.takeWhile Char.isDigit, cs.dropWhile Char.isDigit) := by
  unfold readWholePart
  split
  · rename_i rest
    have hstop : rest.takeWhile Char.isDigit = [] ∧ rest.dropWhile Char.isDigit = rest := by
      cases rest with
      | nil => exact ⟨rfl, rfl⟩
      | cons c rest =>
        have hc := hpad c rest rfl
        rw [List.takeWhile_cons_of_neg (by simp [hc]), List.dropWhile_cons_of_neg (by simp [hc])]
        exact ⟨rfl, rfl⟩
    rw [List.takeWhile_cons_of_pos (by decide), List.dropWhile_cons_of_pos (by decide), hstop.1,
      hstop.2]
  · split
    · rename_i hnil
      exact absurd hnil hne
    · rfl

theorem value_scaled (negative : Bool) (whole frac : List Char) :
    (scaled negative whole frac 0).value =
      (if negative then -1 else 1) * ((Nat.ofDigitChars 10 (whole ++ frac) 0 : ℚ) / 10 ^ frac.length) := by
  unfold scaled Scaled.value digitsValue
  have hscale : ¬ (frac.length : ℤ) < 0 := by omega
  dsimp only
  rw [Int.sub_zero, if_neg hscale, Int.toNat_natCast]
  cases negative with
  | false => rw [if_neg Bool.false_ne_true, if_neg Bool.false_ne_true, one_mul, Int.cast_natCast]
  | true => rw [if_pos rfl, if_pos rfl, neg_one_mul, Int.cast_neg, Int.cast_natCast, neg_div]

theorem plainMagnitude_parts {cs : List Char} {x : ℚ} (h : plainMagnitude cs = some x)
    (hpad : ∀ c rest, cs = '0' :: c :: rest → c.isDigit = false) :
    ∃ whole rest frac, readWholePart cs = some (whole, rest) ∧
      readFractionPart rest = some (frac, []) ∧
      x = (Nat.ofDigitChars 10 (whole ++ frac) 0 : ℚ) / 10 ^ frac.length := by
  unfold plainMagnitude at h
  dsimp only at h
  split at h
  · cases h
  · rename_i hrest hwhole
    have hne : cs.takeWhile Char.isDigit ≠ [] := fun hnil => hwhole hnil
    obtain rfl := Option.some.inj h
    refine ⟨_, [], [], (readWholePart_eq hne hpad).trans (by rw [hrest]), rfl, ?_⟩
    rw [List.append_nil, List.length_nil, pow_zero, div_one]
  · rename_i frac hrest hwhole
    have hne : cs.takeWhile Char.isDigit ≠ [] := fun hnil => hwhole hnil
    split at h
    · rename_i hfrac
      obtain rfl := Option.some.inj h
      have hall : ∀ c ∈ frac, c.isDigit = true := List.all_eq_true.mp hfrac.2
      refine ⟨_, '.' :: frac, frac, (readWholePart_eq hne hpad).trans (by rw [hrest]), ?_, rfl⟩
      have htake := List.takeWhile_eq_self_iff.mpr hall
      have hdrop : frac.dropWhile Char.isDigit = [] := List.dropWhile_eq_nil_iff.mpr hall
      rw [readFractionPart, htake, hdrop]
      split
      · rename_i hnil
        exact absurd rfl hfrac.1
      · rfl
    · cases h
  · cases h

theorem magnitude_scaled (negative : Bool) {cs : List Char} {y : ℚ} (hy : plainMagnitude cs = some y)
    (hpad : ∀ c rest, cs = '0' :: c :: rest → c.isDigit = false) :
    ∃ a, (do
      let (whole, cs) ← readWholePart cs
      let (frac, cs) ← readFractionPart cs
      let exponent ← readExponentPart cs
      pure (scaled negative whole frac exponent) : Option Scaled) = some a ∧
      a.value = (if negative then -1 else 1) * y := by
  obtain ⟨whole, rest, frac, hwhole, hfrac, rfl⟩ := plainMagnitude_parts hy hpad
  refine ⟨scaled negative whole frac 0, ?_, value_scaled negative whole frac⟩
  simp only [hwhole, hfrac, Option.bind_eq_bind, Option.bind_some, readExponentPart]
  rfl

theorem parseScaled_plain {s : String} {x : ℚ} (h : parsePlain s = .ok x)
    (hpad : unpadded s = true) : ∃ a, parseScaled s = some a ∧ a.value = x := by
  have hstart : ∀ cs, unsigned s.toList = cs → ∀ c rest, cs = '0' :: c :: rest → c.isDigit = false := by
    rintro cs hcs c rest rfl
    unfold unpadded at hpad
    rw [hcs] at hpad
    simpa using hpad
  have hread := fun (negative : Bool) (cs : List Char) (y : ℚ) (hcs : unsigned s.toList = cs)
    (hy : plainMagnitude cs = some y) => magnitude_scaled negative hy (hstart cs hcs)
  unfold parsePlain at h
  dsimp only at h
  split at h
  · rename_i y hy
    obtain rfl : y = x := Except.ok.inj h
    split at hy
    · rename_i cs hcs
      obtain ⟨z, hz, rfl⟩ := Option.map_eq_some_iff.mp hy
      obtain ⟨a, ha, hvalue⟩ := hread true cs z (by rw [hcs]; rfl) hz
      refine ⟨a, ?_, ?_⟩
      · unfold parseScaled
        rw [hcs]
        exact ha
      · rw [hvalue, if_pos rfl, neg_one_mul]
    · rename_i cs hneg
      have hunsigned : unsigned s.toList = s.toList := by
        unfold unsigned
        split
        · rename_i rest hrest
          exact absurd hrest (hneg rest)
        · rfl
      obtain ⟨a, ha, hvalue⟩ := hread false s.toList y hunsigned hy
      refine ⟨a, ?_, ?_⟩
      · unfold parseScaled
        split
        · rename_i negative cs hmatch
          split at hmatch
          · rename_i rest hrest
            exact absurd hrest (hneg rest)
          · cases hmatch
            exact ha
      · rw [hvalue, if_neg Bool.false_ne_true, one_mul]
  · cases h

/-! ### Arithmetic -/

theorem value_mul (a b : Scaled) : (mulScaled a b).value = a.value * b.value := by
  unfold mulScaled Scaled.value
  push_cast
  rw [pow_add, div_mul_div_comm]

theorem value_add (a b : Scaled) : (addScaled a b).value = a.value + b.value := by
  unfold addScaled Scaled.value
  have hscale : ∀ n m : ℕ, n ≤ m → (10 : ℚ) ^ (m - n) / 10 ^ m = 1 / 10 ^ n := by
    intro n m hle
    rw [div_eq_div_iff (by positivity) (by positivity), one_mul, ← pow_add, Nat.sub_add_cancel hle]
  push_cast
  rw [add_div, mul_div_assoc, mul_div_assoc, hscale _ _ (le_max_left a.s b.s),
    hscale _ _ (le_max_right a.s b.s), mul_one_div, mul_one_div]

theorem halfAway_int (n : ℤ) : halfAway (n : ℚ) = n :=
  le_antisymm (halfAway_le le_rfl) (le_halfAway le_rfl)

theorem floor_half (n d : ℕ) (hd : 0 < d) : ⌊(n : ℚ) / d + 1 / 2⌋ =
    ((if n % d * 2 ≥ d then n / d + 1 else n / d : ℕ) : ℤ) := by
  have hsplit : (n : ℚ) = d * (n / d : ℕ) + (n % d : ℕ) := by exact_mod_cast (Nat.div_add_mod n d).symm
  have hrem := Nat.mod_lt n hd
  generalize n / d = q at *
  generalize n % d = r at *
  have hpos : (0 : ℚ) < d := by exact_mod_cast hd
  have hquot : (n : ℚ) / d = q + (r : ℚ) / d := by
    rw [hsplit, add_div, mul_div_cancel_left₀ _ hpos.ne']
  rw [hquot, Int.floor_eq_iff]
  split
  · rename_i hup
    have hup' : (d : ℚ) ≤ r * 2 := by exact_mod_cast hup
    have hrem' : (r : ℚ) < d := by exact_mod_cast hrem
    have hhalf : (1 : ℚ) / 2 ≤ r / d := by
      rw [div_le_div_iff₀ (by norm_num) hpos]
      linarith
    have hone : (r : ℚ) / d < 1 := (div_lt_one hpos).mpr hrem'
    push_cast
    constructor
    · linarith
    · linarith
  · rename_i hdown
    have hdown' : (r : ℚ) * 2 < d := by exact_mod_cast not_le.mp hdown
    have hhalf : (r : ℚ) / d < 1 / 2 := by
      rw [div_lt_div_iff₀ hpos (by norm_num)]
      linarith
    have hzero : (0 : ℚ) ≤ r / d := by positivity
    constructor
    · push_cast
      linarith
    · push_cast
      linarith

theorem halfAway_div (u : ℤ) (d : ℕ) (hd : 0 < d) : halfAway ((u : ℚ) / d) =
    let n : ℕ := if u.natAbs % d * 2 ≥ d then u.natAbs / d + 1 else u.natAbs / d
    if u < 0 then -(n : ℤ) else n := by
  have hpos : (0 : ℚ) < d := by exact_mod_cast hd
  dsimp only
  unfold halfAway
  by_cases hneg : u < 0
  · have habs : ((u.natAbs : ℕ) : ℚ) = -u := by
      rw [Nat.cast_natAbs, abs_of_neg hneg, Int.cast_neg]
    have hu : ((u : ℤ) : ℚ) < 0 := by exact_mod_cast hneg
    rw [if_neg (not_le.mpr (div_neg_of_neg_of_pos hu hpos)), if_pos hneg, ← neg_div, ← habs,
      floor_half _ _ hd]
  · have habs : ((u.natAbs : ℕ) : ℚ) = u := by
      rw [Nat.cast_natAbs, abs_of_nonneg (not_lt.mp hneg)]
    have hu : (0 : ℚ) ≤ (u : ℤ) := by exact_mod_cast not_lt.mp hneg
    rw [if_pos (div_nonneg hu hpos.le), if_neg hneg, ← habs, floor_half _ _ hd]

theorem round2_scale (a : Scaled) : (round2 a).s ≤ 2 := by
  unfold round2
  split
  · assumption
  · exact le_rfl

theorem toKobo_value {a : Scaled} (h : a.s ≤ 2) : a.value * 100 = toKobo a := by
  unfold Scaled.value toKobo
  have hscale : (100 : ℚ) = 10 ^ (2 - a.s) * 10 ^ a.s := by
    rw [← pow_add, Nat.sub_add_cancel h]
    norm_num
  push_cast
  rw [hscale]
  field_simp

theorem toKobo_round2 (a : Scaled) : toKobo (round2 a) = roundTwo a.value := by
  unfold roundTwo
  by_cases h : a.s ≤ 2
  · rw [round2, if_pos h, toKobo_value h, halfAway_int]
  · have hvalue : a.value * 100 = (a.u : ℚ) / (10 ^ (a.s - 2) : ℕ) := by
      unfold Scaled.value
      have hscale : (10 : ℚ) ^ a.s = 10 ^ (a.s - 2) * 100 := by
        have hpow : (10 : ℚ) ^ a.s = 10 ^ (a.s - 2) * 10 ^ 2 := by
          rw [← pow_add, Nat.sub_add_cancel (by omega)]
        rw [hpow]
        norm_num
      rw [hscale]
      push_cast
      field_simp
    rw [hvalue, halfAway_div _ _ (by positivity), round2, if_neg h]
    unfold toKobo
    dsimp only
    rw [Nat.sub_self, pow_zero, mul_one]

/-! ### Texts -/

theorem padStart_digits (n : ℕ) : padStart 3 (digits n) =
    digits (n / 100) ++ (digits (n % 100 / 10) ++ digits (n % 10)) := by
  have hstep : ∀ m, 10 ≤ m → digits m = digits (m / 10) ++ digits (m % 10) := by
    intro m hm
    rw [digits_of_lt (Nat.mod_lt _ (by decide)), digits_eq, digits_eq,
      Nat.toDigits_of_base_le (by decide) hm]
  have hone : ∀ d, d < 10 → (digits d).length = 1 := by
    intro d hd
    rw [digits_of_lt hd]
    rfl
  have hzero : digits 0 = ['0'] := rfl
  have hunits := hone (n % 10) (Nat.mod_lt _ (by decide))
  unfold padStart
  obtain hsmall | hten := Nat.lt_or_ge n 10
  · have hself : n % 10 = n := Nat.mod_eq_of_lt hsmall
    rw [show n / 100 = 0 by omega, show n % 100 / 10 = 0 by omega, hself, hzero, hone n hsmall]
    rfl
  · have htens := hone (n / 10 % 10) (Nat.mod_lt _ (by decide))
    have hmiddle : n % 100 / 10 = n / 10 % 10 := by omega
    obtain hmid | hhundred := Nat.lt_or_ge n 100
    · have hquot : n / 10 % 10 = n / 10 := Nat.mod_eq_of_lt (by omega)
      rw [show n / 100 = 0 by omega, hmiddle, hstep n hten, List.length_append, hunits, hquot]
      rw [hquot] at htens
      rw [htens, hzero]
      rfl
    · have hfirst : 1 ≤ (digits (n / 100)).length := List.length_pos_iff.mpr (digits_ne_nil _)
      have hwhole : n / 10 / 10 = n / 100 := by omega
      rw [hstep n hten, hstep (n / 10) (by omega), hwhole, hmiddle]
      rw [List.length_append, List.length_append, htens, hunits,
        Nat.sub_eq_zero_of_le (by omega : 3 ≤ (digits (n / 100)).length + 1 + 1),
        List.replicate_zero, List.nil_append, List.append_assoc]

theorem stringFixedTwo_toList (n : ℤ) : (stringFixedTwo n).toList =
    (if n < 0 then ['-'] else []) ++ (digits (n.natAbs / 100) ++
      '.' :: (digits (n.natAbs % 100 / 10) ++ digits (n.natAbs % 10))) := by
  unfold stringFixedTwo Numeric.text digits
  simp only [String.toList_append, List.append_assoc]
  split
  · rfl
  · rfl

theorem renderScaled_eq {a : Scaled} (h : a.s ≤ 2) : renderScaled a = stringFixedTwo (toKobo a) := by
  have hpair : (if a.s < 2 then (a.u * 10 ^ (2 - a.s), 2) else (a.u, a.s)) = (toKobo a, 2) := by
    unfold toKobo
    split
    · rfl
    · have htwo : a.s = 2 := by omega
      rw [htwo, Nat.sub_self, pow_zero, mul_one]
  have hstrip : ∀ m : ℤ, stripZeros m 2 = (m, 2) := by
    intro m
    rw [stripZeros, if_neg fun hlong => absurd hlong.1 (by decide)]
  refine String.toList_inj.mp ?_
  unfold renderScaled
  rw [hpair]
  dsimp only
  rw [hstrip, String.toList_ofList, stringFixedTwo_toList]
  dsimp only
  generalize toKobo a = n
  change (if n < 0 then ['-'] else []) ++
    (padStart 3 (digits n.natAbs)).take ((padStart 3 (digits n.natAbs)).length - 2) ++
    '.' :: (padStart 3 (digits n.natAbs)).drop ((padStart 3 (digits n.natAbs)).length - 2) = _
  have htwo : (digits (n.natAbs % 100 / 10) ++ digits (n.natAbs % 10)).length = 2 := by
    rw [digits_of_lt (by omega), digits_of_lt (by omega)]
    rfl
  rw [padStart_digits, List.length_append, htwo, Nat.add_sub_cancel, List.take_left, List.drop_left,
    List.append_assoc]

theorem koboString_eq (n : ℤ) : koboString n = stringFixedTwo n := by
  have hself : toKobo ⟨n, 2⟩ = n := mul_one n
  rw [koboString, renderScaled_eq (le_refl 2), hself]

/-! ### One group -/

theorem floorDiv_eq (e : ℤ) : floorDiv e 10000 = ⌊(e : ℚ) / 10000⌋ := by
  have hfloor : ⌊(e : ℚ) / 10000⌋ = e / 10000 := Rat.floor_intCast_div_natCast e 10000
  rw [hfloor]
  unfold floorDiv
  split
  · rename_i hpos
    exact Int.tdiv_eq_ediv_of_nonneg hpos
  · rename_i hneg
    rw [Int.tdiv_eq_ediv_of_nonneg (by omega)]
    omega

theorem byDraftRemainder_eq (exact : List ℤ) :
    byDraftRemainder (exact.map fun e => e - floorDiv e 10000 * 10000) =
      byRemainder (exact.map fun e : ℤ => (e : ℚ) / 10000) := by
  set rem := exact.map fun e => e - floorDiv e 10000 * 10000 with hrem
  set key : ℕ → ℚ := fun i => Int.fract ((exact.map fun e : ℤ => (e : ℚ) / 10000).getD i 0) with hkey
  have hfract : ∀ i, key i = (rem.getD i 0 : ℚ) / 10000 := by
    intro i
    rw [hkey, hrem]
    simp only [List.getD_eq_getElem?_getD, List.getElem?_map]
    cases exact[i]? with
    | none => simp
    | some e =>
      simp only [Option.map_some, Option.getD_some]
      rw [floorDiv_eq, Int.fract]
      push_cast
      rw [sub_div, mul_div_cancel_right₀ _ (by norm_num)]
  have hlt : ∀ a b, key a < key b ↔ rem.getD a 0 < rem.getD b 0 := by
    intro a b
    rw [hfract, hfract, div_lt_div_iff_of_pos_right (by norm_num), Int.cast_lt]
  have heq : ∀ a b, key a = key b ↔ rem.getD a 0 = rem.getD b 0 := by
    intro a b
    rw [hfract, hfract, div_left_inj' (by norm_num), Int.cast_inj]
  -- distinct positions stand in one order only
  have hsorted : (byDraftRemainder rem).Pairwise (Ahead key) := by
    let R : ℕ → ℕ → Prop := fun a b =>
      if rem.getD a 0 = rem.getD b 0 then a ≤ b else rem.getD a 0 > rem.getD b 0
    have htotal : Std.Total R := ⟨fun a b => by
      change (if _ then _ else _) ∨ (if _ then _ else _)
      split_ifs <;> omega⟩
    have htrans : IsTrans ℕ R := ⟨fun a b c hab hbc => by
      change (if _ then _ else _) at hab hbc
      change (if _ then _ else _)
      split_ifs at hab hbc ⊢ <;> omega⟩
    have hR : (byDraftRemainder rem).Pairwise R := List.pairwise_insertionSort R _
    have hnodup : (byDraftRemainder rem).Nodup :=
      (List.perm_insertionSort R _).nodup_iff.mpr List.nodup_range
    refine (hR.and hnodup).imp fun {a b} hab => ?_
    obtain ⟨hab, hne⟩ := hab
    change (if _ then _ else _) at hab
    unfold Ahead
    rw [hlt, heq]
    split_ifs at hab <;> omega
  have hperm : (byDraftRemainder rem).Perm (byRemainder (exact.map fun e : ℤ => (e : ℚ) / 10000)) := by
    refine (List.perm_insertionSort _ _).trans ?_
    have hlength : rem.length = (exact.map fun e : ℤ => (e : ℚ) / 10000).length := by
      rw [hrem, List.length_map, List.length_map]
    rw [hlength]
    exact (byKey_perm _ _).symm
  refine hperm.eq_of_pairwise ?_ hsorted (byKey_ahead key _)
  intro a b _ _ hab hba
  exfalso
  obtain hab | ⟨hab, hlow⟩ := hab
  · obtain hba | ⟨hba, -⟩ := hba
    · exact lt_asymm hab hba
    · exact hab.ne hba.symm
  · obtain hba | ⟨-, hhigh⟩ := hba
    · exact hba.ne hab.symm
    · exact Nat.lt_asymm hlow hhigh

theorem draftGroupTaxes_eq (percent : ℤ) (members : List TaxMember) :
    draftGroupTaxes percent members =
      apportion (members.map fun m => exactTax m.base percent) := by
  have hshares : (members.map fun m => exactTax m.base percent) =
      (members.map fun m => m.base * percent).map fun e : ℤ => (e : ℚ) / 10000 := by
    rw [List.map_map]
    refine List.map_congr_left fun m _ => ?_
    simp only [Function.comp_apply, exactTax]
    push_cast
    rfl
  rw [hshares]
  unfold draftGroupTaxes
  dsimp only
  generalize members.map (fun m => m.base * percent) = exact
  have hfloors : (exact.map fun e => floorDiv e 10000) =
      floors (exact.map fun e : ℤ => (e : ℚ) / 10000) := by
    rw [floors, List.map_map]
    exact List.map_congr_left fun e _ => floorDiv_eq e
  have hsum : (exact.map fun e : ℤ => (e : ℚ) / 10000).sum = (exact.sum : ℚ) / (10000 : ℕ) := by
    clear hfloors
    induction exact with
    | nil => simp
    | cons e exact ih =>
      rw [List.map_cons, List.sum_cons, List.sum_cons, ih]
      push_cast
      ring
  have hrounded : (if exact.sum < 0 then -(((exact.sum.natAbs + 5000) / 10000 : ℕ) : ℤ)
      else (((exact.sum.natAbs + 5000) / 10000 : ℕ) : ℤ)) =
      halfAway (exact.map fun e : ℤ => (e : ℚ) / 10000).sum := by
    rw [hsum, halfAway_div _ _ (by norm_num)]
    dsimp only
    have hhalf : (exact.sum.natAbs + 5000) / 10000 =
        if exact.sum.natAbs % 10000 * 2 ≥ 10000 then exact.sum.natAbs / 10000 + 1
        else exact.sum.natAbs / 10000 := by
      split <;> omega
    rw [hhalf]
  rw [apportion, leftover, ← hfloors, ← hrounded, ← byDraftRemainder_eq, ← giveKobo_eq]

/-! ### The groups -/

def firstKeys {κ : Type} [DecidableEq κ] (keys : List κ) : List κ :=
  keys.foldl (fun order key => if key ∈ order then order else order ++ [key]) []

theorem firstKeys_concat {κ : Type} [DecidableEq κ] (keys : List κ) (key : κ) :
    firstKeys (keys ++ [key]) =
      if key ∈ firstKeys keys then firstKeys keys else firstKeys keys ++ [key] := by
  unfold firstKeys
  rw [List.foldl_append]
  rfl

theorem mem_firstKeys {κ : Type} [DecidableEq κ] {keys : List κ} {k : κ} :
    k ∈ firstKeys keys ↔ k ∈ keys := by
  induction keys using List.reverseRecOn with
  | nil => exact Iff.rfl
  | append_singleton keys key ih =>
    rw [firstKeys_concat]
    split
    · rename_i hin
      rw [List.mem_append, List.mem_singleton, ih]
      refine ⟨.inl, fun h => h.elim id ?_⟩
      rintro rfl
      exact ih.mp hin
    · rw [List.mem_append, List.mem_append, ih]

theorem firstKeys_map {κ μ : Type} [DecidableEq κ] [DecidableEq μ] {φ : κ → μ}
    (hφ : Function.Injective φ) (keys : List κ) :
    firstKeys (keys.map φ) = (firstKeys keys).map φ := by
  induction keys using List.reverseRecOn with
  | nil => rfl
  | append_singleton keys key ih =>
    rw [List.map_append, List.map_cons, List.map_nil, firstKeys_concat, firstKeys_concat, ih]
    by_cases hin : key ∈ firstKeys keys
    · rw [if_pos hin, if_pos (List.mem_map_of_mem hin)]
    · rw [if_neg hin, if_neg fun hmem => hin ((List.mem_map_of_injective hφ).mp hmem),
        List.map_append]
      rfl

theorem draftKey_inj {c c' : String} {p p' : ℤ} (h : draftKey c p = draftKey c' p') :
    (c, p) = (c', p') := by
  have hno : ∀ n : ℤ, '|' ∉ (toString n).toList.reverse := by
    intro n hmem
    rw [List.mem_reverse] at hmem
    have htext : ∀ c ∈ (toString n).toList, c = '-' ∨ c.isDigit = true := by
      cases n with
      | ofNat k => exact fun c hc => .inr (isDigit_of_mem_digits (n := k) hc)
      | negSucc k =>
        intro c hc
        have hc' : c ∈ ("-" ++ toString (k + 1)).toList := hc
        rw [String.toList_append, List.mem_append] at hc'
        obtain hc' | hc' := hc'
        · exact .inl (List.mem_singleton.mp hc')
        · exact .inr (isDigit_of_mem_digits hc')
    obtain hbar | hbar := htext _ hmem
    · cases hbar
    · cases hbar
  have hlist := congrArg (fun s => s.toList.reverse) h
  simp only [draftKey, String.toList_append, List.reverse_append, List.append_assoc] at hlist
  have hsplit : (toString p).toList.reverse ++ '|' :: c.toList.reverse =
      (toString p').toList.reverse ++ '|' :: c'.toList.reverse := hlist
  obtain ⟨hpercent, hcategory⟩ := append_sep_inj (hno p) (hno p') hsplit
  have hp : p = p' := toString_int_inj (String.toList_inj.mp (List.reverse_inj.mp hpercent))
  have hc : c = c' := String.toList_inj.mp (List.reverse_inj.mp hcategory)
  rw [hp, hc]

abbrev TaxEntry := (String × ℤ) × TaxMember

def groupOf (entries : List TaxEntry) (g : String × ℤ) : DraftGroup :=
  ⟨draftKey g.1 g.2, g.2, (entries.filter fun e => e.1 = g).map Prod.snd⟩

theorem foldl_joinGroup (entries : List TaxEntry) :
    entries.foldl (fun gs e => joinGroup gs (draftKey e.1.1 e.1.2) e.1.2 e.2) [] =
      (firstKeys (entries.map Prod.fst)).map (groupOf entries) := by
  induction entries using List.reverseRecOn with
  | nil => rfl
  | append_singleton entries e ih =>
    obtain ⟨⟨c, p⟩, m⟩ := e
    rw [List.foldl_append, ih, List.map_append, List.map_cons, List.map_nil, firstKeys_concat]
    have hother : ∀ g : String × ℤ, g ≠ (c, p) →
        groupOf (entries ++ [((c, p), m)]) g = groupOf entries g := by
      intro g hg
      unfold groupOf
      rw [List.filter_append, List.filter_cons_of_neg (by simpa using hg.symm), List.filter_nil,
        List.append_nil]
    have hown : groupOf (entries ++ [((c, p), m)]) (c, p) =
        { groupOf entries (c, p) with members := (groupOf entries (c, p)).members ++ [m] } := by
      unfold groupOf
      rw [List.filter_append, List.filter_cons_of_pos (by simp), List.filter_nil, List.map_append]
      rfl
    have hkey : ∀ g, (groupOf entries g).key = draftKey c p ↔ g = (c, p) := by
      intro g
      exact ⟨fun h => draftKey_inj h, fun h => by rw [h]; rfl⟩
    change joinGroup _ (draftKey c p) p m = _
    unfold joinGroup
    by_cases hin : (c, p) ∈ firstKeys (entries.map Prod.fst)
    · have hany : ((firstKeys (entries.map Prod.fst)).map (groupOf entries)).any
          (fun g => decide (g.key = draftKey c p)) = true :=
        List.any_eq_true.mpr ⟨_, List.mem_map_of_mem hin, by simp [hkey]⟩
      rw [if_pos hany, if_pos hin, List.map_map]
      refine List.map_congr_left fun g _ => ?_
      rw [Function.comp_apply]
      by_cases hg : g = (c, p)
      · subst hg
        rw [if_pos ((hkey _).mpr rfl), hown]
      · rw [if_neg fun h => hg ((hkey g).mp h), hother g hg]
    · have hnone : ¬ ((firstKeys (entries.map Prod.fst)).map (groupOf entries)).any
          (fun g => decide (g.key = draftKey c p)) = true := by
        intro hany
        obtain ⟨group, hmem, hsame⟩ := List.any_eq_true.mp hany
        obtain ⟨g, hg, rfl⟩ := List.mem_map.mp hmem
        rw [(hkey g).mp (of_decide_eq_true hsame)] at hg
        exact hin hg
      have hfirst : entries.filter (fun e => e.1 = (c, p)) = [] := by
        refine List.filter_eq_nil_iff.mpr fun e he hsame => hin (mem_firstKeys.mpr ?_)
        rw [← of_decide_eq_true hsame]
        exact List.mem_map_of_mem he
      rw [if_neg hnone, if_neg hin, List.map_append, List.map_cons, List.map_nil]
      congr 1
      · refine List.map_congr_left fun g hg => (hother g ?_).symm
        rintro rfl
        exact hin hg
      · rw [hown]
        unfold groupOf
        rw [hfirst]
        rfl

/-! ### The note's lines as draft lines -/

def draftLine (l : NoteMoneyLine) : DraftLine :=
  ⟨l.quantity, l.unitPrice, l.taxCategory.getD "", l.taxPercent.getD ""⟩

structure PlainLine (l : NoteMoneyLine) : Prop where
  quantity : unpadded l.quantity = true
  unitPrice : unpadded l.unitPrice = true
  percent : ∀ t, l.taxPercent = some t → (∃ x, parsePlain t = .ok x) ∧ unpadded t = true

section
variable {l : NoteMoneyLine}

theorem lineAmount_draftLine (h : PlainLine l) {q p : ℚ} (hq : noteQuantity l.quantity = .ok q)
    (hp : noteUnitPrice l.unitPrice = .ok p) :
    ∃ a, lineAmount (draftLine l) = some a ∧ a.value = q * p := by
  obtain ⟨q', hq', hrest⟩ := bind_eq_ok.mp hq
  obtain rfl : q' = q := pure_eq_ok.mp (refuse_eq_ok.mp hrest).2
  obtain ⟨p', hp', hrest⟩ := bind_eq_ok.mp hp
  obtain rfl : p' = p := pure_eq_ok.mp (refuse_eq_ok.mp hrest).2
  obtain ⟨a, ha, hav⟩ := parseScaled_plain hq' h.quantity
  obtain ⟨b, hb, hbv⟩ := parseScaled_plain hp' h.unitPrice
  refine ⟨mulScaled a b, ?_, ?_⟩
  · unfold lineAmount draftLine
    dsimp only
    rw [ha, hb]
    rfl
  · rw [value_mul, hav, hbv]

theorem draftLine_categorised : categorised l = true ↔ (draftLine l).taxCategory ≠ "" := by
  unfold categorised draftLine
  cases l.taxCategory with
  | none => simp
  | some c => simp

theorem addLine_draftLine (h : PlainLine l) {a : Scaled} (ha : lineAmount (draftLine l) = some a)
    (groups : List DraftGroup) (i : ℕ) :
    addLine groups (draftLine l) i =
      match taxGroup l with
      | none => groups
      | some g => joinGroup groups (draftKey g.1 g.2) g.2 ⟨i, roundTwo a.value⟩ := by
  unfold addLine taxGroup usablePercent
  rw [ha]
  by_cases hcat : categorised l = true
  · rw [if_neg (draftLine_categorised.mp hcat), if_pos hcat]
    obtain ⟨c, hc⟩ : ∃ c, l.taxCategory = some c := by
      unfold categorised at hcat
      cases hc : l.taxCategory with
      | none =>
        rw [hc] at hcat
        cases hcat
      | some c => exact ⟨c, rfl⟩
    have hcategory : (draftLine l).taxCategory = c := by
      unfold draftLine
      rw [hc]
      rfl
    rw [hc, hcategory, Option.bind_some]
    cases ht : l.taxPercent with
    | none =>
      have hpercent : parseScaled (draftLine l).taxPercent = none := by
        unfold draftLine
        rw [ht]
        rfl
      rw [hpercent]
      rfl
    | some t =>
      obtain ⟨⟨x, hx⟩, hpad⟩ := h.percent t ht
      obtain ⟨b, hb, hbv⟩ := parseScaled_plain hx hpad
      have hpercent : parseScaled (draftLine l).taxPercent = some b := by
        unfold draftLine
        rw [ht]
        exact hb
      have hparsed : (parsePlain t).toOption = some x := toOption_eq_some.mpr hx
      rw [hpercent, Option.bind_some, hparsed]
      dsimp only [Option.map_some]
      rw [toKobo_round2, toKobo_round2, hbv]
  · have hblank : (draftLine l).taxCategory = "" := by
      by_contra hne
      exact hcat (draftLine_categorised.mpr hne)
    rw [if_pos hblank, if_neg hcat]
    cases l.taxCategory <;> rfl

end

/-! ### The line taxes -/

def taxEntry (totals : List ℤ) (l : Option NoteMoneyLine) (i : ℕ) : Option TaxEntry :=
  (l.bind taxGroup).map fun g => (g, ⟨i, totals.getD i 0⟩)

def taxEntries (lines : List NoteMoneyLine) (totals : List ℤ) : List TaxEntry :=
  (List.range lines.length).filterMap fun i => taxEntry totals lines[i]? i

section
variable {lines : List NoteMoneyLine} {totals : List ℤ} {rows : List (ℚ × ℤ)}

theorem range_filterMap {α : Type} (G : Option NoteMoneyLine → ℕ → Option α) :
    (List.range lines.length).filterMap (fun i => G lines[i]? i) =
      lines.zipIdx.filterMap fun li => G (some li.1) li.2 := by
  have hrange : List.range lines.length = lines.zipIdx.map Prod.snd := by
    rw [List.zipIdx_map_snd, List.range_eq_range']
  rw [hrange, List.filterMap_map]
  refine List.filterMap_congr fun li hli => ?_
  rw [Function.comp_apply, List.mem_zipIdx_iff_getElem?.mp hli]

theorem map_fst_taxEntries :
    (taxEntries lines totals).map Prod.fst = lines.filterMap taxGroup := by
  have hpairs : lines.filterMap taxGroup = lines.zipIdx.filterMap fun li => taxGroup li.1 := by
    have hfst := List.zipIdx_map_fst 0 lines
    conv_lhs => rw [← hfst]
    rw [List.filterMap_map]
    rfl
  rw [taxEntries, range_filterMap (taxEntry totals), hpairs, List.map_filterMap]
  refine List.filterMap_congr fun li _ => ?_
  rw [taxEntry, Option.bind_some, Option.map_map]
  exact Option.map_id'

variable (lines totals) in
theorem filter_taxEntries (g : String × ℤ) :
    ((taxEntries lines totals).filter fun e => e.1 = g).map Prod.snd =
      (groupLines lines g).map fun i => ⟨i, totals.getD i 0⟩ := by
  unfold taxEntries groupLines taxEntry
  induction List.range lines.length with
  | nil => rfl
  | cons i is ih =>
    cases hi : lines[i]?.bind taxGroup with
    | none =>
      rw [List.filterMap_cons_none (by rw [hi]; rfl), List.filter_cons_of_neg (by simp [hi])]
      exact ih
    | some g' =>
      rw [List.filterMap_cons_some (by rw [hi]; rfl)]
      by_cases hg : g' = g
      · rw [List.filter_cons_of_pos (by simpa using hg),
          List.filter_cons_of_pos (by simpa [hi] using hg), List.map_cons, List.map_cons, ih]
      · rw [List.filter_cons_of_neg (by simpa using hg),
          List.filter_cons_of_neg (by simpa [hi] using hg)]
        exact ih

theorem foldl_entries {α β γ : Type} {step : γ → α → γ} {join : γ → β → γ} (entry : α → Option β)
    {xs : List α} (h : ∀ x ∈ xs, ∀ c, step c x =
      match entry x with
      | none => c
      | some b => join c b) (c : γ) : xs.foldl step c = (xs.filterMap entry).foldl join c := by
  induction xs generalizing c with
  | nil => rfl
  | cons x xs ih =>
    rw [List.foldl_cons, ih (fun y hy => h y (List.mem_cons_of_mem _ hy)), h x List.mem_cons_self]
    cases hx : entry x with
    | none => rw [List.filterMap_cons_none hx]
    | some b => rw [List.filterMap_cons_some hx, List.foldl_cons]

def SameLine (l : NoteMoneyLine) (r : ℚ × ℤ) : Prop :=
  PlainLine l ∧ r.2 = roundTwo r.1 ∧ ∃ a, lineAmount (draftLine l) = some a ∧ a.value = r.1

theorem sameLine_at (h : List.Forall₂ SameLine lines rows) {i : ℕ} {l : NoteMoneyLine}
    (hl : lines[i]? = some l) : ∃ r, rows[i]? = some r ∧ SameLine l r := by
  induction h generalizing i with
  | nil => cases hl
  | cons hrow _ ih =>
    cases i with
    | zero =>
      obtain rfl := Option.some.inj hl
      exact ⟨_, rfl, hrow⟩
    | succ i => exact ih hl

theorem draftGroups_eq (h : List.Forall₂ SameLine lines rows) :
    draftGroups (lines.map draftLine) =
      (firstKeys (lines.filterMap taxGroup)).map
        (groupOf (taxEntries lines (rows.map Prod.snd))) := by
  have hstep : ∀ li ∈ lines.zipIdx, ∀ gs, addLine gs (draftLine li.1) li.2 =
      match taxEntry (rows.map Prod.snd) (some li.1) li.2 with
      | none => gs
      | some e => joinGroup gs (draftKey e.1.1 e.1.2) e.1.2 e.2 := by
    rintro ⟨l, i⟩ hli gs
    obtain ⟨r, hr, hplain, htotal, a, ha, hvalue⟩ := sameLine_at h (List.mem_zipIdx_iff_getElem?.mp hli)
    have hbase : (rows.map Prod.snd).getD i 0 = roundTwo a.value := by
      rw [List.getD_eq_getElem?_getD, List.getElem?_map, hr, hvalue, ← htotal]
      rfl
    rw [addLine_draftLine hplain ha, taxEntry, hbase, Option.bind_some]
    cases taxGroup l <;> rfl
  unfold draftGroups
  rw [List.zipIdx_map, List.foldl_map, ← map_fst_taxEntries, ← foldl_joinGroup, taxEntries,
    range_filterMap (taxEntry (rows.map Prod.snd))]
  refine foldl_entries (fun li : NoteMoneyLine × ℕ => taxEntry (rows.map Prod.snd) (some li.1) li.2)
    (fun li hli gs => (hstep li hli gs).trans ?_) []
  cases taxEntry (rows.map Prod.snd) (some li.1) li.2 <;> rfl

theorem lineTaxKobo_eq (h : List.Forall₂ SameLine lines rows) :
    lineTaxKobo (lines.map draftLine) = lineTaxes lines (rows.map Prod.snd) := by
  have horder : groupOrder lines = (firstKeys (lines.filterMap taxGroup)).map groupText := by
    have hkeys : lines.filterMap groupKey = (lines.filterMap taxGroup).map groupText := by
      rw [List.map_filterMap]
      rfl
    rw [← firstKeys_map groupText_inj, ← hkeys]
    rfl
  unfold lineTaxKobo lineTaxes
  rw [draftGroups_eq h, horder, List.foldl_map, List.foldl_map, List.length_map]
  congr 1
  funext taxes g
  have hmembers := filter_taxEntries lines (rows.map Prod.snd) g
  have hindices : (groupOf (taxEntries lines (rows.map Prod.snd)) g).members.map TaxMember.index =
      members lines (groupText g) := by
    unfold groupOf
    dsimp only
    rw [hmembers, List.map_map, ← groupLines_eq]
    exact List.map_id' _
  have hshares : draftGroupTaxes (groupOf (taxEntries lines (rows.map Prod.snd)) g).percent
      (groupOf (taxEntries lines (rows.map Prod.snd)) g).members =
      groupTaxes (exactTaxes lines (rows.map Prod.snd) (groupText g)) := by
    rw [draftGroupTaxes_eq, groupTaxes_eq, exactTaxes_eq]
    unfold groupOf
    dsimp only
    rw [hmembers, List.map_map]
    rfl
  rw [hindices, hshares]

/-! ### The header -/

theorem sumAmounts_eq (h : List.Forall₂ SameLine lines rows) (hne : lines ≠ []) :
    ∃ a, sumAmounts ((lines.map draftLine).map lineAmount) = some a ∧
      a.value = (rows.map Prod.fst).sum := by
  have hfold : ∀ start : Scaled, ∃ a,
      ((lines.map draftLine).map lineAmount).foldlM
        (fun sum amount => amount.map (addScaled sum)) start = some a ∧
      a.value = start.value + (rows.map Prod.fst).sum := by
    clear hne
    induction h with
    | nil => exact fun start => ⟨start, rfl, (add_zero _).symm⟩
    | cons hrow _ ih =>
      intro start
      obtain ⟨-, -, b, hb, hvalue⟩ := hrow
      obtain ⟨a, ha, hsum⟩ := ih (addScaled start b)
      refine ⟨a, ?_, ?_⟩
      · rw [List.map_cons, List.map_cons, List.foldlM_cons, hb]
        exact ha
      · rw [hsum, value_add, hvalue, List.map_cons, List.sum_cons, add_assoc]
  obtain ⟨a, ha, hsum⟩ := hfold ⟨0, 0⟩
  refine ⟨a, ?_, ?_⟩
  · unfold sumAmounts
    split
    · rename_i hnil
      exact absurd (List.map_eq_nil_iff.mp (List.map_eq_nil_iff.mp hnil)) hne
    · exact ha
  · rw [hsum]
    simp [Scaled.value]

theorem foldl_taxes (taxes : List (Option ℤ)) (start : ℤ) :
    taxes.foldl (fun sum kobo => sum + kobo.getD 0) start = start + taxes.reduceOption.sum := by
  induction taxes generalizing start with
  | nil => exact (add_zero _).symm
  | cons t taxes ih =>
    rw [List.foldl_cons, ih]
    cases t with
    | none =>
      rw [List.reduceOption_cons_of_none, Option.getD_none, add_zero]
    | some n =>
      rw [List.reduceOption_cons_of_some, Option.getD_some, List.sum_cons, add_assoc]

theorem sameLines {rows : List (ℚ × ℤ)} (hrows : lines.mapM noteLine = .ok rows)
    (hplain : ∀ l ∈ lines, PlainLine l) : List.Forall₂ SameLine lines rows := by
  have hlines := noteLines_eq_ok hrows
  clear hrows
  induction hlines with
  | nil => exact .nil
  | cons hrow _ ih =>
    obtain ⟨q, p, hq, hp, rfl⟩ := hrow
    have hl := hplain _ List.mem_cons_self
    exact .cons ⟨hl, rfl, lineAmount_draftLine hl hq hp⟩
      (ih fun l hl => hplain l (List.mem_cons_of_mem _ hl))

end

/-- On the texts of a note the wizard returns the note's subtotal, VAT, total and line taxes. -/
theorem draft_agrees_with_note (lines : List NoteMoneyLine) (out : NoteMoney)
    (hout : noteAmounts lines = .ok out) (hne : lines ≠ []) (hplain : ∀ l ∈ lines, PlainLine l) :
    (draftTotals (lines.map draftLine)).subtotal = some out.subtotal ∧
      (draftTotals (lines.map draftLine)).vat = some out.vat ∧
      (draftTotals (lines.map draftLine)).total = some out.total ∧
      draftLineTaxes (lines.map draftLine) = out.lineTaxes := by
  simp only [noteAmounts, bind_eq_ok, refuse_eq_ok, pure_eq_ok] at hout
  obtain ⟨rows, hrows, -, rfl⟩ := hout
  have hsame := sameLines hrows hplain
  have htaxes := lineTaxKobo_eq hsame
  obtain ⟨sum, hsum, hvalue⟩ := sumAmounts_eq hsame hne
  have hsubtotal : toKobo (round2 sum) = roundTwo (rows.map Prod.fst).sum := by
    rw [toKobo_round2, hvalue]
  have hcategorised : ((lines.map draftLine).any fun item => decide (item.taxCategory ≠ "")) =
      lines.any categorised := by
    rw [List.any_map]
    congr 1
    funext l
    rw [Bool.eq_iff_iff, Function.comp_apply, decide_eq_true_iff]
    exact draftLine_categorised.symm
  have hvat : ∃ vat : Scaled, vat.s ≤ 2 ∧
      toKobo vat = noteVAT lines (rows.map Prod.snd) (roundTwo (rows.map Prod.fst).sum) ∧
      (if lines.any categorised = true then
        (⟨(lineTaxKobo (lines.map draftLine)).foldl (fun sum kobo => sum + kobo.getD 0) 0, 2⟩ : Scaled)
      else round2 (mulScaled (round2 sum) vatRate)) = vat := by
    unfold noteVAT
    by_cases hany : lines.any categorised = true
    · rw [if_pos hany, if_pos hany]
      refine ⟨_, le_rfl, ?_, rfl⟩
      rw [foldl_taxes, htaxes, zero_add]
      exact mul_one _
    · rw [if_neg hany, if_neg hany]
      refine ⟨_, round2_scale _, ?_, rfl⟩
      rw [toKobo_round2, value_mul, roundTwo, ← hsubtotal, ← toKobo_value (round2_scale sum)]
      congr 1
      unfold Scaled.value vatRate
      norm_num
      ring
  obtain ⟨vat, hscale, hvatKobo, hvatEq⟩ := hvat
  have htotal : toKobo (round2 (addScaled (round2 sum) vat)) =
      toKobo (round2 sum) + toKobo vat := by
    rw [toKobo_round2, roundTwo, value_add, add_mul, toKobo_value (round2_scale sum),
      toKobo_value hscale, ← Int.cast_add, halfAway_int]
  unfold draftTotals
  rw [hsum]
  dsimp only [Option.map_some, Option.bind_some]
  rw [hcategorised, hvatEq, renderScaled_eq (round2_scale sum), renderScaled_eq hscale,
    renderScaled_eq (round2_scale _), htotal, hsubtotal, hvatKobo]
  refine ⟨rfl, rfl, rfl, ?_⟩
  unfold draftLineTaxes
  rw [htaxes, noteTaxes_eq]
  refine List.map_congr_left fun t _ => ?_
  rw [funext koboString_eq]

theorem tieLines_plain : ∀ l ∈ tieLines, PlainLine l := by
  intro l hl
  obtain rfl := List.eq_of_mem_replicate hl
  refine ⟨by decide +kernel, by decide +kernel, fun t ht => ?_⟩
  obtain rfl := Option.some.inj ht
  refine ⟨⟨75 / 10, ?_⟩, by decide +kernel⟩
  have hparsed : (parsePlain "7.5").toOption = some (75 / 10) := by decide +kernel
  exact toOption_eq_some.mp hparsed

theorem draft_agrees_with_note_tie :
    (draftTotals (tieLines.map draftLine)).total = some "32.44" ∧
      draftLineTaxes (tieLines.map draftLine) = [some "0.76", some "0.75", some "0.75"] := by
  have hrun : noteAmounts tieLines = .ok tieMoney := by decide +kernel
  obtain ⟨-, -, htotal, htaxes⟩ :=
    draft_agrees_with_note tieLines tieMoney hrun (by decide) tieLines_plain
  exact ⟨htotal, htaxes⟩

theorem no_lines_differ : ∃ out, noteAmounts [] = .ok out ∧ out.subtotal = "0.00" ∧
    (draftTotals ([].map draftLine)).subtotal = none :=
  ⟨⟨[], [], "0.00", "0.00", "0.00"⟩, by decide +kernel, rfl, rfl⟩

end InvoiceOs.Invoice
