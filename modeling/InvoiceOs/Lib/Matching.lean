import Mathlib.Data.List.Basic
import Mathlib.Order.Lattice
import Mathlib.Order.Nat

/-! Matchings of two lists that cross nowhere: a pair of positions stands for the two elements
there, and the largest number of pairs has the recursion of a longest common subsequence. -/

namespace InvoiceOs.Lib

def Before (p q : ℕ × ℕ) : Prop := p.1 < q.1 ∧ p.2 < q.2

theorem Before.trans {p q r : ℕ × ℕ} (h : Before p q) (h' : Before q r) : Before p r :=
  ⟨h.1.trans h'.1, h.2.trans h'.2⟩

variable {α β : Type*} (compatible : α → β → Bool)

structure IsMatching (as : List α) (bs : List β) (pairs : List (ℕ × ℕ)) : Prop where
  increasing : pairs.Pairwise Before
  compatible : ∀ p ∈ pairs, ∃ a b, as[p.1]? = some a ∧ bs[p.2]? = some b ∧ compatible a b = true

def longest : List α → List β → ℕ
  | [], _ => 0
  | _ :: _, [] => 0
  | a :: as, b :: bs =>
    max (max (longest as (b :: bs)) (longest (a :: as) bs))
      (if compatible a b then 1 + longest as bs else 0)
termination_by as bs => as.length + bs.length

variable {compatible} {as : List α} {bs : List β} {pairs : List (ℕ × ℕ)}

@[simp] theorem longest_nil_left (bs : List β) : longest compatible [] bs = 0 := by
  rw [longest]

@[simp] theorem longest_nil_right (as : List α) : longest compatible as [] = 0 := by
  cases as <;> rw [longest]

theorem longest_cons (a : α) (as : List α) (b : β) (bs : List β) :
    longest compatible (a :: as) (b :: bs) =
      max (max (longest compatible as (b :: bs)) (longest compatible (a :: as) bs))
        (if compatible a b then 1 + longest compatible as bs else 0) := by
  rw [longest]

theorem longest_drop {i j : ℕ} (hi : i < as.length) (hj : j < bs.length) :
    longest compatible (as.drop i) (bs.drop j) =
      max (max (longest compatible (as.drop (i + 1)) (bs.drop j))
          (longest compatible (as.drop i) (bs.drop (j + 1))))
        (if compatible as[i] bs[j]
          then 1 + longest compatible (as.drop (i + 1)) (bs.drop (j + 1)) else 0) := by
  rw [List.drop_eq_getElem_cons hi, List.drop_eq_getElem_cons hj]
  exact longest_cons ..

theorem IsMatching.tail {p : ℕ × ℕ} (h : IsMatching compatible as bs (p :: pairs)) :
    IsMatching compatible as bs pairs :=
  ⟨(List.pairwise_cons.mp h.increasing).2, fun q hq => h.compatible q (List.mem_cons_of_mem p hq)⟩

theorem IsMatching.length_le_drop (h : IsMatching compatible as bs pairs) (i j : ℕ)
    (hfrom : ∀ p ∈ pairs, i ≤ p.1 ∧ j ≤ p.2) :
    pairs.length ≤ longest compatible (as.drop i) (bs.drop j) := by
  induction hn : (as.length - i) + (bs.length - j) using Nat.strong_induction_on
    generalizing i j pairs with
  | _ n ih =>
    cases pairs with
    | nil => exact Nat.zero_le _
    | cons p pairs =>
      obtain ⟨a, b, ha, hb, hab⟩ := h.compatible p List.mem_cons_self
      obtain ⟨hpi, hai⟩ := List.getElem?_eq_some_iff.mp ha
      obtain ⟨hpj, hbj⟩ := List.getElem?_eq_some_iff.mp hb
      have hp : i ≤ p.1 ∧ j ≤ p.2 := hfrom p List.mem_cons_self
      have hlater : ∀ q ∈ pairs, Before p q := (List.pairwise_cons.mp h.increasing).1
      rw [longest_drop (Nat.lt_of_le_of_lt hp.1 hpi) (Nat.lt_of_le_of_lt hp.2 hpj)]
      by_cases hi : i = p.1
      · by_cases hj : j = p.2
        · subst hi hj
          have hrest : pairs.length ≤
              longest compatible (as.drop (p.1 + 1)) (bs.drop (p.2 + 1)) :=
            ih _ (by omega) h.tail (p.1 + 1) (p.2 + 1) (fun q hq => hlater q hq) rfl
          rw [hai, hbj, if_pos hab, List.length_cons, Nat.add_comm]
          exact (Nat.add_le_add_left hrest 1).trans (le_max_right _ _)
        · have hskip := ih _ (by omega) h i (j + 1) (fun q hq => by
            rcases List.mem_cons.mp hq with rfl | hq
            · omega
            · have hafter := hlater q hq
              exact ⟨hp.1.trans hafter.1.le, by have := hafter.2; omega⟩) rfl
          exact hskip.trans ((le_max_right _ _).trans (le_max_left _ _))
      · have hskip := ih _ (by omega) h (i + 1) j (fun q hq => by
          rcases List.mem_cons.mp hq with rfl | hq
          · omega
          · have hafter := hlater q hq
            exact ⟨by have := hafter.1; omega, hp.2.trans hafter.2.le⟩) rfl
        exact hskip.trans ((le_max_left _ _).trans (le_max_left _ _))

theorem IsMatching.length_le (h : IsMatching compatible as bs pairs) :
    pairs.length ≤ longest compatible as bs :=
  h.length_le_drop 0 0 fun _ _ => ⟨Nat.zero_le _, Nat.zero_le _⟩

end InvoiceOs.Lib
