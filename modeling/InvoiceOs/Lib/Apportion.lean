import Mathlib.Algebra.Order.BigOperators.Group.List
import Mathlib.Algebra.Order.Floor.Ring
import Mathlib.Data.List.Sort
import Mathlib.Tactic.Linarith
import Mathlib.Tactic.Ring

/-! Whole units for exact shares: every share gets its floor, and what the rounded sum leaves
over goes, one unit each, to the largest remainders, ties to the earlier share. -/

namespace InvoiceOs.Lib

variable {R : Type*}

/-! ### Rounding -/

section
variable [Field R] [LinearOrder R] [IsStrictOrderedRing R] [FloorRing R]

/-- The nearest integer, a half going away from zero. -/
def halfAway (x : R) : ℤ := if 0 ≤ x then ⌊x + 1 / 2⌋ else -⌊-x + 1 / 2⌋

theorem halfAway_near (x : R) : |(halfAway x : R) - x| ≤ 1 / 2 := by
  have hnear : ∀ y : R, |(⌊y + 1 / 2⌋ : R) - y| ≤ 1 / 2 := by
    intro y
    have hle := Int.floor_le (y + 1 / 2)
    have hlt := Int.lt_floor_add_one (y + 1 / 2)
    exact abs_le.mpr ⟨by linarith, by linarith⟩
  unfold halfAway
  split
  · exact hnear x
  · have hneg := hnear (-x)
    rw [← abs_neg] at hneg
    rw [Int.cast_neg]
    refine (le_of_eq (congrArg _ ?_)).trans hneg
    ring

theorem le_halfAway {x : R} {n : ℤ} (h : (n : R) ≤ x) : n ≤ halfAway x := by
  have hnear := abs_le.mp (halfAway_near x)
  have hlt : (n : R) < (halfAway x : R) + 1 := by linarith
  exact Int.lt_add_one_iff.mp (by exact_mod_cast hlt)

theorem halfAway_le {x : R} {n : ℤ} (h : x ≤ n) : halfAway x ≤ n := by
  have hnear := abs_le.mp (halfAway_near x)
  have hlt : (halfAway x : R) < (n : R) + 1 := by linarith
  exact Int.lt_add_one_iff.mp (by exact_mod_cast hlt)

end

/-! ### Order by key -/

section
variable [LinearOrder R]

def byKey (r : ℕ → R) (m : ℕ) : List ℕ := (List.range m).insertionSort fun a b => r b ≤ r a

def Ahead (r : ℕ → R) (a b : ℕ) : Prop := r b < r a ∨ r b = r a ∧ a < b

theorem orderedInsert_ahead {r : ℕ → R} {a : ℕ} {l : List ℕ} (hfirst : ∀ b ∈ l, a < b)
    (hl : l.Pairwise (Ahead r)) :
    (l.orderedInsert (fun a b => r b ≤ r a) a).Pairwise (Ahead r) := by
  induction l with
  | nil => exact List.pairwise_singleton _ _
  | cons b l ih =>
    obtain ⟨hb, htail⟩ := List.pairwise_cons.mp hl
    rw [List.orderedInsert_cons]
    split
    · rename_i hle
      refine List.pairwise_cons.mpr ⟨?_, hl⟩
      intro x hx
      have hkey : r x ≤ r a := by
        obtain rfl | hx := List.mem_cons.mp hx
        · exact hle
        · rcases hb x hx with hlt | ⟨heq, -⟩
          · exact hlt.le.trans hle
          · exact heq.le.trans hle
      exact hkey.lt_or_eq.imp id fun heq => ⟨heq, hfirst x hx⟩
    · rename_i hgt
      refine List.pairwise_cons.mpr ⟨?_, ih (fun x hx => hfirst x (List.mem_cons_of_mem _ hx)) htail⟩
      intro x hx
      obtain rfl | hx := List.mem_orderedInsert _ |>.mp hx
      · exact .inl (not_le.mp hgt)
      · exact hb x hx

theorem insertionSort_ahead {r : ℕ → R} {l : List ℕ} (hl : l.Pairwise (· < ·)) :
    (l.insertionSort fun a b => r b ≤ r a).Pairwise (Ahead r) := by
  induction l with
  | nil => exact .nil
  | cons a l ih =>
    obtain ⟨ha, htail⟩ := List.pairwise_cons.mp hl
    rw [List.insertionSort_cons]
    refine orderedInsert_ahead ?_ (ih htail)
    exact fun b hb => ha b ((List.mem_insertionSort _).mp hb)

theorem byKey_ahead (r : ℕ → R) (m : ℕ) : (byKey r m).Pairwise (Ahead r) :=
  insertionSort_ahead List.pairwise_lt_range

theorem byKey_perm (r : ℕ → R) (m : ℕ) : (byKey r m).Perm (List.range m) :=
  List.perm_insertionSort _ _

end

/-! ### One unit each -/

def addOne (is : List ℕ) (xs : List ℤ) : List ℤ := is.foldl (fun xs i => xs.modify i (· + 1)) xs

@[simp] theorem length_addOne (is : List ℕ) (xs : List ℤ) : (addOne is xs).length = xs.length := by
  induction is generalizing xs with
  | nil => rfl
  | cons i is ih => exact (ih _).trans (List.length_modify _ _ _)

theorem sum_modify {xs : List ℤ} {i : ℕ} (hi : i < xs.length) :
    (xs.modify i (· + 1)).sum = xs.sum + 1 := by
  induction xs generalizing i with
  | nil => cases hi
  | cons x xs ih =>
    cases i with
    | zero =>
      rw [List.modify_zero_cons, List.sum_cons, List.sum_cons]
      ring
    | succ i =>
      rw [List.modify_succ_cons, List.sum_cons, List.sum_cons, ih (Nat.lt_of_succ_lt_succ hi)]
      ring

theorem sum_addOne {is : List ℕ} {xs : List ℤ} (h : ∀ i ∈ is, i < xs.length) :
    (addOne is xs).sum = xs.sum + is.length := by
  induction is generalizing xs with
  | nil => exact (add_zero _).symm
  | cons i is ih =>
    obtain ⟨hi, his⟩ := List.forall_mem_cons.mp h
    have hrest : ∀ j ∈ is, j < (xs.modify i (· + 1)).length := by
      intro j hj
      rw [List.length_modify]
      exact his j hj
    calc (addOne (i :: is) xs).sum = (xs.modify i (· + 1)).sum + is.length := ih hrest
      _ = xs.sum + 1 + is.length := by rw [sum_modify hi]
      _ = xs.sum + (i :: is).length := by
        rw [List.length_cons]
        push_cast
        ring

theorem getElem?_addOne {is : List ℕ} (hnodup : is.Nodup) (xs : List ℤ) (j : ℕ) :
    (addOne is xs)[j]? = xs[j]?.map fun x => if j ∈ is then x + 1 else x := by
  induction is generalizing xs with
  | nil => exact Option.map_id'.symm
  | cons i is ih =>
    obtain ⟨hi, his⟩ := List.nodup_cons.mp hnodup
    have hstep : addOne (i :: is) xs = addOne is (xs.modify i (· + 1)) := rfl
    rw [hstep, ih his, List.getElem?_modify]
    by_cases hij : i = j
    · subst hij
      simp only [hi, if_false, if_true, List.mem_cons, true_or]
      cases xs[i]? <;> rfl
    · have hji : ¬ j = i := fun h => hij h.symm
      simp only [hij, hji, if_false, List.mem_cons, false_or]
      cases xs[j]? <;> rfl

/-! ### Apportionment -/

section
variable [Field R] [LinearOrder R] [FloorRing R]

def floors (xs : List R) : List ℤ := xs.map Int.floor

def leftover (xs : List R) : ℤ := halfAway xs.sum - (floors xs).sum

def byRemainder (xs : List R) : List ℕ := byKey (fun i => Int.fract (xs.getD i 0)) xs.length

def apportion (xs : List R) : List ℤ :=
  addOne ((byRemainder xs).take (leftover xs).toNat) (floors xs)

theorem length_byRemainder (xs : List R) : (byRemainder xs).length = xs.length := by
  rw [byRemainder, (byKey_perm _ _).length_eq, List.length_range]

theorem nodup_byRemainder (xs : List R) : (byRemainder xs).Nodup :=
  (byKey_perm _ _).nodup_iff.mpr List.nodup_range

theorem mem_byRemainder {xs : List R} {i : ℕ} : i ∈ byRemainder xs ↔ i < xs.length := by
  rw [byRemainder, (byKey_perm _ _).mem_iff, List.mem_range]

@[simp] theorem length_apportion (xs : List R) : (apportion xs).length = xs.length := by
  rw [apportion, length_addOne, floors, List.length_map]

section
variable [IsStrictOrderedRing R]

theorem sum_floors (xs : List R) :
    ((floors xs).sum : R) ≤ xs.sum ∧ xs.sum ≤ (((floors xs).sum + xs.length : ℤ) : R) := by
  induction xs with
  | nil => simp [floors]
  | cons x xs ih =>
    have hle := Int.floor_le x
    have hlt := (Int.lt_floor_add_one x).le
    simp only [floors, List.map_cons, List.sum_cons, List.length_cons] at ih ⊢
    push_cast at ih ⊢
    exact ⟨by linarith, by linarith⟩

theorem leftover_bounds (xs : List R) : 0 ≤ leftover xs ∧ leftover xs ≤ xs.length := by
  obtain ⟨hlow, hhigh⟩ := sum_floors xs
  have hle := le_halfAway hlow
  have hge := halfAway_le hhigh
  unfold leftover
  omega

theorem sum_apportion (xs : List R) : (apportion xs).sum = halfAway xs.sum := by
  obtain ⟨hnonneg, hcount⟩ := leftover_bounds xs
  have hmem : ∀ i ∈ (byRemainder xs).take (leftover xs).toNat, i < (floors xs).length := by
    intro i hi
    rw [floors, List.length_map]
    exact mem_byRemainder.mp (List.mem_of_mem_take hi)
  have htaken : ((byRemainder xs).take (leftover xs).toNat).length = (leftover xs).toNat := by
    rw [List.length_take, length_byRemainder]
    omega
  rw [apportion, sum_addOne hmem, htaken, Int.toNat_of_nonneg hnonneg, leftover]
  ring

end

theorem getElem?_apportion (xs : List R) (i : ℕ) :
    (apportion xs)[i]? = xs[i]?.map fun x =>
      if i ∈ (byRemainder xs).take (leftover xs).toNat then ⌊x⌋ + 1 else ⌊x⌋ := by
  have hnodup : ((byRemainder xs).take (leftover xs).toNat).Nodup :=
    (List.take_sublist _ _).nodup (nodup_byRemainder xs)
  rw [apportion, getElem?_addOne hnodup, floors, List.getElem?_map, Option.map_map]
  rfl

theorem apportion_near {xs : List R} {i : ℕ} {x : R} {n : ℤ} (hx : xs[i]? = some x)
    (hn : (apportion xs)[i]? = some n) : n = ⌊x⌋ ∨ n = ⌊x⌋ + 1 := by
  rw [getElem?_apportion, hx, Option.map_some, Option.some.injEq] at hn
  split at hn
  · exact .inr hn.symm
  · exact .inl hn.symm

theorem apportion_ahead {xs : List R} {i j : ℕ} {x y : R} (hx : xs[i]? = some x)
    (hy : xs[j]? = some y) (hi : (apportion xs)[i]? = some (⌊x⌋ + 1))
    (hj : (apportion xs)[j]? = some ⌊y⌋) :
    Int.fract y < Int.fract x ∨ Int.fract y = Int.fract x ∧ i < j := by
  rw [getElem?_apportion, hx, Option.map_some, Option.some.injEq] at hi
  rw [getElem?_apportion, hy, Option.map_some, Option.some.injEq] at hj
  have htaken : i ∈ (byRemainder xs).take (leftover xs).toNat := by
    by_contra hno
    rw [if_neg hno] at hi
    omega
  have hleft : j ∉ (byRemainder xs).take (leftover xs).toNat := by
    intro hin
    rw [if_pos hin] at hj
    omega
  have hbehind : j ∈ (byRemainder xs).drop (leftover xs).toNat := by
    have hall : j ∈ byRemainder xs := mem_byRemainder.mpr (List.getElem?_eq_some_iff.mp hy).1
    rw [← List.take_append_drop (leftover xs).toNat (byRemainder xs)] at hall
    exact (List.mem_append.mp hall).resolve_left hleft
  have hpairs := byKey_ahead (fun k => Int.fract (xs.getD k 0)) xs.length
  have hsplit := List.take_append_drop (leftover xs).toNat (byRemainder xs)
  rw [byRemainder] at hsplit
  rw [← hsplit] at hpairs
  have hahead := (List.pairwise_append.mp hpairs).2.2 i htaken j hbehind
  simpa only [Ahead, List.getD_eq_getElem?_getD, hx, hy, Option.getD_some] using hahead

end
end InvoiceOs.Lib
