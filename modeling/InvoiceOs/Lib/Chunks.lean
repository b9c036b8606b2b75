import InvoiceOs.Lib.OrderBy
import Mathlib.Data.List.Nodup
import Mathlib.Algebra.Order.Group.Nat

/-! A list in batches of bounded size, and what is selected by the keys of one batch after the
other: together what all keys select, and in order where the batches are. -/

namespace InvoiceOs.Lib

variable {α κ ρ : Type*}

def chunk (size : ℕ) (l : List α) : List (List α) :=
  (List.range ((l.length + size - 1) / size)).map fun i => (l.drop (i * size)).take size

theorem flatten_windows (l : List α) (size n : ℕ) :
    ((List.range n).map fun i => (l.drop (i * size)).take size).flatten = l.take (n * size) := by
  induction n with
  | zero => simp
  | succ n ih =>
    rw [List.range_succ, List.map_append, List.flatten_append, ih, Nat.succ_mul, List.take_add]
    simp

theorem flatten_chunk {size : ℕ} (hsize : 0 < size) (l : List α) : (chunk size l).flatten = l := by
  have hlong : l.length ≤ (l.length + size - 1) / size * size := by
    have hdiv := Nat.div_add_mod (l.length + size - 1) size
    have hmod := Nat.mod_lt (l.length + size - 1) hsize
    rw [Nat.mul_comm]
    omega
  rw [chunk, flatten_windows, List.take_of_length_le hlong]

section
variable [DecidableEq κ] (key : ρ → κ)

def under (rows : List ρ) (keys : List κ) : List ρ := rows.filter fun r => key r ∈ keys

variable {key}

theorem mem_under {rows : List ρ} {keys : List κ} {r : ρ} :
    r ∈ under key rows keys ↔ r ∈ rows ∧ key r ∈ keys := by
  rw [under, List.mem_filter, decide_eq_true_eq]

theorem under_append_perm (rows : List ρ) {ks ks' : List κ} (h : (ks ++ ks').Nodup) :
    (under key rows ks ++ under key rows ks').Perm (under key rows (ks ++ ks')) := by
  have hdisjoint := (List.nodup_append.mp h).2.2
  induction rows with
  | nil => exact List.Perm.refl _
  | cons r rows ih =>
    by_cases hk : key r ∈ ks
    · have hk' : key r ∉ ks' := fun hk' => hdisjoint _ hk _ hk' rfl
      simpa [under, hk, hk'] using ih
    · by_cases hk' : key r ∈ ks'
      · have hmid : (under key rows ks ++ r :: under key rows ks').Perm
            (r :: (under key rows ks ++ under key rows ks')) := List.perm_middle
        simpa [under, hk, hk'] using hmid.trans (ih.cons r)
      · simpa [under, hk, hk'] using ih

theorem flatMap_under_perm (rows : List ρ) (batches : List (List κ))
    (h : batches.flatten.Nodup) :
    (batches.flatMap (under key rows)).Perm (under key rows batches.flatten) := by
  induction batches with
  | nil => simp [under]
  | cons b batches ih =>
    rw [List.flatten_cons] at h
    rw [List.flatMap_cons, List.flatten_cons]
    exact ((ih (List.nodup_append.mp h).2.1).append_left _).trans (under_append_perm rows h)

end

section
variable {key : ρ → κ}

theorem flatMap_perm {f g : List κ → List ρ} (h : ∀ b, (f b).Perm (g b)) (batches : List (List κ)) :
    (batches.flatMap f).Perm (batches.flatMap g) := by
  induction batches with
  | nil => exact List.Perm.refl _
  | cons b batches ih => exact (h b).append ih

theorem pairwise_flatMap_batches [LT κ] {R : ρ → ρ → Prop} {f : List κ → List ρ}
    (hkey : ∀ b, ∀ r ∈ f b, key r ∈ b) (hsorted : ∀ b, (f b).Pairwise R)
    (hR : ∀ r r', key r < key r' → R r r') {batches : List (List κ)}
    (h : batches.flatten.Pairwise (· < ·)) : (batches.flatMap f).Pairwise R := by
  induction batches with
  | nil => exact List.Pairwise.nil
  | cons b batches ih =>
    rw [List.flatten_cons] at h
    obtain ⟨-, hrest, hlt⟩ := List.pairwise_append.mp h
    rw [List.flatMap_cons]
    refine List.pairwise_append.mpr ⟨hsorted b, ih hrest, fun r hr r' hr' => ?_⟩
    obtain ⟨b', hb', hr'⟩ := List.mem_flatMap.mp hr'
    exact hR r r' (hlt _ (hkey b r hr) _ (List.mem_flatten.mpr ⟨b', hb', hkey b' r' hr'⟩))

end

/-! ### Ordered by the key first -/

section
variable [LinearOrder κ] (key : ρ → κ) (le : ρ → ρ → Bool) (rows : List ρ)

def keyFirst : ρ → ρ → Bool := thenBy (comparing key fun a b => decide (a ≤ b)) le

def batchRows (b : List κ) : List ρ := (under key rows b).mergeSort (keyFirst key le)

variable {key le rows}

theorem isOrder_keyFirst (hle : IsOrder le) : IsOrder (keyFirst key le) :=
  (isOrder_le.comparing key).thenBy hle

theorem batchRows_perm (b : List κ) : (batchRows key le rows b).Perm (under key rows b) :=
  List.mergeSort_perm _ _

theorem key_mem_of_batchRows {b : List κ} {r : ρ} (h : r ∈ batchRows key le rows b) : key r ∈ b :=
  (mem_under.mp ((batchRows_perm b).subset h)).2

theorem batchRows_sorted (hle : IsOrder le) (b : List κ) :
    (batchRows key le rows b).Pairwise fun r r' => keyFirst key le r r' = true :=
  List.pairwise_mergeSort (isOrder_keyFirst hle).trans (isOrder_keyFirst hle).total _

theorem le_of_keyFirst {r r' : ρ} (h : keyFirst key le r r' = true) : key r ≤ key r' := by
  unfold keyFirst thenBy comparing at h
  simp only [Bool.and_eq_true, decide_eq_true_eq] at h
  exact h.1

theorem ties_of_keyFirst {r r' : ρ} (h : keyFirst key le r r' = true) (hkey : key r = key r') :
    le r r' = true := by
  unfold keyFirst thenBy comparing at h
  rw [hkey] at h
  simpa using h

theorem filter_batches (hle : IsOrder le)
    (hties : ∀ r ∈ rows, ∀ r' ∈ rows, le r r' = true → le r' r = true → r = r')
    {batches : List (List κ)} (hnodup : batches.flatten.Nodup) {k : κ} (hk : k ∈ batches.flatten) :
    ((batches.flatMap (batchRows key le rows)).filter fun r => key r = k) =
      (rows.filter fun r => key r = k).mergeSort le := by
  have hall : (batches.flatMap (batchRows key le rows)).Perm (under key rows batches.flatten) :=
    (flatMap_perm batchRows_perm batches).trans (flatMap_under_perm rows batches hnodup)
  have honly : (under key rows batches.flatten).filter (fun r => key r = k) =
      rows.filter fun r => key r = k := by
    rw [under, List.filter_filter]
    refine List.filter_congr fun r _ => ?_
    by_cases hr : key r = k
    · simp only [hr, hk, decide_true, Bool.and_self]
    · simp only [hr, decide_false, Bool.false_and]
  have hperm : ((batches.flatMap (batchRows key le rows)).filter fun r => key r = k).Perm
      (rows.filter fun r => key r = k) := honly ▸ hall.filter _
  have hsorted : ((batches.flatMap (batchRows key le rows)).filter fun r => key r = k).Pairwise
      fun r r' => le r r' = true := by
    clear hall honly hperm hk
    induction batches with
    | nil => exact List.Pairwise.nil
    | cons b batches ih =>
      rw [List.flatten_cons] at hnodup
      obtain ⟨-, hrest, hdisjoint⟩ := List.nodup_append.mp hnodup
      rw [List.flatMap_cons, List.filter_append]
      refine List.pairwise_append.mpr ⟨?_, ih hrest, fun r hr r' hr' => ?_⟩
      · refine ((batchRows_sorted hle b).filter _).imp_of_mem fun hr hr' hle' => ?_
        rw [List.mem_filter, decide_eq_true_eq] at hr hr'
        exact ties_of_keyFirst hle' (hr.2.trans hr'.2.symm)
      · rw [List.mem_filter, decide_eq_true_eq] at hr hr'
        obtain ⟨b', hb', hr''⟩ := List.mem_flatMap.mp hr'.1
        have hin := key_mem_of_batchRows hr.1
        have hin' := List.mem_flatten.mpr ⟨b', hb', key_mem_of_batchRows hr''⟩
        exact absurd (hr.2.trans hr'.2.symm) (hdisjoint _ hin _ hin')
  refine List.Perm.eq_of_pairwise ?_ hsorted (List.pairwise_mergeSort hle.trans hle.total _)
    (hperm.trans (List.mergeSort_perm _ le).symm)
  intro r r' hr hr'
  have hr₁ := (List.mem_filter.mp (hperm.subset hr)).1
  have hr₂ := (List.mem_filter.mp ((List.mergeSort_perm _ le).subset hr')).1
  exact hties r hr₁ r' hr₂

theorem flatMap_batchRows (hle : IsOrder le)
    (hties : ∀ r ∈ rows, ∀ r' ∈ rows, keyFirst key le r r' = true → keyFirst key le r' r = true →
      r = r')
    {batches : List (List κ)} (hincreasing : batches.flatten.Pairwise (· < ·)) :
    batches.flatMap (batchRows key le rows) = batchRows key le rows batches.flatten := by
  have hnodup : batches.flatten.Nodup := hincreasing.imp ne_of_lt
  have hperm : (batches.flatMap (batchRows key le rows)).Perm (under key rows batches.flatten) :=
    (flatMap_perm batchRows_perm batches).trans (flatMap_under_perm rows batches hnodup)
  have hR : ∀ r r' : ρ, key r < key r' → keyFirst key le r r' = true := by
    intro r r' hlt
    unfold keyFirst thenBy comparing
    simp only [hlt.le, not_le.mpr hlt, decide_true, decide_false, Bool.not_false, Bool.true_or,
      Bool.and_self]
  have hsorted : (batches.flatMap (batchRows key le rows)).Pairwise fun r r' =>
      keyFirst key le r r' = true :=
    pairwise_flatMap_batches (fun _ _ => key_mem_of_batchRows) (batchRows_sorted hle) hR
      hincreasing
  refine List.Perm.eq_of_pairwise ?_ hsorted (batchRows_sorted hle _)
    (hperm.trans (batchRows_perm _).symm)
  intro r r' hr hr'
  have hr₁ := (mem_under.mp (hperm.subset hr)).1
  have hr₂ := (mem_under.mp ((batchRows_perm _).subset hr')).1
  exact hties r hr₁ r' hr₂

end

/-! ### Numbering -/

section
variable [LinearOrder κ] (key : ρ → κ)

def numbered : Option κ → ℕ → List ρ → List (ℕ × ρ)
  | _, _, [] => []
  | last, seq, r :: rows =>
    let seq := if last = some (key r) then seq + 1 else 1
    (seq, r) :: numbered (some (key r)) seq rows

def numberFrom (n : ℕ) (rows : List ρ) : List (ℕ × ρ) := rows.mapIdx fun i r => (n + i, r)

variable {key}

theorem numberFrom_cons (n : ℕ) (r : ρ) (rows : List ρ) :
    numberFrom n (r :: rows) = (n, r) :: numberFrom (n + 1) rows := by
  unfold numberFrom
  rw [List.mapIdx_cons, Nat.add_zero]
  refine congrArg _ (congrArg (fun f => rows.mapIdx f) (funext fun i => funext fun r => ?_))
  rw [Nat.add_assoc, Nat.add_comm 1]

theorem map_snd_numbered (last : Option κ) (seq : ℕ) (rows : List ρ) :
    (numbered key last seq rows).map Prod.snd = rows := by
  induction rows generalizing last seq with
  | nil => rfl
  | cons r rows ih => rw [numbered, List.map_cons, ih]

def Follows (key : ρ → κ) (last : Option κ) (rows : List ρ) : Prop :=
  ∀ j, last = some j → ∀ r ∈ rows, key r = j → ∀ r' ∈ rows, j ≤ key r'

theorem filter_numbered {last : Option κ} {seq : ℕ} {rows : List ρ}
    (hsorted : rows.Pairwise fun r r' => key r ≤ key r') (hlast : Follows key last rows) (k : κ) :
    ((numbered key last seq rows).filter fun e => key e.2 = k) =
      numberFrom (if last = some k then seq + 1 else 1) (rows.filter fun r => key r = k) := by
  induction rows generalizing last seq with
  | nil => rfl
  | cons r rows ih =>
    obtain ⟨hhead, htail⟩ := List.pairwise_cons.mp hsorted
    have hnext : Follows key (some (key r)) rows := by
      intro j hj _ _ _ r' hr'
      exact Option.some.inj hj ▸ hhead r' hr'
    rw [numbered]
    by_cases hr : key r = k
    · subst hr
      have hfirst : (r :: rows).filter (fun r' => key r' = key r) =
          r :: rows.filter fun r' => key r' = key r := List.filter_cons_of_pos (by simp)
      rw [List.filter_cons_of_pos (by simp), ih htail hnext, if_pos rfl, hfirst, numberFrom_cons]
    · have hskip : (r :: rows).filter (fun r' => key r' = k) =
          rows.filter fun r' => key r' = k := List.filter_cons_of_neg (by simpa using hr)
      rw [List.filter_cons_of_neg (by simpa using hr), ih htail hnext, hskip]
      have hne : some (key r) ≠ some k := fun heq => hr (Option.some.inj heq)
      rw [if_neg hne]
      split
      · rename_i hk
        -- the key is behind us: none of its rows is left
        have hnone : rows.filter (fun r' => key r' = k) = [] := by
          rw [List.filter_eq_nil_iff]
          intro r' hr' heq
          have heq' : key r' = k := of_decide_eq_true heq
          have hle := hlast k hk r' (List.mem_cons_of_mem _ hr') heq' r List.mem_cons_self
          exact hr (le_antisymm (heq' ▸ hhead r' hr') hle)
        rw [hnone]
        rfl
      · rfl

theorem numbered_append (last : Option κ) (seq : ℕ) (rows rows' : List ρ) :
    ∃ last' seq', numbered key last seq (rows ++ rows') =
        numbered key last seq rows ++ numbered key last' seq' rows' ∧
      (last' = last ∨ ∃ r ∈ rows, last' = some (key r)) := by
  induction rows generalizing last seq with
  | nil => exact ⟨last, seq, rfl, Or.inl rfl⟩
  | cons r rows ih =>
    obtain ⟨last', seq', happend, hlast⟩ :=
      ih (some (key r)) (if last = some (key r) then seq + 1 else 1)
    refine ⟨last', seq', ?_, Or.inr ?_⟩
    · rw [List.cons_append, numbered, numbered, happend]
      rfl
    · rcases hlast with rfl | ⟨r', hr', rfl⟩
      · exact ⟨r, List.mem_cons_self, rfl⟩
      · exact ⟨r', List.mem_cons_of_mem _ hr', rfl⟩

theorem filter_numbered_batches (last : Option κ) (seq : ℕ) {f : List κ → List ρ}
    (hkey : ∀ b, ∀ r ∈ f b, key r ∈ b)
    (hsorted : ∀ b, (f b).Pairwise fun r r' => key r ≤ key r') {batches : List (List κ)}
    (hnodup : batches.flatten.Nodup) (hlast : ∀ j, last = some j → j ∉ batches.flatten) (k : κ) :
    ((numbered key last seq (batches.flatMap f)).filter fun e => key e.2 = k) =
      numberFrom 1 ((batches.flatMap f).filter fun r => key r = k) := by
  induction batches generalizing last seq with
  | nil => rfl
  | cons b batches ih =>
    rw [List.flatten_cons] at hnodup
    obtain ⟨-, hrest, hdisjoint⟩ := List.nodup_append.mp hnodup
    obtain ⟨last', seq', happend, hlast'⟩ :
        ∃ last' seq', numbered key last seq (f b ++ batches.flatMap f) =
            numbered key last seq (f b) ++ numbered key last' seq' (batches.flatMap f) ∧
          (last' = last ∨ ∃ r ∈ f b, last' = some (key r)) := numbered_append _ _ _ _
    have hfollows : Follows key last (f b) := by
      intro j hj r hr heq
      have hin : key r ∈ (b :: batches).flatten := List.mem_append_left _ (hkey b r hr)
      exact absurd (heq ▸ hin) (hlast j hj)
    have hnext : ∀ j, last' = some j → j ∉ batches.flatten := by
      intro j hj hmem
      rcases hlast' with rfl | ⟨r, hr, rfl⟩
      · exact hlast j hj (List.mem_append_right _ hmem)
      · exact hdisjoint _ (hkey b r hr) _ hmem (Option.some.inj hj)
    rw [List.flatMap_cons, happend, List.filter_append, List.filter_append,
      filter_numbered (hsorted b) hfollows k, ih _ _ hrest hnext]
    by_cases hk : k ∈ b
    · have hnone : (batches.flatMap f).filter (fun r => key r = k) = [] := by
        rw [List.filter_eq_nil_iff]
        intro r hr heq
        obtain ⟨b', hb', hr⟩ := List.mem_flatMap.mp hr
        have hin := List.mem_flatten.mpr ⟨b', hb', hkey b' r hr⟩
        have heq' : key r = k := of_decide_eq_true heq
        exact hdisjoint k hk _ hin heq'.symm
      have hne : last ≠ some k := fun h => hlast k h (List.mem_append_left _ hk)
      rw [hnone, if_neg hne, List.append_nil]
      exact List.append_nil _
    · have hnone : (f b).filter (fun r => key r = k) = [] := by
        rw [List.filter_eq_nil_iff]
        intro r hr heq
        have heq' : key r = k := of_decide_eq_true heq
        exact hk (heq' ▸ hkey b r hr)
      rw [hnone]
      rfl

end
end InvoiceOs.Lib
