import Mathlib.Data.List.Nodup
import Mathlib.Data.List.Sort

/-! Lists of records under a key that need not be distinct: the record found first, the index
a map from keys to positions keeps, and the write at that index. -/

namespace InvoiceOs.Lib

variable {κ ρ : Type*} [DecidableEq κ] (key : ρ → κ)

def findKey (l : List ρ) (k : κ) : Option ρ := l.find? fun r => key r = k

/-- The last index of a key: what a map filled in order holds. -/
def indexOfKey : List ρ → κ → Option ℕ
  | [], _ => none
  | r :: l, k =>
    match indexOfKey l k with
    | some i => some (i + 1)
    | none => if key r = k then some 0 else none

def modifyKey (l : List ρ) (k : κ) (g : ρ → ρ) : List ρ :=
  match indexOfKey key l k with
  | some i => l.modify i g
  | none => l

variable {key} {l : List ρ} {k : κ}

theorem findKey_eq_none : findKey key l k = none ↔ k ∉ l.map key := by
  unfold findKey
  rw [List.find?_eq_none, List.mem_map]
  constructor
  · rintro h ⟨r, hr, rfl⟩
    exact h r hr (decide_eq_true rfl)
  · intro h r hr heq
    exact h ⟨r, hr, of_decide_eq_true heq⟩

theorem key_of_findKey {r : ρ} (h : findKey key l k = some r) : key r = k :=
  of_decide_eq_true (List.find?_some (p := fun r => decide (key r = k)) h)

theorem findKey_eq_some (hnodup : (l.map key).Nodup) {r : ρ} :
    findKey key l k = some r ↔ r ∈ l ∧ key r = k := by
  constructor
  · intro h
    exact ⟨List.mem_of_find?_eq_some h, key_of_findKey h⟩
  · rintro ⟨hr, rfl⟩
    cases he : findKey key l (key r) with
    | none => exact absurd (List.mem_map_of_mem hr) (findKey_eq_none.mp he)
    | some r' =>
      have hr' : r' ∈ l := List.mem_of_find?_eq_some he
      rw [List.inj_on_of_nodup_map hnodup hr' hr (key_of_findKey he)]

theorem findKey_perm {l' : List ρ} (hnodup : (l.map key).Nodup) (hperm : l.Perm l') (k : κ) :
    findKey key l' k = findKey key l k := by
  have hnodup' : (l'.map key).Nodup := (hperm.map _).nodup_iff.mp hnodup
  refine Option.ext fun r => ?_
  rw [findKey_eq_some hnodup', findKey_eq_some hnodup, hperm.mem_iff]

theorem findKey_append (l l' : List ρ) (k : κ) :
    findKey key (l ++ l') k = (findKey key l k).or (findKey key l' k) := by
  unfold findKey
  rw [List.find?_append]

theorem indexOfKey_eq_none : indexOfKey key l k = none ↔ k ∉ l.map key := by
  induction l with
  | nil => simp [indexOfKey]
  | cons r l ih =>
    unfold indexOfKey
    cases hi : indexOfKey key l k with
    | some i =>
      have hmem : k ∈ l.map key := by
        by_contra hno
        rw [ih.mpr hno] at hi
        cases hi
      simp only [reduceCtorEq, false_iff, not_not]
      exact List.mem_cons_of_mem _ hmem
    | none =>
      have hno := ih.mp hi
      by_cases hkey : key r = k
      · simp [hkey]
      · simp only [hkey, if_false, true_iff]
        intro hmem
        obtain rfl | hmem := List.mem_cons.mp hmem
        · exact hkey rfl
        · exact hno hmem

theorem getElem?_of_indexOfKey {i : ℕ} (h : indexOfKey key l k = some i) :
    ∃ r, l[i]? = some r ∧ key r = k := by
  induction l generalizing i with
  | nil => cases h
  | cons r l ih =>
    unfold indexOfKey at h
    cases hi : indexOfKey key l k with
    | some j =>
      simp only [hi, Option.some.injEq] at h
      subst h
      exact ih hi
    | none =>
      simp only [hi] at h
      split at h
      · rename_i hkey
        cases h
        exact ⟨r, rfl, hkey⟩
      · cases h

theorem modifyKey_cons (r : ρ) (l : List ρ) (k : κ) (g : ρ → ρ) :
    modifyKey key (r :: l) k g =
      if k ∈ l.map key then r :: modifyKey key l k g
      else if key r = k then g r :: l else r :: l := by
  by_cases hmem : k ∈ l.map key
  · rw [if_pos hmem]
    cases hi : indexOfKey key l k with
    | some i => simp only [modifyKey, indexOfKey, hi, List.modify_succ_cons]
    | none => exact absurd hmem (indexOfKey_eq_none.mp hi)
  · rw [if_neg hmem]
    unfold modifyKey indexOfKey
    rw [indexOfKey_eq_none.mpr hmem]
    by_cases hkey : key r = k
    · simp [hkey]
    · simp [hkey]

section
variable {g : ρ → ρ} (hg : ∀ r, key (g r) = key r)
include hg

theorem map_key_modifyKey (l : List ρ) (k : κ) : (modifyKey key l k g).map key = l.map key := by
  induction l with
  | nil => rfl
  | cons r l ih =>
    rw [modifyKey_cons]
    split
    · rw [List.map_cons, List.map_cons, ih]
    · split
      · rw [List.map_cons, List.map_cons, hg]
      · rfl

theorem findKey_modifyKey (hnodup : (l.map key).Nodup) (k other : κ) :
    findKey key (modifyKey key l k g) other =
      if other = k then (findKey key l k).map g else findKey key l other := by
  induction l with
  | nil =>
    split
    · rfl
    · rfl
  | cons r l ih =>
    obtain ⟨hhead, htail⟩ := List.nodup_cons.mp hnodup
    have hrest := ih htail
    rw [modifyKey_cons]
    unfold findKey at hrest ⊢
    split
    · rename_i hmem
      have hne : key r ≠ k := fun heq => hhead (heq ▸ hmem)
      simp only [List.find?_cons, hrest, hne, decide_false]
      by_cases hother : key r = other
      · have hsplit : other ≠ k := hother ▸ hne
        simp [hother, hsplit]
      · simp [hother]
    · split
      · rename_i hkey
        simp only [List.find?_cons, hg, hkey, decide_true, Option.map_some]
        by_cases hother : other = k
        · simp [hother]
        · have hsplit : k ≠ other := Ne.symm hother
          simp [hother, hsplit]
      · rename_i hmem hkey
        have hnone : l.find? (fun r => decide (key r = k)) = none := findKey_eq_none.mpr hmem
        split
        · rename_i hother
          rw [hother]
          simp [hnone, hkey]
        · rfl

end

/-! ### A run of writes -/

section
variable {β γ : Type*} {name : β → κ} {g : β → ρ → ρ} (hg : ∀ b r, key (g b r) = key r)
include hg

theorem map_key_foldl (l : List ρ) (bs : List β) :
    (bs.foldl (fun l b => modifyKey key l (name b) (g b)) l).map key = l.map key := by
  induction bs generalizing l with
  | nil => rfl
  | cons b bs ih =>
    rw [List.foldl_cons, ih]
    exact map_key_modifyKey (hg b) l (name b)

theorem map_findKey_foldl {f : ρ → γ} (hf : ∀ b r, f (g b r) = f r) (hnodup : (l.map key).Nodup)
    (bs : List β) (k : κ) :
    (findKey key (bs.foldl (fun l b => modifyKey key l (name b) (g b)) l) k).map f =
      (findKey key l k).map f := by
  induction bs generalizing l with
  | nil => rfl
  | cons b bs ih =>
    have hkept := map_key_modifyKey (hg b) l (name b)
    rw [List.foldl_cons, ih (hkept ▸ hnodup), findKey_modifyKey (hg b) hnodup]
    split
    · rename_i hname
      have hsame : f ∘ g b = f := funext (hf b)
      rw [hname, Option.map_map, hsame]
    · rfl

end
end InvoiceOs.Lib
