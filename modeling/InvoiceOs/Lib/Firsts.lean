import Mathlib.Data.List.MinMax
import Mathlib.Data.List.Nodup

/-! The first of each kind: a list thinned to one element a key, and the first of the least
elements. Only the order among elements of one kind bears on either. -/

namespace InvoiceOs.Lib

universe u v

section
variable {α : Type u} {κ : Type v} [DecidableEq κ] (key : α → κ)

def keepNew (kept : List α) (a : α) : List α :=
  if kept.any fun b => key b = key a then kept else kept ++ [a]

/-- The first element of each key, in the order of the list. -/
def firstsBy (l : List α) : List α := l.foldl (keepNew key) []

variable {key}

theorem keepNew_of_mem {kept : List α} {a : α} (h : key a ∈ kept.map key) :
    keepNew key kept a = kept := by
  obtain ⟨b, hb, hkey⟩ := List.mem_map.mp h
  have hany : (kept.any fun b => decide (key b = key a)) = true :=
    List.any_eq_true.mpr ⟨b, hb, decide_eq_true hkey⟩
  rw [keepNew, if_pos hany]

theorem keepNew_of_not_mem {kept : List α} {a : α} (h : key a ∉ kept.map key) :
    keepNew key kept a = kept ++ [a] := by
  have hany : ¬ (kept.any fun b => decide (key b = key a)) = true := by
    intro hany
    obtain ⟨b, hb, hkey⟩ := List.any_eq_true.mp hany
    exact h (List.mem_map.mpr ⟨b, hb, of_decide_eq_true hkey⟩)
  rw [keepNew, if_neg hany]

theorem mem_keys_keepNew {kept : List α} {a : α} {k : κ} :
    k ∈ (keepNew key kept a).map key ↔ k ∈ kept.map key ∨ k = key a := by
  by_cases h : key a ∈ kept.map key
  · rw [keepNew_of_mem h]
    refine ⟨Or.inl, fun hk => hk.elim id ?_⟩
    rintro rfl
    exact h
  · rw [keepNew_of_not_mem h, List.map_append, List.mem_append, List.map_singleton,
      List.mem_singleton]

theorem nodup_keys_keepNew {kept : List α} (h : (kept.map key).Nodup) (a : α) :
    ((keepNew key kept a).map key).Nodup := by
  by_cases hmem : key a ∈ kept.map key
  · rwa [keepNew_of_mem hmem]
  · rw [keepNew_of_not_mem hmem, List.map_append, List.map_singleton]
    exact List.nodup_append.mpr ⟨h, List.nodup_singleton _,
      fun k hk b hb => by rintro rfl; exact hmem (List.mem_singleton.mp hb ▸ hk)⟩

theorem foldl_keepNew (l : List α) {kept : List α} (h : (kept.map key).Nodup) :
    ((l.foldl (keepNew key) kept).map key).Nodup ∧
      (∀ k, k ∈ (l.foldl (keepNew key) kept).map key ↔ k ∈ kept.map key ∨ k ∈ l.map key) ∧
      (∀ a ∈ l.foldl (keepNew key) kept, a ∈ kept ∨ a ∈ l) ∧
      ∃ rest, l.foldl (keepNew key) kept = kept ++ rest := by
  induction l generalizing kept with
  | nil =>
    refine ⟨h, fun k => ?_, fun a ha => Or.inl ha, [], (List.append_nil _).symm⟩
    rw [List.map_nil, List.foldl_nil]
    exact (or_iff_left List.not_mem_nil).symm
  | cons a l ih =>
    obtain ⟨hnodup, hkeys, hmem, rest, hrest⟩ := ih (nodup_keys_keepNew h a)
    refine ⟨hnodup, fun k => ?_, fun b hb => ?_, ?_⟩
    · rw [List.foldl_cons, hkeys, mem_keys_keepNew, List.map_cons, List.mem_cons, or_assoc]
    · rcases hmem b hb with hkept | hl
      · by_cases hseen : key a ∈ kept.map key
        · rw [keepNew_of_mem hseen] at hkept
          exact Or.inl hkept
        · rw [keepNew_of_not_mem hseen] at hkept
          rcases List.mem_append.mp hkept with hold | hnew
          · exact Or.inl hold
          · exact Or.inr (List.mem_cons.mpr (Or.inl (List.mem_singleton.mp hnew)))
      · exact Or.inr (List.mem_cons_of_mem _ hl)
    · rw [List.foldl_cons, hrest]
      by_cases hseen : key a ∈ kept.map key
      · exact ⟨rest, by rw [keepNew_of_mem hseen]⟩
      · exact ⟨a :: rest, by rw [keepNew_of_not_mem hseen, List.append_assoc]; rfl⟩

omit [DecidableEq κ] in
theorem nodup_nil_keys : (([] : List α).map key).Nodup := List.nodup_nil

theorem nodup_keys_firstsBy (l : List α) : ((firstsBy key l).map key).Nodup :=
  (foldl_keepNew l nodup_nil_keys).1

theorem mem_keys_firstsBy {l : List α} {k : κ} :
    k ∈ (firstsBy key l).map key ↔ k ∈ l.map key :=
  ((foldl_keepNew l nodup_nil_keys).2.1 k).trans (or_iff_right List.not_mem_nil)

end

section
variable {α : Type u} {κ : Type v} [LinearOrder κ] (key : α → κ)

def leasts (l : List α) : List α := l.filter fun a => l.all fun b => key a ≤ key b

variable {key}

theorem argmin_eq_find? {l : List α} {least : κ} (hleast : ∀ a ∈ l, least ≤ key a)
    (hmem : ∃ a ∈ l, key a = least) : l.argmin key = l.find? fun a => key a ≤ least := by
  induction l with
  | nil => exact absurd hmem (by rintro ⟨a, ha, -⟩; cases ha)
  | cons a l ih =>
    rw [List.argmin_cons]
    by_cases ha : key a ≤ least
    · have hfirst : (a :: l).find? (fun a => decide (key a ≤ least)) = some a :=
        List.find?_cons_of_pos (decide_eq_true ha)
      rw [hfirst]
      cases hrest : l.argmin key with
      | none => rfl
      | some c =>
        -- nothing behind the head is strictly less
        have hc : c ∈ l := List.argmin_mem hrest
        have hle := ha.trans (hleast c (List.mem_cons_of_mem _ hc))
        exact if_neg hle.not_gt
    · have hlater : ∃ b ∈ l, key b = least := by
        obtain ⟨b, hb, hkey⟩ := hmem
        rcases List.mem_cons.mp hb with rfl | hb
        · exact absurd hkey.le ha
        · exact ⟨b, hb, hkey⟩
      have hih := ih (fun b hb => hleast b (List.mem_cons_of_mem _ hb)) hlater
      have hskip : (a :: l).find? (fun a => decide (key a ≤ least)) =
          l.find? fun a => decide (key a ≤ least) :=
        List.find?_cons_of_neg (by simpa using ha)
      rw [hskip, hih]
      cases hfind : l.find? fun a => decide (key a ≤ least) with
      | none =>
        obtain ⟨b, hb, hkey⟩ := hlater
        have hno := List.find?_eq_none.mp hfind b hb
        exact absurd hkey.le (by simpa using hno)
      | some c =>
        have hc : key c ≤ least := by simpa using List.find?_some hfind
        exact if_pos (hc.trans_lt (not_le.mp ha))

theorem argmin_eq_head?_leasts (l : List α) : l.argmin key = (leasts key l).head? := by
  cases hmin : l.argmin key with
  | none =>
    rw [List.argmin_eq_none.mp hmin]
    rfl
  | some m =>
    have hm : m ∈ l := List.argmin_mem hmin
    have hle : ∀ a ∈ l, key m ≤ key a := fun a ha => List.le_of_mem_argmin ha hmin
    have hfind := argmin_eq_find? hle ⟨m, hm, rfl⟩
    have hsame : ∀ a ∈ l, decide (key a ≤ key m) = l.all fun b => decide (key a ≤ key b) := by
      intro a ha
      rw [Bool.eq_iff_iff, decide_eq_true_eq, List.all_eq_true]
      refine ⟨fun h b hb => decide_eq_true (h.trans (hle b hb)), fun h => ?_⟩
      exact of_decide_eq_true (h m hm)
    rw [leasts, ← List.filter_congr hsame, List.head?_filter, ← hfind, hmin]

theorem leasts_perm {l₁ l₂ : List α} (h : l₁.Perm l₂) : (leasts key l₁).Perm (leasts key l₂) := by
  have hsame : (fun a => l₁.all fun b => decide (key a ≤ key b)) =
      fun a => l₂.all fun b => decide (key a ≤ key b) :=
    funext fun a => h.all_eq
  rw [leasts, leasts, hsame]
  exact h.filter _

end
end InvoiceOs.Lib
