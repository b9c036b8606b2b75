import Mathlib.Data.List.Sort

/-! ORDER BY: a list of keys, each compared only where the ones before it tie. Rows that no two
of tie come out in one order, whichever they went in by. -/

namespace InvoiceOs.Lib

universe u v

structure IsOrder {α : Type u} (le : α → α → Bool) : Prop where
  trans : ∀ a b c, le a b = true → le b c = true → le a c = true
  total : ∀ a b, (le a b || le b a) = true

section
variable {α : Type u} {κ : Type v} {le le₁ le₂ : α → α → Bool}

def thenBy (le₁ le₂ : α → α → Bool) (a b : α) : Bool := le₁ a b && (!le₁ b a || le₂ a b)

def descending (le : α → α → Bool) (a b : α) : Bool := le b a

def comparing (key : α → κ) (le : κ → κ → Bool) (a b : α) : Bool := le (key a) (key b)

def nullsLast (le : κ → κ → Bool) : Option κ → Option κ → Bool
  | _, none => true
  | none, some _ => false
  | some a, some b => le a b

theorem IsOrder.thenBy (h₁ : IsOrder le₁) (h₂ : IsOrder le₂) : IsOrder (thenBy le₁ le₂) where
  trans a b c hab hbc := by
    simp only [Lib.thenBy, Bool.and_eq_true, Bool.or_eq_true, Bool.not_eq_true'] at hab hbc ⊢
    refine ⟨h₁.trans a b c hab.1 hbc.1, ?_⟩
    by_cases hca : le₁ c a = true
    · -- the three tie on the first key
      have hba := h₁.trans b c a hbc.1 hca
      have hcb := h₁.trans c a b hca hab.1
      have hab₂ := hab.2.resolve_left (by rw [hba]; decide)
      have hbc₂ := hbc.2.resolve_left (by rw [hcb]; decide)
      exact .inr (h₂.trans a b c hab₂ hbc₂)
    · exact .inl (Bool.eq_false_iff.mpr hca)
  total a b := by
    have htotal₁ := h₁.total a b
    have htotal₂ := h₂.total a b
    unfold Lib.thenBy
    revert htotal₁ htotal₂
    cases le₁ a b <;> cases le₁ b a <;> cases le₂ a b <;> cases le₂ b a <;> decide

theorem IsOrder.descending (h : IsOrder le) : IsOrder (descending le) where
  trans a b c hab hbc := h.trans c b a hbc hab
  total a b := h.total b a

theorem IsOrder.comparing {le : κ → κ → Bool} (h : IsOrder le) (key : α → κ) :
    IsOrder (comparing key le) where
  trans a b c := h.trans (key a) (key b) (key c)
  total a b := h.total (key a) (key b)

theorem IsOrder.nullsLast {le : κ → κ → Bool} (h : IsOrder le) : IsOrder (nullsLast le) where
  trans a b c hab hbc := by
    cases c with
    | none => cases a <;> rfl
    | some c =>
      cases b with
      | none => cases hbc
      | some b =>
        cases a with
        | none => cases hab
        | some a => exact h.trans a b c hab hbc
  total a b := by
    cases a with
    | none => cases b <;> rfl
    | some a =>
      cases b with
      | none => rfl
      | some b => exact h.total a b

theorem isOrder_le [LinearOrder α] : IsOrder fun a b : α => decide (a ≤ b) where
  trans a b c hab hbc := decide_eq_true ((of_decide_eq_true hab).trans (of_decide_eq_true hbc))
  total a b := by
    rw [Bool.or_eq_true, decide_eq_true_eq, decide_eq_true_eq]
    exact le_total a b

theorem isOrder_isLE {cmp : α → α → Ordering} [Std.TransCmp cmp] :
    IsOrder fun a b => (cmp a b).isLE where
  trans a b c := Std.TransCmp.isLE_trans
  total a b := by
    rw [Bool.or_eq_true]
    by_cases h : (cmp a b).isLE = true
    · exact .inl h
    · have hswap : cmp b a = (cmp a b).swap := Std.OrientedCmp.eq_swap
      rw [hswap]
      revert h
      cases cmp a b <;> decide

theorem eq_of_isLE {cmp : α → α → Ordering} [Std.OrientedCmp cmp] {a b : α}
    (hab : (cmp a b).isLE = true) (hba : (cmp b a).isLE = true) : cmp a b = .eq := by
  have hswap : cmp b a = (cmp a b).swap := Std.OrientedCmp.eq_swap
  rw [hswap] at hba
  revert hab hba
  cases cmp a b <;> decide

theorem thenBy_ties {a b : α} (hab : thenBy le₁ le₂ a b = true) (hba : thenBy le₁ le₂ b a = true) :
    (le₁ a b = true ∧ le₁ b a = true) ∧ le₂ a b = true ∧ le₂ b a = true := by
  simp only [thenBy, Bool.and_eq_true, Bool.or_eq_true, Bool.not_eq_true'] at hab hba
  refine ⟨⟨hab.1, hba.1⟩, hab.2.resolve_left ?_, hba.2.resolve_left ?_⟩
  · rw [hba.1]
    decide
  · rw [hab.1]
    decide

theorem nullsLast_ties {le : κ → κ → Bool} (hanti : ∀ a b, le a b = true → le b a = true → a = b)
    {a b : Option κ} (hab : nullsLast le a b = true) (hba : nullsLast le b a = true) : a = b := by
  cases a with
  | none =>
    cases b with
    | none => rfl
    | some b => cases hab
  | some a =>
    cases b with
    | none => cases hba
    | some b => exact congrArg some (hanti a b hab hba)

theorem mergeSort_perm_congr (h : IsOrder le) {l₁ l₂ : List α} (hperm : l₁.Perm l₂)
    (hties : ∀ a ∈ l₁, ∀ b ∈ l₁, le a b = true → le b a = true → a = b) :
    l₁.mergeSort le = l₂.mergeSort le := by
  have hp₁ := List.mergeSort_perm l₁ le
  have hp₂ := List.mergeSort_perm l₂ le
  refine (List.Perm.eq_of_pairwise ?_ (List.pairwise_mergeSort h.trans h.total l₁)
    (List.pairwise_mergeSort h.trans h.total l₂) (hp₁.trans (hperm.trans hp₂.symm)))
  intro a b ha hb
  exact hties a (hp₁.subset ha) b (hperm.symm.subset (hp₂.subset hb))

end
end InvoiceOs.Lib
