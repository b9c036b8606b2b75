import InvoiceOs.Lib.OrderBy

/-! `ORDER BY ... LIMIT 1`: the row of an order that no other goes before. -/

namespace InvoiceOs.Lib

universe u

section
variable {α : Type u} (le : α → α → Bool)

def leastBy : List α → Option α
  | [] => none
  | a :: l =>
    match leastBy l with
    | none => some a
    | some b => some (if le a b then a else b)

variable {le} {l : List α} {a : α}

theorem IsOrder.refl (h : IsOrder le) (a : α) : le a a = true := by
  have htotal := h.total a a
  rwa [Bool.or_self] at htotal

theorem leastBy_eq_none : leastBy le l = none ↔ l = [] := by
  cases l with
  | nil => exact ⟨fun _ => rfl, fun _ => rfl⟩
  | cons a l =>
    unfold leastBy
    cases leastBy le l with
    | none => simp
    | some b => simp

theorem mem_of_leastBy (h : leastBy le l = some a) : a ∈ l := by
  induction l generalizing a with
  | nil => cases h
  | cons c l ih =>
    unfold leastBy at h
    cases hl : leastBy le l with
    | none =>
      rw [hl] at h
      cases h
      exact List.mem_cons_self
    | some b =>
      rw [hl] at h
      cases h
      split
      · exact List.mem_cons_self
      · exact List.mem_cons_of_mem _ (ih hl)

theorem le_of_leastBy (hle : IsOrder le) (h : leastBy le l = some a) : ∀ b ∈ l, le a b = true := by
  induction l generalizing a with
  | nil => cases h
  | cons c l ih =>
    unfold leastBy at h
    intro b hb
    cases hl : leastBy le l with
    | none =>
      rw [hl] at h
      cases h
      obtain rfl := leastBy_eq_none.mp hl
      obtain rfl := List.mem_singleton.mp hb
      exact hle.refl b
    | some m =>
      rw [hl] at h
      cases h
      have hrest := ih hl
      by_cases hcm : le c m = true
      · rw [if_pos hcm]
        obtain rfl | hb := List.mem_cons.mp hb
        · exact hle.refl b
        · exact hle.trans c m b hcm (hrest b hb)
      · rw [if_neg hcm]
        have hmc : le m c = true := by
          have htotal := hle.total c m
          rw [Bool.or_eq_true] at htotal
          exact htotal.resolve_left hcm
        obtain rfl | hb := List.mem_cons.mp hb
        · exact hmc
        · exact hrest b hb

theorem leastBy_eq_some (hle : IsOrder le)
    (hties : ∀ b ∈ l, ∀ c ∈ l, le b c = true → le c b = true → b = c) (ha : a ∈ l)
    (hleast : ∀ b ∈ l, le a b = true) : leastBy le l = some a := by
  cases hl : leastBy le l with
  | none =>
    rw [leastBy_eq_none.mp hl] at ha
    cases ha
  | some m =>
    have hm := mem_of_leastBy hl
    have hma := le_of_leastBy hle hl a ha
    rw [hties m hm a ha hma (hleast m hm)]

end
end InvoiceOs.Lib
