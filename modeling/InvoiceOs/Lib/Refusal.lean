import Mathlib.Data.List.Basic

/-! Inversion of a transaction body: what is known once it has not refused. -/

namespace InvoiceOs.Lib

universe u v

variable {ε : Type u} {α β : Type v}

@[simp] theorem bind_eq_ok {x : Except ε α} {f : α → Except ε β} {b : β} :
    (x >>= f) = .ok b ↔ ∃ a, x = .ok a ∧ f a = .ok b := by
  cases x with
  | error e =>
    constructor
    · intro h
      cases h
    · rintro ⟨a, h, -⟩
      cases h
  | ok a =>
    constructor
    · intro h
      exact ⟨a, rfl, h⟩
    · rintro ⟨a', h, hf⟩
      cases h
      exact hf

@[simp] theorem throw_ne_ok {e : ε} {a : α} : (throw e : Except ε α) = .ok a ↔ False := by
  constructor
  · intro h
    cases h
  · exact False.elim

@[simp] theorem pure_eq_ok {a b : α} : (pure a : Except ε α) = .ok b ↔ a = b := by
  constructor
  · intro h
    cases h
    rfl
  · rintro rfl
    rfl

@[simp] theorem refuse_eq_ok {c : Prop} [Decidable c] {e : ε} {k : β → Except ε α}
    {x : Except ε α} {a : α} :
    (if c then (throw e >>= k) else x) = .ok a ↔ ¬ c ∧ x = .ok a := by
  split
  · rename_i h
    constructor
    · intro hx
      cases hx
    · exact fun hx => absurd h hx.1
  · rename_i h
    exact ⟨fun hx => ⟨h, hx⟩, fun hx => hx.2⟩

@[simp] theorem check_eq_ok {c : Prop} [Decidable c] {e : ε} {x : Except ε α} {a : α} :
    (if c then throw e else x) = .ok a ↔ ¬ c ∧ x = .ok a := by
  split
  · rename_i h
    constructor
    · intro hx
      cases hx
    · exact fun hx => absurd h hx.1
  · rename_i h
    exact ⟨fun hx => ⟨h, hx⟩, fun hx => hx.2⟩

theorem map_eq_ok {x : Except ε α} {f : α → β} {b : β} :
    x.map f = .ok b ↔ ∃ a, x = .ok a ∧ f a = b := by
  cases x with
  | error e =>
    constructor
    · intro h
      cases h
    · rintro ⟨a, h, -⟩
      cases h
  | ok a =>
    constructor
    · intro h
      cases h
      exact ⟨a, rfl, rfl⟩
    · rintro ⟨a', h, rfl⟩
      cases h
      rfl

theorem toOption_eq_some {x : Except ε α} {a : α} : x.toOption = some a ↔ x = .ok a := by
  cases x with
  | error e =>
    constructor
    · intro h
      cases h
    · intro h
      cases h
  | ok b =>
    constructor
    · intro h
      cases h
      rfl
    · intro h
      cases h
      rfl

end InvoiceOs.Lib
