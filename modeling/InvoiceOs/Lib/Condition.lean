import Mathlib.Data.List.Basic

/-! The text of a WHERE clause: conditions over a row joined with AND and OR, AND the tighter,
and grouped by parentheses. A fragment that is one condition or one group stands for the same
condition wherever it is written; a bare OR does not. -/

namespace InvoiceOs.Lib

universe u v

inductive Token (α : Type u) where
  | cond (a : α)
  | opening
  | closing
  | and
  | or

namespace Token

def map {α : Type u} {β : Type v} (f : α → β) : Token α → Token β
  | cond a => cond (f a)
  | opening => opening
  | closing => closing
  | and => and
  | or => or

end Token

/-- What one level of parentheses has read: the alternatives before the last OR, and the
conjuncts since. -/
structure Frame (ρ : Type u) where
  alternatives : ρ → Bool := fun _ => false
  conjuncts : ρ → Bool := fun _ => true

namespace Frame

variable {ρ : Type u}

def value (f : Frame ρ) : ρ → Bool := fun r => f.alternatives r || f.conjuncts r

def conjoin (f : Frame ρ) (p : ρ → Bool) : Frame ρ :=
  { f with conjuncts := fun r => f.conjuncts r && p r }

def alternative (f : Frame ρ) : Frame ρ := { alternatives := f.value }

@[simp] theorem value_conjoin_start (p : ρ → Bool) : (({} : Frame ρ).conjoin p).value = p := by
  funext r
  simp only [value, conjoin, Bool.false_or, Bool.true_and]

end Frame

/-- Reads the text; `operand` while a condition or a group has to come next. A text that is
not a condition has no meaning. -/
def readCondition {ρ : Type u} :
    List (Token (ρ → Bool)) → Frame ρ → List (Frame ρ) → Bool → Option (ρ → Bool)
  | [], f, [], false => some f.value
  | .cond p :: ts, f, fs, true => readCondition ts (f.conjoin p) fs false
  | .opening :: ts, f, fs, true => readCondition ts {} (f :: fs) true
  | .closing :: ts, f, g :: fs, false => readCondition ts (g.conjoin f.value) fs false
  | .and :: ts, f, fs, false => readCondition ts f fs true
  | .or :: ts, f, fs, false => readCondition ts f.alternative fs true
  | _, _, _, _ => none

def condition {ρ : Type u} (ts : List (Token (ρ → Bool))) : Option (ρ → Bool) :=
  readCondition ts {} [] true

section
variable {ρ : Type u}

def Stands (frag : List (Token (ρ → Bool))) (p : ρ → Bool) : Prop :=
  ∀ ts f fs, readCondition (frag ++ ts) f fs true = readCondition ts (f.conjoin p) fs false

theorem stands_cond (p : ρ → Bool) : Stands [.cond p] p := fun _ _ _ => rfl

theorem readCondition_and {frags : List (List (Token (ρ → Bool)))} {ps : List (ρ → Bool)}
    (h : List.Forall₂ Stands frags ps) (hne : frags ≠ []) (ts : List (Token (ρ → Bool)))
    (f : Frame ρ) (fs : List (Frame ρ)) :
    readCondition ([.and].intercalate frags ++ ts) f fs true =
      readCondition ts (f.conjoin fun r => ps.all fun p => p r) fs false := by
  induction h generalizing f with
  | nil => exact absurd rfl hne
  | @cons frag p frags ps hfrag hrest ih =>
    cases hrest with
    | nil =>
      have hall : (fun r => [p].all fun p => p r) = p := by
        funext r
        simp only [List.all_cons, List.all_nil, Bool.and_true]
      rw [List.intercalate_singleton, hfrag, hall]
    | cons hnext htail =>
      rw [List.intercalate_cons_cons, List.append_assoc, List.append_assoc, hfrag]
      refine (ih (List.cons_ne_nil _ _) _).trans ?_
      congr 1
      simp only [Frame.conjoin, List.all_cons, Bool.and_assoc]

theorem readCondition_or {frags : List (List (Token (ρ → Bool)))} {ps : List (ρ → Bool)}
    (h : List.Forall₂ Stands frags ps) (hne : frags ≠ []) (ts : List (Token (ρ → Bool)))
    (f : Frame ρ) (fs : List (Frame ρ)) (hf : f.conjuncts = fun _ => true) :
    ∃ g : Frame ρ, readCondition ([.or].intercalate frags ++ ts) f fs true =
        readCondition ts g fs false ∧
      g.value = fun r => f.alternatives r || ps.any fun p => p r := by
  induction h generalizing f with
  | nil => exact absurd rfl hne
  | @cons frag p frags ps hfrag hrest ih =>
    have hvalue : (f.conjoin p).value = fun r => f.alternatives r || p r := by
      funext r
      simp only [Frame.value, Frame.conjoin, hf, Bool.true_and]
    cases hrest with
    | nil =>
      refine ⟨f.conjoin p, ?_, ?_⟩
      · rw [List.intercalate_singleton, hfrag]
      · simp only [hvalue, List.any_cons, List.any_nil, Bool.or_false]
    | cons hnext htail =>
      obtain ⟨g, hg, hgvalue⟩ := ih (List.cons_ne_nil _ _) (f.conjoin p).alternative rfl
      refine ⟨g, ?_, ?_⟩
      · rw [List.intercalate_cons_cons, List.append_assoc, List.append_assoc, hfrag]
        exact hg
      · rw [hgvalue]
        simp only [Frame.alternative, hvalue, List.any_cons, Bool.or_assoc]

theorem stands_all {frags : List (List (Token (ρ → Bool)))} {ps : List (ρ → Bool)}
    (h : List.Forall₂ Stands frags ps) (hne : frags ≠ []) :
    Stands (.opening :: ([.and].intercalate frags ++ [.closing])) fun r => ps.all fun p => p r := by
  intro ts f fs
  rw [List.cons_append, List.append_assoc]
  refine (readCondition_and h hne ([.closing] ++ ts) {} (f :: fs)).trans ?_
  exact congrArg (fun p => readCondition ts (f.conjoin p) fs false) (Frame.value_conjoin_start _)

theorem stands_any {frags : List (List (Token (ρ → Bool)))} {ps : List (ρ → Bool)}
    (h : List.Forall₂ Stands frags ps) (hne : frags ≠ []) :
    Stands (.opening :: ([.or].intercalate frags ++ [.closing])) fun r => ps.any fun p => p r := by
  intro ts f fs
  obtain ⟨g, hg, hvalue⟩ := readCondition_or h hne ([.closing] ++ ts) {} (f :: fs) rfl
  have hany : g.value = fun r => ps.any fun p => p r := by
    rw [hvalue]
    simp only [Bool.false_or]
  rw [List.cons_append, List.append_assoc]
  refine hg.trans ?_
  exact congrArg (fun p => readCondition ts (f.conjoin p) fs false) hany

theorem condition_and {frags : List (List (Token (ρ → Bool)))} {ps : List (ρ → Bool)}
    (h : List.Forall₂ Stands frags ps) (hne : frags ≠ []) :
    condition ([.and].intercalate frags) = some fun r => ps.all fun p => p r := by
  have hread := readCondition_and h hne [] {} []
  rw [List.append_nil] at hread
  refine hread.trans ?_
  exact congrArg some (Frame.value_conjoin_start _)

end

/-- Without the parentheses the OR escapes. -/
example : (condition [.cond (fun r : ℕ => r == 1), .and, .cond (· == 1), .or, .cond (· == 2)]).any
    (fun p => p 2) = true := by
  decide

end InvoiceOs.Lib
