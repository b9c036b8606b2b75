import Mathlib.Data.List.DropRight

/-! Taking blanks off the two ends of a text. -/

namespace InvoiceOs.Lib

universe u

variable {α : Type u}

def trim (blank : α → Bool) (s : List α) : List α :=
  (((s.dropWhile blank).reverse.dropWhile blank).reverse)

def Tight (blank : α → Bool) (s : List α) : Prop :=
  (∀ c ∈ s.head?, blank c = false) ∧ ∀ c ∈ s.getLast?, blank c = false

variable {blank : α → Bool}

theorem dropWhile_head {s : List α} : ∀ c ∈ (s.dropWhile blank).head?, blank c = false := by
  intro c hc
  have h := List.head?_dropWhile_not blank s
  rw [Option.mem_def.mp hc] at h
  simpa using h

theorem dropWhile_of_head {s : List α} (h : ∀ c ∈ s.head?, blank c = false) :
    s.dropWhile blank = s := by
  cases s with
  | nil => rfl
  | cons c s => exact List.dropWhile_cons_of_neg (by rw [h c rfl]; nofun)

theorem trim_of_tight {s : List α} (h : Tight blank s) : trim blank s = s := by
  have hlast : ∀ c ∈ s.reverse.head?, blank c = false := by
    rw [List.head?_reverse]
    exact h.2
  unfold trim
  rw [dropWhile_of_head h.1, dropWhile_of_head hlast, List.reverse_reverse]

theorem Tight.of_forall {s : List α} (h : ∀ c ∈ s, blank c = false) : Tight blank s :=
  ⟨fun c hc => h c (List.mem_of_head? hc), fun c hc => h c (List.mem_of_getLast? hc)⟩

theorem exists_trim (blank : α → Bool) (s : List α) :
    ∃ a b, s = a ++ trim blank s ++ b ∧ (∀ c ∈ a, blank c = true) ∧ (∀ c ∈ b, blank c = true) ∧
      Tight blank (trim blank s) := by
  let front := s.dropWhile blank
  have htake : ∀ {l : List α}, ∀ c ∈ l.takeWhile blank, blank c = true := fun c hc =>
    List.mem_takeWhile_imp hc
  have hback : front = trim blank s ++ (front.reverse.takeWhile blank).reverse := by
    rw [trim, ← List.reverse_append, List.takeWhile_append_dropWhile, List.reverse_reverse]
  refine ⟨s.takeWhile blank, (front.reverse.takeWhile blank).reverse, ?_, htake, ?_, ?_, ?_⟩
  · rw [List.append_assoc, ← hback, List.takeWhile_append_dropWhile]
  · intro c hc
    exact htake c (List.mem_reverse.mp hc)
  · intro c hc
    apply dropWhile_head (s := s)
    change c ∈ front.head?
    rw [hback, List.head?_append, Option.mem_def.mp hc]
    rfl
  · intro c hc
    rw [trim, List.getLast?_reverse] at hc
    exact dropWhile_head c hc

theorem trim_append {a b : List α} (t : List α) (ha : ∀ c ∈ a, blank c = true)
    (hb : ∀ c ∈ b, blank c = true) : trim blank (a ++ t ++ b) = trim blank t := by
  have hback : ∀ c ∈ b.reverse, blank c = true := fun c hc => hb c (List.mem_reverse.mp hc)
  unfold trim
  rw [List.append_assoc, List.dropWhile_append_of_pos ha, List.dropWhile_append]
  split
  · rename_i hempty
    have hblank : ∀ c ∈ t, blank c = true :=
      List.dropWhile_eq_nil_iff.mp (List.isEmpty_iff.mp hempty)
    rw [List.dropWhile_eq_nil_iff.mpr hb, List.dropWhile_eq_nil_iff.mpr hblank]
  · rw [List.reverse_append, List.dropWhile_append_of_pos hback]

@[simp] theorem trim_trim (s : List α) : trim blank (trim blank s) = trim blank s := by
  obtain ⟨-, -, -, -, -, htight⟩ := exists_trim blank s
  exact trim_of_tight htight

end InvoiceOs.Lib
