import Mathlib.Data.List.Basic

/-! Runs of a partial step function over labels, and the induction every safety
result uses. A label condition restricts the runs an invariant speaks about. -/

namespace InvoiceOs.Lib

variable {σ α : Type*}

def runFrom (step : σ → α → Option σ) : σ → List α → Option σ
  | s, [] => some s
  | s, a :: as => (step s a).bind fun s' => runFrom step s' as

/-- Every step the run takes starts at a state and label that meet `C`. -/
def Along (step : σ → α → Option σ) (C : σ → α → Prop) : σ → List α → Prop
  | _, [] => True
  | s, a :: as => C s a ∧ ∀ s', step s a = some s' → Along step C s' as

instance decidableAlong (step : σ → α → Option σ) (C : σ → α → Prop) [∀ s a, Decidable (C s a)] :
    ∀ (s : σ) (as : List α), Decidable (Along step C s as)
  | _, [] => isTrue trivial
  | s, a :: as =>
    match h : step s a with
    | none => decidable_of_iff (C s a) (by simp [Along, h])
    | some s' =>
      have := decidableAlong step C s' as
      decidable_of_iff (C s a ∧ Along step C s' as) (by simp [Along, h])

section
variable {step : σ → α → Option σ} {C : σ → α → Prop} {I : σ → Prop}

theorem runFrom_cons {s t : σ} {a : α} {as : List α} :
    runFrom step s (a :: as) = some t ↔ ∃ s', step s a = some s' ∧ runFrom step s' as = some t := by
  simp only [runFrom, Option.bind_eq_some_iff]

theorem runFrom_append {s t : σ} {as bs : List α} :
    runFrom step s (as ++ bs) = some t ↔
      ∃ m, runFrom step s as = some m ∧ runFrom step m bs = some t := by
  induction as generalizing s with
  | nil => simp only [List.nil_append, runFrom, Option.some.injEq, exists_eq_left']
  | cons a as ih =>
    simp only [List.cons_append, runFrom_cons, ih]
    constructor
    · rintro ⟨s', hs, m, hm, ht⟩
      exact ⟨m, ⟨s', hs, hm⟩, ht⟩
    · rintro ⟨m, ⟨s', hs, hm⟩, ht⟩
      exact ⟨s', hs, m, hm, ht⟩

theorem invariant_along (hstep : ∀ s a s', I s → C s a → step s a = some s' → I s')
    {s t : σ} {as : List α} (hs : I s) (hC : Along step C s as)
    (hrun : runFrom step s as = some t) : I t := by
  induction as generalizing s with
  | nil =>
    obtain rfl : s = t := by simpa only [runFrom, Option.some.injEq] using hrun
    exact hs
  | cons a as ih =>
    obtain ⟨s', hs', hrest⟩ := runFrom_cons.mp hrun
    exact ih (hstep s a s' hs hC.1 hs') (hC.2 s' hs') hrest

theorem exists_run (hstep : ∀ s a, I s → C s a → ∃ s', step s a = some s' ∧ I s') {s : σ}
    {as : List α} (hs : I s) (hC : Along step C s as) :
    ∃ t, runFrom step s as = some t ∧ I t := by
  induction as generalizing s with
  | nil => exact ⟨s, rfl, hs⟩
  | cons a as ih =>
    obtain ⟨s', hs', hI⟩ := hstep s a hs hC.1
    obtain ⟨t, hrun, ht⟩ := ih hI (hC.2 s' hs')
    exact ⟨t, runFrom_cons.mpr ⟨s', hs', hrun⟩, ht⟩

theorem along_of_forall (h : ∀ s a, C s a) (s : σ) (as : List α) : Along step C s as := by
  induction as generalizing s with
  | nil => trivial
  | cons a as ih => exact ⟨h s a, fun s' _ => ih s'⟩

theorem Along.prefix {s : σ} {as bs : List α} (h : Along step C s (as ++ bs)) :
    Along step C s as := by
  induction as generalizing s with
  | nil => trivial
  | cons a as ih => exact ⟨h.1, fun s' hs' => ih (h.2 s' hs')⟩

theorem Along.last {s t : σ} {as : List α} {a : α} (h : Along step C s (as ++ [a]))
    (hrun : runFrom step s as = some t) : C t a := by
  induction as generalizing s with
  | nil =>
    obtain rfl : s = t := by simpa only [runFrom, Option.some.injEq] using hrun
    exact h.1
  | cons b as ih =>
    obtain ⟨s', hs', hrest⟩ := runFrom_cons.mp hrun
    exact ih (h.2 s' hs') hrest

theorem invariant_run (hstep : ∀ s a s', I s → step s a = some s' → I s')
    {s t : σ} {as : List α} (hs : I s) (hrun : runFrom step s as = some t) : I t :=
  invariant_along (C := fun _ _ => True) (fun s a s' hI _ => hstep s a s' hI) hs
    (along_of_forall (fun _ _ => trivial) s as) hrun

end
end InvoiceOs.Lib
