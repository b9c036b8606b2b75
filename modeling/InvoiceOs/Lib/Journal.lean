import Mathlib.Data.List.Basic

/-! A state beside the journal of its changes: what the rows added since an earlier state say, one
after another, is what has become of it. -/

namespace InvoiceOs.Lib

section
variable {σ τ ε α : Type*} (view : σ → τ) (journal : σ → List ε) (apply : τ → ε → τ) (P : ε → Prop)

/-- `s'` is `s` as the rows added to the journal since tell it, each of them one of `P`. -/
def Told (s s' : σ) : Prop :=
  ∃ rows, journal s' = journal s ++ rows ∧ rows.foldl apply (view s) = view s' ∧ ∀ r ∈ rows, P r

variable {view journal apply P} {s s' s'' : σ}

theorem Told.refl (s : σ) : Told view journal apply P s s :=
  ⟨[], (List.append_nil _).symm, rfl, nofun⟩

theorem Told.trans (h : Told view journal apply P s s') (h' : Told view journal apply P s' s'') :
    Told view journal apply P s s'' := by
  obtain ⟨rows, hrows, hview, hP⟩ := h
  obtain ⟨rows', hrows', hview', hP'⟩ := h'
  refine ⟨rows ++ rows', ?_, ?_, fun r hr => ?_⟩
  · rw [hrows', hrows, List.append_assoc]
  · rw [List.foldl_append, hview, hview']
  · obtain hr | hr := List.mem_append.mp hr
    · exact hP r hr
    · exact hP' r hr

theorem Told.row {r : ε} (hr : P r) (hjournal : journal s' = journal s ++ [r])
    (hview : apply (view s) r = view s') : Told view journal apply P s s' := by
  refine ⟨[r], hjournal, hview, fun r' hr' => ?_⟩
  obtain rfl := List.mem_singleton.mp hr'
  exact hr

theorem told_foldl {step : σ → α → σ} {I : σ → Prop} {as : List α}
    (hkeep : ∀ s a, I s → I (step s a))
    (hstep : ∀ s, ∀ a ∈ as, I s → Told view journal apply P s (step s a)) (hs : I s) :
    Told view journal apply P s (as.foldl step s) := by
  induction as generalizing s with
  | nil => exact Told.refl s
  | cons a as ih =>
    have hfirst := hstep s a List.mem_cons_self hs
    exact hfirst.trans (ih (fun s b hb => hstep s b (List.mem_cons_of_mem _ hb)) (hkeep s a hs))

end
end InvoiceOs.Lib
