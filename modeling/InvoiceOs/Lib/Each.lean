import InvoiceOs.Lib.Refusal
import Mathlib.Data.List.Forall2

/-! A step that may fail, over each element of a list: what is known of the elements from the
whole, and of the whole from the elements. -/

namespace InvoiceOs.Lib

variable {ε α β : Type} {f g : α → Except ε β} {l : List α}

theorem mapM_congr (h : ∀ a ∈ l, f a = g a) : l.mapM f = l.mapM g := by
  induction l with
  | nil => rfl
  | cons a l ih =>
    rw [List.mapM_cons, List.mapM_cons, h a List.mem_cons_self,
      ih fun b hb => h b (List.mem_cons_of_mem _ hb)]

theorem mapM_cons_ok {a : α} {ys : List β} (h : (a :: l).mapM f = .ok ys) :
    ∃ y ys', f a = .ok y ∧ l.mapM f = .ok ys' ∧ ys = y :: ys' := by
  rw [List.mapM_cons] at h
  obtain ⟨y, hy, h⟩ := bind_eq_ok.mp h
  obtain ⟨ys', hys', h⟩ := bind_eq_ok.mp h
  exact ⟨y, ys', hy, hys', (pure_eq_ok.mp h).symm⟩

theorem exists_of_mapM {ys : List β} (h : l.mapM f = .ok ys) {y : β} (hy : y ∈ ys) :
    ∃ a ∈ l, f a = .ok y := by
  induction l generalizing ys with
  | nil =>
    cases h
    cases hy
  | cons a l ih =>
    obtain ⟨y', ys', ha, hl, rfl⟩ := mapM_cons_ok h
    obtain rfl | hy := List.mem_cons.mp hy
    · exact ⟨a, List.mem_cons_self, ha⟩
    · obtain ⟨c, hc, hf⟩ := ih hl hy
      exact ⟨c, List.mem_cons_of_mem _ hc, hf⟩

theorem exists_mem_mapM {ys : List β} (h : l.mapM f = .ok ys) {a : α} (ha : a ∈ l) :
    ∃ y ∈ ys, f a = .ok y := by
  induction l generalizing ys with
  | nil => cases ha
  | cons c l ih =>
    obtain ⟨y', ys', hc, hl, rfl⟩ := mapM_cons_ok h
    obtain rfl | ha := List.mem_cons.mp ha
    · exact ⟨y', List.mem_cons_self, hc⟩
    · obtain ⟨y, hy, hf⟩ := ih hl ha
      exact ⟨y, List.mem_cons_of_mem _ hy, hf⟩

theorem exists_of_mapM_error {err : ε} (h : l.mapM f = .error err) :
    ∃ a ∈ l, f a = .error err := by
  induction l with
  | nil => cases h
  | cons a l ih =>
    rw [List.mapM_cons] at h
    cases ha : f a with
    | error err' =>
      rw [ha] at h
      cases h
      exact ⟨a, List.mem_cons_self, ha⟩
    | ok b =>
      rw [ha] at h
      cases hl : l.mapM f with
      | error err' =>
        rw [hl] at h
        cases h
        obtain ⟨c, hc, hf⟩ := ih hl
        exact ⟨c, List.mem_cons_of_mem _ hc, hf⟩
      | ok bs =>
        rw [hl] at h
        cases h

theorem exists_mapM (h : ∀ a ∈ l, ∃ b, f a = .ok b) : ∃ bs, l.mapM f = .ok bs := by
  cases hl : l.mapM f with
  | ok bs => exact ⟨bs, rfl⟩
  | error err =>
    obtain ⟨a, ha, hf⟩ := exists_of_mapM_error hl
    obtain ⟨b, hb⟩ := h a ha
    rw [hf] at hb
    cases hb

theorem mapM_eq_map {k : α → β} (h : ∀ a ∈ l, f a = .ok (k a)) : l.mapM f = .ok (l.map k) := by
  induction l with
  | nil => rfl
  | cons a l ih =>
    rw [List.mapM_cons, h a List.mem_cons_self, ih fun b hb => h b (List.mem_cons_of_mem _ hb)]
    rfl

theorem ok_of_forM {f : α → Except ε Unit} (h : ∀ a ∈ l, f a = .ok ()) : l.forM f = .ok () := by
  induction l with
  | nil => rfl
  | cons b l ih =>
    have hrest := ih fun a ha => h a (List.mem_cons_of_mem _ ha)
    exact bind_eq_ok.mpr ⟨(), h b List.mem_cons_self, hrest⟩

theorem forM_ok {f : α → Except ε Unit} (h : l.forM f = .ok ()) : ∀ a ∈ l, f a = .ok () := by
  induction l with
  | nil =>
    intro a ha
    cases ha
  | cons b l ih =>
    have hsplit : (f b >>= fun _ => l.forM f) = .ok () := h
    obtain ⟨⟨⟩, hb, hrest⟩ := bind_eq_ok.mp hsplit
    intro a ha
    obtain rfl | ha := List.mem_cons.mp ha
    · exact hb
    · exact ih hrest a ha

/-! ### A step that may have no result -/

theorem mapM_forall₂ {f : α → Option β} {Q : α → β → Prop} (h : ∀ a ∈ l, ∃ b, f a = some b ∧ Q a b) :
    ∃ bs, l.mapM f = some bs ∧ List.Forall₂ Q l bs := by
  induction l with
  | nil => exact ⟨[], rfl, .nil⟩
  | cons a l ih =>
    obtain ⟨b, hb, hq⟩ := h a List.mem_cons_self
    obtain ⟨bs, hbs, hall⟩ := ih fun a' ha' => h a' (List.mem_cons_of_mem a ha')
    refine ⟨b :: bs, ?_, .cons hq hall⟩
    rw [List.mapM_cons, hb, hbs]
    rfl

theorem forall₂_mem_right {Q : α → β → Prop} {bs : List β} (h : List.Forall₂ Q l bs) {b : β}
    (hb : b ∈ bs) : ∃ a ∈ l, Q a b := by
  induction h with
  | nil => cases hb
  | cons hq _ ih =>
    rcases List.mem_cons.mp hb with rfl | hb
    · exact ⟨_, List.mem_cons_self, hq⟩
    · obtain ⟨a, ha, hq⟩ := ih hb
      exact ⟨a, List.mem_cons_of_mem _ ha, hq⟩

end InvoiceOs.Lib
