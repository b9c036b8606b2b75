import Mathlib.Data.List.Perm.Basic
import Mathlib.Data.List.Flatten
import Mathlib.Data.Set.Defs

/-! A chain of records from one point to another, the gaps it leaves, and more records put into
each gap. -/

namespace InvoiceOs.Lib

variable {P ι γ : Type*} (r : P → P → Prop) (pos : ι → P)

structure ChainIn (lo hi : P) (l : List ι) : Prop where
  increasing : l.Pairwise fun a b => r (pos a) (pos b)
  after : ∀ a ∈ l, r lo (pos a)
  before : ∀ a ∈ l, r (pos a) hi

variable (hi : P)

def gapsOf : P → List ι → List (P × P)
  | lo, [] => [(lo, hi)]
  | lo, a :: l => (lo, pos a) :: gapsOf (pos a) l

/-- What `f` puts into each gap, between what `g` makes of the records. -/
def weave (f : P → P → List γ) (g : ι → γ) : P → List ι → List γ
  | lo, [] => f lo hi
  | lo, a :: l => f lo (pos a) ++ g a :: weave f g (pos a) l

variable {r pos hi} {lo : P} {l : List ι} {a : ι}

theorem ChainIn.tail (h : ChainIn r pos lo hi (a :: l)) : ChainIn r pos (pos a) hi l :=
  ⟨(List.pairwise_cons.mp h.increasing).2, (List.pairwise_cons.mp h.increasing).1,
    fun b hb => h.before b (List.mem_cons_of_mem a hb)⟩

theorem ChainIn.head (h : ChainIn r pos lo hi (a :: l)) : r lo (pos a) ∧ r (pos a) hi :=
  ⟨h.after a List.mem_cons_self, h.before a List.mem_cons_self⟩

theorem ChainIn.append_cons (htrans : ∀ x y z, r x y → r y z → r x z) {l₁ l₂ : List ι}
    (h₁ : ChainIn r pos lo (pos a) l₁) (h : r lo (pos a)) (h' : r (pos a) hi)
    (h₂ : ChainIn r pos (pos a) hi l₂) : ChainIn r pos lo hi (l₁ ++ a :: l₂) where
  increasing := by
    refine List.pairwise_append.mpr
      ⟨h₁.increasing, List.pairwise_cons.mpr ⟨h₂.after, h₂.increasing⟩, ?_⟩
    intro b hb c hc
    have hba : r (pos b) (pos a) := h₁.before b hb
    rcases List.mem_cons.mp hc with rfl | hc
    · exact hba
    · exact htrans _ _ _ hba (h₂.after c hc)
  after := by
    intro b hb
    rcases List.mem_append.mp hb with hb | hb
    · exact h₁.after b hb
    · rcases List.mem_cons.mp hb with rfl | hb
      · exact h
      · exact htrans _ _ _ h (h₂.after b hb)
  before := by
    intro b hb
    rcases List.mem_append.mp hb with hb | hb
    · exact htrans _ _ _ (h₁.before b hb) h'
    · rcases List.mem_cons.mp hb with rfl | hb
      · exact h'
      · exact h₂.before b hb

theorem ChainIn.weave (htrans : ∀ x y z, r x y → r y z → r x z) (f : P → P → List ι)
    (hf : ∀ x y, ChainIn r pos x y (f x y)) (h : ChainIn r pos lo hi l) :
    ChainIn r pos lo hi (weave pos hi f id lo l) := by
  induction l generalizing lo with
  | nil => exact hf lo hi
  | cons a l ih => exact (hf lo (pos a)).append_cons htrans h.head.1 h.head.2 (ih h.tail)

theorem weave_perm (f : P → P → List γ) (g : ι → γ) (lo : P) (l : List ι) :
    (weave pos hi f g lo l).Perm (l.map g ++ (gapsOf pos hi lo l).flatMap fun x => f x.1 x.2) := by
  induction l generalizing lo with
  | nil => simp [weave, gapsOf]
  | cons a l ih =>
    rw [weave, gapsOf, List.map_cons, List.flatMap_cons, List.cons_append]
    refine List.perm_middle.trans (.cons _ ?_)
    rw [← List.append_assoc]
    exact ((ih (pos a)).append_left _).trans
      (by rw [← List.append_assoc]; exact (List.perm_append_comm).append_right _)

theorem filter_weave {f : P → P → List ι} {keep : ι → Bool}
    (hf : ∀ x y, ∀ b ∈ f x y, keep b = false) (lo : P) (l : List ι) :
    (weave pos hi f id lo l).filter keep = l.filter keep := by
  have hgap : ∀ x y, (f x y).filter keep = [] := fun x y =>
    List.filter_eq_nil_iff.mpr fun b hb => by rw [hf x y b hb]; nofun
  induction l generalizing lo with
  | nil => exact hgap lo hi
  | cons a l ih =>
    rw [weave, List.filter_append, hgap, List.nil_append, id, List.filter_cons, List.filter_cons,
      ih]

theorem filterMap_weave (side : P → ℕ) (hside : ∀ x y, r x y → side x < side y)
    (f : P → P → List γ) (g : ι → γ) (read : γ → Option ℕ)
    (hf : ∀ x y, r x y → (f x y).filterMap read = List.range' (side x + 1) (side y - side x - 1))
    (hg : ∀ a ∈ l, read (g a) = some (side (pos a))) (hlo : r lo hi) (h : ChainIn r pos lo hi l) :
    (weave pos hi f g lo l).filterMap read =
      List.range' (side lo + 1) (side hi - side lo - 1) := by
  induction l generalizing lo with
  | nil => exact hf lo hi hlo
  | cons a l ih =>
    have hbefore : side lo < side (pos a) := hside _ _ h.head.1
    have hafter : side (pos a) < side hi := hside _ _ h.head.2
    have hfirst : side hi - side (pos a) - 1 + 1 = side hi - side (pos a) := by omega
    have hstart : side (pos a) = side lo + 1 + (side (pos a) - side lo - 1) := by omega
    have hall : side (pos a) - side lo - 1 + (side hi - side (pos a)) = side hi - side lo - 1 := by
      omega
    have hrest := ih (fun b hb => hg b (List.mem_cons_of_mem a hb)) h.head.2 h.tail
    rw [weave, List.filterMap_append, List.filterMap_cons_some (hg a List.mem_cons_self),
      hf _ _ h.head.1, hrest, ← List.range'_succ, hfirst, ← hall, ← List.range'_append_1, ← hstart]

end InvoiceOs.Lib
