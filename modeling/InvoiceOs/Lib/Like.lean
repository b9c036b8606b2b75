import Mathlib.Data.List.Infix

/-! LIKE patterns: a character that stands for any text, one that stands for any character, and
an escape in front of a character to be read as itself. -/

namespace InvoiceOs.Lib.Like

universe u

variable {α : Type u} [DecidableEq α]

structure Marks (α : Type u) where
  escape : α
  many : α
  one : α
  escape_ne_many : escape ≠ many
  escape_ne_one : escape ≠ one
  many_ne_one : many ≠ one

inductive Token (α : Type u) where
  | lit (c : α)
  | one
  | many
  deriving DecidableEq

namespace Marks

variable (w : Marks α)

def special (c : α) : Bool := c = w.escape || c = w.many || c = w.one

/-- A pattern's tokens; none where it ends in an escape with nothing to escape. -/
def tokens : List α → Option (List (Token α))
  | [] => some []
  | [c] =>
    if c = w.escape then none
    else some [if c = w.many then .many else if c = w.one then .one else .lit c]
  | c :: d :: p =>
    if c = w.escape then (tokens p).map (.lit d :: ·)
    else (tokens (d :: p)).map
      ((if c = w.many then .many else if c = w.one then .one else .lit c) :: ·)

theorem special_iff {c : α} : w.special c = true ↔ c = w.escape ∨ c = w.many ∨ c = w.one := by
  simp only [special, Bool.or_eq_true, decide_eq_true_eq, or_assoc]

def quoteChar (c : α) : List α := if w.special c then [w.escape, c] else [c]

def quote (t : List α) : List α := t.flatMap w.quoteChar

end Marks

def fits : List (Token α) → List α → Bool
  | [] => List.isEmpty
  | .lit c :: p => fun
    | [] => false
    | d :: s => d = c && fits p s
  | .one :: p => fun
    | [] => false
    | _ :: s => fits p s
  | .many :: p => fun s => s.tails.any (fits p)

theorem fits_many {p : List (Token α)} {s : List α} :
    fits (.many :: p) s = true ↔ ∃ a b, s = a ++ b ∧ fits p b = true := by
  change s.tails.any (fits p) = true ↔ _
  rw [List.any_eq_true]
  constructor
  · rintro ⟨b, hb, hfits⟩
    obtain ⟨a, rfl⟩ := (List.mem_tails b s).mp hb
    exact ⟨a, b, rfl, hfits⟩
  · rintro ⟨a, b, rfl, hfits⟩
    exact ⟨b, (List.mem_tails b _).mpr (List.suffix_append a b), hfits⟩

theorem fits_lits_append (t : List α) {p : List (Token α)} {s : List α} :
    fits (t.map .lit ++ p) s = true ↔ ∃ b, s = t ++ b ∧ fits p b = true := by
  induction t generalizing s with
  | nil => exact ⟨fun h => ⟨s, rfl, h⟩, fun ⟨_, hs, h⟩ => hs ▸ h⟩
  | cons c t ih =>
    cases s with
    | nil => exact ⟨nofun, nofun⟩
    | cons d s =>
      change (decide (d = c) && fits (t.map .lit ++ p) s) = true ↔ _
      rw [Bool.and_eq_true, decide_eq_true_eq, ih]
      constructor
      · rintro ⟨rfl, b, rfl, hb⟩
        exact ⟨b, rfl, hb⟩
      · rintro ⟨b, hs, hb⟩
        obtain ⟨rfl, rfl⟩ := List.cons.inj hs
        exact ⟨rfl, b, rfl, hb⟩

theorem fits_contained (t : List α) {s : List α} :
    fits (.many :: (t.map .lit ++ [.many])) s = true ↔ t <:+: s := by
  have hrest : ∀ b : List α, fits [.many] b = true := fun b =>
    fits_many.mpr ⟨b, [], (List.append_nil b).symm, rfl⟩
  rw [fits_many]
  constructor
  · rintro ⟨before, found, rfl, hfound⟩
    obtain ⟨after, rfl, -⟩ := (fits_lits_append t).mp hfound
    exact ⟨before, after, List.append_assoc _ _ _⟩
  · rintro ⟨before, after, rfl⟩
    exact ⟨before, t ++ after, List.append_assoc _ _ _,
      (fits_lits_append t).mpr ⟨after, rfl, hrest after⟩⟩

section
variable {w : Marks α}

theorem tokens_plain {c : α} (hc : c ≠ w.escape) (p : List α) :
    w.tokens (c :: p) = (w.tokens p).map
      ((if c = w.many then .many else if c = w.one then .one else .lit c) :: ·) := by
  cases p with
  | nil => simp only [Marks.tokens, if_neg hc, Option.map_some]
  | cons d p => simp only [Marks.tokens, if_neg hc]

theorem tokens_many (p : List α) :
    w.tokens (w.many :: p) = (w.tokens p).map (.many :: ·) := by
  rw [tokens_plain w.escape_ne_many.symm, if_pos rfl]

theorem tokens_quote_append (t p : List α) :
    w.tokens (w.quote t ++ p) = (w.tokens p).map (t.map .lit ++ ·) := by
  induction t with
  | nil => exact Option.map_id'.symm
  | cons c t ih =>
    have hcons : w.quote (c :: t) ++ p = w.quoteChar c ++ (w.quote t ++ p) := by
      rw [Marks.quote, List.flatMap_cons, List.append_assoc, ← Marks.quote]
    have hmap : (w.tokens (w.quote t ++ p)).map (.lit c :: ·) =
        (w.tokens p).map ((c :: t).map .lit ++ ·) := by
      rw [ih, Option.map_map]
      rfl
    rw [hcons, ← hmap]
    unfold Marks.quoteChar
    split
    · exact if_pos rfl
    · rename_i hc
      simp only [Marks.special_iff, not_or] at hc
      obtain ⟨hescape, hmany, hone⟩ := hc
      rw [List.singleton_append, tokens_plain hescape, if_neg hmany, if_neg hone]

theorem tokens_contained (t : List α) :
    w.tokens (w.many :: (w.quote t ++ [w.many])) =
      some (.many :: (t.map .lit ++ [.many])) := by
  rw [tokens_many, tokens_quote_append, tokens_many]
  rfl

theorem map_quote {f : α → α} (hf : ∀ c m, w.special m = true → (f c = m ↔ c = m)) (t : List α) :
    (w.quote t).map f = w.quote (t.map f) := by
  have hspecial : ∀ {c}, w.special c = true → f c = c := fun {c} hc => (hf c c hc).mpr rfl
  induction t with
  | nil => rfl
  | cons c t ih =>
    have hc : (w.quoteChar c).map f = w.quoteChar (f c) := by
      unfold Marks.quoteChar
      by_cases h : w.special c = true
      · have hescape : w.special w.escape = true := w.special_iff.mpr (.inl rfl)
        rw [if_pos h, hspecial h, if_pos h, List.map_cons, hspecial hescape, List.map_singleton,
          hspecial h]
      · have hkept : ¬ w.special (f c) = true := fun h' => h ((hf c (f c) h').mp rfl ▸ h')
        rw [if_neg h, if_neg hkept, List.map_singleton]
    simp only [Marks.quote, List.flatMap_cons, List.map_append, List.map_cons] at ih ⊢
    rw [ih, hc]

end
end InvoiceOs.Lib.Like
