import InvoiceOs.Invoice.Content
import InvoiceOs.Lib.Like
import InvoiceOs.Text

/-! The search box of the invoice list: `escapeLike` and the four `ILIKE` arms of `List`. -/

namespace InvoiceOs.Invoice

open Lib.Like

def escapeLike (s : String) : String :=
  let s := replaceAll s '\\' "\\\\"
  let s := replaceAll s '%' "\\%"
  replaceAll s '_' "\\_"

def searchPattern (q : String) : String := "%" ++ escapeLike q ++ "%"

def marks : Marks Char where
  escape := '\\'
  many := '%'
  one := '_'
  escape_ne_many := by decide
  escape_ne_one := by decide
  many_ne_one := by decide

/-- The database's `lower`, a character at a time; the pattern characters have no case. -/
structure Folding where
  lower : Char → Char
  keeps : ∀ c m, marks.special m = true → (lower c = m ↔ c = m)

/-- `s ILIKE pattern ESCAPE '\'`: both sides lowered, then LIKE. None is the error of a pattern
that ends in its escape. -/
def Folding.ilike (f : Folding) (s pattern : String) : Option Bool :=
  (marks.tokens (pattern.toList.map f.lower)).map (fits · (s.toList.map f.lower))

def Folding.Contains (f : Folding) (s q : String) : Prop :=
  ∃ before found after, s.toList = before ++ found ++ after ∧
    found.map f.lower = q.toList.map f.lower

/-- The `Query` condition of `List` on a row: an arm over NULL keeps nothing, and a filter left
empty keeps all. -/
def queryKeeps (f : Folding) (q : String) (h : Header) : Option Bool :=
  if q = "" then some true
  else [some h.invoiceNumber, h.buyerName, h.buyerTIN, h.supplierTIN].foldlM
    (fun kept column => match column with
      | none => some kept
      | some text => (f.ilike text (searchPattern q)).map (kept || ·)) false

theorem escapeLike_toList (s : String) : (escapeLike s).toList = marks.quote s.toList := by
  unfold escapeLike replaceAll Marks.quote
  simp only [String.toList_ofList]
  induction s.toList with
  | nil => rfl
  | cons c cs ih =>
    simp only [List.flatMap_cons, List.flatMap_append, ih]
    congr 1
    unfold Marks.quoteChar
    by_cases hescape : c = '\\'
    · subst hescape
      rfl
    by_cases hmany : c = '%'
    · subst hmany
      rfl
    by_cases hone : c = '_'
    · subst hone
      rfl
    · have hplain : marks.special c = false := by
        simp only [Marks.special, marks, hescape, hmany, hone, decide_false, Bool.or_self]
      simp only [if_neg hescape, hplain, List.flatMap_cons, List.flatMap_nil, List.append_nil,
        if_neg hmany, if_neg hone, Bool.false_eq_true, if_false]

theorem searchPattern_toList (q : String) :
    (searchPattern q).toList = marks.many :: (marks.quote q.toList ++ [marks.many]) := by
  simp only [searchPattern, String.toList_append, escapeLike_toList]
  rfl

section
variable (f : Folding)

theorem Folding.contains_iff {s q : String} :
    f.Contains s q ↔ q.toList.map f.lower <:+: s.toList.map f.lower := by
  constructor
  · rintro ⟨before, found, after, hs, hfound⟩
    refine ⟨before.map f.lower, after.map f.lower, ?_⟩
    rw [hs, List.map_append, List.map_append, hfound]
  · rintro ⟨before, after, hs⟩
    obtain ⟨l, after', hl, hbefore, -⟩ := List.map_eq_append_iff.mp hs.symm
    obtain ⟨before', found, rfl, -, hfound⟩ := List.map_eq_append_iff.mp hbefore
    exact ⟨before', found, after', hl, hfound⟩

theorem Folding.map_searchPattern (q : String) : (searchPattern q).toList.map f.lower =
    marks.many :: (marks.quote (q.toList.map f.lower) ++ [marks.many]) := by
  have hmany : f.lower marks.many = marks.many := (f.keeps _ _ rfl).mpr rfl
  rw [searchPattern_toList, List.map_cons, List.map_append, map_quote f.keeps, List.map_singleton,
    hmany]

theorem Folding.ilike_searchPattern (s q : String) :
    ∃ b, f.ilike s (searchPattern q) = some b ∧ (b = true ↔ f.Contains s q) := by
  unfold Folding.ilike
  rw [f.map_searchPattern, tokens_contained]
  exact ⟨_, rfl, (fits_contained _).trans f.contains_iff.symm⟩

theorem queryKeeps_iff (q : String) (h : Header) :
    ∃ b, queryKeeps f q h = some b ∧ (b = true ↔ q = "" ∨ ∃ text,
      some text ∈ [some h.invoiceNumber, h.buyerName, h.buyerTIN, h.supplierTIN] ∧
        f.Contains text q) := by
  unfold queryKeeps
  split
  · rename_i hq
    exact ⟨true, rfl, fun _ => .inl hq, fun _ => rfl⟩
  · rename_i hq
    -- the arms so far kept the row, or one still to come does
    have harms : ∀ (columns : List (Option String)) (kept : Bool), ∃ b,
        columns.foldlM (fun kept column => match column with
          | none => some kept
          | some text => (f.ilike text (searchPattern q)).map (kept || ·)) kept = some b ∧
        (b = true ↔ kept = true ∨ ∃ text, some text ∈ columns ∧ f.Contains text q) := by
      intro columns
      induction columns with
      | nil => exact fun kept => ⟨kept, rfl, .inl, fun h => h.elim id nofun⟩
      | cons column columns ih =>
        intro kept
        rw [List.foldlM_cons]
        cases column with
        | none =>
          obtain ⟨b, hb, hiff⟩ := ih kept
          refine ⟨b, hb, hiff.trans ?_⟩
          simp only [List.mem_cons, reduceCtorEq, false_or]
        | some text =>
          obtain ⟨b₀, hb₀, hcontains⟩ := f.ilike_searchPattern text q
          obtain ⟨b, hb, hiff⟩ := ih (kept || b₀)
          refine ⟨b, by simp only [hb₀, Option.map_some]; exact hb, hiff.trans ?_⟩
          simp only [Bool.or_eq_true, hcontains, List.mem_cons, Option.some.injEq]
          constructor
          · rintro ((hkept | htext) | ⟨text', htext', hfound⟩)
            · exact .inl hkept
            · exact .inr ⟨text, .inl rfl, htext⟩
            · exact .inr ⟨text', .inr htext', hfound⟩
          · rintro (hkept | ⟨text', rfl | htext', hfound⟩)
            · exact .inl (.inl hkept)
            · exact .inl (.inr hfound)
            · exact .inr ⟨text', htext', hfound⟩
    obtain ⟨b, hb, hiff⟩ := harms
      [some h.invoiceNumber, h.buyerName, h.buyerTIN, h.supplierTIN] false
    refine ⟨b, hb, hiff.trans ?_⟩
    simp only [Bool.false_eq_true, false_or, hq]

/-- The search text is read as itself: its pattern is well formed, as written and lowered, and
keeps the texts that contain it. -/
theorem search_is_literal (q s : String) :
    (marks.tokens (searchPattern q).toList).isSome = true ∧
      (f.ilike s (searchPattern q)).isSome = true ∧
      (f.ilike s (searchPattern q) = some true ↔ f.Contains s q) ∧
      ∀ h : Header, ∃ b, queryKeeps f q h = some b ∧ (b = true ↔ q = "" ∨ ∃ text,
        some text ∈ [some h.invoiceNumber, h.buyerName, h.buyerTIN, h.supplierTIN] ∧
          f.Contains text q) := by
  obtain ⟨b, hb, hcontains⟩ := f.ilike_searchPattern s q
  refine ⟨?_, ?_, ?_, queryKeeps_iff f q⟩
  · rw [searchPattern_toList, tokens_contained]
    rfl
  · rw [hb]
    rfl
  · rw [hb, ← hcontains]
    exact Option.some_inj

end

def asciiFolding : Folding where
  lower c := if 65 ≤ c.toNat ∧ c.toNat ≤ 90 then Char.ofNat (c.toNat + 32) else c
  keeps c m hm := by
    have hmark : m.toNat = 92 ∨ m.toNat = 37 ∨ m.toNat = 95 := by
      obtain rfl | rfl | rfl := marks.special_iff.mp hm
      · exact .inl rfl
      · exact .inr (.inl rfl)
      · exact .inr (.inr rfl)
    split
    · rename_i hupper
      have hvalid : (c.toNat + 32).isValidChar := .inl (by omega)
      have hlower : (Char.ofNat (c.toNat + 32)).toNat = c.toNat + 32 := by
        rw [Char.ofNat, dif_pos hvalid]
        rfl
      constructor
      · rintro rfl
        omega
      · rintro rfl
        omega
    · exact Iff.rfl

example : asciiFolding.ilike "Tax 10%_A" (searchPattern "0%_a") = some true ∧
    asciiFolding.ilike "Tax 10 per cent" (searchPattern "0%") = some false := by decide +kernel

end InvoiceOs.Invoice
