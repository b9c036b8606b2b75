import Mathlib.Data.List.Pairwise
import InvoiceOs.Extraction.Aligned
import InvoiceOs.Extraction.LineMerge
import InvoiceOs.Lib.Each

/-! The merge of the line rows keeps what the engine read, uses an answer's line once at most, and
leaves no hole in its numbers. -/

namespace InvoiceOs.Extraction

open Lib

/-! ### Printed order -/

namespace AliLineUnit

def key (u : AliLineUnit) : Option ℕ := if u.keyPos = 0 then none else some u.keyPos

def answer (u : AliLineUnit) : Option ℕ := if u.answerPos = 0 then none else some u.answerPos

end AliLineUnit

def unitOf (p : AliPair) : AliLineUnit := { keyPos := p.key, answerPos := p.answer }

theorem weave_pairs (nAnswer nKey : ℕ) (pairs : List AliPair) (lo : ℕ × ℕ) :
    ((pairs.zip (aliGapsFrom nAnswer nKey lo.1 lo.2 pairs)).flatMap fun (p, gap) =>
        aliUnitsForGap gap ++ [{ keyPos := p.key, answerPos := p.answer }]) ++
      ((aliGapsFrom nAnswer nKey lo.1 lo.2 pairs).getLast?.map aliUnitsForGap).getD [] =
    weave AliPair.pos (nAnswer + 1, nKey + 1) (fun lo hi => aliUnitsForGap (boxOf lo hi)) unitOf
      lo pairs := by
  induction pairs generalizing lo with
  | nil => rfl
  | cons p pairs ih =>
    have hlast : (aliGapsFrom nAnswer nKey lo.1 lo.2 (p :: pairs)).getLast? =
        (aliGapsFrom nAnswer nKey p.answer p.key pairs).getLast? := by
      cases pairs <;> rfl
    rw [hlast, weave, ← ih p.pos]
    simp only [aliGapsFrom, List.zip_cons_cons, List.flatMap_cons, List.append_assoc,
      List.cons_append, List.nil_append]
    rfl

theorem aliPrintedOrder_eq (a : AliAlignment) (nAnswer nKey : ℕ) :
    aliPrintedOrder a nAnswer nKey =
      weave AliPair.pos (nAnswer + 1, nKey + 1) (fun lo hi => aliUnitsForGap (boxOf lo hi)) unitOf
        (0, 0) a.pairs :=
  weave_pairs nAnswer nKey a.pairs (0, 0)

theorem aliSeq_box (side : ℕ × ℕ → ℕ) {lo hi : ℕ × ℕ} (h : side lo < side hi) :
    aliSeq (side lo + 1) (side hi - 1) = List.range' (side lo + 1) (side hi - side lo - 1) := by
  rw [aliSeq]
  congr 1
  omega

theorem filterMap_units {read : AliLineUnit → Option ℕ} {f : ℕ → AliLineUnit} {l : List ℕ}
    (h : ∀ x ∈ l, read (f x) = some x) : (l.map f).filterMap read = l := by
  rw [List.filterMap_map]
  calc l.filterMap (read ∘ f) = l.filterMap some := List.filterMap_congr h
    _ = l := List.filterMap_some

theorem filterMap_units_none (read : AliLineUnit → Option ℕ) (f : ℕ → AliLineUnit) (l : List ℕ)
    (h : ∀ x, read (f x) = none) : (l.map f).filterMap read = [] := by
  rw [List.filterMap_map]
  exact List.filterMap_eq_nil_iff.mpr fun x _ => h x

theorem pos_of_mem_aliSeq {lo hi x : ℕ} (h : x ∈ aliSeq (lo + 1) hi) : x ≠ 0 := by
  have := (mem_aliSeq.mp h).1
  omega

theorem answers_of_gap (lo hi : ℕ × ℕ) :
    (aliUnitsForGap (boxOf lo hi)).filterMap AliLineUnit.answer = (boxOf lo hi).1 := by
  rw [aliUnitsForGap, List.filterMap_append, filterMap_units_none _ _ _ fun _ => rfl, List.nil_append]
  exact filterMap_units fun x hx => if_neg (pos_of_mem_aliSeq hx)

theorem keys_of_gap (lo hi : ℕ × ℕ) :
    (aliUnitsForGap (boxOf lo hi)).filterMap AliLineUnit.key = (boxOf lo hi).2 := by
  have hanswers := filterMap_units_none AliLineUnit.key (fun a => { answerPos := a })
    (boxOf lo hi).1 fun _ => rfl
  rw [aliUnitsForGap, List.filterMap_append, hanswers, List.append_nil]
  exact filterMap_units fun x hx => if_neg (pos_of_mem_aliSeq hx)

section
variable {a : AliAlignment} {nAnswer nKey : ℕ}

theorem ends_before : Before (0, 0) (nAnswer + 1, nKey + 1) :=
  ⟨Nat.succ_pos _, Nat.succ_pos _⟩

theorem printed_answers (h : ChainIn Before AliPair.pos (0, 0) (nAnswer + 1, nKey + 1) a.pairs) :
    (aliPrintedOrder a nAnswer nKey).filterMap AliLineUnit.answer = aliSeq 1 nAnswer := by
  rw [aliPrintedOrder_eq]
  refine (filterMap_weave Prod.fst (fun _ _ h => h.1) _ _ _ ?_ ?_ ends_before h).trans
    (aliSeq_box Prod.fst ends_before.1).symm
  · intro lo hi hbefore
    rw [answers_of_gap]
    exact aliSeq_box Prod.fst hbefore.1
  · intro p hp
    exact if_neg (Nat.ne_of_gt (h.after p hp).1)

theorem printed_keys (h : ChainIn Before AliPair.pos (0, 0) (nAnswer + 1, nKey + 1) a.pairs) :
    (aliPrintedOrder a nAnswer nKey).filterMap AliLineUnit.key = aliSeq 1 nKey := by
  rw [aliPrintedOrder_eq]
  refine (filterMap_weave Prod.snd (fun _ _ h => h.2) _ _ _ ?_ ?_ ends_before h).trans
    (aliSeq_box Prod.snd ends_before.2).symm
  · intro lo hi hbefore
    rw [keys_of_gap]
    exact aliSeq_box Prod.snd hbefore.2
  · intro p hp
    exact if_neg (Nat.ne_of_gt (h.after p hp).2)

theorem printed_pairs {p : AliPair} (hp : p ∈ a.pairs) :
    unitOf p ∈ aliPrintedOrder a nAnswer nKey := by
  rw [aliPrintedOrder_eq, (weave_perm _ _ _ _).mem_iff, List.mem_append]
  exact .inl (List.mem_map_of_mem hp)

end

/-! ### The rows of the engine -/

def cellOf (rows : List FieldResult) (idx : ℕ) (role : String) : Option FieldResult :=
  rows.reverse.find? fun r => parseLineFieldName r.name = some (idx, role)

def HasLine (rows : List FieldResult) (idx : ℕ) : Prop :=
  ∃ r ∈ rows, ∃ role, parseLineFieldName r.name = some (idx, role)

structure EngineRows.Reads (s : EngineRows) (rows : List FieldResult) : Prop where
  nonLine : s.nonLine = rows.filter fun r => parseLineFieldName r.name = none
  cells : ∀ idx role, ((s.engineByIndex idx).getD fun _ => none) role = cellOf rows idx role
  known : ∀ idx, s.engineByIndex idx ≠ none ↔ HasLine rows idx
  indexes : ∀ idx, idx ∈ s.engineIndexes ↔ HasLine rows idx
  nodup : s.engineIndexes.Nodup

theorem cellOf_append (rows : List FieldResult) (r : FieldResult) (idx : ℕ) (role : String) :
    cellOf (rows ++ [r]) idx role =
      if parseLineFieldName r.name = some (idx, role) then some r else cellOf rows idx role := by
  rw [cellOf, List.reverse_append, List.reverse_singleton, List.singleton_append, List.find?_cons]
  split <;> rename_i h
  · rw [if_pos (of_decide_eq_true h)]
  · rw [if_neg (of_decide_eq_false h)]
    rfl

theorem hasLine_append {rows : List FieldResult} {r : FieldResult} {idx : ℕ} :
    HasLine (rows ++ [r]) idx ↔
      HasLine rows idx ∨ ∃ role, parseLineFieldName r.name = some (idx, role) := by
  simp only [HasLine, List.mem_append, List.mem_singleton, or_and_right, exists_or,
    exists_eq_left]

theorem line_some {idx idx' : ℕ} {role : String} :
    (∃ role', some (idx, role) = some (idx', role')) ↔ idx = idx' := by
  simp

theorem EngineRows.read_none {s : EngineRows} {r : FieldResult}
    (h : parseLineFieldName r.name = none) : s.read r = { s with nonLine := s.nonLine ++ [r] } := by
  rw [EngineRows.read, h]

theorem EngineRows.read_some {s : EngineRows} {r : FieldResult} {idx : ℕ} {role : String}
    (h : parseLineFieldName r.name = some (idx, role)) :
    s.read r = { s with
      insertAt := some (s.insertAt.getD s.nonLine.length)
      engineIndexes :=
        if s.engineByIndex idx = none then s.engineIndexes ++ [idx] else s.engineIndexes
      engineByIndex := Function.update s.engineByIndex idx
        (some (Function.update ((s.engineByIndex idx).getD fun _ => none) role (some r))) } := by
  rw [EngineRows.read, h]

theorem EngineRows.Reads.read {s : EngineRows} {rows : List FieldResult} (h : s.Reads rows)
    (r : FieldResult) : (s.read r).Reads (rows ++ [r]) := by
  cases hparse : parseLineFieldName r.name with
  | none =>
    rw [EngineRows.read_none hparse]
    refine ⟨?_, ?_, ?_, ?_, h.nodup⟩
    · rw [List.filter_append, ← h.nonLine, List.filter_singleton, hparse]
      rfl
    · intro idx role
      rw [cellOf_append, hparse, if_neg (by nofun)]
      exact h.cells idx role
    · intro idx
      rw [hasLine_append, hparse]
      simpa using h.known idx
    · intro idx
      rw [hasLine_append, hparse]
      simpa using h.indexes idx
  | some cell =>
    obtain ⟨idx, role⟩ := cell
    rw [EngineRows.read_some hparse]
    have hmem : idx ∈ s.engineIndexes ↔ s.engineByIndex idx ≠ none :=
      (h.indexes idx).trans (h.known idx).symm
    refine ⟨?_, ?_, ?_, ?_, ?_⟩
    · rw [List.filter_append, ← h.nonLine, List.filter_singleton, hparse]
      exact (List.append_nil _).symm
    · intro idx' role'
      rw [cellOf_append, hparse]
      dsimp only
      by_cases hidx : idx' = idx
      · subst hidx
        simp only [Function.update_self, Option.getD_some, Option.some.injEq, Prod.mk.injEq,
          true_and]
        by_cases hrole : role = role'
        · subst hrole
          rw [Function.update_self, if_pos rfl]
        · rw [Function.update_of_ne (Ne.symm hrole), if_neg hrole]
          exact h.cells idx' role'
      · rw [Function.update_of_ne hidx, if_neg (by rintro ⟨⟩; exact hidx rfl)]
        exact h.cells idx' role'
    · intro idx'
      rw [hasLine_append, hparse, line_some]
      dsimp only
      by_cases hidx : idx' = idx
      · subst hidx
        simp
      · rw [Function.update_of_ne hidx, h.known idx', or_iff_left (Ne.symm hidx)]
    · intro idx'
      rw [hasLine_append, hparse, line_some, ← h.indexes idx']
      dsimp only
      split
      · rw [List.mem_append, List.mem_singleton, eq_comm (a := idx')]
      · rename_i hknown
        refine ⟨.inl, ?_⟩
        rintro (h' | rfl)
        · exact h'
        · exact hmem.mpr hknown
    · change (if s.engineByIndex idx = none then s.engineIndexes ++ [idx] else _).Nodup
      split
      · rename_i hnew
        have hout : idx ∉ s.engineIndexes := fun hin => hmem.mp hin hnew
        exact List.nodup_append.mpr ⟨h.nodup, List.nodup_singleton idx, fun x hx y hy => by
          rintro rfl
          exact hout (List.mem_singleton.mp hy ▸ hx)⟩
      · exact h.nodup

theorem engineRows_reads (rows : List FieldResult) : (engineRows rows).Reads rows := by
  induction rows using List.reverseRecOn with
  | nil => exact ⟨rfl, fun _ _ => rfl, by simp [engineRows, HasLine], by simp [engineRows, HasLine],
      .nil⟩
  | append_singleton rows r ih =>
    rw [engineRows, List.foldl_append]
    exact ih.read r

/-! ### The merge -/

/-- What `Reconcile` promises of the line rows: one row a cell, each with a value. -/
structure LineRowsValued (rows : List FieldResult) : Prop where
  valued : ∀ r ∈ rows, parseLineFieldName r.name ≠ none → r.value ≠ none
  distinct : (rows.filterMap fun r => parseLineFieldName r.name).Nodup

theorem cellOf_spec {rows : List FieldResult} {idx : ℕ} {role : String} {r : FieldResult}
    (h : cellOf rows idx role = some r) :
    r ∈ rows ∧ parseLineFieldName r.name = some (idx, role) :=
  ⟨List.mem_reverse.mp (List.mem_of_find?_eq_some h), of_decide_eq_true (List.find?_some
    (p := fun r : FieldResult => decide (parseLineFieldName r.name = some (idx, role))) h)⟩

theorem LineRowsValued.cellOf_eq {rows : List FieldResult} (h : LineRowsValued rows)
    {r : FieldResult} (hr : r ∈ rows) {idx : ℕ} {role : String}
    (hparse : parseLineFieldName r.name = some (idx, role)) : cellOf rows idx role = some r := by
  cases hcell : cellOf rows idx role with
  | none =>
    have hnone := List.find?_eq_none.mp hcell r (List.mem_reverse.mpr hr)
    exact absurd (decide_eq_true hparse) hnone
  | some r' =>
    obtain ⟨hr', hparse'⟩ := cellOf_spec hcell
    have hpairs := List.pairwise_filterMap.mp h.distinct
    by_contra hne
    have hsymm : Std.Symm fun a b : FieldResult => ∀ x, parseLineFieldName a.name = some x →
        ∀ y, parseLineFieldName b.name = some y → x ≠ y :=
      ⟨fun a b hab x hx y hy heq => hab y hy x hx heq.symm⟩
    exact hpairs.forall hr' hr (fun heq => hne (congrArg some heq)) _ hparse' _ hparse rfl

theorem derefValue_some {cell : Option FieldResult} (h : ∀ r, cell = some r → r.value ≠ none) :
    ∃ v, derefValue cell = some v := by
  cases cell with
  | none => exact ⟨none, rfl⟩
  | some r =>
    obtain ⟨v, hv⟩ := Option.ne_none_iff_exists'.mp (h r rfl)
    exact ⟨some v, by rw [derefValue, hv]; rfl⟩

theorem aliEngineDocLine_some (idx : ℕ) {cells : String → Option FieldResult}
    (h : ∀ role r, cells role = some r → r.value ≠ none) :
    ∃ line, aliEngineDocLine idx cells = some line := by
  have hcell : ∀ role, ∃ v, derefValue (cells role) = some v := fun role =>
    derefValue_some fun r => h role r
  obtain ⟨a, ha⟩ := hcell "description"
  obtain ⟨b, hb⟩ := hcell "quantity"
  obtain ⟨c, hc⟩ := hcell "unit_price"
  obtain ⟨d, hd⟩ := hcell "line_total"
  obtain ⟨e, he⟩ := hcell "line_tax"
  obtain ⟨f, hf⟩ := hcell "tax_category"
  obtain ⟨g, hg⟩ := hcell "hsn_code"
  obtain ⟨i, hi⟩ := hcell "isic_code"
  obtain ⟨j, hj⟩ := hcell "sellers_item_identification"
  obtain ⟨k, hk⟩ := hcell "price_unit"
  rw [aliEngineDocLine, ha, hb, hc, hd, he, hf, hg, hi, hj, hk]
  exact ⟨_, rfl⟩

theorem mapM_some {α β : Type} {f : α → Option β} {l : List α} (h : ∀ x ∈ l, ∃ y, f x = some y) :
    ∃ ys, l.mapM f = some ys ∧ ys.length = l.length := by
  obtain ⟨ys, hys, hall⟩ := mapM_forall₂ (Q := fun _ _ => True) fun x hx =>
    (h x hx).imp fun _ hy => ⟨hy, trivial⟩
  exact ⟨ys, hys, hall.length_eq.symm⟩

theorem aliMergeCell_engine (toLower : Char → Char) (role : String) (row : FieldResult)
    (aiRaw : Option String) (pages : List TokenPage) :
    ∃ r, aliMergeCell toLower role (some row) aiRaw pages = some r ∧ r.value = row.value ∧
      r.region = row.region := by
  unfold aliMergeCell
  dsimp only
  generalize aiRaw.filter _ = answered
  cases answered with
  | none => exact ⟨row, rfl, rfl, rfl⟩
  | some raw =>
    dsimp only
    split
    · exact ⟨row, rfl, rfl, rfl⟩
    · split
      · exact ⟨row, rfl, rfl, rfl⟩
      · split
        · exact ⟨row, rfl, rfl, rfl⟩
        · exact ⟨_, rfl, rfl, rfl⟩

theorem mem_lineRows {mergedRows : List (List (String × FieldResult))} {r : FieldResult} :
    r ∈ lineRows mergedRows ↔
      ∃ i, ∃ cells, mergedRows[i]? = some cells ∧ ∃ c ∈ cells, renumber (i + 1) c = r := by
  simp only [lineRows, List.mem_flatten, List.mem_mapIdx]
  constructor
  · rintro ⟨_, ⟨i, hi, rfl⟩, hr⟩
    obtain ⟨c, hc, rfl⟩ := List.mem_map.mp hr
    exact ⟨i, _, List.getElem?_eq_getElem hi, c, hc, rfl⟩
  · rintro ⟨i, cells, hcells, c, hc, rfl⟩
    obtain ⟨hi, rfl⟩ := List.getElem?_eq_some_iff.mp hcells
    exact ⟨_, ⟨i, hi, rfl⟩, List.mem_map_of_mem hc⟩

theorem parse_role {name : String} {idx : ℕ} {role : String}
    (h : parseLineFieldName name = some (idx, role)) : role ∈ lineRoles := by
  simp only [parseLineFieldName, Option.bind_eq_bind, Option.bind_eq_some_iff] at h
  obtain ⟨_, _, _, _, _, _, h⟩ := h
  split at h
  · rename_i hrole
    cases h
    exact hrole
  · cases h

structure MergedLine where
  engine : Option ℕ
  answer : Option ℕ
  cells : List (String × FieldResult)

def engineCells (rows : List FieldResult) (engine : Option ℕ) (role : String) :
    Option FieldResult :=
  engine.bind fun idx => cellOf rows idx role

def answerCells (ai : List AILine) (answer : Option ℕ) (role : String) : Option String :=
  answer.bind fun i => (ai[i]?).bind fun l => l.cell role

structure KeepsLines (toLower : Char → Char) (rows : List FieldResult) (ai : List AILine)
    (pages : List TokenPage) (out : List FieldResult) (lines : List MergedLine) : Prop where
  printed : ∃ before after, out = before ++ lineRows (lines.map MergedLine.cells) ++ after ∧
    before ++ after = rows.filter fun r => parseLineFieldName r.name = none
  cells : ∀ l ∈ lines, l.cells ≠ [] ∧ l.cells =
    unitCells toLower pages (engineCells rows l.engine) (answerCells ai l.answer)
  engine_order : (lines.filterMap MergedLine.engine).Pairwise (· < ·)
  engine_all : ∀ idx, idx ∈ lines.filterMap MergedLine.engine ↔ HasLine rows idx
  answer_once : (lines.filterMap MergedLine.answer).Pairwise (· < ·)
  answer_all : ∀ i ∈ lines.filterMap MergedLine.answer, i < ai.length
  kept : ∀ r ∈ rows, ∀ idx role, parseLineFieldName r.name = some (idx, role) →
    ∃ i l, lines[i]? = some l ∧ l.engine = some idx ∧ ∃ r' ∈ out,
      r'.name = lineFieldName (i + 1) role ∧ r'.value = r.value ∧ r'.region = r.region
  numbered : ∀ i < lines.length, ∃ r ∈ out, ∃ role ∈ lineRoles, r.name = lineFieldName (i + 1) role
  numbers : ∀ r ∈ out, (r ∈ rows ∧ parseLineFieldName r.name = none) ∨
    ∃ i < lines.length, ∃ role ∈ lineRoles, r.name = lineFieldName (i + 1) role

def lineOf (toLower : Char → Char) (rows : List FieldResult) (ai : List AILine)
    (pages : List TokenPage) (indexes : List ℕ) (u : AliLineUnit) : MergedLine :=
  let engine := u.key.bind fun k => indexes[k - 1]?
  let answer := u.answer.map fun a => a - 1
  { engine, answer
    cells := unitCells toLower pages (engineCells rows engine) (answerCells ai answer) }

theorem cellsAt_eq {rows : List FieldResult} {s : EngineRows} (h : s.Reads rows)
    (indexes : List ℕ) (u : AliLineUnit) :
    cellsAt s indexes u.keyPos = engineCells rows (u.key.bind fun k => indexes[k - 1]?) := by
  funext role
  unfold cellsAt AliLineUnit.key engineCells
  split
  · rfl
  · rw [Option.bind_some]
    cases indexes[u.keyPos - 1]? with
    | none => rfl
    | some idx => exact h.cells idx role

theorem LineCells.cell_empty (role : String) : ({} : LineCells).cell role = none := by
  unfold LineCells.cell
  split <;> rfl

theorem answerAt_eq (ai : List AILine) (u : AliLineUnit) :
    answerAt ai u.answerPos = answerCells ai (u.answer.map fun a => a - 1) := by
  funext role
  unfold answerAt AliLineUnit.answer answerCells
  split
  · rfl
  · cases hl : ai[u.answerPos - 1]? with
    | none =>
      rw [Option.map_some, Option.bind_some, hl]
      exact LineCells.cell_empty role
    | some l =>
      rw [Option.map_some, Option.bind_some, hl]
      rfl

theorem filterMap_getElem? {α : Type} (l : List α) :
    (aliSeq 1 l.length).filterMap (fun k => l[k - 1]?) = l := by
  have hrange : ∀ l : List α, (List.range l.length).filterMap (fun i => l[i]?) = l := by
    intro l
    induction l with
    | nil => rfl
    | cons a l ih =>
      have hfirst : (a :: l)[0]? = some a := rfl
      rw [List.length_cons, List.range_succ_eq_map, List.filterMap_cons_some hfirst,
        List.filterMap_map]
      exact congrArg (List.cons a) ih
  rw [aliSeq, Nat.add_sub_cancel, List.range'_eq_map_range, List.filterMap_map]
  refine Eq.trans (List.filterMap_congr fun i _ => ?_) (hrange l)
  simp

theorem unitCells_engine (toLower : Char → Char) (pages : List TokenPage)
    {engine : String → Option FieldResult} (aiCell : String → Option String) {role : String}
    (hrole : role ∈ lineRoles) {r : FieldResult} (hr : engine role = some r) :
    ∃ c, (role, c) ∈ unitCells toLower pages engine aiCell ∧ c.value = r.value ∧
      c.region = r.region := by
  obtain ⟨c, hc, hvalue, hregion⟩ := aliMergeCell_engine toLower role r (aiCell role) pages
  refine ⟨c, List.mem_filterMap.mpr ⟨role, hrole, ?_⟩, hvalue, hregion⟩
  rw [hr, hc]
  rfl

theorem role_of_mem_unitCells {toLower : Char → Char} {pages : List TokenPage}
    {engine : String → Option FieldResult} {aiCell : String → Option String}
    {c : String × FieldResult} (h : c ∈ unitCells toLower pages engine aiCell) :
    c.1 ∈ lineRoles := by
  obtain ⟨role, hrole, hc⟩ := List.mem_filterMap.mp h
  obtain ⟨_, _, rfl⟩ := Option.map_eq_some_iff.mp hc
  exact hrole

theorem cellOf_of_hasLine {rows : List FieldResult} {idx : ℕ} (h : HasLine rows idx) :
    ∃ role ∈ lineRoles, ∃ r, cellOf rows idx role = some r := by
  obtain ⟨r, hr, role, hparse⟩ := h
  cases hcell : cellOf rows idx role with
  | none =>
    have hnone := List.find?_eq_none.mp hcell r (List.mem_reverse.mpr hr)
    exact absurd (decide_eq_true hparse) hnone
  | some r' => exact ⟨role, parse_role hparse, r', hcell⟩

theorem liSortInts_spec {s : EngineRows} {rows : List FieldResult} (h : s.Reads rows) :
    (liSortInts s.engineIndexes).Pairwise (· < ·) ∧
      ∀ idx, idx ∈ liSortInts s.engineIndexes ↔ HasLine rows idx := by
  have hsorted : (liSortInts s.engineIndexes).Pairwise (· ≤ ·) := by
    have horder : IsOrder fun x y : ℕ => decide (x ≤ y) := isOrder_le
    exact (List.pairwise_mergeSort horder.trans horder.total s.engineIndexes).imp of_decide_eq_true
  have hnodup : (liSortInts s.engineIndexes).Nodup :=
    (List.mergeSort_perm _ _).nodup_iff.mpr h.nodup
  refine ⟨?_, fun idx => ?_⟩
  · exact (hsorted.and hnodup).imp fun h => lt_of_le_of_ne h.1 h.2
  · rw [liSortInts, List.mem_mergeSort, h.indexes]

theorem filterMap_filter_of {α β : Type} {f : α → Option β} {p : α → Bool} {l : List α}
    (h : ∀ x ∈ l, f x ≠ none → p x = true) : (l.filter p).filterMap f = l.filterMap f := by
  rw [List.filterMap_filter]
  refine List.filterMap_congr fun x hx => ?_
  split
  · rfl
  · by_contra hne
    exact ‹¬ p x = true› (h x hx (Ne.symm hne))

def printedLines (toLower : Char → Char) (rows : List FieldResult) (ai : List AILine)
    (pages : List TokenPage) (indexes : List ℕ) (units : List AliLineUnit) : List MergedLine :=
  (units.map (lineOf toLower rows ai pages indexes)).filter fun l => !l.cells.isEmpty

section
variable (toLower : Char → Char) {rows : List FieldResult} (ai : List AILine)
  (pages : List TokenPage) {s : EngineRows} (indexes : List ℕ) (units : List AliLineUnit)

theorem mergedUnits_eq (h : s.Reads rows) :
    mergedUnits toLower s indexes ai pages units =
      (printedLines toLower rows ai pages indexes units).map MergedLine.cells := by
  have hcells : ∀ u : AliLineUnit,
      unitCells toLower pages (cellsAt s indexes u.keyPos) (answerAt ai u.answerPos) =
        (lineOf toLower rows ai pages indexes u).cells := by
    intro u
    rw [cellsAt_eq h, answerAt_eq]
    rfl
  have hmap : (units.map fun u =>
      unitCells toLower pages (cellsAt s indexes u.keyPos) (answerAt ai u.answerPos)) =
        (units.map (lineOf toLower rows ai pages indexes)).map MergedLine.cells := by
    rw [List.map_map]
    exact List.map_congr_left fun u _ => hcells u
  rw [mergedUnits, hmap, List.filter_map]
  rfl

theorem printedLines_engine (hlines : ∀ idx ∈ indexes, HasLine rows idx)
    (hkeys : units.filterMap AliLineUnit.key = aliSeq 1 indexes.length) :
    (printedLines toLower rows ai pages indexes units).filterMap MergedLine.engine = indexes := by
  have hkept : ∀ l ∈ units.map (lineOf toLower rows ai pages indexes), l.engine ≠ none →
      (!l.cells.isEmpty) = true := by
    intro l hl hengine
    obtain ⟨u, _, rfl⟩ := List.mem_map.mp hl
    obtain ⟨idx, hidx⟩ := Option.ne_none_iff_exists'.mp hengine
    obtain ⟨k, _, hk⟩ := Option.bind_eq_some_iff.mp hidx
    obtain ⟨role, hrole, r, hr⟩ := cellOf_of_hasLine (hlines idx (List.mem_of_getElem? hk))
    have hcell : engineCells rows (lineOf toLower rows ai pages indexes u).engine role = some r := by
      rw [hidx]
      exact hr
    obtain ⟨c, hc, _⟩ := unitCells_engine toLower pages
      (answerCells ai (lineOf toLower rows ai pages indexes u).answer) hrole hcell
    rw [Bool.not_eq_true', List.isEmpty_eq_false_iff]
    exact List.ne_nil_of_mem hc
  calc (printedLines toLower rows ai pages indexes units).filterMap MergedLine.engine
      = (units.map (lineOf toLower rows ai pages indexes)).filterMap MergedLine.engine :=
        filterMap_filter_of hkept
    _ = (units.filterMap AliLineUnit.key).filterMap fun k => indexes[k - 1]? := by
        rw [List.filterMap_map, List.filterMap_filterMap]
        rfl
    _ = indexes := by rw [hkeys, filterMap_getElem?]

theorem printedLines_answer
    (hanswers : units.filterMap AliLineUnit.answer = aliSeq 1 ai.length) :
    ((printedLines toLower rows ai pages indexes units).filterMap MergedLine.answer).Sublist
      (List.range ai.length) := by
  have hall : (units.map (lineOf toLower rows ai pages indexes)).filterMap MergedLine.answer =
      List.range ai.length := by
    calc (units.map (lineOf toLower rows ai pages indexes)).filterMap MergedLine.answer
        = (units.filterMap AliLineUnit.answer).map fun a => a - 1 := by
          rw [List.filterMap_map, List.map_filterMap]
          rfl
      _ = List.range ai.length := by
          rw [hanswers, aliSeq, Nat.add_sub_cancel, List.range'_eq_map_range, List.map_map]
          refine (List.map_congr_left fun i _ => ?_).trans (List.map_id _)
          simp
  rw [← hall]
  exact List.filter_sublist.filterMap _

theorem mem_printedLines {l : MergedLine}
    (h : l ∈ printedLines toLower rows ai pages indexes units) :
    l.cells ≠ [] ∧ l.cells =
      unitCells toLower pages (engineCells rows l.engine) (answerCells ai l.answer) := by
  obtain ⟨hl, hcells⟩ := List.mem_filter.mp h
  obtain ⟨u, _, rfl⟩ := List.mem_map.mp hl
  rw [Bool.not_eq_true', List.isEmpty_eq_false_iff] at hcells
  exact ⟨hcells, rfl⟩

end

theorem keepsLines {toLower : Char → Char} {rows : List FieldResult} {ai : List AILine}
    {pages : List TokenPage} {lines : List MergedLine} {before after : List FieldResult}
    (hrows : LineRowsValued rows)
    (hparts : before ++ after = rows.filter fun r => parseLineFieldName r.name = none)
    (hcells : ∀ l ∈ lines, l.cells ≠ [] ∧ l.cells =
      unitCells toLower pages (engineCells rows l.engine) (answerCells ai l.answer))
    (horder : (lines.filterMap MergedLine.engine).Pairwise (· < ·))
    (hall : ∀ idx, idx ∈ lines.filterMap MergedLine.engine ↔ HasLine rows idx)
    (hanswer : (lines.filterMap MergedLine.answer).Sublist (List.range ai.length)) :
    KeepsLines toLower rows ai pages
      (before ++ lineRows (lines.map MergedLine.cells) ++ after) lines := by
  have hprinted : ∀ {i : ℕ} {l : MergedLine} {c : String × FieldResult}, lines[i]? = some l →
      c ∈ l.cells →
      renumber (i + 1) c ∈ before ++ lineRows (lines.map MergedLine.cells) ++ after := by
    intro i l c hl hc
    have hrow : renumber (i + 1) c ∈ lineRows (lines.map MergedLine.cells) :=
      mem_lineRows.mpr ⟨i, l.cells, by rw [List.getElem?_map, hl]; rfl, c, hc, rfl⟩
    exact List.mem_append_left _ (List.mem_append_right _ hrow)
  have hrole : ∀ {l : MergedLine} {c : String × FieldResult}, l ∈ lines → c ∈ l.cells →
      c.1 ∈ lineRoles := by
    intro l c hl hc
    rw [(hcells l hl).2] at hc
    exact role_of_mem_unitCells hc
  exact {
    printed := ⟨before, after, rfl, hparts⟩
    cells := hcells
    engine_order := horder
    engine_all := hall
    answer_once := List.pairwise_lt_range.sublist hanswer
    answer_all := fun i hi => List.mem_range.mp (hanswer.subset hi)
    kept := by
      intro r hr idx role hparse
      obtain ⟨l, hl, hidx⟩ := List.mem_filterMap.mp ((hall idx).mpr ⟨r, hr, role, hparse⟩)
      obtain ⟨i, hi⟩ := List.mem_iff_getElem?.mp hl
      have hcell : engineCells rows l.engine role = some r := by
        rw [hidx]
        exact hrows.cellOf_eq hr hparse
      obtain ⟨c, hc, hvalue, hregion⟩ := unitCells_engine toLower pages
        (answerCells ai l.answer) (parse_role hparse) hcell
      rw [← (hcells l hl).2] at hc
      exact ⟨i, l, hi, hidx, renumber (i + 1) (role, c), hprinted hi hc, rfl, hvalue, hregion⟩
    numbered := by
      intro i hi
      have hl : lines[i] ∈ lines := List.getElem_mem hi
      obtain ⟨c, hc⟩ := List.exists_mem_of_ne_nil _ (hcells _ hl).1
      exact ⟨_, hprinted (List.getElem?_eq_getElem hi) hc, c.1, hrole hl hc, rfl⟩
    numbers := by
      intro r hr
      have hother : ∀ r ∈ before ++ after, r ∈ rows ∧ parseLineFieldName r.name = none := by
        intro r hr
        rw [hparts] at hr
        exact ⟨List.mem_of_mem_filter hr, of_decide_eq_true (List.mem_filter.mp hr).2⟩
      rcases List.mem_append.mp hr with hr | hr
      · rcases List.mem_append.mp hr with hr | hr
        · exact .inl (hother r (List.mem_append_left after hr))
        · obtain ⟨i, cells, hi, c, hc, rfl⟩ := mem_lineRows.mp hr
          obtain ⟨l, hl, rfl⟩ := Option.map_eq_some_iff.mp (List.getElem?_map.symm.trans hi)
          have hlt : i < lines.length := (List.getElem?_eq_some_iff.mp hl).1
          exact .inr ⟨i, hlt, c.1, hrole (List.mem_of_getElem? hl) hc, rfl⟩
      · exact .inl (hother r (List.mem_append_right before hr)) }

theorem mergeAILines_keeps (toLower : Char → Char) {rows : List FieldResult} {ai : List AILine}
    (pages : List TokenPage) (hrows : LineRowsValued rows) (hai : ai ≠ []) :
    ∃ out lines, mergeAILines toLower rows ai pages = some out ∧
      KeepsLines toLower rows ai pages out lines := by
  have hreads := engineRows_reads rows
  obtain ⟨hsorted, hlines⟩ := liSortInts_spec hreads
  generalize hindexes : liSortInts (engineRows rows).engineIndexes = indexes at hsorted hlines
  have hvalued : ∀ idx role r,
      (((engineRows rows).engineByIndex idx).getD fun _ => none) role = some r →
        r.value ≠ none := by
    intro idx role r hr
    rw [hreads.cells] at hr
    obtain ⟨hmem, hparse⟩ := cellOf_spec hr
    exact hrows.valued r hmem (by rw [hparse]; nofun)
  obtain ⟨engineLines, hengineLines, hlength⟩ := mapM_some (l := indexes)
    fun idx _ => aliEngineDocLine_some idx (hvalued idx)
  let aiLines := ai.mapIdx fun i l => aliAIDocLine (i + 1) l
  have haiLines : aiLines.length = ai.length := List.length_mapIdx
  have hchain := aliAlign_chain toLower aiLines engineLines
  have hkeys := (printed_keys hchain).trans (congrArg (aliSeq 1) hlength)
  have hanswers := (printed_answers hchain).trans (congrArg (aliSeq 1) haiLines)
  let units := aliPrintedOrder (aliAlign toLower aiLines engineLines) aiLines.length
    engineLines.length
  let lines := printedLines toLower rows ai pages indexes units
  let insertAt := (engineRows rows).insertAt.getD (engineRows rows).nonLine.length
  refine ⟨(engineRows rows).nonLine.take insertAt ++ lineRows (lines.map MergedLine.cells) ++
    (engineRows rows).nonLine.drop insertAt, lines, ?_, ?_⟩
  · rw [mergeAILines, if_neg hai]
    simp only [hindexes, hengineLines, Option.bind_eq_bind, Option.bind_some,
      mergedUnits_eq toLower ai pages indexes _ hreads]
    rfl
  · refine keepsLines hrows ?_ (fun l hl => mem_printedLines toLower ai pages indexes units hl)
      ?_ ?_ (printedLines_answer toLower ai pages indexes units hanswers)
    · rw [List.take_append_drop, hreads.nonLine]
    · rw [printedLines_engine toLower ai pages indexes units (fun idx h => (hlines idx).mp h) hkeys]
      exact hsorted
    · rw [printedLines_engine toLower ai pages indexes units (fun idx h => (hlines idx).mp h) hkeys]
      exact hlines

/-- The alignment invents and loses nothing, the printed order has every line of both sides once
and in its order, and the merge keeps every cell of the engine's under numbers without a hole. -/
theorem line_alignment (toLower : Char → Char) :
    (∀ answer key, AlignsRows toLower answer key (aliAlign toLower answer key)) ∧
    (∀ answer key,
      let a := aliAlign toLower answer key
      let units := aliPrintedOrder a answer.length key.length
      units.filterMap AliLineUnit.answer = aliSeq 1 answer.length ∧
        units.filterMap AliLineUnit.key = aliSeq 1 key.length ∧
        ∀ p ∈ a.pairs, unitOf p ∈ units) ∧
    (∀ rows pages, mergeAILines toLower rows [] pages = some rows) ∧
    ∀ rows ai pages, LineRowsValued rows → ai ≠ [] →
      ∃ out lines, mergeAILines toLower rows ai pages = some out ∧
        KeepsLines toLower rows ai pages out lines := by
  refine ⟨aliAlign_alignsRows toLower, fun answer key => ?_, fun _ _ => rfl,
    fun rows ai pages hrows hai => mergeAILines_keeps toLower pages hrows hai⟩
  have hchain := aliAlign_chain toLower answer key
  exact ⟨printed_answers hchain, printed_keys hchain, fun p hp => printed_pairs hp⟩

def readRows : List FieldResult :=
  [{ name := "total", value := some "700.00" },
    { name := "line_items[2].line_total", value := some "200.00" },
    { name := "line_items[1].description", value := some "Rice" },
    { name := "line_items[1].line_total", value := some "500.00" }]

theorem line_alignment_sample :
    ∃ out lines,
      mergeAILines Char.toLower readRows [{ description := some "rice" }] [] = some out ∧
        KeepsLines Char.toLower readRows [{ description := some "rice" }] [] out lines :=
  (line_alignment Char.toLower).2.2.2 readRows [{ description := some "rice" }] []
    ⟨by decide +kernel, by decide +kernel⟩ (by nofun)

end InvoiceOs.Extraction
