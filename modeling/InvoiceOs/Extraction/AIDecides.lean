import InvoiceOs.Extraction.ResultRows

/-! Both answers merged into the engine's rows: they raise doubts and fill gaps, and what is left
decided the engine decided too or the page has printed. -/

namespace InvoiceOs.Extraction

open Lib

/-- The engine's rows with the header answer merged in, and the lines' after it; nothing where a
nil value is dereferenced. -/
def mergeAnswers (R : AIRuntime) (D : Decimals) (toLower : Char → Char) (input : Input)
    (answer : String → Option String) (ai : List AILine) : Option (List FieldResult) :=
  (mergeAI R D (reconcile D toLower input) answer input.pages input.lines).bind fun merged =>
    mergeAILines toLower merged ai input.pages

inductive RestsOn (R : AIRuntime) (toLower : Char → Char) (pages : List TokenPage)
    (engine : List FieldResult) (ai : List AILine) (r : FieldResult) : Prop
  | engine (e : FieldResult) (he : e ∈ engine) (hreason : e.reason = none)
      (hvalue : e.value = r.value)
      (hname : e.name = r.name ∨ ∃ n m role,
        parseLineFieldName e.name = some (n, role) ∧ r.name = lineFieldName m role)
  | page (value : String) (region : Option Region) (hname : r.name ∈ headerFields)
      (hvalue : r.value = some value) (hprinted : Printed R pages r.name value region)
  | cell (l : AILine) (hl : l ∈ ai) (n : ℕ) (role raw written : String)
      (hname : r.name = lineFieldName n role) (hraw : l.cell role = some raw)
      (hwritten : aliWriteValue role raw = some written) (hvalue : r.value = some written)
      (hpresent : aliLinePresent toLower role raw pages = true)

variable {R : AIRuntime} {D : Decimals} {toLower : Char → Char} {answer : String → Option String}
  {pages : List TokenPage}

/-! ### The header's answer -/

theorem AIWeighed.eq_of_other {e m : FieldResult} (h : AIWeighed R answer pages e m)
    (hname : e.name ∉ headerFields) : m = e := by
  cases h with
  | kept => rfl
  | doubted _ _ h => exact absurd h hname
  | joined _ _ h => exact absurd h hname
  | chosen _ _ _ _ _ h => exact absurd h hname
  | found _ _ _ h => exact absurd h hname
  | unread _ _ h => exact absurd h hname

theorem AIWeighed.restsOn {engine : List FieldResult} {ai : List AILine} {e m : FieldResult}
    (he : e ∈ engine) (h : AIWeighed R answer pages e m) (hclean : m.reason = none) :
    RestsOn R toLower pages engine ai m := by
  cases h with
  | kept => exact .engine e he hclean rfl (.inl rfl)
  | doubted => cases hclean
  | joined got hreason =>
    rw [show e.reason = none from hclean] at hreason
    cases hreason
  | chosen got r read reason hreason hname hr hread hsame hprinted =>
    exact .page got.value got.region hname rfl hprinted
  | found got reason hreason hname hprinted =>
    exact .page got.value got.region hname rfl hprinted
  | unread => cases hclean

theorem mergeAI_unanswered {engine : List FieldResult} (lines : List DocLine)
    (h : ∀ e ∈ engine, answered answer e.name = none) :
    mergeAI R D engine answer pages lines = some engine := by
  obtain ⟨rows, hrows, hsame⟩ := mapM_forall₂ (f := mergeRow R answer pages)
    (Q := fun e row => row = (e, false)) fun e he => ⟨_, mergeRow_unanswered (h e he), rfl⟩
  have hkept : List.Forall₂ Eq (engine.map fun e => (e, false)) rows :=
    List.forall₂_map_left_iff.mpr (hsame.imp fun _ _ hrow => hrow.symm)
  rw [List.forall₂_eq_eq_eq] at hkept
  rw [mergeAI, hrows, Option.map_some, ← hkept, checkMergedAmounts_eq, List.map_map]
  congr 1
  calc engine.map (flagged D lines _ ∘ fun e => (e, false)) = engine.map id :=
        List.map_congr_left fun e _ => by
          rw [Function.comp_apply, flagged, Bool.false_and, Bool.false_and, if_neg Bool.false_ne_true,
            if_neg Bool.false_ne_true]
          rfl
    _ = engine := List.map_id engine

/-! ### The rows between the merges -/

theorem CellRow.line {lines : List DocLine} {r : FieldResult} (h : CellRow lines r)
    (hlines : Numbered lines) : parseLineFieldName r.name ≠ none ∧ r.value ≠ none := by
  obtain ⟨l, hl, role, hrole, hname, hvalue, hcell⟩ := h.cell
  obtain ⟨hpos, hlt⟩ := hlines.bounds hl
  rw [hname, parse_lineFieldName hpos hlt hrole, hvalue]
  exact ⟨Option.some_ne_none _, hcell⟩

theorem keys_weighed {engine merged : List FieldResult}
    (h : List.Forall₂ (AIWeighed R answer pages) engine merged) :
    merged.filterMap (fun r => parseLineFieldName r.name) =
      engine.filterMap fun r => parseLineFieldName r.name := by
  induction h with
  | nil => rfl
  | cons hrow _ ih => rw [List.filterMap_cons, List.filterMap_cons, hrow.name, ih]

section
variable {input : Input} {merged : List FieldResult}

theorem judged_reconcile (hlines : Numbered input.lines) :
    ∀ e ∈ reconcile D toLower input, e.name ∈ headerFields → Judged e := by
  obtain ⟨header, block, cells, hrows, hstage⟩ := reconcile_rows D toLower input
  rw [hrows]
  intro e he hname
  rcases List.mem_append.mp he with he | he
  · exact (hstage.header_rows e he).2
  rcases List.mem_cons.mp he with rfl | he
  · rw [hstage.block_name] at hname
    exact absurd hname (by decide +kernel)
  · exact absurd (parse_headerField hname) ((hstage.cell_rows e he).line hlines).1

theorem line_of_merged (h : List.Forall₂ (AIWeighed R answer pages) (reconcile D toLower input) merged)
    {m : FieldResult} (hm : m ∈ merged) (hline : parseLineFieldName m.name ≠ none) :
    m ∈ reconcile D toLower input := by
  obtain ⟨e, he, hweighed⟩ := forall₂_mem_right h hm
  have hother : e.name ∉ headerFields := by
    intro hname
    rw [← hweighed.name] at hname
    exact hline (parse_headerField hname)
  rwa [hweighed.eq_of_other hother]

theorem lineRowsValued_merged (hlines : Numbered input.lines)
    (h : List.Forall₂ (AIWeighed R answer pages) (reconcile D toLower input) merged) :
    LineRowsValued merged := by
  obtain ⟨header, block, cells, hrows, hstage⟩ := reconcile_rows D toLower input
  refine ⟨fun m hm hline => ?_, ?_⟩
  · have he := line_of_merged h hm hline
    rw [hrows] at he
    rcases List.mem_append.mp he with he | he
    · exact absurd (parse_headerField (hstage.header_rows m he).1) hline
    rcases List.mem_cons.mp he with rfl | he
    · rw [hstage.block_name] at hline
      exact absurd parse_block hline
    · exact ((hstage.cell_rows m he).line hlines).2
  · rw [keys_weighed h, hrows, hstage.keys hlines]
    exact nodup_cellKeys hlines

end

/-! ### The lines' answer -/

theorem aliMergeCell_clean {role : String} {engine : Option FieldResult} {aiRaw : Option String}
    {row : FieldResult} (h : aliMergeCell toLower role engine aiRaw pages = some row)
    (hclean : row.reason = none) :
    engine = some row ∨ ∃ raw written, aiRaw = some raw ∧ aliWriteValue role raw = some written ∧
      row.value = some written ∧ aliLinePresent toLower role raw pages = true := by
  unfold aliMergeCell at h
  dsimp only at h
  generalize hanswered : aiRaw.filter _ = answered at h
  cases engine with
  | some e =>
    cases answered with
    | none => exact .inl h
    | some raw =>
      dsimp only at h
      split at h
      · exact .inl h
      split at h
      · exact .inl h
      split at h
      · exact .inl h
      -- beside an engine's cell the answer can only raise a doubt
      · cases h
        cases hclean
  | none =>
    cases answered with
    | none => cases h
    | some raw =>
      dsimp only at h
      split at h
      · cases h
      split at h
      · cases h
      rename_i hpresent
      obtain ⟨written, hwritten, rfl⟩ := Option.map_eq_some_iff.mp h
      refine .inr ⟨raw, written, (Option.filter_eq_some_iff.mp hanswered).1, hwritten, rfl, ?_⟩
      simpa using hpresent

theorem restsOn_line {input : Input} {merged : List FieldResult} {ai : List AILine}
    (hweighed : List.Forall₂ (AIWeighed R answer pages) (reconcile D toLower input) merged)
    {engine answer : Option ℕ} {n : ℕ} {c : String × FieldResult}
    (hc : c ∈ unitCells toLower pages (engineCells merged engine) (answerCells ai answer))
    (hclean : (renumber n c).reason = none) :
    RestsOn R toLower pages (reconcile D toLower input) ai (renumber n c) := by
  obtain ⟨role, -, hcell⟩ := List.mem_filterMap.mp hc
  obtain ⟨row, hrow, rfl⟩ := Option.map_eq_some_iff.mp hcell
  rcases aliMergeCell_clean hrow hclean with hengine | ⟨raw, written, hraw, hwritten, hvalue, hpresent⟩
  · obtain ⟨idx, -, hidx⟩ := Option.bind_eq_some_iff.mp hengine
    obtain ⟨hmem, hparse⟩ := cellOf_spec hidx
    have he := line_of_merged hweighed hmem (by rw [hparse]; exact Option.some_ne_none _)
    exact .engine row he hclean rfl (.inr ⟨idx, n, role, hparse, rfl⟩)
  · obtain ⟨i, -, hi⟩ := Option.bind_eq_some_iff.mp hraw
    obtain ⟨l, hl, hlcell⟩ := Option.bind_eq_some_iff.mp hi
    exact .cell l (List.mem_of_getElem? hl) n role raw written rfl hlcell hwritten hvalue hpresent

/-! ### Both -/

structure NeverAlone (R : AIRuntime) (D : Decimals) (toLower : Char → Char) (input : Input)
    (answer : String → Option String) (ai : List AILine) (merged out : List FieldResult) :
    Prop where
  weighed : List.Forall₂ (AIWeighed R answer input.pages) (reconcile D toLower input) merged
  adds_up : ∀ m ∈ merged, m ∉ reconcile D toLower input → m.reason = none →
    AddsUp D input.lines merged m
  unanswered : (∀ name, answered answer name = none) → merged = reconcile D toLower input
  no_lines : ai = [] → out = merged
  lines : ai ≠ [] → ∃ lines, KeepsLines toLower merged ai input.pages out lines
  rests : ∀ r ∈ out, r.reason = none →
    RestsOn R toLower input.pages (reconcile D toLower input) ai r

theorem restsOn_merged {input : Input} {merged : List FieldResult} (ai : List AILine)
    (hweighed : List.Forall₂ (AIWeighed R answer pages) (reconcile D toLower input) merged)
    {r : FieldResult} (hr : r ∈ merged) (hclean : r.reason = none) :
    RestsOn R toLower pages (reconcile D toLower input) ai r := by
  obtain ⟨e, he, h⟩ := forall₂_mem_right hweighed hr
  exact h.restsOn he hclean

theorem restsOn_out {input : Input} {merged out : List FieldResult} {ai : List AILine}
    {lines : List MergedLine}
    (hweighed : List.Forall₂ (AIWeighed R answer pages) (reconcile D toLower input) merged)
    (hkeeps : KeepsLines toLower merged ai pages out lines) {r : FieldResult} (hr : r ∈ out)
    (hclean : r.reason = none) : RestsOn R toLower pages (reconcile D toLower input) ai r := by
  obtain ⟨before, after, hout, hother⟩ := hkeeps.printed
  -- what is no line's row the second merge hands on
  have hmerged : ∀ r ∈ before ++ after, r ∈ merged := by
    rw [hother]
    exact fun _ => List.mem_of_mem_filter
  rw [hout] at hr
  rcases List.mem_append.mp hr with hr | hr
  · rcases List.mem_append.mp hr with hr | hr
    · exact restsOn_merged ai hweighed (hmerged r (List.mem_append_left after hr)) hclean
    · obtain ⟨i, cells, hi, c, hc, rfl⟩ := mem_lineRows.mp hr
      obtain ⟨l, hl, rfl⟩ := Option.map_eq_some_iff.mp (List.getElem?_map.symm.trans hi)
      rw [(hkeeps.cells l (List.mem_of_getElem? hl)).2] at hc
      exact restsOn_line hweighed hc hclean
  · exact restsOn_merged ai hweighed (hmerged r (List.mem_append_right before hr)) hclean

/-- On rows numbered as the table reader numbers them both merges return, and no answer decides a
value the engine did not decide or a page does not have. -/
theorem ai_never_decides_alone (R : AIRuntime) (D : Decimals) (toLower : Char → Char)
    (input : Input) (hlines : Numbered input.lines) (answer : String → Option String)
    (ai : List AILine) :
    ∃ merged out, mergeAI R D (reconcile D toLower input) answer input.pages input.lines =
        some merged ∧
      mergeAnswers R D toLower input answer ai = some out ∧
      NeverAlone R D toLower input answer ai merged out := by
  obtain ⟨merged, hmerged, hweighed, hadds⟩ := @mergeAI_weighs R D answer input.pages
    (reconcile D toLower input) input.lines (judged_reconcile hlines)
  have hunanswered : (∀ name, answered answer name = none) → merged = reconcile D toLower input := by
    intro hnone
    have hsame : mergeAI R D (reconcile D toLower input) answer input.pages input.lines =
        some (reconcile D toLower input) := mergeAI_unanswered input.lines fun e _ => hnone e.name
    exact Option.some.inj (hmerged.symm.trans hsame)
  by_cases hai : ai = []
  · refine ⟨merged, merged, hmerged, ?_, hweighed, hadds, hunanswered, fun _ => rfl,
      fun hne => absurd hai hne, fun r hr => restsOn_merged ai hweighed hr⟩
    rw [mergeAnswers, hmerged, Option.bind_some, mergeAILines, if_pos hai]
  · obtain ⟨out, lines, hout, hkeeps⟩ := mergeAILines_keeps toLower input.pages
      (lineRowsValued_merged hlines hweighed) hai
    refine ⟨merged, out, hmerged, ?_, hweighed, hadds, hunanswered, fun hnil => absurd hnil hai,
      fun _ => ⟨lines, hkeeps⟩, fun r hr => restsOn_out hweighed hkeeps hr⟩
    rw [mergeAnswers, hmerged, Option.bind_some, hout]

def labelClasses : AIRuntime where
  toRuntime := threeLabels
  findAllStringIndex pattern text := (threeLabels.mustCompile pattern text).toList
  isDigit := Char.isDigit

def oneLineInput : Input where
  candidates := resolve threeLabels [totalPage 1 "Total: 100.00"] ⟨[], tier1Rules threeLabels⟩
  lines := [{ index := 1, lineTotal := some "100.00" }]
  entity := {}
  pages := [totalPage 1 "Total: 100.00"]

theorem ai_never_decides_alone_sample :
    ∃ merged out, mergeAI labelClasses plainDecimals
        (reconcile plainDecimals Char.toLower oneLineInput)
        (fun name => if name = "total" then some "120.00" else none) oneLineInput.pages
        oneLineInput.lines = some merged ∧
      mergeAnswers labelClasses plainDecimals Char.toLower oneLineInput
        (fun name => if name = "total" then some "120.00" else none)
        [{ description := some "Rice" }] = some out ∧
      NeverAlone labelClasses plainDecimals Char.toLower oneLineInput
        (fun name => if name = "total" then some "120.00" else none)
        [{ description := some "Rice" }] merged out :=
  ai_never_decides_alone labelClasses plainDecimals Char.toLower oneLineInput
    ⟨rfl, by decide⟩ _ _

end InvoiceOs.Extraction
