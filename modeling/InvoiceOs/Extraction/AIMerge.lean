import InvoiceOs.Extraction.AIReading
import InvoiceOs.Lib.Each

/-! The engine's header rows and the checked AI answer, decided field by field. -/

namespace InvoiceOs.Extraction

open Lib

/-- The first reading that is the value, blanks apart; nothing where a nil value is dereferenced
on the way. -/
def matchReading (value : String) : List Field → Option (Option Field)
  | [] => some none
  | r :: rest => do
    let read ← r.value
    if collapse read = collapse value then some (some r) else matchReading value rest

def AIReading.field (got : AIReading) (name : String) : Field :=
  { name, value := some got.value, region := got.region }

def unreadableRow (name raw : String) : FieldResult where
  name
  reason := some .unreadable
  alternatives := [{ name, value := some (trimSpace raw) }]

def mergeField (e : FieldResult) (raw : String) (got : Option AIReading) :
    Option (FieldResult × Bool) :=
  match e.reason, got with
  | none, some got => do
    let value ← e.value
    if collapse value = collapse got.value then some (e, false)
    else some ({ e with reason := some .ambiguous, alternatives := [got.field e.name] }, false)
  | some .ambiguous, some got => do
    let readings := e.toField :: e.alternatives
    match ← matchReading got.value readings with
    | some r => some ({ name := e.name, value := some got.value, region := r.region }, true)
    | none =>
      -- full: no room for a ninth reading
      if maxCandidatesPerField ≤ readings.length then some (e, false)
      else some ({ e with alternatives := e.alternatives ++ [got.field e.name] }, false)
  | some .missing, some got => some ({ toField := got.field e.name }, true)
  | some .missing, none => some (unreadableRow e.name raw, false)
  | _, _ => some (e, false)

section
variable (R : AIRuntime) (D : Decimals)

def answered (answer : String → Option String) (name : String) : Option String :=
  if name ∈ headerFields then (answer name).filter fun raw => trimSpace raw ≠ "" else none

def mergeRow (answer : String → Option String) (pages : List TokenPage) (e : FieldResult) :
    Option (FieldResult × Bool) :=
  match answered answer e.name with
  | none => some (e, false)
  | some raw => mergeField e raw (checkAI R e.name raw pages)

def inconsistent (r : FieldResult) : FieldResult := { r with reason := some .inconsistent }

def checkMergedSubtotal (lines : List DocLine) (r : FieldResult) : FieldResult :=
  match parseMoney D r.value with
  | none => r
  | some A =>
    if !(lineTotals D lines).isEmpty && exceedsTolerance D |(lineTotals D lines).sum - A|
    then inconsistent r else r

def checkMergedTotal (out : List FieldResult) (r : FieldResult) : FieldResult :=
  match parseMoney D r.value, wantedTotal D out with
  | some A, some want => if exceedsTolerance D |want - A| then inconsistent r else r
  | _, _ => r

def checkMergedSubtotals (lines : List DocLine) (rows : List (FieldResult × Bool)) :
    List (FieldResult × Bool) :=
  rows.map fun (r, moved) =>
    (if moved && r.name = "subtotal" then checkMergedSubtotal D lines r else r, moved)

/-- The arithmetic over what the merge decided itself: the subtotals, then the totals. A total's
flag bears on no other check. -/
def checkMergedAmounts (lines : List DocLine) (rows : List (FieldResult × Bool)) :
    List FieldResult :=
  let out := checkMergedSubtotals D lines rows
  out.map fun (r, moved) =>
    if moved && r.name = totalField then checkMergedTotal D (out.map Prod.fst) r else r

/-- Nothing where a nil value is dereferenced. -/
def mergeAI (engine : List FieldResult) (answer : String → Option String)
    (pages : List TokenPage) (lines : List DocLine) : Option (List FieldResult) :=
  (engine.mapM (mergeRow R answer pages)).map (checkMergedAmounts D lines)

end

/-! ### What a row can become -/

structure Judged (r : FieldResult) : Prop where
  missing : r.reason = some .missing → r.value = none ∧ r.alternatives = []
  valued : r.reason ≠ some .missing → r.value ≠ none ∧ ∀ f ∈ r.alternatives, f.value ≠ none
  clean : r.reason = none → r.alternatives = []
  words : r.reason = none ∨ r.reason = some .missing ∨ r.reason = some .ambiguous ∨
    r.reason = some .inconsistent

inductive AIWeighed (R : AIRuntime) (answer : String → Option String) (pages : List TokenPage)
    (e : FieldResult) : FieldResult → Prop
  | kept : AIWeighed R answer pages e e
  | doubted (got : AIReading) (hreason : e.reason = none) (hname : e.name ∈ headerFields)
      (hprinted : Printed R pages e.name got.value got.region) :
      AIWeighed R answer pages e
        { e with reason := some .ambiguous, alternatives := [got.field e.name] }
  | joined (got : AIReading) (hreason : e.reason = some .ambiguous) (hname : e.name ∈ headerFields)
      (hroom : e.alternatives.length + 1 < maxCandidatesPerField)
      (hprinted : Printed R pages e.name got.value got.region) :
      AIWeighed R answer pages e
        { e with alternatives := e.alternatives ++ [got.field e.name] }
  | chosen (got : AIReading) (r : Field) (read : String) (reason : Option Reason)
      (hreason : e.reason = some .ambiguous) (hname : e.name ∈ headerFields)
      (hr : r ∈ e.toField :: e.alternatives) (hread : r.value = some read)
      (hsame : collapse read = collapse got.value)
      (hprinted : Printed R pages e.name got.value got.region)
      (hsums : reason = none ∨ reason = some .inconsistent) :
      AIWeighed R answer pages e
        { name := e.name, value := some got.value, region := r.region, reason }
  | found (got : AIReading) (reason : Option Reason) (hreason : e.reason = some .missing)
      (hname : e.name ∈ headerFields)
      (hprinted : Printed R pages e.name got.value got.region)
      (hsums : reason = none ∨ reason = some .inconsistent) :
      AIWeighed R answer pages e
        { name := e.name, value := some got.value, region := got.region, reason }
  | unread (raw : String) (hreason : e.reason = some .missing) (hname : e.name ∈ headerFields)
      (hraw : answer e.name = some raw) :
      AIWeighed R answer pages e (unreadableRow e.name raw)

variable {R : AIRuntime} {D : Decimals} {answer : String → Option String} {pages : List TokenPage}

theorem AIWeighed.name {e m : FieldResult} (h : AIWeighed R answer pages e m) : m.name = e.name := by
  cases h <;> rfl

theorem matchReading_some (value : String) {readings : List Field}
    (h : ∀ r ∈ readings, r.value ≠ none) : ∃ found, matchReading value readings = some found ∧
      ∀ r, found = some r → r ∈ readings ∧
        ∃ read, r.value = some read ∧ collapse read = collapse value := by
  induction readings with
  | nil => exact ⟨none, rfl, by nofun⟩
  | cons r rest ih =>
    obtain ⟨read, hread⟩ := Option.ne_none_iff_exists'.mp (h r List.mem_cons_self)
    rw [matchReading, hread, Option.bind_eq_bind, Option.bind_some]
    split
    · rename_i hsame
      refine ⟨some r, rfl, ?_⟩
      rintro r' ⟨⟩
      exact ⟨List.mem_cons_self, read, hread, hsame⟩
    · obtain ⟨found, hfound, hspec⟩ := ih fun r' hr' => h r' (List.mem_cons_of_mem r hr')
      refine ⟨found, hfound, fun r' hr' => ?_⟩
      exact ⟨List.mem_cons_of_mem r (hspec r' hr').1, (hspec r' hr').2⟩

def Weighs (R : AIRuntime) (answer : String → Option String) (pages : List TokenPage)
    (e : FieldResult) (row : FieldResult × Bool) : Prop :=
  AIWeighed R answer pages e row.1 ∧
    if row.2 then AIWeighed R answer pages e (inconsistent row.1)
    else row.1 = e ∨ row.1.reason ≠ none

theorem weighs_kept (e : FieldResult) : Weighs R answer pages e (e, false) :=
  ⟨.kept, .inl rfl⟩

theorem weighs_unmoved {e m : FieldResult} (h : AIWeighed R answer pages e m)
    (hreason : m.reason ≠ none) : Weighs R answer pages e (m, false) :=
  ⟨h, .inr hreason⟩

theorem mergeField_none {e : FieldResult} {raw : String} (hjudged : Judged e)
    (hname : e.name ∈ headerFields) (hraw : answer e.name = some raw) :
    ∃ row, mergeField e raw none = some row ∧ Weighs R answer pages e row := by
  rcases hjudged.words with hreason | hreason | hreason | hreason
  · exact ⟨_, by simp only [mergeField, hreason], weighs_kept e⟩
  · refine ⟨(unreadableRow e.name raw, false), by simp only [mergeField, hreason], ?_⟩
    exact weighs_unmoved (.unread raw hreason hname hraw) (Option.some_ne_none _)
  · exact ⟨_, by simp only [mergeField, hreason], weighs_kept e⟩
  · exact ⟨_, by simp only [mergeField, hreason], weighs_kept e⟩

theorem mergeField_ambiguous {e : FieldResult} {raw : String} {got : AIReading}
    (hjudged : Judged e) (hname : e.name ∈ headerFields) (hreason : e.reason = some .ambiguous)
    (hprinted : Printed R pages e.name got.value got.region) :
    ∃ row, mergeField e raw (some got) = some row ∧ Weighs R answer pages e row := by
  -- with a value in every reading the search reads no nil
  have hvalued : ∀ r ∈ e.toField :: e.alternatives, r.value ≠ none := by
    obtain ⟨hvalue, halts⟩ := hjudged.valued (by rw [hreason]; nofun)
    exact List.forall_mem_cons.mpr ⟨hvalue, halts⟩
  obtain ⟨found, hfound, hspec⟩ := matchReading_some got.value hvalued
  simp only [mergeField, hreason, hfound, Option.bind_eq_bind, Option.bind_some]
  cases found with
  | some r =>
    obtain ⟨hr, read, hread, hsame⟩ := hspec r rfl
    have hchosen : ∀ reason, reason = none ∨ reason = some .inconsistent →
        AIWeighed R answer pages e
          { name := e.name, value := some got.value, region := r.region, reason } :=
      fun reason => .chosen got r read reason hreason hname hr hread hsame hprinted
    exact ⟨_, rfl, hchosen none (.inl rfl), hchosen (some .inconsistent) (.inr rfl)⟩
  | none =>
    dsimp only
    split
    · exact ⟨_, rfl, weighs_kept e⟩
    · rename_i hroom
      refine ⟨_, rfl, weighs_unmoved ?_ ?_⟩
      · exact .joined got hreason hname (Nat.not_le.mp hroom) hprinted
      · rw [hreason]
        exact Option.some_ne_none _

theorem mergeField_some {e : FieldResult} {raw : String} {got : AIReading} (hjudged : Judged e)
    (hname : e.name ∈ headerFields) (hprinted : Printed R pages e.name got.value got.region) :
    ∃ row, mergeField e raw (some got) = some row ∧ Weighs R answer pages e row := by
  rcases hjudged.words with hreason | hreason | hreason | hreason
  · obtain ⟨value, hvalue⟩ := Option.ne_none_iff_exists'.mp
      (hjudged.valued (by rw [hreason]; nofun)).1
    simp only [mergeField, hreason, hvalue, Option.bind_eq_bind, Option.bind_some]
    split
    · exact ⟨_, rfl, weighs_kept e⟩
    · refine ⟨_, rfl, weighs_unmoved ?_ (Option.some_ne_none _)⟩
      exact hvalue ▸ .doubted got hreason hname hprinted
  · have hfound : ∀ reason, reason = none ∨ reason = some .inconsistent →
        AIWeighed R answer pages e
          { name := e.name, value := some got.value, region := got.region, reason } :=
      fun reason => .found got reason hreason hname hprinted
    refine ⟨({ toField := got.field e.name }, true), by simp only [mergeField, hreason], ?_⟩
    exact ⟨hfound none (.inl rfl), hfound (some .inconsistent) (.inr rfl)⟩
  · exact mergeField_ambiguous hjudged hname hreason hprinted
  · exact ⟨_, by simp only [mergeField, hreason], weighs_kept e⟩

theorem mergeRow_weighs {e : FieldResult} (hjudged : e.name ∈ headerFields → Judged e) :
    ∃ row, mergeRow R answer pages e = some row ∧ Weighs R answer pages e row := by
  unfold mergeRow
  cases hanswered : answered answer e.name with
  | none => exact ⟨_, rfl, weighs_kept e⟩
  | some raw =>
    obtain ⟨hname, hraw⟩ : e.name ∈ headerFields ∧ answer e.name = some raw := by
      unfold answered at hanswered
      split at hanswered
      · exact ⟨‹_›, (Option.filter_eq_some_iff.mp hanswered).1⟩
      · cases hanswered
    dsimp only
    cases hgot : checkAI R e.name raw pages with
    | none => exact mergeField_none (hjudged hname) hname hraw
    | some got => exact mergeField_some (hjudged hname) hname (printed_of_checkAI hgot)

theorem mergeRow_unanswered {e : FieldResult} (h : answered answer e.name = none) :
    mergeRow R answer pages e = some (e, false) := by
  rw [mergeRow, h]

/-! ### The arithmetic over it -/

theorem checkMergedSubtotal_cases (lines : List DocLine) (r : FieldResult) :
    checkMergedSubtotal D lines r = inconsistent r ∨ checkMergedSubtotal D lines r = r ∧
      ∀ A, parseMoney D r.value = some A → lineTotals D lines ≠ [] →
        exceedsTolerance D |(lineTotals D lines).sum - A| = false := by
  unfold checkMergedSubtotal
  cases hA : parseMoney D r.value with
  | none => exact .inr ⟨rfl, by nofun⟩
  | some A =>
    dsimp only
    split
    · exact .inl rfl
    · rename_i hfits
      refine .inr ⟨rfl, ?_⟩
      rintro A ⟨⟩ hlines
      have hsome : (lineTotals D lines).isEmpty = false := List.isEmpty_eq_false_iff.mpr hlines
      simpa [hsome] using hfits

theorem checkMergedTotal_cases (out : List FieldResult) (r : FieldResult) :
    checkMergedTotal D out r = inconsistent r ∨ checkMergedTotal D out r = r ∧
      ∀ A want, parseMoney D r.value = some A → wantedTotal D out = some want →
        exceedsTolerance D |want - A| = false := by
  unfold checkMergedTotal
  split
  · rename_i A want hA hwant
    split
    · exact .inl rfl
    · rename_i hfits
      refine .inr ⟨rfl, ?_⟩
      rw [hA, hwant]
      rintro A want ⟨⟩ ⟨⟩
      exact Bool.eq_false_iff.mpr hfits
  · rename_i hnone
    exact .inr ⟨rfl, fun A want hA hwant => (hnone A want hA hwant).elim⟩

theorem decidedMoney_congr {n : String} (hn : n ≠ totalField) {out out' : List FieldResult}
    (h : List.Forall₂ (fun r r' => r' = r ∨ r.name = totalField ∧ r'.name = totalField) out out') :
    decidedMoney D out' n = decidedMoney D out n := by
  unfold decidedMoney
  congr 1
  induction h with
  | nil => rfl
  | cons hrow _ ih =>
    rcases hrow with rfl | ⟨hname, hname'⟩
    · rw [List.find?_cons, List.find?_cons, ih]
    · rw [List.find?_cons_of_neg (by rw [hname']; simpa using Ne.symm hn),
        List.find?_cons_of_neg (by rw [hname]; simpa using Ne.symm hn), ih]

structure AddsUp (D : Decimals) (lines : List DocLine) (out : List FieldResult) (r : FieldResult) :
    Prop where
  subtotal : r.name = "subtotal" → ∀ A, parseMoney D r.value = some A → lineTotals D lines ≠ [] →
    exceedsTolerance D |(lineTotals D lines).sum - A| = false
  total : r.name = totalField → ∀ A want, parseMoney D r.value = some A →
    wantedTotal D out = some want → exceedsTolerance D |want - A| = false

def flagged (D : Decimals) (lines : List DocLine) (out : List FieldResult)
    (row : FieldResult × Bool) : FieldResult :=
  if row.2 && row.1.name = "subtotal" then checkMergedSubtotal D lines row.1
  else if row.2 && row.1.name = totalField then checkMergedTotal D out row.1
  else row.1

theorem flagged_cases (lines : List DocLine) (out : List FieldResult) (row : FieldResult × Bool) :
    flagged D lines out row = row.1 ∨ row.2 = true ∧ flagged D lines out row = inconsistent row.1 := by
  unfold flagged
  split
  · rename_i hsub
    rcases checkMergedSubtotal_cases (D := D) lines row.1 with h | ⟨h, -⟩
    · exact .inr ⟨(Bool.and_eq_true_iff.mp hsub).1, h⟩
    · exact .inl h
  split
  · rename_i htotal
    rcases checkMergedTotal_cases (D := D) out row.1 with h | ⟨h, -⟩
    · exact .inr ⟨(Bool.and_eq_true_iff.mp htotal).1, h⟩
    · exact .inl h
  · exact .inl rfl

theorem checkMergedTotal_congr {out out' : List FieldResult}
    (h : wantedTotal D out = wantedTotal D out') (r : FieldResult) :
    checkMergedTotal D out r = checkMergedTotal D out' r := by
  rw [checkMergedTotal, checkMergedTotal, h]

theorem checkMergedTotal_name (out : List FieldResult) (r : FieldResult) :
    (checkMergedTotal D out r).name = r.name := by
  rcases checkMergedTotal_cases (D := D) out r with h | ⟨h, -⟩
  · rw [h]
    rfl
  · rw [h]

theorem checkMergedSubtotal_name (lines : List DocLine) (r : FieldResult) :
    (checkMergedSubtotal D lines r).name = r.name := by
  rcases checkMergedSubtotal_cases (D := D) lines r with h | ⟨h, -⟩
  · rw [h]
    rfl
  · rw [h]

theorem flagged_adds {lines : List DocLine} {out : List FieldResult} {row : FieldResult × Bool}
    (hreason : (flagged D lines out row).reason = none) (hmoved : row.2 = true) :
    AddsUp D lines out (flagged D lines out row) := by
  have hdoubt : ∀ r, inconsistent r = flagged D lines out row → False := by
    intro r hr
    rw [← hr] at hreason
    cases hreason
  by_cases hsub : row.1.name = "subtotal"
  · have heq : flagged D lines out row = checkMergedSubtotal D lines row.1 := by
      rw [flagged, hmoved, if_pos (by simpa using hsub)]
    rcases checkMergedSubtotal_cases (D := D) lines row.1 with h | ⟨h, hsums⟩
    · exact (hdoubt row.1 (by rw [heq, h])).elim
    · rw [heq, h]
      refine ⟨fun _ => hsums, fun htotal => ?_⟩
      rw [hsub] at htotal
      exact absurd htotal (by decide)
  · by_cases htotal : row.1.name = totalField
    · have heq : flagged D lines out row = checkMergedTotal D out row.1 := by
        rw [flagged, hmoved, if_neg (by simpa using hsub), if_pos (by simpa using htotal)]
      rcases checkMergedTotal_cases (D := D) out row.1 with h | ⟨h, hsums⟩
      · exact (hdoubt row.1 (by rw [heq, h])).elim
      · rw [heq, h]
        exact ⟨fun hsub' => absurd hsub' hsub, fun _ => hsums⟩
    · have heq : flagged D lines out row = row.1 := by
        rw [flagged, if_neg (by simp [hsub]), if_neg (by simp [htotal])]
      rw [heq]
      exact ⟨fun hsub' => absurd hsub' hsub, fun htotal' => absurd htotal' htotal⟩

theorem checkMergedAmounts_eq (lines : List DocLine) (rows : List (FieldResult × Bool)) :
    checkMergedAmounts D lines rows =
      rows.map (flagged D lines (checkMergedAmounts D lines rows)) := by
  -- only totals are flagged last, and no total is a part of the wanted one
  have hwant : wantedTotal D (checkMergedAmounts D lines rows) =
      wantedTotal D ((checkMergedSubtotals D lines rows).map Prod.fst) := by
    have hsame : ∀ n, n ≠ totalField → decidedMoney D (checkMergedAmounts D lines rows) n =
        decidedMoney D ((checkMergedSubtotals D lines rows).map Prod.fst) n := by
      intro n hn
      refine decidedMoney_congr hn ?_
      rw [checkMergedAmounts, List.forall₂_map_left_iff, List.forall₂_map_right_iff]
      refine List.forall₂_same.mpr fun (r, moved) _ => ?_
      dsimp only
      split
      · rename_i htotal
        have hname := of_decide_eq_true (Bool.and_eq_true_iff.mp htotal).2
        exact .inr ⟨hname, (checkMergedTotal_name _ _).trans hname⟩
      · exact .inl rfl
    unfold wantedTotal
    rw [hsame "subtotal" (by decide), hsame "vat" (by decide)]
  conv_lhs => rw [checkMergedAmounts, checkMergedSubtotals]
  rw [List.map_map]
  refine List.map_congr_left fun (r, moved) _ => ?_
  by_cases hsub : (moved && r.name = "subtotal") = true
  · have hname := of_decide_eq_true (Bool.and_eq_true_iff.mp hsub).2
    have hother : (checkMergedSubtotal D lines r).name ≠ totalField := by
      rw [checkMergedSubtotal_name, hname]
      decide
    simp only [Function.comp_apply, flagged, if_pos hsub, hother, decide_false, Bool.and_false,
      Bool.false_eq_true, if_false]
  · simp only [Function.comp_apply, flagged, if_neg hsub]
    rw [checkMergedTotal_congr hwant]
    rfl

/-! ### The merge -/

theorem mergeAI_weighs {engine : List FieldResult} (lines : List DocLine)
    (hengine : ∀ e ∈ engine, e.name ∈ headerFields → Judged e) :
    ∃ merged, mergeAI R D engine answer pages lines = some merged ∧
      List.Forall₂ (AIWeighed R answer pages) engine merged ∧
      ∀ m ∈ merged, m ∉ engine → m.reason = none → AddsUp D lines merged m := by
  obtain ⟨rows, hrows, hweighs⟩ := mapM_forall₂ (f := mergeRow R answer pages)
    (Q := Weighs R answer pages) fun e he => mergeRow_weighs (hengine e he)
  refine ⟨checkMergedAmounts D lines rows, by rw [mergeAI, hrows]; rfl, ?_, ?_⟩
  · rw [checkMergedAmounts_eq, List.forall₂_map_right_iff]
    refine hweighs.imp fun e row hrow => ?_
    rcases flagged_cases (D := D) lines (checkMergedAmounts D lines rows) row with h | ⟨hmoved, h⟩
    · rw [h]
      exact hrow.1
    · have hflagged := hrow.2
      rw [if_pos hmoved] at hflagged
      rw [h]
      exact hflagged
  · intro m hm hnew hreason
    rw [checkMergedAmounts_eq] at hm
    obtain ⟨row, hrow, rfl⟩ := List.mem_map.mp hm
    obtain ⟨e, he, -, hrow⟩ := forall₂_mem_right hweighs hrow
    -- a row that was not moved is the engine's own or a doubt, so it is no new decision
    cases hmoved : row.2 with
    | true => exact flagged_adds hreason hmoved
    | false =>
      have heq : flagged D lines (checkMergedAmounts D lines rows) row = row.1 := by
        simp [flagged, hmoved]
      rw [hmoved, if_neg Bool.false_ne_true] at hrow
      rw [heq] at hnew hreason
      rcases hrow with hsame | hdoubt
      · exact absurd (hsame ▸ he) hnew
      · exact absurd hreason hdoubt

end InvoiceOs.Extraction
