import InvoiceOs.Extraction.Corrections
import InvoiceOs.Extraction.Merge

/-! The screen replays the corrections, the invoice took each as it came. They agree, save for
what a corrected field was: after an undo that is the posted value, which nothing showed. -/

namespace InvoiceOs.Extraction

open Lib

theorem invoiceEditFor_eq {field : String} {value : Option String} {edit : InvoiceEdit}
    (h : invoiceEditFor field value = .ok edit) : edit = ⟨field, value⟩ := by
  unfold invoiceEditFor at h
  split at h
  · split at h
    · cases h
      rfl
    · split at h
      · cases h
        rfl
      · cases h
  · split at h
    · split at h
      · cases h
      · cases h
        rfl
    · split at h
      · cases h
        rfl
      · cases h

def Correction.applied (c : Correction) (rows : List FieldResultRow) : Option String :=
  if c.method = .undone then rankZeroReading rows c.fieldName else some c.value

section
variable (newFromString : String → Option ParsedDecimal)

/-- What a correction leaves in its column, which held `before`: a note takes an amount without its
sign, and an undo of one of its parties leaves that as it is. -/
def Correction.leaves (documentType : DocumentType) (rows : List FieldResultRow) (c : Correction)
    (before : Option String) : Option String :=
  if documentType = .commercialInvoice then c.applied rows
  else if c.fieldName ∈ noteAmounts then
    (c.applied rows).bind fun v => (notePositive newFromString v).toOption
  else if c.method = .undone ∧ c.fieldName ∈ noteParties then before
  else c.applied rows

def columnLeft (documentType : DocumentType) (rows : List FieldResultRow) (filed : Option String)
    (corrections : List Correction) : Option String :=
  corrections.foldr (Correction.leaves newFromString documentType rows) filed

structure Recorded (start st : Review) : Prop where
  unchanged : st.rows = start.rows ∧ st.breaks = start.breaks ∧ st.documentType = start.documentType
  ordered : Ordered st.log
  issued : ∀ c ∈ st.log, c.seq < st.nextSeq
  header : ∀ c ∈ st.log, c.fieldName ∈ headerFields
  columns : ∀ field ∉ supplierColumns, st.columns field =
    columnLeft newFromString start.documentType start.rows (start.columns field)
      (fieldCorrections st.log field)

def Task.Ok (st : Review) : Task → Prop
  | idle => True
  | started w => w.field ∈ headerFields
  | edited w edit _ => w.field ∈ headerFields ∧
      editBySourceDocument newFromString st.documentType st.rows w = .ok edit
  | appended w edit _ seq => w.field ∈ headerFields ∧
      editBySourceDocument newFromString st.documentType st.rows w = .ok edit ∧
      seq < st.nextSeq ∧ ∀ c ∈ st.log, c.seq < seq

end

section
variable {rows : List FieldResultRow} {log : List Correction}

theorem fieldCorrections_append {c : Correction} (hlog : Ordered (log ++ [c])) (field : String) :
    fieldCorrections (log ++ [c]) field =
      if c.fieldName = field then c :: fieldCorrections log field else fieldCorrections log field := by
  have hbefore : Ordered log := (List.pairwise_append.mp hlog).1
  rw [fieldCorrections_eq hlog, fieldCorrections_eq hbefore, List.filter_append]
  split
  · rename_i hname
    simp [hname]
  · rename_i hname
    simp [hname]

end

/-! ### One step -/

section
variable {newFromString : String → Option ParsedDecimal}
  {learnedLabel : String → Region → Option String} {start st st' : Review} {t t' u : Task}
  {act : Act}

theorem writeColumns_field {w : CorrectionWrite} {edit : Option InvoiceEdit} {client : Client}
    {seq : ℕ} {documentType : DocumentType} {rows : List FieldResultRow}
    (h : editBySourceDocument newFromString documentType rows w = .ok edit)
    (columns : String → Option String) {field : String} (hfield : field ∉ supplierColumns) :
    writeColumns client edit columns field =
      if w.field = field
      then (w.row learnedLabel seq).leaves newFromString documentType rows (columns field)
      else columns field := by
  have hown : (w.row learnedLabel seq).applied rows = w.applied rows := rfl
  have hname : (w.row learnedLabel seq).fieldName = w.field := rfl
  have hmethod : (w.row learnedLabel seq).method = w.method := rfl
  have hset : ∀ value, writeColumns client (some ⟨w.field, value⟩) columns field =
      if w.field = field then value else columns field := by
    intro value
    simp only [supplierColumns, List.mem_cons, List.not_mem_nil, or_false, not_or] at hfield
    simp only [writeColumns, hfield.1, hfield.2, and_false, if_false, eq_comm]
  simp only [editBySourceDocument, bind_eq_ok] at h
  obtain ⟨e, he, h⟩ := h
  obtain rfl := invoiceEditFor_eq he
  unfold Correction.leaves
  rw [hown, hname, hmethod]
  split at h
  · rename_i hcommercial
    cases h
    rw [if_pos hcommercial]
    exact hset _
  · rename_i hnote
    rw [if_neg hnote]
    unfold noteEdit at h
    split at h
    · rename_i hamount
      rw [if_pos hamount]
      cases hv : w.applied rows with
      | none =>
        rw [hv] at h
        cases h
      | some v =>
        rw [hv] at h
        obtain ⟨positive, hpositive, h⟩ := bind_eq_ok.mp h
        cases h
        rw [hset, Option.bind_some, toOption_eq_some.mpr hpositive]
    · rename_i hamount
      rw [if_neg hamount]
      split at h
      · rename_i hundone
        cases h
        have hparty : w.method = .undone ∧ w.field ∈ noteParties :=
          ⟨of_decide_eq_true hundone.1, hundone.2⟩
        simp only [hparty, and_self, if_true, ite_self]
        rfl
      · rename_i hundone
        cases h
        have hparty : ¬ (w.method = .undone ∧ w.field ∈ noteParties) :=
          fun hboth => hundone ⟨decide_eq_true hboth.1, hboth.2⟩
        simp only [hparty, if_false]
        exact hset _

theorem Recorded.commit {w : CorrectionWrite} {edit : Option InvoiceEdit} {client : Client}
    {seq : ℕ} (h : Recorded newFromString start st) (hfield : w.field ∈ headerFields)
    (hedit : editBySourceDocument newFromString st.documentType st.rows w = .ok edit)
    (hissued : seq < st.nextSeq) (hlast : ∀ c ∈ st.log, c.seq < seq) :
    Recorded newFromString start (st.commit learnedLabel w edit client seq) := by
  have hordered : Ordered (st.log ++ [w.row learnedLabel seq]) := by
    refine List.pairwise_append.mpr ⟨h.ordered, List.pairwise_singleton _ _, fun c hc c' hc' => ?_⟩
    rw [List.mem_singleton.mp hc']
    exact hlast c hc
  refine ⟨h.unchanged, hordered, fun c hc => ?_, fun c hc => ?_, fun field hown => ?_⟩
  · obtain hc | hc := List.mem_append.mp hc
    · exact h.issued c hc
    · rw [List.mem_singleton.mp hc]
      exact hissued
  · obtain hc | hc := List.mem_append.mp hc
    · exact h.header c hc
    · rw [List.mem_singleton.mp hc]
      exact hfield
  · obtain ⟨hrows, -, htype⟩ := h.unchanged
    rw [hrows, htype] at hedit
    have hcolumn : (st.commit learnedLabel w edit client seq).columns field =
        if w.field = field
        then (w.row learnedLabel seq).leaves newFromString start.documentType start.rows
          (st.columns field)
        else st.columns field := writeColumns_field hedit st.columns hown
    have hlog : fieldCorrections (st.commit learnedLabel w edit client seq).log field = _ :=
      fieldCorrections_append hordered field
    have hname : (w.row learnedLabel seq).fieldName = w.field := rfl
    rw [hcolumn, hlog, hname, h.columns field hown]
    split <;> rfl

theorem Recorded.takeSeq (h : Recorded newFromString start st) :
    Recorded newFromString start st.takeSeq :=
  ⟨h.unchanged, h.ordered, fun c hc => Nat.lt_succ_of_lt (h.issued c hc), h.header, h.columns⟩

end

/-! ### Screen and register -/

section
variable (parseLineItemsJSON : String → Option (List LineItemInput))

def shown (fields : List ExtractionFieldState) (name : String) : Option String :=
  (entry fields name).bind ExtractionFieldState.value

def Review.detail (st : Review) : List ExtractionFieldState :=
  mergedDetail parseLineItemsJSON st.rows st.breaks st.log

def logBefore (log : List Correction) (c : Correction) : List Correction :=
  log.filter fun earlier => earlier.seq < c.seq

structure Agrees (st : Review) : Prop where
  names : (names (st.detail parseLineItemsJSON)).Nodup
  value : ∀ field ∈ headerFields, ∀ c, latest st.log field = some c →
    st.columns field = shown (st.detail parseLineItemsJSON) field
  undone : ∀ field ∈ headerFields, ∀ c, latest st.log field = some c → c.method = .undone →
    entry (st.detail parseLineItemsJSON) field = entry (readings st.rows st.breaks) field
  corrected : ∀ field ∈ headerFields, ∀ c, latest st.log field = some c → c.method ≠ .undone →
    ∃ f k, entry (st.detail parseLineItemsJSON) field = some f ∧ f.reason = none ∧
      f.alternatives = [] ∧ f.corrected = some k ∧
      k.was = shown (mergedDetail parseLineItemsJSON st.rows st.breaks (logBefore st.log c)) field

end

def undoUnder : List Correction → Option Correction
  | c :: p :: _ => if c.method ≠ .undone ∧ p.method = .undone then some p else none
  | _ => none

section
variable {parseLineItemsJSON : String → Option (List LineItemInput)} {rows : List FieldResultRow}
  {breaks : List RuleBreakRow} {log : List Correction}

theorem logBefore_fieldCorrections (hlog : Ordered log) {c : Correction} {older : List Correction}
    {field : String} (h : fieldCorrections log field = c :: older) :
    fieldCorrections (logBefore log c) field = older := by
  have hbefore : Ordered (logBefore log c) := List.Pairwise.filter _ hlog
  have hrows : (log.filter fun c => c.fieldName = field) = older.reverse ++ [c] := by
    rw [fieldCorrections_eq hlog] at h
    rw [← List.reverse_reverse (log.filter _), h, List.reverse_cons]
  have hsorted : (older.reverse ++ [c]).Pairwise fun a b => a.seq < b.seq :=
    hrows ▸ List.Pairwise.filter _ hlog
  have hold : ∀ p ∈ older, p.seq < c.seq := fun p hp =>
    (List.pairwise_append.mp hsorted).2.2 p (List.mem_reverse.mpr hp) c (List.mem_singleton.mpr rfl)
  rw [fieldCorrections_eq hbefore]
  unfold logBefore
  rw [List.filter_comm, hrows, List.filter_append]
  have hall : older.reverse.filter (fun p => p.seq < c.seq) = older.reverse :=
    List.filter_eq_self.mpr fun p hp => decide_eq_true (hold p (List.mem_reverse.mp hp))
  simp [hall]

theorem was_eq_shown {field : String} (hrows : Distinct rows) {c : Correction}
    {older : List Correction} (hmethod : c.method ≠ .undone) :
    (older.head?.map Correction.value <|>
        ((entry (readings rows breaks) field).getD { name := field }).value) =
        (merged (entry (readings rows breaks) field) field (latestOf older)).bind
          ExtractionFieldState.value ↔
      ∀ p, undoUnder (c :: older) = some p → rankZeroReading rows field = some p.value := by
  have hreading := readings_value hrows breaks field
  cases older with
  | nil =>
    have hnone : undoUnder [c] = none := rfl
    simp only [hnone, reduceCtorEq, false_implies, implies_true, iff_true]
    cases hread : entry (readings rows breaks) field with
    | none => rfl
    | some f => rfl
  | cons p older =>
    have hwas : ((p :: older).head?.map Correction.value <|>
        ((entry (readings rows breaks) field).getD { name := field }).value) = some p.value := rfl
    rw [hwas]
    by_cases hundo : p.method = .undone
    · have hunder : undoUnder (c :: p :: older) = some p := if_pos ⟨hmethod, hundo⟩
      have hmerged : merged (entry (readings rows breaks) field) field (latestOf (p :: older)) =
          entry (readings rows breaks) field := if_pos hundo
      rw [hunder, hmerged, hreading]
      constructor
      · rintro h q hq
        rw [← h, Option.some.inj hq]
      · intro h
        exact (h p rfl).symm
    · have hunder : undoUnder (c :: p :: older) = none := if_neg fun h => hundo h.2
      have hmerged : merged (entry (readings rows breaks) field) field (latestOf (p :: older)) =
          some (settle ((entry (readings rows breaks) field).getD { name := field })
            { p with superseded := older.head?.map Correction.value }) := if_neg hundo
      rw [hunder, hmerged]
      simp [settle]

end

section
variable {newFromString : String → Option ParsedDecimal}
  {learnedLabel : String → Region → Option String}
  (parseLineItemsJSON : String → Option (List LineItemInput)) {start : Review}
  {steps : List (ℕ × Act)} {w : World Review Task}

theorem Recorded.no_line {st : Review} (h : Recorded newFromString start st) {c : Correction}
    (hc : c ∈ st.log) : c.fieldName ≠ lineItemsField := by
  intro hline
  have hmem := h.header c hc
  rw [hline] at hmem
  exact absurd hmem (by decide)

theorem latest_cons {log : List Correction} {field : String} {c : Correction}
    {older : List Correction} (h : fieldCorrections log field = c :: older) :
    latest log field = some { c with superseded := older.head?.map Correction.value } := by
  unfold latest
  rw [h]
  rfl

theorem Recorded.corrected {st : Review} (hst : Recorded newFromString start st)
    (hrows : Distinct start.rows) {field : String} {c : Correction} {older : List Correction}
    (hlog : fieldCorrections st.log field = c :: older) (hmethod : c.method ≠ .undone) :
    ∃ f k, entry (st.detail parseLineItemsJSON) field = some f ∧ f.value = some c.value ∧
      f.reason = none ∧ f.alternatives = [] ∧ f.corrected = some k ∧
      (k.was = shown (mergedDetail parseLineItemsJSON st.rows st.breaks (logBefore st.log c)) field ↔
        ∀ p, undoUnder (c :: older) = some p → rankZeroReading start.rows field = some p.value) := by
  obtain ⟨hresults, hbreaks, -⟩ := hst.unchanged
  have hentry := (mergedDetail_spec parseLineItemsJSON hrows start.breaks
    fun c hc => hst.no_line hc).2 field
  have hkept : ∀ c' ∈ logBefore st.log c, c'.fieldName ≠ lineItemsField :=
    fun c' hc' => hst.no_line (List.mem_of_mem_filter hc')
  have hbefore := (mergedDetail_spec parseLineItemsJSON hrows start.breaks hkept).2 field
  have holder : latest (logBefore st.log c) field = latestOf older := by
    unfold latest
    rw [logBefore_fieldCorrections hst.ordered hlog]
  rw [latest_cons hlog] at hentry
  rw [holder] at hbefore
  simp only [merged, if_neg hmethod] at hentry
  unfold Review.detail shown
  rw [hresults, hbreaks]
  exact ⟨_, _, hentry, rfl, rfl, rfl, rfl, hbefore ▸ was_eq_shown hrows hmethod⟩

end

end InvoiceOs.Extraction
