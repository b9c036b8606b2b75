import InvoiceOs.Invoice.Fingerprint
import InvoiceOs.Errors
import Mathlib.Data.List.Nodup
import Mathlib.Data.List.Sort

/-! The whole stream read back: two contents hash the same text exactly when they are the
same, in whatever order their lines came and under whatever ids; and a content with no NRS
field hashes the text it hashed before those fields existed. -/

namespace InvoiceOs.Invoice

open Lib

structure Line extends LineItem where
  id : Uuid
  deriving DecidableEq

def sortedLines (lines : List Line) : List Line :=
  lines.insertionSort fun a b => a.lineNo ≤ b.lineNo

def contentStream (h : Header) (lines : List Line) : String :=
  concatFields h.fields ++ writeNRSFingerprint h.nrs.values ++
    writeFingerprintField (some (toString lines.length)) ++
    writeLines ((sortedLines lines).map Line.toLineItem)

def LineItem.fields (li : LineItem) : List (Option String) :=
  [some (toString li.lineNo), li.description, li.quantity, li.unitPrice, li.lineTotal, li.lineTax]

/-- The encoding before the NRS columns: the ten header fields, the count, and six fields a
line. -/
def legacyStream (h : Header) (lines : List Line) : String :=
  concatFields h.fields ++ writeFingerprintField (some (toString lines.length)) ++
    concatFields ((sortedLines lines).flatMap fun li => li.fields)

/-! ### Days -/

def padChars (w n : ℕ) : List Char := List.replicate (w - (digits n).length) '0' ++ digits n

theorem padLeft_toList (w n : ℕ) : (padLeft w n).toList = padChars w n := by
  simp only [padLeft, String.toList_append, String.toList_ofList, padChars, digits,
    String.length_toList]

theorem padChars_inj {w m n : ℕ} (h : padChars w m = padChars w n) : m = n := by
  have hread : ∀ k, Nat.ofDigitChars 10 (padChars w k) 0 = k := by
    intro k
    rw [padChars, Nat.ofDigitChars_append, Nat.ofDigitChars_replicate_zero, Nat.mul_zero,
      digits_eq]
    exact Nat.ofDigitChars_ten_toDigits
  calc m = Nat.ofDigitChars 10 (padChars w m) 0 := (hread m).symm
    _ = Nat.ofDigitChars 10 (padChars w n) 0 := by rw [h]
    _ = n := hread n

theorem isDigit_of_mem_padChars {w n : ℕ} {c : Char} (h : c ∈ padChars w n) :
    c.isDigit = true := by
  rcases List.mem_append.mp h with hc | hc
  · rw [List.eq_of_mem_replicate hc]
    rfl
  · exact isDigit_of_mem_digits hc

theorem padChars_two_length {n : ℕ} (hn : n < 100) : (padChars 2 n).length = 2 := by
  have hlen : (digits n).length ≤ 2 := by
    rw [digits_eq]
    exact Nat.length_toDigits_le_iff (by decide) (by decide) |>.mpr hn
  rw [padChars, List.length_append, List.length_replicate]
  omega

def signedChars (w : ℕ) (y : ℤ) : List Char :=
  (if y < 0 then ['-'] else []) ++ padChars w y.natAbs

theorem padChars_ne_signed {w m : ℕ} {rest : List Char} : padChars w m ≠ '-' :: rest := by
  intro h
  have hdigit : ('-').isDigit = true := by
    refine isDigit_of_mem_padChars (w := w) (n := m) ?_
    rw [h]
    exact List.mem_cons_self
  cases hdigit

theorem signedChars_inj {w : ℕ} {y z : ℤ} (h : signedChars w y = signedChars w z) : y = z := by
  unfold signedChars at h
  by_cases hy : y < 0 <;> by_cases hz : z < 0 <;>
    simp only [hy, hz, if_true, if_false, List.nil_append, List.singleton_append,
      List.cons.injEq, true_and] at h
  · have habs := padChars_inj h
    omega
  · exact absurd h.symm padChars_ne_signed
  · exact absurd h padChars_ne_signed
  · have habs := padChars_inj h
    omega

theorem yearText_toList (y : ℤ) : (yearText y).toList = signedChars 4 y := by
  rw [yearText, String.toList_append, padLeft_toList, signedChars]
  split <;> rfl

theorem toString_int_toList (y : ℤ) : (toString y).toList = signedChars 0 y := by
  have hpad : ∀ n, padChars 0 n = n.repr.toList := by
    intro n
    rw [padChars, Nat.zero_sub, List.replicate_zero, List.nil_append, digits, Nat.toString_eq_repr]
  rw [Int.toString_eq_repr, Int.repr_eq_if, signedChars, hpad]
  by_cases hneg : y < 0
  · have habs : (-y).toNat = y.natAbs := by omega
    rw [if_neg (by omega), if_pos hneg, String.toList_append, habs]
    rfl
  · have habs : y.toNat = y.natAbs := by omega
    rw [if_pos (by omega), if_neg hneg, habs, List.nil_append]

theorem toString_int_inj {y z : ℤ} (h : toString y = toString z) : y = z := by
  have hlist := congrArg String.toList h
  rw [toString_int_toList, toString_int_toList] at hlist
  exact signedChars_inj hlist

theorem Date.text_inj {d e : Date} (h : d.text = e.text) : d = e := by
  have hlist := congrArg String.toList h
  have hchars : ∀ x : Date, x.text.toList =
      signedChars 4 x.year ++ '-' :: (padChars 2 x.month ++ '-' :: padChars 2 x.day) := by
    intro x
    simp only [Date.text, String.toList_append, yearText_toList, padLeft_toList]
    simp
  rw [hchars, hchars] at hlist
  have hmonth : ∀ x : Date, (padChars 2 x.month).length = 2 := fun x =>
    padChars_two_length (x.month_le.trans_lt (by decide))
  have hday : ∀ x : Date, (padChars 2 x.day).length = 2 := fun x =>
    padChars_two_length (x.day_le.trans_lt (by decide))
  obtain ⟨hyear, htail⟩ := List.append_inj' hlist (by simp [hmonth, hday])
  obtain ⟨hmonths, hdays⟩ := List.append_inj (List.cons.inj htail).2 (by rw [hmonth, hmonth])
  have hy := signedChars_inj hyear
  have hm := padChars_inj hmonths
  have hd := padChars_inj (List.cons.inj hdays).2
  cases d
  cases e
  cases hy
  cases hm
  cases hd
  rfl

/-! ### The header -/

theorem optionDate_inj : Function.Injective (Option.map Date.text) :=
  Option.map_injective fun _ _ => Date.text_inj

theorem NRSHeader.eq_of_values {n n' : NRSHeader} (h : n.values = n'.values) : n = n' := by
  simp only [NRSHeader.values, List.cons.injEq, optionDate_inj.eq_iff, and_true] at h
  cases n
  cases n'
  simpa only [NRSHeader.mk.injEq] using h

theorem Header.eq_of_values {h h' : Header} (hfields : h.fields = h'.fields)
    (hvalues : h.nrs.values = h'.nrs.values) : h = h' := by
  have hamount : Function.Injective (Option.map Numeric.text) :=
    Option.map_injective fun _ _ => text_inj
  have hnrs := NRSHeader.eq_of_values hvalues
  simp only [Header.fields, List.cons.injEq, Option.some.injEq, optionDate_inj.eq_iff,
    hamount.eq_iff, and_true] at hfields
  cases h
  cases h'
  simp only [Header.mk.injEq]
  tauto

/-! ### The lines -/

theorem LineItem.eq_of_values {a b : LineItem} (hfields : a.fields = b.fields)
    (hvalues : a.nrsValues = b.nrsValues) : a = b := by
  simp only [LineItem.fields, List.cons.injEq, Option.some.injEq, and_true] at hfields
  simp only [LineItem.nrsValues, List.cons.injEq, and_true] at hvalues
  have hno : a.lineNo = b.lineNo := toString_int_inj hfields.1
  cases a
  cases b
  simp only [LineItem.mk.injEq]
  tauto

def lineChars (li : LineItem) : List Char := li.fields.flatMap fieldChars ++ nrsChars 0 li.nrsValues

theorem writeLines_toList (lines : List LineItem) :
    (writeLines lines).toList = lines.flatMap lineChars := by
  induction lines with
  | nil => rfl
  | cons li lines ih =>
    have hline : (writeLine li).toList = lineChars li := by
      simp only [writeLine, String.toList_append, writeFingerprintField_toList,
        writeNRSFingerprint, writeNRSFingerprintFrom_toList, lineChars, LineItem.fields,
        List.flatMap_cons, List.flatMap_nil, List.append_nil, List.append_assoc]
    rw [writeLines, String.toList_append, hline, ih, List.flatMap_cons]

theorem lines_head (lines : List LineItem) : (lines.flatMap lineChars).head? ≠ some 'X' := by
  intro h
  cases lines with
  | nil => cases h
  | cons li lines => cases h

theorem lines_inj {lines lines' : List LineItem} (hlen : lines.length = lines'.length)
    (h : lines.flatMap lineChars = lines'.flatMap lineChars) : lines = lines' := by
  induction lines generalizing lines' with
  | nil =>
    cases lines' with
    | nil => rfl
    | cons li lines' => cases hlen
  | cons li lines ih =>
    cases lines' with
    | nil => cases hlen
    | cons li' lines' =>
      simp only [List.flatMap_cons, lineChars, List.append_assoc] at h
      obtain ⟨hfields, hrest⟩ := @framed_sequence _ _ fieldChars_framed li.fields li'.fields
        rfl _ _ h
      obtain ⟨hvalues, hrest⟩ := @nrsChars_inj _ li.nrsValues li'.nrsValues _ _
        rfl (lines_head lines) (lines_head lines') hrest
      have htail := ih (Nat.succ.inj hlen) hrest
      rw [LineItem.eq_of_values hfields hvalues, htail]

theorem countedLines_inj {lines lines' : List LineItem}
    (h : fieldChars (some (toString lines.length)) ++ (writeLines lines).toList =
      fieldChars (some (toString lines'.length)) ++ (writeLines lines').toList) :
    lines = lines' := by
  obtain ⟨hcount, hrest⟩ := fieldChars_framed _ _ _ _ h
  have hlen : lines.length = lines'.length :=
    digits_inj (congrArg String.toList (Option.some.inj hcount))
  rw [writeLines_toList, writeLines_toList] at hrest
  exact lines_inj hlen hrest

/-! ### Order and ids -/

theorem insertLine_eq (li : LineItem) (lines : List LineItem) :
    insertLine li lines = lines.orderedInsert (fun a b => a.lineNo ≤ b.lineNo) li := by
  induction lines with
  | nil => rfl
  | cons x xs ih =>
    rw [insertLine, List.orderedInsert_cons, ih]

theorem sortLines_eq (lines : List LineItem) :
    sortLines lines = lines.insertionSort fun a b => a.lineNo ≤ b.lineNo := by
  induction lines with
  | nil => rfl
  | cons li lines ih => rw [sortLines, List.insertionSort_cons, insertLine_eq, ih]

theorem sortedLines_content (lines : List Line) :
    (sortedLines lines).map Line.toLineItem = sortLines (lines.map Line.toLineItem) := by
  rw [sortLines_eq, sortedLines]
  exact List.map_insertionSort _ _ _ _ fun _ _ _ _ => Iff.rfl

theorem contentStream_eq (h : Header) (lines : List Line) :
    contentStream h lines = fingerprintStream h (lines.map Line.toLineItem) := by
  rw [contentStream, fingerprintStream, sortedLines_content, List.length_map]

theorem length_sortLines (lines : List LineItem) : (sortLines lines).length = lines.length := by
  rw [sortLines_eq]
  exact List.length_insertionSort _ _

theorem fingerprintStream_eq_iff (h h' : Header) (lines lines' : List LineItem) :
    fingerprintStream h lines = fingerprintStream h' lines' ↔
      h = h' ∧ sortLines lines = sortLines lines' := by
  constructor
  · intro heq
    obtain ⟨hfields, hvalues, hlines⟩ := fingerprintStream_inj heq
    refine ⟨Header.eq_of_values hfields hvalues, countedLines_inj ?_⟩
    rw [length_sortLines, length_sortLines]
    exact hlines
  · rintro ⟨rfl, hsorted⟩
    have hlen : lines.length = lines'.length := by
      rw [← length_sortLines lines, hsorted, length_sortLines]
    rw [fingerprintStream, fingerprintStream, hlen, hsorted]

theorem sortLines_perm {lines lines' : List LineItem} (hperm : lines.Perm lines')
    (hdistinct : (lines.map LineItem.lineNo).Nodup) : sortLines lines = sortLines lines' := by
  have htotal : Std.Total fun a b : LineItem => a.lineNo ≤ b.lineNo :=
    ⟨fun a b => le_total a.lineNo b.lineNo⟩
  have htrans : IsTrans LineItem fun a b => a.lineNo ≤ b.lineNo := ⟨fun _ _ _ => le_trans⟩
  rw [sortLines_eq, sortLines_eq]
  refine List.Perm.eq_of_pairwise ?_ (List.pairwise_insertionSort _ lines)
    (List.pairwise_insertionSort _ lines') ?_
  · intro a b ha hb hab hba
    have ha' : a ∈ lines := (List.mem_insertionSort _).mp ha
    have hb' : b ∈ lines := hperm.mem_iff.mpr ((List.mem_insertionSort _).mp hb)
    exact List.inj_on_of_nodup_map hdistinct ha' hb' (le_antisymm hab hba)
  · exact (List.perm_insertionSort _ lines).trans
      (hperm.trans (List.perm_insertionSort _ lines').symm)

/-! ### No NRS field -/

theorem writeNRSFingerprintFrom_absent {i : ℕ} {vals : List (Option String)}
    (h : ∀ v ∈ vals, v = none) : writeNRSFingerprintFrom i vals = "" := by
  induction vals generalizing i with
  | nil => rfl
  | cons v vals ih =>
    obtain ⟨rfl, hvals⟩ := List.forall_mem_cons.mp h
    exact ih hvals

theorem concatFields_append (fs gs : List (Option String)) :
    concatFields (fs ++ gs) = concatFields fs ++ concatFields gs := by
  refine String.toList_inj.mp ?_
  rw [String.toList_append, concatFields_toList, concatFields_toList, concatFields_toList,
    List.flatMap_append]

theorem writeLines_absent {lines : List Line}
    (h : ∀ li ∈ lines, ∀ v ∈ li.nrsValues, v = none) :
    writeLines (lines.map Line.toLineItem) = concatFields (lines.flatMap fun li => li.fields) := by
  induction lines with
  | nil => rfl
  | cons li lines ih =>
    obtain ⟨hli, hlines⟩ := List.forall_mem_cons.mp h
    rw [List.map_cons, writeLines, List.flatMap_cons, concatFields_append, ih hlines]
    refine congrArg (· ++ concatFields (lines.flatMap fun li => li.fields)) ?_
    refine String.toList_inj.mp ?_
    rw [writeLine, writeNRSFingerprint, writeNRSFingerprintFrom_absent hli]
    simp only [LineItem.fields, concatFields, String.toList_append, List.append_assoc]

theorem contentStream_legacy {h : Header} {lines : List Line}
    (hheader : ∀ v ∈ h.nrs.values, v = none)
    (hlines : ∀ li ∈ lines, ∀ v ∈ li.nrsValues, v = none) :
    contentStream h lines = legacyStream h lines := by
  have hsorted : ∀ li ∈ sortedLines lines, ∀ v ∈ li.nrsValues, v = none := by
    intro li hli
    exact hlines li ((List.mem_insertionSort _).mp hli)
  rw [contentStream, legacyStream, writeNRSFingerprint, writeNRSFingerprintFrom_absent hheader,
    writeLines_absent hsorted, String.append_empty]

/-- The hashed text of an invoice and its lines, up to the order and the ids of the lines, is
the invoice's content. -/
theorem content_stream_faithful :
    (∀ (h h' : Header) (lines lines' : List Line),
      (lines.map fun li => li.lineNo).Nodup → (lines'.map fun li => li.lineNo).Nodup →
      (contentStream h lines = contentStream h' lines' ↔
        h = h' ∧ (sortedLines lines).map Line.toLineItem =
          (sortedLines lines').map Line.toLineItem)) ∧
    (∀ (h : Header) (lines lines' : List Line), (lines.map fun li => li.lineNo).Nodup →
      (lines.map Line.toLineItem).Perm (lines'.map Line.toLineItem) →
      contentStream h lines = contentStream h lines') ∧
    (∀ (h : Header) (lines : List Line), (∀ v ∈ h.nrs.values, v = none) →
      (∀ li ∈ lines, ∀ v ∈ li.nrsValues, v = none) →
      contentStream h lines = legacyStream h lines) := by
  refine ⟨?_, ?_, ?_⟩
  · intro h h' lines lines' _ _
    rw [contentStream_eq, contentStream_eq, fingerprintStream_eq_iff, sortedLines_content,
      sortedLines_content]
  · intro h lines lines' hdistinct hperm
    rw [contentStream_eq, contentStream_eq, fingerprintStream_eq_iff]
    refine ⟨rfl, sortLines_perm hperm ?_⟩
    rw [List.map_map]
    exact hdistinct
  · intro h lines hheader hlines
    exact contentStream_legacy hheader hlines

def markedLines : List Line :=
  [{ lineNo := 2, description := some "X0;", id := 1 }, { lineNo := 1, id := 2 }]

def resavedLines : List Line :=
  [{ lineNo := 1, id := 3 }, { lineNo := 2, description := some "X0;", id := 4 }]

theorem content_stream_faithful_sample :
    contentStream { invoiceNumber := "INV-1" } markedLines =
        contentStream { invoiceNumber := "INV-1" } resavedLines ∧
      contentStream { invoiceNumber := "INV-1" } markedLines ≠
        contentStream { invoiceNumber := "INV-1", nrs := { invoiceKind := some "" } }
          resavedLines ∧
      contentStream { invoiceNumber := "INV-1" } markedLines =
        legacyStream { invoiceNumber := "INV-1" } markedLines := by
  obtain ⟨hiff, hperm, hlegacy⟩ := content_stream_faithful
  refine ⟨hperm _ _ _ (by decide) (List.Perm.swap _ _ _), ?_,
    hlegacy _ _ (by decide) (by decide)⟩
  intro h
  obtain ⟨hheader, -⟩ := (hiff _ _ _ _ (by decide) (by decide)).mp h
  exact absurd (congrArg (fun x => x.nrs.invoiceKind) hheader) (by decide)

end InvoiceOs.Invoice
