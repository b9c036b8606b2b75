import InvoiceOs.Invoice.Row
import InvoiceOs.Lib.Table
import InvoiceOs.Text
import Mathlib.Algebra.Order.Monoid.WithTop
import Mathlib.Algebra.Order.Ring.Int
import Mathlib.Data.Int.ConditionallyCompleteOrder
import Mathlib.Order.ConditionallyCompleteLattice.Basic

/-! What a credit or debit note is checked for against its original, and the amount an
original has already been credited. -/

namespace InvoiceOs

/-- A `numeric` in an aggregate: Postgres adds to `NaN` and sorts above it like a top. -/
def Numeric.summand : Numeric → WithTop Decimal
  | .nan => ⊤
  | .hundredths n => (n : Decimal)

namespace Invoice

open Lib

abbrev Invoices := Table Uuid Row

/-- The note is in the sum over its original's credit notes. A failed one is once it is
resolved outside. -/
def Row.counts (r : Row) : Bool :=
  r.documentType == .creditNote &&
    ((r.status != .draft && r.status != .rejected && r.status != .failed) ||
      (r.status == .failed && r.keptAsIs.isSome))

def Row.credit (r : Row) : WithTop Decimal :=
  match r.header.total with
  | none => 0
  | some t => t.summand

def creditOn (original : Uuid) (exclude : Option Uuid) (id : Uuid) (r : Row) : WithTop Decimal :=
  if r.originalInvoiceID = some original ∧ r.counts = true ∧ exclude ≠ some id then r.credit else 0

def creditedSoFarTx (invoices : Invoices) (original : Uuid) (exclude : Option Uuid) :
    WithTop Decimal :=
  invoices.sum (creditOn original exclude)

structure OriginalFacts where
  number : String
  currency : Option String
  documentType : DocumentType
  status : Status
  irn : Option String
  total : Option Numeric
  creditedBefore : WithTop Decimal

/-- The facts a note's checks read; none when the original is unset or not visible. -/
def readOriginalFactsTx (invoices : Invoices) (originalID : Option Uuid) (exclude : Uuid) :
    Option OriginalFacts := do
  let original ← originalID
  let r ← invoices.get? original
  return {
    number := r.header.invoiceNumber
    currency := r.header.currency
    documentType := r.documentType
    status := r.status
    irn := r.irn
    total := r.header.total
    creditedBefore := creditedSoFarTx invoices original (some exclude) }

def locksOriginal (r : Row) : Bool := r.documentType == .creditNote

def noteErr (key message path : String) : Violation where
  ruleKey := key
  severity := .error
  message := message
  path := path

def ruleNoteOriginalMissing : String := "note-original-missing"
def ruleNoteOriginalNotCommercial : String := "note-original-not-commercial"
def ruleNoteOriginalNotAccepted : String := "note-original-not-accepted"
def ruleNoteOriginalNoIRN : String := "note-original-no-irn"
def ruleCreditNoteTotalUnusable : String := "credit-note-total-unusable"
def ruleCreditNoteCapUnreadable : String := "credit-note-cap-unreadable"
def ruleCreditNoteOverCap : String := "credit-note-over-cap"
def ruleCreditNoteCurrency : String := "credit-note-currency-mismatch"

def noteCheckKeys : List String :=
  [ruleNoteOriginalMissing, ruleNoteOriginalNotCommercial, ruleNoteOriginalNotAccepted,
    ruleNoteOriginalNoIRN, ruleCreditNoteTotalUnusable, ruleCreditNoteCapUnreadable,
    ruleCreditNoteOverCap, ruleCreditNoteCurrency]

def blankText (s : Option String) : Bool := s.all fun v => trimSpace v == ""

def sameCurrency (a b : Option String) : Bool := !blankText a && a == b

def currencyLabel (c : Option String) : String :=
  if blankText c then "(none)" else c.getD ""

def stringFixed2 (d : Decimal) : String := Numeric.text (.hundredths d)

def originalViolations (f : OriginalFacts) : List Violation :=
  (if f.documentType ≠ .commercialInvoice then
    [noteErr ruleNoteOriginalNotCommercial
      ("Original invoice " ++ f.number ++ " is not a commercial invoice.") ""] else []) ++
  (if f.status ≠ .accepted then
    [noteErr ruleNoteOriginalNotAccepted
      ("Original invoice " ++ f.number ++ " is not accepted by NRS.") ""] else []) ++
  (if blankText f.irn then
    [noteErr ruleNoteOriginalNoIRN ("Original invoice " ++ f.number ++ " has no IRN.") ""] else [])

def overCap (f : OriginalFacts) (total orig credited : Decimal) : List Violation :=
  if credited + total > orig then
    [noteErr ruleCreditNoteOverCap
      ("Credit note total " ++ stringFixed2 total ++ " exceeds the " ++
        stringFixed2 (max 0 (orig - credited)) ++ " still creditable on original invoice " ++
        f.number ++ ".") "total"]
  else []

def creditNoteViolations (h : Header) (f : OriginalFacts) : List Violation :=
  match parseTotal h.total with
  | none =>
    [noteErr ruleCreditNoteTotalUnusable
      "Credit note total is missing or not a valid non-negative amount." "total"]
  | some total =>
    if total < 0 then
      [noteErr ruleCreditNoteTotalUnusable
        "Credit note total is missing or not a valid non-negative amount." "total"]
    else if !sameCurrency h.currency f.currency then
      [noteErr ruleCreditNoteCurrency
        ("Credit note currency " ++ currencyLabel h.currency ++ " does not match currency " ++
          currencyLabel f.currency ++ " of original invoice " ++ f.number ++ ".") "currency"]
    else
      match parseTotal f.total, f.creditedBefore with
      | some orig, some credited => overCap f total orig credited
      | _, _ =>
        [noteErr ruleCreditNoteCapUnreadable
          ("Cannot read the total or credited amount of original invoice " ++ f.number ++ ".") ""]

def noteViolations (r : Row) (f : Option OriginalFacts) : List Violation :=
  if !r.isNote then []
  else match r.originalInvoiceID, f with
    | none, _ => [noteErr ruleNoteOriginalMissing "This note names no original invoice." ""]
    | some original, none =>
      [noteErr ruleNoteOriginalMissing
        ("Original invoice " ++ original.text ++ " was not found.") ""]
    | some _, some f =>
      originalViolations f ++
        (if r.documentType = .creditNote then creditNoteViolations r.header f else [])

def withoutNoteChecks (vs : List Violation) : List Violation :=
  vs.filter fun v => !noteCheckKeys.contains v.ruleKey

/-! ### What passing the checks says -/

theorem hasBlockingViolation_append (vs ws : List Violation) :
    hasBlockingViolation (vs ++ ws) = (hasBlockingViolation vs || hasBlockingViolation ws) := by
  simp only [hasBlockingViolation, List.any_append]

@[simp] theorem hasBlockingViolation_noteErr (key message path : String) (vs : List Violation) :
    hasBlockingViolation (noteErr key message path :: vs) = true := rfl

theorem originalViolations_clear {f : OriginalFacts}
    (h : hasBlockingViolation (originalViolations f) = false) :
    f.documentType = .commercialInvoice ∧ f.status = .accepted := by
  simp only [originalViolations, hasBlockingViolation_append, Bool.or_eq_false_iff] at h
  obtain ⟨⟨htype, hstatus⟩, -⟩ := h
  constructor
  · by_contra hne
    rw [if_pos hne] at htype
    cases htype
  · by_contra hne
    rw [if_pos hne] at hstatus
    cases hstatus

theorem creditNoteViolations_clear {h : Header} {f : OriginalFacts}
    (hclear : hasBlockingViolation (creditNoteViolations h f) = false) :
    ∃ total orig credited : Decimal, parseTotal h.total = some total ∧ 0 ≤ total ∧
      parseTotal f.total = some orig ∧ f.creditedBefore = some credited ∧
        credited + total ≤ orig := by
  unfold creditNoteViolations at hclear
  split at hclear
  · cases hclear
  · rename_i total htotal
    split at hclear
    · cases hclear
    · rename_i hpos
      split at hclear
      · cases hclear
      · split at hclear
        · rename_i orig credited horig hcredited
          refine ⟨total, orig, credited, htotal, not_lt.mp hpos, horig, hcredited, ?_⟩
          by_contra hover
          rw [overCap, if_pos (not_le.mp hover)] at hclear
          cases hclear
        · cases hclear

theorem parseTotal_eq_some {t : Option Numeric} {d : Decimal} :
    parseTotal t = some d ↔ t = some (.hundredths d) := by
  cases t with
  | none => simp [parseTotal]
  | some t =>
    cases t with
    | nan => simp [parseTotal, Numeric.newFromString]
    | hundredths n => simp [parseTotal, Numeric.newFromString]

theorem noteViolations_clear {invoices : Invoices} {r : Row} {id : Uuid}
    (hnote : r.documentType = .creditNote)
    (h : hasBlockingViolation
      (noteViolations r (readOriginalFactsTx invoices r.originalInvoiceID id)) = false) :
    ∃ original o, r.originalInvoiceID = some original ∧ invoices.get? original = some o ∧
      o.documentType = .commercialInvoice ∧ o.status = .accepted ∧
      ∃ total orig : Decimal, r.header.total = some (.hundredths total) ∧ 0 ≤ total ∧
        o.header.total = some (.hundredths orig) ∧
        creditedSoFarTx invoices original (some id) + (total : WithTop Decimal) ≤ orig := by
  have his : r.isNote = true := by simp [Row.isNote, hnote]
  cases horiginal : r.originalInvoiceID with
  | none =>
    rw [horiginal] at h
    simp [noteViolations, his, horiginal] at h
  | some original =>
    cases ho : invoices.get? original with
    | none => simp [noteViolations, his, horiginal, readOriginalFactsTx, ho] at h
    | some o =>
      simp only [noteViolations, his, Bool.not_true, Bool.false_eq_true, if_false, horiginal,
        readOriginalFactsTx, Option.bind_eq_bind, Option.bind_some, ho, Option.pure_def, hnote,
        if_true, hasBlockingViolation_append, Bool.or_eq_false_iff] at h
      obtain ⟨htype, hstatus⟩ := originalViolations_clear h.1
      obtain ⟨total, orig, credited, htotal, hpos, horig, hcredited, hle⟩ :=
        creditNoteViolations_clear h.2
      refine ⟨original, o, rfl, ho, htype, hstatus, total, orig, parseTotal_eq_some.mp htotal,
        hpos, parseTotal_eq_some.mp horig, ?_⟩
      change creditedSoFarTx invoices original (some id) = some credited at hcredited
      rw [hcredited]
      exact WithTop.coe_le_coe.mpr hle

theorem creditedSoFarTx_exclude {invoices : Invoices} {original id : Uuid} {r : Row}
    (hr : invoices.get? id = some r) (hno : r.counts = false) :
    creditedSoFarTx invoices original (some id) = creditedSoFarTx invoices original none := by
  unfold creditedSoFarTx Table.sum
  congr 1
  refine List.map_congr_left fun e he => ?_
  by_cases hid : e.1 = id
  · have hrow : e.2 = r := by
      have he' := Table.mem_rows.mp he
      rw [hid, hr] at he'
      exact (Option.some.inj he').symm
    simp [creditOn, hrow, hno]
  · have hne : ¬ id = e.1 := fun h => hid h.symm
    simp [creditOn, hne]

end Invoice
end InvoiceOs
