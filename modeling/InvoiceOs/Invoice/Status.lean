import Mathlib.Data.List.Basic

/-! The invoice lifecycle. -/

namespace InvoiceOs.Invoice

inductive Status where
  | draft
  | validated
  | queued
  | submitted
  | accepted
  | rejected
  | failed
  deriving DecidableEq, Repr

def legalTransitions : Status → List Status
  | .draft => [.validated]
  | .validated => [.queued, .draft]
  | .queued => [.submitted, .failed, .accepted, .rejected]
  | .submitted => [.accepted, .rejected, .failed]
  | .rejected => [.draft]
  | .accepted => []
  | .failed => []

def canTransition (source target : Status) : Bool :=
  target ∈ legalTransitions source

def canEdit (s : Status) : Bool := s == .draft || canTransition s .draft

def canCorrectNumber (s : Status) (everSubmitted : Bool) : Bool := s == .draft && !everSubmitted

def canRevalidate (s : Status) : Bool := s == .draft

theorem canEdit_iff {s : Status} :
    canEdit s = true ↔ s = .draft ∨ s = .validated ∨ s = .rejected := by
  cases s <;> decide

theorem canTransition_draft_iff {s : Status} :
    canTransition s .draft = true ↔ s = .validated ∨ s = .rejected := by
  cases s <;> decide

theorem canTransition_validated_iff {s : Status} :
    canTransition s .validated = true ↔ s = .draft := by
  cases s <;> decide

theorem canTransition_queued_iff {s : Status} :
    canTransition s .queued = true ↔ s = .validated := by
  cases s <;> decide

end InvoiceOs.Invoice
