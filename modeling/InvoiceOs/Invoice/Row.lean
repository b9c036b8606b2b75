import InvoiceOs.Errors
import InvoiceOs.Invoice.Content
import InvoiceOs.Invoice.Status
import InvoiceOs.Approval.Policy
import InvoiceOs.Lib.Refusal

/-! An invoice row with its lines and history, and the one writer of its status. -/

namespace InvoiceOs.Invoice

open Lib

inductive Severity where
  | error
  | warning
  | info
  deriving DecidableEq, Repr

structure Violation where
  ruleKey : String
  severity : Severity
  message : String
  path : String
  deriving DecidableEq

def hasBlockingViolation (vs : List Violation) : Bool := vs.any fun v => v.severity == .error

/-- What a demotion's history row names; `none` stores NULL. -/
structure DemotionCause where
  versionID : Option Uuid := none
  customRuleRevisionID : Option Uuid := none
  deriving DecidableEq

structure StatusChange where
  fromStatus : Option Status
  toStatus : Status
  actor : Subject
  cause : DemotionCause := {}
  deriving DecidableEq

inductive FailureKind where
  | payloadNotBuilt
  | neverAcknowledged
  | acknowledgedNoVerdict
  deriving DecidableEq, Repr

structure KeptAsIs where
  author : Subject
  reason : String
  deriving DecidableEq

structure Row where
  entityID : Uuid
  documentType : DocumentType := .commercialInvoice
  originalInvoiceID : Option Uuid := none
  status : Status := .draft
  header : Header
  lines : List LineItem := []
  violations : List Violation := []
  ruleSetVersionID : Option Uuid := none
  verdictFingerprint : Option String := none
  keptAsIs : Option KeptAsIs := none
  failureKind : Option FailureKind := none
  irn : Option String := none
  csid : Option String := none
  qrPayload : Option String := none
  rejectionReasons : List String := []
  history : List StatusChange
  deriving DecidableEq

namespace Row

def isNote (r : Row) : Bool :=
  r.documentType == .creditNote || r.documentType == .debitNote

def everSubmitted (r : Row) : Bool :=
  r.history.any fun c => c.toStatus != .draft && c.toStatus != .validated

def createdBy (r : Row) (subject : Uuid) : Bool :=
  r.history.any fun c => c.fromStatus.isNone && c.actor == .user subject

section
variable (sha256 : String → String)

def fingerprint (r : Row) : String := contentFingerprint sha256 r.header r.lines

end

def withContent (r : Row) (header : Header) (lines : List LineItem) : Row :=
  { r with header := header, lines := lines }

def withMark (r : Row) (mark : Option KeptAsIs) : Row := { r with keptAsIs := mark }

def withViolations (r : Row) (vs : List Violation) (ruleSetVersionID : Uuid) : Row :=
  { r with violations := vs, ruleSetVersionID := some ruleSetVersionID }

def withVerdict (r : Row) (vs : List Violation) (ruleSetVersionID : Uuid) (fingerprint : String) :
    Row :=
  { r.withViolations vs ruleSetVersionID with verdictFingerprint := some fingerprint }

/-- The status change and its history row; legality is the caller's. -/
def applyTransition (r : Row) (target : Status) (actor : Subject) (cause : DemotionCause) : Row :=
  { r with
    status := target
    rejectionReasons := if target = .accepted then [] else r.rejectionReasons
    keptAsIs := if target = .validated then none else r.keptAsIs
    failureKind := if target = .queued then none else r.failureKind
    history := r.history ++
      [{ fromStatus := some r.status, toStatus := target, actor := actor, cause := cause }] }

def transitionCaused (r : Row) (target : Status) (actor : Subject) (cause : DemotionCause) :
    Except Err Row :=
  if canTransition r.status target = false then throw .illegalTransition
  else pure (r.applyTransition target actor cause)

def transition (r : Row) (target : Status) (actor : Subject) : Except Err Row :=
  r.transitionCaused target actor {}

theorem transitionCaused_eq_ok {r r' : Row} {target : Status} {actor : Subject}
    {cause : DemotionCause} :
    r.transitionCaused target actor cause = .ok r' ↔
      canTransition r.status target = true ∧ r' = r.applyTransition target actor cause := by
  simp only [transitionCaused, check_eq_ok, pure_eq_ok, Bool.not_eq_false]
  exact and_congr_right fun _ => eq_comm

theorem transition_eq_ok {r r' : Row} {target : Status} {actor : Subject} :
    r.transition target actor = .ok r' ↔
      canTransition r.status target = true ∧ r' = r.applyTransition target actor {} :=
  transitionCaused_eq_ok

section
variable (r : Row) (target : Status) (actor : Subject) (cause : DemotionCause)

@[simp] theorem applyTransition_keptAsIs :
    (r.applyTransition target actor cause).keptAsIs =
      if target = .validated then none else r.keptAsIs := rfl

@[simp] theorem applyTransition_status :
    (r.applyTransition target actor cause).status = target := rfl

@[simp] theorem applyTransition_header :
    (r.applyTransition target actor cause).header = r.header := rfl

@[simp] theorem applyTransition_lines :
    (r.applyTransition target actor cause).lines = r.lines := rfl

@[simp] theorem applyTransition_fingerprint (sha256 : String → String) :
    (r.applyTransition target actor cause).fingerprint sha256 = r.fingerprint sha256 := rfl

@[simp] theorem applyTransition_verdictFingerprint :
    (r.applyTransition target actor cause).verdictFingerprint = r.verdictFingerprint := rfl

@[simp] theorem applyTransition_entityID :
    (r.applyTransition target actor cause).entityID = r.entityID := rfl

@[simp] theorem applyTransition_documentType :
    (r.applyTransition target actor cause).documentType = r.documentType := rfl

@[simp] theorem applyTransition_originalInvoiceID :
    (r.applyTransition target actor cause).originalInvoiceID = r.originalInvoiceID := rfl

@[simp] theorem applyTransition_violations :
    (r.applyTransition target actor cause).violations = r.violations := rfl

end

section
variable (r : Row) (header : Header) (lines : List LineItem) (mark : Option KeptAsIs)

@[simp] theorem withContent_status : (r.withContent header lines).status = r.status := rfl
@[simp] theorem withContent_header : (r.withContent header lines).header = header := rfl
@[simp] theorem withContent_lines : (r.withContent header lines).lines = lines := rfl
@[simp] theorem withContent_entityID : (r.withContent header lines).entityID = r.entityID := rfl
@[simp] theorem withContent_keptAsIs : (r.withContent header lines).keptAsIs = r.keptAsIs := rfl

@[simp] theorem withContent_documentType :
    (r.withContent header lines).documentType = r.documentType := rfl

@[simp] theorem withContent_originalInvoiceID :
    (r.withContent header lines).originalInvoiceID = r.originalInvoiceID := rfl

@[simp] theorem withContent_verdictFingerprint :
    (r.withContent header lines).verdictFingerprint = r.verdictFingerprint := rfl

@[simp] theorem withMark_status : (r.withMark mark).status = r.status := rfl
@[simp] theorem withMark_header : (r.withMark mark).header = r.header := rfl
@[simp] theorem withMark_lines : (r.withMark mark).lines = r.lines := rfl
@[simp] theorem withMark_entityID : (r.withMark mark).entityID = r.entityID := rfl
@[simp] theorem withMark_keptAsIs : (r.withMark mark).keptAsIs = mark := rfl
@[simp] theorem withMark_documentType : (r.withMark mark).documentType = r.documentType := rfl

@[simp] theorem withMark_originalInvoiceID :
    (r.withMark mark).originalInvoiceID = r.originalInvoiceID := rfl

@[simp] theorem withMark_verdictFingerprint :
    (r.withMark mark).verdictFingerprint = r.verdictFingerprint := rfl

@[simp] theorem withMark_fingerprint (sha256 : String → String) :
    (r.withMark mark).fingerprint sha256 = r.fingerprint sha256 := rfl

end
section
variable (r : Row) (vs : List Violation) (v : Uuid) (fp : String)

@[simp] theorem withViolations_status : (r.withViolations vs v).status = r.status := rfl
@[simp] theorem withViolations_header : (r.withViolations vs v).header = r.header := rfl
@[simp] theorem withViolations_lines : (r.withViolations vs v).lines = r.lines := rfl
@[simp] theorem withViolations_entityID : (r.withViolations vs v).entityID = r.entityID := rfl
@[simp] theorem withViolations_keptAsIs : (r.withViolations vs v).keptAsIs = r.keptAsIs := rfl
@[simp] theorem withViolations_documentType :
    (r.withViolations vs v).documentType = r.documentType := rfl
@[simp] theorem withViolations_originalInvoiceID :
    (r.withViolations vs v).originalInvoiceID = r.originalInvoiceID := rfl
@[simp] theorem withViolations_verdictFingerprint :
    (r.withViolations vs v).verdictFingerprint = r.verdictFingerprint := rfl
@[simp] theorem withVerdict_status : (r.withVerdict vs v fp).status = r.status := rfl
@[simp] theorem withVerdict_header : (r.withVerdict vs v fp).header = r.header := rfl
@[simp] theorem withVerdict_lines : (r.withVerdict vs v fp).lines = r.lines := rfl
@[simp] theorem withVerdict_entityID : (r.withVerdict vs v fp).entityID = r.entityID := rfl
@[simp] theorem withVerdict_keptAsIs : (r.withVerdict vs v fp).keptAsIs = r.keptAsIs := rfl
@[simp] theorem withVerdict_documentType :
    (r.withVerdict vs v fp).documentType = r.documentType := rfl
@[simp] theorem withVerdict_originalInvoiceID :
    (r.withVerdict vs v fp).originalInvoiceID = r.originalInvoiceID := rfl
@[simp] theorem withVerdict_verdictFingerprint :
    (r.withVerdict vs v fp).verdictFingerprint = some fp := rfl

@[simp] theorem withViolations_fingerprint (sha256 : String → String) :
    (r.withViolations vs v).fingerprint sha256 = r.fingerprint sha256 := rfl

@[simp] theorem withVerdict_fingerprint (sha256 : String → String) :
    (r.withVerdict vs v fp).fingerprint sha256 = r.fingerprint sha256 := rfl

end
end Row
end InvoiceOs.Invoice
