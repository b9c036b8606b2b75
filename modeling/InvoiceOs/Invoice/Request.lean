import InvoiceOs.Invoice.Effect

/-! The requests a workspace serves, each an atomic transaction, and the effects each one
can commit. -/

namespace InvoiceOs.Invoice

open Lib Approval CustomRule

inductive Request where
  | create (caller id : Uuid) (input : CreateInput)
  | edit (id caller : Uuid) (input : EditInput)
  | applyValidation (id caller : Uuid) (ev : Evaluation) (runID : Uuid) (now : ℕ)
  | transition (id : Uuid) (target : Status) (caller : Uuid)
  | batchSubmit (caller : Uuid) (requestKey : String) (ids : List Uuid)
  | decide (id caller : Uuid) (d : Decision) (reason : Option String)
  | demoteCaused (id : Uuid) (vs : List Violation) (ruleSetVersionID : Uuid) (cause : DemotionCause)
  | publishPolicy (caller id : Uuid) (runIDs : Uuid → Uuid) (now : ℕ)
  | editPolicy (e : PolicyEdit)
  | saveRule (caller revisionID : Uuid) (s : Save)
  | markRechecked (ids : List Uuid)
  | markSubmitted (id : Uuid)
  | markFailed (id : Uuid) (kind : FailureKind)
  | markAccepted (id : Uuid) (irn csid qrPayload : String)
  | markRejected (id : Uuid) (reasons : List String)
  | requeueFailed (id : Uuid) (actor : Subject)
  | cancelQueued (id : Uuid)
  | keepAsIs (id caller : Uuid) (reason : String)
  | unkeepAsIs (id : Uuid)
  | resolveOutside (id caller : Uuid) (reason : String)
  | unresolveOutside (id caller : Uuid)
  | directory (d : Directory)

def Request.may : Request → Move → Prop
  | .create _ id _, m => m = .create id
  | .edit id _ _, m => m = .write id
  | .applyValidation id _ _ _ _, m => m = .judge id ∨ ∃ versions, m = .promote id versions
  | .transition id target _, m => m = .write id ∨ (m = .assert id ∧ target = .validated) ∨
    (m = .send id ∧ target = .queued)
  | .batchSubmit _ _ ids, m => ∃ id ∈ ids, m = .write id ∨ m = .send id
  | .decide id _ _ _, m => m = .write id
  | .demoteCaused id _ _ _, m => m = .write id
  | .publishPolicy _ _ _ _, m => m = .policies ∨ ∃ id, m = .arm id
  | .editPolicy _, m => m = .policies
  | .saveRule _ _ _, m => m = .revisions
  | .markRechecked _, m => m = .revisions
  | .markSubmitted id, m => m = .write id
  | .markFailed id _, m => m = .write id
  | .markAccepted id _ _ _, m => m = .write id
  | .markRejected id _, m => m = .write id
  | .requeueFailed id _, m => m = .requeue id
  | .cancelQueued id, m => m = .write id
  | .keepAsIs id _ _, m => m = .write id
  | .unkeepAsIs id, m => m = .write id
  | .resolveOutside id _ _, m => m = .resolve id
  | .unresolveOutside id _, m => m = .write id
  | .directory _, _ => False

/-- The store call takes any target; only the endpoint over it refuses `validated`. -/
def Request.assertsValidated : Request → Prop
  | .transition _ target _ => target = .validated
  | _ => False

def Request.submits : Request → Prop
  | .transition _ target _ => target = .queued
  | .batchSubmit _ _ _ => True
  | _ => False

section
variable (sha256 : String → String)

def Request.call (db : Db) : Request → Except Err Db
  | .create caller id input => Invoice.create db caller id input
  | .edit id caller input => Invoice.edit sha256 db id caller input
  | .applyValidation id caller ev runID now =>
    Invoice.applyValidation sha256 db id caller ev runID now
  | .transition id target caller => Invoice.transition db id target caller
  | .batchSubmit caller requestKey ids => do
    let (db', _) ← Invoice.batchSubmit db caller requestKey ids
    return db'
  | .decide id caller d reason => Approval.decide db id caller d reason
  | .demoteCaused id vs v cause => demoteCausedTx db id vs v cause
  | .publishPolicy caller id runIDs now => Approval.publishPolicy sha256 db caller id runIDs now
  | .editPolicy e => do
    let ps ← e.call db.directory db.policies
    return { db with policies := ps }
  | .saveRule caller revisionID s => do
    let revisions ← save db.directory db.revisions caller revisionID s
    return { db with revisions := revisions }
  | .markRechecked ids => pure { db with revisions := CustomRule.markRechecked db.revisions ids }
  | .markSubmitted id => markSubmittedTx db id
  | .markFailed id kind => markFailedTx db id kind
  | .markAccepted id irn csid qrPayload => markAcceptedTx db id irn csid qrPayload
  | .markRejected id reasons => markRejectedTx db id reasons
  | .requeueFailed id actor => requeueFailedTx db id actor
  | .cancelQueued id => cancelQueuedTx db id
  | .keepAsIs id caller reason => Invoice.keepAsIs db id caller reason
  | .unkeepAsIs id => Invoice.unkeepAsIs db id
  | .resolveOutside id caller reason => Invoice.resolveOutside db id caller reason
  | .unresolveOutside id caller => Invoice.unresolveOutside db id caller
  | .directory d => pure { db with directory := d }

def requestStep (db : Db) (q : Request) : Option Db :=
  match q.call sha256 db with
  | .ok db' => some db'
  | .error _ => some db

end

variable {sha256 : String → String} {db db' : Db}

theorem Request.effects {q : Request} (h : q.call sha256 db = .ok db') :
    Effects sha256 q.may db db' := by
  have hone : Effect sha256 q.may db db' → Effects sha256 q.may db db' := .single
  cases q with
  | create caller id input => exact hone (create_effect rfl h)
  | edit id caller input => exact hone (edit_effect rfl h)
  | applyValidation id caller ev runID now =>
    exact hone (applyValidation_effect (.inl rfl) (.inr ⟨_, rfl⟩) h)
  | transition id target caller =>
    exact hone (transition_effect (.inl rfl) (fun ht => .inr (.inl ⟨rfl, ht⟩))
      (fun ht => .inr (.inr ⟨rfl, ht⟩)) h)
  | batchSubmit caller requestKey ids =>
    simp only [Request.call, bind_eq_ok, pure_eq_ok] at h
    obtain ⟨⟨last, items⟩, hbatch, rfl⟩ := h
    refine batchSubmit_effects (fun i hi => ⟨?_, ?_⟩) hbatch
    · exact ⟨i, hi, .inl rfl⟩
    · exact ⟨i, hi, .inr rfl⟩
  | decide id caller d reason => exact hone (.decide rfl h)
  | demoteCaused id vs v cause => exact hone (demoteCausedTx_effect rfl h)
  | publishPolicy caller id runIDs now =>
    exact publishPolicy_effects (.inl rfl) (fun i => .inr ⟨i, rfl⟩) h
  | editPolicy e =>
    simp only [Request.call, bind_eq_ok, pure_eq_ok] at h
    obtain ⟨ps, -, rfl⟩ := h
    exact hone (.policies rfl rfl rfl rfl)
  | saveRule caller revisionID s =>
    simp only [Request.call, bind_eq_ok, pure_eq_ok] at h
    obtain ⟨revisions, -, rfl⟩ := h
    exact hone (.revisions rfl rfl rfl rfl)
  | markRechecked ids =>
    cases h
    exact hone (.revisions rfl rfl rfl rfl)
  | markSubmitted id => exact hone (markSubmittedTx_effect rfl h)
  | markFailed id kind => exact hone (markFailedTx_effect rfl h)
  | markAccepted id irn csid qrPayload => exact hone (markAcceptedTx_effect rfl h)
  | markRejected id reasons => exact hone (markRejectedTx_effect rfl h)
  | requeueFailed id actor => exact hone (requeueFailedTx_effect rfl h)
  | cancelQueued id => exact hone (cancelQueuedTx_effect rfl h)
  | keepAsIs id caller reason => exact hone (keepAsIs_effect rfl h)
  | unkeepAsIs id => exact hone (unkeepAsIs_effect rfl h)
  | resolveOutside id caller reason => exact hone (resolveOutside_effect rfl h)
  | unresolveOutside id caller => exact hone (unresolveOutside_effect rfl h)
  | directory d =>
    cases h
    exact hone (.elsewhere rfl rfl ⟨rfl, rfl⟩)

theorem requestStep_effects {q : Request} (h : requestStep sha256 db q = some db') :
    Effects sha256 q.may db db' := by
  unfold requestStep at h
  split at h
  · rename_i hok
    cases h
    exact Request.effects hok
  · cases h
    exact .refl

theorem Request.not_assert {q : Request} (h : ¬ q.assertsValidated) (i : Uuid) :
    ¬ q.may (.assert i) := by
  intro hmay
  cases q <;> simp [Request.may, Request.assertsValidated] at hmay h
  exact h hmay.2

theorem Request.not_send {q : Request} (h : ¬ q.submits) (i : Uuid) : ¬ q.may (.send i) := by
  intro hmay
  cases q <;> simp [Request.may, Request.submits] at hmay h
  exact h hmay.2

/-! ### A small workspace -/

def emptyDb : Db where
  directory := {
    isFirm := false
    members := [⟨1, .admin, true, true, []⟩]
    roles := []
    entities := [{ id := 5, name := "Ada Ltd", tin := some "123456789012" }] }

def sampleInput : CreateInput where
  entityID := 5
  header := { invoiceNumber := "INV-1", total := some (.hundredths 12500) }

def sampleFingerprint : String :=
  (createdRow { id := 5, name := "Ada Ltd", tin := some "123456789012" } sampleInput 1).fingerprint id

end InvoiceOs.Invoice
