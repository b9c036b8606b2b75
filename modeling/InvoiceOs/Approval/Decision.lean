import InvoiceOs.Approval.Runs

/-! The approve and reject call: two authorization axes, the current pending step, the
ledger row, and the advance or close of the run, in one transaction. -/

namespace InvoiceOs.Approval

open Lib

def maxRejectReasonLen : ℕ := 1000

def checkReason (decision : Decision) (reason : Option String) : Except Err (Option String) :=
  if reason.any hasNUL then throw .validation
  else match decision with
    | .rejected =>
      let trimmed := trimSpace (reason.getD "")
      if trimmed = "" ∨ trimmed.utf8ByteSize > maxRejectReasonLen then throw .validation
      else pure (some trimmed)
    | .approved =>
      if reason.any fun v => v.utf8ByteSize > maxRejectReasonLen then throw .validation
      else pure reason

/-- `ORDER BY opened_at DESC LIMIT 1` over the invoice's runs. -/
def latestRun (db : Db) (invoiceID : Uuid) : Option (Uuid × Run) :=
  (db.runs.rows.filter fun e => e.2.invoiceID == invoiceID).argmax fun e => e.2.openedAt

def currentStep (steps : List StoredStep) : Option StoredStep :=
  (steps.filter StoredStep.pendingApproval).argmin fun s => s.ord

def authorizeStep (d : Directory) (caller : Uuid) (s : StoredStep) : Except Err Bool :=
  let holds := s.workflowRoleKey.any fun key => d.holdsRoleKey key caller
  let asDelegate := !holds && delegateMayDecide s.allowDelegation s.delegateUserID caller
  if !holds && !asDelegate then throw .notRoleHolder else pure asDelegate

def creatorRung (d : Directory) (caller : Uuid) (r : Invoice.Row) (decision : Decision)
    (s : StoredStep) : Except Err Unit :=
  match decision with
  | .rejected => pure ()
  | .approved =>
    match (creatorStandingTx d caller (r.createdBy caller) r.entityID s.workflowRoleKey).refusal with
    | some reason => throw (.creatorRefused reason)
    | none => pure ()

def decideStep (decision : Decision) (caller : Uuid) (ord : ℕ) (s : StoredStep) : StoredStep :=
  if s.ord = ord ∧ s.state = .pending then
    match decision with
    | .approved => { s with state := .satisfied, satisfiedBy := some (.user caller) }
    | .rejected => { s with state := .rejected }
  else s

/-- The step claim, the ledger row and the close-or-advance of `commitDecisionTx`. -/
def Run.decide (run : Run) (decision : Decision) (caller : Uuid) (ord : ℕ)
    (reason : Option String) (asDelegate : Bool) : Run :=
  let steps := run.steps.map (decideStep decision caller ord)
  let row : DecisionRow := {
    stepOrd := ord
    decision := decision
    actor := caller
    reason := reason
    asDelegate := asDelegate }
  let run := { run with steps := steps, decisions := run.decisions ++ [row] }
  match decision with
  | .approved =>
    if steps.any StoredStep.pendingApproval then run
    else { run with state := .approved, closedBy := some (.user caller) }
  | .rejected => { run with state := .rejected, closedBy := some (.user caller) }

def demoteRejected (db : Db) (invoiceID caller : Uuid) (decision : Decision) : Except Err Db :=
  match decision with
  | .approved => pure db
  | .rejected => do
    let r ← db.getInvoice invoiceID
    let r' ← r.transition .draft (.user caller)
    return db.setInvoice invoiceID r'

def awaitingInvoice (db : Db) (invoiceID : Uuid) : Except Err Invoice.Row :=
  match db.invoices.get? invoiceID with
  | none => throw .runNotFound
  | some r => if r.status ≠ .validated then throw .notAwaitingApproval else pure r

def openRun (db : Db) (invoiceID : Uuid) : Except Err (Uuid × Run) :=
  match latestRun db invoiceID with
  | none => throw .runNotFound
  | some e => if e.2.state ≠ .open then throw .runClosed else pure e

def pendingStep (run : Run) : Except Err StoredStep :=
  match currentStep run.steps with
  | none => throw .runClosed
  | some s => pure s

def decideTx (db : Db) (invoiceID caller : Uuid) (decision : Decision) (reason : Option String) :
    Except Err Db := do
  db.directory.requireApprover caller
  let r ← awaitingInvoice db invoiceID
  let e ← openRun db invoiceID
  let s ← pendingStep e.2
  creatorRung db.directory caller r decision s
  let asDelegate ← authorizeStep db.directory caller s
  demoteRejected (db.setRun e.1 (e.2.decide decision caller s.ord reason asDelegate)) invoiceID
    caller decision

def decide (db : Db) (invoiceID caller : Uuid) (decision : Decision) (reason : Option String) :
    Except Err Db := do
  let reason ← checkReason decision reason
  decideTx db invoiceID caller decision reason

/-! ### What a decision that went through did -/

section
variable (r : Run) (d : Decision) (u : Uuid) (o : ℕ) (reason : Option String) (asDelegate : Bool)

@[simp] theorem Run.decide_steps :
    (r.decide d u o reason asDelegate).steps = r.steps.map (decideStep d u o) := by
  cases d
  · simp only [Run.decide]
    split <;> rfl
  · rfl

@[simp] theorem Run.decide_decisions :
    (r.decide d u o reason asDelegate).decisions = r.decisions ++ [⟨o, d, u, reason, asDelegate⟩] := by
  cases d
  · simp only [Run.decide]
    split <;> rfl
  · rfl

@[simp] theorem Run.decide_invoiceID :
    (r.decide d u o reason asDelegate).invoiceID = r.invoiceID := by
  cases d
  · simp only [Run.decide]
    split <;> rfl
  · rfl

@[simp] theorem Run.decide_contentFingerprint :
    (r.decide d u o reason asDelegate).contentFingerprint = r.contentFingerprint := by
  cases d
  · simp only [Run.decide]
    split <;> rfl
  · rfl

theorem Run.decide_approved_state :
    (r.decide .approved u o reason asDelegate).state =
      if (r.steps.map (decideStep .approved u o)).any StoredStep.pendingApproval then r.state
      else .approved := by
  simp only [Run.decide]
  split <;> rfl

theorem Run.decide_rejected_state :
    (r.decide .rejected u o reason asDelegate).state = .rejected := rfl

end

theorem awaitingInvoice_eq_ok {db : Db} {i : Uuid} {r : Invoice.Row} :
    awaitingInvoice db i = .ok r ↔ db.invoices.get? i = some r ∧ r.status = .validated := by
  unfold awaitingInvoice
  split
  · rename_i hnone
    simp [hnone]
  · rename_i q hq
    simp only [check_eq_ok, pure_eq_ok, not_not, hq, Option.some.injEq]
    constructor
    · rintro ⟨hs, rfl⟩
      exact ⟨rfl, hs⟩
    · rintro ⟨rfl, hs⟩
      exact ⟨hs, rfl⟩

theorem openRun_spec {db : Db} {i : Uuid} {e : Uuid × Run} (h : openRun db i = .ok e) :
    db.runs.get? e.1 = some e.2 ∧ e.2.invoiceID = i ∧ e.2.state = .open := by
  unfold openRun at h
  split at h
  · cases h
  · rename_i q hq
    simp only [check_eq_ok, pure_eq_ok, not_not] at h
    obtain ⟨hs, rfl⟩ := h
    obtain ⟨hm, hi⟩ := List.mem_filter.mp (List.argmax_mem hq)
    exact ⟨Table.mem_rows.mp hm, beq_iff_eq.mp hi, hs⟩

theorem pendingStep_spec {run : Run} {s : StoredStep} (h : pendingStep run = .ok s) :
    s ∈ run.steps ∧ s.pendingApproval = true ∧
      ∀ t ∈ run.steps, t.pendingApproval = true → s.ord ≤ t.ord := by
  unfold pendingStep at h
  split at h
  · cases h
  · rename_i q hq
    cases h
    obtain ⟨hm, hp⟩ := List.mem_filter.mp (List.argmin_mem hq)
    refine ⟨hm, hp, fun t ht htp => ?_⟩
    exact List.le_of_mem_argmin (f := fun s : StoredStep => s.ord)
      (List.mem_filter.mpr ⟨ht, htp⟩) hq

theorem decide_spec {db db' : Db} {i caller : Uuid} {decision : Decision} {reason : Option String}
    (h : decide db i caller decision reason = .ok db') :
    ∃ r k run s reason asDelegate, db.invoices.get? i = some r ∧ r.status = .validated ∧
      db.runs.get? k = some run ∧ run.invoiceID = i ∧ run.state = .open ∧
      s ∈ run.steps ∧ s.pendingApproval = true ∧
      (∀ t ∈ run.steps, t.pendingApproval = true → s.ord ≤ t.ord) ∧
      ((decision = .approved ∧
          db' = db.setRun k (run.decide .approved caller s.ord reason asDelegate)) ∨
        decision = .rejected ∧
          db' = (db.setRun k (run.decide .rejected caller s.ord reason asDelegate)).setInvoice i
            (r.applyTransition .draft (.user caller) {})) := by
  simp only [decide, decideTx, bind_eq_ok] at h
  obtain ⟨reason, -, -, -, r, hr, ⟨k, run⟩, he, s, hs, -, -, asDelegate, -, h⟩ := h
  obtain ⟨hr, hstatus⟩ := awaitingInvoice_eq_ok.mp hr
  obtain ⟨hrun, hinv, hopen⟩ := openRun_spec he
  obtain ⟨hmem, hpend, hmin⟩ := pendingStep_spec hs
  refine ⟨r, k, run, s, reason, asDelegate, hr, hstatus, hrun, hinv, hopen, hmem, hpend, hmin, ?_⟩
  cases decision with
  | approved =>
    cases h
    exact .inl ⟨rfl, rfl⟩
  | rejected =>
    simp only [demoteRejected, bind_eq_ok, pure_eq_ok, Db.getInvoice_eq_ok, Db.setRun_invoices,
      Invoice.Row.transition_eq_ok] at h
    obtain ⟨q, hq, q', ⟨-, rfl⟩, rfl⟩ := h
    rw [hr] at hq
    cases hq
    exact .inr ⟨rfl, rfl⟩

end InvoiceOs.Approval
