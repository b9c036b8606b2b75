import InvoiceOs.Approval.Match

/-! Arming: a version's tree and an invoice's total become the ordered steps of a run. -/

namespace InvoiceOs.Approval

structure RunStep where
  ord : ℕ
  kind : StepKind
  workflowRoleKey : Option String := none
  slaHours : Option ℤ := none
  notifyTarget : Option String := none
  notifyChannel : Option String := none
  allowDelegation : Bool := false
  delegateUserID : Option Uuid := none
  deriving DecidableEq

/-- Each side folds to zero when absent or unparseable; no operator is false. -/
def evalCondition (op : Option CondOp) (condAmount : Option Numeric) (total : Option Decimal) :
    Bool :=
  let v := (parseTotal condAmount).getD 0
  let a := total.getD 0
  match op with
  | some .gt => decide (a > v)
  | some .ge => decide (a ≥ v)
  | some .lt => decide (a < v)
  | some .le => decide (a ≤ v)
  | none => false

structure Walk where
  steps : List RunStep
  auto : Bool

def Walk.emit (w : Walk) (n : Step) : Walk where
  steps := w.steps ++ [{
    ord := w.steps.length
    kind := n.kind
    workflowRoleKey := n.workflowRoleKey
    slaHours := n.slaHours
    notifyTarget := n.notifyTarget
    notifyChannel := n.notifyChannel
    allowDelegation := n.allowDelegation
    delegateUserID := n.delegateUserID }]
  auto := w.auto || n.kind == .autoapprove

def take (w : Walk) : List Step → Walk
  | [] => w
  | n :: lane => if n.kind = .condition then take w lane else take (w.emit n) lane

def materialiseFrom (total : Option Decimal) (w : Walk) : List Step → Walk
  | [] => w
  | n :: tree =>
    if n.kind ≠ .condition then materialiseFrom total (take w [n]) tree
    else if evalCondition n.condOp n.condAmount total then
      materialiseFrom total (take w n.thenLane) tree
    else materialiseFrom total (take w n.elseLane) tree

def materialise (tree : List Step) (total : Option Decimal) : Walk :=
  materialiseFrom total ⟨[], false⟩ tree

inductive StepState where
  | pending
  | satisfied
  | skipped
  | rejected
  deriving DecidableEq, Repr

inductive RunState where
  | open
  | approved
  | rejected
  | cancelled
  deriving DecidableEq, Repr

/-- An `approval_run_steps` row; `ord` identifies it within its run. -/
structure StoredStep extends RunStep where
  state : StepState
  satisfiedBy : Option Subject := none
  deriving DecidableEq

inductive Decision where
  | approved
  | rejected
  deriving DecidableEq, Repr

structure DecisionRow where
  stepOrd : ℕ
  decision : Decision
  actor : Uuid
  reason : Option String
  asDelegate : Bool
  deriving DecidableEq

structure Run where
  invoiceID : Uuid
  policyVersionID : Uuid
  contentFingerprint : String
  state : RunState
  openedAt : ℕ
  closedBy : Option Subject
  steps : List StoredStep
  decisions : List DecisionRow
  deriving DecidableEq

def Run.live (r : Run) : Bool := r.state == .open || r.state == .approved

def StoredStep.pendingApproval (s : StoredStep) : Bool :=
  s.kind == .approval && s.state == .pending

def armState (auto : Bool) (s : RunStep) : StepState :=
  match s.kind with
  | .autoapprove => .satisfied
  | .approval => if auto then .skipped else .pending
  | .condition => .skipped
  | .notify => .skipped

def armStep (auto : Bool) (s : RunStep) : StoredStep :=
  { s with
    state := armState auto s
    satisfiedBy := if armState auto s = .satisfied then some .system else none }

def armedSteps (tree : List Step) (total : Option Decimal) : List StoredStep :=
  let w := materialise tree total
  w.steps.map (armStep w.auto)

structure ArmFacts where
  total : Option Numeric
  documentType : DocumentType
  entityID : Uuid
  currency : Option String
  creatorRoles : List Uuid

def ArmFacts.doc (f : ArmFacts) : MatchDoc where
  documentType := f.documentType
  entityID := f.entityID
  total := parseTotal f.total
  currency := f.currency
  creatorRoles := f.creatorRoles

/-- The run `ArmTx` inserts for the versions it read; none when none is in force or
none matches. -/
def armRun (versions : List InForceVersion) (trees : Uuid → List Step) (f : ArmFacts)
    (invoiceID : Uuid) (fingerprint : String) (now : ℕ) : Option Run :=
  match firstMatch f.doc versions with
  | none => none
  | some (v, _) =>
    let steps := armedSteps (trees v.versionID) (parseTotal f.total)
    let state := if steps.any StoredStep.pendingApproval then .open else .approved
    some {
      invoiceID := invoiceID
      policyVersionID := v.versionID
      contentFingerprint := fingerprint
      state := state
      openedAt := now
      closedBy := if state = .approved then some .system else none
      steps := steps
      decisions := [] }

def cancelLive (invoiceID : Uuid) (actor : Subject) (r : Run) : Run :=
  if r.invoiceID = invoiceID ∧ r.live then
    { r with state := .cancelled, closedBy := r.closedBy.or (some actor) }
  else r

@[simp] theorem cancelLive_invoiceID (i : Uuid) (a : Subject) (r : Run) :
    (cancelLive i a r).invoiceID = r.invoiceID := by
  unfold cancelLive
  split <;> rfl

@[simp] theorem cancelLive_contentFingerprint (i : Uuid) (a : Subject) (r : Run) :
    (cancelLive i a r).contentFingerprint = r.contentFingerprint := by
  unfold cancelLive
  split <;> rfl

theorem cancelLive_live {i : Uuid} {a : Subject} {r : Run} (h : (cancelLive i a r).live) :
    r.live ∧ r.invoiceID ≠ i := by
  unfold cancelLive at h
  split at h
  · simp [Run.live] at h
  · rename_i hne
    exact ⟨h, fun hi => hne ⟨hi, h⟩⟩

theorem cancelLive_of_ne {i : Uuid} {a : Subject} {r : Run} (h : r.invoiceID ≠ i) :
    cancelLive i a r = r := by
  unfold cancelLive
  exact if_neg fun hr => h hr.1

theorem armRun_eq_some {versions : List InForceVersion} {trees : Uuid → List Step}
    {f : ArmFacts} {i : Uuid} {fp : String} {now : ℕ} {r : Run}
    (h : armRun versions trees f i fp now = some r) :
    r.invoiceID = i ∧ r.contentFingerprint = fp ∧ r.live ∧ r.decisions = [] ∧
      ∃ v ∈ versions, r.policyVersionID = v.versionID ∧
        r.steps = armedSteps (trees v.versionID) (parseTotal f.total) ∧
        r.state = if r.steps.any StoredStep.pendingApproval then .open else .approved := by
  unfold armRun at h
  split at h
  · cases h
  · rename_i v m hm
    cases h
    refine ⟨rfl, rfl, ?_, rfl, v, (firstMatch_mem hm).1, rfl, rfl, rfl⟩
    simp only [Run.live]
    split <;> rfl

def Walk.Dense (w : Walk) : Prop :=
  ∀ (i : ℕ) (s : RunStep), w.steps[i]? = some s → s.ord = i ∧ s.kind ≠ .condition

theorem Walk.Dense.emit {w : Walk} (h : w.Dense) {n : Step} (hn : n.kind ≠ .condition) :
    (w.emit n).Dense := by
  intro i s hs
  simp only [Walk.emit, List.getElem?_append] at hs
  split at hs
  · exact h i s hs
  · rename_i hi
    obtain ⟨hlt, rfl⟩ := List.getElem?_eq_some_iff.mp hs
    simp only [List.length_singleton] at hlt
    have : i - w.steps.length = 0 := by omega
    simp only [this, List.getElem_cons_zero]
    exact ⟨by omega, hn⟩

theorem Walk.Dense.take {w : Walk} (h : w.Dense) (lane : List Step) : (take w lane).Dense := by
  induction lane generalizing w with
  | nil => exact h
  | cons n lane ih =>
    unfold Approval.take
    split
    · exact ih h
    · rename_i hn
      exact ih (h.emit hn)

theorem Walk.Dense.materialiseFrom {total : Option Decimal} {w : Walk} (h : w.Dense)
    (tree : List Step) : (materialiseFrom total w tree).Dense := by
  induction tree generalizing w with
  | nil => exact h
  | cons n tree ih =>
    unfold Approval.materialiseFrom
    split
    · exact ih (h.take [n])
    · split
      · exact ih (h.take n.thenLane)
      · exact ih (h.take n.elseLane)

theorem materialise_dense (tree : List Step) (total : Option Decimal) :
    (materialise tree total).Dense :=
  Walk.Dense.materialiseFrom (fun i s hs => by simp at hs) tree

theorem armedSteps_ord {tree : List Step} {total : Option Decimal} {i : ℕ} {s : StoredStep}
    (h : (armedSteps tree total)[i]? = some s) : s.ord = i := by
  simp only [armedSteps, List.getElem?_map, Option.map_eq_some_iff] at h
  obtain ⟨r, hr, rfl⟩ := h
  exact (materialise_dense tree total i r hr).1

end InvoiceOs.Approval
