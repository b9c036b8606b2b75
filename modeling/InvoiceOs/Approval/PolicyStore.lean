import InvoiceOs.Approval.Directory
import InvoiceOs.Lib.Table
import InvoiceOs.Text
import Mathlib.Data.List.MinMax
import Mathlib.Data.List.Sort

/-! The policy tables and the five calls that write them. Every call runs under the
tenant publish lock, so each is one step; a refused call leaves the tables alone. -/

namespace InvoiceOs.Approval

open Lib

structure Version where
  id : Uuid
  version : ℕ
  sealed : Bool := false
  isActive : Bool := false
  publishedBy : Option Uuid := none
  scopes : Scopes := {}
  steps : List Step := []

structure PolicyRow where
  name : String
  position : ℕ
  deleted : Bool := false
  versions : List Version

abbrev Policies := Table Uuid PolicyRow

/-! ### Input checks -/

structure AmountBandInput where
  lower : Option Numeric
  upper : Option Numeric
  currency : String

structure ScopeInput where
  documentTypes : List DocumentType := []
  entityIDs : List Uuid := []
  workflowRoleKeys : List String := []
  amountBand : Option AmountBandInput := none

def validateCondAmount : Numeric → Except Err Unit
  | .nan => throw .validation
  | .hundredths n => if n.natAbs ≥ 10 ^ 14 then throw .validation else pure ()

def checkBound (bound : Option Numeric) : Except Err Unit :=
  match bound with
  | none => pure ()
  | some b =>
    match validateCondAmount b with
    | .ok _ => pure ()
    | .error _ => throw .scopeBand

def validateBand (b : AmountBandInput) : Except Err Unit := do
  if hasNUL b.currency then
    throw .validation
  if b.currency = "" || (b.lower.isNone && b.upper.isNone) then
    throw .scopeBand
  checkBound b.lower
  checkBound b.upper
  match b.lower.bind Numeric.newFromString, b.upper.bind Numeric.newFromString with
  | some lower, some upper => if lower > upper then throw .scopeBand
  | _, _ => pure ()

def eachDistinct {α : Type} [DecidableEq α] (check : α → Except Err Unit) (seen : List α) :
    List α → Except Err Unit
  | [] => pure ()
  | a :: as => do
    check a
    if a ∈ seen then
      throw .validation
    eachDistinct check (a :: seen) as

def checkRoleKey (k : String) : Except Err Unit := do
  if hasNUL k then
    throw .validation
  if k = "" then
    throw .scopeRole

def validateScopes (sc : ScopeInput) : Except Err Unit := do
  eachDistinct (fun _ => pure ()) [] sc.documentTypes
  eachDistinct (fun _ => pure ()) [] sc.entityIDs
  eachDistinct checkRoleKey [] sc.workflowRoleKeys
  match sc.amountBand with
  | none => pure ()
  | some b => validateBand b

def validateOptionalScopes : Option ScopeInput → Except Err Unit
  | some sc => validateScopes sc
  | none => pure ()

/-- The ids of the keys, live or kept from the draft's own scope. -/
def resolveRoleKeys (d : Directory) (keep : List Uuid) : List String → Except Err (List Uuid)
  | [] => pure []
  | k :: keys =>
    match d.roles.find? fun wr => wr.key == k && (!wr.deleted || keep.contains wr.id) with
    | none => throw .scopeRole
    | some wr => do
      let ids ← resolveRoleKeys d keep keys
      return wr.id :: ids

def resolveScopesTx (d : Directory) (sc : ScopeInput) (keep : List Uuid) : Except Err Scopes := do
  if sc.entityIDs.any fun e => (d.entity? e).isNone then
    throw .scopeEntity
  let roleIDs ← resolveRoleKeys d keep sc.workflowRoleKeys
  match sc.amountBand with
  | none =>
    return { documentTypes := sc.documentTypes, entityIDs := sc.entityIDs, roleIDs := roleIDs }
  | some b =>
    if !d.currencies.contains b.currency then
      throw .scopeCurrency
    return {
      documentTypes := sc.documentTypes
      entityIDs := sc.entityIDs
      roleIDs := roleIDs
      bandLower := b.lower
      bandUpper := b.upper
      bandCurrency := some b.currency }

def optionHasNUL (s : Option String) : Bool := s.any hasNUL

def blank (s : Option String) : Bool := s.all fun v => trimSpace v == ""

section
variable {Amount Person : Type}

/-- `validateStepFields`, over the check of an amount and of the spelling of a person's id. -/
def checkStepFields (checkAmount : Amount → Except Err Unit) (spelled : Person → Bool)
    (s : StepOf Amount Person) : Except Err Unit := do
  if optionHasNUL s.workflowRoleKey || optionHasNUL s.notifyTarget ||
      optionHasNUL s.notifyChannel then
    throw .validation
  if s.kind ≠ .approval ∧ (s.allowDelegation ∨ s.delegateUserID.isSome) then
    throw .validation
  if s.delegateUserID.any fun id => !s.allowDelegation || !spelled id then
    throw .validation
  if s.slaHours.any fun h => h < 0 || h > 2147483647 then
    throw .validation
  match s.condAmount with
  | none => pure ()
  | some a => checkAmount a
  match s.kind with
  | .condition => if s.condOp.isNone || s.condAmount.isNone then throw .validation
  | .notify => if blank s.notifyTarget || blank s.notifyChannel then throw .validation
  | .approval => pure ()
  | .autoapprove => pure ()

variable (checkFields : StepOf Amount Person → Except Err Unit)

mutual

def checkStep (nested : Bool) : StepOf Amount Person → Except Err Unit
  | s@⟨kind, _, _, _, _, _, _, _, _, thenLane, elseLane⟩ => do
    if kind = .condition ∧ nested then
      throw .validation
    if kind ≠ .condition ∧ (thenLane.isEmpty = false ∨ elseLane.isEmpty = false) then
      throw .validation
    checkFields s
    checkLane true thenLane
    checkLane true elseLane

def checkLane (nested : Bool) : List (StepOf Amount Person) → Except Err Unit
  | [] => pure ()
  | s :: lane => do
    checkStep nested s
    checkLane nested lane

end

end

def validateStepFields (s : Step) : Except Err Unit :=
  checkStepFields validateCondAmount (fun _ => true) s

def validateTree (tree : List Step) : Except Err Unit := checkLane validateStepFields false tree

mutual

def validateStepForPublish (liveKeys : List String) : Step → Except Err Unit
  | ⟨kind, roleKey, _, _, _, _, _, _, _, thenLane, elseLane⟩ => do
    match kind with
    | .approval =>
      if roleKey.getD "" = "" ∨ roleKey.getD "" ∉ liveKeys then
        throw .policyStepRole
    | .condition =>
      if thenLane.isEmpty ∧ elseLane.isEmpty then
        throw .policyEmptyBranches
    | .notify => pure ()
    | .autoapprove => pure ()
    validateForPublish liveKeys thenLane
    validateForPublish liveKeys elseLane

def validateForPublish (liveKeys : List String) : List Step → Except Err Unit
  | [] => pure ()
  | s :: lane => do
    validateStepForPublish liveKeys s
    validateForPublish liveKeys lane

end

mutual

def stepDelegates : Step → List Uuid
  | ⟨_, _, _, _, _, _, _, _, delegate, thenLane, elseLane⟩ =>
    delegate.toList ++ laneDelegates thenLane ++ laneDelegates elseLane

def laneDelegates : List Step → List Uuid
  | [] => []
  | s :: lane => stepDelegates s ++ laneDelegates lane

end

/-! ### Reads -/

def Scopes.scoped (s : Scopes) : Bool :=
  !s.documentTypes.isEmpty || !s.entityIDs.isEmpty || !s.roleIDs.isEmpty || s.bandCurrency.isSome

def topVersion (vs : List Version) : Option Version := vs.argmax Version.version

def PolicyRow.draft (p : PolicyRow) : Option Version := p.versions.find? fun v => !v.sealed

def PolicyRow.active (p : PolicyRow) : List Version := p.versions.filter Version.isActive

def liveRows (ps : Policies) : List (Uuid × PolicyRow) := ps.rows.filter fun p => !p.2.deleted

/-- The join `requireCatchAllLastTx` and `readInForceVersionsTx` share. -/
def activeRows (ps : Policies) : List InForceVersion :=
  (liveRows ps).flatMap fun p => p.2.active.map fun v =>
    { versionID := v.id, policyID := p.1, position := p.2.position, scopes := v.scopes }

/-- The key of `ORDER BY p.position, p.id`. -/
def InForceVersion.le (a b : InForceVersion) : Prop :=
  a.position < b.position ∨ a.position = b.position ∧ a.policyID ≤ b.policyID

instance : DecidableRel InForceVersion.le := fun a b => by
  unfold InForceVersion.le
  infer_instance

def readInForceVersionsTx (ps : Policies) : List InForceVersion :=
  (activeRows ps).insertionSort InForceVersion.le

def readPolicyTree (ps : Policies) (versionID : Uuid) : List Step :=
  match ps.rows.findSome? fun p => p.2.versions.find? fun v => v.id == versionID with
  | some v => v.steps
  | none => []

def topRows (ps : Policies) : List (ℕ × Bool) :=
  (liveRows ps).filterMap fun p => (topVersion p.2.versions).map fun v =>
    (p.2.position, v.scopes.scoped)

def lastScoped (rows : List (ℕ × Bool)) : Bool :=
  match rows.argmax Prod.fst with
  | some r => r.2
  | none => false

def requireCatchAllLastTx (ps : Policies) : Except Err Unit :=
  if lastScoped (topRows ps) ||
      lastScoped ((activeRows ps).map fun v => (v.position, v.scopes.scoped)) then
    throw .policyCatchAll
  else pure ()

/-- `scopedLiveExistsSQL`. -/
def scopedPolicyLiveTx (ps : Policies) : Bool :=
  (liveRows ps).any fun p => p.2.versions.any fun v =>
    (v.isActive || (topVersion p.2.versions).any fun t => v.version == t.version) &&
      v.scopes.scoped

def maxPosition (rows : List (Uuid × PolicyRow)) : ℕ :=
  rows.foldr (fun p m => max p.2.position m) 0

def requireDeletedNotLastTx (ps : Policies) (position : ℕ) : Except Err Unit :=
  if position > maxPosition (liveRows ps) ∧ scopedPolicyLiveTx ps then throw .policyCatchAll
  else pure ()

def versionTaken (ps : Policies) (versionID : Uuid) : Bool :=
  ps.rows.any fun p => p.2.versions.any fun v => v.id == versionID

def livePolicy (ps : Policies) (id : Uuid) : Except Err PolicyRow :=
  match ps.get? id with
  | some p => if p.deleted then throw .policyNotFound else pure p
  | none => throw .policyNotFound

/-! ### The five calls -/

def insertPolicy (ps : Policies) (id : Uuid) (name : String) (version : Version) : Policies :=
  let position := maxPosition ps.rows + 1
  match (liveRows ps).argmax fun p => p.2.position with
  | none => ps.set id { name := name, position := position, versions := [version] }
  | some last =>
    (ps.set last.1 { last.2 with position := position }).set id
      { name := name, position := last.2.position, versions := [version] }

def createPolicy (d : Directory) (ps : Policies) (caller id versionID : Uuid) (name : String)
    (scopes : Option ScopeInput) : Except Err Policies := do
  let name ← normalizeName name
  let sc := scopes.getD {}
  validateScopes sc
  d.requireActiveAdmin caller
  let row ← resolveScopesTx d sc []
  if (ps.get? id).isSome || versionTaken ps versionID then
    throw .uniqueViolation
  let ps' := insertPolicy ps id name { id := versionID, version := 1, scopes := row }
  requireCatchAllLastTx ps'
  return ps'

/-- The draft a `PutDraft` writes on: the open one, or a fork of the top version. -/
def openDraft (ps : Policies) (p : PolicyRow) (versionID : Uuid) : Except Err (PolicyRow × Uuid) :=
  match p.draft with
  | some v => pure (p, v.id)
  | none =>
    if versionTaken ps versionID then throw .uniqueViolation
    else
      let top := topVersion p.versions
      let fork : Version := {
        id := versionID
        version := (top.map Version.version).getD 0 + 1
        scopes := (top.map Version.scopes).getD {} }
      pure ({ p with versions := p.versions ++ [fork] }, versionID)

def writeDraft (draftID : Uuid) (scopes : Option Scopes) (steps : List Step) (v : Version) :
    Version :=
  if v.id = draftID then { v with scopes := scopes.getD v.scopes, steps := steps } else v

def putDraft (d : Directory) (ps : Policies) (caller id versionID : Uuid) (name : Option String)
    (scopes : Option ScopeInput) (steps : List Step) : Except Err Policies := do
  let name ← name.mapM normalizeName
  validateOptionalScopes scopes
  validateTree steps
  d.requireActiveAdmin caller
  let p ← livePolicy ps id
  let keep := ((topVersion p.versions).map fun v => v.scopes.roleIDs).getD []
  let row ← scopes.mapM fun sc => resolveScopesTx d sc keep
  let (p, draftID) ← openDraft ps { p with name := name.getD p.name } versionID
  if (laneDelegates steps).any fun u => !d.members.any fun m => m.userID == u then
    throw .policyDelegateNotMember
  let ps' := ps.set id { p with versions := p.versions.map (writeDraft draftID row steps) }
  requireCatchAllLastTx ps'
  return ps'

/-- The deactivation of the policy's active version and the seal, in this order. -/
def sealVersion (versionID caller : Uuid) (v : Version) : Version :=
  if v.id = versionID then
    { v with sealed := true, isActive := true, publishedBy := some caller }
  else { v with isActive := false }

/-- `PublishPolicy` up to its backlog sweep. -/
def publishVersion (d : Directory) (ps : Policies) (caller id : Uuid) : Except Err Policies := do
  d.requireActiveAdmin caller
  let p ← livePolicy ps id
  match p.draft with
  | none => throw .policyNothingToPublish
  | some v =>
    validateForPublish d.liveRoleKeys v.steps
    if v.scopes.roleIDs.any fun r => d.roles.any fun wr => wr.id == r && wr.deleted then
      throw .policyStepRole
    if (laneDelegates v.steps).any fun u =>
        d.members.any fun m => m.userID == u && !(m.active && isApprover m.role) then
      throw .policyDelegateIneligible
    let ps' := ps.set id { p with versions := p.versions.map (sealVersion v.id caller) }
    requireCatchAllLastTx ps'
    return ps'

def deletePolicy (d : Directory) (ps : Policies) (caller id : Uuid) : Except Err Policies := do
  d.requireActiveAdmin caller
  let p ← livePolicy ps id
  let ps' := ps.set id { p with
    deleted := true
    versions := p.versions.map fun v => { v with isActive := false } }
  requireDeletedNotLastTx ps' p.position
  requireCatchAllLastTx ps'
  return ps'

def permutePositions (ps : Policies) (ids : List Uuid) (positions : List ℕ) : Policies :=
  ps.mapRows fun id p =>
    match (ids.zip positions).lookup id with
    | some position => { p with position := position }
    | none => p

def liveInOrder (ps : Policies) : List (Uuid × PolicyRow) :=
  (liveRows ps).insertionSort fun a b => a.2.position ≤ b.2.position

def reorderPolicies (d : Directory) (ps : Policies) (caller : Uuid) (ids : List Uuid) :
    Except Err Policies := do
  if ¬ ids.Nodup then
    throw .validation
  d.requireActiveAdmin caller
  let old := liveInOrder ps
  let oldIDs := old.map Prod.fst
  if ids.length ≠ oldIDs.length then
    throw .policyOrderStale
  if oldIDs.any fun id => !ids.contains id then
    throw .policyOrderStale
  if ids = oldIDs then
    return ps
  if ids.getLast? ≠ oldIDs.getLast? ∧ scopedPolicyLiveTx ps then
    throw .policyCatchAll
  let ps' := permutePositions ps ids (old.map fun p => p.2.position)
  requireCatchAllLastTx ps'
  return ps'

end InvoiceOs.Approval
