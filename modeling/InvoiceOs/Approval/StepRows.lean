import InvoiceOs.Approval.PolicyStore

/-! The rows of `approval_policy_steps`: a tree flattened into them, inserted, read back and
nested again. -/

namespace InvoiceOs.Approval

structure StepFields (Amount Person : Type) where
  kind : StepKind
  workflowRoleKey : Option String
  slaHours : Option ℤ
  condOp : Option CondOp
  condAmount : Option Amount
  notifyTarget : Option String
  notifyChannel : Option String
  allowDelegation : Bool
  delegateUserID : Option Person
  deriving DecidableEq

section
variable {Amount Person : Type}

def StepOf.fields (s : StepOf Amount Person) : StepFields Amount Person where
  kind := s.kind
  workflowRoleKey := s.workflowRoleKey
  slaHours := s.slaHours
  condOp := s.condOp
  condAmount := s.condAmount
  notifyTarget := s.notifyTarget
  notifyChannel := s.notifyChannel
  allowDelegation := s.allowDelegation
  delegateUserID := s.delegateUserID

def StepFields.step (f : StepFields Amount Person) (thenLane elseLane : List (StepOf Amount Person)) :
    StepOf Amount Person where
  kind := f.kind
  workflowRoleKey := f.workflowRoleKey
  slaHours := f.slaHours
  condOp := f.condOp
  condAmount := f.condAmount
  notifyTarget := f.notifyTarget
  notifyChannel := f.notifyChannel
  allowDelegation := f.allowDelegation
  delegateUserID := f.delegateUserID
  thenLane := thenLane
  elseLane := elseLane

end

inductive Branch where
  | thenLane
  | elseLane
  deriving DecidableEq

/-- One row, minus its version: `ord` is 0-based and dense in each lane. -/
structure StepRow (Amount Person : Type) where
  id : Uuid
  parentStepID : Option Uuid
  branch : Option Branch
  ord : ℕ
  fields : StepFields Amount Person
  deriving DecidableEq

structure ReadStep (Amount Person : Type) where
  id : Uuid
  fields : StepFields Amount Person
  thenLane : List (ReadStep Amount Person)
  elseLane : List (ReadStep Amount Person)

section
variable {Amount Person : Type}

mutual

def ReadStep.step : ReadStep Amount Person → StepOf Amount Person
  | ⟨_, fields, thenLane, elseLane⟩ => fields.step (readLane thenLane) (readLane elseLane)

def readLane : List (ReadStep Amount Person) → List (StepOf Amount Person)
  | [] => []
  | s :: lane => s.step :: readLane lane

end

/-! ### Flattening -/

section
-- the uuids in the order they are minted
variable (mint : ℕ → Uuid)

mutual

def flattenStep (n : ℕ) (parent : Option Uuid) (branch : Option Branch) (i : ℕ) :
    StepOf Amount Person → List (StepRow Amount Person) × ℕ
  | ⟨kind, roleKey, sla, op, amount, target, channel, allow, delegate, thenLane, elseLane⟩ =>
    let thenRows := flattenLane (n + 1) (some (mint n)) (some .thenLane) 0 thenLane
    let elseRows := flattenLane thenRows.2 (some (mint n)) (some .elseLane) 0 elseLane
    let row : StepRow Amount Person :=
      { id := mint n, parentStepID := parent, branch := branch, ord := i
        fields := ⟨kind, roleKey, sla, op, amount, target, channel, allow, delegate⟩ }
    (row :: (thenRows.1 ++ elseRows.1), elseRows.2)

def flattenLane (n : ℕ) (parent : Option Uuid) (branch : Option Branch) (i : ℕ) :
    List (StepOf Amount Person) → List (StepRow Amount Person) × ℕ
  | [] => ([], n)
  | s :: lane =>
    let rows := flattenStep n parent branch i s
    let rest := flattenLane rows.2 parent branch (i + 1) lane
    (rows.1 ++ rest.1, rest.2)

end

def flattenSteps (tree : List (StepOf Amount Person)) : List (StepRow Amount Person) :=
  (flattenLane mint 0 none none 0 tree).1

end

/-! ### The insert -/

abbrev StepTable := List (Uuid × StepRow Numeric Uuid)

/-- `approval_policy_steps_slot_uq`, NULLs not distinct. -/
def slot (r : Uuid × StepRow Amount Person) : Uuid × Option Uuid × Option Branch × ℕ :=
  (r.1, r.2.parentStepID, r.2.branch, r.2.ord)

def rowChecks (r : StepRow Amount Person) : Bool :=
  (r.parentStepID.isNone || r.fields.kind ≠ .condition) &&
    (!r.fields.allowDelegation || r.fields.kind = .approval) &&
    (r.fields.delegateUserID.isNone || r.fields.allowDelegation)

/-- `approval_policy_steps_tenant_delegate_fk`. -/
def delegateMember (d : Directory) (f : StepFields Amount Uuid) : Bool :=
  f.delegateUserID.all fun u => d.members.any fun m => m.userID == u

/-- One INSERT: its rows, or the constraint one of them breaks. A delegate outside the workspace is
under the name `PutDraft` gives it. -/
def insertRows (d : Directory) (table new : StepTable) : Except Err StepTable :=
  if ¬ new.all fun r => rowChecks r.2 then throw .checkViolation
  else if ¬ ((table ++ new).map fun r => r.2.id).Nodup ∨ ¬ ((table ++ new).map slot).Nodup then
    throw .uniqueViolation
  else if ¬ new.all fun r => r.2.parentStepID.all fun p =>
      p ∈ (table ++ new).map fun r => r.2.id then
    throw .foreignKeyViolation
  else if ¬ new.all fun r => delegateMember d r.2.fields then throw .policyDelegateNotMember
  else pure (table ++ new)

/-- The roots statement names neither parent nor branch. -/
def StepRow.asRoot (r : StepRow Amount Person) : StepRow Amount Person :=
  { r with parentStepID := none, branch := none }

/-- Roots, then children: two statements, each with the casts of its columns. -/
def insertPolicySteps (cast : StepRow Amount Person → Except Err (StepRow Numeric Uuid))
    (d : Directory) (table : StepTable) (versionID : Uuid) (rows : List (StepRow Amount Person)) :
    Except Err StepTable := do
  let roots := rows.filter fun r => r.parentStepID.isNone
  let children := rows.filter fun r => !r.parentStepID.isNone
  let roots ← roots.mapM fun r => cast r.asRoot
  let table ← insertRows d table (roots.map fun r => (versionID, r))
  let children ← children.mapM cast
  insertRows d table (children.map fun r => (versionID, r))

/-! ### The read -/

def laneRows (rows : List (StepRow Amount Person)) (parent : Uuid) (branch : Branch) :
    List (StepRow Amount Person) :=
  rows.filter fun r => r.parentStepID = some parent ∧ r.branch = some branch

def rootRows (rows : List (StepRow Amount Person)) : List (StepRow Amount Person) :=
  rows.filter fun r => r.parentStepID.isNone || r.branch.isNone

def byOrd (lane : List (StepRow Amount Person)) : List (StepRow Amount Person) :=
  lane.insertionSort fun a b => a.ord ≤ b.ord

/-- `nestLane`, to a depth of `fuel`; `none` where the rows go deeper. -/
def nestLane (rows : List (StepRow Amount Person)) :
    ℕ → List (StepRow Amount Person) → Option (List (ReadStep Amount Person))
  | 0, _ => none
  | fuel + 1, lane => (byOrd lane).mapM fun r => do
    let thenLane ← nestLane rows fuel (laneRows rows r.id .thenLane)
    let elseLane ← nestLane rows fuel (laneRows rows r.id .elseLane)
    return { id := r.id, fields := r.fields, thenLane := thenLane, elseLane := elseLane }

def nestSteps (fuel : ℕ) (rows : List (StepRow Amount Person)) :
    Option (List (ReadStep Amount Person)) :=
  nestLane rows fuel (rootRows rows)

/-- A result of the query: the versions' rows, ordered by version and ord alone. -/
structure ReadAs (table : StepTable) (versionIDs : List Uuid) (result : StepTable) : Prop where
  rows : result.Perm (table.filter fun r => r.1 ∈ versionIDs)
  ordered : result.Pairwise fun a b => a.1 < b.1 ∨ a.1 = b.1 ∧ a.2.ord ≤ b.2.ord

def readPolicyTrees (fuel : ℕ) (versionIDs : List Uuid) (result : List (Uuid × StepRow Amount Person)) :
    List (Uuid × Option (List (ReadStep Amount Person))) :=
  versionIDs.map fun id =>
    (id, nestSteps fuel ((result.filter fun r => r.1 = id).map Prod.snd))

end

end InvoiceOs.Approval
