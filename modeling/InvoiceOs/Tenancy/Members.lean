import InvoiceOs.Approval.Decision

/-! The members of one workspace and what the calls on them write: a status, a role, an ended
membership with its staffing, a role's staffing, a deleted role. -/

namespace InvoiceOs.Tenancy

open Lib Approval

inductive MemberStatus where
  | active
  | invited
  | suspended
  | removed
  deriving DecidableEq, Repr

structure Membership where
  role : AccessRole
  status : MemberStatus := .active
  createdAt : ℕ
  email : Option String := none
  allClients : Bool := false
  clients : List Uuid := []
  deriving DecidableEq

/-- The other tables are the workspace's own; its directory's members are read off the rows. -/
structure Workspace where
  db : Db
  members : Table Uuid Membership
  locked : Bool := false

inductive MemberErr where
  | notPermitted
  | invalidStatus
  | badRequest
  | membershipNotFound
  | invitedNotTransitionable
  | removedNotTransitionable
  | lastActiveAdmin
  | roleInUse
  | notFound
  | validation
  | deletionOutcomeChanged
  | notActiveMember
  | noEraseEmail
  | houseWorkspace
  | workspaceLocked
  | lastActiveMember
  deriving DecidableEq

def Membership.isActive (m : Membership) : Bool := m.status == .active

def Membership.isActiveAdmin (m : Membership) : Bool := m.role == .admin && m.isActive

namespace Workspace

def directory (ws : Workspace) : Directory :=
  { ws.db.directory with members := ws.members.rows.map fun e => {
      userID := e.1
      role := e.2.role
      active := e.2.isActive
      allClients := e.2.allClients
      clients := e.2.clients } }

def view (ws : Workspace) : Db := { ws.db with directory := ws.directory }

def withRoles (ws : Workspace) (f : WorkflowRole → WorkflowRole) : Workspace :=
  { ws with db := { ws.db with directory := { ws.db.directory with
      roles := ws.db.directory.roles.map f } } }

def isActiveMember (ws : Workspace) (user : Uuid) : Bool :=
  (ws.members.get? user).any Membership.isActive

def isAdmin (ws : Workspace) (user : Uuid) : Bool :=
  (ws.members.get? user).any Membership.isActiveAdmin

/-- The removed end state; the role stays. -/
def endMembership (ws : Workspace) (user : Uuid) : Workspace :=
  ({ ws with members := ws.members.modify user fun m =>
      { m with status := .removed, email := none, allClients := false, clients := [] } }).withRoles
    fun wr => { wr with members := wr.members.filter fun u => u != user }

end Workspace

/-! ### Account deletion -/

inductive Outcome where
  | leave
  | handOn
  | deleteWorkspace
  deriving DecidableEq, Repr

def earlier (m heir : Uuid × Membership) : Bool :=
  m.2.createdAt < heir.2.createdAt ||
    (m.2.createdAt == heir.2.createdAt && m.1.toNat < heir.1.toNat)

def betterHeir (caller : Uuid) (heir : Option (Uuid × Membership)) (m : Uuid × Membership) :
    Option (Uuid × Membership) :=
  if m.1 = caller then heir
  else match heir with
    | none => some m
    | some h => if earlier m h then some m else heir

def decideAccountDeletion (caller : Uuid) (active : List (Uuid × Membership)) :
    Outcome × Option (Uuid × Membership) :=
  let self := active.find? fun m => m.1 == caller
  let otherAdmins := active.any fun m => m.1 != caller && m.2.role == .admin
  match active.foldl (betterHeir caller) none with
  | none => (.deleteWorkspace, none)
  | some heir =>
    if !(self.any fun m => m.2.role == .admin) || otherAdmins then (.leave, none)
    else (.handOn, some heir)

/-- A leave names no heir, a hand-on one; the route takes no other outcome. -/
def deleteBodyHeir (want : Outcome) (heir : Option Uuid) : Bool :=
  match want with
  | .leave => heir.isNone
  | .handOn => heir.isSome
  | .deleteWorkspace => false

def outcomeHolds (got : Outcome × Option (Uuid × Membership)) (want : Outcome)
    (heir : Option Uuid) : Bool :=
  got.1 == want && (got.1 != .handOn || got.2.map Prod.fst == heir)

def handOn (ws : Workspace) (got : Outcome × Option (Uuid × Membership)) : Workspace :=
  match got with
  | (.handOn, some heir) =>
    { ws with members := ws.members.modify heir.1 fun m => { m with role := .admin } }
  | _ => ws

def deleteAccount (ws : Workspace) (user : Uuid) (got : Outcome × Option (Uuid × Membership)) :
    Workspace :=
  (handOn ws got).endMembership user

/-! ### The signers of a role -/

/-- The invoices whose open run waits on the live role. -/
def openRunsOnRoleTx (db : Db) (key : String) : List Uuid :=
  ((db.runs.rows.filter fun e => e.2.state == .open &&
    (db.invoices.get? e.2.invoiceID).any (fun r => r.status == .validated) &&
      db.directory.liveRoleKeys.contains key &&
        e.2.steps.any fun s => s.pendingApproval && s.workflowRoleKey == some key)).map
          fun e => e.2.invoiceID

def unsignedWaitingInvoicesTx (db : Db) (key : String) (candidates : List Uuid) : List Uuid :=
  if candidates.any fun u => db.directory.holdsRoleKey key u then [] else openRunsOnRoleTx db key

/-- The live roles the user has a member row in, whatever its standing. -/
def staffedRoleKeysTx (d : Directory) (user : Uuid) : List String :=
  (d.roles.filter fun wr => !wr.deleted && wr.members.contains user).map WorkflowRole.key

def staffing (d : Directory) (key : String) : List Uuid :=
  (d.roles.filter fun wr => wr.key == key && !wr.deleted).flatMap WorkflowRole.members

/-- One role of `RefuseUnsignedWaitingRolesTx`; a role that is gone waits for nobody. -/
def unsignedWaiting (db : Db) (key : String) : Bool :=
  !(unsignedWaitingInvoicesTx db key (staffing db.directory key)).isEmpty

mutual

def namesRole (key : String) : Step → Bool
  | ⟨kind, workflowRoleKey, _, _, _, _, _, _, _, thenLane, elseLane⟩ =>
    (kind == .approval && workflowRoleKey == some key) || laneNamesRole key thenLane ||
      laneNamesRole key elseLane

def laneNamesRole (key : String) : List Step → Bool
  | [] => false
  | s :: lane => namesRole key s || laneNamesRole key lane

end

def policyNamesRole (db : Db) (key : String) : Bool :=
  (db.directory.roles.filter fun wr => wr.key == key && !wr.deleted).any fun wr =>
    (readInForceVersionsTx db.policies).any fun v =>
      v.scopes.roleIDs.contains wr.id || laneNamesRole key (readPolicyTree db.policies v.versionID)

end InvoiceOs.Tenancy
