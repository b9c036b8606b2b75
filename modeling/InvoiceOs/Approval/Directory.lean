import InvoiceOs.Approval.Engine

/-! The workspace directory the approval calls read: members, workflow roles, clients. -/

namespace InvoiceOs.Approval

inductive AccessRole where
  | admin
  | reviewer
  | preparer
  deriving DecidableEq, Repr

structure Member where
  userID : Uuid
  role : AccessRole
  active : Bool
  allClients : Bool := false
  clients : List Uuid := []

structure WorkflowRole where
  id : Uuid
  key : String
  title : String
  deleted : Bool := false
  members : List Uuid := []

structure SupplierContact where
  email : Option String := none
  telephone : Option String := none
  street : Option String := none
  city : Option String := none
  postalZone : Option String := none
  country : Option String := none
  state : Option String := none
  lga : Option String := none

structure Entity where
  id : Uuid
  name : String
  tin : Option String := none
  contact : SupplierContact := {}

structure Directory where
  isFirm : Bool
  members : List Member
  roles : List WorkflowRole
  entities : List Entity := []
  currencies : List String := []

def isApprover (role : AccessRole) : Bool := role == .admin || role == .reviewer

namespace Directory

def entity? (d : Directory) (id : Uuid) : Option Entity := d.entities.find? fun e => e.id == id

def accessRole (d : Directory) (subject : Uuid) : Option AccessRole :=
  (d.members.find? fun m => m.userID == subject && m.active).map Member.role

def requireApprover (d : Directory) (subject : Uuid) : Except Err Unit :=
  match d.accessRole subject with
  | none => throw .notPermitted
  | some role => if isApprover role then pure () else throw .notPermitted

def requireActiveAdmin (d : Directory) (subject : Uuid) : Except Err Unit :=
  match d.accessRole subject with
  | none => throw .notPermitted
  | some role => if role == .admin then pure () else throw .notPermitted

def holdsRoleKey (d : Directory) (key : String) (subject : Uuid) : Bool :=
  d.roles.any fun wr => wr.key == key && !wr.deleted && wr.members.contains subject &&
    d.members.any fun m => m.userID == subject && m.active && isApprover m.role

def liveRoleKeys (d : Directory) : List String :=
  (d.roles.filter fun wr => !wr.deleted).map WorkflowRole.key

def roleIDsOf (d : Directory) (user : Uuid) : List Uuid :=
  (d.roles.filter fun wr => !wr.deleted && wr.members.contains user).map WorkflowRole.id

def otherApprovers (d : Directory) (subject entityID : Uuid) : List Member :=
  d.members.filter fun m => m.active && isApprover m.role && m.userID != subject &&
    (!d.isFirm || m.role == .admin || m.allClients || m.clients.contains entityID)

end Directory

structure CreatorStanding where
  isCreator : Bool := false
  otherApprover : Bool := false
  otherRoleHolder : Bool := false
  deriving DecidableEq

def creatorRefusedReason : String :=
  "You created this invoice, so another approver must approve it."

def creatorNoRoleHolderReason : String :=
  "No other approver holds the role this step is waiting on. " ++
    "An admin must give one of them that role."

def CreatorStanding.refusal (s : CreatorStanding) : Option String :=
  if !s.isCreator || !s.otherApprover then none
  else if !s.otherRoleHolder then
    some (creatorRefusedReason ++ " " ++ creatorNoRoleHolderReason)
  else some creatorRefusedReason

/-- The standing of one probe; `isCreator` is read off the invoice's genesis row. -/
def creatorStandingTx (d : Directory) (subject : Uuid) (isCreator : Bool) (entityID : Uuid)
    (roleKey : Option String) : CreatorStanding :=
  if !isCreator then {}
  else
    let others := d.otherApprovers subject entityID
    if others.isEmpty then { isCreator := true }
    else {
      isCreator := true
      otherApprover := true
      otherRoleHolder := others.any fun m => d.roles.any fun wr =>
        roleKey == some wr.key && !wr.deleted && wr.members.contains m.userID }

def delegateMayDecide (allow : Bool) (delegateUserID : Option Uuid) (subject : Uuid) : Bool :=
  allow && (delegateUserID.isNone || delegateUserID == some subject)

end InvoiceOs.Approval
