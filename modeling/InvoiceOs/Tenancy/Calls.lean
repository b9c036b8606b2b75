import InvoiceOs.Lib.Interleave
import InvoiceOs.Tenancy.Members

/-! The calls on members and roles as transactions: an unlocked first read, the tenant lock,
the row locks one by one, the guards over the locked rows, the check of the role keys, the
commit. Decisions and cancellations of runs come between any two of these. -/

namespace InvoiceOs.Tenancy

open Lib Approval

inductive Call where
  | setMembershipStatus (caller target : Uuid) (status : MemberStatus)
  | removeMember (caller target : Uuid)
  | setMemberRole (caller target : Uuid) (role : AccessRole)
  | deleteMyAccount (caller : Uuid) (email : String) (want : Outcome) (heir : Option Uuid)
  | staffDeleteAccount (actor target : Uuid) (want : Outcome) (heir : Option Uuid)
  | setRoleMembers (caller : Uuid) (key : String) (members : List Uuid)
  | deleteRole (caller : Uuid) (key : String)

abbrev Rows := List (Uuid × Membership)

namespace Workspace

def gate (ws : Workspace) (caller : Uuid) : Except MemberErr Unit := do
  if !ws.isActiveMember caller then
    throw .notActiveMember
  if ws.locked then
    throw .workspaceLocked

def requireActiveAdminCaller (ws : Workspace) (caller : Uuid) : Except MemberErr Unit := do
  ws.gate caller
  if !ws.isAdmin caller then
    throw .notPermitted

def refuseHouseTenant (ws : Workspace) (actor : Uuid) : Except MemberErr Unit :=
  if ws.isActiveMember actor then throw .houseWorkspace else pure ()

def hasLiveRole (ws : Workspace) (key : String) : Bool := ws.db.directory.liveRoleKeys.contains key

def decide (ws : Workspace) (invoice caller : Uuid) (decision : Decision)
    (reason : Option String) : Option Workspace :=
  (Approval.decide ws.view invoice caller decision reason).toOption.map fun db =>
    { ws with db := { ws.db with invoices := db.invoices, runs := db.runs } }

def cancelRun (ws : Workspace) (invoice : Uuid) (actor : Subject) : Workspace :=
  { ws with db := cancelLiveRunTx ws.db invoice actor }

end Workspace

def targetRow (target : Uuid) (rows : Rows) : Option Membership :=
  (rows.find? fun e => e.1 == target).map Prod.snd

def otherAdmins (target : Uuid) (rows : Rows) : Bool :=
  rows.any fun e => e.1 != target && e.2.isActiveAdmin

inductive Verdict where
  | unchanged
  | write
  deriving DecidableEq

namespace Call

def precheck (call : Call) (ws : Workspace) : Except MemberErr Unit :=
  match call with
  | setMembershipStatus caller _ status =>
    if status ≠ .active ∧ status ≠ .suspended then throw .invalidStatus
    else ws.requireActiveAdminCaller caller
  | removeMember caller _ => ws.requireActiveAdminCaller caller
  | setMemberRole caller _ _ => ws.requireActiveAdminCaller caller
  | deleteMyAccount caller _ want heir =>
    if !deleteBodyHeir want heir then throw .badRequest else ws.gate caller
  | staffDeleteAccount actor _ want heir =>
    if !deleteBodyHeir want heir then throw .badRequest
    else do
      ws.refuseHouseTenant actor
      if ws.locked then
        throw .workspaceLocked
  | setRoleMembers caller _ members =>
    if ¬ members.Nodup then throw .validation else ws.requireActiveAdminCaller caller
  | deleteRole caller _ => ws.requireActiveAdminCaller caller

/-- The account deletions do not take `LockTenantPublishTx`. -/
def takesTenant : Call → Bool
  | deleteMyAccount .. => false
  | staffDeleteAccount .. => false
  | _ => true

def selects (call : Call) (e : Uuid × Membership) : Bool :=
  match call with
  | setMembershipStatus _ target _ => e.1 == target || e.2.isActiveAdmin
  | removeMember _ target => e.1 == target || e.2.isActiveAdmin
  | setMemberRole _ target _ => e.1 == target || e.2.isActiveAdmin
  | deleteMyAccount .. => e.2.isActive
  | staffDeleteAccount _ target _ _ => e.2.isActive || e.1 == target
  | setRoleMembers _ _ members => members.contains e.1
  | deleteRole .. => false

def shared : Call → Bool
  | setRoleMembers .. => true
  | _ => false

/-- What the SELECT's snapshot names, in the order it locks. -/
def snapshot (call : Call) (ws : Workspace) : List Uuid :=
  ((ws.members.rows.filter call.selects).map Prod.fst).insertionSort fun a b => a.toNat ≤ b.toNat

def decision (call : Call) (rows : Rows) : Outcome × Option (Uuid × Membership) :=
  match call with
  | deleteMyAccount caller _ _ _ => decideAccountDeletion caller rows
  | staffDeleteAccount _ target _ _ =>
    decideAccountDeletion target (rows.filter fun e => e.2.isActive)
  | _ => (.leave, none)

def guard (call : Call) (rows : Rows) : Except MemberErr Verdict :=
  match call with
  | setMembershipStatus _ target status =>
    match targetRow target rows with
    | none => throw .membershipNotFound
    | some m =>
      if m.status = .invited then throw .invitedNotTransitionable
      else if m.status = .removed then throw .removedNotTransitionable
      else if m.status = status then pure .unchanged
      else if status = .suspended ∧ m.role = .admin ∧ ¬ otherAdmins target rows then
        throw .lastActiveAdmin
      else pure .write
  | removeMember _ target =>
    match targetRow target rows with
    | none => throw .membershipNotFound
    | some m =>
      if m.status = .removed then pure .unchanged
      else if m.isActiveAdmin ∧ ¬ otherAdmins target rows then throw .lastActiveAdmin
      else pure .write
  | setMemberRole _ target role =>
    match targetRow target rows with
    | none => throw .membershipNotFound
    | some m =>
      if m.status = .invited then throw .invitedNotTransitionable
      else if m.status = .removed then throw .removedNotTransitionable
      else if m.role = role then pure .unchanged
      else if m.isActiveAdmin ∧ ¬ otherAdmins target rows then throw .lastActiveAdmin
      else pure .write
  | deleteMyAccount caller email want heir =>
    if !outcomeHolds (decideAccountDeletion caller rows) want heir then
      throw .deletionOutcomeChanged
    else
      match targetRow caller rows with
      | none => throw .notActiveMember
      | some self =>
        if blank self.email ∧ blank (some email) then throw .noEraseEmail else pure .write
  | staffDeleteAccount _ target want heir =>
    match targetRow target rows with
    | none => throw .membershipNotFound
    | some self =>
      let got := decideAccountDeletion target (rows.filter fun e => e.2.isActive)
      if self.status = .removed then throw .membershipNotFound
      else if got.1 = .deleteWorkspace then throw .lastActiveMember
      else if !outcomeHolds got want heir then throw .deletionOutcomeChanged
      else pure .write
  | setRoleMembers .. =>
    if rows.any fun e => e.2.status == .removed then throw .validation else pure .write
  | deleteRole .. => pure .write

def roleKeys (call : Call) (ws : Workspace) : Except MemberErr (List String) :=
  match call with
  | setMembershipStatus _ target status =>
    pure (if status = .suspended then staffedRoleKeysTx ws.db.directory target else [])
  | removeMember _ target => pure (staffedRoleKeysTx ws.db.directory target)
  | setMemberRole _ target role =>
    pure (if role = .preparer then staffedRoleKeysTx ws.db.directory target else [])
  | deleteMyAccount .. => pure []
  | staffDeleteAccount .. => pure []
  | setRoleMembers _ key members =>
    if members.any fun u => (ws.members.get? u).isNone then throw .validation else pure [key]
  | deleteRole _ key =>
    if policyNamesRole ws.db key ∨ openRunsOnRoleTx ws.db key ≠ [] then throw .roleInUse
    else if !ws.hasLiveRole key then throw .notFound
    else pure []

def findRole (call : Call) (ws : Workspace) : Except MemberErr Unit :=
  match call with
  | setRoleMembers _ key _ => if !ws.hasLiveRole key then throw .notFound else pure ()
  | _ => pure ()

def judge (call : Call) (ws : Workspace) (rows : Rows) : Except MemberErr (Option (List String)) :=
  do
    call.findRole ws
    let verdict ← call.guard rows
    if verdict = .unchanged then return none
    else do
      let keys ← call.roleKeys ws
      return some keys

/-- A demoted firm admin keeps every client. -/
def changeRole (isFirm : Bool) (role : AccessRole) (m : Membership) : Membership :=
  if m.role = .admin ∧ isFirm then { m with role := role, allClients := true, clients := [] }
  else { m with role := role }

def staffRole (key : String) (members : List Uuid) (wr : WorkflowRole) : WorkflowRole :=
  if wr.key = key ∧ !wr.deleted then { wr with members := members } else wr

def dropRole (key : String) (wr : WorkflowRole) : WorkflowRole :=
  if wr.key = key ∧ !wr.deleted then { wr with deleted := true } else wr

def write (call : Call) (rows : Rows) (ws : Workspace) : Workspace :=
  match call with
  | setMembershipStatus _ target status =>
    { ws with members := ws.members.modify target fun m => { m with status := status } }
  | removeMember _ target => ws.endMembership target
  | setMemberRole _ target role =>
    { ws with members := ws.members.modify target (changeRole ws.db.directory.isFirm role) }
  | deleteMyAccount caller email want heir =>
    deleteAccount ws caller (decision (deleteMyAccount caller email want heir) rows)
  | staffDeleteAccount actor target want heir =>
    deleteAccount ws target (decision (staffDeleteAccount actor target want heir) rows)
  | setRoleMembers _ key members => ws.withRoles (staffRole key members)
  | deleteRole _ key => ws.withRoles (dropRole key)

end Call

/-! ### The transactions -/

inductive Task where
  | idle
  | begun (call : Call)
  | inTenant (call : Call)
  | locking (call : Call) (todo : List Uuid) (locked : Rows)
  | writing (call : Call) (locked : Rows) (keys : List String)

inductive Act where
  | begin (call : Call)
  | lockTenant
  | select
  | lockRow
  | judge
  | check
  | commit
  | abort
  | decide (invoice caller : Uuid) (decision : Decision) (reason : Option String)
  | cancelRun (invoice : Uuid) (actor : Subject)

inductive Lock where
  | tenant
  | row (user : Uuid) (shared : Bool)

namespace Lock

def conflicts : Lock → Lock → Bool
  | .tenant, .tenant => true
  | .row u s, .row v t => u == v && !(s && t)
  | _, _ => false

theorem conflicts_symm (a b : Lock) (h : conflicts a b = true) : conflicts b a = true := by
  cases a with
  | tenant =>
    cases b with
    | tenant => rfl
    | row v t => cases h
  | row u s =>
    cases b with
    | tenant => cases h
    | row v t =>
      simp only [conflicts, Bool.and_eq_true, beq_iff_eq, Bool.not_eq_true'] at h ⊢
      exact ⟨h.1.symm, Bool.and_comm t s ▸ h.2⟩

end Lock

def lockedRow (ws : Workspace) (user : Uuid) : Rows :=
  ((ws.members.get? user).map fun m => (user, m)).toList

/-- The locked rows the SELECT returns: each is matched again as it stands under its lock. -/
def Call.selected (call : Call) (locked : Rows) : Rows := locked.filter call.selects

namespace Task

def held (call : Call) (locked : Rows) : List Lock :=
  (if call.takesTenant then [.tenant] else []) ++ locked.map fun e => .row e.1 call.shared

def holds : Task → List Lock
  | idle => []
  | begun _ => []
  | inTenant _ => [.tenant]
  | locking call _ locked => held call locked
  | writing call locked _ => held call locked

def needs (t : Task) (a : Act) : List Lock :=
  match t, a with
  | begun _, .lockTenant => [.tenant]
  | locking call (u :: _) _, .lockRow => [.row u call.shared]
  | _, _ => []

def judged (call : Call) (locked : Rows) : Except MemberErr (Option (List String)) → Task
  | .ok (some keys) => writing call locked keys
  | _ => idle

end Task

/-- One statement of a transaction; `abort` is any failure, and every failure rolls back. -/
def next (ws : Workspace) (t : Task) (a : Act) : Option (Workspace × Task) :=
  match t, a with
  | .idle, .begin call => (call.precheck ws).toOption.map fun _ => (ws, .begun call)
  | .idle, .decide invoice caller decision reason =>
    (ws.decide invoice caller decision reason).map fun ws' => (ws', .idle)
  | .idle, .cancelRun invoice actor => some (ws.cancelRun invoice actor, .idle)
  | .begun call, .lockTenant => if call.takesTenant then some (ws, .inTenant call) else none
  | .begun call, .select =>
    if call.takesTenant then none else some (ws, .locking call (call.snapshot ws) [])
  | .inTenant call, .select => some (ws, .locking call (call.snapshot ws) [])
  | .locking call (u :: todo) locked, .lockRow =>
    some (ws, .locking call todo (locked ++ lockedRow ws u))
  | .locking call [] locked, .judge =>
    some (ws, .judged call locked (call.judge ws (call.selected locked)))
  | .writing call locked (key :: keys), .check =>
    -- reads its own write
    if unsignedWaiting (call.write (call.selected locked) ws).view key then some (ws, .idle)
    else some (ws, .writing call locked keys)
  | .writing call locked [], .commit => some (call.write (call.selected locked) ws, .idle)
  | _, .abort => some (ws, .idle)
  | _, _ => none

inductive Move (ws : Workspace) : Task → Act → Workspace → Task → Prop where
  | begin {call} (hprecheck : call.precheck ws = .ok ()) : Move ws .idle (.begin call) ws (.begun call)
  | decide {invoice caller decision reason db}
      (hdecide : Approval.decide ws.view invoice caller decision reason = .ok db) :
      Move ws .idle (.decide invoice caller decision reason)
        { ws with db := { ws.db with invoices := db.invoices, runs := db.runs } } .idle
  | cancelRun {invoice actor} :
      Move ws .idle (.cancelRun invoice actor) (ws.cancelRun invoice actor) .idle
  | lockTenant {call} (htenant : call.takesTenant = true) :
      Move ws (.begun call) .lockTenant ws (.inTenant call)
  | select {t call} (ht : t = .begun call ∧ call.takesTenant = false ∨ t = .inTenant call) :
      Move ws t .select ws (.locking call (call.snapshot ws) [])
  | lockRow {call u todo locked} :
      Move ws (.locking call (u :: todo) locked) .lockRow ws
        (.locking call todo (locked ++ lockedRow ws u))
  | refused {call locked} : Move ws (.locking call [] locked) .judge ws .idle
  | judged {call locked keys}
      (hjudge : call.judge ws (call.selected locked) = .ok (some keys)) :
      Move ws (.locking call [] locked) .judge ws (.writing call locked keys)
  | unsigned {call locked key keys} : Move ws (.writing call locked (key :: keys)) .check ws .idle
  | signed {call locked key keys}
      (hsigned : unsignedWaiting (call.write (call.selected locked) ws).view key = false) :
      Move ws (.writing call locked (key :: keys)) .check ws (.writing call locked keys)
  | commit {call locked} :
      Move ws (.writing call locked []) .commit (call.write (call.selected locked) ws) .idle
  | abort {t} : Move ws t .abort ws .idle

theorem next_move {ws ws' : Workspace} {t t' : Task} {a : Act}
    (h : next ws t a = some (ws', t')) : Move ws t a ws' t' := by
  unfold next at h
  split at h
  · obtain ⟨_, hprecheck, hpair⟩ := Option.map_eq_some_iff.mp h
    cases hpair
    exact .begin (toOption_eq_some.mp hprecheck)
  · obtain ⟨ws₁, hdecide, hpair⟩ := Option.map_eq_some_iff.mp h
    cases hpair
    obtain ⟨db, hdb, rfl⟩ := Option.map_eq_some_iff.mp hdecide
    exact .decide (toOption_eq_some.mp hdb)
  · cases h
    exact .cancelRun
  · split at h
    · rename_i htenant
      cases h
      exact .lockTenant htenant
    · cases h
  · split at h
    · cases h
    · rename_i htenant
      cases h
      exact .select (.inl ⟨rfl, Bool.eq_false_iff.mpr htenant⟩)
  · cases h
    exact .select (.inr rfl)
  · cases h
    exact .lockRow
  · cases h
    unfold Task.judged
    split
    · rename_i keys hjudge
      exact .judged hjudge
    · exact .refused
  · split at h
    · cases h
      exact .unsigned
    · rename_i hsigned
      cases h
      exact .signed (Bool.eq_false_iff.mpr hsigned)
  · cases h
    exact .commit
  · cases h
    exact .abort
  · cases h

theorem mem_held {call : Call} {locked : Rows} {l : Lock} : l ∈ Task.held call locked ↔
    (call.takesTenant = true ∧ l = .tenant) ∨ ∃ e ∈ locked, l = .row e.1 call.shared := by
  unfold Task.held
  rw [List.mem_append, List.mem_map]
  refine or_congr ?_ (exists_congr fun e => and_congr_right fun _ => eq_comm)
  split
  · rename_i htenant
    simp only [htenant, true_and, List.mem_singleton]
  · rename_i htenant
    simp only [htenant, Bool.false_eq_true, false_and, List.not_mem_nil]

theorem mem_lockedRow {ws : Workspace} {user : Uuid} {e : Uuid × Membership} :
    e ∈ lockedRow ws user ↔ e.1 = user ∧ ws.members.get? user = some e.2 := by
  unfold lockedRow
  rw [Option.mem_toList, Option.map_eq_some_iff]
  constructor
  · rintro ⟨m, hm, rfl⟩
    exact ⟨rfl, hm⟩
  · rintro ⟨rfl, hm⟩
    exact ⟨e.2, hm, rfl⟩

theorem holds_next (ws : Workspace) (t : Task) (a : Act) (ws' : Workspace) (t' : Task)
    (h : next ws t a = some (ws', t')) : ∀ l ∈ t'.holds, l ∈ t.holds ∨ l ∈ t.needs a := by
  intro l hl
  cases next_move h with
  | begin => cases hl
  | decide => cases hl
  | cancelRun => cases hl
  | lockTenant => exact .inr hl
  | select ht =>
    obtain ⟨htenant, rfl⟩ | ⟨e, he, -⟩ := mem_held.mp hl
    · obtain ⟨-, hno⟩ | rfl := ht
      · rw [hno] at htenant
        cases htenant
      · exact .inl (List.mem_singleton.mpr rfl)
    · cases he
  | lockRow =>
    obtain htenant | ⟨e, he, rfl⟩ := mem_held.mp hl
    · exact .inl (mem_held.mpr (.inl htenant))
    · obtain he | he := List.mem_append.mp he
      · exact .inl (mem_held.mpr (.inr ⟨e, he, rfl⟩))
      · rw [(mem_lockedRow.mp he).1]
        exact .inr (List.mem_singleton.mpr rfl)
  | refused => cases hl
  | judged => exact .inl hl
  | unsigned => cases hl
  | signed => exact .inl hl
  | commit => cases hl
  | abort => cases hl

def protocol : Protocol Workspace Task Act Lock where
  idle := .idle
  holds := Task.holds
  needs _ := Task.needs
  conflicts := Lock.conflicts
  next := next
  holds_idle := rfl
  conflicts_symm := Lock.conflicts_symm
  holds_next := holds_next

end InvoiceOs.Tenancy
