import InvoiceOs.Lib.Interleave
import InvoiceOs.Lib.Refusal
import InvoiceOs.Tenancy.Members
import InvoiceOs.Text
import InvoiceOs.Deletion.Life

/-! The deletion of one workspace: its schedule, its cancel with or without a link, and the purge
with its three transactions and the files between them, statement by statement. -/

namespace InvoiceOs.Deletion

open Lib Approval Tenancy

/-- 30 days; instants are in microseconds. -/
def dueAfter : ℕ := 30 * 24 * 60 * 60 * 1000000

structure Schedule where
  scheduledAt : ℕ
  scheduledBy : Uuid
  purgeStartedAt : Option ℕ := none
  deriving DecidableEq

/-- `deletion_due_at`, which a trigger derives. -/
def Schedule.dueAt (s : Schedule) : ℕ := s.scheduledAt + dueAfter

structure TenantRow where
  name : String
  schedule : Option Schedule := none
  deriving DecidableEq

structure Member where
  role : AccessRole
  status : MemberStatus := .active
  displayName : Option String := none
  email : Option String := none

structure Link where
  recipient : Uuid
  tokenHash : String
  expiresAt : ℕ
  deriving DecidableEq

structure CancelMail where
  recipient : Uuid
  cancelledDueAt : ℕ
  deriving DecidableEq

inductive AuditRow where
  | deletionScheduled (actor : Uuid) (dueAt : ℕ)
  | deletionCancelled (actor : Uuid) (dueAt : ℕ)
  deriving DecidableEq

/-- The objects are those under the workspace's prefix. Nothing reads the journal. -/
structure Store where
  house : Bool := false
  tenant : Option TenantRow
  members : Table Uuid Member := ∅
  links : List Link := []
  cancelMails : List CancelMail := []
  audit : List AuditRow := []
  erasures : List Erasure := []
  objects : List String := []
  staff : List StaffRow := []
  journal : List Entry := []

inductive DeletionErr where
  | notActiveMember
  | workspaceLocked
  | deleteWorkspaceNotPermitted
  | workspaceNameMismatch
  | houseWorkspace
  | duplicateToken
  | noEntropy
  | cancelDeletionNotPermitted
  | deletionLinkNotValid
  | deletionUnderway
  | noAccountReader
  | accountUnread
  | stillLists
  | neverPurged
  | noRows
  deriving DecidableEq

/-! ### Reads -/

def gate (σ : Store) (subject : Uuid) : Except DeletionErr Unit :=
  match σ.members.get? subject, σ.tenant with
  | some m, some r =>
    if m.status ≠ .active then throw .notActiveMember
    else if r.schedule.isSome then throw .workspaceLocked
    else pure ()
  | _, _ => throw .notActiveMember

def requireActiveAdminCaller (σ : Store) (subject : Uuid) : Except DeletionErr Unit :=
  match σ.members.get? subject with
  | none => throw .deleteWorkspaceNotPermitted
  | some m =>
    if m.status ≠ .active ∨ m.role ≠ .admin then throw .deleteWorkspaceNotPermitted else pure ()

/-- A cancel skips the seam and gates the active admin itself. -/
def gateCancel (σ : Store) (subject : Uuid) : Except DeletionErr Unit :=
  match σ.members.get? subject with
  | none => throw .notActiveMember
  | some m =>
    if m.status ≠ .active then throw .notActiveMember
    else if m.role ≠ .admin then throw .cancelDeletionNotPermitted
    else pure ()

/-- `COALESCE(NULLIF(display_name, ''), email, '')`. -/
def mailName (σ : Store) (subject : Uuid) : Except DeletionErr String :=
  match σ.members.get? subject with
  | none => throw .noRows
  | some m => pure (((m.displayName.filter (· ≠ "")).or m.email).getD "")

def byUser {α : Type} (rows : List (Uuid × α)) : List (Uuid × α) :=
  rows.insertionSort fun a b => a.1 ≤ b.1

def otherActiveAdmins (σ : Store) (subject : Uuid) : List (Uuid × String) :=
  byUser (σ.members.rows.filterMap fun e =>
    if e.2.role = .admin ∧ e.2.status = .active ∧ e.1 ≠ subject then e.2.email.map (e.1, ·)
    else none)

/-- A 32-byte token in unpadded base64url. -/
def inviteTokenShape (token : String) : Bool :=
  token.toList.length == 43 && token.toList.all fun c =>
    ('A' ≤ c && c ≤ 'Z') || ('a' ≤ c && c ≤ 'z') || ('0' ≤ c && c ≤ '9') || c == '_' || c == '-'

def lockDue (σ : Store) (now : ℕ) : Option ℕ :=
  (σ.tenant.bind TenantRow.schedule).bind fun s =>
    if s.dueAt ≤ now ∨ s.purgeStartedAt.isSome then some s.dueAt else none

def listKeys (objects : List String) : List String :=
  (objects.insertionSort (· ≤ ·)).take 1000

/-! ### Calls -/

structure ScheduleCall where
  caller : Uuid
  typedName : String

structure CancelCall where
  caller : Uuid
  token : Option String := none

inductive Phase where
  | locked
  | erasing (now : ℕ)
  | due (now due : ℕ)
  | members (now due : ℕ) (ms : List (Uuid × String))
  | jobs (now due : ℕ) (jobs : List Erasure)
  | files (due queued : ℕ) (prev : List String) (total : ℕ)
  | listed (due queued : ℕ) (keys : List String) (total : ℕ)
  | emptied (due queued total : ℕ)
  | purging (due queued total now : ℕ)
  | stillDue (due queued total again : ℕ)
  | purged

/-- A call by the last statement of its transaction; `now` is the transaction's start. -/
inductive Task where
  | idle
  | scheduling (q : ScheduleCall) (now : ℕ)
  | named (q : ScheduleCall) (now : ℕ) (name : String)
  | marked (q : ScheduleCall) (now : ℕ) (name : String)
  | issued (q : ScheduleCall) (now : ℕ) (out : ScheduledDeletion)
  | cancelling (q : CancelCall) (now : ℕ)
  | held (q : CancelCall) (now : ℕ) (due : Option ℕ)
  | checked (q : CancelCall) (due : ℕ)
  | cleared (q : CancelCall) (due : ℕ)
  | mailing (q : CancelCall) (out : CancelledDeletion)
  | purge (session : Bool) (phase : Phase)

/-- `issueLinks` brings what the random source returns, `readAccounts` the account reader's
answers. -/
inductive Act where
  | schedule (q : ScheduleCall) (now : ℕ)
  | cancel (q : CancelCall) (now : ℕ)
  | tryLock
  | sessionLost
  | begin (now : ℕ)
  | readName
  | mark
  | issueLinks (tokens : List String)
  | selectForUpdate
  | checkLink
  | clear
  | readAdmins
  | lockDue
  | readMembers
  | readAccounts (accounts : Option (Uuid → Option String))
  | listObjects
  | deleteMany
  | commit
  | finish
  | abort
  | members (ms : Table Uuid Member)
  | rename (name : String)
  | put (key : String)

inductive Lock where
  | session
  | row
  deriving DecidableEq

def Lock.conflicts (a b : Lock) : Bool := a == b

def Phase.holds : Phase → List Lock
  | .due .. => [.row]
  | .members .. => [.row]
  | .jobs .. => [.row]
  | .stillDue .. => [.row]
  | _ => []

def Task.holds : Task → List Lock
  | .marked .. => [.row]
  | .issued .. => [.row]
  | .held .. => [.row]
  | .checked .. => [.row]
  | .cleared .. => [.row]
  | .mailing .. => [.row]
  | .purge true phase => .session :: phase.holds
  | .purge false phase => phase.holds
  | _ => []

/-- The session lock is only tried: a run that finds it taken returns. -/
def needs (_ : Store) : Task → Act → List Lock
  | .idle, .tryLock => [.session]
  | .named .., .mark => [.row]
  | .cancelling .., .selectForUpdate => [.row]
  | .purge _ (.erasing _), .lockDue => [.row]
  | .purge _ (.purging ..), .lockDue => [.row]
  | .idle, .rename _ => [.row]
  | _, _ => []

/-! ### Statements -/

section
variable (hash toLower : String → String)

def checkName (σ : Store) (q : ScheduleCall) : Except DeletionErr String :=
  match σ.tenant with
  | none => throw .noRows
  | some r => if q.typedName ≠ r.name then throw .workspaceNameMismatch else pure r.name

/-- The conditional update of a schedule and the trigger on it. -/
def checkUnscheduled (σ : Store) : Except DeletionErr Unit :=
  match σ.tenant with
  | none => throw .workspaceLocked
  | some r =>
    if r.schedule.isSome then throw .workspaceLocked
    else if σ.house then throw .houseWorkspace
    else pure ()

/-- One link for each recipient; a token's hash is unique. -/
def issueDeletionLinks :
    List String → List (Uuid × String) → List String → Except DeletionErr (List IssuedDeletionLink)
  | _, [], _ => pure []
  | _, _ :: _, [] => throw .noEntropy
  | hashes, a :: admins, token :: tokens =>
    if hash token ∈ hashes then throw .duplicateToken
    else do
      let rest ← issueDeletionLinks (hash token :: hashes) admins tokens
      return { recipient := a.1, email := a.2, token := token } :: rest

def issueScheduled (σ : Store) (q : ScheduleCall) (now : ℕ) (name : String)
    (tokens : List String) : Except DeletionErr ScheduledDeletion := do
  let requester ← mailName σ q.caller
  let links ← issueDeletionLinks hash (σ.links.map Link.tokenHash)
    (otherActiveAdmins σ q.caller) tokens
  return { dueAt := now + dueAfter, workspace := name, requester := requester, links := links }

def readDue (σ : Store) : Except DeletionErr (Option ℕ) :=
  match σ.tenant with
  | none => throw .noRows
  | some r => pure (r.schedule.map Schedule.dueAt)

/-- Of an unscheduled workspace any own token will do: the lost race. -/
def checkLink (σ : Store) (q : CancelCall) (now : ℕ) (due : Option ℕ) : Except DeletionErr Unit :=
  match q.token with
  | none => pure ()
  | some token =>
    if ¬ inviteTokenShape token then throw .deletionLinkNotValid
    else if ¬ σ.links.any fun l => l.tokenHash == hash token &&
        due.all fun d => l.expiresAt == d && decide (now < l.expiresAt) then
      throw .deletionLinkNotValid
    else pure ()

/-- The trigger refuses it once the purge started. -/
def clearDeletionSchedule (σ : Store) : Except DeletionErr Unit :=
  if (σ.tenant.bind TenantRow.schedule).any fun s => s.purgeStartedAt.isSome then
    throw .deletionUnderway
  else pure ()

def readCancelled (σ : Store) (q : CancelCall) (due : ℕ) : Except DeletionErr CancelledDeletion :=
  match σ.tenant with
  | none => throw .noRows
  | some r => do
    let canceller ← mailName σ q.caller
    return {
      dueAt := due
      workspace := r.name
      canceller := canceller
      mails := (otherActiveAdmins σ q.caller).map fun a => ⟨a.1, a.2⟩ }

def usableEraseEmail (email : String) : Bool :=
  let n := (toLower (trimSpace email)).utf8ByteSize
  3 ≤ n && n ≤ 254

def normalEraseEmail (email : String) : String := toLower (trimSpace email)

/-- An unusable email is the sign-in account's instead, or the erasure goes by the user id. -/
def eraseJob (accounts : Option (Uuid → Option String)) (m : Uuid × String) :
    Except DeletionErr Erasure :=
  if usableEraseEmail toLower m.2 then pure (.byEmail m.1 (normalEraseEmail toLower m.2))
  else
    match accounts with
    | none => throw .noAccountReader
    | some userEmail =>
      match userEmail m.1 with
      | none => throw .accountUnread
      | some got =>
        if usableEraseEmail toLower got then pure (.byEmail m.1 (normalEraseEmail toLower got))
        else pure (.byID m.1)

def readMembers (σ : Store) : List (Uuid × String) :=
  byUser ((σ.members.rows.filter fun e => e.2.status ≠ .removed).map fun e =>
    (e.1, e.2.email.getD ""))

/-! ### Writes -/

def IssuedDeletionLink.row (due : ℕ) (l : IssuedDeletionLink) : Link where
  recipient := l.recipient
  tokenHash := hash l.token
  expiresAt := due

def commitSchedule (σ : Store) (q : ScheduleCall) (now : ℕ) (out : ScheduledDeletion) : Store :=
  { σ with
    tenant := σ.tenant.map fun r =>
      { r with schedule := some { scheduledAt := now, scheduledBy := q.caller } }
    links := out.links.map (IssuedDeletionLink.row hash out.dueAt) ++ σ.links
    audit := .deletionScheduled q.caller out.dueAt :: σ.audit
    journal := .scheduled out :: σ.journal }

def commitCancel (σ : Store) (q : CancelCall) (out : CancelledDeletion) : Store :=
  { σ with
    tenant := σ.tenant.map fun r => { r with schedule := none }
    cancelMails := (out.mails.map fun m => ⟨m.recipient, out.dueAt⟩) ++ σ.cancelMails
    audit := .deletionCancelled q.caller out.dueAt :: σ.audit
    journal := .cancelled out q.token :: σ.journal }

/-- The start is set once; every run queues its own jobs. -/
def commitErase (σ : Store) (now due : ℕ) (jobs : List Erasure) : Store :=
  { σ with
    tenant := σ.tenant.map fun r => { r with
      schedule := r.schedule.map fun s =>
        { s with purgeStartedAt := some (s.purgeStartedAt.getD now) } }
    erasures := σ.erasures ++ jobs
    journal := jobs.reverse.map (.queued due) ++ .started due :: σ.journal }

def deleteMany (σ : Store) (due : ℕ) (keys : List String) : Store :=
  { σ with
    objects := σ.objects.filter fun k => k ∉ keys
    journal := keys.map (.deleted due) ++ σ.journal }

/-- The staff row, then the tenant row with what cascades from it, then the audit rows. -/
def purgeTenant (σ : Store) (row : StaffRow) : Except DeletionErr Store :=
  if σ.house then throw .neverPurged
  else if σ.tenant.isNone then throw .noRows
  else pure { σ with
    tenant := none
    members := ∅
    links := []
    cancelMails := []
    audit := []
    staff := row :: σ.staff
    journal := .removed row :: σ.journal }

def record (σ : Store) (e : Entry) : Store := { σ with journal := e :: σ.journal }

/-- Any error rolls the transaction back; what it committed before stays. -/
def Task.orIdle : Except DeletionErr Task → Task
  | .ok t => t
  | .error _ => .idle

/-- A page with a key of the page before was not deleted. -/
def readPage (σ : Store) (due queued : ℕ) (prev : List String) (total : ℕ) :
    Except DeletionErr Phase :=
  let keys := listKeys σ.objects
  if keys = [] then pure (.emptied due queued total)
  else if keys.any prev.contains then throw .stillLists
  else pure (.listed due queued keys total)

def nextPurge (σ : Store) (session : Bool) : Phase → Act → Option (Store × Task)
  | .locked, .begin now => some (σ, .purge session (.erasing now))
  | .erasing now, .lockDue =>
    match lockDue σ now with
    | none => some (record σ (.returned false), .idle)
    | some due => some (σ, .purge session (.due now due))
  | .due now due, .readMembers => some (σ, .purge session (.members now due (readMembers σ)))
  | .members now due ms, .readAccounts accounts => some (σ, .orIdle
    ((ms.mapM (eraseJob toLower accounts)).map fun jobs => .purge session (.jobs now due jobs)))
  | .jobs now due jobs, .commit =>
    some (commitErase σ now due jobs, .purge session (.files due jobs.length [] 0))
  | .files due queued prev total, .listObjects =>
    some (σ, .orIdle ((readPage σ due queued prev total).map (.purge session)))
  | .listed due queued keys total, .deleteMany =>
    some (deleteMany σ due keys, .purge session (.files due queued keys (total + keys.length)))
  | .emptied due queued total, .begin now =>
    some (σ, .purge session (.purging due queued total now))
  | .purging due queued total now, .lockDue =>
    match lockDue σ now with
    | none => some (record σ (.returned false), .idle)
    | some again => some (σ, .purge session (.stillDue due queued total again))
  | .stillDue _ queued total again, .commit =>
    match purgeTenant σ { dueAt := again, members := queued, objects := total } with
    | .error _ => some (σ, .idle)
    | .ok σ' => some (σ', .purge session .purged)
  | .purged, .finish => some (record σ (.returned true), .idle)
  | phase, .sessionLost => some (σ, .purge false phase)
  | _, .abort => some (σ, .idle)
  | _, _ => none

def next (σ : Store) : Task → Act → Option (Store × Task)
  | .idle, .schedule q now => some (σ, .orIdle
    ((gate σ q.caller >>= fun _ => requireActiveAdminCaller σ q.caller).map fun _ =>
      .scheduling q now))
  | .scheduling q now, .readName =>
    some (σ, .orIdle ((checkName σ q).map fun name => .named q now name))
  | .named q now name, .mark =>
    some (σ, .orIdle ((checkUnscheduled σ).map fun _ => .marked q now name))
  | .marked q now name, .issueLinks tokens =>
    some (σ, .orIdle ((issueScheduled hash σ q now name tokens).map fun out => .issued q now out))
  | .issued q now out, .commit => some (commitSchedule hash σ q now out, .idle)
  | .idle, .cancel q now =>
    some (σ, .orIdle ((gateCancel σ q.caller).map fun _ => .cancelling q now))
  | .cancelling q now, .selectForUpdate =>
    some (σ, .orIdle ((readDue σ).map fun due => .held q now due))
  | .held q now due, .checkLink =>
    match checkLink hash σ q now due, due with
    | .error _, _ => some (σ, .idle)
    | .ok _, none => some (record σ .unscheduled, .idle)
    | .ok _, some d => some (σ, .checked q d)
  | .checked q due, .clear =>
    some (σ, .orIdle ((clearDeletionSchedule σ).map fun _ => .cleared q due))
  | .cleared q due, .readAdmins =>
    some (σ, .orIdle ((readCancelled σ q due).map fun out => .mailing q out))
  | .mailing q out, .commit => some (commitCancel σ q out, .idle)
  | .idle, .tryLock => some (σ, .purge true .locked)
  | .purge session phase, a => nextPurge toLower σ session phase a
  | .idle, .members ms => if σ.tenant.isSome then some ({ σ with members := ms }, .idle) else none
  | .idle, .rename name =>
    some ({ σ with tenant := σ.tenant.map fun r => { r with name := name } }, .idle)
  | .idle, .put key => some ({ σ with objects := key :: σ.objects }, .idle)
  | _, .abort => some (σ, .idle)
  | _, _ => none

/-! ### What a step can be -/

inductive Reads (σ : Store) : Task → Act → Task → Prop
  | scheduling {q now} : Reads σ .idle (.schedule q now) (.scheduling q now)
  | named {q now name} : Reads σ (.scheduling q now) .readName (.named q now name)
  | marked {q now name} (h : checkUnscheduled σ = .ok ()) :
      Reads σ (.named q now name) .mark (.marked q now name)
  | issued {q now name tokens out} (h : issueScheduled hash σ q now name tokens = .ok out) :
      Reads σ (.marked q now name) (.issueLinks tokens) (.issued q now out)
  | cancelling {q now} : Reads σ .idle (.cancel q now) (.cancelling q now)
  | held {q now due} (h : readDue σ = .ok due) :
      Reads σ (.cancelling q now) .selectForUpdate (.held q now due)
  | checked {q now due} (h : checkLink hash σ q now (some due) = .ok ()) :
      Reads σ (.held q now (some due)) .checkLink (.checked q due)
  | cleared {q due} (h : clearDeletionSchedule σ = .ok ()) :
      Reads σ (.checked q due) .clear (.cleared q due)
  | mailing {q due out} (h : readCancelled σ q due = .ok out) :
      Reads σ (.cleared q due) .readAdmins (.mailing q out)
  | locked : Reads σ .idle .tryLock (.purge true .locked)
  | erasing {session now} :
      Reads σ (.purge session .locked) (.begin now) (.purge session (.erasing now))
  | due {session now due} (h : lockDue σ now = some due) :
      Reads σ (.purge session (.erasing now)) .lockDue (.purge session (.due now due))
  | members {session now due ms} :
      Reads σ (.purge session (.due now due)) .readMembers (.purge session (.members now due ms))
  | jobs {session now due ms accounts jobs} : Reads σ (.purge session (.members now due ms))
      (.readAccounts accounts) (.purge session (.jobs now due jobs))
  | listed {session due queued prev total keys} :
      Reads σ (.purge session (.files due queued prev total)) .listObjects
        (.purge session (.listed due queued keys total))
  | emptied {session due queued prev total} :
      Reads σ (.purge session (.files due queued prev total)) .listObjects
        (.purge session (.emptied due queued total))
  | purging {session due queued total now} :
      Reads σ (.purge session (.emptied due queued total)) (.begin now)
        (.purge session (.purging due queued total now))
  | stillDue {session due queued total now again} (h : lockDue σ now = some again) :
      Reads σ (.purge session (.purging due queued total now)) .lockDue
        (.purge session (.stillDue due queued total again))
  | sessionLost {session phase} :
      Reads σ (.purge session phase) .sessionLost (.purge false phase)
  | ended {t a} : Reads σ t a .idle

inductive Writes (σ : Store) : Task → Act → Store → Task → Prop
  | scheduled {q now out} :
      Writes σ (.issued q now out) .commit (commitSchedule hash σ q now out) .idle
  | cancelled {q out} : Writes σ (.mailing q out) .commit (commitCancel σ q out) .idle
  | unscheduled {q now} (h : checkLink hash σ q now none = .ok ()) :
      Writes σ (.held q now none) .checkLink (record σ .unscheduled) .idle
  | started {session now due jobs} : Writes σ (.purge session (.jobs now due jobs)) .commit
      (commitErase σ now due jobs) (.purge session (.files due jobs.length [] 0))
  | deleted {session due queued keys total} :
      Writes σ (.purge session (.listed due queued keys total)) .deleteMany (deleteMany σ due keys)
        (.purge session (.files due queued keys (total + keys.length)))
  | removed {session due queued total again σ'}
      (h : purgeTenant σ { dueAt := again, members := queued, objects := total } = .ok σ') :
      Writes σ (.purge session (.stillDue due queued total again)) .commit σ'
        (.purge session .purged)
  | notDue {session phase now} (hphase : phase = .erasing now ∨
      ∃ due queued total, phase = .purging due queued total now) (h : lockDue σ now = none) :
      Writes σ (.purge session phase) .lockDue (record σ (.returned false)) .idle
  | finished {session} :
      Writes σ (.purge session .purged) .finish (record σ (.returned true)) .idle
  | members {ms} (h : σ.tenant.isSome) :
      Writes σ .idle (.members ms) { σ with members := ms } .idle
  | renamed {name} : Writes σ .idle (.rename name)
      { σ with tenant := σ.tenant.map fun r => { r with name := name } } .idle
  | put {key} : Writes σ .idle (.put key) { σ with objects := key :: σ.objects } .idle

inductive Move (σ : Store) (t : Task) (a : Act) : Store → Task → Prop
  | reads {t'} (h : Reads hash σ t a t') : Move σ t a σ t'
  | writes {σ' t'} (h : Writes hash σ t a σ' t') : Move σ t a σ' t'

variable {hash toLower} {σ σ' : Store} {t t' : Task} {a : Act}

theorem reads_map {α : Type} {x : Except DeletionErr α} {f : α → Task}
    (h : ∀ y, x = .ok y → Reads hash σ t a (f y)) : Reads hash σ t a (.orIdle (x.map f)) := by
  cases x with
  | ok y => exact h y rfl
  | error e => exact .ended

theorem nextPurge_move {session : Bool} {phase : Phase}
    (h : nextPurge toLower σ session phase a = some (σ', t')) :
    Move hash σ (.purge session phase) a σ' t' := by
  unfold nextPurge at h
  split at h
  · cases h
    exact .reads .erasing
  · split at h
    · rename_i hnone
      cases h
      exact .writes (.notDue (.inl rfl) hnone)
    · rename_i hdue
      cases h
      exact .reads (.due hdue)
  · cases h
    exact .reads .members
  · cases h
    exact .reads (reads_map fun _ _ => .jobs)
  · cases h
    exact .writes .started
  · cases h
    refine .reads (reads_map fun phase hpage => ?_)
    unfold readPage at hpage
    dsimp only at hpage
    split at hpage
    · cases hpage
      exact .emptied
    · obtain ⟨-, hpage⟩ := check_eq_ok.mp hpage
      cases hpage
      exact .listed
  · cases h
    exact .writes .deleted
  · cases h
    exact .reads .purging
  · split at h
    · rename_i hnone
      cases h
      exact .writes (.notDue (.inr ⟨_, _, _, rfl⟩) hnone)
    · rename_i hdue
      cases h
      exact .reads (.stillDue hdue)
  · split at h
    · cases h
      exact .reads .ended
    · rename_i hpurge
      cases h
      exact .writes (.removed hpurge)
  · cases h
    exact .writes .finished
  · cases h
    exact .reads .sessionLost
  · cases h
    exact .reads .ended
  · cases h

theorem next_move (h : next hash toLower σ t a = some (σ', t')) : Move hash σ t a σ' t' := by
  unfold next at h
  split at h
  · cases h
    exact .reads (reads_map fun _ _ => .scheduling)
  · cases h
    exact .reads (reads_map fun _ _ => .named)
  · cases h
    exact .reads (reads_map fun _ hfree => .marked hfree)
  · cases h
    exact .reads (reads_map fun _ hout => .issued hout)
  · cases h
    exact .writes .scheduled
  · cases h
    exact .reads (reads_map fun _ _ => .cancelling)
  · cases h
    exact .reads (reads_map fun _ hdue => .held hdue)
  · split at h
    · cases h
      exact .reads .ended
    · rename_i hlink
      cases h
      exact .writes (.unscheduled hlink)
    · rename_i hlink
      cases h
      exact .reads (.checked hlink)
  · cases h
    exact .reads (reads_map fun _ hclear => .cleared hclear)
  · cases h
    exact .reads (reads_map fun _ hout => .mailing hout)
  · cases h
    exact .writes .cancelled
  · cases h
    exact .reads .locked
  · exact nextPurge_move h
  · split at h
    · rename_i htenant
      cases h
      exact .writes (.members htenant)
    · cases h
  · cases h
    exact .writes .renamed
  · cases h
    exact .writes .put
  · cases h
    exact .reads .ended
  · cases h

theorem holds_purge {session : Bool} {phase : Phase} {l : Lock} :
    l ∈ (Task.purge session phase).holds ↔ (session = true ∧ l = .session) ∨ l ∈ phase.holds := by
  cases session with
  | true => simp only [Task.holds, List.mem_cons, true_and]
  | false => simp only [Task.holds, Bool.false_eq_true, false_and, false_or]

theorem holds_next (hnext : next hash toLower σ t a = some (σ', t')) :
    ∀ l ∈ t'.holds, l ∈ t.holds ∨ l ∈ needs σ t a := by
  -- the session is kept by every statement of a purge, the row by those of one transaction
  have hkept : ∀ {session : Bool} {phase phase' : Phase} {l : Lock},
      (l ∈ phase'.holds → l ∈ phase.holds ∨ l ∈ needs σ (.purge session phase) a) →
      l ∈ (Task.purge session phase').holds →
      l ∈ (Task.purge session phase).holds ∨ l ∈ needs σ (.purge session phase) a := by
    intro session phase phase' l hphase hl
    obtain hsession | hl := holds_purge.mp hl
    · exact .inl (holds_purge.mpr (.inl hsession))
    · exact (hphase hl).imp (fun h => holds_purge.mpr (.inr h)) id
  intro l hl
  cases next_move hnext with
  | reads hreads =>
    cases hreads with
    | scheduling | named | cancelling | ended => cases hl
    | marked | held | locked => exact .inr hl
    | issued | checked | cleared | mailing => exact .inl hl
    | erasing | listed | emptied | purging => exact hkept (fun h => by cases h) hl
    | due | stillDue => exact hkept .inr hl
    | members | jobs =>
      obtain hsession | hrow := holds_purge.mp hl
      · exact .inl (holds_purge.mpr (.inl hsession))
      · exact .inl (holds_purge.mpr (.inr hrow))
    | sessionLost => exact .inl (holds_purge.mpr (.inr hl))
  | writes hwrites =>
    cases hwrites with
    | started | deleted | removed => exact hkept (fun h => by cases h) hl
    | _ => cases hl

variable (hash toLower) in
def protocol : Lib.Protocol Store Task Act Lock where
  idle := .idle
  holds := Task.holds
  needs := needs
  conflicts := Lock.conflicts
  next := next hash toLower
  holds_idle := rfl
  conflicts_symm a b h := by
    simp only [Lock.conflicts, beq_iff_eq] at h ⊢
    exact h.symm
  holds_next _ _ _ _ _ h := holds_next h

end

end InvoiceOs.Deletion
