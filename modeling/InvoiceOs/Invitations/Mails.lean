import InvoiceOs.Lib.Interleave
import InvoiceOs.Lib.Refusal
import InvoiceOs.Tenancy.Members

/-! Invitation mails of one workspace: the transactions that issue an invite or send it again,
statement by statement under the send lock, and the recorded outcomes of the mails. -/

namespace InvoiceOs.Invitations

open Lib Approval Tenancy

def maxInviteMailsPerDay : ℕ := 20

def day : ℕ := 24 * 60 * 60 * 1000000

def inviteValidDays : ℕ := 7

inductive InviteStatus where
  | pending
  | accepted
  | revoked
  deriving DecidableEq

inductive SendStatus where
  | sending
  | sent
  | failed
  deriving DecidableEq

structure Invitation where
  email : String
  role : AccessRole
  status : InviteStatus := .pending
  tokenHash : String
  expiresAt : ℕ
  invitedBy : Uuid
  sendStatus : SendStatus := .sending
  allClients : Bool := false
  clients : List Uuid := []
  deriving DecidableEq

structure IssuedInvite where
  id : Uuid
  email : String
  role : AccessRole
  expiresAt : ℕ
  token : String
  tokenHash : String
  workspace : String
  inviter : String
  deriving DecidableEq

inductive MailEvent where
  | sent
  | resent
  deriving DecidableEq

/-- An audit row of a mail; `counted` is a key of the payload. -/
structure MailRow where
  event : MailEvent
  createdAt : ℕ
  actor : Uuid
  invitationID : Uuid
  role : AccessRole
  counted : Option Bool := none
  deriving DecidableEq

structure Sender where
  role : AccessRole
  status : MemberStatus := .active
  displayName : Option String := none
  email : Option String := none

structure Office where
  members : Table Uuid Sender
  name : String
  isFirm : Bool
  deletionDue : Bool := false
  entities : List Uuid := []

/-- What happened to an invite, for the statements about runs; nothing reads it. -/
inductive Entry where
  | issued (inv : IssuedInvite) (counted : Bool)
  | recorded (id : Uuid) (sent : Bool)
  deriving DecidableEq

structure Store where
  office : Office
  invitations : Table Uuid Invitation := ∅
  mails : List MailRow := []
  minted : ℕ := 0
  journal : List Entry := []

inductive InviteErr where
  | notActiveMember
  | workspaceLocked
  | inviteNotPermitted
  | dailyInviteLimit
  | clientAccessNotFirm
  | unknownClient
  | duplicateID
  | invitationNotFound
  | invitationNotPending
  deriving DecidableEq

/-! ### Reads -/

def gate (o : Office) (subject : Uuid) : Except InviteErr Unit :=
  match o.members.get? subject with
  | none => throw .notActiveMember
  | some m =>
    if m.status ≠ .active then throw .notActiveMember
    else if o.deletionDue then throw .workspaceLocked
    else pure ()

def requireInviteAdmin (o : Office) (subject : Uuid) : Except InviteErr String :=
  match o.members.get? subject with
  | none => throw .inviteNotPermitted
  | some m =>
    if m.status ≠ .active ∨ m.role ≠ .admin then throw .inviteNotPermitted
    else
      match m.displayName with
      | some name => pure (if name ≠ "" then name else m.email.getD "")
      | none => pure (m.email.getD "")

/-- `COALESCE(NULLIF(display_name, ''), email)` of whoever invited, suspended or not. -/
def inviterName (o : Office) (invitedBy : Uuid) : String :=
  match o.members.get? invitedBy with
  | none => ""
  | some m => ((m.displayName.filter (· ≠ "")).or m.email).getD ""

def MailRow.isCounted (r : MailRow) : Bool := r.counted.getD true

def countInviteMails (mails : List MailRow) (now : ℕ) : ℕ :=
  mails.countP fun r => decide (now < r.createdAt + day) && r.isCounted

def pendingFor (invitations : Table Uuid Invitation) (email : String) : Option Uuid :=
  (invitations.rows.find? fun e => e.2.status == .pending && e.2.email == email).map Prod.fst

/-! ### Calls -/

structure ClientAccess where
  all : Bool
  ids : List Uuid
  deriving DecidableEq

structure Create where
  caller : Uuid
  emails : List String
  role : AccessRole
  access : Option ClientAccess

structure Resend where
  caller : Uuid
  id : Uuid

inductive Call where
  | create (q : Create)
  | resend (q : Resend)

def Call.caller : Call → Uuid
  | create q => q.caller
  | resend q => q.caller

def Create.allClients (q : Create) : Bool := q.access.any ClientAccess.all

def Create.clientIDs (q : Create) : List Uuid :=
  match q.access with
  | some a => if a.all then [] else a.ids
  | none => []

/-- A transaction by the last statement it ran; `now` is its start. -/
inductive Task where
  | idle
  | begun (call : Call) (now : ℕ) (inviter : String)
  | holding (call : Call) (now : ℕ) (inviter : String)
  | counted (q : Create) (now : ℕ) (inviter : String)
  | upserting (q : Create) (now : ℕ) (inviter workspace : String) (todo : List String)
      (done : List (Uuid × String))
  | found (q : Resend) (now : ℕ) (inv : Invitation)
  | resending (q : Resend) (now : ℕ) (inv : Invitation) (counted : Bool)

inductive Act where
  | begin (call : Call) (now : ℕ)
  | lockInviteSends
  | countInviteMails
  | readTenant
  | upsert (newID : Uuid)
  | commit
  | selectForUpdate
  | abort
  | record (id : Uuid) (tokenHash : String) (sent : Bool)
  | revoke (caller id : Uuid)
  | accept (id : Uuid)
  | office (o : Office)

inductive Lock where
  | sends
  | row (id : Uuid)
  deriving DecidableEq

def Lock.conflicts (a b : Lock) : Bool := a == b

/-- The row an upsert writes: the batch's own for a repeated address, the pending one, or a new
one. -/
def upsertTarget (σ : Store) (done : List (Uuid × String)) (email : String) (newID : Uuid) : Uuid :=
  match done.find? fun e => e.2 == email with
  | some e => e.1
  | none => (pendingFor σ.invitations email).getD newID

def upsert (σ : Store) (q : Create) (done : List (Uuid × String)) (email : String) (newID : Uuid) :
    Except InviteErr (List (Uuid × String)) :=
  let fresh := !(done.any fun e => e.2 == email) && (pendingFor σ.invitations email).isNone
  if fresh ∧ ((σ.invitations.get? newID).isSome ∨ done.any fun e => e.1 == newID) then
    throw .duplicateID
  else if ¬ q.clientIDs.all σ.office.entities.contains then throw .unknownClient
  else pure (done ++ [(upsertTarget σ done email newID, email)])

def Task.holds : Task → List Lock
  | .idle => []
  | .begun .. => []
  | .holding .. => [.sends]
  | .counted .. => [.sends]
  | .upserting _ _ _ _ _ done => .sends :: done.map fun e => .row e.1
  | .found q .. => [.sends, .row q.id]
  | .resending q .. => [.sends, .row q.id]

def needs (σ : Store) : Task → Act → List Lock
  | .begun .., .lockInviteSends => [.sends]
  | .upserting _ _ _ _ (email :: _) done, .upsert newID =>
    [.row (upsertTarget σ done email newID)]
  | .holding (.resend q) _ _, .selectForUpdate => [.row q.id]
  | .idle, .record id _ _ => [.row id]
  | .idle, .revoke _ id => [.row id]
  | .idle, .accept id => [.row id]
  | _, _ => []

/-! ### Writes -/

section
variable (mint : ℕ → String × String)

def Store.issue (σ : Store) (id : Uuid) (inv : Invitation) (workspace inviter : String)
    (mail : MailRow) : Store where
  office := σ.office
  invitations := σ.invitations.set id
    { inv with tokenHash := (mint σ.minted).2, sendStatus := .sending }
  mails := mail :: σ.mails
  minted := σ.minted + 1
  journal := .issued {
    id := id
    email := inv.email
    role := inv.role
    expiresAt := inv.expiresAt
    token := (mint σ.minted).1
    tokenHash := (mint σ.minted).2
    workspace := workspace
    inviter := inviter } mail.isCounted :: σ.journal

def Create.invitation (q : Create) (now : ℕ) (email : String) : Invitation where
  email := email
  role := q.role
  tokenHash := ""
  expiresAt := now + inviteValidDays * day
  invitedBy := q.caller
  allClients := q.allClients
  clients := q.clientIDs

def issueCreated (q : Create) (now : ℕ) (inviter workspace : String) (σ : Store)
    (e : Uuid × String) : Store :=
  σ.issue mint e.1 (q.invitation now e.2) workspace inviter
    { event := .sent, createdAt := now, actor := q.caller, invitationID := e.1, role := q.role }

def issueAgain (q : Resend) (now : ℕ) (inv : Invitation) (counted : Bool) (σ : Store) : Store :=
  σ.issue mint q.id { inv with expiresAt := now + inviteValidDays * day } σ.office.name
    (inviterName σ.office inv.invitedBy)
    { event := .resent, createdAt := now, actor := q.caller, invitationID := q.id
      role := inv.role, counted := some counted }

def recordInviteDelivery (σ : Store) (id : Uuid) (tokenHash : String) (sent : Bool) : Store :=
  match σ.invitations.get? id with
  | none => σ
  | some r =>
    if r.tokenHash = tokenHash then
      { σ with
        invitations := σ.invitations.set id { r with sendStatus := if sent then .sent else .failed }
        journal := .recorded id sent :: σ.journal }
    else σ

def close (σ : Store) (id : Uuid) (status : InviteStatus) : Except InviteErr Store :=
  match σ.invitations.get? id with
  | none => throw .invitationNotFound
  | some r =>
    if r.status ≠ .pending then throw .invitationNotPending
    else pure { σ with invitations := σ.invitations.set id { r with status := status } }

def admitted (o : Office) (caller : Uuid) : Except InviteErr String := do
  gate o caller
  requireInviteAdmin o caller

def revokeInvitation (σ : Store) (caller id : Uuid) : Except InviteErr Store := do
  let _ ← admitted σ.office caller
  close σ id .revoked

/-! ### Statements -/

def Task.orIdle : Except InviteErr Task → Task
  | .ok t => t
  | .error _ => .idle

def checkCount (σ : Store) (now k : ℕ) : Except InviteErr Unit :=
  if maxInviteMailsPerDay < countInviteMails σ.mails now + k then throw .dailyInviteLimit
  else pure ()

def findInvite (σ : Store) (q : Resend) : Except InviteErr Invitation :=
  match σ.invitations.get? q.id with
  | none => throw .invitationNotFound
  | some inv => if inv.status ≠ .pending then throw .invitationNotPending else pure inv

/-- A resend of a failed send is not counted. -/
def checkResend (σ : Store) (now : ℕ) (inv : Invitation) : Except InviteErr Bool :=
  if inv.sendStatus ≠ .failed then do
    checkCount σ now 1
    return true
  else return false

def next (σ : Store) : Task → Act → Option (Store × Task)
  | .idle, .begin call now =>
    some (σ, .orIdle ((admitted σ.office call.caller).map fun inviter => .begun call now inviter))
  | .idle, .record id tokenHash sent => some (recordInviteDelivery σ id tokenHash sent, .idle)
  | .idle, .revoke caller id => some ((revokeInvitation σ caller id).toOption.getD σ, .idle)
  | .idle, .accept id => some ((close σ id .accepted).toOption.getD σ, .idle)
  | .idle, .office o => some ({ σ with office := o }, .idle)
  | .begun call now inviter, .lockInviteSends => some (σ, .holding call now inviter)
  | .holding (.create q) now inviter, .countInviteMails => some (σ, .orIdle
    ((checkCount σ now q.emails.length).map fun _ => .counted q now inviter))
  | .counted q now inviter, .readTenant =>
    if q.access.isSome ∧ ¬ σ.office.isFirm then some (σ, .idle)
    else some (σ, .upserting q now inviter σ.office.name q.emails [])
  | .upserting q now inviter workspace (email :: todo) done, .upsert newID => some (σ, .orIdle
    ((upsert σ q done email newID).map fun done => .upserting q now inviter workspace todo done))
  | .upserting q now inviter workspace [] done, .commit =>
    some (done.foldl (issueCreated mint q now inviter workspace) σ, .idle)
  | .holding (.resend q) now _, .selectForUpdate =>
    some (σ, .orIdle ((findInvite σ q).map fun inv => .found q now inv))
  | .found q now inv, .countInviteMails =>
    some (σ, .orIdle ((checkResend σ now inv).map fun counted => .resending q now inv counted))
  | .resending q now inv counted, .commit => some (issueAgain mint q now inv counted σ, .idle)
  | _, .abort => some (σ, .idle)
  | _, _ => none

/-! ### What a step can be -/

inductive Reads (σ : Store) : Task → Act → Task → Prop
  | begun {call now inviter} (h : admitted σ.office call.caller = .ok inviter) :
      Reads σ .idle (.begin call now) (.begun call now inviter)
  | held {call now inviter} :
      Reads σ (.begun call now inviter) .lockInviteSends (.holding call now inviter)
  | counted {q now inviter} (h : checkCount σ now q.emails.length = .ok ()) :
      Reads σ (.holding (.create q) now inviter) .countInviteMails (.counted q now inviter)
  | tenant {q now inviter} : Reads σ (.counted q now inviter) .readTenant
      (.upserting q now inviter σ.office.name q.emails [])
  | upserted {q now inviter workspace email todo done newID done'}
      (h : upsert σ q done email newID = .ok done') :
      Reads σ (.upserting q now inviter workspace (email :: todo) done) (.upsert newID)
        (.upserting q now inviter workspace todo done')
  | found {q now inviter inv} (h : findInvite σ q = .ok inv) :
      Reads σ (.holding (.resend q) now inviter) .selectForUpdate (.found q now inv)
  | checked {q now inv counted} (h : checkResend σ now inv = .ok counted) :
      Reads σ (.found q now inv) .countInviteMails (.resending q now inv counted)
  | ended {t a} : Reads σ t a .idle

inductive Writes (σ : Store) : Task → Act → Store → Prop
  | record {id tokenHash sent} :
      Writes σ .idle (.record id tokenHash sent) (recordInviteDelivery σ id tokenHash sent)
  | closed {id status a σ'} (ha : a = .accept id ∨ ∃ caller, a = .revoke caller id)
      (hstatus : status ≠ .pending) (h : close σ id status = .ok σ') : Writes σ .idle a σ'
  | office {o} : Writes σ .idle (.office o) { σ with office := o }
  | created {q now inviter workspace done} :
      Writes σ (.upserting q now inviter workspace [] done) .commit
        (done.foldl (issueCreated mint q now inviter workspace) σ)
  | resent {q now inv counted} :
      Writes σ (.resending q now inv counted) .commit (issueAgain mint q now inv counted σ)

inductive Move (σ : Store) (t : Task) (a : Act) : Store → Task → Prop
  | reads {t'} (h : Reads σ t a t') : Move σ t a σ t'
  | writes {σ'} (h : Writes mint σ t a σ') : Move σ t a σ' .idle

variable {mint} {σ σ' : Store} {t t' : Task} {a : Act}

theorem reads_map {α : Type} {x : Except InviteErr α} {f : α → Task}
    (h : ∀ y, x = .ok y → Reads σ t a (f y)) : Reads σ t a (.orIdle (x.map f)) := by
  cases x with
  | ok y => exact h y rfl
  | error e => exact .ended

theorem next_move (h : next mint σ t a = some (σ', t')) : Move mint σ t a σ' t' := by
  unfold next at h
  split at h
  · cases h
    exact .reads (reads_map fun _ hadmitted => .begun hadmitted)
  · cases h
    exact .writes .record
  · rename_i caller id
    cases h
    cases hrevoke : revokeInvitation σ caller id with
    | error e => exact .reads .ended
    | ok σ' =>
      obtain ⟨_, -, hclose⟩ := bind_eq_ok.mp hrevoke
      exact .writes (.closed (.inr ⟨caller, rfl⟩) (by decide) hclose)
  · rename_i id
    cases h
    cases hclose : close σ id .accepted with
    | error e => exact .reads .ended
    | ok σ' => exact .writes (.closed (.inl rfl) (by decide) hclose)
  · cases h
    exact .writes .office
  · cases h
    exact .reads .held
  · cases h
    exact .reads (reads_map fun _ hcount => .counted hcount)
  · split at h
    · cases h
      exact .reads .ended
    · cases h
      exact .reads .tenant
  · cases h
    exact .reads (reads_map fun _ hupsert => .upserted hupsert)
  · cases h
    exact .writes .created
  · cases h
    exact .reads (reads_map fun _ hfound => .found hfound)
  · cases h
    exact .reads (reads_map fun _ hchecked => .checked hchecked)
  · cases h
    exact .writes .resent
  · cases h
    exact .reads .ended
  · cases h

theorem upsert_spec {q : Create} {done done' : List (Uuid × String)} {email : String} {newID : Uuid}
    (h : upsert σ q done email newID = .ok done') :
    done' = done ++ [(upsertTarget σ done email newID, email)] ∧
      ((∀ e ∈ done, e.2 ≠ email) → pendingFor σ.invitations email = none →
        σ.invitations.get? newID = none ∧ ∀ e ∈ done, e.1 ≠ newID) := by
  unfold upsert at h
  dsimp only at h
  split at h
  · cases h
  · rename_i hfresh
    split at h
    · cases h
    · cases h
      refine ⟨rfl, fun hnew hpending => ?_⟩
      have hnone : done.any (fun e => e.2 == email) = false := by
        rw [List.any_eq_false]
        intro e he
        simpa using hnew e he
      rw [hnone, hpending] at hfresh
      simp only [Bool.not_false, Option.isNone_none, Bool.and_self, true_and, not_or,
        Bool.not_eq_true, Option.isSome_eq_false_iff, Option.isNone_iff_eq_none,
        List.any_eq_false, beq_iff_eq] at hfresh
      exact hfresh

theorem holds_next (hnext : next mint σ t a = some (σ', t')) :
    ∀ l ∈ t'.holds, l ∈ t.holds ∨ l ∈ needs σ t a := by
  intro l hl
  cases next_move hnext with
  | writes => cases hl
  | reads hreads =>
    cases hreads with
    | begun => cases hl
    | held => exact .inr hl
    | counted => exact .inl hl
    | tenant => exact .inl hl
    | upserted hupsert =>
      obtain ⟨rfl, -⟩ := upsert_spec hupsert
      simp only [Task.holds, List.map_append, List.map_cons, List.map_nil, List.mem_cons,
        List.mem_append, List.not_mem_nil, or_false] at hl
      obtain hl | hl | hl := hl
      · exact .inl (List.mem_cons.mpr (.inl hl))
      · exact .inl (List.mem_cons_of_mem _ hl)
      · exact .inr (List.mem_singleton.mpr hl)
    | found =>
      obtain rfl | hl := List.mem_cons.mp hl
      · exact .inl List.mem_cons_self
      · exact .inr hl
    | checked => exact .inl hl
    | ended => cases hl

variable (mint) in
def protocol : Lib.Protocol Store Task Act Lock where
  idle := .idle
  holds := Task.holds
  needs := needs
  conflicts := Lock.conflicts
  next := next mint
  holds_idle := rfl
  conflicts_symm a b h := by
    simp only [Lock.conflicts, beq_iff_eq] at h ⊢
    exact h.symm
  holds_next _ _ _ _ _ h := holds_next h

end

end InvoiceOs.Invitations
