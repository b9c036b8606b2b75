import InvoiceOs.Lib.Interleave
import InvoiceOs.Notifications.Contact
import InvoiceOs.Text

/-! The facts of one address: the merges that bring them and the deliveries that carry them to
the vendors, each transaction statement by statement. -/

namespace InvoiceOs.Notifications.Merge

open Lib
open Submission (RiverState)

/-! ### The merge -/

structure RegistrantIntake where
  userID : Option Uuid
  displayName : String
  workspaceName : String
  consentText : String
  consentAt : Option ℕ

structure DemoIntake where
  name : String
  company : String
  consentText : String

structure Intake where
  userID : Option Uuid := none
  first : String
  last : String
  company : String
  registered : Bool := false
  demo : Bool := false
  consentText : String
  consentAt : Option ℕ := none

/-- The first run of whitespace splits, the rest stays verbatim. -/
def splitName (full : String) : String × String :=
  let cs := (trimSpace full).toList
  (String.ofList (cs.takeWhile fun c => !isSpace c),
    String.ofList ((cs.dropWhile fun c => !isSpace c).dropWhile isSpace))

def registrant (r : RegistrantIntake) : Intake where
  userID := r.userID
  first := (splitName r.displayName).1
  last := (splitName r.displayName).2
  company := trimSpace r.workspaceName
  registered := true
  consentText := r.consentText
  consentAt := r.consentAt

def demoRequest (r : DemoIntake) : Intake where
  first := (splitName r.name).1
  last := (splitName r.name).2
  company := trimSpace r.company
  demo := true
  consentText := r.consentText

structure Row where
  userID : Option Uuid := none
  firstName : String := ""
  lastName : String := ""
  company : String := ""
  registeredAt : Option ℕ := none
  demoRequestedAt : Option ℕ := none
  marketingConsentText : Option String := none
  marketingConsentedAt : Option ℕ := none
  version : ℕ := 1
  hubspotDeliveredAt : Option ℕ := none
  resendDeliveredAt : Option ℕ := none
  resendOptInSentAt : Option ℕ := none
  deliveryMode : Option String := none
  deriving DecidableEq

def excluded (now : ℕ) (i : Intake) : Row where
  userID := i.userID
  firstName := i.first
  lastName := i.last
  company := i.company
  registeredAt := if i.registered then some now else none
  demoRequestedAt := if i.demo then some now else none
  marketingConsentText := if i.consentText = "" then none else some i.consentText
  marketingConsentedAt := if i.consentText = "" then none else some (i.consentAt.getD now)

/-- `newFactSQL`: a fact that was NULL and is now set. -/
def newFact (contacts excluded : Row) : Bool :=
  (contacts.registeredAt.isNone && excluded.registeredAt.isSome) ||
  (contacts.demoRequestedAt.isNone && excluded.demoRequestedAt.isSome) ||
  (contacts.marketingConsentedAt.isNone && excluded.marketingConsentedAt.isSome)

/-- `COALESCE(NULLIF(excluded, ''), contacts)`. -/
def newerName (contacts excluded : String) : String := if excluded = "" then contacts else excluded

def update (c e : Row) : Row where
  userID := c.userID.or e.userID
  firstName := newerName c.firstName e.firstName
  lastName := newerName c.lastName e.lastName
  company := newerName c.company e.company
  registeredAt := c.registeredAt.or e.registeredAt
  demoRequestedAt := c.demoRequestedAt.or e.demoRequestedAt
  marketingConsentText := c.marketingConsentText.or e.marketingConsentText
  marketingConsentedAt := c.marketingConsentedAt.or e.marketingConsentedAt
  version := c.version + if newFact c e then 1 else 0
  hubspotDeliveredAt := if newFact c e then none else c.hubspotDeliveredAt
  resendDeliveredAt := if newFact c e then none else c.resendDeliveredAt
  resendOptInSentAt := c.resendOptInSentAt
  deliveryMode := c.deliveryMode

def mergeRow (row : Option Row) (e : Row) : Row × Bool :=
  match row with
  | none => (e, true)
  | some c => (update c e, newFact c e)

namespace Row

def deliveredAt (c : Row) : Dest → Option ℕ
  | .hubspot => c.hubspotDeliveredAt
  | .resend => c.resendDeliveredAt

/-- HubSpot always; Resend once registered or consented. -/
def applies (c : Row) : Dest → Bool
  | .hubspot => true
  | .resend => c.registeredAt.isSome || c.marketingConsentedAt.isSome

def pending (c : Row) (dest : Dest) : Bool := (c.deliveredAt dest).isNone && c.applies dest

def markOptIn (c : Row) (now : ℕ) : Row := { c with resendOptInSentAt := some now }

def recordDelivered (c : Row) (dest : Dest) (now : ℕ) (mode : String) : Row :=
  match dest with
  | .hubspot => { c with hubspotDeliveredAt := some now, deliveryMode := some mode }
  | .resend => { c with resendDeliveredAt := some now, deliveryMode := some mode }

end Row

/-! ### Jobs and calls -/

structure DeliverArgs where
  dest : Dest
  version : ℕ
  deriving DecidableEq

structure DeliverJob where
  args : DeliverArgs
  state : RiverState := .waiting
  deriving DecidableEq

structure Contact where
  firstName : String
  lastName : String
  company : String
  tags : List String
  marketingEligible : Bool
  deriving DecidableEq

def contactOf (c : Row) : Contact where
  firstName := c.firstName
  lastName := c.lastName
  company := c.company
  tags := (if c.registeredAt.isSome then ["registered"] else []) ++
    if c.demoRequestedAt.isSome then ["demo request"] else []
  marketingEligible := c.marketingConsentedAt.isSome

/-- The history beside the tables: a fact committed, a call accepted, a run committed that sent
the opt-in. -/
inductive Event where
  | fact
  | call (dest : Dest) (c : Contact)
  | optIn
  deriving DecidableEq

structure Address where
  row : Option Row := none
  jobs : List DeliverJob := []
  log : List Event := []

/-- `InsertTx` under the unique options: an equal job that has not finished takes its place. -/
def unfinished (jobs : List DeliverJob) (args : DeliverArgs) : Bool :=
  jobs.any fun j => j.args == args && j.state.live

def Address.setJob (st : Address) (job : ℕ) (state : RiverState) : Address :=
  { st with jobs := st.jobs.modify job fun j => { j with state := state } }

/-! ### Transactions -/

inductive Phase where
  | started
  | locked
  | read (c : Row)
  | sent (c : Row) (optIn : Bool)
  | marked (optIn : Bool) (written : Option Row)
  | recorded (optIn : Bool) (written : Option Row)
  | returned (ok : Bool)

inductive Task where
  | idle
  | merging (row : Row) (fact : Bool) (todo : List Dest) (queued : List DeliverArgs)
  | delivering (job : ℕ) (args : DeliverArgs) (phase : Phase)

inductive Act where
  | merge (i : Intake) (now : ℕ)
  | insertJob
  | commit
  | fetch (job : ℕ)
  | rescue (job : ℕ)
  | lock
  | read
  | send (ok : Bool)
  | mark (now : ℕ)
  | record (now : ℕ) (mode : String)
  | complete
  | fail
  | crash

inductive Lock where
  | row
  | worker (job : ℕ)
  | deliver (dest : Dest)
  deriving DecidableEq

/-- An uncommitted row version keeps the row locked. -/
def rowLock : Option Row → List Lock
  | none => []
  | some _ => [.row]

def Phase.locks (dest : Dest) : Phase → List Lock
  | .started => []
  | .locked => [.deliver dest]
  | .read _ => [.deliver dest]
  | .sent _ _ => [.deliver dest]
  | .marked _ written => .deliver dest :: rowLock written
  | .recorded _ written => .deliver dest :: rowLock written
  | .returned _ => []

def Task.holds : Task → List Lock
  | .idle => []
  | .merging _ _ _ _ => [.row]
  | .delivering job args phase => .worker job :: phase.locks args.dest

def marks (st : Address) (optIn : Bool) : Option Row :=
  match st.row with
  | none => none
  | some r => if optIn && r.resendOptInSentAt.isNone then some r else none

def records (row : Option Row) (version : ℕ) : Option Row :=
  match row with
  | none => none
  | some r => if r.version = version then some r else none

def Task.needs (st : Address) (t : Task) (act : Act) : List Lock :=
  match t, act with
  | .idle, .merge _ _ => [.row]
  | .idle, .fetch job => [.worker job]
  | .idle, .rescue job => [.worker job]
  | .delivering _ args .started, .lock => [.deliver args.dest]
  | .delivering _ _ (.sent _ optIn), .mark _ => rowLock (marks st optIn)
  | .delivering _ args (.marked _ written), .record _ _ =>
    rowLock (records (written.or st.row) args.version)
  | _, _ => []

/-- The first consent Resend is told of opts the address in. -/
def sendsOptIn (dest : Dest) (c : Row) : Bool :=
  match dest with
  | .hubspot => false
  | .resend => c.marketingConsentedAt.isSome && c.resendOptInSentAt.isNone

def readPhase (args : DeliverArgs) : Option Row → Phase
  | none => .returned true
  | some c =>
    if (c.deliveredAt args.dest).isSome || c.version != args.version then .returned true
    else if !c.applies args.dest then .returned true
    else .read c

def workNext (st : Address) (job : ℕ) (args : DeliverArgs) (phase : Phase) (act : Act) :
    Option (Address × Task) :=
  let task := Task.delivering job args
  match phase, act with
  | .started, .lock => some (st, task .locked)
  | .locked, .read => some (st, task (readPhase args st.row))
  | .read c, .send ok =>
    if ok then
      some ({ st with log := st.log ++ [.call args.dest (contactOf c)] },
        task (.sent c (sendsOptIn args.dest c)))
    else some (st, task (.returned false))
  | .sent _ optIn, .mark now =>
    some (st, task (.marked optIn ((marks st optIn).map fun r => r.markOptIn now)))
  | .marked optIn written, .record now mode =>
    match records (written.or st.row) args.version with
    | none => some (st, task (.recorded optIn written))
    | some r => some (st, task (.recorded optIn (some (r.recordDelivered args.dest now mode))))
  | .recorded optIn written, .commit =>
    some ({ st with
        row := written.or st.row
        log := st.log ++ if optIn then [.optIn] else [] },
      task (.returned true))
  | .returned ok, .complete =>
    some (st.setJob job (if ok then .completed else .waiting), .idle)
  | .returned _, .fail => none
  | _, .fail => some (st, task (.returned false))
  | _, .crash => some (st, .idle)
  | _, _ => none

def mergeNext (st : Address) (row : Row) (fact : Bool) (todo : List Dest)
    (queued : List DeliverArgs) (act : Act) : Option (Address × Task) :=
  match todo, act with
  | dest :: todo, .insertJob =>
    if unfinished st.jobs ⟨dest, row.version⟩ then some (st, .merging row fact todo queued)
    else some (st, .merging row fact todo (queued ++ [⟨dest, row.version⟩]))
  | [], .commit =>
    some ({ row := some row
            jobs := st.jobs ++ queued.map fun args => { args := args }
            log := st.log ++ if fact then [.fact] else [] }, .idle)
  | _, .fail => some (st, .idle)
  | _, .crash => some (st, .idle)
  | _, _ => none

def idleNext (st : Address) (act : Act) : Option (Address × Task) :=
  match act with
  | .merge i now =>
    let merged := mergeRow st.row (excluded now i)
    some (st, .merging merged.1 merged.2 ([Dest.hubspot, .resend].filter merged.1.pending) [])
  | .fetch job =>
    match st.jobs[job]? with
    | none => none
    | some j =>
      if j.state = .waiting then
        some (st.setJob job .running, .delivering job j.args .started)
      else none
  | .rescue job =>
    match st.jobs[job]? with
    | none => none
    | some j => if j.state = .running then some (st.setJob job .waiting, .idle) else none
  | _ => none

def next (st : Address) (t : Task) (act : Act) : Option (Address × Task) :=
  match t with
  | .idle => idleNext st act
  | .merging row fact todo queued => mergeNext st row fact todo queued act
  | .delivering job args phase => workNext st job args phase act

end InvoiceOs.Notifications.Merge
