import InvoiceOs.Lib.Table
import InvoiceOs.Submission.Job

/-! What is kept of one address: its row of contacts, its jobs, its copies at the two vendors,
and the calls that write them. No other account holds the address, so a row or a job found by it
is this person's. -/

namespace InvoiceOs.Notifications

open Lib
open Submission (RiverState)

inductive Dest where
  | hubspot
  | resend
  deriving DecidableEq, Repr

structure Contact where
  version : ℕ
  registered : Bool := false
  consented : Bool := false
  hubspotDelivered : Bool := false
  resendDelivered : Bool := false
  optInSent : Bool := false
  deriving DecidableEq

def Contact.delivered (c : Contact) : Dest → Bool
  | .hubspot => c.hubspotDelivered
  | .resend => c.resendDelivered

/-- The row after a delivery; the opt-in goes out with the first Resend one that has consent. -/
def Contact.deliver (c : Contact) : Dest → Contact
  | .hubspot => { c with hubspotDelivered := true }
  | .resend => { c with resendDelivered := true, optInSent := c.optInSent || c.consented }

/-- `eraseKinds`; the kinds that do not run here are one. -/
inductive JobArgs where
  | deliver (dest : Dest) (version : ℕ)
  | demoDeal
  | other
  deriving DecidableEq, Repr

structure Job where
  args : JobArgs
  state : RiverState := .waiting
  deriving DecidableEq

/-- Rows of the person in the other tables a sweep empties. -/
structure Copies where
  registrantHandoffs : ℕ := 0
  knownDevices : ℕ := 0
  accountEventHandoffs : ℕ := 0
  blogSubscribers : ℕ := 0
  blogRequests : ℕ := 0
  deriving DecidableEq

def Copies.count (c : Copies) : ℕ :=
  c.registrantHandoffs + c.knownDevices + c.accountEventHandoffs + c.blogSubscribers +
    c.blogRequests

/-- A `person_erasures` row; the stamps are whether each is set. -/
structure Erasure where
  generation : ℕ
  localErased : Bool := false
  accountErased : Bool := false
  hubspotErased : Bool := false
  resendErased : Bool := false
  finished : Bool := false
  deriving DecidableEq

/-- A HubSpot contact is its deals, each closed or not. -/
structure Store where
  erasure : Option Erasure := none
  contact : Option Contact := none
  copies : Copies := {}
  jobs : Table ℕ Job := ∅
  hubspot : Option (List Bool) := none
  resend : Bool := false

/-! ### The vendors -/

/-- One call of several requests. It breaks off after some of them, whether the next one or the
last reply was lost, or it runs through and succeeds. -/
def vendorCall {V : Type} (requests : List (V → V)) (cut : Option ℕ) (v : V) : V × Bool :=
  match cut with
  | none => (requests.foldl (fun v f => f v) v, true)
  | some k => ((requests.take k).foldl (fun v f => f v) v, false)

def upsert : List (Option (List Bool) → Option (List Bool)) := [fun v => some (v.getD [])]

/-- `OpenDemoDeal`: the contact, then a deal unless one is open. -/
def openDemoDeal (v : Option (List Bool)) : List (Option (List Bool) → Option (List Bool)) :=
  (fun v => some (v.getD [])) ::
    if (v.getD []).any fun closed => !closed then [] else [fun v => v.map fun ds => ds ++ [false]]

/-- `HubSpot.EraseContact`: an absent contact is done; else each deal, then the contact. -/
def eraseHubSpot : Option (List Bool) → List (Option (List Bool) → Option (List Bool))
  | none => []
  | some deals => List.replicate deals.length (Option.map List.tail) ++ [fun _ => none]

def syncResend : List (Bool → Bool) := [fun _ => true]

/-- `Resend.EraseContact`; a 404 is success. -/
def eraseResend : List (Bool → Bool) := [fun _ => false]

inductive Answer where
  | nothingToDo
  | failed
  | delivered
  deriving DecidableEq

def Answer.of (ok : Bool) : Answer := if ok then .delivered else .failed

namespace Store

def vendorEmpty (st : Store) : Dest → Bool
  | .hubspot => st.hubspot.isNone
  | .resend => !st.resend

def eraseContact (st : Store) (dest : Dest) (cut : Option ℕ) : Store × Bool :=
  match dest with
  | .hubspot =>
    let e := vendorCall (eraseHubSpot st.hubspot) cut st.hubspot
    ({ st with hubspot := e.1 }, e.2)
  | .resend =>
    let e := vendorCall eraseResend cut st.resend
    ({ st with resend := e.1 }, e.2)

/-! ### The erasure row -/

def setErasure (st : Store) (r : Erasure) : Store := { st with erasure := some r }

/-- `EnqueueErasure`: a repeat resets the row under a new generation. -/
def enqueueErasure (st : Store) : Store :=
  match st.erasure with
  | none => st.setErasure { generation := 1 }
  | some r => st.setErasure { generation := r.generation + 1 }

/-- `updateRow`: no row of the generation is `errRerequested`. -/
def updateRow (st : Store) (generation : ℕ) (set : Erasure → Erasure) : Option Store :=
  match st.erasure with
  | none => none
  | some r => if r.generation = generation then some (st.setErasure (set r)) else none

/-! ### The sweep -/

def liveJobs (st : Store) : List ℕ :=
  (st.jobs.rows.filter fun e => e.2.state.live).map Prod.fst

/-- `JobCancelTx`: a running job is only marked, a final one left. -/
def cancelJob (found : List ℕ) (id : ℕ) (j : Job) : Job :=
  if found.contains id ∧ j.state = .waiting then { j with state := .cancelled } else j

def cancelJobs (st : Store) (found : List ℕ) : Table ℕ Job := st.jobs.mapRows (cancelJob found)

/-- What the sweep counts: the jobs it found, the final ones and the rows it deletes. -/
def sweepCount (st : Store) (found : List ℕ) : ℕ :=
  found.length + ((st.cancelJobs found).rows.filter fun e => !e.2.state.live).length +
    st.contact.toList.length + st.copies.count

def sweep (st : Store) (found : List ℕ) : Store :=
  { st with
    contact := none
    copies := {}
    jobs := (st.cancelJobs found).deleteWhere fun _ j => !j.state.live }

/-! ### The deliveries -/

def deliver (st : Store) (dest : Dest) (version : ℕ) (cut : Option ℕ) : Store × Answer :=
  match st.contact with
  | none => (st, .nothingToDo)
  | some c =>
    if c.delivered dest || c.version != version then (st, .nothingToDo)
    else
      match dest with
      | .hubspot =>
        let e := vendorCall upsert cut st.hubspot
        ({ st with hubspot := e.1 }, .of e.2)
      | .resend =>
        if !c.registered && !c.consented then (st, .nothingToDo)
        else
          let e := vendorCall syncResend cut st.resend
          ({ st with resend := e.1 }, .of e.2)

def recordDelivery (st : Store) (dest : Dest) (version : ℕ) : Store :=
  { st with contact := st.contact.map fun c => if c.version = version then c.deliver dest else c }

/-- `DemoDealWorker.Work` works from the job alone. -/
def openDeal (st : Store) (cut : Option ℕ) : Store × Answer :=
  let e := vendorCall (openDemoDeal st.hubspot) cut st.hubspot
  ({ st with hubspot := e.1 }, .of e.2)

def setJobState (st : Store) (id : ℕ) (state : RiverState) : Store :=
  { st with jobs := st.jobs.modify id fun j => { j with state := state } }

def removeJob (st : Store) (id : ℕ) : Store :=
  { st with jobs := st.jobs.deleteWhere fun k _ => k = id }

end Store
end InvoiceOs.Notifications
