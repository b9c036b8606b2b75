import InvoiceOs.Lib.Interleave

/-! The gateway's session checker without the shared store of sign-outs: its cache, its calls to
GoTrue, and the sections of `check`, `run` and `EvictSubject` under the mutex. Nothing signs a
cached subject out on a hit here, so `evictSession` is not reached. -/

namespace InvoiceOs.Gateway

open Lib

abbrev SessionID := String

def sessionCheckTTL : ℤ := 30 * 10 ^ 9

def goneCodes : List String :=
  ["session_not_found", "user_not_found", "user_banned", "session_expired"]

inductive Verdict where
  | unavailable
  | live
  | revoked
  deriving DecidableEq, Repr

/-- `call` is the call it came from; nothing reads it. -/
structure SessionEntry where
  subject : String
  live : Bool
  confirmedEmail : String
  checkedAt : ℤ
  call : ℕ
  deriving DecidableEq

/-- `closes` counts how often `done` was closed. -/
structure SessionCall where
  subject : String
  verdict : Verdict := .unavailable
  confirmedEmail : String := ""
  evicted : Bool := false
  closes : ℕ := 0
  deriving DecidableEq

/-! ### GoTrue -/

structure GoTrueUser where
  email : String
  emailConfirmedAt : Option String

/-- What came back of `/user`: no response, or a status with what the body decodes to. -/
inductive Reply where
  | failed
  | response (status : ℕ) (errorCode : Option String) (user : Option GoTrueUser)

def sessionGone (status : ℕ) (errorCode : Option String) : Bool :=
  (status == 401 || status == 403) && errorCode.any goneCodes.contains

def confirmedEmail : Option GoTrueUser → String
  | none => ""
  | some u =>
    match u.emailConfirmedAt with
    | none => ""
    | some t => if t = "" then "" else u.email

def ask : Reply → Verdict × String
  | .failed => (.unavailable, "")
  | .response status errorCode user =>
    if status = 200 then (.live, confirmedEmail user)
    else if sessionGone status errorCode then (.revoked, "")
    else (.unavailable, "")

/-! ### The checker -/

/-- What happened, in order: a check called, a subject evicted, a request sent to GoTrue, an
entry served at a clock reading, a check answered on the strength of a call. -/
inductive Event where
  | began (check : ℕ) (sid : SessionID)
  | evicted (sub : String)
  | asked (call : ℕ)
  | served (sid : SessionID) (now : ℤ) (e : SessionEntry)
  | answered (check : ℕ) (sid : SessionID) (v : Verdict) (email : String) (call : Option ℕ)
  deriving DecidableEq

structure Config where
  userURL : String
  maxEntries : ℕ

structure Checker where
  entries : Table SessionID SessionEntry := ∅
  inflight : Table SessionID ℕ := ∅
  calls : Table ℕ SessionCall := ∅
  made : ℕ := 0
  checks : ℕ := 0
  log : List Event := []

/-- Where the call of `run` is; `cleaned` and `closed` are its deferred half. -/
inductive Phase where
  | registered
  | asked
  | answered
  | panicked
  | cleaned (panicking : Bool)
  | closed
  deriving DecidableEq

inductive Task where
  | idle
  | checking (check : ℕ) (sid : SessionID)
  | waiting (check : ℕ) (sid : SessionID) (call : ℕ)
  | running (check : ℕ) (sid : SessionID) (call : ℕ) (start : ℤ) (phase : Phase)

inductive Act where
  | check (sid : SessionID)
  | evictSubject (sub : String)
  | lookup (now : ℤ)
  | receive
  | cancel
  | request
  | reply (r : Reply)
  | panic
  | cleanup (now : ℤ)
  | close
  | answer

namespace Checker

def record (st : Checker) (e : Event) : Checker := { st with log := st.log ++ [e] }

/-- A full cache sweeps expired entries and, if still full, stores nothing. -/
def store (cfg : Config) (st : Checker) (sid : SessionID) (e : SessionEntry) (now : ℤ) : Checker :=
  if (st.entries.get? sid).isNone && decide (cfg.maxEntries ≤ st.entries.rows.length) then
    let swept := st.entries.deleteWhere fun _ old =>
      decide (sessionCheckTTL ≤ now - old.checkedAt)
    if cfg.maxEntries ≤ swept.rows.length then { st with entries := swept }
    else { st with entries := swept.set sid e }
  else { st with entries := st.entries.set sid e }

def callOf (st : Checker) (sub : String) (call : ℕ) : Bool :=
  (st.calls.get? call).any fun c => c.subject == sub

def evictLocal (st : Checker) (sub : String) : Checker :=
  { st with
    entries := st.entries.deleteWhere fun _ e => e.subject == sub
    calls := st.calls.mapRows fun k c =>
      if c.subject == sub && st.inflight.rows.any (fun e => e.2 == k) then { c with evicted := true }
      else c
    inflight := st.inflight.deleteWhere fun _ k => st.callOf sub k }

def fresh (st : Checker) (sid : SessionID) (now : ℤ) : Option SessionEntry :=
  (st.entries.get? sid).filter fun e => decide (now - e.checkedAt < sessionCheckTTL)

def register (st : Checker) (sid : SessionID) (subject : String) : Checker :=
  { st with
    calls := st.calls.set st.made { subject := subject }
    inflight := st.inflight.set sid st.made
    made := st.made + 1 }

def lookup (st : Checker) (subject : String) (check : ℕ) (sid : SessionID) (now : ℤ) :
    Checker × Task :=
  match st.fresh sid now with
  | some e =>
    let st := st.record (.served sid now e)
    let v := if e.live then Verdict.live else Verdict.revoked
    let email := if e.live then e.confirmedEmail else ""
    (st.record (.answered check sid v email (some e.call)), .idle)
  | none =>
    match st.inflight.get? sid with
    | some call => (st, .waiting check sid call)
    | none => (st.register sid subject, .running check sid st.made now .registered)

def release (st : Checker) (sid : SessionID) (call : ℕ) : Checker :=
  if st.inflight.get? sid = some call then
    { st with inflight := st.inflight.deleteWhere fun s _ => s == sid }
  else st

def entryOf (c : SessionCall) (start : ℤ) (call : ℕ) : SessionEntry where
  subject := c.subject
  live := c.verdict == .live
  confirmedEmail := c.confirmedEmail
  checkedAt := start
  call := call

def cleanup (cfg : Config) (st : Checker) (sid : SessionID) (call : ℕ) (start now : ℤ) : Checker :=
  match st.calls.get? call with
  | none => st.release sid call
  | some c =>
    if !c.evicted && c.verdict != .unavailable then
      (st.release sid call).store cfg sid (entryOf c start call) now
    else st.release sid call

def answerOf (st : Checker) (check : ℕ) (sid : SessionID) (call : ℕ) : Checker :=
  match st.calls.get? call with
  | none => st
  | some c => st.record (.answered check sid c.verdict c.confirmedEmail (some call))

end Checker

section
variable (cfg : Config) (owner : SessionID → String)

def idleNext (st : Checker) (act : Act) : Option (Checker × Task) :=
  match act with
  | .check sid =>
    let begun := { st with checks := st.checks + 1 }.record (.began st.checks sid)
    if cfg.userURL = "" then
      some (begun.record (.answered st.checks sid .unavailable "" none), .idle)
    else some (begun, .checking st.checks sid)
  | .evictSubject sub => some ((st.evictLocal sub).record (.evicted sub), .idle)
  | _ => none

def waitNext (st : Checker) (check : ℕ) (sid : SessionID) (call : ℕ) (act : Act) :
    Option (Checker × Task) :=
  match act with
  | .receive =>
    if (st.calls.get? call).any fun c => 0 < c.closes then some (st.answerOf check sid call, .idle)
    else none
  | .cancel => some (st.record (.answered check sid .unavailable "" none), .idle)
  | _ => none

def runNext (st : Checker) (check : ℕ) (sid : SessionID) (call : ℕ) (start : ℤ) (phase : Phase)
    (act : Act) : Option (Checker × Task) :=
  let task := Task.running check sid call start
  match phase, act with
  | .registered, .request => some (st.record (.asked call), task .asked)
  | .registered, .panic => some (st, task .panicked)
  | .asked, .reply r =>
    let said := ask r
    some ({ st with calls := st.calls.modify call fun c =>
      { c with verdict := said.1, confirmedEmail := said.2 } }, task .answered)
  | .asked, .panic => some (st, task .panicked)
  | .answered, .cleanup now => some (st.cleanup cfg sid call start now, task (.cleaned false))
  | .panicked, .cleanup now => some (st.cleanup cfg sid call start now, task (.cleaned true))
  | .cleaned panicking, .close =>
    some ({ st with calls := st.calls.modify call fun c => { c with closes := c.closes + 1 } },
      if panicking then .idle else task .closed)
  | .closed, .answer => some (st.answerOf check sid call, .idle)
  | _, _ => none

def next (st : Checker) (t : Task) (act : Act) : Option (Checker × Task) :=
  match t with
  | .idle => idleNext cfg st act
  | .checking check sid =>
    match act with
    | .lookup now => some (st.lookup (owner sid) check sid now)
    | _ => none
  | .waiting check sid call => waitNext st check sid call act
  | .running check sid call start phase => runNext cfg st check sid call start phase act

/-- A section holds the mutex for one step and nothing between two. -/
def protocol : Protocol Checker Task Act Empty where
  idle := .idle
  holds _ := []
  needs _ _ _ := []
  conflicts _ _ := false
  next := next cfg owner
  holds_idle := rfl
  conflicts_symm _ _ h := h
  holds_next _ _ _ _ _ _ _ h := by cases h

end
end InvoiceOs.Gateway
