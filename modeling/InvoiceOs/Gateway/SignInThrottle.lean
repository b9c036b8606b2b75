import InvoiceOs.Lib.Table
import InvoiceOs.Text

/-! The gateway's sign-in throttle with its counts in the process. Instants are nanoseconds
since Go's zero time. -/

namespace InvoiceOs.Gateway

open Lib

def signInMaxFailures : ℕ := 10
def signInWindow : ℕ := 15 * 60 * 10 ^ 9
def signInMaxKeys : ℕ := 100000
def signInSweepEvery : ℕ := 60 * 10 ^ 9

/-- `start` is the first counted attempt of the window. -/
structure SignInCount where
  n : ℕ := 0
  start : ℕ
  deriving DecidableEq

structure ThrottleConfig where
  max : ℕ
  maxKeys : ℕ
  window : ℕ

def signIn : ThrottleConfig where
  max := signInMaxFailures
  maxKeys := signInMaxKeys
  window := signInWindow

structure SignInThrottle where
  counts : Table String SignInCount := ∅
  lastSweep : ℕ := 0
  nextExpiry : ℕ := 0
  lastWarn : ℕ := 0
  sweeps : ℕ := 0

/-- What `Admit` answers; it returns whether this is `admitted`. -/
inductive Answer where
  | admitted
  | full
  | capped
  deriving DecidableEq

def signInKey (toLower : String → String) (email : String) : String := toLower (trimSpace email)

namespace SignInCount

def expiry (cfg : ThrottleConfig) (c : SignInCount) : ℕ := c.start + cfg.window

def expired (cfg : ThrottleConfig) (now : ℕ) (c : SignInCount) : Bool := decide (c.expiry cfg ≤ now)

end SignInCount

namespace SignInThrottle

variable (cfg : ThrottleConfig)

/-- The loop's running minimum; zero stands for none yet. -/
def earlier (nextExpiry exp : ℕ) : ℕ :=
  if nextExpiry = 0 ∨ exp < nextExpiry then exp else nextExpiry

def sweep (t : SignInThrottle) (now : ℕ) : SignInThrottle :=
  let kept := t.counts.deleteWhere fun _ c => c.expired cfg now
  { t with
    sweeps := t.sweeps + 1
    lastSweep := now
    nextExpiry := (kept.rows.map fun e => e.2.expiry cfg).foldl earlier 0
    counts := kept }

def sweepDue (t : SignInThrottle) (now : ℕ) : SignInThrottle :=
  if signInSweepEvery ≤ now - t.lastSweep then t.sweep cfg now else t

def crowded (t : SignInThrottle) (key : String) : Bool :=
  (t.counts.get? key).isNone && decide (cfg.maxKeys ≤ t.counts.rows.length)

def sweepFull (t : SignInThrottle) (key : String) (now : ℕ) : SignInThrottle :=
  if t.crowded cfg key && decide (t.nextExpiry ≤ now) then t.sweep cfg now else t

def warn (t : SignInThrottle) (now : ℕ) : SignInThrottle :=
  if 60 * 10 ^ 9 ≤ now - t.lastWarn then { t with lastWarn := now } else t

def current (t : SignInThrottle) (key : String) (now : ℕ) : SignInCount :=
  match t.counts.get? key with
  | none => { start := now }
  | some c => if c.expired cfg now then { start := now } else c

def count (t : SignInThrottle) (key : String) (now : ℕ) : SignInThrottle × Answer :=
  let c := t.current cfg key now
  if cfg.max ≤ c.n then (t, .capped)
  else ({ t with counts := t.counts.set key { c with n := c.n + 1 } }, .admitted)

def admitKey (t : SignInThrottle) (key : String) (now : ℕ) : SignInThrottle × Answer :=
  let t := (t.sweepDue cfg now).sweepFull cfg key now
  if t.crowded cfg key then (t.warn now, .full) else t.count cfg key now

def refund (t : SignInThrottle) (key : String) : SignInThrottle :=
  { t with counts := t.counts.modify key fun c => if 0 < c.n then { c with n := c.n - 1 } else c }

def reset (t : SignInThrottle) (key : String) : SignInThrottle :=
  { t with counts := t.counts.deleteWhere fun k _ => k == key }

end SignInThrottle

/-! ### Calls -/

/-- A call; `attempt` is the admitted attempt, by its place among all of them, that a refund
returns. -/
inductive ThrottleCall where
  | admitEmail (email : String) (now : ℕ)
  | refund (email : String) (attempt : ℕ)
  | reset (email : String)
  deriving DecidableEq

def ThrottleCall.email : ThrottleCall → String
  | .admitEmail email _ => email
  | .refund email _ => email
  | .reset email => email

namespace SignInThrottle

variable (cfg : ThrottleConfig) (toLower : String → String)

def call (t : SignInThrottle) : ThrottleCall → SignInThrottle × Option Answer
  | .admitEmail email now => ((t.admitKey cfg (signInKey toLower email) now).1,
      some (t.admitKey cfg (signInKey toLower email) now).2)
  | .refund email _ => (t.refund (signInKey toLower email), none)
  | .reset email => (t.reset (signInKey toLower email), none)

def answers : SignInThrottle → List ThrottleCall → List (ThrottleCall × Option Answer)
  | _, [] => []
  | t, call :: calls =>
    (call, (t.call cfg toLower call).2) :: answers (t.call cfg toLower call).1 calls

end SignInThrottle

/-- An admitted attempt; `era` counts the resets of its key before it. -/
structure Attempt where
  key : String
  made : ℕ
  era : ℕ
  refunded : Bool := false
  deriving DecidableEq

structure Signing where
  throttle : SignInThrottle := {}
  clock : ℕ := 0
  attempts : List Attempt := []
  resets : List String := []

namespace Signing

variable (cfg : ThrottleConfig) (toLower : String → String)

def era (w : Signing) (key : String) : ℕ := w.resets.count key

def admitKey (w : Signing) (key : String) (now : ℕ) : Signing :=
  let next := w.throttle.admitKey cfg key now
  { w with
    throttle := next.1
    clock := now
    attempts := if next.2 = .admitted then
      w.attempts ++ [{ key := key, made := now, era := w.era key }] else w.attempts }

def refund (w : Signing) (key : String) (attempt : ℕ) : Signing :=
  { w with
    throttle := w.throttle.refund key
    attempts := w.attempts.modify attempt fun a => { a with refunded := true } }

def reset (w : Signing) (key : String) : Signing :=
  { w with throttle := w.throttle.reset key, resets := key :: w.resets }

/-- A call a client makes: the clock never goes back, and a refund returns an attempt of its key
that nobody returned before. -/
def step (w : Signing) : ThrottleCall → Option Signing
  | .admitEmail email now =>
    if now < w.clock then none else some (w.admitKey cfg (signInKey toLower email) now)
  | .refund email attempt =>
    match w.attempts[attempt]? with
    | none => none
    | some a =>
      if a.key = signInKey toLower email ∧ a.refunded = false then
        some (w.refund (signInKey toLower email) attempt)
      else none
  | .reset email => some (w.reset (signInKey toLower email))

def own (w : Signing) (key : String) (era : ℕ) : List Attempt :=
  w.attempts.filter fun a => a.key = key && a.era = era

end Signing

/-- The windows of a run of attempts, the last one first: an attempt that the last window does
not reach opens the next. -/
def windows (length : ℕ) (made : List ℕ) : List ℕ :=
  made.foldl (fun starts now =>
    match starts with
    | [] => [now]
    | start :: _ => if now < start + length then starts else now :: starts) []

def standing (length start : ℕ) (attempts : List Attempt) : ℕ :=
  attempts.countP fun a => start ≤ a.made && a.made < start + length && !a.refunded

end InvoiceOs.Gateway
