import InvoiceOs.Lib.Interleave
import InvoiceOs.Notifications.Contact

/-! The erasure of one person beside the deliveries of the address. An attempt runs its steps in
their order, each under its own transaction; a delivery holds the lock of its destination across
the vendor call. Any of them may fail or be killed between two statements, and River deletes the
row of a job some time after the job's end. -/

namespace InvoiceOs.Notifications

open Lib
open Submission (RiverState)

inductive EraseStep where
  | sweep
  | account
  | hubspot
  | resend
  | final
  deriving DecidableEq

inductive Phase where
  | ready
  | lockedHubSpot
  | locked
  | found (ids : List ℕ)
  | erased
  deriving DecidableEq

structure Attempt where
  generation : ℕ
  localErased : Bool
  accountErased : Bool
  hubspotErased : Bool
  resendErased : Bool
  failed : Bool := false
  step : EraseStep := .sweep
  phase : Phase := .ready
  deriving DecidableEq

namespace Attempt

def done (a : Attempt) : EraseStep → Bool
  | .sweep => a.localErased
  | .account => a.accountErased
  | .hubspot => a.hubspotErased
  | .resend => a.resendErased
  | .final => false

/-- The loop over the steps left; past it the attempt returns its first error, or sweeps again. -/
def enter (a : Attempt) : List EraseStep → Option Attempt
  | [] => if a.failed then none else some { a with step := .final, phase := .ready }
  | s :: rest => if a.done s then a.enter rest else some { a with step := s, phase := .ready }

end Attempt

def stepsAfter : EraseStep → List EraseStep
  | .sweep => [.account, .hubspot, .resend]
  | .account => [.hubspot, .resend]
  | .hubspot => [.resend]
  | .resend => []
  | .final => []

inductive WorkPhase where
  | started
  | locked
  | sent
  | returned (ok : Bool)
  deriving DecidableEq

inductive Task where
  | idle
  | erasing (a : Attempt)
  | delivering (job : ℕ) (dest : Dest) (version : ℕ) (phase : WorkPhase)
  | dealing (job : ℕ) (phase : WorkPhase)

inductive Act where
  | request
  | begin (generation : ℕ)
  | lock
  | find
  | sweep
  | deleteAccount
  | erase (cut : Option ℕ)
  | stamp
  | fail
  | crash
  | fetch (job : ℕ)
  | rescue (job : ℕ) (state : RiverState)
  | clean (job : ℕ)
  | send (cut : Option ℕ)
  | record
  | complete (state : RiverState)

/-- River runs a job in one place at a time, an erasure job too; the advisory locks are those of
`contact_deliver`. -/
inductive Lock where
  | attempt (generation : ℕ)
  | worker (job : ℕ)
  | deliver (dest : Dest)
  deriving DecidableEq

namespace Task

def ofAttempt : Option Attempt → Task
  | none => idle
  | some a => erasing a

def attemptLocks : EraseStep → Phase → List Lock
  | .hubspot, .locked => [.deliver .hubspot]
  | .hubspot, .erased => [.deliver .hubspot]
  | .resend, .locked => [.deliver .resend]
  | .resend, .erased => [.deliver .resend]
  | _, .lockedHubSpot => [.deliver .hubspot]
  | _, .locked => [.deliver .hubspot, .deliver .resend]
  | _, .found _ => [.deliver .hubspot, .deliver .resend]
  | _, _ => []

def workLocks (dest : Dest) : WorkPhase → List Lock
  | .locked => [.deliver dest]
  | .sent => [.deliver dest]
  | _ => []

def holds : Task → List Lock
  | idle => []
  | erasing a => .attempt a.generation :: attemptLocks a.step a.phase
  | delivering job dest _ phase => .worker job :: workLocks dest phase
  | dealing job phase => .worker job :: workLocks .hubspot phase

def nextLock (a : Attempt) : Option (Dest × Phase) :=
  match a.step, a.phase with
  | .sweep, .ready => some (.hubspot, .lockedHubSpot)
  | .sweep, .lockedHubSpot => some (.resend, .locked)
  | .final, .ready => some (.hubspot, .lockedHubSpot)
  | .final, .lockedHubSpot => some (.resend, .locked)
  | .hubspot, .ready => some (.hubspot, .locked)
  | .resend, .ready => some (.resend, .locked)
  | _, _ => none

def needs (t : Task) (act : Act) : List Lock :=
  match t, act with
  | idle, .begin generation => [.attempt generation]
  | idle, .fetch job => [.worker job]
  | idle, .rescue job _ => [.worker job]
  | erasing a, .lock => (nextLock a).toList.map fun e => .deliver e.1
  | delivering _ dest _ .started, .lock => [.deliver dest]
  | dealing _ .started, .lock => [.deliver .hubspot]
  | _, _ => []

end Task

namespace Store

def beginErase (st : Store) (generation : ℕ) : Option Attempt :=
  match st.erasure with
  | none => none
  | some r =>
    if r.finished || r.generation != generation then none
    else
      let a : Attempt := {
        generation := generation
        localErased := r.localErased
        accountErased := r.accountErased
        hubspotErased := r.hubspotErased
        resendErased := r.resendErased }
      a.enter [.sweep, .account, .hubspot, .resend]

/-- The step's row update and commit; a re-requested row ends the attempt and nothing commits. -/
def commitStep (before after : Store) (a : Attempt) (set : Erasure → Erasure)
    (next : Option Attempt) : Store × Task :=
  match after.updateRow a.generation set with
  | none => (before, .idle)
  | some st => (st, .ofAttempt next)

def commitSweep (st : Store) (a : Attempt) (found : List ℕ) : Option (Store × Task) :=
  match a.step with
  | .sweep =>
    some (commitStep st (st.sweep found) a (fun r => { r with localErased := true })
      ({ a with localErased := true }.enter (stepsAfter .sweep)))
  | .final =>
    if st.sweepCount found > 0 then
      some (commitStep st (st.sweep found) a
        (fun r => { r with hubspotErased := false, resendErased := false }) none)
    else
      some (commitStep st (st.sweep found) a (fun r => { r with finished := true }) none)
  | _ => none

def commitStamp (st : Store) (a : Attempt) : Option (Store × Task) :=
  match a.step, a.phase with
  | .account, .ready =>
    some (commitStep st st a (fun r => { r with accountErased := true })
      ({ a with accountErased := true }.enter (stepsAfter .account)))
  | .hubspot, .erased =>
    some (commitStep st st a (fun r => { r with hubspotErased := true })
      ({ a with hubspotErased := true }.enter (stepsAfter .hubspot)))
  | .resend, .erased =>
    some (commitStep st st a (fun r => { r with resendErased := true })
      ({ a with resendErased := true }.enter (stepsAfter .resend)))
  | _, _ => none

end Store

def EraseStep.dest? : EraseStep → Option Dest
  | .hubspot => some .hubspot
  | .resend => some .resend
  | _ => none

/-- A failed sweep ends the attempt; the other steps are tried past a failure. -/
def Attempt.afterFailure (a : Attempt) : Option Attempt :=
  match a.step with
  | .sweep => none
  | .final => none
  | s => { a with failed := true }.enter (stepsAfter s)

def eraseNext (st : Store) (a : Attempt) (act : Act) : Option (Store × Task) :=
  match act with
  | .lock => (Task.nextLock a).map fun e => (st, .erasing { a with phase := e.2 })
  | .find =>
    match a.step, a.phase with
    | .sweep, .locked => some (st, .erasing { a with phase := .found st.liveJobs })
    | .final, .locked => some (st, .erasing { a with phase := .found st.liveJobs })
    | _, _ => none
  | .sweep =>
    match a.phase with
    | .found ids => st.commitSweep a ids
    | _ => none
  | .deleteAccount => if a.step = .account then st.commitStamp a else none
  | .erase cut =>
    if a.phase = .locked then
      a.step.dest?.map fun dest =>
        let e := st.eraseContact dest cut
        (e.1, if e.2 then .erasing { a with phase := .erased } else .ofAttempt a.afterFailure)
    else none
  | .stamp => if a.phase = .erased then st.commitStamp a else none
  | .fail => some (st, .ofAttempt a.afterFailure)
  | .crash => some (st, .idle)
  | _ => none

def Answer.phase : Answer → WorkPhase
  | .nothingToDo => .returned true
  | .failed => .returned false
  | .delivered => .sent

def workNext (st : Store) (job : ℕ) (phase : WorkPhase) (task : WorkPhase → Task)
    (call : Option ℕ → Store × Answer) (record : Store) (act : Act) : Option (Store × Task) :=
  match phase, act with
  | .started, .lock => some (st, task .locked)
  | .locked, .send cut => some ((call cut).1, task (call cut).2.phase)
  | .sent, .record => some (record, task (.returned true))
  | .started, .fail => some (st, task (.returned false))
  | .locked, .fail => some (st, task (.returned false))
  | .sent, .fail => some (st, task (.returned false))
  | .returned ok, .complete state =>
    if state = .running ∨ ok ≠ decide (state = .completed) then none
    else some (st.setJobState job state, .idle)
  | _, .crash => some (st, .idle)
  | _, _ => none

def fetchNext (st : Store) (job : ℕ) : Option (Store × Task) :=
  match st.jobs.get? job with
  | none => none
  | some j =>
    if j.state = .waiting then
      match j.args with
      | .deliver dest version =>
        some (st.setJobState job .running, .delivering job dest version .started)
      | .demoDeal => some (st.setJobState job .running, .dealing job .started)
      | .other => none
    else none

def rescueNext (st : Store) (job : ℕ) (state : RiverState) : Option (Store × Task) :=
  match st.jobs.get? job with
  | none => none
  | some j =>
    if j.state = .running ∧ state ≠ .running then some (st.setJobState job state, .idle) else none

/-- River's cleaner, with its default retention: the row of a job that has ended. -/
def cleanNext (st : Store) (job : ℕ) : Option (Store × Task) :=
  match st.jobs.get? job with
  | none => none
  | some j => if j.state.live then none else some (st.removeJob job, .idle)

def next (st : Store) (t : Task) (act : Act) : Option (Store × Task) :=
  match t with
  | .erasing a => eraseNext st a act
  | .delivering job dest version phase =>
    workNext st job phase (.delivering job dest version) (st.deliver dest version)
      (st.recordDelivery dest version) act
  | .dealing job phase => workNext st job phase (.dealing job) st.openDeal st act
  | .idle =>
    match act with
    | .request => some (st.enqueueErasure, .idle)
    | .begin generation => some (st, .ofAttempt (st.beginErase generation))
    | .fetch job => fetchNext st job
    | .rescue job state => rescueNext st job state
    | .clean job => cleanNext st job
    | _ => none

inductive Move (st : Store) : Task → Act → Store → Task → Prop where
  | request : Move st .idle .request st.enqueueErasure .idle
  | begin {generation} :
      Move st .idle (.begin generation) st (.ofAttempt (st.beginErase generation))
  | deliver {job dest version} (hjob : st.jobs.get? job = some ⟨.deliver dest version, .waiting⟩) :
      Move st .idle (.fetch job) (st.setJobState job .running)
        (.delivering job dest version .started)
  | deal {job} (hjob : st.jobs.get? job = some ⟨.demoDeal, .waiting⟩) :
      Move st .idle (.fetch job) (st.setJobState job .running) (.dealing job .started)
  | rescue {job j state} (hjob : st.jobs.get? job = some j) (hrunning : j.state = .running)
      (hstate : state ≠ .running) :
      Move st .idle (.rescue job state) (st.setJobState job state) .idle
  | clean {job j} (hjob : st.jobs.get? job = some j) (hended : j.state.live = false) :
      Move st .idle (.clean job) (st.removeJob job) .idle
  | lock {a dest phase} (hnext : Task.nextLock a = some (dest, phase)) :
      Move st (.erasing a) .lock st (.erasing { a with phase := phase })
  | find {a} (hstep : a.step = .sweep ∨ a.step = .final) (hphase : a.phase = .locked) :
      Move st (.erasing a) .find st (.erasing { a with phase := .found st.liveJobs })
  | sweep {a ids st' t'} (hphase : a.phase = .found ids)
      (hcommit : st.commitSweep a ids = some (st', t')) : Move st (.erasing a) .sweep st' t'
  | erase {a dest cut} (hstep : a.step.dest? = some dest) (hphase : a.phase = .locked) :
      Move st (.erasing a) (.erase cut) (st.eraseContact dest cut).1
        (if (st.eraseContact dest cut).2 then .erasing { a with phase := .erased }
          else .ofAttempt a.afterFailure)
  | stamp {a act st' t'} (hact : act = .deleteAccount ∨ act = .stamp)
      (hcommit : st.commitStamp a = some (st', t')) : Move st (.erasing a) act st' t'
  | fail {a} : Move st (.erasing a) .fail st (.ofAttempt a.afterFailure)
  | crash {t} : Move st t .crash st .idle
  | delivering {job dest version phase act st' t'}
      (hwork : workNext st job phase (.delivering job dest version) (st.deliver dest version)
        (st.recordDelivery dest version) act = some (st', t')) :
      Move st (.delivering job dest version phase) act st' t'
  | dealing {job phase act st' t'}
      (hwork : workNext st job phase (.dealing job) st.openDeal st act = some (st', t')) :
      Move st (.dealing job phase) act st' t'

theorem eraseNext_move {st st' : Store} {a : Attempt} {act : Act} {t' : Task}
    (h : eraseNext st a act = some (st', t')) : Move st (.erasing a) act st' t' := by
  cases act with
  | lock =>
    obtain ⟨⟨dest, phase⟩, hnext, hpair⟩ := Option.map_eq_some_iff.mp h
    cases hpair
    exact .lock hnext
  | find =>
    simp only [eraseNext] at h
    split at h
    · rename_i hstep hphase
      cases h
      exact .find (.inl hstep) hphase
    · rename_i hstep hphase
      cases h
      exact .find (.inr hstep) hphase
    · cases h
  | sweep =>
    simp only [eraseNext] at h
    split at h
    · rename_i ids hphase
      exact .sweep hphase h
    · cases h
  | deleteAccount =>
    simp only [eraseNext] at h
    split at h
    · exact .stamp (.inl rfl) h
    · cases h
  | erase cut =>
    simp only [eraseNext] at h
    split at h
    · rename_i hphase
      obtain ⟨dest, hstep, hpair⟩ := Option.map_eq_some_iff.mp h
      cases hpair
      exact .erase hstep hphase
    · cases h
  | stamp =>
    simp only [eraseNext] at h
    split at h
    · exact .stamp (.inr rfl) h
    · cases h
  | fail =>
    cases h
    exact .fail
  | crash =>
    cases h
    exact .crash
  | _ => cases h

theorem next_move {st st' : Store} {t t' : Task} {act : Act}
    (h : next st t act = some (st', t')) : Move st t act st' t' := by
  cases t with
  | erasing a => exact eraseNext_move h
  | delivering job dest version phase => exact .delivering h
  | dealing job phase => exact .dealing h
  | idle =>
    cases act with
    | request =>
      cases h
      exact .request
    | begin generation =>
      cases h
      exact .begin
    | fetch job =>
      simp only [next, fetchNext] at h
      split at h
      · cases h
      · rename_i j hj
        split at h
        · rename_i hwaiting
          obtain ⟨args, state⟩ := j
          cases hwaiting
          cases args with
          | deliver dest version =>
            cases h
            exact .deliver hj
          | demoDeal =>
            cases h
            exact .deal hj
          | other => cases h
        · cases h
    | rescue job state =>
      simp only [next, rescueNext] at h
      split at h
      · cases h
      · rename_i j hj
        split at h
        · rename_i hstate
          cases h
          exact .rescue hj hstate.1 hstate.2
        · cases h
    | clean job =>
      simp only [next, cleanNext] at h
      split at h
      · cases h
      · rename_i j hj
        split at h
        · cases h
        · rename_i hended
          cases h
          exact .clean hj (Bool.eq_false_iff.mpr hended)
    | _ => cases h

theorem workNext_cases {st st' record : Store} {job : ℕ} {phase : WorkPhase}
    {task : WorkPhase → Task} {call : Option ℕ → Store × Answer} {act : Act} {t' : Task}
    (h : workNext st job phase task call record act = some (st', t')) :
    (phase = .started ∧ act = .lock ∧ st' = st ∧ t' = task .locked) ∨
      (∃ cut, phase = .locked ∧ st' = (call cut).1 ∧ t' = task (call cut).2.phase) ∨
      (phase = .sent ∧ st' = record ∧ t' = task (.returned true)) ∨
      (st' = st ∧ t' = task (.returned false)) ∨
      (∃ state, state ≠ .running ∧ st' = st.setJobState job state ∧ t' = .idle) ∨
      (st' = st ∧ t' = .idle) := by
  unfold workNext at h
  split at h
  · cases h
    exact .inl ⟨rfl, rfl, rfl, rfl⟩
  · cases h
    exact .inr (.inl ⟨_, rfl, rfl, rfl⟩)
  · cases h
    exact .inr (.inr (.inl ⟨rfl, rfl, rfl⟩))
  · cases h
    exact .inr (.inr (.inr (.inl ⟨rfl, rfl⟩)))
  · cases h
    exact .inr (.inr (.inr (.inl ⟨rfl, rfl⟩)))
  · cases h
    exact .inr (.inr (.inr (.inl ⟨rfl, rfl⟩)))
  · split at h
    · cases h
    · rename_i state hstate
      cases h
      exact .inr (.inr (.inr (.inr (.inl ⟨state, fun hrun => hstate (.inl hrun), rfl, rfl⟩))))
  · cases h
    exact .inr (.inr (.inr (.inr (.inr ⟨rfl, rfl⟩))))
  · cases h

theorem enter_ready {a b : Attempt} {steps : List EraseStep} (h : a.enter steps = some b) :
    b.phase = .ready ∧ b.generation = a.generation := by
  induction steps with
  | nil =>
    simp only [Attempt.enter] at h
    split at h
    · cases h
    · cases h
      exact ⟨rfl, rfl⟩
  | cons s steps ih =>
    simp only [Attempt.enter] at h
    split at h
    · exact ih h
    · cases h
      exact ⟨rfl, rfl⟩

theorem holds_ofAttempt {a : Attempt} {steps : List EraseStep} {l : Lock} {generation : ℕ}
    (h : l ∈ (Task.ofAttempt (a.enter steps)).holds) (hgeneration : a.generation = generation) :
    l = .attempt generation := by
  cases hb : a.enter steps with
  | none =>
    rw [hb] at h
    cases h
  | some b =>
    rw [hb] at h
    obtain ⟨hphase, hkept⟩ := enter_ready hb
    have hnone : Task.attemptLocks b.step b.phase = [] := by
      rw [hphase]
      cases b.step <;> rfl
    have hlocks : (Task.ofAttempt (some b)).holds = [.attempt b.generation] := by
      change Lock.attempt b.generation :: Task.attemptLocks b.step b.phase = _
      rw [hnone]
    rw [hlocks, List.mem_singleton, hkept, hgeneration] at h
    exact h

/-! ### What the commits write -/

theorem updateRow_eq_some {st st' : Store} {generation : ℕ} {set : Erasure → Erasure} :
    st.updateRow generation set = some st' ↔
      ∃ r, st.erasure = some r ∧ r.generation = generation ∧ st' = st.setErasure (set r) := by
  unfold Store.updateRow
  split
  · rename_i hnone
    simp [hnone]
  · rename_i r hr
    split
    · rename_i hg
      simp only [Option.some.injEq, hr]
      constructor
      · rintro rfl
        exact ⟨r, rfl, hg, rfl⟩
      · rintro ⟨r', rfl, -, rfl⟩
        rfl
    · rename_i hg
      simp only [reduceCtorEq, hr, Option.some.injEq, false_iff]
      rintro ⟨r', rfl, hg', -⟩
      exact hg hg'

section
variable {st st' : Store} {a : Attempt} {t' : Task}

theorem commitStep_cases {before after : Store} {set : Erasure → Erasure} {next : Option Attempt}
    (h : Store.commitStep before after a set next = (st', t')) :
    (st' = before ∧ t' = .idle) ∨
      ∃ r, after.erasure = some r ∧ r.generation = a.generation ∧
        st' = after.setErasure (set r) ∧ t' = .ofAttempt next := by
  unfold Store.commitStep at h
  split at h
  · cases h
    exact .inl ⟨rfl, rfl⟩
  · rename_i st₁ hst
    cases h
    obtain ⟨r, hr, hg, rfl⟩ := updateRow_eq_some.mp hst
    exact .inr ⟨r, hr, hg, rfl, rfl⟩

theorem commitSweep_cases {found : List ℕ} (h : st.commitSweep a found = some (st', t')) :
    (st' = st ∧ t' = .idle) ∨ ∃ r, st.erasure = some r ∧ r.generation = a.generation ∧
      ((a.step = .sweep ∧ st' = (st.sweep found).setErasure { r with localErased := true } ∧
          t' = .ofAttempt ({ a with localErased := true }.enter (stepsAfter .sweep))) ∨
        (a.step = .final ∧ t' = .idle ∧ st' = (st.sweep found).setErasure
          { r with hubspotErased := false, resendErased := false }) ∨
        (a.step = .final ∧ t' = .idle ∧ st.sweepCount found = 0 ∧
          st' = (st.sweep found).setErasure { r with finished := true })) := by
  unfold Store.commitSweep at h
  split at h
  · rename_i hstep
    obtain h | ⟨r, hr, hg, rfl, rfl⟩ := commitStep_cases (Option.some.inj h)
    · exact .inl h
    · exact .inr ⟨r, hr, hg, .inl ⟨hstep, rfl, rfl⟩⟩
  · rename_i hstep
    split at h
    · obtain h | ⟨r, hr, hg, rfl, rfl⟩ := commitStep_cases (Option.some.inj h)
      · exact .inl h
      · exact .inr ⟨r, hr, hg, .inr (.inl ⟨hstep, rfl, rfl⟩)⟩
    · rename_i hcount
      obtain h | ⟨r, hr, hg, rfl, rfl⟩ := commitStep_cases (Option.some.inj h)
      · exact .inl h
      · exact .inr ⟨r, hr, hg, .inr (.inr ⟨hstep, rfl, Nat.eq_zero_of_not_pos hcount, rfl⟩)⟩
  · cases h

theorem commitStamp_cases (h : st.commitStamp a = some (st', t')) :
    (st' = st ∧ t' = .idle) ∨ ∃ r, st.erasure = some r ∧ r.generation = a.generation ∧
      ((a.step = .account ∧ st' = st.setErasure { r with accountErased := true } ∧
          t' = .ofAttempt ({ a with accountErased := true }.enter (stepsAfter .account))) ∨
        (a.step = .hubspot ∧ a.phase = .erased ∧
          st' = st.setErasure { r with hubspotErased := true } ∧
          t' = .ofAttempt ({ a with hubspotErased := true }.enter (stepsAfter .hubspot))) ∨
        (a.step = .resend ∧ a.phase = .erased ∧
          st' = st.setErasure { r with resendErased := true } ∧
          t' = .ofAttempt ({ a with resendErased := true }.enter (stepsAfter .resend)))) := by
  unfold Store.commitStamp at h
  split at h
  · rename_i hstep _
    obtain h | ⟨r, hr, hg, rfl, rfl⟩ := commitStep_cases (Option.some.inj h)
    · exact .inl h
    · exact .inr ⟨r, hr, hg, .inl ⟨hstep, rfl, rfl⟩⟩
  · rename_i hstep hphase
    obtain h | ⟨r, hr, hg, rfl, rfl⟩ := commitStep_cases (Option.some.inj h)
    · exact .inl h
    · exact .inr ⟨r, hr, hg, .inr (.inl ⟨hstep, hphase, rfl, rfl⟩)⟩
  · rename_i hstep hphase
    obtain h | ⟨r, hr, hg, rfl, rfl⟩ := commitStep_cases (Option.some.inj h)
    · exact .inl h
    · exact .inr ⟨r, hr, hg, .inr (.inr ⟨hstep, hphase, rfl, rfl⟩)⟩
  · cases h

end

/-! ### Locks -/

@[simp] theorem holds_erasing (a : Attempt) : (Task.erasing a).holds =
    .attempt a.generation :: Task.attemptLocks a.step a.phase := rfl

theorem afterFailure_eq (a : Attempt) : a.afterFailure = none ∨
    ∃ steps, a.afterFailure = { a with failed := true }.enter steps := by
  unfold Attempt.afterFailure
  split
  · exact .inl rfl
  · exact .inl rfl
  · exact .inr ⟨_, rfl⟩

theorem holds_afterFailure {a : Attempt} {l : Lock} (h : l ∈ (Task.ofAttempt a.afterFailure).holds) :
    l = .attempt a.generation := by
  obtain hnone | ⟨steps, hsteps⟩ := afterFailure_eq a
  · rw [hnone] at h
    cases h
  · rw [hsteps] at h
    exact holds_ofAttempt h rfl

theorem beginErase_eq {st : Store} {generation : ℕ} {b : Attempt}
    (h : st.beginErase generation = some b) :
    ∃ r, st.erasure = some r ∧ r.finished = false ∧ r.generation = generation ∧
      Attempt.enter ⟨generation, r.localErased, r.accountErased, r.hubspotErased, r.resendErased,
        false, .sweep, .ready⟩ [.sweep, .account, .hubspot, .resend] = some b := by
  unfold Store.beginErase at h
  split at h
  · cases h
  · rename_i r hr
    split at h
    · cases h
    · rename_i hfresh
      simp only [Bool.or_eq_true, bne_iff_ne, ne_eq, not_or, not_not, Bool.not_eq_true] at hfresh
      exact ⟨r, hr, hfresh.1, hfresh.2, h⟩

theorem nextLock_holds {a : Attempt} {dest : Dest} {phase : Phase} {l : Lock}
    (h : Task.nextLock a = some (dest, phase)) (hl : l ∈ Task.attemptLocks a.step phase) :
    l ∈ Task.attemptLocks a.step a.phase ∨ l = .deliver dest := by
  unfold Task.nextLock at h
  split at h
  all_goals cases h
  all_goals
    rename_i hstep hphase
    rw [hstep] at hl ⊢
    rw [hphase]
    simp only [Task.attemptLocks, List.mem_cons, List.not_mem_nil, or_false] at hl ⊢
    tauto

theorem workNext_locks {st st' record : Store} {job : ℕ} {dest : Dest} {phase : WorkPhase}
    {task : WorkPhase → Task} {call : Option ℕ → Store × Answer} {act : Act} {t' : Task}
    (hholds : ∀ phase, (task phase).holds = .worker job :: Task.workLocks dest phase)
    (hneeds : (task .started).needs .lock = [.deliver dest])
    (h : workNext st job phase task call record act = some (st', t')) :
    ∀ l ∈ t'.holds, l ∈ (task phase).holds ∨ l ∈ (task phase).needs act := by
  intro l hl
  have hworker : l ∈ (task (.returned true)).holds ∨ l ∈ (task (.returned false)).holds →
      l ∈ (task phase).holds := by
    rw [hholds, hholds, hholds]
    rintro (hl | hl)
    · exact List.mem_cons.mpr (.inl (List.mem_singleton.mp hl))
    · exact List.mem_cons.mpr (.inl (List.mem_singleton.mp hl))
  obtain ⟨rfl, rfl, -, rfl⟩ | ⟨cut, rfl, -, rfl⟩ | ⟨-, -, rfl⟩ | ⟨-, rfl⟩ | ⟨state, -, -, rfl⟩ |
    ⟨-, rfl⟩ := workNext_cases h
  · rw [hholds] at hl ⊢
    rw [hneeds]
    obtain rfl | hl := List.mem_cons.mp hl
    · exact .inl List.mem_cons_self
    · exact .inr hl
  · refine .inl ?_
    generalize (call cut).2 = answer at hl
    cases answer with
    | nothingToDo => exact hworker (.inl hl)
    | failed => exact hworker (.inr hl)
    | delivered =>
      rw [hholds] at hl ⊢
      exact hl
  · exact .inl (hworker (.inl hl))
  · exact .inl (hworker (.inr hl))
  · cases hl
  · cases hl

theorem holds_next (st : Store) (t : Task) (act : Act) (st' : Store) (t' : Task)
    (h : next st t act = some (st', t')) : ∀ l ∈ t'.holds, l ∈ t.holds ∨ l ∈ t.needs act := by
  intro l hl
  have hmine : ∀ a : Attempt, l = .attempt a.generation → l ∈ (Task.erasing a).holds :=
    fun a hla => hla ▸ List.mem_cons_self
  cases next_move h with
  | request => cases hl
  | @begin generation =>
    cases hb : st.beginErase generation with
    | none =>
      rw [hb] at hl
      cases hl
    | some b =>
      obtain ⟨r, -, -, -, hb'⟩ := beginErase_eq hb
      rw [hb, ← hb'] at hl
      rw [holds_ofAttempt hl rfl]
      exact .inr List.mem_cons_self
  | deliver => exact .inr hl
  | deal => exact .inr hl
  | rescue => cases hl
  | clean => cases hl
  | @lock a dest phase hnext =>
    obtain rfl | hl := List.mem_cons.mp hl
    · exact .inl List.mem_cons_self
    · obtain hl | rfl := nextLock_holds hnext hl
      · exact .inl (List.mem_cons_of_mem _ hl)
      · refine .inr ?_
        change Lock.deliver dest ∈ (Task.nextLock a).toList.map fun e => .deliver e.1
        rw [hnext]
        exact List.mem_singleton.mpr rfl
  | @find a hstep hphase =>
    refine .inl ?_
    rw [holds_erasing] at hl ⊢
    rw [hphase]
    obtain hstep | hstep := hstep
    · rw [hstep] at hl ⊢
      exact hl
    · rw [hstep] at hl ⊢
      exact hl
  | @sweep a ids st' t' hphase hcommit =>
    obtain ⟨-, rfl⟩ | ⟨r, -, -, ⟨-, -, rfl⟩ | ⟨-, rfl, -⟩ | ⟨-, rfl, -⟩⟩ := commitSweep_cases hcommit
    · cases hl
    · exact .inl (hmine a (holds_ofAttempt hl rfl))
    · cases hl
    · cases hl
  | @erase a dest cut hstep hphase =>
    split at hl
    · refine .inl ?_
      rw [holds_erasing] at hl ⊢
      rw [hphase]
      cases hs : a.step with
      | hubspot =>
        rw [hs] at hl
        exact hl
      | resend =>
        rw [hs] at hl
        exact hl
      | sweep =>
        rw [hs] at hstep
        cases hstep
      | account =>
        rw [hs] at hstep
        cases hstep
      | final =>
        rw [hs] at hstep
        cases hstep
    · exact .inl (hmine a (holds_afterFailure hl))
  | @stamp a act st' t' hact hcommit =>
    obtain ⟨-, rfl⟩ | ⟨r, -, -, ⟨-, -, rfl⟩ | ⟨-, -, -, rfl⟩ | ⟨-, -, -, rfl⟩⟩ :=
      commitStamp_cases hcommit
    · cases hl
    · exact .inl (hmine a (holds_ofAttempt hl rfl))
    · exact .inl (hmine a (holds_ofAttempt hl rfl))
    · exact .inl (hmine a (holds_ofAttempt hl rfl))
  | @fail a => exact .inl (hmine a (holds_afterFailure hl))
  | crash => cases hl
  | @delivering job dest version phase act st' t' hwork =>
    exact workNext_locks (fun _ => rfl) rfl hwork l hl
  | dealing hwork => exact workNext_locks (fun _ => rfl) rfl hwork l hl

def protocol : Protocol Store Task Act Lock where
  idle := .idle
  holds := Task.holds
  needs _ := Task.needs
  conflicts a b := decide (a = b)
  next := next
  holds_idle := rfl
  conflicts_symm a b h := by
    rw [decide_eq_true_eq] at h ⊢
    exact h.symm
  holds_next := holds_next

end InvoiceOs.Notifications
