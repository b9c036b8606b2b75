import InvoiceOs.Submission.Delivery
import Mathlib.Data.List.MinMax
import Mathlib.Data.Prod.Lex

/-! The two ways a failed invoice is sent again under its first key: an approver sends the
invoice, staff re-drives a job. Both end in the same writes; they differ in how they come to
the job, and only the approver's way asks for the invoice's newest one. The approver's River job
carries the invoice's id as it stood in the request, staff's as the database prints it. -/

namespace InvoiceOs.Submission

open Lib Invoice

def resendable (kind : FailureKind) : Bool :=
  kind == .payloadNotBuilt || kind == .neverAcknowledged

/-- A transform failure leaves the job failed, every other resendable one dead-lettered. -/
def wantState (kind : FailureKind) : JobState :=
  if kind = .payloadNotBuilt then .failed else .deadLettered

namespace Store

def newestJob (st : Store) (invoiceID : Uuid) : Option (Uuid × Job) :=
  (st.jobs.rows.filter fun e => e.2.invoiceID == invoiceID).argmax fun e =>
    toLex (e.2.createdAt, e.1.toNat)

def requireApprover (st : Store) (caller : Uuid) : Except JobErr Unit :=
  match st.db.directory.requireApprover caller with
  | .ok _ => pure ()
  | .error e => throw (.invoice e)

def riverWithout (st : Store) : Option ℕ → Table ℕ RiverJob
  | none => st.river
  | some n => if (st.river.get? n).isSome then AList.erase n st.river else st.river

end Store

structure SubmitText where
  invoiceID : String
  idempotencyKey : String
  deriving DecidableEq

/-- The tables, with the id in each River job that carries it as a caller spelt it; every other one
carries the database's own text of it. -/
structure TextStore extends Store where
  spelled : Table ℕ String := ∅

namespace TextStore

def submitText (st : TextStore) (n : ℕ) (j : RiverJob) : Option SubmitText :=
  match j.args with
  | .submit args => some ⟨(st.spelled.get? n).getD args.invoiceID.text, args.idempotencyKey⟩
  | .poll _ => none

/-- Unique by arguments, over the states River counts when none are named. -/
def hasSubmit (st : TextStore) (args : SubmitText) : Bool :=
  st.river.rows.any fun e => st.submitText e.1 e.2 == some args &&
    (e.2.state.live || e.2.state == .completed)

def onInvoices (st : TextStore) (f : Db → Except Err Db) : Except JobErr TextStore :=
  (st.toStore.onInvoices f).map fun s => { st with toStore := s }

/-- River's `JobDeleteTx`: a job that is gone is no error to either caller. -/
def deleteRiver (st : TextStore) (riverJobID : Option ℕ) (running : JobErr) :
    Except JobErr TextStore :=
  match riverJobID with
  | none => pure st
  | some n =>
    match st.river.get? n with
    | none => pure st
    | some j =>
      if j.state = .running then throw running
      else pure { st with river := AList.erase n st.river }

def resubmit (st : TextStore) (jobID : Uuid) (job : Job) (text : String)
    (running duplicate : JobErr) : Except JobErr TextStore := do
  let st ← st.deleteRiver job.riverJobID running
  if st.hasSubmit ⟨text, job.idempotencyKey⟩ then
    throw duplicate
  let st' := st.insertRiver (.submit ⟨job.invoiceID, job.idempotencyKey⟩)
  return {
    toStore := { st' with jobs := st'.jobs.set jobID { job with
      state := .queued
      attempts := 0
      riverJobID := some st.nextRiverID } }
    spelled := st.spelled.set st.nextRiverID text }

end TextStore

section
variable (uuidIn : String → Option Uuid)

def sendAgain (st : TextStore) (id : String) (caller : Uuid) : Except JobErr TextStore := do
  st.requireApprover caller
  match uuidIn id with
  | none => throw (.invoice .validation)
  | some invoiceID =>
    let newest := st.newestJob invoiceID
    match st.db.invoices.get? invoiceID with
    | none => throw (.invoice .notFound)
    | some r =>
      if r.status ≠ .failed then
        throw (.invoice .illegalTransition)
      match r.failureKind with
      | none => throw .notResendable
      | some kind =>
        if resendable kind = false then
          throw .notResendable
        let st ← st.onInvoices fun db => requeueFailedTx db invoiceID (.user caller)
        match newest with
        | none => throw .notResendable
        | some (jobID, job) =>
          if job.pollRef.isSome = true ∨ job.state ≠ wantState kind then
            throw .notResendable
          st.resubmit jobID job id .resendBusy .resendBusy

end

def redrive (st : TextStore) (jobID : Uuid) : Except JobErr TextStore :=
  match st.jobs.get? jobID with
  | none => throw .jobNotFound
  | some job => do
    if st.workspaceLocked then
      throw .workspaceLocked
    if job.state ≠ .deadLettered then
      throw .jobState
    if job.pollRef.isSome then
      throw .acknowledged
    let st ← st.onInvoices fun db => requeueFailedTx db job.invoiceID .support
    st.resubmit jobID job job.invoiceID.text .riverRunning .riverDuplicate

/-! ### What a commit of either leaves -/

def TextStore.resubmitted (st : TextStore) (jobID : Uuid) (job : Job) (r : Row) (actor : Subject)
    (text : String) : TextStore where
  toStore := { st.toStore with
    db := st.db.setInvoice job.invoiceID (r.applyTransition .queued actor {})
    jobs := st.jobs.set jobID { job with
      state := .queued
      attempts := 0
      riverJobID := some st.nextRiverID }
    river := (st.riverWithout job.riverJobID).set st.nextRiverID
      { args := .submit ⟨job.invoiceID, job.idempotencyKey⟩ }
    nextRiverID := st.nextRiverID + 1 }
  spelled := st.spelled.set st.nextRiverID text

def TextStore.riverFree (st : TextStore) (job : Job) (text : String) : Bool :=
  (job.riverJobID.all fun n => (st.river.get? n).all fun j => j.state != .running) &&
    !({ st with river := st.riverWithout job.riverJobID } : TextStore).hasSubmit
      ⟨text, job.idempotencyKey⟩

def requeueable (st : Store) (invoiceID : Uuid) (r : Row) : Bool :=
  r.status == .failed && r.keptAsIs.isNone && !hasBlockingViolation
    (noteViolations r (readOriginalFactsTx st.db.invoices r.originalInvoiceID invoiceID))

section
variable {st st' : TextStore} {id jobID invoiceID caller : Uuid} {job : Job} {actor : Subject}
  {text : String}

theorem onInvoices_requeue_eq_ok :
    (st.onInvoices fun db => requeueFailedTx db id actor) = .ok st' ↔
      ∃ r, st.db.invoices.get? id = some r ∧ requeueable st.toStore id r = true ∧
        st' = { st with db := st.db.setInvoice id (r.applyTransition .queued actor {}) } := by
  have hstore : ∀ s, (st.toStore.onInvoices fun db => requeueFailedTx db id actor) = .ok s ↔
      ∃ r, st.db.invoices.get? id = some r ∧ requeueable st.toStore id r = true ∧
        s = { st.toStore with db := st.db.setInvoice id (r.applyTransition .queued actor {}) } := by
    intro s
    simp only [Store.onInvoices_eq_ok, requeueFailedTx, checkRequeue, commitRequeue, bind_eq_ok,
      refuse_eq_ok, check_eq_ok, pure_eq_ok, Db.getInvoice_eq_ok, ne_eq, not_not,
      Bool.not_eq_true, Option.isSome_eq_false_iff, requeueable, Bool.and_eq_true, beq_iff_eq,
      Bool.not_eq_true']
    constructor
    · rintro ⟨db, ⟨u, ⟨r, hr, hs, hkept, hnote, -⟩, r', hr', rfl⟩, rfl⟩
      obtain rfl := Option.some.inj (hr.symm.trans hr')
      exact ⟨r, hr, ⟨⟨hs, hkept⟩, hnote⟩, rfl⟩
    · rintro ⟨r, hr, ⟨⟨hs, hkept⟩, hnote⟩, rfl⟩
      exact ⟨_, ⟨(), ⟨r, hr, hs, hkept, hnote, trivial⟩, r, hr, rfl⟩, rfl⟩
  unfold TextStore.onInvoices
  rw [map_eq_ok]
  constructor
  · rintro ⟨s, hs, rfl⟩
    obtain ⟨r, hr, hrequeue, rfl⟩ := (hstore s).mp hs
    exact ⟨r, hr, hrequeue, rfl⟩
  · rintro ⟨r, hr, hrequeue, rfl⟩
    exact ⟨_, (hstore _).mpr ⟨r, hr, hrequeue, rfl⟩, rfl⟩

theorem deleteRiver_eq_ok {n : Option ℕ} {running : JobErr} :
    st.deleteRiver n running = .ok st' ↔
      (n.all fun n => (st.river.get? n).all fun j => j.state != .running) = true ∧
        st' = { st with river := st.riverWithout n } := by
  cases n with
  | none =>
    simp only [TextStore.deleteRiver, pure_eq_ok, Option.all_none, true_and]
    exact eq_comm
  | some n =>
    cases hj : st.river.get? n with
    | none =>
      have hriver : st.riverWithout (some n) = st.river := by
        rw [Store.riverWithout, hj]
        rfl
      simp only [TextStore.deleteRiver, hj, pure_eq_ok, Option.all_some, Option.all_none, true_and,
        hriver]
      exact eq_comm
    | some j =>
      have hriver : st.riverWithout (some n) = AList.erase n st.river := by
        rw [Store.riverWithout, hj]
        rfl
      simp only [TextStore.deleteRiver, hj, check_eq_ok, pure_eq_ok, Option.all_some, bne_iff_ne,
        hriver, ne_eq]
      exact and_congr_right fun _ => eq_comm

theorem resubmit_eq_ok {running duplicate : JobErr} :
    st.resubmit jobID job text running duplicate = .ok st' ↔ st.riverFree job text = true ∧
      st' = {
        toStore := { st.toStore with
          jobs := st.jobs.set jobID { job with
            state := .queued
            attempts := 0
            riverJobID := some st.nextRiverID }
          river := (st.riverWithout job.riverJobID).set st.nextRiverID
            { args := .submit ⟨job.invoiceID, job.idempotencyKey⟩ }
          nextRiverID := st.nextRiverID + 1 }
        spelled := st.spelled.set st.nextRiverID text } := by
  simp only [TextStore.resubmit, bind_eq_ok, deleteRiver_eq_ok, refuse_eq_ok, pure_eq_ok,
    TextStore.riverFree, Bool.and_eq_true, Bool.not_eq_true', Bool.not_eq_true]
  constructor
  · rintro ⟨st₁, ⟨hfree, rfl⟩, hnone, rfl⟩
    exact ⟨⟨hfree, hnone⟩, rfl⟩
  · rintro ⟨⟨hfree, hnone⟩, rfl⟩
    exact ⟨_, ⟨hfree, rfl⟩, hnone, rfl⟩

theorem newestJob_row (h : st.newestJob invoiceID = some (jobID, job)) :
    st.jobs.get? jobID = some job ∧ job.invoiceID = invoiceID := by
  have hmem := List.argmax_mem h
  obtain ⟨hrow, hinv⟩ := List.mem_filter.mp hmem
  exact ⟨Table.mem_rows.mp hrow, beq_iff_eq.mp hinv⟩

end

def redrivable (st : TextStore) (job : Job) (r : Row) : Bool :=
  !st.workspaceLocked && job.state == .deadLettered && job.pollRef.isNone &&
    requeueable st.toStore job.invoiceID r && st.riverFree job job.invoiceID.text

def sendable (st : TextStore) (caller : Uuid) (job : Job) (r : Row) (text : String) : Bool :=
  (st.db.directory.accessRole caller).any Approval.isApprover &&
    (r.failureKind.any fun kind => resendable kind && job.state == wantState kind) &&
      job.pollRef.isNone && requeueable st.toStore job.invoiceID r && st.riverFree job text

section
variable {uuidIn : String → Option Uuid} {st st' : TextStore} {invoiceID jobID caller : Uuid}
  {job : Job} {r : Row} {text : String}

theorem redrive_eq_ok : redrive st jobID = .ok st' ↔ ∃ job r, st.jobs.get? jobID = some job ∧
    st.db.invoices.get? job.invoiceID = some r ∧ redrivable st job r = true ∧
      st' = st.resubmitted jobID job r .support job.invoiceID.text := by
  unfold redrive
  cases hjob : st.jobs.get? jobID with
  | none =>
    simp only [throw_ne_ok, reduceCtorEq, false_and, exists_false]
  | some job =>
    simp only [refuse_eq_ok, bind_eq_ok, onInvoices_requeue_eq_ok, resubmit_eq_ok, ne_eq, not_not,
      Bool.not_eq_true, Option.some.injEq, redrivable, Bool.and_eq_true,
      Bool.not_eq_true', beq_iff_eq, Option.isNone_iff_eq_none, Option.isSome_eq_false_iff]
    constructor
    · rintro ⟨hlocked, hs, href, st₁, ⟨r, hr, hrequeue, rfl⟩, hfree, rfl⟩
      exact ⟨job, r, rfl, hr, ⟨⟨⟨⟨hlocked, hs⟩, href⟩, hrequeue⟩, hfree⟩, rfl⟩
    · rintro ⟨_, r, rfl, hr, ⟨⟨⟨⟨hlocked, hs⟩, href⟩, hrequeue⟩, hfree⟩, rfl⟩
      exact ⟨hlocked, hs, href, _, ⟨r, hr, hrequeue, rfl⟩, hfree, rfl⟩

theorem requireApprover_eq_ok {st : Store} {u : Unit} : st.requireApprover caller = .ok u ↔
    (st.db.directory.accessRole caller).any Approval.isApprover = true := by
  unfold Store.requireApprover Approval.Directory.requireApprover
  cases st.db.directory.accessRole caller with
  | none =>
    simp only [throw, throwThe, MonadExceptOf.throw, reduceCtorEq, Option.any_none,
      Bool.false_eq_true]
  | some role =>
    cases h : Approval.isApprover role with
    | false =>
      simp only [h, throw, throwThe, MonadExceptOf.throw, Bool.false_eq_true, if_false, reduceCtorEq,
        Option.any_some]
    | true =>
      simp only [h, if_true, Option.any_some, iff_true]
      rfl

theorem sendAgain_eq_ok (htext : uuidIn text = some invoiceID) :
    sendAgain uuidIn st text caller = .ok st' ↔ ∃ jobID job r,
      st.newestJob invoiceID = some (jobID, job) ∧ st.db.invoices.get? job.invoiceID = some r ∧
        sendable st caller job r text = true ∧
          st' = st.resubmitted jobID job r (.user caller) text := by
  unfold sendAgain
  simp only [bind_eq_ok, requireApprover_eq_ok, htext, sendable, Bool.and_eq_true]
  constructor
  · rintro ⟨-, happrover, h⟩
    split at h
    · cases h
    · rename_i r hr
      simp only [refuse_eq_ok, ne_eq, not_not] at h
      obtain ⟨hs, h⟩ := h
      split at h
      · cases h
      · rename_i kind hkind
        simp only [refuse_eq_ok, bind_eq_ok, onInvoices_requeue_eq_ok, Bool.not_eq_false] at h
        obtain ⟨hresend, st₁, ⟨r', hr', hrequeue, rfl⟩, h⟩ := h
        obtain rfl := Option.some.inj (hr.symm.trans hr')
        split at h
        · cases h
        · rename_i jobID job hnewest
          simp only [refuse_eq_ok, resubmit_eq_ok, not_or, Bool.not_eq_true, not_not,
            Option.isSome_eq_false_iff] at h
          obtain ⟨⟨href, hstate⟩, hfree, rfl⟩ := h
          obtain ⟨-, rfl⟩ := newestJob_row hnewest
          refine ⟨jobID, job, r, hnewest, hr, ⟨⟨⟨⟨happrover, ?_⟩, href⟩, hrequeue⟩, hfree⟩, rfl⟩
          rw [hkind, Option.any_some, hresend, hstate, beq_self_eq_true]
          rfl
  · rintro ⟨jobID, job, r, hnewest, hr, ⟨⟨⟨⟨happrover, hkind⟩, href⟩, hrequeue⟩, hfree⟩, rfl⟩
    obtain ⟨kind, hk, hkind⟩ := (Option.any_eq_true _ _).mp hkind
    obtain ⟨-, rfl⟩ := newestJob_row hnewest
    rw [Bool.and_eq_true, beq_iff_eq] at hkind
    have hs : r.status = .failed := by
      simp only [requeueable, Bool.and_eq_true, beq_iff_eq] at hrequeue
      exact hrequeue.1.1
    refine ⟨(), happrover, ?_⟩
    simp only [hr, hk, hnewest, hs, hkind.1, refuse_eq_ok, bind_eq_ok, onInvoices_requeue_eq_ok,
      resubmit_eq_ok, ne_eq, not_true_eq_false, not_false_eq_true, true_and, Bool.true_eq_false,
      not_or, hkind.2]
    have hnone : ¬ job.pollRef.isSome = true := by
      rw [Option.isNone_iff_eq_none.mp href]
      exact Bool.false_ne_true
    exact ⟨_, ⟨r, rfl, hrequeue, rfl⟩, ⟨hnone, trivial⟩, hfree, rfl⟩

end

/-! ### One rule -/

/-- One rule for both: they act on one job and leave one state, the River job's arguments included,
up to the actor; a refusal leaves the tables as they are; and what either sends again is the
invoice's newest job, unacknowledged, on an invoice that is not resolved outside and passes its note
checks. -/
structure OneRule (uuidIn : String → Option Uuid) (st : TextStore) (text : String)
    (invoiceID caller jobID : Uuid) : Prop where
  same : ∀ st₁ st₂, sendAgain uuidIn st text caller = .ok st₁ → redrive st jobID = .ok st₂ →
    ∃ job r spelled, st.newestJob invoiceID = some (jobID, job) ∧
      st.db.invoices.get? invoiceID = some r ∧
        st₁ = st.resubmitted jobID job r (.user caller) spelled ∧
          st₂ = st.resubmitted jobID job r .support spelled
  refused : (∀ e, sendAgain uuidIn st text caller = .error e →
      commit st (sendAgain uuidIn st text caller) = st) ∧
    ∀ e, redrive st jobID = .error e → commit st (redrive st jobID) = st
  guarded : ∀ st', sendAgain uuidIn st text caller = .ok st' ∨ redrive st jobID = .ok st' →
    ∃ id job r actor spelled, st' = st.resubmitted id job r actor spelled ∧
      st.newestJob invoiceID = some (id, job) ∧ job.pollRef = none ∧
        st.db.invoices.get? invoiceID = some r ∧ r.keptAsIs = none ∧
          hasBlockingViolation (noteViolations r
            (readOriginalFactsTx st.db.invoices r.originalInvoiceID invoiceID)) = false

def redriveKeepsNewest (st : TextStore) (jobID : Uuid) (job : Job) : Bool :=
  (st.newestJob job.invoiceID).map Prod.fst == some jobID ||
    !(st.db.invoices.get? job.invoiceID).any fun r => redrivable st job r

def spelledAlike (st : TextStore) (text : String) (caller : Uuid) (job : Job) : Bool :=
  text == job.invoiceID.text || !(st.db.invoices.get? job.invoiceID).any fun r =>
    sendable st caller job r text && redrivable st job r

section
variable {uuidIn : String → Option Uuid} {st st' : TextStore} {invoiceID jobID caller : Uuid}
  {job : Job} {r : Row} {text : String}

theorem requeueable_iff {st : Store} : requeueable st invoiceID r = true ↔ r.status = .failed ∧
    r.keptAsIs = none ∧ hasBlockingViolation (noteViolations r
      (readOriginalFactsTx st.db.invoices r.originalInvoiceID invoiceID)) = false := by
  simp only [requeueable, Bool.and_eq_true, beq_iff_eq, Option.isNone_iff_eq_none,
    Bool.not_eq_true', and_assoc]

theorem redrivable_iff : redrivable st job r = true ↔ (st.workspaceLocked = false ∧
    job.state = .deadLettered) ∧ job.pollRef = none ∧
      requeueable st.toStore job.invoiceID r = true ∧
        st.riverFree job job.invoiceID.text = true := by
  simp only [redrivable, Bool.and_eq_true, beq_iff_eq, Option.isNone_iff_eq_none,
    Bool.not_eq_true', and_assoc]

theorem sendable_guards (h : sendable st caller job r text = true) :
    job.pollRef = none ∧ requeueable st.toStore job.invoiceID r = true := by
  simp only [sendable, Bool.and_eq_true, Option.isNone_iff_eq_none] at h
  exact ⟨h.1.1.2, h.1.2⟩

theorem newest_of_redrive (hjob : st.jobs.get? jobID = some job)
    (hr : st.db.invoices.get? job.invoiceID = some r) (hcommits : redrivable st job r = true)
    (h : redriveKeepsNewest st jobID job = true) :
    st.newestJob job.invoiceID = some (jobID, job) := by
  rw [redriveKeepsNewest, hr, Option.any_some, hcommits, Bool.not_true, Bool.or_false, beq_iff_eq,
    Option.map_eq_some_iff] at h
  obtain ⟨⟨id, b⟩, hnewest, rfl⟩ := h
  obtain rfl := Option.some.inj (hjob.symm.trans (newestJob_row hnewest).1)
  exact hnewest

theorem text_of_both (hr : st.db.invoices.get? job.invoiceID = some r)
    (hsend : sendable st caller job r text = true) (hredrive : redrivable st job r = true)
    (h : spelledAlike st text caller job = true) : text = job.invoiceID.text := by
  rw [spelledAlike, hr, Option.any_some, hsend, hredrive, Bool.and_true, Bool.not_true,
    Bool.or_false, beq_iff_eq] at h
  exact h

theorem resubmitted_spelled {b : Job} {id : Uuid} {actor : Subject} :
    (st.resubmitted id b r actor text).spelled.get? st.nextRiverID = some text :=
  Table.get?_set_self _ _ _

theorem refused_leaves {x : Except JobErr TextStore} (e : JobErr) (h : x = .error e) :
    commit st x = st := by
  rw [h]
  rfl

theorem newest_of_oneRule (hjob : st.jobs.get? jobID = some job)
    (hrule : OneRule uuidIn st text job.invoiceID caller jobID) :
    redriveKeepsNewest st jobID job = true := by
  by_contra hnot
  simp only [redriveKeepsNewest, Bool.or_eq_true, not_or, Bool.not_eq_true', Bool.not_eq_false,
    beq_iff_eq] at hnot
  obtain ⟨hother, hany⟩ := hnot
  obtain ⟨r, hr, hcommits⟩ := (Option.any_eq_true _ _).mp hany
  have hok : redrive st jobID = .ok (st.resubmitted jobID job r .support job.invoiceID.text) :=
    redrive_eq_ok.mpr ⟨job, r, hjob, hr, hcommits, rfl⟩
  obtain ⟨id, b, r', actor, spelled, hst, hnewest, -⟩ := hrule.guarded _ (.inr hok)
  obtain ⟨hb, hinv⟩ := newestJob_row hnewest
  -- the row written is the newest job's, and Redrive wrote the one it was given
  have hid : id = jobID := by
    by_contra hne
    have hrow := congrArg (fun s => s.jobs.get? jobID) hst
    simp only [TextStore.resubmitted, Table.get?_set_self] at hrow
    rw [Table.get?_set_of_ne _ _ (Ne.symm hne), hjob] at hrow
    have hstate := congrArg Job.state (Option.some.inj hrow)
    rw [(redrivable_iff.mp hcommits).1.2] at hstate
    cases hstate
  rw [hnewest, hid] at hother
  exact hother rfl

theorem spelledAlike_of_oneRule (hjob : st.jobs.get? jobID = some job)
    (htext : uuidIn text = some job.invoiceID)
    (hrule : OneRule uuidIn st text job.invoiceID caller jobID) :
    spelledAlike st text caller job = true := by
  by_contra hnot
  simp only [spelledAlike, Bool.or_eq_true, not_or, Bool.not_eq_true', Bool.not_eq_false,
    beq_iff_eq] at hnot
  obtain ⟨hother, hany⟩ := hnot
  obtain ⟨r, hr, hboth⟩ := (Option.any_eq_true _ _).mp hany
  obtain ⟨hsend, hcommits⟩ := Bool.and_eq_true_iff.mp hboth
  have hnewest := newest_of_redrive hjob hr hcommits (newest_of_oneRule hjob hrule)
  obtain ⟨b, r', spelled, -, -, hsent, hdriven⟩ := hrule.same _ _
    ((sendAgain_eq_ok htext).mpr ⟨jobID, job, r, hnewest, hr, hsend, rfl⟩)
    (redrive_eq_ok.mpr ⟨job, r, hjob, hr, hcommits, rfl⟩)
  have hmine := congrArg (fun s => s.spelled.get? st.nextRiverID) hsent
  have htheirs := congrArg (fun s => s.spelled.get? st.nextRiverID) hdriven
  simp only [resubmitted_spelled, Option.some.injEq] at hmine htheirs
  exact hother (hmine.trans htheirs.symm)

/-- For a job of any invoice in any state of the tables, and any text the database reads as the
invoice's id: sending again and re-driving are one rule exactly if Redrive is given the newest job,
or refuses the one it is given, and SendAgain's text is the database's own, or one of the two
refuses. -/
theorem send_again_is_redrive (hjob : st.jobs.get? jobID = some job)
    (htext : uuidIn text = some job.invoiceID) :
    OneRule uuidIn st text job.invoiceID caller jobID ↔
      redriveKeepsNewest st jobID job = true ∧ spelledAlike st text caller job = true := by
  constructor
  · intro hrule
    exact ⟨newest_of_oneRule hjob hrule, spelledAlike_of_oneRule hjob htext hrule⟩
  · rintro ⟨hnewest, halike⟩
    refine ⟨fun st₁ st₂ hsend hredrive => ?_, ⟨refused_leaves, refused_leaves⟩, fun st' hok => ?_⟩
    · obtain ⟨b, r, hb, hr, hcommits, rfl⟩ := redrive_eq_ok.mp hredrive
      obtain rfl := Option.some.inj (hjob.symm.trans hb)
      have hmine := newest_of_redrive hjob hr hcommits hnewest
      obtain ⟨id, b, r', hnew, hr', hsendable, rfl⟩ := (sendAgain_eq_ok htext).mp hsend
      obtain ⟨rfl, rfl⟩ := Prod.mk.inj (Option.some.inj (hmine.symm.trans hnew))
      obtain rfl := Option.some.inj (hr.symm.trans hr')
      obtain rfl := text_of_both hr hsendable hcommits halike
      exact ⟨job, r, _, hmine, hr, rfl, rfl⟩
    · rcases hok with hsend | hredrive
      · obtain ⟨id, b, r, hnew, hr, hsendable, rfl⟩ := (sendAgain_eq_ok htext).mp hsend
        obtain ⟨href, hrequeue⟩ := sendable_guards hsendable
        rw [(newestJob_row hnew).2] at hr hrequeue
        obtain ⟨-, hkept, hnote⟩ := requeueable_iff.mp hrequeue
        exact ⟨id, b, r, _, _, rfl, hnew, href, hr, hkept, hnote⟩
      · obtain ⟨b, r, hb, hr, hcommits, rfl⟩ := redrive_eq_ok.mp hredrive
        obtain rfl := Option.some.inj (hjob.symm.trans hb)
        obtain ⟨-, href, hrequeue, -⟩ := redrivable_iff.mp hcommits
        obtain ⟨-, hkept, hnote⟩ := requeueable_iff.mp hrequeue
        exact ⟨jobID, job, r, _, _, rfl, newest_of_redrive hjob hr hcommits hnewest, href, hr,
          hkept, hnote⟩

end

def twoJobs : TextStore where
  db := {
    directory := {
      isFirm := false
      members := [{ userID := 1, role := .admin, active := true }]
      roles := [] }
    invoices := (∅ : Table Uuid Row).set 40 {
      entityID := 5
      status := .failed
      header := { invoiceNumber := "INV-1" }
      failureKind := some .neverAcknowledged
      history := [] } }
  jobs := ((∅ : Table Uuid Job).set 7
    { invoiceID := 40, idempotencyKey := "batch-1:40", state := .deadLettered, createdAt := 0 }).set 8
      { invoiceID := 40, idempotencyKey := "batch-2:40", riverJobID := some 2, createdAt := 9 }
  river := (∅ : Table ℕ RiverJob).set 2 { args := .submit ⟨40, "batch-2:40"⟩ }
  nextRiverID := 3

theorem redrive_takes_older_job :
    (∃ st', redrive twoJobs 7 = .ok st' ∧ (st'.jobs.get? 7).map Job.state = some .queued) ∧
      (twoJobs.newestJob 40).map Prod.fst = some 8 ∧
      (∀ st', sendAgain (fun _ => some 40) twoJobs (Uuid.text 40) 1 ≠ .ok st') ∧
      ¬ OneRule (fun _ => some 40) twoJobs (Uuid.text 40) 40 1 7 := by
  have htest : ((redrive twoJobs 7).toOption.any fun st' =>
      decide ((st'.jobs.get? 7).map Job.state = some .queued)) = true := by decide +kernel
  have hnewest : (twoJobs.newestJob 40).map Prod.fst = some 8 := by decide +kernel
  have hrefuses : (sendAgain (fun _ => some 40) twoJobs (Uuid.text 40) 1).toOption.isSome =
      false := by decide +kernel
  obtain ⟨st', hok, hstate⟩ := (Option.any_eq_true _ _).mp htest
  have hredrive := toOption_eq_some.mp hok
  have hqueued := decide_eq_true_eq.mp hstate
  refine ⟨⟨st', hredrive, hqueued⟩, hnewest, fun st₁ hsend => ?_, fun hrule => ?_⟩
  · rw [toOption_eq_some.mpr hsend] at hrefuses
    cases hrefuses
  · obtain ⟨id, job, r, actor, spelled, rfl, hnew, -⟩ := hrule.guarded st' (.inr hredrive)
    rw [hnew] at hnewest
    obtain rfl : id = 8 := Option.some.inj hnewest
    have hother : (7 : Uuid) ≠ 8 := by decide
    simp only [TextStore.resubmitted, Table.get?_set_of_ne _ _ hother] at hqueued
    exact absurd hqueued (by decide +kernel)

def lastJob : TextStore where
  toStore := { twoJobs.toStore with
    jobs := (∅ : Table Uuid Job).set 7
      { invoiceID := 40, idempotencyKey := "batch-1:40", state := .deadLettered, riverJobID := some 1
        createdAt := 0 }
    river := ∅ }

theorem send_again_is_redrive_sample : OneRule (fun _ => some 40) lastJob (Uuid.text 40) 40 1 7 ∧
    (sendAgain (fun _ => some 40) lastJob (Uuid.text 40) 1).toOption.isSome = true ∧
      (redrive lastJob 7).toOption.isSome = true := by
  have htest : (lastJob.jobs.get? 7).any (fun job => decide (job.invoiceID = 40) &&
      (redriveKeepsNewest lastJob 7 job && spelledAlike lastJob (Uuid.text 40) 1 job)) = true := by
    decide +kernel
  obtain ⟨job, hjob, hkeeps⟩ := (Option.any_eq_true _ _).mp htest
  rw [Bool.and_eq_true, decide_eq_true_eq, Bool.and_eq_true] at hkeeps
  obtain ⟨hinv, hkeeps⟩ := hkeeps
  refine ⟨?_, by decide +kernel, by decide +kernel⟩
  rw [← hinv] at hkeeps ⊢
  exact (send_again_is_redrive hjob rfl).mpr hkeeps

end InvoiceOs.Submission
