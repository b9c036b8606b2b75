import InvoiceOs.Submission.Delivery

/-! What a step can write, said once. The invariants of a submission are proved over these
effects and never unfold a transaction again. -/

namespace InvoiceOs.Submission

open Lib Invoice

inductive Verdict : JobState → Status → (Row → Row) → AuditOutcome → Prop
  | accepted (irn csid qrPayload : String) :
      Verdict .accepted .accepted (fun r => { r with
        irn := some irn
        csid := nullIfBlank csid
        qrPayload := nullIfBlank qrPayload }) (.accepted irn)
  | rejected (reasons : List String) :
      Verdict .rejected .rejected (fun r => { r with rejectionReasons := reasons }) .rejected
  | deadLettered (kind : FailureKind) :
      Verdict .deadLettered .failed (fun r => { r with failureKind := some kind }) (.failed kind)
  | transformFailed :
      Verdict .failed .failed (fun r => { r with failureKind := some .payloadNotBuilt })
        (.failed .payloadNotBuilt)

def Task.call? : Task → Option Call
  | .ready c _ => some c
  | .sent c _ => some c
  | .polling c _ _ => some c
  | _ => none

def verdictStatus (c : Call) : Result → Option Status
  | .accepted _ _ _ => some .accepted
  | .rejected _ => some .rejected
  | .pending _ _ => none
  | .retryable _ => if maxAttempts ≤ c.attempt then some .failed else none

def closesAt (t : Task) (a : Act) : Option Status :=
  match t, a with
  | .ready _ _, .transformFails _ => some .failed
  | .sent c _, .reply r => verdictStatus c r.result
  | .polling c _ _, .reply r => verdictStatus c r.result
  | _, _ => none

inductive Ensures (st : Store) (args : SubmitArgs) (newID : Uuid) : Uuid → Job → Prop
  | found {id : Uuid} {job : Job} (hjob : st.jobs.get? id = some job)
      (hkey : job.idempotencyKey = args.idempotencyKey) : Ensures st args newID id job
  | created {job : Job} (hnone : ∀ id j, st.jobs.get? id = some j →
        j.idempotencyKey ≠ args.idempotencyKey)
      (hnew : st.jobs.get? newID = none) (hinvoice : job.invoiceID = args.invoiceID)
      (hkey : job.idempotencyKey = args.idempotencyKey) (hstate : job.state = .queued)
      (hattempts : job.attempts = 0) (href : job.pollRef = none) : Ensures st args newID newID job

/-! ### The rows written -/

namespace Job

def withState (job : Job) (s : JobState) : Job := { job with state := s }

def attempted (job : Job) (s : JobState) (attempts : ℕ) (lastError : Option String) : Job :=
  { job with state := s, attempts := attempts, lastError := lastError }

def acknowledged (job : Job) (attempts : ℕ) (ref : String) (pollAfter : ℕ) : Job :=
  { job with
    state := .pending
    attempts := attempts
    pollRef := some ref
    nextPollAt := some pollAfter }

end Job

namespace Core

inductive Closes (k : Core) (c : Call) (s : JobState) (target : Status) (outcome : Row → Row)
    (out : AuditOutcome) : Core → Prop
  | intro {job : Job} {attempts : ℕ} {lastError : Option String} {invoiceNumber : String}
      {k' : Core} (hjob : k.jobs.get? c.jobID = some job)
      (hmarks : Marks ((k.addKey (markerKey c.riverID)).writeJob c.jobID
        (job.attempted s attempts lastError)) c.invoiceID target outcome k') :
      Closes k c s target outcome out (k'.addAudit (c.audit out invoiceNumber))

end Core

inductive Effect (st : Store) : Task → Act → Core → Task → Prop
  | stop (t : Task) (a : Act) : Effect st t a st.core .idle
  | fetched {n attempt : ℕ} {j : RiverJob} (hrow : st.river.get? n = some j)
      (hs : j.state = .waiting) :
      Effect st .idle (.fetch n attempt)
        (st.core.writeRiver (st.river.set n { j with state := .running }))
        (.fetched n attempt j.args)
  | settled {n : ℕ} {j : RiverJob} {s : RiverState} (hrow : st.river.get? n = some j)
      (hlive : j.state.live = true) (hs : s ≠ .running) :
      Effect st .idle (.river n s)
        (st.core.writeRiver (st.river.set n { j with state := s })) .idle
  | created {n attempt : ℕ} {args : SubmitArgs} {u : Tx1Input} {job : Job}
      (hnone : ∀ id j, st.jobs.get? id = some j → j.idempotencyKey ≠ args.idempotencyKey)
      (hens : Ensures st args u.newID u.newID job) :
      Effect st (.fetched n attempt (.submit args)) (.tx1 u) (st.core.writeJob u.newID job) .idle
  | cleared {n attempt : ℕ} {args : SubmitArgs} {u : Tx1Input} {id : Uuid} {job : Job}
      (hlocked : st.workspaceLocked = false) (hens : Ensures st args u.newID id job)
      (hopen : isTerminalJobState job.state = false)
      (hcleared : st.alreadyCleared args.invoiceID id = true) :
      Effect st (.fetched n attempt (.submit args)) (.tx1 u)
        (st.core.writeJob id (job.withState .accepted)) .idle
  | submitting {n attempt : ℕ} {args : SubmitArgs} {u : Tx1Input} {id : Uuid} {job : Job}
      {invoiceNumber : String} (hlocked : st.workspaceLocked = false)
      (hens : Ensures st args u.newID id job)
      (hopen : isTerminalJobState job.state = false)
      (hclear : st.alreadyCleared args.invoiceID id = false) (hallowed : u.allowed = true) :
      Effect st (.fetched n attempt (.submit args)) (.tx1 u)
        (st.core.writeJob id (job.withState .submitting))
        (.ready ⟨n, attempt, id, args.invoiceID, job.attempts⟩ invoiceNumber)
  | polled {n attempt : ℕ} {args : PollArgs} {u : Tx1Input} {job : Job} {pollRef : String}
      (hjob : st.jobs.get? args.submissionJobID = some job) (hs : job.state = .pending) :
      Effect st (.fetched n attempt (.poll args)) (.tx1 u) st.core
        (.polling ⟨n, attempt, args.submissionJobID, args.invoiceID, job.attempts⟩ args.sequence
          pollRef)
  | sent {c : Call} {invoiceNumber : String} :
      Effect st (.ready c invoiceNumber) .submit st.core (.sent c invoiceNumber)
  | closed {t : Task} {a : Act} {c : Call} {s : JobState} {target : Status} {outcome : Row → Row}
      {out : AuditOutcome} {k' : Core} (hcall : t.call? = some c)
      (hfresh : st.used (markerKey c.riverID) = false) (hv : Verdict s target outcome out)
      (ha : closesAt t a = some target) (hk : st.core.Closes c s target outcome out k') :
      Effect st t a k' .idle
  | sentPending {c : Call} {invoiceNumber : String} {r : Reply} {job : Job} {ref : String}
      {pollAfter : ℕ} {k' : Core} (hr : r.result = .pending ref pollAfter)
      (hfresh : st.used (markerKey c.riverID) = false) (hjob : st.jobs.get? c.jobID = some job)
      (hmarks : ((st.core.addKey (markerKey c.riverID)).writeJob c.jobID
        (job.acknowledged (c.attempts + 1) ref pollAfter)).Marks c.invoiceID .submitted id k') :
      Effect st (.sent c invoiceNumber) (.reply r)
        (k'.enqueue (pollKey c.jobID 1) (.poll ⟨c.invoiceID, c.jobID, 1⟩)) .idle
  | pollPending {c : Call} {sequence : ℕ} {pollRef : String} {r : Reply} {job : Job} {ref : String}
      {pollAfter : ℕ} (hr : r.result = .pending ref pollAfter)
      (hfresh : st.used (markerKey c.riverID) = false) (hjob : st.jobs.get? c.jobID = some job)
      (hticket : ref ≠ "") :
      Effect st (.polling c sequence pollRef) (.reply r)
        (((st.core.addKey (markerKey c.riverID)).writeJob c.jobID
          (job.acknowledged (c.attempts + 1) ref pollAfter)).enqueue (pollKey c.jobID (sequence + 1))
            (.poll ⟨c.invoiceID, c.jobID, sequence + 1⟩)) .idle
  | retried {c : Call} {invoiceNumber : String} {r : Reply} {job : Job} {err : String}
      (hr : r.result = .retryable err) (hmid : c.attempt < maxAttempts)
      (hjob : st.jobs.get? c.jobID = some job) :
      Effect st (.sent c invoiceNumber) (.reply r)
        (st.core.writeJob c.jobID (job.attempted .queued (c.attempts + 1) (some err))) .idle
  | pollRetried {c : Call} {sequence : ℕ} {pollRef : String} {r : Reply} {job : Job} {err : String}
      (hr : r.result = .retryable err) (hmid : c.attempt < maxAttempts)
      (hjob : st.jobs.get? c.jobID = some job) :
      Effect st (.polling c sequence pollRef) (.reply r)
        (st.core.writeJob c.jobID (job.attempted job.state (c.attempts + 1) (some err))) .idle
  | found {id : Uuid} {th : Thresholds} {job : Job} (hjob : st.jobs.get? id = some job)
      (hs : job.state = .pending) (hpoll : livePoll st id = false) :
      Effect st .idle (.scan id th) st.core (.lost id job.invoiceID)
  | counted {id invoiceID : Uuid} {job : Job} (hjob : st.jobs.get? id = some job) :
      Effect st (.lost id invoiceID) .readAttempts st.core (.rearming id invoiceID job.attempts)
  | rearmed {id invoiceID : Uuid} {attempts : ℕ} :
      Effect st (.rearming id invoiceID attempts) .rearm
        (st.core.enqueue (reconcilePollKey id attempts) (.poll ⟨invoiceID, id, attempts⟩)) .idle
  | cancelled {id : Uuid} {job : Job} {r : Row} {river : Table ℕ RiverJob}
      (hjob : st.jobs.get? id = some job) (hs : job.state = .queued)
      (hrow : st.db.invoices.get? job.invoiceID = some r) (hqueued : r.status = .queued)
      (hriver : river = st.river ∨ ∃ n, river = (riverCancel st n).river) :
      Effect st .idle (.cancel id)
        (((st.core.writeJob id (job.withState .cancelled)).writeInvoice job.invoiceID
          (r.applyTransition .failed .support {})).writeRiver river) .idle

/-! ### The transactions -/

theorem jobByKey_eq_some {st : Store} {key : String} {e : Uuid × Job}
    (h : st.jobByKey key = some e) :
    st.jobs.get? e.1 = some e.2 ∧ e.2.idempotencyKey = key := by
  unfold Store.jobByKey at h
  have hkey := List.find?_some h
  exact ⟨Table.mem_rows.mp (List.mem_of_find?_eq_some h), beq_iff_eq.mp hkey⟩

theorem jobByKey_eq_none {st : Store} {key : String} (h : st.jobByKey key = none) {id : Uuid}
    {job : Job} (hjob : st.jobs.get? id = some job) : job.idempotencyKey ≠ key := by
  unfold Store.jobByKey at h
  rw [List.find?_eq_none] at h
  have hne := h (id, job) (Table.mem_rows.mpr hjob)
  exact fun hkey => hne (beq_iff_eq.mpr hkey)

theorem alreadyCleared_ensured {st : Store} {invoiceID id : Uuid} {job : Job} :
    Store.alreadyCleared { st with jobs := st.jobs.set id job } invoiceID id =
      st.alreadyCleared invoiceID id := by
  have hsib : Store.invoiceHasSiblingAcceptedJob { st with jobs := st.jobs.set id job } invoiceID id =
      st.invoiceHasSiblingAcceptedJob invoiceID id := by
    rw [Bool.eq_iff_iff]
    simp only [Store.invoiceHasSiblingAcceptedJob, List.any_eq_true, Prod.exists, Table.mem_rows,
      Bool.and_eq_true, bne_iff_ne]
    refine exists_congr fun i => exists_congr fun j => and_congr_left fun h => ?_
    rw [Table.get?_set_of_ne _ _ h.2]
  unfold Store.alreadyCleared
  rw [hsib]
  rfl

structure Ensured (st : Store) (args : SubmitArgs) (newID : Uuid) (st' : Store) (id : Uuid)
    (job : Job) : Prop where
  ensures : Ensures st args newID id job
  row : st'.jobs.get? id = some job
  write : ∀ job', { st'.core with jobs := st'.jobs.set id job' } = st.core.writeJob id job'
  cleared : st'.alreadyCleared args.invoiceID id = st.alreadyCleared args.invoiceID id
  core : st'.core = st.core ∨ id = newID ∧
    (∀ i j, st.jobs.get? i = some j → j.idempotencyKey ≠ args.idempotencyKey) ∧
      st'.core = st.core.writeJob newID job

theorem ensureSubmissionJob_spec {st st' : Store} {riverID : ℕ} {args : SubmitArgs} {u : Tx1Input}
    {id : Uuid} {job : Job} (h : ensureSubmissionJob st riverID args u = .ok (st', id, job)) :
    Ensured st args u.newID st' id job := by
  unfold ensureSubmissionJob at h
  split at h
  · rename_i i j hfind
    cases h
    obtain ⟨hjob, hkey⟩ := jobByKey_eq_some hfind
    exact ⟨.found hjob hkey, hjob, fun _ => rfl, rfl, .inl rfl⟩
  · rename_i hfind
    have hnone : ∀ i j, st.jobs.get? i = some j → j.idempotencyKey ≠ args.idempotencyKey :=
      fun i j => jobByKey_eq_none hfind
    simp only [refuse_eq_ok, pure_eq_ok, Bool.not_eq_true, Option.isSome_eq_false_iff,
      Option.isNone_iff_eq_none, Prod.mk.injEq] at h
    obtain ⟨-, -, hnew, rfl, rfl, rfl⟩ := h
    refine ⟨.created hnone hnew rfl rfl rfl rfl rfl, Table.get?_set_self _ _ _, fun job' => ?_,
      alreadyCleared_ensured, .inr ⟨rfl, hnone, rfl⟩⟩
    simp only [Store.core, Core.writeJob, Table.set_set]

theorem submitTx1_effect {st st' : Store} {n attempt : ℕ} {args : SubmitArgs} {u : Tx1Input}
    {o : Tx1Outcome} (h : submitTx1 st n attempt args u = .ok (st', o)) :
    Effect st (.fetched n attempt (.submit args)) (.tx1 u) st'.core
      (match o with
        | .proceed c invoiceNumber => .ready c invoiceNumber
        | _ => .idle) := by
  unfold submitTx1 at h
  split at h
  · cases h
    exact .stop _ _
  · rename_i hlocked
    rw [Bool.not_eq_true] at hlocked
    obtain ⟨⟨st₁, id, job⟩, hens, h⟩ := bind_eq_ok.mp h
    have hspec := ensureSubmissionJob_spec hens
    have hheld : Effect st (.fetched n attempt (.submit args)) (.tx1 u) st₁.core .idle := by
      rcases hspec.core with hcore | ⟨rfl, hnone, hcore⟩
      · rw [hcore]
        exact .stop _ _
      · rw [hcore]
        exact .created hnone hspec.ensures
    unfold submitGates at h
    dsimp only at h
    split at h
    · cases h
      exact hheld
    · rename_i hopen
      rw [Bool.not_eq_true] at hopen
      split at h
      · rename_i hcleared
        rw [hspec.cleared] at hcleared
        simp only [bind_eq_ok, Store.markJobAlreadyCleared, Store.execJobUpdate_eq_ok] at h
        obtain ⟨st₂, ⟨job₂, hjob₂, rfl⟩, h⟩ := h
        cases h
        obtain rfl : job = job₂ := Option.some.inj (hspec.row.symm.trans hjob₂)
        have hcore := hspec.write (job.withState .accepted)
        have heffect : Effect st (.fetched n attempt (.submit args)) (.tx1 u)
            (st.core.writeJob id (job.withState .accepted)) .idle :=
          .cleared hlocked hspec.ensures hopen hcleared
        rw [← hcore] at heffect
        exact heffect
      · rename_i hclear
        rw [Bool.not_eq_true, hspec.cleared] at hclear
        split at h
        · cases h
          exact hheld
        · rename_i hallowed
          simp only [bind_eq_ok, Store.markJobSubmitting, Store.execJobUpdate_eq_ok] at h
          obtain ⟨invoiceNumber, -, st₂, ⟨job₂, hjob₂, rfl⟩, h⟩ := h
          cases h
          obtain rfl : job = job₂ := Option.some.inj (hspec.row.symm.trans hjob₂)
          have hcore := hspec.write (job.withState .submitting)
          have hallow : u.allowed = true := by
            simpa only [Bool.not_eq_true, Bool.not_eq_false'] using hallowed
          have heffect : Effect st (.fetched n attempt (.submit args)) (.tx1 u)
              (st.core.writeJob id (job.withState .submitting))
              (.ready ⟨n, attempt, id, args.invoiceID, job.attempts⟩ invoiceNumber) :=
            .submitting hlocked hspec.ensures hopen hclear hallow
          rw [← hcore] at heffect
          exact heffect

theorem markTerminalTx_marks {st : Store} {id : Uuid} {target : Status} {outcome : Row → Row}
    {write : Row → Except Err Row} {db : Db}
    (hwrite : ∀ r r', write r = .ok r' → r' = outcome r)
    (hout : ∀ r, (outcome r).status = r.status)
    (h : markTerminalTx st.db id target write = .ok db) :
    st.core.Marks id target outcome { st with db := db }.core := by
  unfold markTerminalTx at h
  obtain ⟨r, hr, h⟩ := bind_eq_ok.mp h
  rw [Db.getInvoice_eq_ok] at hr
  split at h
  · rename_i hs
    rw [pure_eq_ok] at h
    subst h
    exact .already hr hs
  · obtain ⟨written, hw, h⟩ := bind_eq_ok.mp h
    obtain ⟨r', hr', h⟩ := bind_eq_ok.mp h
    rw [pure_eq_ok] at h
    subst h
    obtain rfl := hwrite _ _ hw
    obtain ⟨hlegal, rfl⟩ := Row.transition_eq_ok.mp hr'
    rw [hout] at hlegal
    exact .moved hr hlegal (hout r)

/-! A closure on the store that already holds its marker. -/

section
variable {st st' : Store} {c : Call} {ex : Exchange} {invoiceNumber : String}

theorem closure_closes {s : JobState} {target : Status} {outcome : Row → Row}
    {write : Row → Except Err Row} {out : AuditOutcome} {f : Job → Job}
    (hf : ∀ job, ∃ attempts lastError, f job = job.attempted s attempts lastError)
    (hwrite : ∀ r r', write r = .ok r' → r' = outcome r)
    (hout : ∀ r, (outcome r).status = r.status)
    (h : (do
      let st ← ((st.useKey (markerKey c.riverID)).recordExchange ex).execJobUpdate c.jobID f
      let st ← st.onInvoices fun db => markTerminalTx db c.invoiceID target write
      return st.recordAudit (c.audit out invoiceNumber)) = .ok st') :
    st.core.Closes c s target outcome out st'.core := by
  simp only [bind_eq_ok, Store.execJobUpdate_eq_ok, Store.onInvoices_eq_ok, pure_eq_ok] at h
  obtain ⟨st₁, ⟨job, hjob, hst₁⟩, st₂, ⟨db, hdb, hst₂⟩, rfl⟩ := h
  obtain ⟨attempts, lastError, hjob'⟩ := hf job
  have hmarks : st₁.core.Marks c.invoiceID target outcome st₂.core := by
    rw [hst₂]
    exact markTerminalTx_marks hwrite hout hdb
  rw [hst₁, hjob'] at hmarks
  have hclosed : st.core.Closes c s target outcome out
      (st₂.core.addAudit (c.audit out invoiceNumber)) := .intro hjob hmarks
  exact hclosed

theorem writeAccepted_closes {irn csid qrPayload : String}
    (h : writeAccepted (st.useKey (markerKey c.riverID)) c ex invoiceNumber irn csid qrPayload =
      .ok st') :
    ∃ outcome, Verdict .accepted .accepted outcome (.accepted irn) ∧
      st.core.Closes c .accepted .accepted outcome (.accepted irn) st'.core := by
  refine ⟨_, .accepted irn csid qrPayload, ?_⟩
  have hwrite : ∀ r r', Invoice.writeAccepted irn csid qrPayload r = .ok r' → r' = { r with
      irn := some irn
      csid := nullIfBlank csid
      qrPayload := nullIfBlank qrPayload } := by
    intro r r' hw
    simp only [Invoice.writeAccepted, check_eq_ok, pure_eq_ok] at hw
    exact hw.2.symm
  exact closure_closes (fun job => ⟨c.attempts + 1, job.lastError, rfl⟩) hwrite (fun _ => rfl) h

theorem writeRejected_closes {reasons : List String}
    (h : writeRejected (st.useKey (markerKey c.riverID)) c ex invoiceNumber reasons = .ok st') :
    ∃ outcome, Verdict .rejected .rejected outcome .rejected ∧
      st.core.Closes c .rejected .rejected outcome .rejected st'.core :=
  ⟨_, .rejected reasons, closure_closes (fun job => ⟨c.attempts + 1, job.lastError, rfl⟩)
    (fun _ _ hw => (pure_eq_ok.mp hw).symm) (fun _ => rfl) h⟩

theorem writeDeadLettered_closes {err : String} {kind : FailureKind}
    (h : writeDeadLettered (st.useKey (markerKey c.riverID)) c ex invoiceNumber err kind =
      .ok st') :
    ∃ outcome, Verdict .deadLettered .failed outcome (.failed kind) ∧
      st.core.Closes c .deadLettered .failed outcome (.failed kind) st'.core :=
  ⟨_, .deadLettered kind, closure_closes (fun _ => ⟨c.attempts + 1, some err, rfl⟩)
    (fun _ _ hw => (pure_eq_ok.mp hw).symm) (fun _ => rfl) h⟩

theorem writeTransformFailed_closes {err : String}
    (h : writeTransformFailed (st.useKey (markerKey c.riverID)) c invoiceNumber err = .ok st') :
    ∃ outcome, Verdict .failed .failed outcome (.failed .payloadNotBuilt) ∧
      st.core.Closes c .failed .failed outcome (.failed .payloadNotBuilt) st'.core :=
  ⟨_, .transformFailed, closure_closes (fun job => ⟨job.attempts, some err, rfl⟩)
    (fun _ _ hw => (pure_eq_ok.mp hw).symm) (fun _ => rfl) h⟩

end

theorem oncePerJob_eq_ok {st st' : Store} {n : ℕ} {fn : Store → Except JobErr Store}
    (h : st.oncePerJob n fn = .ok st') :
    st' = st ∨ st.used (markerKey n) = false ∧ fn (st.useKey (markerKey n)) = .ok st' := by
  unfold Store.oncePerJob at h
  split at h
  · cases h
    exact .inl rfl
  · rename_i hused
    exact .inr ⟨Bool.not_eq_true _ ▸ hused, h⟩

theorem markJobPending_eq_ok {st st' : Store} {id : Uuid} {attempts pollAfter : ℕ} {ref : String}
    (h : st.markJobPending id attempts ref pollAfter = .ok st') :
    ref ≠ "" ∧ ∃ job, st.jobs.get? id = some job ∧
      st' = { st with jobs := st.jobs.set id (job.acknowledged attempts ref pollAfter) } := by
  simp only [Store.markJobPending, check_eq_ok, Store.execJobUpdate_eq_ok] at h
  exact h

theorem enqueueTx_core (st : Store) (key : String) (args : RiverArgs) :
    (st.enqueueTx key args).core = st.core.enqueue key args := by
  unfold Store.enqueueTx Core.enqueue
  by_cases h : st.used key = true
  · have hkey : key ∈ st.core.keys := Store.used_iff.mp h
    rw [if_pos h, if_pos hkey]
  · have hkey : key ∉ st.core.keys := fun hm => h (Store.used_iff.mpr hm)
    rw [if_neg h, if_neg hkey]
    rfl

theorem submitPending_effect {st st' : Store} {c : Call} {invoiceNumber : String} {r : Reply}
    {ex : Exchange} {ref : String} {pollAfter : ℕ} (hr : r.result = .pending ref pollAfter)
    (hfresh : st.used (markerKey c.riverID) = false)
    (h : submitPending (st.useKey (markerKey c.riverID)) c ex ref pollAfter = .ok st') :
    Effect st (.sent c invoiceNumber) (.reply r) st'.core .idle := by
  simp only [submitPending, bind_eq_ok, Store.onInvoices_eq_ok, pure_eq_ok] at h
  obtain ⟨_, hpend, _, ⟨db, hdb, rfl⟩, rfl⟩ := h
  obtain ⟨-, job, hjob, rfl⟩ := markJobPending_eq_ok hpend
  have hmarks := markTerminalTx_marks (fun _ _ hw => (pure_eq_ok.mp hw).symm) (fun _ => rfl) hdb
  rw [enqueueTx_core]
  exact .sentPending hr hfresh hjob hmarks

theorem pollPending_effect {st st' : Store} {c : Call} {sequence : ℕ} {pollRef : String}
    {r : Reply} {ex : Exchange} {ref : String} {pollAfter : ℕ}
    (hr : r.result = .pending ref pollAfter) (hfresh : st.used (markerKey c.riverID) = false)
    (h : pollPending (st.useKey (markerKey c.riverID)) c ex sequence ref pollAfter = .ok st') :
    Effect st (.polling c sequence pollRef) (.reply r) st'.core .idle := by
  simp only [pollPending, bind_eq_ok, pure_eq_ok] at h
  obtain ⟨_, hpend, rfl⟩ := h
  obtain ⟨hticket, job, hjob, rfl⟩ := markJobPending_eq_ok hpend
  rw [enqueueTx_core]
  exact .pollPending hr hfresh hjob hticket

theorem closed_effect {st st' : Store} {t : Task} {a : Act} {c : Call} {s : JobState}
    {target : Status} {out : AuditOutcome} (hcall : t.call? = some c)
    (hfresh : st.used (markerKey c.riverID) = false) (ha : closesAt t a = some target)
    (h : ∃ outcome, Verdict s target outcome out ∧ st.core.Closes c s target outcome out st'.core) :
    Effect st t a st'.core .idle := by
  obtain ⟨outcome, hv, hk⟩ := h
  exact .closed hcall hfresh hv ha hk

theorem submitTx2_effect {st st' : Store} {c : Call} {invoiceNumber : String} {r : Reply}
    (h : submitTx2 st c invoiceNumber r = .ok st') :
    Effect st (.sent c invoiceNumber) (.reply r) st'.core .idle := by
  unfold submitTx2 at h
  dsimp only at h
  split at h
  · rename_i irn csid qrPayload hr
    rcases oncePerJob_eq_ok h with rfl | ⟨hfresh, hw⟩
    · exact .stop _ _
    · exact closed_effect rfl hfresh (by simp only [closesAt, hr, verdictStatus])
        (writeAccepted_closes hw)
  · rename_i reasons hr
    rcases oncePerJob_eq_ok h with rfl | ⟨hfresh, hw⟩
    · exact .stop _ _
    · exact closed_effect rfl hfresh (by simp only [closesAt, hr, verdictStatus])
        (writeRejected_closes hw)
  · rename_i ref pollAfter hr
    rcases oncePerJob_eq_ok h with rfl | ⟨hfresh, hw⟩
    · exact .stop _ _
    · exact submitPending_effect hr hfresh hw
  · rename_i err hr
    split at h
    · rename_i hfinal
      rcases oncePerJob_eq_ok h with rfl | ⟨hfresh, hw⟩
      · exact .stop _ _
      · exact closed_effect rfl hfresh (by simp only [closesAt, hr, verdictStatus, if_pos hfinal])
          (writeDeadLettered_closes hw)
    · rename_i hmid
      obtain ⟨job, hjob, rfl⟩ := Store.execJobUpdate_eq_ok.mp h
      exact .retried hr (Nat.lt_of_not_le hmid) hjob

theorem pollTx2_effect {st st' : Store} {c : Call} {sequence : ℕ} {pollRef : String} {r : Reply}
    (h : pollTx2 st c sequence r = .ok st') :
    Effect st (.polling c sequence pollRef) (.reply r) st'.core .idle := by
  unfold pollTx2 at h
  dsimp only at h
  split at h
  · rename_i irn csid qrPayload hr
    rcases oncePerJob_eq_ok h with rfl | ⟨hfresh, hw⟩
    · exact .stop _ _
    · obtain ⟨invoiceNumber, -, hw⟩ := bind_eq_ok.mp hw
      exact closed_effect rfl hfresh (by simp only [closesAt, hr, verdictStatus])
        (writeAccepted_closes hw)
  · rename_i reasons hr
    rcases oncePerJob_eq_ok h with rfl | ⟨hfresh, hw⟩
    · exact .stop _ _
    · obtain ⟨invoiceNumber, -, hw⟩ := bind_eq_ok.mp hw
      exact closed_effect rfl hfresh (by simp only [closesAt, hr, verdictStatus])
        (writeRejected_closes hw)
  · rename_i ref pollAfter hr
    rcases oncePerJob_eq_ok h with rfl | ⟨hfresh, hw⟩
    · exact .stop _ _
    · exact pollPending_effect hr hfresh hw
  · rename_i err hr
    split at h
    · rename_i hfinal
      rcases oncePerJob_eq_ok h with rfl | ⟨hfresh, hw⟩
      · exact .stop _ _
      · obtain ⟨invoiceNumber, -, hw⟩ := bind_eq_ok.mp hw
        exact closed_effect rfl hfresh (by simp only [closesAt, hr, verdictStatus, if_pos hfinal])
          (writeDeadLettered_closes hw)
    · rename_i hmid
      obtain ⟨job, hjob, rfl⟩ := Store.execJobUpdate_eq_ok.mp h
      exact .pollRetried hr (Nat.lt_of_not_le hmid) hjob

theorem cancel_core {st st' : Store} {id : Uuid} (h : cancel st id = .ok st') :
    ∃ job r river, st.jobs.get? id = some job ∧ job.state = .queued ∧
      st.db.invoices.get? job.invoiceID = some r ∧ r.status = .queued ∧
      (river = st.river ∨ ∃ n, river = (riverCancel st n).river) ∧
      st'.core = ((st.core.writeJob id (job.withState .cancelled)).writeInvoice
        job.invoiceID (r.applyTransition .failed .support {})).writeRiver river := by
  unfold cancel at h
  split at h
  · cases h
  · rename_i job hjob
    simp only [refuse_eq_ok, bind_eq_ok, Store.execJobUpdate_eq_ok, Store.onInvoices_eq_ok,
      pure_eq_ok, ne_eq, not_not] at h
    obtain ⟨hs, st₁, ⟨job₁, hjob₁, hst₁⟩, st₂, ⟨db, hdb, hst₂⟩, hst'⟩ := h
    obtain rfl : job = job₁ := Option.some.inj (hjob.symm.trans hjob₁)
    simp only [cancelQueuedTx, bind_eq_ok, refuse_eq_ok, pure_eq_ok, ne_eq, not_not,
      Db.getInvoice_eq_ok, Row.transition_eq_ok] at hdb
    obtain ⟨r, hrow, hqueued, r', ⟨-, rfl⟩, rfl⟩ := hdb
    subst hst₁
    have hsplit : ∀ (o : Option ℕ) (s : Store), ∃ river,
        (river = s.river ∨ ∃ n, river = (riverCancel s n).river) ∧
          (cancelRiverJob s o).core = s.core.writeRiver river := by
      intro o s
      cases o with
      | none => exact ⟨s.river, .inl rfl, rfl⟩
      | some n => exact ⟨(riverCancel s n).river, .inr ⟨n, rfl⟩, rfl⟩
    obtain ⟨river, hriver, hcore⟩ := hsplit job.riverJobID st₂
    rw [hst₂] at hriver
    refine ⟨job, r, river, hjob, hs, hrow, hqueued, hriver, ?_⟩
    rw [← hst', hcore, hst₂]
    rfl

theorem cancel_effect {st st' : Store} {id : Uuid} (h : cancel st id = .ok st') :
    Effect st .idle (.cancel id) st'.core .idle := by
  obtain ⟨job, r, river, hjob, hs, hrow, hqueued, hriver, hcore⟩ := cancel_core h
  rw [hcore]
  exact .cancelled hjob hs hrow hqueued hriver

theorem fetchJob_effect {st st' : Store} {n attempt : ℕ} {t' : Task}
    (h : fetchJob st n attempt = some (st', t')) : Effect st .idle (.fetch n attempt) st'.core t' := by
  unfold fetchJob at h
  obtain ⟨j, hrow, h⟩ := Option.bind_eq_some_iff.mp h
  split at h
  · rename_i hs
    cases h
    exact .fetched hrow hs
  · cases h

theorem settleJob_effect {st st' : Store} {n : ℕ} {s : RiverState} {t' : Task}
    (h : settleJob st n s = some (st', t')) : Effect st .idle (.river n s) st'.core t' := by
  unfold settleJob at h
  obtain ⟨j, hrow, h⟩ := Option.bind_eq_some_iff.mp h
  split at h
  · rename_i hs
    cases h
    exact .settled hrow hs.1 hs.2
  · cases h

theorem lostPoll_eq_some {st : Store} {id : Uuid} {th : Thresholds} {job : Job}
    (h : lostPoll st id th = some job) :
    st.jobs.get? id = some job ∧ job.state = .pending ∧ livePoll st id = false := by
  unfold lostPoll at h
  obtain ⟨j, hjob, h⟩ := Option.bind_eq_some_iff.mp h
  obtain ⟨r, -, h⟩ := Option.bind_eq_some_iff.mp h
  split at h
  · rename_i hs
    cases h
    exact ⟨hjob, hs.2.1, hs.2.2.2.2.2⟩
  · cases h

theorem commit_effect {st : Store} {t : Task} {a : Act} {x : Except JobErr Store}
    (h : ∀ st', x = .ok st' → Effect st t a st'.core .idle) :
    Effect st t a (commit st x).core .idle := by
  cases x with
  | error e => exact .stop _ _
  | ok st' => exact h st' rfl

theorem pair_effect {st st' : Store} {t t' : Task} {a : Act} {x : Store × Task}
    (h : some x = some (st', t')) (heffect : Effect st t a x.1.core x.2) :
    Effect st t a st'.core t' := by
  obtain rfl := Option.some.inj h
  exact heffect

theorem beginSubmit_effect {st : Store} {n attempt : ℕ} {args : SubmitArgs} {u : Tx1Input} :
    Effect st (.fetched n attempt (.submit args)) (.tx1 u)
      (beginSubmit st n attempt args u).1.core (beginSubmit st n attempt args u).2 := by
  unfold beginSubmit
  split
  · rename_i st' c invoiceNumber h
    exact submitTx1_effect h
  · rename_i st' o hne h
    have heffect := submitTx1_effect h
    cases o with
    | proceed c invoiceNumber => exact absurd rfl (hne c invoiceNumber)
    | locked => exact heffect
    | terminal => exact heffect
    | alreadyCleared => exact heffect
    | rateLimited => exact heffect
  · exact .stop _ _

theorem beginPoll_effect {st : Store} {n attempt : ℕ} {args : PollArgs} {u : Tx1Input} :
    Effect st (.fetched n attempt (.poll args)) (.tx1 u)
      (beginPoll st n attempt args).1.core (beginPoll st n attempt args).2 := by
  unfold beginPoll
  split
  · rename_i c pollRef h
    unfold pollTx1 at h
    split at h
    · cases h
    · rename_i job hjob
      split at h
      · rename_i hs
        cases h
        exact .polled hjob hs
      · cases h
  · exact .stop _ _
  · exact .stop _ _

theorem next_effect {st st' : Store} {t t' : Task} {a : Act} (h : next st t a = some (st', t')) :
    Effect st t a st'.core t' := by
  cases a with
  | fetch n attempt =>
    cases t with
    | idle => exact fetchJob_effect h
    | _ => cases h
  | tx1 u =>
    cases t with
    | fetched n attempt args =>
      cases args with
      | submit args =>
        exact pair_effect h beginSubmit_effect
      | poll args =>
        exact pair_effect h beginPoll_effect
    | _ => cases h
  | transformFails err =>
    cases t with
    | ready c invoiceNumber =>
      cases h
      refine commit_effect fun st' hok => ?_
      rcases oncePerJob_eq_ok hok with rfl | ⟨hfresh, hw⟩
      · exact .stop _ _
      · exact closed_effect rfl hfresh rfl (writeTransformFailed_closes hw)
    | _ => cases h
  | submit =>
    cases t with
    | ready c invoiceNumber =>
      cases h
      exact .sent
    | _ => cases h
  | reply r =>
    cases t with
    | sent c invoiceNumber =>
      cases h
      exact commit_effect fun st' hok => submitTx2_effect hok
    | polling c sequence pollRef =>
      cases h
      exact commit_effect fun st' hok => pollTx2_effect hok
    | _ => cases h
  | crash =>
    cases h
    exact .stop _ _
  | river n s =>
    cases t with
    | idle => exact settleJob_effect h
    | _ => cases h
  | scan id th =>
    cases t with
    | idle =>
      obtain ⟨job, hlost, heq⟩ := Option.map_eq_some_iff.mp h
      cases heq
      obtain ⟨hjob, hs, hpoll⟩ := lostPoll_eq_some hlost
      exact .found hjob hs hpoll
    | _ => cases h
  | readAttempts =>
    cases t with
    | lost id invoiceID =>
      refine pair_effect h ?_
      unfold countAttempts
      split
      · rename_i job hjob
        exact .counted hjob
      · exact .stop _ _
    | _ => cases h
  | rearm =>
    cases t with
    | rearming id invoiceID attempts =>
      cases h
      rw [reArmPoll, enqueueTx_core]
      exact .rearmed
    | _ => cases h
  | cancel id =>
    cases t with
    | idle =>
      cases h
      exact commit_effect fun st' hok => cancel_effect hok
    | _ => cases h
  | lock locked =>
    cases t with
    | idle =>
      cases h
      exact .stop _ _
    | _ => cases h

end InvoiceOs.Submission
