import InvoiceOs.Submission.Moves

/-! The poll hops of a pending job. A key used before drops its enqueue, so a chain lives on as
long as the next key is new. The key's number comes from the hop, the sweep's from the count of
attempts; both stay at or above every number used as long as no hop that was overtaken writes
its count back. -/

namespace InvoiceOs.Submission

open Lib Invoice

def Store.youngerHop (st : Store) (jobID : Uuid) (riverID : ℕ) : Bool :=
  st.river.rows.any fun e =>
    match e.2.args with
    | .poll args => args.submissionJobID == jobID && decide (riverID < e.1)
    | .submit _ => false

/-- An overtaken hop commits no ticket and takes no count back while its job is pending, and a
sweep re-arms a pending job at its count. -/
def keepsChain (st : Store) (t : Task) (a : Act) : Bool :=
  match t, a with
  | .polling c _ _, .reply ⟨.pending ref _, _⟩ =>
    st.used (markerKey c.riverID) || ref == "" || !st.youngerHop c.jobID c.riverID
  | .polling c _ _, .reply ⟨.retryable _, _⟩ =>
    decide (maxAttempts ≤ c.attempt) || (st.jobs.get? c.jobID).all fun job =>
      job.state != .pending || decide (job.attempts ≤ c.attempts + 1) ||
        (!st.used (markerKey c.riverID) && !st.youngerHop c.jobID c.riverID)
  | .rearming id _ attempts, .rearm =>
    st.used (reconcilePollKey id attempts) || (st.jobs.get? id).all fun job =>
      job.state != .pending || job.attempts == attempts
  | _, _ => true

def ChainKept : World Store Task → ℕ × Act → Prop :=
  protocol.Meets (fun st t a => keepsChain st t a = true) fun _ _ _ _ => True

instance (w : World Store Task) (na : ℕ × Act) : Decidable (ChainKept w na) := by
  unfold ChainKept
  infer_instance

namespace Core

structure Within (k : Core) (id : Uuid) (b : ℕ) : Prop where
  keys : ∀ {s}, pollKey id s ∈ k.keys → s ≤ b
  hops : ∀ {n args}, k.Holds n (.poll args) → args.submissionJobID = id → args.sequence ≤ b

def Youngest (k : Core) (id : Uuid) (n : ℕ) : Prop :=
  ∀ {m args}, k.Holds m (.poll args) → args.submissionJobID = id → m ≤ n

def Sent (g : SubmitArgs) (k : Core) : Prop :=
  ∃ n, k.Holds n (.submit g) ∧ markerKey n ∈ k.keys

structure SameChain (k k' : Core) : Prop where
  keys : ∀ {id s}, pollKey id s ∈ k'.keys ↔ pollKey id s ∈ k.keys
  hops : ∀ {n args}, k'.Holds n (.poll args) ↔ k.Holds n (.poll args)

structure Chained (g : SubmitArgs) (k : Core) : Prop where
  ticket : ∀ {id job}, k.jobs.get? id = some job → job.state = .pending → k.Sent g
  keyed : ∀ {id s}, k.IsJob g id → pollKey id s ∈ k.keys → k.Sent g
  hopped : ∀ {n args}, k.Holds n (.poll args) → k.Sent g
  count : ∀ {id job}, k.jobs.get? id = some job → job.state = .pending → k.Within id job.attempts
  head : ∀ {id job n args}, k.jobs.get? id = some job → job.state = .pending →
    k.Holds n (.poll args) → args.submissionJobID = id → k.Youngest id n →
      k.Within id args.sequence

def Follows (g : SubmitArgs) (k : Core) : Task → Prop
  | .polling c s _ => s ≤ c.attempts ∧
    (k.Youngest c.jobID c.riverID → markerKey c.riverID ∉ k.keys → k.Within c.jobID s)
  | .lost _ _ => k.Sent g
  | .rearming _ _ _ => k.Sent g
  | _ => True

section
variable {g : SubmitArgs} {k k' : Core} {id : Uuid} {n b b' : ℕ} {t : Task}

theorem Within.mono (h : k.Within id b) (hb : b ≤ b') : k.Within id b' :=
  ⟨fun hm => (h.keys hm).trans hb, fun hn hid => (h.hops hn hid).trans hb⟩

theorem Grows.sent (h : k.Grows k') (hs : k.Sent g) : k'.Sent g := by
  obtain ⟨n, hn, hm⟩ := hs
  exact ⟨n, h.holds hn, h.keys hm⟩

theorem SameChain.refl (k : Core) : k.SameChain k := ⟨Iff.rfl, Iff.rfl⟩

theorem SameChain.trans {k'' : Core} (h : k.SameChain k') (h' : k'.SameChain k'') :
    k.SameChain k'' := ⟨h'.keys.trans h.keys, h'.hops.trans h.hops⟩

theorem SameChain.of_eq (hkeys : k'.keys = k.keys) (hriver : k'.river = k.river) :
    k.SameChain k' := by
  refine ⟨?_, ?_⟩
  · rw [hkeys]
  · unfold Holds
    rw [hriver]

theorem SameChain.addMarker (k : Core) (n : ℕ) : k.SameChain (k.addKey (markerKey n)) := by
  refine ⟨fun {id s} => ?_, Iff.rfl⟩
  rw [addKey, List.mem_append, List.mem_singleton]
  exact or_iff_left fun h => markerKey_ne_pollKey _ _ _ h.symm

theorem SameArgs.holds {river : Table ℕ RiverJob} (h : SameArgs k.river river) {args : RiverArgs}
    (hn : k.Holds n args) : (k.writeRiver river).Holds n args := by
  obtain ⟨j, hj, rfl⟩ := hn
  exact h.row hj

theorem SameChain.writeRiver {river : Table ℕ RiverJob} (h : SameArgs k.river river) :
    k.SameChain (k.writeRiver river) := by
  refine ⟨Iff.rfl, fun {n args} => ⟨fun hn => ?_, fun hn => h.holds hn⟩⟩
  obtain ⟨j, hj, hargs⟩ := hn
  obtain ⟨j', hj', hsame⟩ := h.symm.row hj
  exact ⟨j', hj', hsame.trans hargs⟩

theorem SameChain.within (h : k.SameChain k') (hb : k.Within id b) : k'.Within id b :=
  ⟨fun hm => hb.keys (h.keys.mp hm), fun hn hid => hb.hops (h.hops.mp hn) hid⟩

theorem SameChain.youngest (h : k.SameChain k') (hy : k'.Youngest id n) : k.Youngest id n :=
  fun hm hid => hy (h.hops.mpr hm) hid

theorem Owned.isJob_of_key (hk : k.Owned g) (h : k.Grows k') {i : Uuid} {s : ℕ}
    (hi : k'.IsJob g i) (hm : pollKey i s ∈ k.keys) : k.IsJob g i := by
  obtain ⟨a, ha⟩ := hk.pollKeys hm
  obtain ⟨b, hb, hkey, -⟩ := h.jobs ha
  exact ⟨a, ha, hkey.symm.trans (hi.key hb)⟩

theorem Owned.isJob_unique (hk : k.Owned g) {i j : Uuid} (hi : k.IsJob g i) (hj : k.IsJob g j) :
    i = j := by
  obtain ⟨a, ha, hkey⟩ := hi
  obtain ⟨b, hb, hkey'⟩ := hj
  exact hk.unique ha hb hkey hkey'

theorem Chained.same (h : k.Chained g) (hk : k.Owned g) (hgrows : k.Grows k')
    (hsame : k.SameChain k')
    (hjobs : ∀ {i job}, k'.jobs.get? i = some job → job.state = .pending →
      ∃ old, k.jobs.get? i = some old ∧ old.state = .pending ∧
        (old.attempts ≤ job.attempts ∨ k.Within i job.attempts)) : k'.Chained g where
  ticket hjob hs := by
    obtain ⟨old, hold, hpending, -⟩ := hjobs hjob hs
    exact hgrows.sent (h.ticket hold hpending)
  keyed hi hm := by
    have hold := hsame.keys.mp hm
    exact hgrows.sent (h.keyed (hk.isJob_of_key hgrows hi hold) hold)
  hopped hn := hgrows.sent (h.hopped (hsame.hops.mp hn))
  count hjob hs := by
    obtain ⟨old, hold, hpending, hle | hwithin⟩ := hjobs hjob hs
    · exact hsame.within ((h.count hold hpending).mono hle)
    · exact hsame.within hwithin
  head hjob hs hn hid hy := by
    obtain ⟨old, hold, hpending, -⟩ := hjobs hjob hs
    exact hsame.within (h.head hold hpending (hsame.hops.mp hn) hid (hsame.youngest hy))

theorem Chained.stay (h : k.Chained g) (hk : k.Owned g) (hgrows : k.Grows k')
    (hsame : k.SameChain k') (hjobs : k'.jobs = k.jobs) : k'.Chained g :=
  h.same hk hgrows hsame fun hjob hs => ⟨_, hjobs ▸ hjob, hs, .inl le_rfl⟩

theorem Chained.leave (h : k.Chained g) (hk : k.Owned g) (hgrows : k.Grows k')
    (hsame : k.SameChain k') {job : Job} (hjobs : k'.jobs = (k.writeJob id job).jobs)
    (hs : job.state ≠ .pending) : k'.Chained g := by
  refine h.same hk hgrows hsame fun {i b} hb hpending => ?_
  rw [hjobs, writeJob_get?] at hb
  split at hb
  · cases hb
    exact absurd hpending hs
  · exact ⟨b, hb, hpending, .inl le_rfl⟩

theorem Follows.same (h : k.Follows g t) (hgrows : k.Grows k') (hsame : k.SameChain k') :
    k'.Follows g t := by
  cases t with
  | polling c s ref =>
    refine ⟨h.1, fun hy hfresh => hsame.within (h.2 (hsame.youngest hy) fun hm => ?_)⟩
    exact hfresh (hgrows.keys hm)
  | lost i j => exact hgrows.sent h
  | rearming i j a => exact hgrows.sent h
  | _ => trivial

/-! ### One more hop -/

theorem enqueue_of_mem {key : String} {args : RiverArgs} (h : key ∈ k.keys) :
    k.enqueue key args = k := if_pos h

theorem enqueue_holds {key : String} {new args : PollArgs} (h : key ∉ k.keys)
    (hn : (k.enqueue key (.poll new)).Holds n (.poll args)) :
    n = k.nextRiverID ∧ args = new ∨ k.Holds n (.poll args) := by
  obtain ⟨j, hj, hargs⟩ := hn
  rw [enqueue, if_neg h, Table.get?_set] at hj
  split at hj
  · rename_i hnext
    cases hj
    cases hargs
    exact .inl ⟨hnext, rfl⟩
  · exact .inr ⟨j, hj, hargs⟩

theorem enqueue_holds_new {key : String} {args : RiverArgs} (h : key ∉ k.keys) :
    (k.enqueue key args).river.get? k.nextRiverID = some { args := args } := by
  rw [enqueue, if_neg h]
  exact Table.get?_set_self _ _ _

theorem enqueue_keys {key old : String} {args : RiverArgs} (h : old ∈ (k.enqueue key args).keys) :
    old = key ∨ old ∈ k.keys := by
  unfold enqueue at h
  split at h
  · exact .inr h
  · exact (List.mem_append.mp h).symm.imp_left List.mem_singleton.mp

theorem Within.enqueue {key : String} {new : PollArgs} (hb : k.Within id b)
    (h : key ∉ k.keys) (hkey : ∀ {s}, key = pollKey id s → s ≤ b)
    (hnew : new.submissionJobID = id → new.sequence ≤ b) :
    (k.enqueue key (.poll new)).Within id b where
  keys hm := by
    rcases enqueue_keys hm with heq | hm
    · exact hkey heq.symm
    · exact hb.keys hm
  hops hn hid := by
    rcases enqueue_holds h hn with ⟨-, rfl⟩ | hn
    · exact hnew hid
    · exact hb.hops hn hid

theorem youngest_enqueue {key : String} {new : PollArgs} (h : key ∉ k.keys)
    (hy : (k.enqueue key (.poll new)).Youngest new.submissionJobID n) : k.nextRiverID ≤ n :=
  hy ⟨_, enqueue_holds_new h, rfl⟩ rfl

theorem Chained.extend (hk : k.Owned g) {key : String} {new : PollArgs}
    (hmine : k.IsJob g new.submissionJobID) (hfresh : key ∉ k.keys) (hsent : k.Sent g)
    (hkey : ∀ {i s}, key = pollKey i s → s = new.sequence)
    (hwithin : ∀ {job}, k.jobs.get? new.submissionJobID = some job → job.state = .pending →
      k.Within new.submissionJobID new.sequence ∧ new.sequence ≤ job.attempts) :
    (k.enqueue key (.poll new)).Chained g := by
  have hgrows : k.Grows (k.enqueue key (.poll new)) := grows_enqueue fun _ _ => hk.bound
  have hold : ∀ {i job}, (k.enqueue key (.poll new)).jobs.get? i = some job →
      job.state = .pending → i = new.submissionJobID ∧
        (k.enqueue key (.poll new)).Within i new.sequence ∧ new.sequence ≤ job.attempts := by
    intro i job hjob hs
    rw [enqueue_jobs] at hjob
    obtain rfl := hk.isJob_unique (hk.isJob hjob (by rw [hs]; rfl)) hmine
    obtain ⟨hb, hle⟩ := hwithin hjob hs
    exact ⟨rfl, hb.enqueue hfresh (fun h => le_of_eq (hkey h)) fun _ => le_rfl, hle⟩
  refine ⟨fun _ _ => hgrows.sent hsent, fun _ _ => hgrows.sent hsent, fun _ => hgrows.sent hsent,
    fun hjob hs => ?_, fun {i job n args} hjob hs hn hid hy => ?_⟩
  · obtain ⟨-, hb, hle⟩ := hold hjob hs
    exact hb.mono hle
  · obtain ⟨rfl, hb, -⟩ := hold hjob hs
    have hlast := youngest_enqueue hfresh hy
    rcases enqueue_holds hfresh hn with ⟨-, rfl⟩ | ⟨j, hj, -⟩
    · exact hb
    · exact absurd (hk.bound hj) (Nat.not_lt_of_le hlast)

theorem Follows.extend (h : k.Follows g t) (ht : k.Minds g t) (hk : k.Owned g) {key : String}
    {new : PollArgs} (hmine : k.IsJob g new.submissionJobID) (hfresh : key ∉ k.keys) :
    (k.enqueue key (.poll new)).Follows g t := by
  have hgrows : k.Grows (k.enqueue key (.poll new)) := grows_enqueue fun _ _ => hk.bound
  cases t with
  | polling c s ref =>
    have hc : k.Carries g c _ := ht
    refine ⟨h.1, fun hy => ?_⟩
    rw [hk.isJob_unique hc.job hmine] at hy
    exact absurd (hc.lt hk) (Nat.not_lt_of_le (youngest_enqueue hfresh hy))
  | lost i j => exact hgrows.sent h
  | rearming i j a => exact hgrows.sent h
  | _ => trivial

theorem Marks.chain {target : Status} {outcome : Row → Row} (h : k.Marks id target outcome k') :
    k.SameChain k' ∧ k'.jobs = k.jobs := by
  cases h with
  | already hrow hs => exact ⟨.refl k, rfl⟩
  | moved hrow hlegal hout => exact ⟨.of_eq rfl rfl, rfl⟩

end

end Core

section
variable {g : SubmitArgs} {st : Store} {k' : Core} {t t' : Task} {a : Act}

theorem youngest_of_not_younger {id : Uuid} {n : ℕ} (h : st.youngerHop id n = false) :
    st.core.Youngest id n := by
  rintro m args ⟨j, hj, hargs⟩ hid
  by_contra hlt
  rw [Store.youngerHop, List.any_eq_false] at h
  have hnot := h (m, j) (Table.mem_rows.mpr hj)
  simp only [hargs, hid, beq_self_eq_true, Bool.true_and, decide_eq_true_eq] at hnot
  exact hnot (Nat.lt_of_not_le hlt)

theorem not_sent (hk : st.core.Owned g) {c : Call} (hc : st.core.Carries g c (.submit g))
    (hfresh : st.used (markerKey c.riverID) = false) : ¬ st.core.Sent g := by
  rintro ⟨n, ⟨i, hi, hsi⟩, hm⟩
  obtain ⟨j, hj, hsj⟩ := hc.river
  obtain rfl := hk.single hi hj hsi hsj
  rw [Store.used_iff.mpr hm] at hfresh
  cases hfresh

theorem next_key_unused {c : Call} {s : ℕ} {pollRef ref : String} {pollAfter : ℕ} {reached : Bool}
    (hF : st.core.Follows g (.polling c s pollRef))
    (hC : keepsChain st (.polling c s pollRef) (.reply ⟨.pending ref pollAfter, reached⟩) = true)
    (hfresh : st.used (markerKey c.riverID) = false) (hticket : ref ≠ "") :
    st.core.Within c.jobID s ∧ pollKey c.jobID (s + 1) ∉ st.core.keys := by
  have hyounger : (st.used (markerKey c.riverID) || ref == "" ||
      !st.youngerHop c.jobID c.riverID) = true := hC
  rw [hfresh, beq_eq_false_iff_ne.mpr hticket, Bool.false_or, Bool.false_or,
    Bool.not_eq_true'] at hyounger
  have hunmarked : markerKey c.riverID ∉ st.core.keys := by
    intro hm
    rw [Store.used_iff.mpr hm] at hfresh
    cases hfresh
  have hwithin := hF.2 (youngest_of_not_younger hyounger) hunmarked
  exact ⟨hwithin, fun hm => absurd (hwithin.keys hm) (Nat.not_succ_le_self s)⟩

theorem written_chain (k : Core) (n : ℕ) (id : Uuid) (job : Job) :
    k.SameChain ((k.addKey (markerKey n)).writeJob id job) :=
  (Core.SameChain.addMarker k n).trans (.of_eq rfl rfl)

theorem effect_chained (hk : st.core.Owned g) (hI : st.core.Chained g) (ht : st.core.Minds g t)
    (hF : st.core.Follows g t) (hC : keepsChain st t a = true) (h : Effect st t a k' t') :
    k'.Chained g ∧ k'.Follows g t' ∧
      ∀ u, st.core.Minds g u → st.core.Follows g u → k'.Follows g u := by
  obtain ⟨hgrows, hk', -⟩ := effect_owned hk ht h
  -- every effect but the three enqueues leaves the hops and their keys alone
  have hsame : st.core.SameChain k' →
      ∀ u, st.core.Minds g u → st.core.Follows g u → k'.Follows g u :=
    fun hs u _ hu => hu.same hgrows hs
  cases h with
  | stop => exact ⟨hI, trivial, fun _ _ hu => hu⟩
  | fetched hrow hs =>
    have hchain := Core.SameChain.writeRiver (k := st.core) (Core.sameArgs_set hrow .running)
    exact ⟨hI.stay hk hgrows hchain rfl, trivial, hsame hchain⟩
  | @settled n j s hrow hlive hs =>
    have hchain := Core.SameChain.writeRiver (k := st.core) (Core.sameArgs_set hrow s)
    exact ⟨hI.stay hk hgrows hchain rfl, trivial, hsame hchain⟩
  | @created n attempt args u job hnone hens =>
    have hchain : st.core.SameChain (st.core.writeJob u.newID job) := .of_eq rfl rfl
    have hs : job.state ≠ .pending := by
      cases hens with
      | found hjob hkey => exact absurd hkey (hnone _ _ hjob)
      | created _ _ _ _ hs _ _ =>
        rw [hs]
        rintro ⟨⟩
    exact ⟨hI.leave hk hgrows hchain rfl hs, trivial, hsame hchain⟩
  | @cleared n attempt args u id job hlocked hens hopen hcleared =>
    have hchain : st.core.SameChain (st.core.writeJob id (job.withState .accepted)) :=
      .of_eq rfl rfl
    exact ⟨hI.leave hk hgrows hchain rfl (by rintro ⟨⟩), trivial, hsame hchain⟩
  | @submitting n attempt args u id job number hlocked hens hopen hclear hallowed =>
    have hchain : st.core.SameChain (st.core.writeJob id (job.withState .submitting)) :=
      .of_eq rfl rfl
    exact ⟨hI.leave hk hgrows hchain rfl (by rintro ⟨⟩), trivial, hsame hchain⟩
  | @polled n attempt args u job pollRef hjob hs =>
    have hhop : st.core.Holds n (.poll args) := ht.1
    exact ⟨hI, ⟨(hI.count hjob hs).hops hhop rfl, fun hy _ => hI.head hjob hs hhop rfl hy⟩,
      fun _ _ hu => hu⟩
  | sent => exact ⟨hI, trivial, fun _ _ hu => hu⟩
  | @closed t a c s target outcome out k' hcall hfresh hv ha hclose =>
    cases hclose with
    | @intro job attempts lastError number k' hjob hmarks =>
      obtain ⟨hmark, hjobs⟩ := hmarks.chain
      have hchain : st.core.SameChain (k'.addAudit (c.audit out number)) :=
        ((written_chain st.core _ _ _).trans hmark).trans (.of_eq rfl rfl)
      have hs : (job.attempted s attempts lastError).state ≠ .pending := by
        intro hpending
        rw [show s = .pending from hpending] at hv
        cases hv
      exact ⟨hI.leave hk hgrows hchain hjobs hs, trivial, hsame hchain⟩
  | @sentPending c number reply job ref pollAfter k₁ hreply hfresh hjob hmarks =>
    have hc : st.core.Carries g c (.submit g) := ht
    obtain ⟨hgrows₁, hk₁⟩ := closure_owned hk hc hjob hmarks rfl rfl
    obtain ⟨hmark, hjobs⟩ := hmarks.chain
    have hchain := (written_chain st.core c.riverID c.jobID
      (job.acknowledged (c.attempts + 1) ref pollAfter)).trans hmark
    have hnone := not_sent hk hc hfresh
    have hsent : k₁.Sent g := by
      obtain ⟨-, hkeys, -⟩ : k₁.jobs = _ ∧ k₁.keys = _ ∧ k₁.audit = _ := by
        cases hmarks with
        | already hrow hs => exact ⟨rfl, rfl, rfl⟩
        | moved hrow hlegal hout => exact ⟨rfl, rfl, rfl⟩
      refine ⟨c.riverID, hgrows₁.holds hc.river, ?_⟩
      rw [hkeys]
      exact marker_mem _ _ _ _
    have hwithin : k₁.Within c.jobID 1 :=
      ⟨fun hm => absurd (hI.keyed hc.job (hchain.keys.mp hm)) hnone,
        fun hn _ => absurd (hI.hopped (hchain.hops.mp hn)) hnone⟩
    have hkey : pollKey c.jobID 1 ∉ k₁.keys :=
      fun hm => hnone (hI.keyed hc.job (hchain.keys.mp hm))
    have hmine := hgrows₁.isJob hc.job
    refine ⟨Core.Chained.extend hk₁ hmine hkey hsent (fun h => (pollKey_inj h).2.symm) ?_, trivial,
      fun u hu hfollows => (hfollows.same hgrows₁ hchain).extend (hgrows₁.minds hu) hk₁ hmine hkey⟩
    intro b hb hs
    rw [hjobs] at hb
    obtain rfl := Option.some.inj ((Table.get?_set_self _ _ _).symm.trans hb)
    exact ⟨hwithin, Nat.le_add_left 1 c.attempts⟩
  | @pollPending c sequence pollRef reply job ref pollAfter hreply hfresh hjob hticket =>
    have hc : st.core.Carries g c (.poll ⟨g.invoiceID, c.jobID, sequence⟩) := ht
    obtain ⟨result, reached⟩ := reply
    obtain rfl : result = .pending ref pollAfter := hreply
    obtain ⟨hwithin, hkey⟩ := next_key_unused hF hC hfresh hticket
    obtain ⟨hgrows₁, hk₁⟩ := marked_writeJob hk hc hjob
      (job.acknowledged (c.attempts + 1) ref pollAfter) rfl rfl
    have hchain := written_chain st.core c.riverID c.jobID
      (job.acknowledged (c.attempts + 1) ref pollAfter)
    have hmine := hgrows₁.isJob hc.job
    have hkey₁ : pollKey c.jobID (sequence + 1) ∉ ((st.core.addKey (markerKey c.riverID)).writeJob
        c.jobID (job.acknowledged (c.attempts + 1) ref pollAfter)).keys :=
      fun hm => hkey (hchain.keys.mp hm)
    refine ⟨Core.Chained.extend hk₁ hmine hkey₁ (hgrows₁.sent (hI.hopped hc.river))
      (fun h => (pollKey_inj h).2.symm) ?_, trivial,
      fun u hu hfollows => (hfollows.same hgrows₁ hchain).extend (hgrows₁.minds hu) hk₁ hmine hkey₁⟩
    intro b hb hs
    obtain rfl := Option.some.inj ((Table.get?_set_self _ _ _).symm.trans hb)
    exact ⟨hchain.within (hwithin.mono (Nat.le_succ _)), Nat.succ_le_succ hF.1⟩
  | @retried c number reply job err hreply hmid hjob =>
    have hchain : st.core.SameChain
        (st.core.writeJob c.jobID (job.attempted .queued (c.attempts + 1) (some err))) :=
      .of_eq rfl rfl
    exact ⟨hI.leave hk hgrows hchain rfl (by rintro ⟨⟩), trivial, hsame hchain⟩
  | @pollRetried c sequence pollRef reply job err hreply hmid hjob =>
    have hchain : st.core.SameChain
        (st.core.writeJob c.jobID (job.attempted job.state (c.attempts + 1) (some err))) :=
      .of_eq rfl rfl
    refine ⟨hI.same hk hgrows hchain fun {i b} hb hs => ?_, trivial, hsame hchain⟩
    rw [Core.writeJob_get?] at hb
    split at hb
    · rename_i hid
      subst hid
      obtain rfl := Option.some.inj hb
      have hpending : job.state = .pending := hs
      obtain ⟨result, reached⟩ := reply
      obtain rfl : result = .retryable err := hreply
      refine ⟨job, hjob, hpending, ?_⟩
      simp only [keepsChain, hjob, Option.all_some, hpending, bne_self_eq_false, Bool.false_or,
        decide_eq_false (Nat.not_le_of_lt hmid), Bool.or_eq_true, decide_eq_true_eq,
        Bool.and_eq_true, Bool.not_eq_true'] at hC
      rcases hC with hle | ⟨hfresh, hyounger⟩
      · exact .inl hle
      · have hunmarked : markerKey c.riverID ∉ st.core.keys := by
          intro hm
          rw [Store.used_iff.mpr hm] at hfresh
          cases hfresh
        have hwithin := hF.2 (youngest_of_not_younger hyounger) hunmarked
        exact .inr (hwithin.mono (hF.1.trans (Nat.le_succ _)))
    · exact ⟨b, hb, hs, .inl le_rfl⟩
  | found hjob hs hpoll => exact ⟨hI, hI.ticket hjob hs, fun _ _ hu => hu⟩
  | counted hjob => exact ⟨hI, hF, fun _ _ hu => hu⟩
  | @rearmed id invoiceID attempts =>
    by_cases hused : reconcilePollKey id attempts ∈ st.core.keys
    · rw [Core.enqueue_of_mem hused]
      exact ⟨hI, trivial, fun _ _ hu => hu⟩
    · refine ⟨Core.Chained.extend hk ht.1 hused hF
        (fun h => absurd h.symm (pollKey_ne_reconcilePollKey _ _ _ _)) ?_, trivial,
        fun u hu hfollows => hfollows.extend hu hk ht.1 hused⟩
      intro job hjob hs
      have hnot : st.used (reconcilePollKey id attempts) = false := by
        rw [Bool.eq_false_iff]
        exact fun h => hused (Store.used_iff.mp h)
      have hrow : st.jobs.get? id = some job := hjob
      simp only [keepsChain, hnot, hrow, Option.all_some, hs, bne_self_eq_false, Bool.false_or,
        beq_iff_eq] at hC
      rw [← hC]
      exact ⟨hI.count hjob hs, le_rfl⟩
  | @cancelled id job r river hjob hs hrow hqueued hriver =>
    have hargs : Core.SameArgs st.river river := by
      rcases hriver with rfl | ⟨n, rfl⟩
      · exact .refl _
      · exact Core.sameArgs_cancel st n
    have hwritten : st.core.SameChain ((st.core.writeJob id (job.withState .cancelled)).writeInvoice
        job.invoiceID (r.applyTransition .failed .support {})) := .of_eq rfl rfl
    have hchain := hwritten.trans (.writeRiver hargs)
    exact ⟨hI.leave hk hgrows hchain rfl (by rintro ⟨⟩), trivial, hsame hchain⟩

end

theorem chained_outline (g : SubmitArgs) :
    protocol.Outline (fun st t a => keepsChain st t a = true) (fun _ _ _ _ => True)
      (fun st => st.core.Owned g ∧ st.core.Chained g)
      (fun st t => st.core.Minds g t ∧ st.core.Follows g t) fun _ _ => True where
  store hI ht hC h :=
    ⟨(effect_owned hI.1 ht.1 (next_effect h)).2.1,
      (effect_chained hI.1 hI.2 ht.1 ht.2 hC (next_effect h)).1⟩
  own hI ht hC h :=
    ⟨(effect_owned hI.1 ht.1 (next_effect h)).2.2,
      (effect_chained hI.1 hI.2 ht.1 ht.2 hC (next_effect h)).2.1⟩
  other hI ht hC h hu _ _ _ :=
    ⟨(effect_owned hI.1 ht.1 (next_effect h)).1.minds hu.1,
      (effect_chained hI.1 hI.2 ht.1 ht.2 hC (next_effect h)).2.2 _ hu.1 hu.2⟩
  pair _ _ _ _ _ _ _ _ := ⟨trivial, trivial⟩

theorem Begins.chained {g : SubmitArgs} {st : Store} (h : Begins g st) : st.core.Chained g := by
  have hnohop : ∀ {n args}, ¬ st.core.Holds n (.poll args) := by
    rintro n args ⟨j, hj, hargs⟩
    rw [h.submits hj] at hargs
    cases hargs
  have hopen : ∀ {id job}, st.jobs.get? id = some job → job.state ≠ .pending := by
    intro id job hjob hs
    have hmine := h.owned.isJob hjob (by rw [hs]; rfl)
    rw [(h.fresh hjob (hmine.key hjob)).1] at hs
    cases hs
  refine ⟨fun hjob hs => absurd hs (hopen hjob), fun {id s} hi hm => ?_,
    fun hn => absurd hn hnohop, fun hjob hs => absurd hs (hopen hjob),
    fun hjob hs => absurd hs (hopen hjob)⟩
  obtain ⟨job, hjob, hkey⟩ := hi
  have hunused := (h.hops (s := s) hjob hkey).1
  rw [Store.used_iff.mpr hm] at hunused
  cases hunused

theorem pollPending_inserts {st st' : Store} {c : Call} {ex : Exchange} {s : ℕ} {ref : String}
    {pollAfter : ℕ} (h : pollPending st c ex s ref pollAfter = .ok st')
    (hkey : pollKey c.jobID (s + 1) ∉ st.core.keys) :
    ref ≠ "" ∧ st'.river.get? st.nextRiverID =
      some { args := .poll ⟨c.invoiceID, c.jobID, s + 1⟩ } := by
  simp only [pollPending, bind_eq_ok, pure_eq_ok] at h
  obtain ⟨st₁, hpend, rfl⟩ := h
  obtain ⟨hticket, job, hjob, rfl⟩ := markJobPending_eq_ok hpend
  have hinsert := enqueueTx_core { st.recordExchange ex with
    jobs := st.jobs.set c.jobID (job.acknowledged (c.attempts + 1) ref pollAfter) }
      (pollKey c.jobID (s + 1)) (.poll ⟨c.invoiceID, c.jobID, s + 1⟩)
  have hriver := congrArg Core.river hinsert
  refine ⟨hticket, (congrArg (fun river => river.get? st.nextRiverID) hriver).trans ?_⟩
  exact Core.enqueue_holds_new hkey

/-- In every run where no overtaken hop takes a pending job's count back: a hop's ticket always
enqueues the next one, a pending job's keys are numbered at most its attempts, and no two
families share a key. -/
theorem pending_keeps_its_chain {g : SubmitArgs} {st : Store} (hbegins : Begins g st)
    {steps : List (ℕ × Act)} {w : World Store Task}
    (hmeets : Along protocol.step ChainKept (start st) steps)
    (hrun : runFrom protocol.step (start st) steps = some w) :
    (∀ n c s pollRef ticket pollAfter reached st', protocol.task w n = .polling c s pollRef →
      ChainKept w (n, .reply ⟨.pending ticket pollAfter, reached⟩) →
        w.store.used (markerKey c.riverID) = false →
          pollTx2 w.store c s ⟨.pending ticket pollAfter, reached⟩ = .ok st' →
            w.store.used (pollKey c.jobID (s + 1)) = false ∧
              st'.river.get? w.store.nextRiverID =
                some { args := .poll ⟨c.invoiceID, c.jobID, s + 1⟩ }) ∧
      (∀ id job s, w.store.jobs.get? id = some job → job.state = .pending →
        w.store.used (pollKey id s) = true → s ≤ job.attempts) ∧
      ∀ (requestKey : String) (i j k : Uuid) (s a n : ℕ),
        [deriveBatchSubmitKey requestKey i, pollKey j s, reconcilePollKey k a,
          markerKey n].Nodup := by
  have hw := (Protocol.Holds.start (p := protocol) (R := fun _ _ => True)
    (I := fun st => st.core.Owned g ∧ st.core.Chained g)
    (L := fun st t => st.core.Minds g t ∧ st.core.Follows g t) ⟨hbegins.owned, hbegins.chained⟩
      ⟨trivial, trivial⟩ trivial).run (chained_outline g) hmeets hrun
  refine ⟨fun n c s pollRef ticket pollAfter reached st' htask hlast hfresh hok => ?_,
    fun id job s hjob hs hm => (hw.store.2.count hjob hs).keys (Store.used_iff.mp hm),
    fun requestKey i j k s a n => ?_⟩
  · have hF := (hw.each n).2
    have hC := hlast.1
    rw [htask] at hF hC
    have hpend : pollPending (w.store.useKey (markerKey c.riverID)) c (c.exchange .poll reached) s
        ticket pollAfter = .ok st' := by
      have honce : w.store.oncePerJob c.riverID (fun st => pollPending st c
          (c.exchange .poll reached) s ticket pollAfter) = .ok st' := hok
      rw [Store.oncePerJob, hfresh, if_neg Bool.false_ne_true] at honce
      exact honce
    by_cases hticket : ticket = ""
    · subst hticket
      simp only [pollPending, bind_eq_ok] at hpend
      obtain ⟨st₁, hmark, -⟩ := hpend
      exact absurd rfl (markJobPending_eq_ok hmark).1
    · obtain ⟨-, hkey⟩ := next_key_unused hF hC hfresh hticket
      have hkey' : pollKey c.jobID (s + 1) ∉ (w.store.useKey (markerKey c.riverID)).core.keys :=
        fun hm => hkey ((Core.SameChain.addMarker w.store.core c.riverID).keys.mp hm)
      refine ⟨?_, (pollPending_inserts hpend hkey').2⟩
      rw [Bool.eq_false_iff]
      exact fun hused => hkey (Store.used_iff.mp hused)
  · simp only [List.nodup_cons, List.mem_cons, List.not_mem_nil, or_false, not_or,
      not_false_eq_true, List.nodup_nil, and_true]
    exact ⟨⟨requestKey_ne_pollKey _ _ _ _, requestKey_ne_reconcilePollKey _ _ _ _,
      requestKey_ne_markerKey _ _ _⟩, ⟨pollKey_ne_reconcilePollKey _ _ _ _,
      (markerKey_ne_pollKey _ _ _).symm⟩, (markerKey_ne_reconcilePollKey _ _ _).symm⟩

def overtakenHop : List (ℕ × Act) :=
  acknowledgedAttempt ++ [(0, .fetch 2 1), (0, .tx1 ⟨8, 0, true⟩),
    (0, .reply ⟨.pending "ticket" 60, true⟩), (0, .river 2 .waiting), (1, .fetch 2 2),
    (1, .tx1 ⟨8, 0, true⟩), (0, .fetch 3 1), (0, .tx1 ⟨8, 0, true⟩),
    (0, .reply ⟨.pending "ticket" 60, true⟩), (0, .fetch 4 1), (0, .tx1 ⟨8, 0, true⟩),
    (0, .reply ⟨.pending "ticket" 60, true⟩), (0, .river 1 .completed), (0, .river 3 .completed),
    (0, .river 4 .completed), (0, .river 5 .discarded)]

def staleCount : List (ℕ × Act) :=
  overtakenHop ++ [(1, .reply ⟨.retryable "503", true⟩), (0, .river 2 .completed),
    (0, .scan 7 ⟨100, 10⟩), (0, .readAttempts), (0, .rearm), (0, .fetch 6 1),
    (0, .tx1 ⟨8, 0, true⟩)]

theorem ticket_without_hop :
    ∃ w w', runFrom protocol.step (start sampleStore) staleCount = some w ∧
      (∃ c, protocol.task w 0 = .polling c 3 "ticket") ∧
      w.store.used (pollKey 7 4) = true ∧ w.store.used (markerKey 6) = false ∧
      protocol.step w (0, .reply ⟨.pending "ticket" 60, true⟩) = some w' ∧
      (w'.store.jobs.get? 7).map Job.state = some .pending ∧
      w'.store.used (markerKey 6) = true ∧
      ∀ e ∈ w'.store.river.rows, e.1 ≠ 6 → e.2.state.live = false := by
  have htest : (runFrom protocol.step (start sampleStore) staleCount).any (fun w =>
      decide (protocol.task w 0 = .polling ⟨6, 1, 7, 40, 3⟩ 3 "ticket") &&
      w.store.used (pollKey 7 4) && !w.store.used (markerKey 6) &&
      (protocol.step w (0, .reply ⟨.pending "ticket" 60, true⟩)).any fun w' =>
        decide ((w'.store.jobs.get? 7).map Job.state = some .pending) &&
        w'.store.used (markerKey 6) &&
        w'.store.river.rows.all fun e => e.1 == 6 || !e.2.state.live) = true := by
    decide +kernel
  obtain ⟨w, hrun, hw⟩ := (Option.any_eq_true _ _).mp htest
  simp only [Bool.and_eq_true, decide_eq_true_eq, Bool.not_eq_true'] at hw
  obtain ⟨⟨⟨htask, hused⟩, hfresh⟩, hnext⟩ := hw
  obtain ⟨w', hstep, hw'⟩ := (Option.any_eq_true _ _).mp hnext
  simp only [Bool.and_eq_true, decide_eq_true_eq, List.all_eq_true, Bool.or_eq_true, beq_iff_eq,
    Bool.not_eq_true'] at hw'
  obtain ⟨⟨hpending, hmarked⟩, hgone⟩ := hw'
  exact ⟨w, w', hrun, ⟨_, htask⟩, hused, hfresh, hstep, hpending, hmarked,
    fun e he hne => (hgone e he).resolve_left hne⟩

theorem pending_keeps_its_chain_sample :
    ∃ w job, runFrom protocol.step (start sampleStore) overtakenHop = some w ∧
      w.store.jobs.get? 7 = some job ∧ w.store.used (pollKey 7 4) = true ∧ 4 ≤ job.attempts := by
  have htest : (runFrom protocol.step (start sampleStore) overtakenHop).any (fun w =>
      w.store.used (pollKey 7 4) && (w.store.jobs.get? 7).any fun job =>
        decide (job.state = .pending)) = true := by decide +kernel
  obtain ⟨w, hrun, hw⟩ := (Option.any_eq_true _ _).mp htest
  rw [Bool.and_eq_true] at hw
  obtain ⟨hused, hrow⟩ := hw
  obtain ⟨job, hjob, hs⟩ := (Option.any_eq_true _ _).mp hrow
  have hkeeps := pending_keeps_its_chain sampleStore_begins (by decide +kernel) hrun
  exact ⟨w, job, hrun, hjob, hused, hkeeps.2.1 7 job 4 hjob (decide_eq_true_eq.mp hs) hused⟩

end InvoiceOs.Submission
