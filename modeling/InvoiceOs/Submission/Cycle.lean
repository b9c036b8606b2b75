import InvoiceOs.Submission.Effect

/-! One submission: the invoice and the key of a `SubmitArgs` job, the one open job row under
that key, and the River jobs that name them. Whatever is under way stays about them. -/

namespace InvoiceOs.Submission

open Lib Invoice

namespace Core

def IsJob (g : SubmitArgs) (k : Core) (id : Uuid) : Prop :=
  ∃ job, k.jobs.get? id = some job ∧ job.idempotencyKey = g.idempotencyKey

def Names (g : SubmitArgs) (k : Core) : RiverArgs → Prop
  | .submit args => args = g
  | .poll args => args.invoiceID = g.invoiceID ∧ k.IsJob g args.submissionJobID

def Holds (k : Core) (n : ℕ) (args : RiverArgs) : Prop :=
  ∃ j, k.river.get? n = some j ∧ j.args = args

structure Owned (g : SubmitArgs) (k : Core) : Prop where
  unique : ∀ {i j a b}, k.jobs.get? i = some a → k.jobs.get? j = some b →
    a.idempotencyKey = g.idempotencyKey → b.idempotencyKey = g.idempotencyKey → i = j
  own : ∀ {i a}, k.jobs.get? i = some a → a.idempotencyKey = g.idempotencyKey →
    a.invoiceID = g.invoiceID
  others : ∀ {i a}, k.jobs.get? i = some a → a.idempotencyKey ≠ g.idempotencyKey →
    isTerminalJobState a.state = true ∧ (a.invoiceID = g.invoiceID → a.state ≠ .accepted)
  invoice : ∃ r, k.invoices.get? g.invoiceID = some r
  bound : ∀ {n j}, k.river.get? n = some j → n < k.nextRiverID
  river : ∀ {n j}, k.river.get? n = some j → k.Names g j.args
  single : ∀ {m n i j}, k.river.get? m = some i → k.river.get? n = some j →
    i.args = .submit g → j.args = .submit g → m = n
  pollKeys : ∀ {i s}, pollKey i s ∈ k.keys → ∃ job, k.jobs.get? i = some job
  markers : ∀ {n}, markerKey n ∈ k.keys → n < k.nextRiverID

structure Carries (g : SubmitArgs) (k : Core) (c : Call) (args : RiverArgs) : Prop where
  job : k.IsJob g c.jobID
  invoiceID : c.invoiceID = g.invoiceID
  river : k.Holds c.riverID args

def Minds (g : SubmitArgs) (k : Core) : Task → Prop
  | .idle => True
  | .fetched n _ args => k.Holds n args ∧ k.Names g args
  | .ready c _ => k.Carries g c (.submit g)
  | .sent c _ => k.Carries g c (.submit g)
  | .polling c s _ => k.Carries g c (.poll ⟨g.invoiceID, c.jobID, s⟩)
  | .lost id i => k.IsJob g id ∧ i = g.invoiceID
  | .rearming id i _ => k.IsJob g id ∧ i = g.invoiceID

structure Grows (k k' : Core) : Prop where
  jobs : ∀ {i a}, k.jobs.get? i = some a →
    ∃ b, k'.jobs.get? i = some b ∧ b.idempotencyKey = a.idempotencyKey ∧ b.invoiceID = a.invoiceID
  river : ∀ {n j}, k.river.get? n = some j → ∃ j', k'.river.get? n = some j' ∧ j'.args = j.args
  keys : ∀ {key}, key ∈ k.keys → key ∈ k'.keys
  next : k.nextRiverID ≤ k'.nextRiverID

namespace Grows

theorem refl (k : Core) : k.Grows k :=
  ⟨fun h => ⟨_, h, rfl, rfl⟩, fun h => ⟨_, h, rfl⟩, fun h => h, le_rfl⟩

theorem trans {k₁ k₂ k₃ : Core} (h : k₁.Grows k₂) (h' : k₂.Grows k₃) : k₁.Grows k₃ where
  jobs ha := by
    obtain ⟨b, hb, hkey, hinv⟩ := h.jobs ha
    obtain ⟨c, hc, hkey', hinv'⟩ := h'.jobs hb
    exact ⟨c, hc, hkey'.trans hkey, hinv'.trans hinv⟩
  river hj := by
    obtain ⟨j', hj', hargs⟩ := h.river hj
    obtain ⟨j'', hj'', hargs'⟩ := h'.river hj'
    exact ⟨j'', hj'', hargs'.trans hargs⟩
  keys hm := h'.keys (h.keys hm)
  next := h.next.trans h'.next

theorem isJob {g : SubmitArgs} {k k' : Core} {id : Uuid} (h : k.Grows k') (hj : k.IsJob g id) :
    k'.IsJob g id := by
  obtain ⟨a, ha, hkey⟩ := hj
  obtain ⟨b, hb, hkey', -⟩ := h.jobs ha
  exact ⟨b, hb, hkey'.trans hkey⟩

theorem holds {k k' : Core} {n : ℕ} {args : RiverArgs} (h : k.Grows k') (hn : k.Holds n args) :
    k'.Holds n args := by
  obtain ⟨j, hj, hargs⟩ := hn
  obtain ⟨j', hj', hargs'⟩ := h.river hj
  exact ⟨j', hj', hargs'.trans hargs⟩

theorem names {g : SubmitArgs} {k k' : Core} {args : RiverArgs} (h : k.Grows k')
    (hn : k.Names g args) : k'.Names g args := by
  cases args with
  | submit args => exact hn
  | poll args => exact ⟨hn.1, h.isJob hn.2⟩

theorem carries {g : SubmitArgs} {k k' : Core} {c : Call} {args : RiverArgs} (h : k.Grows k')
    (hc : k.Carries g c args) : k'.Carries g c args :=
  ⟨h.isJob hc.job, hc.invoiceID, h.holds hc.river⟩

theorem minds {g : SubmitArgs} {k k' : Core} {t : Task} (h : k.Grows k') (ht : k.Minds g t) :
    k'.Minds g t := by
  cases t with
  | idle => trivial
  | fetched n attempt args => exact ⟨h.holds ht.1, h.names ht.2⟩
  | ready c number => exact h.carries ht
  | sent c number => exact h.carries ht
  | polling c s ref => exact h.carries ht
  | lost id i => exact ⟨h.isJob ht.1, ht.2⟩
  | rearming id i a => exact ⟨h.isJob ht.1, ht.2⟩

end Grows

/-! ### The writes -/

section
variable {g : SubmitArgs} {k : Core}

theorem writeJob_get? (k : Core) (i id : Uuid) (job : Job) :
    (k.writeJob id job).jobs.get? i = if i = id then some job else k.jobs.get? i :=
  Table.get?_set k.jobs i id job

theorem grows_writeJob {id : Uuid} {job job' : Job} (hjob : k.jobs.get? id = some job)
    (hkey : job'.idempotencyKey = job.idempotencyKey) (hinv : job'.invoiceID = job.invoiceID) :
    k.Grows (k.writeJob id job') where
  jobs {i a} ha := by
    rw [writeJob_get?]
    split
    · rename_i hi
      subst hi
      obtain rfl : a = job := Option.some.inj (ha.symm.trans hjob)
      exact ⟨job', rfl, hkey, hinv⟩
    · exact ⟨a, ha, rfl, rfl⟩
  river h := ⟨_, h, rfl⟩
  keys h := h
  next := le_rfl

theorem grows_createJob {id : Uuid} {job : Job} (hnew : k.jobs.get? id = none) :
    k.Grows (k.writeJob id job) where
  jobs {i a} ha := by
    rw [writeJob_get?]
    split
    · rename_i hi
      subst hi
      rw [hnew] at ha
      cases ha
    · exact ⟨a, ha, rfl, rfl⟩
  river h := ⟨_, h, rfl⟩
  keys h := h
  next := le_rfl

theorem grows_addKey (k : Core) (key : String) : k.Grows (k.addKey key) where
  jobs h := ⟨_, h, rfl, rfl⟩
  river h := ⟨_, h, rfl⟩
  keys h := List.mem_append_left _ h
  next := le_rfl

theorem grows_writeInvoice (k : Core) (id : Uuid) (r : Row) : k.Grows (k.writeInvoice id r) :=
  ⟨fun h => ⟨_, h, rfl, rfl⟩, fun h => ⟨_, h, rfl⟩, fun h => h, le_rfl⟩

theorem grows_addAudit (k : Core) (row : AuditRow) : k.Grows (k.addAudit row) :=
  ⟨fun h => ⟨_, h, rfl, rfl⟩, fun h => ⟨_, h, rfl⟩, fun h => h, le_rfl⟩

theorem grows_enqueue {key : String} {args : RiverArgs}
    (hbound : ∀ n j, k.river.get? n = some j → n < k.nextRiverID) :
    k.Grows (k.enqueue key args) := by
  unfold enqueue
  split
  · exact .refl k
  · refine ⟨fun h => ⟨_, h, rfl, rfl⟩, fun {n j} h => ⟨j, ?_, rfl⟩,
      fun h => List.mem_append_left _ h, Nat.le_succ _⟩
    have hne : n ≠ k.nextRiverID := Nat.ne_of_lt (hbound n j h)
    exact (Table.get?_set_of_ne _ _ hne).trans h

def SameArgs (river river' : Table ℕ RiverJob) : Prop :=
  ∀ n, (river'.get? n).map RiverJob.args = (river.get? n).map RiverJob.args

theorem SameArgs.refl (river : Table ℕ RiverJob) : SameArgs river river := fun _ => rfl

theorem SameArgs.row {river river' : Table ℕ RiverJob} (h : SameArgs river river') {n : ℕ}
    {j : RiverJob} (hj : river.get? n = some j) : ∃ j', river'.get? n = some j' ∧ j'.args = j.args := by
  have hn := h n
  rw [hj, Option.map_some, Option.map_eq_some_iff] at hn
  exact hn

theorem SameArgs.symm {river river' : Table ℕ RiverJob} (h : SameArgs river river') :
    SameArgs river' river := fun n => (h n).symm

theorem sameArgs_set {river : Table ℕ RiverJob} {n : ℕ} {j : RiverJob}
    (hrow : river.get? n = some j) (s : RiverState) :
    SameArgs river (river.set n { j with state := s }) := by
  intro m
  rw [Table.get?_set]
  split
  · rename_i hm
    rw [hm, hrow]
    rfl
  · rfl

theorem sameArgs_cancel (st : Store) (n : ℕ) : SameArgs st.river (riverCancel st n).river := by
  intro m
  unfold riverCancel
  rw [Table.get?_modify]
  split
  · rename_i hm
    rw [hm, Option.map_map]
    refine Option.map_congr fun j _ => ?_
    dsimp only [Function.comp]
    split <;> rfl
  · rfl

theorem grows_river {river : Table ℕ RiverJob} (hargs : SameArgs k.river river) :
    k.Grows (k.writeRiver river) :=
  ⟨fun h => ⟨_, h, rfl, rfl⟩, fun h => hargs.row h, fun h => h, le_rfl⟩

/-! ### The submission's tables stay its own -/

theorem Owned.writeJob (h : k.Owned g) {id : Uuid} {job job' : Job}
    (hjob : k.jobs.get? id = some job) (hmine : job.idempotencyKey = g.idempotencyKey)
    (hkey : job'.idempotencyKey = job.idempotencyKey) (hinv : job'.invoiceID = job.invoiceID) :
    (k.writeJob id job').Owned g := by
  have hgrows := grows_writeJob hjob hkey hinv
  have hold : ∀ {i a}, (k.writeJob id job').jobs.get? i = some a →
      i = id ∧ a = job' ∨ i ≠ id ∧ k.jobs.get? i = some a := by
    intro i a ha
    rw [writeJob_get?] at ha
    split at ha
    · rename_i hi
      exact .inl ⟨hi, (Option.some.inj ha).symm⟩
    · rename_i hi
      exact .inr ⟨hi, ha⟩
  constructor
  · intro i j a b ha hb hka hkb
    rcases hold ha with ⟨rfl, rfl⟩ | ⟨-, hi⟩
    · rcases hold hb with ⟨rfl, rfl⟩ | ⟨-, hj⟩
      · rfl
      · exact h.unique hjob hj hmine hkb
    · rcases hold hb with ⟨rfl, rfl⟩ | ⟨-, hj⟩
      · exact h.unique hi hjob hka hmine
      · exact h.unique hi hj hka hkb
  · intro i a ha hka
    rcases hold ha with ⟨rfl, rfl⟩ | ⟨-, ha⟩
    · exact hinv.trans (h.own hjob hmine)
    · exact h.own ha hka
  · intro i a ha hka
    rcases hold ha with ⟨rfl, rfl⟩ | ⟨-, ha⟩
    · exact absurd (hkey.trans hmine) hka
    · exact h.others ha hka
  · exact h.invoice
  · exact h.bound
  · exact fun hj => hgrows.names (h.river hj)
  · exact h.single
  · intro i s hm
    obtain ⟨a, ha⟩ := h.pollKeys hm
    obtain ⟨b, hb, -⟩ := hgrows.jobs ha
    exact ⟨b, hb⟩
  · exact h.markers

theorem Owned.createJob (h : k.Owned g) {id : Uuid} {job : Job} (hnew : k.jobs.get? id = none)
    (hnone : ∀ i a, k.jobs.get? i = some a → a.idempotencyKey ≠ g.idempotencyKey)
    (hinv : job.invoiceID = g.invoiceID) (hkey : job.idempotencyKey = g.idempotencyKey) :
    (k.writeJob id job).Owned g := by
  have hgrows : k.Grows (k.writeJob id job) := grows_createJob hnew
  have hmine : ∀ {i a}, (k.writeJob id job).jobs.get? i = some a →
      i = id ∧ a = job ∨ k.jobs.get? i = some a ∧ a.idempotencyKey ≠ g.idempotencyKey := by
    intro i a ha
    rw [writeJob_get?] at ha
    split at ha
    · rename_i hi
      exact .inl ⟨hi, (Option.some.inj ha).symm⟩
    · exact .inr ⟨ha, hnone i a ha⟩
  constructor
  · intro i j a b ha hb hka hkb
    rcases hmine ha with ⟨rfl, -⟩ | ⟨-, hne⟩
    · rcases hmine hb with ⟨rfl, -⟩ | ⟨-, hne⟩
      · rfl
      · exact absurd hkb hne
    · exact absurd hka hne
  · intro i a ha hka
    rcases hmine ha with ⟨rfl, rfl⟩ | ⟨-, hne⟩
    · exact hinv
    · exact absurd hka hne
  · intro i a ha hka
    rcases hmine ha with ⟨rfl, rfl⟩ | ⟨ha, -⟩
    · exact absurd hkey hka
    · exact h.others ha hka
  · exact h.invoice
  · exact h.bound
  · exact fun hj => hgrows.names (h.river hj)
  · exact h.single
  · intro i s hm
    obtain ⟨a, ha⟩ := h.pollKeys hm
    obtain ⟨b, hb, -⟩ := hgrows.jobs ha
    exact ⟨b, hb⟩
  · exact h.markers

theorem Owned.addMarker (h : k.Owned g) {n : ℕ} (hn : n < k.nextRiverID) :
    (k.addKey (markerKey n)).Owned g where
  unique := h.unique
  own := h.own
  others := h.others
  invoice := h.invoice
  bound := h.bound
  river := h.river
  single := h.single
  pollKeys hm := by
    rcases List.mem_append.mp hm with hm | hm
    · exact h.pollKeys hm
    · exact absurd (List.mem_singleton.mp hm).symm (markerKey_ne_pollKey _ _ _)
  markers hm := by
    rcases List.mem_append.mp hm with hm | hm
    · exact h.markers hm
    · rw [markerKey_inj (List.mem_singleton.mp hm)]
      exact hn

theorem Owned.writeInvoice (h : k.Owned g) (r : Row) : (k.writeInvoice g.invoiceID r).Owned g :=
  ⟨h.unique, h.own, h.others, ⟨r, Table.get?_set_self _ _ _⟩, h.bound, h.river, h.single,
    h.pollKeys, h.markers⟩

theorem Marks.owned (hk : k.Owned g) {id : Uuid} (hid : id = g.invoiceID) {target : Status}
    {outcome : Row → Row} {k' : Core} (h : k.Marks id target outcome k') :
    k.Grows k' ∧ k'.Owned g := by
  subst hid
  cases h with
  | already hrow hs => exact ⟨.refl k, hk⟩
  | moved hrow hlegal hout => exact ⟨grows_writeInvoice _ _ _, hk.writeInvoice _⟩

theorem Owned.addAudit (h : k.Owned g) (row : AuditRow) : (k.addAudit row).Owned g :=
  ⟨h.unique, h.own, h.others, h.invoice, h.bound, h.river, h.single, h.pollKeys, h.markers⟩

theorem Owned.writeRiver (h : k.Owned g) {river : Table ℕ RiverJob}
    (hargs : SameArgs k.river river) : (k.writeRiver river).Owned g where
  unique := h.unique
  own := h.own
  others := h.others
  invoice := h.invoice
  bound hj := by
    obtain ⟨j', hj', -⟩ := hargs.symm.row hj
    exact h.bound hj'
  river hj := by
    obtain ⟨j', hj', hsame⟩ := hargs.symm.row hj
    have hnames := h.river hj'
    rw [hsame] at hnames
    exact hnames
  single hi hj hsi hsj := by
    obtain ⟨i', hi', hsame⟩ := hargs.symm.row hi
    obtain ⟨j', hj', hsame'⟩ := hargs.symm.row hj
    exact h.single hi' hj' (hsame.trans hsi) (hsame'.trans hsj)
  pollKeys := h.pollKeys
  markers := h.markers

theorem Owned.enqueue (h : k.Owned g) {key : String} {id : Uuid} {s : ℕ} (hmine : k.IsJob g id)
    (hpoll : ∀ {i t}, key = pollKey i t → i = id) (hmark : ∀ {n}, markerKey n ≠ key) :
    (k.enqueue key (.poll ⟨g.invoiceID, id, s⟩)).Owned g := by
  unfold Core.enqueue
  split
  · exact h
  · obtain ⟨job, hrow, hkey⟩ := hmine
    have hnew : ∀ {n j}, (k.river.set k.nextRiverID
        { args := .poll ⟨g.invoiceID, id, s⟩ : RiverJob }).get? n = some j →
        n = k.nextRiverID ∧ j = { args := .poll ⟨g.invoiceID, id, s⟩ } ∨
          k.river.get? n = some j := by
      intro n j hj
      rw [Table.get?_set] at hj
      split at hj
      · rename_i hn
        exact .inl ⟨hn, (Option.some.inj hj).symm⟩
      · exact .inr hj
    refine ⟨h.unique, h.own, h.others, h.invoice, fun {n j} hj => ?_, fun {n j} hj => ?_,
      fun {m n i j} hi hj hsi hsj => ?_, fun {i t} hm => ?_, fun {n} hm => ?_⟩
    · rcases hnew hj with ⟨rfl, -⟩ | hj
      · exact Nat.lt_succ_self _
      · exact (h.bound hj).trans (Nat.lt_succ_self _)
    · rcases hnew hj with ⟨-, rfl⟩ | hj
      · exact ⟨rfl, job, hrow, hkey⟩
      · exact h.river hj
    · rcases hnew hi with ⟨-, rfl⟩ | hi
      · cases hsi
      · rcases hnew hj with ⟨-, rfl⟩ | hj
        · cases hsj
        · exact h.single hi hj hsi hsj
    · rcases List.mem_append.mp hm with hm | hm
      · exact h.pollKeys hm
      · rw [hpoll (List.mem_singleton.mp hm).symm]
        exact ⟨job, hrow⟩
    · rcases List.mem_append.mp hm with hm | hm
      · exact (h.markers hm).trans (Nat.lt_succ_self _)
      · exact absurd (List.mem_singleton.mp hm) hmark

theorem IsJob.key {id : Uuid} {job : Job} (h : k.IsJob g id) (hjob : k.jobs.get? id = some job) :
    job.idempotencyKey = g.idempotencyKey := by
  obtain ⟨a, ha, hkey⟩ := h
  obtain rfl : a = job := Option.some.inj (ha.symm.trans hjob)
  exact hkey

theorem Owned.isJob (h : k.Owned g) {id : Uuid} {job : Job} (hjob : k.jobs.get? id = some job)
    (hopen : isTerminalJobState job.state = false) : k.IsJob g id := by
  refine ⟨job, hjob, ?_⟩
  by_contra hkey
  rw [(h.others hjob hkey).1] at hopen
  cases hopen

theorem Carries.lt {c : Call} {args : RiverArgs} (h : k.Carries g c args) (hk : k.Owned g) :
    c.riverID < k.nextRiverID := by
  obtain ⟨j, hj, -⟩ := h.river
  exact hk.bound hj

theorem Minds.carries {t : Task} {c : Call} (h : k.Minds g t) (hc : t.call? = some c) :
    ∃ args, k.Carries g c args := by
  cases t with
  | ready c' number =>
    cases hc
    exact ⟨_, h⟩
  | sent c' number =>
    cases hc
    exact ⟨_, h⟩
  | polling c' s ref =>
    cases hc
    exact ⟨_, h⟩
  | _ => cases hc

end

end Core

/-! ### Every effect keeps them -/

section
variable {g : SubmitArgs} {st : Store} {t t' : Task} {a : Act} {k' : Core}

theorem marked_writeJob (hk : st.core.Owned g) {c : Call} {args : RiverArgs}
    (hc : st.core.Carries g c args) {job : Job} (hjob : st.jobs.get? c.jobID = some job)
    (job' : Job) (hkey : job'.idempotencyKey = job.idempotencyKey)
    (hinv : job'.invoiceID = job.invoiceID) :
    st.core.Grows ((st.core.addKey (markerKey c.riverID)).writeJob c.jobID job') ∧
      ((st.core.addKey (markerKey c.riverID)).writeJob c.jobID job').Owned g :=
  ⟨(Core.grows_addKey _ _).trans (Core.grows_writeJob hjob hkey hinv),
    (hk.addMarker (hc.lt hk)).writeJob hjob (hc.job.key hjob) hkey hinv⟩

theorem closure_owned (hk : st.core.Owned g) {c : Call} {args : RiverArgs}
    (hc : st.core.Carries g c args) {job job' : Job} (hjob : st.jobs.get? c.jobID = some job)
    {target : Status} {outcome : Row → Row}
    (hmarks : ((st.core.addKey (markerKey c.riverID)).writeJob c.jobID job').Marks c.invoiceID
      target outcome k')
    (hkey : job'.idempotencyKey = job.idempotencyKey) (hinv : job'.invoiceID = job.invoiceID) :
    st.core.Grows k' ∧ k'.Owned g := by
  obtain ⟨hgrows, hwritten⟩ := marked_writeJob hk hc hjob job' hkey hinv
  obtain ⟨hgrows', hmarked⟩ := hmarks.owned hwritten hc.invoiceID
  exact ⟨hgrows.trans hgrows', hmarked⟩

theorem enqueue_owned {k : Core} (hk : k.Owned g) {key : String} {id i : Uuid} {s : ℕ}
    (hid : i = g.invoiceID) (hjob : k.IsJob g id) (hpoll : ∀ {i t}, key = pollKey i t → i = id)
    (hmark : ∀ {n}, markerKey n ≠ key) :
    k.Grows (k.enqueue key (.poll ⟨i, id, s⟩)) ∧
      (k.enqueue key (.poll ⟨i, id, s⟩)).Owned g := by
  subst hid
  exact ⟨Core.grows_enqueue fun _ _ => hk.bound, hk.enqueue hjob hpoll hmark⟩

theorem pollKey_owner {i j : Uuid} {s t : ℕ} (h : pollKey i s = pollKey j t) : j = i :=
  (pollKey_inj h).1.symm

theorem effect_owned (hk : st.core.Owned g) (ht : st.core.Minds g t) (h : Effect st t a k' t') :
    st.core.Grows k' ∧ k'.Owned g ∧ k'.Minds g t' := by
  cases h with
  | stop => exact ⟨.refl _, hk, trivial⟩
  | @fetched n attempt j hrow hs =>
    have hargs := Core.sameArgs_set hrow .running
    have hgrows : st.core.Grows (st.core.writeRiver _) := Core.grows_river hargs
    exact ⟨hgrows, hk.writeRiver hargs, hgrows.holds ⟨j, hrow, rfl⟩, hgrows.names (hk.river hrow)⟩
  | @settled n j s hrow hlive hs =>
    have hargs := Core.sameArgs_set hrow s
    exact ⟨Core.grows_river hargs, hk.writeRiver hargs, trivial⟩
  | @created n attempt args u job hnone hens =>
    obtain rfl : args = g := ht.2
    cases hens with
    | found hjob hkey => exact absurd hkey (hnone _ _ hjob)
    | created _ hnew hinv hkey _ _ _ =>
      exact ⟨Core.grows_createJob hnew, hk.createJob hnew hnone hinv hkey, trivial⟩
  | @cleared n attempt args u id job hlocked hens hopen hcleared =>
    obtain rfl : args = g := ht.2
    cases hens with
    | found hjob hkey =>
      exact ⟨Core.grows_writeJob hjob rfl rfl, hk.writeJob hjob hkey rfl rfl, trivial⟩
    | created hnone hnew hinv hkey _ _ _ =>
      exact ⟨Core.grows_createJob hnew, hk.createJob hnew hnone hinv hkey, trivial⟩
  | @submitting n attempt args u id job number hlocked hens hopen hclear hallowed =>
    obtain rfl : args = g := ht.2
    have hown : st.core.Grows (st.core.writeJob id (job.withState .submitting)) ∧
        (st.core.writeJob id (job.withState .submitting)).Owned args ∧
          job.idempotencyKey = args.idempotencyKey := by
      cases hens with
      | found hjob hkey =>
        exact ⟨Core.grows_writeJob hjob rfl rfl, hk.writeJob hjob hkey rfl rfl, hkey⟩
      | created hnone hnew hinv hkey _ _ _ =>
        exact ⟨Core.grows_createJob hnew, hk.createJob hnew hnone hinv hkey, hkey⟩
    refine ⟨hown.1, hown.2.1, ⟨job.withState .submitting, ?_, hown.2.2⟩, rfl,
      hown.1.holds ht.1⟩
    exact Table.get?_set_self _ _ _
  | @polled n attempt args u job pollRef hjob hs =>
    refine ⟨.refl _, hk, ht.2.2, ht.2.1, ?_⟩
    have hholds := ht.1
    obtain ⟨i, id, s⟩ := args
    obtain rfl : i = g.invoiceID := ht.2.1
    exact hholds
  | sent => exact ⟨.refl _, hk, ht⟩
  | closed hcall hfresh hv ha hclose =>
    obtain ⟨args, hc⟩ := ht.carries hcall
    cases hclose with
    | intro hjob hmarks =>
      obtain ⟨hgrows, hmarked⟩ := closure_owned hk hc hjob hmarks rfl rfl
      exact ⟨hgrows.trans (Core.grows_addAudit _ _), hmarked.addAudit _, trivial⟩
  | sentPending hr hfresh hjob hmarks =>
    have hc : st.core.Carries g _ _ := ht
    obtain ⟨hgrows, hmarked⟩ := closure_owned hk hc hjob hmarks rfl rfl
    obtain ⟨hgrows', hqueued⟩ := enqueue_owned hmarked hc.invoiceID (hgrows.isJob hc.job)
      pollKey_owner (markerKey_ne_pollKey _ _ _)
    exact ⟨hgrows.trans hgrows', hqueued, trivial⟩
  | @pollPending c sequence pollRef r job ref pollAfter hr hfresh hjob =>
    have hc : st.core.Carries g _ _ := ht
    obtain ⟨hgrows, hwritten⟩ := marked_writeJob hk hc hjob
      (job.acknowledged (c.attempts + 1) ref pollAfter) rfl rfl
    obtain ⟨hgrows', hqueued⟩ := enqueue_owned hwritten hc.invoiceID (hgrows.isJob hc.job)
      pollKey_owner (markerKey_ne_pollKey _ _ _)
    exact ⟨hgrows.trans hgrows', hqueued, trivial⟩
  | retried hr hmid hjob =>
    have hc : st.core.Carries g _ _ := ht
    exact ⟨Core.grows_writeJob hjob rfl rfl, hk.writeJob hjob (hc.job.key hjob) rfl rfl, trivial⟩
  | pollRetried hr hmid hjob =>
    have hc : st.core.Carries g _ _ := ht
    exact ⟨Core.grows_writeJob hjob rfl rfl, hk.writeJob hjob (hc.job.key hjob) rfl rfl, trivial⟩
  | found hjob hs hpoll =>
    have hmine := hk.isJob hjob (by rw [hs]; rfl)
    exact ⟨.refl _, hk, hmine, hk.own hjob (hmine.key hjob)⟩
  | counted hjob => exact ⟨.refl _, hk, ht⟩
  | rearmed =>
    obtain ⟨hgrows, hqueued⟩ := enqueue_owned hk ht.2 ht.1
      (fun h => absurd h.symm (pollKey_ne_reconcilePollKey _ _ _ _))
      (markerKey_ne_reconcilePollKey _ _ _)
    exact ⟨hgrows, hqueued, trivial⟩
  | @cancelled id job r river hjob hs hrow hqueued hriver =>
    have hmine := hk.isJob hjob (by rw [hs]; rfl)
    have hinv := hk.own hjob (hmine.key hjob)
    have hargs : Core.SameArgs st.river river := by
      rcases hriver with rfl | ⟨n, rfl⟩
      · exact .refl _
      · exact Core.sameArgs_cancel st n
    have hwritten : (st.core.writeJob id (job.withState .cancelled)).Owned g :=
      hk.writeJob hjob (hmine.key hjob) rfl rfl
    have hgrows : st.core.Grows (st.core.writeJob id (job.withState .cancelled)) :=
      Core.grows_writeJob hjob rfl rfl
    rw [hinv]
    exact ⟨(hgrows.trans (Core.grows_writeInvoice _ _ _)).trans (Core.grows_river hargs),
      (hwritten.writeInvoice _).writeRiver hargs, trivial⟩

end

/-! ### Where a cycle begins -/

/-- One `SubmitArgs` River job for a queued invoice, before its first delivery: no job row yet,
or the one a re-drive put back to queued. -/
structure Begins (g : SubmitArgs) (st : Store) : Prop where
  owned : st.core.Owned g
  submits : ∀ {n j}, st.river.get? n = some j → j.args = .submit g
  unmarked : ∀ {n j}, st.river.get? n = some j → st.used (markerKey n) = false
  fresh : ∀ {id job}, st.jobs.get? id = some job → job.idempotencyKey = g.idempotencyKey →
    job.state = .queued ∧ job.pollRef = none
  hops : ∀ {id job s}, st.jobs.get? id = some job → job.idempotencyKey = g.idempotencyKey →
    st.used (pollKey id s) = false ∧ st.used (reconcilePollKey id s) = false
  invoice : ∀ {r}, st.db.invoices.get? g.invoiceID = some r →
    r.status = .queued ∧ r.irn = none ∧ r.failureKind = none
  audit : st.audit = []

def start (st : Store) : World Store Task := { store := st }

def Task.riverID? : Task → Option ℕ
  | .idle => none
  | .fetched n _ _ => some n
  | .ready c _ => some c.riverID
  | .sent c _ => some c.riverID
  | .polling c _ _ => some c.riverID
  | .lost _ _ => none
  | .rearming _ _ _ => none

/-! ### A first cycle -/

def sampleArgs : SubmitArgs := ⟨40, deriveBatchSubmitKey "batch-1" 40⟩

def sampleStore : Store where
  db := {
    directory := { isFirm := false, members := [], roles := [] }
    invoices := (∅ : Table Uuid Row).set 40
      { entityID := 5, status := .queued, header := { invoiceNumber := "INV-1" }, history := [] }
    outboxKeys := [sampleArgs.idempotencyKey] }
  river := (∅ : Table ℕ RiverJob).set 1 { args := .submit sampleArgs }
  nextRiverID := 2

theorem sampleStore_used {key : String} (h : sampleArgs.idempotencyKey ≠ key) :
    sampleStore.used key = false := by
  rw [Bool.eq_false_iff, ne_eq, Store.used_iff]
  exact fun hm => h (List.mem_singleton.mp hm).symm

theorem sampleStore_river {n : ℕ} {j : RiverJob} (h : sampleStore.river.get? n = some j) :
    n = 1 ∧ j = { args := .submit sampleArgs } := by
  have hset : ((∅ : Table ℕ RiverJob).set 1 { args := .submit sampleArgs }).get? n = some j := h
  rw [Table.get?_set] at hset
  split at hset
  · rename_i hn
    exact ⟨hn, (Option.some.inj hset).symm⟩
  · rw [Table.get?_empty] at hset
    cases hset

theorem sampleStore_jobs (i : Uuid) : sampleStore.jobs.get? i = none := Table.get?_empty i

theorem sampleStore_invoice {r : Row} (h : sampleStore.db.invoices.get? 40 = some r) :
    r = { entityID := 5, status := .queued, header := { invoiceNumber := "INV-1" }, history := [] } :=
  (Option.some.inj ((Table.get?_set_self _ _ _).symm.trans h)).symm

theorem sampleStore_begins : Begins sampleArgs sampleStore where
  owned := {
    unique := fun {i j a b} ha _ _ _ => absurd ((sampleStore_jobs i).symm.trans ha) nofun
    own := fun {i a} ha _ => absurd ((sampleStore_jobs i).symm.trans ha) nofun
    others := fun {i a} ha _ => absurd ((sampleStore_jobs i).symm.trans ha) nofun
    invoice := ⟨_, Table.get?_set_self _ _ _⟩
    bound := fun hj => by
      obtain ⟨rfl, -⟩ := sampleStore_river hj
      decide
    river := fun hj => by
      obtain ⟨-, rfl⟩ := sampleStore_river hj
      rfl
    single := fun hi hj _ _ => (sampleStore_river hi).1.trans (sampleStore_river hj).1.symm
    pollKeys := fun hm =>
      absurd (List.mem_singleton.mp hm).symm (requestKey_ne_pollKey _ _ _ _)
    markers := fun hm =>
      absurd (List.mem_singleton.mp hm).symm (requestKey_ne_markerKey _ _ _) }
  submits hj := by
    obtain ⟨-, rfl⟩ := sampleStore_river hj
    rfl
  unmarked _ := sampleStore_used (requestKey_ne_markerKey _ _ _)
  fresh {id job} hjob _ := absurd ((sampleStore_jobs id).symm.trans hjob) nofun
  hops {id job s} hjob _ := absurd ((sampleStore_jobs id).symm.trans hjob) nofun
  invoice hr := by
    rw [sampleStore_invoice hr]
    exact ⟨rfl, rfl, rfl⟩
  audit := rfl

def acknowledgedAttempt : List (ℕ × Act) :=
  [(0, .fetch 1 1), (0, .tx1 ⟨7, 0, true⟩), (0, .submit), (0, .reply ⟨.pending "ticket" 60, true⟩)]

end InvoiceOs.Submission
