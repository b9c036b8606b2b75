import InvoiceOs.Db
import InvoiceOs.Approval.CatchAll

/-! Arming, cancelling and the transmit gate over the workspace's tables, and the publish
with its sweep of the validated backlog. -/

namespace InvoiceOs.Approval

open Lib

def creatorRoleIDs (d : Directory) (r : Invoice.Row) : List Uuid :=
  r.history.flatMap fun c =>
    if c.fromStatus.isNone then
      match c.actor with
      | .user id => d.roleIDsOf id
      | .system => []
      | .revalidateRuleSet => []
      | .support => []
    else []

def armFacts (d : Directory) (r : Invoice.Row) : ArmFacts where
  total := r.header.total
  documentType := r.documentType
  entityID := r.entityID
  currency := r.header.currency
  creatorRoles := creatorRoleIDs d r

/-- `ArmTx` after its read of the versions in force. The partial unique index allows one
open run an invoice. -/
def armTx (db : Db) (versions : List InForceVersion) (id runID : Uuid) (fingerprint : String)
    (now : ℕ) : Except Err Db := do
  let r ← db.getInvoice id
  match armRun versions (readPolicyTree db.policies) (armFacts db.directory r) id fingerprint now with
  | none => return db
  | some run =>
    if run.state = .open ∧ db.hasOpenRun id then
      throw .uniqueViolation
    if (db.runs.get? runID).isSome then
      throw .uniqueViolation
    return db.setRun runID run

def cancelLiveRunTx (db : Db) (id : Uuid) (actor : Subject) : Db :=
  { db with runs := db.runs.mapRows fun _ r => cancelLive id actor r }

/-- Some version is active, deleted policies included. -/
def policyActive (db : Db) : Bool :=
  db.policies.rows.any fun p => p.2.versions.any Version.isActive

def transmitClear (policyActive approvedRun : Bool) : Bool := !policyActive || approvedRun

def transmitClearTx (db : Db) (id : Uuid) : Bool :=
  if policyActive db then
    (db.invoices.get? id).isSome && transmitClear true (db.hasApprovedRun id)
  else transmitClear false false

def sweepCap : ℕ := 5000

/-- The rows of the sweep's SELECT: validated, no live run, by id. -/
def validatedBacklog (db : Db) : List Uuid :=
  ((db.invoices.rows.filter fun e => e.2.status == .validated && !db.hasLiveRun e.1).map
    Prod.fst).insertionSort fun a b => a.toNat ≤ b.toNat

def sweepCandidates (db : Db) : List Uuid := (validatedBacklog db).take (sweepCap + 1)

section
variable (sha256 : String → String)

def sweepOne (runIDs : Uuid → Uuid) (now : ℕ) (db : Db) (id : Uuid) : Except Err Db := do
  let r ← db.getInvoice id
  armTx db db.readInForce id (runIDs id) (r.fingerprint sha256) now

/-- The arms of the locked candidates; one past the cap refuses the publish whole. -/
def sweepLocked (runIDs : Uuid → Uuid) (now : ℕ) (db : Db) (ids : List Uuid) : Except Err Db :=
  if ids.length > sweepCap then throw .sweepCapExceeded
  else ids.foldlM (sweepOne sha256 runIDs now) db

def publishPolicy (db : Db) (caller id : Uuid) (runIDs : Uuid → Uuid) (now : ℕ) :
    Except Err Db := do
  let ps ← publishVersion db.directory db.policies caller id
  let db' := { db with policies := ps }
  sweepLocked sha256 runIDs now db' (sweepCandidates db')

end

/-! ### What an arm and a cancellation do -/

theorem armTx_spec {db db' : Db} {versions : List InForceVersion} {id runID : Uuid} {fp : String}
    {now : ℕ} (h : armTx db versions id runID fp now = .ok db') :
    ∃ r, db.invoices.get? id = some r ∧
      ((firstMatch (armFacts db.directory r).doc versions = none ∧ db' = db) ∨
        ∃ run, armRun versions (readPolicyTree db.policies) (armFacts db.directory r) id fp now =
            some run ∧
          ¬ (run.state = .open ∧ db.hasOpenRun id = true) ∧ db.runs.get? runID = none ∧
          db' = db.setRun runID run) := by
  simp only [armTx, bind_eq_ok] at h
  obtain ⟨r, hr, h⟩ := h
  refine ⟨r, Db.getInvoice_eq_ok.mp hr, ?_⟩
  split at h
  · rename_i hnone
    cases h
    refine .inl ⟨?_, rfl⟩
    unfold armRun at hnone
    split at hnone
    · assumption
    · cases hnone
  · rename_i run hrun
    simp only [refuse_eq_ok, pure_eq_ok] at h
    obtain ⟨hopen, hid, rfl⟩ := h
    exact .inr ⟨run, hrun, hopen, by simpa using hid, rfl⟩

section
variable {db db' : Db} {versions : List InForceVersion} {id runID : Uuid} {fp : String} {now : ℕ}

theorem armTx_invoices (h : armTx db versions id runID fp now = .ok db') :
    db'.invoices = db.invoices := by
  obtain ⟨r, -, ⟨-, rfl⟩ | ⟨run, -, -, -, rfl⟩⟩ := armTx_spec h
  · rfl
  · rfl

theorem armTx_sameRules (h : armTx db versions id runID fp now = .ok db') : db.SameRules db' := by
  obtain ⟨r, -, ⟨-, rfl⟩ | ⟨run, -, -, -, rfl⟩⟩ := armTx_spec h
  · exact .refl _
  · exact ⟨rfl, rfl⟩

theorem hasLiveRun_mono {i : Uuid} (h : ∀ k run, db.runs.get? k = some run → run.invoiceID = i →
      run.live = true → ∃ run', db'.runs.get? k = some run' ∧ run'.invoiceID = i ∧
        run'.live = true) (hlive : db.hasLiveRun i = true) : db'.hasLiveRun i = true := by
  obtain ⟨k, run, hk, hi, hl⟩ := Db.hasLiveRun_iff.mp hlive
  obtain ⟨run', hk', hi', hl'⟩ := h k run hk hi hl
  exact Db.hasLiveRun_iff.mpr ⟨k, run', hk', hi', hl'⟩

theorem armTx_live_mono {i : Uuid} (h : armTx db versions id runID fp now = .ok db')
    (hlive : db.hasLiveRun i = true) : db'.hasLiveRun i = true := by
  refine hasLiveRun_mono (fun k run hk hinv hl => ?_) hlive
  obtain ⟨r, -, ⟨-, rfl⟩ | ⟨run', -, -, hnew, rfl⟩⟩ := armTx_spec h
  · exact ⟨run, hk, hinv, hl⟩
  · refine ⟨run, ?_, hinv, hl⟩
    rw [Db.setRun_runs, Table.get?_set_of_ne _ _, hk]
    rintro rfl
    rw [hnew] at hk
    cases hk

theorem armTx_live (h : armTx db versions id runID fp now = .ok db')
    (hmatch : ∀ doc, (firstMatch doc versions).isSome) : db'.hasLiveRun id = true := by
  obtain ⟨r, -, ⟨hnone, -⟩ | ⟨run, hrun, -, -, rfl⟩⟩ := armTx_spec h
  · have hsome := hmatch (armFacts db.directory r).doc
    rw [hnone] at hsome
    cases hsome
  · obtain ⟨hinv, -, hl, -⟩ := armRun_eq_some hrun
    exact Db.hasLiveRun_iff.mpr ⟨runID, run, Table.get?_set_self _ _ _, hinv, hl⟩

theorem hasLiveRun_setRun {run : Run} {i : Uuid} (hnew : db.runs.get? runID = none)
    (hi : run.invoiceID ≠ i) : (db.setRun runID run).hasLiveRun i = db.hasLiveRun i := by
  rw [Bool.eq_iff_iff, Db.hasLiveRun_iff, Db.hasLiveRun_iff]
  constructor
  · rintro ⟨k, q, hq, rfl, hl⟩
    have hk : k ≠ runID := by
      rintro rfl
      rw [Db.setRun_runs, Table.get?_set_self] at hq
      cases hq
      exact hi rfl
    exact ⟨k, q, (Table.get?_set_of_ne _ _ hk).symm.trans hq, rfl, hl⟩
  · rintro ⟨k, q, hq, rfl, hl⟩
    have hk : k ≠ runID := by
      rintro rfl
      rw [hnew] at hq
      cases hq
    exact ⟨k, q, (Table.get?_set_of_ne _ _ hk).trans hq, rfl, hl⟩

theorem armTx_hasLiveRun {i : Uuid} (h : armTx db versions id runID fp now = .ok db')
    (hi : i ≠ id) : db'.hasLiveRun i = db.hasLiveRun i := by
  obtain ⟨r, -, ⟨-, rfl⟩ | ⟨run, hrun, -, hnew, rfl⟩⟩ := armTx_spec h
  · rfl
  · obtain ⟨hid, -⟩ := armRun_eq_some hrun
    exact hasLiveRun_setRun hnew (by rw [hid]; exact hi.symm)

end

theorem sweep_frame {sha256 : String → String} {runIDs : Uuid → Uuid} {now : ℕ} {ids : List Uuid}
    {db db' : Db} (h : ids.foldlM (sweepOne sha256 runIDs now) db = .ok db') :
    db'.invoices = db.invoices ∧ db.SameRules db' := by
  induction ids generalizing db with
  | nil =>
    cases h
    exact ⟨rfl, .refl _⟩
  | cons id ids ih =>
    simp only [List.foldlM_cons, bind_eq_ok] at h
    obtain ⟨mid, hone, hrest⟩ := h
    simp only [sweepOne, bind_eq_ok] at hone
    obtain ⟨r, -, harm⟩ := hone
    obtain ⟨hi, hrules⟩ := ih hrest
    have hmid := armTx_sameRules harm
    refine ⟨hi.trans (armTx_invoices harm), ⟨?_, ?_⟩⟩
    · rw [hrules.policies, hmid.policies]
    · rw [hrules.revisions, hmid.revisions]

theorem sweep_live {sha256 : String → String} {runIDs : Uuid → Uuid} {now : ℕ} {ids : List Uuid}
    {db db' : Db} (h : ids.foldlM (sweepOne sha256 runIDs now) db = .ok db') {i : Uuid}
    (hi : db.hasLiveRun i = true ∨
      (i ∈ ids ∧ ∀ doc, (firstMatch doc (readInForceVersionsTx db.policies)).isSome)) :
    db'.hasLiveRun i = true := by
  induction ids generalizing db with
  | nil =>
    cases h
    exact hi.elim id fun hmem => nomatch hmem.1
  | cons id ids ih =>
    simp only [List.foldlM_cons, bind_eq_ok] at h
    obtain ⟨mid, hone, hrest⟩ := h
    simp only [sweepOne, bind_eq_ok] at hone
    obtain ⟨r, -, harm⟩ := hone
    refine ih hrest ?_
    rcases hi with hlive | ⟨hmem, hmatch⟩
    · exact .inl (armTx_live_mono harm hlive)
    · rcases List.mem_cons.mp hmem with rfl | hmem
      · exact .inl (armTx_live harm hmatch)
      · rw [(armTx_sameRules harm).policies]
        exact .inr ⟨hmem, hmatch⟩

theorem validatedBacklog_nodup (db : Db) : (validatedBacklog db).Nodup := by
  have hsub : ((db.invoices.rows.filter fun e => e.2.status == .validated &&
      !db.hasLiveRun e.1).map Prod.fst).Sublist (db.invoices.rows.map Prod.fst) :=
    List.filter_sublist.map _
  exact (List.perm_insertionSort _ _).nodup_iff.mpr (hsub.nodup (Table.keys_nodup _))

theorem mem_validatedBacklog {db : Db} {i : Uuid} : i ∈ validatedBacklog db ↔
    ∃ r, db.invoices.get? i = some r ∧ r.status = .validated ∧ db.hasLiveRun i = false := by
  rw [validatedBacklog, (List.perm_insertionSort _ _).mem_iff]
  simp only [List.mem_map, List.mem_filter, Bool.and_eq_true, beq_iff_eq, Bool.not_eq_true',
    Prod.exists, exists_and_right, exists_eq_right, Table.mem_rows]

theorem sweepCandidates_nodup (db : Db) : (sweepCandidates db).Nodup :=
  (List.take_sublist _ _).nodup (validatedBacklog_nodup db)

theorem mem_sweepCandidates {db : Db} {i : Uuid} (h : i ∈ sweepCandidates db) :
    ∃ r, db.invoices.get? i = some r ∧ r.status = .validated ∧ db.hasLiveRun i = false :=
  mem_validatedBacklog.mp (List.mem_of_mem_take h)

@[simp] theorem cancelLiveRunTx_invoices (db : Db) (id : Uuid) (a : Subject) :
    (cancelLiveRunTx db id a).invoices = db.invoices := rfl

@[simp] theorem cancelLiveRunTx_policies (db : Db) (id : Uuid) (a : Subject) :
    (cancelLiveRunTx db id a).policies = db.policies := rfl

@[simp] theorem cancelLiveRunTx_revisions (db : Db) (id : Uuid) (a : Subject) :
    (cancelLiveRunTx db id a).revisions = db.revisions := rfl

theorem get?_cancelLiveRunTx (db : Db) (id k : Uuid) (a : Subject) :
    (cancelLiveRunTx db id a).runs.get? k = (db.runs.get? k).map (cancelLive id a) :=
  Table.get?_mapRows _ _ _

theorem live_cancelLiveRunTx {db : Db} {id k : Uuid} {a : Subject} {r : Run}
    (h : (cancelLiveRunTx db id a).runs.get? k = some r) (hl : r.live = true) :
    db.runs.get? k = some r ∧ r.invoiceID ≠ id := by
  rw [get?_cancelLiveRunTx] at h
  obtain ⟨q, hq, rfl⟩ := Option.map_eq_some_iff.mp h
  obtain ⟨-, hne⟩ := cancelLive_live hl
  rw [cancelLive_of_ne hne]
  exact ⟨hq, hne⟩

end InvoiceOs.Approval
