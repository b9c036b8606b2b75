import InvoiceOs.Invoice.Store

/-! The batch submission: eligibility is read once for every distinct invoice, then each
position of the list is enqueued or skipped with its reason. -/

namespace InvoiceOs.Invoice

open Lib Approval CustomRule

def batchSubmitReasonNotValidated : String := "not_validated"
def batchSubmitReasonDuplicate : String := "duplicate_request"
def batchSubmitReasonAwaitingApproval : String := "awaiting_approval"
def batchSubmitReasonRuleChange : String := "rule_change_pending"

structure BatchSubmitResultItem where
  invoiceID : Uuid
  enqueued : Bool
  status : Status
  reason : Option String := none
  deriving DecidableEq

def deriveBatchSubmitKey (requestKey : String) (invoiceID : Uuid) : String :=
  requestKey ++ ":" ++ invoiceID.text

/-- `EnqueueTx`: a key used before inserts neither the key nor the job. -/
def enqueueTx (db : Db) (key : String) (job : SubmitArgs) : Option Db :=
  if db.outboxKeys.contains key then none
  else some { db with
    outboxKeys := db.outboxKeys ++ [key]
    submitJobs := db.submitJobs ++ [job] }

structure Eligibility where
  status : Status
  rulePending : Bool
  clear : Bool

def skipReason (e : Eligibility) : Option String :=
  if e.status ≠ .validated then some batchSubmitReasonNotValidated
  else if e.rulePending then some batchSubmitReasonRuleChange
  else if !e.clear then some batchSubmitReasonAwaitingApproval
  else none

def submitPosition (caller : Uuid) (requestKey : String) (e : Eligibility) (db : Db) (id : Uuid) :
    Except Err (Db × BatchSubmitResultItem) :=
  match skipReason e with
  | some reason => pure (db, ⟨id, false, e.status, some reason⟩)
  | none =>
    let key := deriveBatchSubmitKey requestKey id
    match enqueueTx db key { invoiceID := id, idempotencyKey := key } with
    | none => pure (db, ⟨id, false, .queued, some batchSubmitReasonDuplicate⟩)
    | some db' => do
      let r ← db'.getInvoice id
      let r' ← r.transition .queued (.user caller)
      return (db'.setInvoice id r', ⟨id, true, .queued, none⟩)

def submitPositions (caller : Uuid) (requestKey : String) (eligible : Uuid → Eligibility) :
    Db → List Uuid → Except Err (Db × List BatchSubmitResultItem)
  | db, [] => pure (db, [])
  | db, id :: ids => do
    let (db', item) ← submitPosition caller requestKey (eligible id) db id
    let (db'', items) ← submitPositions caller requestKey eligible db' ids
    return (db'', item :: items)

/-- An unknown invoice refuses the whole request. -/
def lockAll (db : Db) : List Uuid → Except Err Unit
  | [] => pure ()
  | id :: ids => do
    let _ ← db.getInvoice id
    lockAll db ids

def statusOf (db : Db) (id : Uuid) : Status :=
  match db.invoices.get? id with
  | some r => r.status
  | none => .draft

def rulePendingFor (db : Db) (id : Uuid) : Bool :=
  match db.invoices.get? id with
  | some r => rulesPendingFor db.revisions r.entityID
  | none => false

def batchSubmit (db : Db) (caller : Uuid) (requestKey : String) (ids : List Uuid) :
    Except Err (Db × List BatchSubmitResultItem) := do
  lockAll db ids
  submitPositions caller requestKey
    (fun id => ⟨statusOf db id, rulePendingFor db id, transmitClearTx db id⟩) db ids

theorem submitPosition_spec {db db' : Db} {caller id : Uuid} {requestKey : String}
    {e : Eligibility} {item : BatchSubmitResultItem}
    (h : submitPosition caller requestKey e db id = .ok (db', item)) :
    db'.runs = db.runs ∧ db.SameRules db' ∧ (db'.invoices = db.invoices ∨
      ∃ r, db.invoices.get? id = some r ∧ skipReason e = none ∧
        canTransition r.status .queued = true ∧
        db'.invoices = db.invoices.set id (r.applyTransition .queued (.user caller) {})) := by
  unfold submitPosition at h
  split at h
  · cases h
    exact ⟨rfl, .refl db, .inl rfl⟩
  · rename_i hskip
    dsimp only at h
    split at h
    · cases h
      exact ⟨rfl, .refl db, .inl rfl⟩
    · rename_i dbq hq
      simp only [enqueueTx] at hq
      split at hq
      · cases hq
      · cases hq
        simp only [bind_eq_ok, pure_eq_ok, Row.transition_eq_ok, Prod.mk.injEq] at h
        obtain ⟨r, hr, r', ⟨hlegal, rfl⟩, rfl, -⟩ := h
        have hrow : db.invoices.get? id = some r := Db.getInvoice_eq_ok.mp hr
        exact ⟨rfl, ⟨rfl, rfl⟩, .inr ⟨r, hrow, hskip, hlegal, rfl⟩⟩

theorem submitPositions_runs {db db' : Db} {caller : Uuid} {requestKey : String}
    {eligible : Uuid → Eligibility} {ids : List Uuid} {items : List BatchSubmitResultItem}
    (h : submitPositions caller requestKey eligible db ids = .ok (db', items)) :
    db'.runs = db.runs := by
  induction ids generalizing db items with
  | nil =>
    cases h
    rfl
  | cons id ids ih =>
    simp only [submitPositions, bind_eq_ok, pure_eq_ok, Prod.mk.injEq] at h
    obtain ⟨⟨mid, item⟩, hone, ⟨last, rest⟩, hrest, rfl, -⟩ := h
    rw [ih hrest, (submitPosition_spec hone).1]

theorem submitPositions_queued {db db' : Db} {caller : Uuid} {requestKey : String}
    {eligible : Uuid → Eligibility} {ids : List Uuid} {items : List BatchSubmitResultItem}
    (h : submitPositions caller requestKey eligible db ids = .ok (db', items)) {i : Uuid}
    (hbefore : ∀ r, db.invoices.get? i = some r → r.status ≠ .queued) {r' : Row}
    (hr' : db'.invoices.get? i = some r') (hs' : r'.status = .queued) :
    skipReason (eligible i) = none := by
  induction ids generalizing db items with
  | nil =>
    cases h
    exact absurd hs' (hbefore r' hr')
  | cons id ids ih =>
    simp only [submitPositions, bind_eq_ok, pure_eq_ok, Prod.mk.injEq] at h
    obtain ⟨⟨mid, item⟩, hone, ⟨last, rest⟩, hrest, rfl, -⟩ := h
    obtain ⟨-, -, hi | ⟨r, hr, hskip, hlegal, hi⟩⟩ := submitPosition_spec hone
    · exact ih hrest (by rwa [hi])
    · by_cases hid : i = id
      · rw [hid]
        exact hskip
      · refine ih hrest ?_
        rw [hi, Table.get?_set_of_ne _ _ hid]
        exact hbefore

theorem submitPosition_item {db db' : Db} {caller id : Uuid} {requestKey : String}
    {e : Eligibility} {item : BatchSubmitResultItem}
    (h : submitPosition caller requestKey e db id = .ok (db', item)) :
    item.invoiceID = id ∧ (item.enqueued = true → skipReason e = none) := by
  unfold submitPosition at h
  split at h
  · cases h
    exact ⟨rfl, nofun⟩
  · rename_i hskip
    dsimp only at h
    split at h
    · cases h
      exact ⟨rfl, fun _ => hskip⟩
    · simp only [bind_eq_ok, pure_eq_ok, Prod.mk.injEq] at h
      obtain ⟨r, -, r', -, -, rfl⟩ := h
      exact ⟨rfl, fun _ => hskip⟩

theorem submitPositions_items {db db' : Db} {caller : Uuid} {requestKey : String}
    {eligible : Uuid → Eligibility} {ids : List Uuid} {items : List BatchSubmitResultItem}
    (h : submitPositions caller requestKey eligible db ids = .ok (db', items)) :
    ∀ item ∈ items, item.invoiceID ∈ ids ∧
      (item.enqueued = true → skipReason (eligible item.invoiceID) = none) := by
  induction ids generalizing db items with
  | nil =>
    cases h
    exact fun item hitem => (nomatch hitem)
  | cons id ids ih =>
    simp only [submitPositions, bind_eq_ok, pure_eq_ok, Prod.mk.injEq] at h
    obtain ⟨⟨mid, first⟩, hone, ⟨last, rest⟩, hrest, rfl, rfl⟩ := h
    intro item hitem
    rcases List.mem_cons.mp hitem with rfl | hitem
    · obtain ⟨hid, hskip⟩ := submitPosition_item hone
      rw [hid]
      exact ⟨List.mem_cons_self, hskip⟩
    · obtain ⟨hmem, hskip⟩ := ih hrest item hitem
      exact ⟨List.mem_cons_of_mem _ hmem, hskip⟩

theorem skipReason_eq_none {e : Eligibility} :
    skipReason e = none ↔ e.status = .validated ∧ e.rulePending = false ∧ e.clear = true := by
  cases hs : e.status <;> cases hp : e.rulePending <;> cases hc : e.clear <;>
    simp [skipReason, hs, hp, hc]

end InvoiceOs.Invoice
