import InvoiceOs.Invoice.Request
import InvoiceOs.Lib.Run
import InvoiceOs.Submission.Keys

/-! What a batch submission reports of each position of its list, against the rows and jobs it
leaves. -/

namespace InvoiceOs.Invoice

open Lib Approval CustomRule

/-- The ids as the caller spells them. -/
structure BatchSubmitInput where
  invoiceIDs : List String
  idempotencyKey : String

/-- The maps the lock loop fills: the caller's spelling to the locked row's id, the rest by
that id. -/
structure Resolved where
  canonical : Table String Uuid := ∅
  statuses : Table Uuid Status := ∅
  entities : Table Uuid Uuid := ∅
  distinct : List Uuid := []

def Resolved.add (res : Resolved) (raw : String) (lockedID : Uuid) (r : Row) : Resolved where
  canonical := res.canonical.set raw lockedID
  statuses := res.statuses.set lockedID r.status
  entities := res.entities.set lockedID r.entityID
  distinct := res.distinct ++ [lockedID]

namespace Submitter

section
-- the column type's input function: any spelling of a uuid to its value
variable (uuidIn : String → Option Uuid)

/-- The `seen` guard is on the raw text, so a second spelling is read again. -/
def lockPositions (db : Db) : Resolved → List String → Except Err Resolved
  | res, [] => pure res
  | res, raw :: raws =>
    if (res.canonical.get? raw).isSome then lockPositions db res raws
    else
      match uuidIn raw with
      | none => throw .validation
      | some id => do
        let r ← db.getInvoice id
        lockPositions db (res.add raw id r) raws

/-- The approval and custom-rule reads stand behind every row lock and before every write. -/
def eligibility (db : Db) (res : Resolved) (id : Uuid) : Eligibility where
  status := (res.statuses.get? id).getD .draft
  rulePending := rulesPendingFor db.revisions ((res.entities.get? id).getD 0)
  clear := decide (id ∈ res.distinct) && transmitClearTx db id

def batchSubmit (db : Db) (caller : Uuid) (input : BatchSubmitInput) :
    Except Err (Db × List BatchSubmitResultItem) := do
  let res ← lockPositions uuidIn db {} input.invoiceIDs
  submitPositions caller input.idempotencyKey (eligibility db res) db
    (input.invoiceIDs.map fun raw => (res.canonical.get? raw).getD 0)

end

/-! ### Locking -/

section
variable {uuidIn : String → Option Uuid} {db : Db} {res res' : Resolved}

structure Reads (uuidIn : String → Option Uuid) (db : Db) (res : Resolved) : Prop where
  spelled : ∀ raw id, res.canonical.get? raw = some id → uuidIn raw = some id ∧ id ∈ res.distinct
  row : ∀ id ∈ res.distinct, ∃ r, db.invoices.get? id = some r ∧
    res.statuses.get? id = some r.status ∧ res.entities.get? id = some r.entityID

theorem Reads.empty : Reads uuidIn db {} where
  spelled raw id h := by
    rw [Table.get?_empty] at h
    cases h
  row id h := by cases h

theorem Reads.add (h : Reads uuidIn db res) {raw : String} {id : Uuid} {r : Row}
    (hraw : uuidIn raw = some id) (hr : db.invoices.get? id = some r) :
    Reads uuidIn db (res.add raw id r) := by
  refine ⟨fun raw' id' hget => ?_, fun id' hid' => ?_⟩
  · rw [Resolved.add, Table.get?_set] at hget
    split at hget
    · rename_i hsame
      cases hget
      exact ⟨hsame ▸ hraw, List.mem_append_right _ List.mem_cons_self⟩
    · obtain ⟨hspelled, hmem⟩ := h.spelled raw' id' hget
      exact ⟨hspelled, List.mem_append_left _ hmem⟩
  · simp only [Resolved.add, Table.get?_set]
    by_cases hsame : id' = id
    · rw [hsame, if_pos rfl, if_pos rfl]
      exact ⟨r, hr, rfl, rfl⟩
    · rw [if_neg hsame, if_neg hsame]
      have hold : id' ∈ res.distinct := by
        rcases List.mem_append.mp hid' with hold | hnew
        · exact hold
        · exact absurd (List.mem_singleton.mp hnew) hsame
      exact h.row id' hold

theorem lockPositions_eq_ok {raws : List String} (h : lockPositions uuidIn db res raws = .ok res')
    (hreads : Reads uuidIn db res) :
    Reads uuidIn db res' ∧
      (∀ raw, (res.canonical.get? raw).isSome → res'.canonical.get? raw = res.canonical.get? raw) ∧
      ∀ raw ∈ raws, (res'.canonical.get? raw).isSome := by
  induction raws generalizing res with
  | nil =>
    cases h
    exact ⟨hreads, fun raw _ => rfl, fun raw hraw => by cases hraw⟩
  | cons raw raws ih =>
    unfold lockPositions at h
    split at h
    · rename_i hseen
      obtain ⟨hreads', hkept, hall⟩ := ih h hreads
      refine ⟨hreads', hkept, fun raw' hraw' => ?_⟩
      obtain rfl | hraw' := List.mem_cons.mp hraw'
      · rw [hkept _ hseen]
        exact hseen
      · exact hall raw' hraw'
    · rename_i hseen
      split at h
      · simp only [throw_ne_ok] at h
      · rename_i id hid
        simp only [bind_eq_ok] at h
        obtain ⟨r, hr, h⟩ := h
        have hrow : db.invoices.get? id = some r := Db.getInvoice_eq_ok.mp hr
        have hnew : (res.add raw id r).canonical.get? raw = some id := Table.get?_set_self _ _ _
        obtain ⟨hreads', hkept, hall⟩ := ih h (hreads.add hid hrow)
        refine ⟨hreads', fun raw' hraw' => ?_, fun raw' hraw' => ?_⟩
        · have hne : raw' ≠ raw := fun heq => hseen (heq ▸ hraw')
          have hold : (res.add raw id r).canonical.get? raw' = res.canonical.get? raw' :=
            Table.get?_set_of_ne _ _ hne
          rw [hkept raw' (by rw [hold]; exact hraw'), hold]
        · obtain rfl | hraw' := List.mem_cons.mp hraw'
          · rw [hkept _ (by rw [hnew]; rfl), hnew]
            rfl
          · exact hall raw' hraw'

end
/-! ### The positions -/

def enqueuedIDs (items : List BatchSubmitResultItem) : List Uuid :=
  (items.filter BatchSubmitResultItem.enqueued).map BatchSubmitResultItem.invoiceID

section
variable {caller : Uuid} {requestKey : String} {eligible : Uuid → Eligibility}

inductive Reported (requestKey : String) (eligible : Uuid → Eligibility) (keys : List String)
    (moved : List Uuid) (item : BatchSubmitResultItem) : Prop where
  | enqueued (hon : item.enqueued = true) (hskip : skipReason (eligible item.invoiceID) = none)
      (hstatus : item.status = .queued)
  | skipped (hoff : item.enqueued = false)
      (hskip : (skipReason (eligible item.invoiceID)).isSome)
      (hstatus : item.status = (eligible item.invoiceID).status)
  | duplicate (hoff : item.enqueued = false)
      (hskip : skipReason (eligible item.invoiceID) = none) (hstatus : item.status = .queued)
      (hkey : deriveBatchSubmitKey requestKey item.invoiceID ∈ keys ∨ item.invoiceID ∈ moved)

structure Written (caller : Uuid) (requestKey : String) (eligible : Uuid → Eligibility)
    (db : Db) (ids : List Uuid) (db' : Db) (items : List BatchSubmitResultItem) : Prop where
  position : items.map BatchSubmitResultItem.invoiceID = ids
  keys : db'.outboxKeys = db.outboxKeys ++
    (enqueuedIDs items).map (deriveBatchSubmitKey requestKey)
  jobs : db'.submitJobs = db.submitJobs ++
    (enqueuedIDs items).map fun id => ⟨id, deriveBatchSubmitKey requestKey id⟩
  once : (enqueuedIDs items).Nodup
  fresh : ∀ id ∈ enqueuedIDs items, deriveBatchSubmitKey requestKey id ∉ db.outboxKeys
  moved : ∀ id ∈ enqueuedIDs items, ∃ r, db.invoices.get? id = some r ∧ r.status = .validated ∧
    db'.invoices.get? id = some (r.applyTransition .queued (.user caller) {})
  others : ∀ id, id ∉ enqueuedIDs items → db'.invoices.get? id = db.invoices.get? id
  reported : ∀ item ∈ items,
    Reported requestKey eligible db.outboxKeys (enqueuedIDs items) item

theorem submitPosition_cases {db db' : Db} {id : Uuid} {e : Eligibility}
    {item : BatchSubmitResultItem}
    (h : submitPosition caller requestKey e db id = .ok (db', item)) :
    (∃ reason, skipReason e = some reason ∧ db' = db ∧
      item = ⟨id, false, e.status, some reason⟩) ∨
    (skipReason e = none ∧ deriveBatchSubmitKey requestKey id ∈ db.outboxKeys ∧ db' = db ∧
      item = ⟨id, false, .queued, some batchSubmitReasonDuplicate⟩) ∨
    (skipReason e = none ∧ deriveBatchSubmitKey requestKey id ∉ db.outboxKeys ∧
      ∃ r, db.invoices.get? id = some r ∧ r.status = .validated ∧
        db' = { db with
          outboxKeys := db.outboxKeys ++ [deriveBatchSubmitKey requestKey id]
          submitJobs := db.submitJobs ++ [⟨id, deriveBatchSubmitKey requestKey id⟩]
          invoices := db.invoices.set id (r.applyTransition .queued (.user caller) {}) } ∧
        item = ⟨id, true, .queued, none⟩) := by
  unfold submitPosition at h
  split at h
  · rename_i reason hreason
    cases h
    exact .inl ⟨reason, hreason, rfl, rfl⟩
  · rename_i hskip
    simp only [enqueueTx] at h
    by_cases hkey : deriveBatchSubmitKey requestKey id ∈ db.outboxKeys
    · rw [if_pos (List.contains_iff_mem.mpr hkey)] at h
      cases h
      exact .inr (.inl ⟨hskip, hkey, rfl, rfl⟩)
    · rw [if_neg fun hc => hkey (List.contains_iff_mem.mp hc)] at h
      simp only [bind_eq_ok, pure_eq_ok, Row.transition_eq_ok, Prod.mk.injEq] at h
      obtain ⟨r, hr, r', ⟨hlegal, rfl⟩, rfl, rfl⟩ := h
      have hrow : db.invoices.get? id = some r := Db.getInvoice_eq_ok.mp hr
      exact .inr (.inr ⟨hskip, hkey, r, hrow, canTransition_queued_iff.mp hlegal, rfl, rfl⟩)

theorem Written.cons_unwritten {db db' : Db} {ids : List Uuid}
    {items : List BatchSubmitResultItem}
    (h : Written caller requestKey eligible db ids db' items) {item : BatchSubmitResultItem}
    (hoff : item.enqueued = false)
    (hitem : Reported requestKey eligible db.outboxKeys (enqueuedIDs items) item) :
    Written caller requestKey eligible db (item.invoiceID :: ids) db' (item :: items) := by
  have hsame : enqueuedIDs (item :: items) = enqueuedIDs items := by
    rw [enqueuedIDs, List.filter_cons_of_neg (by rw [hoff]; exact Bool.false_ne_true)]
    rfl
  refine ⟨?_, ?_, ?_, ?_, ?_, ?_, ?_, ?_⟩
  · rw [List.map_cons, h.position]
  · rw [hsame]
    exact h.keys
  · rw [hsame]
    exact h.jobs
  · rw [hsame]
    exact h.once
  · rw [hsame]
    exact h.fresh
  · rw [hsame]
    exact h.moved
  · rw [hsame]
    exact h.others
  · rw [hsame]
    exact List.forall_mem_cons.mpr ⟨hitem, h.reported⟩

theorem Written.cons_moved {db db' : Db} {id : Uuid} {r : Row} {ids : List Uuid}
    {items : List BatchSubmitResultItem}
    (h : Written caller requestKey eligible { db with
      outboxKeys := db.outboxKeys ++ [deriveBatchSubmitKey requestKey id]
      submitJobs := db.submitJobs ++ [⟨id, deriveBatchSubmitKey requestKey id⟩]
      invoices := db.invoices.set id (r.applyTransition .queued (.user caller) {}) } ids db' items)
    (hskip : skipReason (eligible id) = none)
    (hfresh : deriveBatchSubmitKey requestKey id ∉ db.outboxKeys)
    (hr : db.invoices.get? id = some r) (hs : r.status = .validated) :
    Written caller requestKey eligible db (id :: ids) db' (⟨id, true, .queued, none⟩ :: items) := by
  have hids : enqueuedIDs (⟨id, true, .queued, none⟩ :: items) = id :: enqueuedIDs items := rfl
  have hnew : id ∉ enqueuedIDs items := fun hmem =>
    h.fresh id hmem (List.mem_append_right _ List.mem_cons_self)
  refine ⟨?_, ?_, ?_, ?_, ?_, ?_, ?_, ?_⟩
  · rw [List.map_cons, h.position]
  · rw [hids, h.keys, List.append_assoc]
    rfl
  · rw [hids, h.jobs, List.append_assoc]
    rfl
  · rw [hids]
    exact List.nodup_cons.mpr ⟨hnew, h.once⟩
  · rw [hids]
    refine List.forall_mem_cons.mpr ⟨hfresh, fun j hj hold => ?_⟩
    exact h.fresh j hj (List.mem_append_left _ hold)
  · rw [hids]
    refine List.forall_mem_cons.mpr ⟨⟨r, hr, hs, ?_⟩, fun j hj => ?_⟩
    · rw [h.others id hnew]
      exact Table.get?_set_self _ _ _
    · obtain ⟨q, hq, hqs, hq'⟩ := h.moved j hj
      have hne : j ≠ id := fun heq => hnew (heq ▸ hj)
      exact ⟨q, (Table.get?_set_of_ne _ _ hne).symm.trans hq, hqs, hq'⟩
  · rw [hids]
    intro j hj
    rw [h.others j (List.not_mem_of_not_mem_cons hj)]
    exact Table.get?_set_of_ne _ _ (List.ne_of_not_mem_cons hj)
  · rw [hids]
    refine List.forall_mem_cons.mpr ⟨.enqueued rfl hskip rfl, fun item hitem => ?_⟩
    cases h.reported item hitem with
    | enqueued hon hskip hstatus => exact .enqueued hon hskip hstatus
    | skipped hoff hskip hstatus => exact .skipped hoff hskip hstatus
    | duplicate hoff hskip hstatus hkey =>
      refine .duplicate hoff hskip hstatus ?_
      rcases hkey with hkey | hmoved
      · rcases List.mem_append.mp hkey with hold | hown
        · exact .inl hold
        · have hsame := (Submission.requestKey_inj (List.mem_singleton.mp hown)).2
          exact .inr (hsame ▸ List.mem_cons_self)
      · exact .inr (List.mem_cons_of_mem _ hmoved)

theorem submitPositions_written {db db' : Db} {ids : List Uuid}
    {items : List BatchSubmitResultItem}
    (h : submitPositions caller requestKey eligible db ids = .ok (db', items)) :
    Written caller requestKey eligible db ids db' items := by
  induction ids generalizing db items with
  | nil =>
    cases h
    exact ⟨rfl, (List.append_nil _).symm, (List.append_nil _).symm, List.nodup_nil,
      fun id hid => (nomatch hid), fun id hid => (nomatch hid), fun id _ => rfl,
      fun item hitem => (nomatch hitem)⟩
  | cons id ids ih =>
    simp only [submitPositions, bind_eq_ok, pure_eq_ok, Prod.mk.injEq] at h
    obtain ⟨⟨mid, item⟩, hone, ⟨last, rest⟩, hrest, rfl, rfl⟩ := h
    obtain ⟨reason, hskip, rfl, rfl⟩ | ⟨hskip, hkey, rfl, rfl⟩ |
      ⟨hskip, hkey, r, hr, hs, rfl, rfl⟩ := submitPosition_cases hone
    · have hitem : Reported requestKey eligible mid.outboxKeys (enqueuedIDs rest)
          ⟨id, false, (eligible id).status, some reason⟩ :=
        .skipped rfl (Option.isSome_of_eq_some hskip) rfl
      exact (ih hrest).cons_unwritten rfl hitem
    · have hitem : Reported requestKey eligible mid.outboxKeys (enqueuedIDs rest)
          ⟨id, false, .queued, some batchSubmitReasonDuplicate⟩ :=
        .duplicate rfl hskip rfl (.inl hkey)
      exact (ih hrest).cons_unwritten rfl hitem
    · exact (ih hrest).cons_moved hskip hkey hr hs

end

/-! ### The report -/

def mayEnqueue (db : Db) (id : Uuid) : Bool :=
  statusOf db id == .validated && !rulePendingFor db id && transmitClearTx db id

structure ReportsTruth (uuidIn : String → Option Uuid) (db db' : Db) (caller : Uuid)
    (input : BatchSubmitInput) (items : List BatchSubmitResultItem) : Prop where
  position : List.Forall₂ (fun raw item => uuidIn raw = some item.invoiceID) input.invoiceIDs items
  status : ∀ item ∈ items, ∃ r, db'.invoices.get? item.invoiceID = some r ∧ item.status = r.status
  enqueued : ∀ id, (∃ r r', db.invoices.get? id = some r ∧ db'.invoices.get? id = some r' ∧
      r.status ≠ .queued ∧ r'.status = .queued) →
    items.countP (fun item => item.enqueued && item.invoiceID == id) = 1
  moved : ∀ item ∈ items, item.enqueued = true → ∃ r, db.invoices.get? item.invoiceID = some r ∧
    r.status = .validated ∧ db'.invoices.get? item.invoiceID =
      some (r.applyTransition .queued (.user caller) {})
  jobs : db'.submitJobs = db.submitJobs ++ (enqueuedIDs items).map fun id =>
    ⟨id, deriveBatchSubmitKey input.idempotencyKey id⟩
  others : ∀ id, id ∉ enqueuedIDs items → db'.invoices.get? id = db.invoices.get? id

section
variable {uuidIn : String → Option Uuid} {db db' : Db} {res : Resolved}

theorem Reads.skipReason_eq_none (h : Reads uuidIn db res) {id : Uuid} (hid : id ∈ res.distinct) :
    skipReason (eligibility db res id) = none ↔ mayEnqueue db id = true := by
  obtain ⟨r, hr, hstatus, hentity⟩ := h.row id hid
  rw [Invoice.skipReason_eq_none]
  simp only [eligibility, mayEnqueue, statusOf, rulePendingFor, hr, hstatus, hentity, hid,
    Option.getD_some, decide_true, Bool.true_and, Bool.and_eq_true, beq_iff_eq,
    Bool.not_eq_true', and_assoc]

theorem countP_enqueued (items : List BatchSubmitResultItem) (id : Uuid) :
    items.countP (fun item => item.enqueued && item.invoiceID == id) =
      (enqueuedIDs items).count id := by
  rw [enqueuedIDs, List.count, List.countP_map, List.countP_filter]
  refine List.countP_congr fun item _ => ?_
  simp only [Function.comp_apply, Bool.and_comm]

theorem mem_enqueuedIDs {items : List BatchSubmitResultItem} {item : BatchSubmitResultItem}
    (h : item ∈ items) (hon : item.enqueued = true) : item.invoiceID ∈ enqueuedIDs items :=
  List.mem_map_of_mem (List.mem_filter.mpr ⟨h, hon⟩)

theorem Written.not_moved {caller : Uuid} {requestKey : String} {eligible : Uuid → Eligibility}
    {ids : List Uuid} {items : List BatchSubmitResultItem}
    (h : Written caller requestKey eligible db ids db' items) {id : Uuid}
    (hskip : (skipReason (eligible id)).isSome) : id ∉ enqueuedIDs items := by
  intro hmoved
  obtain ⟨item, hitem, rfl⟩ := List.mem_map.mp hmoved
  obtain ⟨hitem, hon⟩ := List.mem_filter.mp hitem
  cases h.reported item hitem with
  | enqueued hon' hnone hstatus =>
    rw [hnone] at hskip
    cases hskip
  | skipped hoff hsome hstatus =>
    rw [hoff] at hon
    cases hon
  | duplicate hoff hnone hstatus hkey =>
    rw [hnone] at hskip
    cases hskip

theorem batchSubmit_eq_ok {caller : Uuid} {input : BatchSubmitInput}
    {items : List BatchSubmitResultItem}
    (h : batchSubmit uuidIn db caller input = .ok (db', items)) :
    ∃ res ids, Reads uuidIn db res ∧
      List.Forall₂ (fun raw id => uuidIn raw = some id ∧ id ∈ res.distinct) input.invoiceIDs ids ∧
      Written caller input.idempotencyKey (eligibility db res) db ids db' items := by
  simp only [batchSubmit, bind_eq_ok] at h
  obtain ⟨res, hlock, hpositions⟩ := h
  obtain ⟨hreads, -, hresolved⟩ := lockPositions_eq_ok hlock .empty
  refine ⟨res, _, hreads, ?_, submitPositions_written hpositions⟩
  rw [List.forall₂_map_right_iff]
  refine List.forall₂_same.mpr fun raw hraw => ?_
  obtain ⟨id, hget⟩ := Option.isSome_iff_exists.mp (hresolved raw hraw)
  rw [hget]
  exact hreads.spelled raw id hget

theorem Written.used_key_untrue {caller : Uuid} {requestKey : String} {ids : List Uuid}
    {items : List BatchSubmitResultItem}
    (h : Written caller requestKey (eligibility db res) db ids db' items)
    (hreads : Reads uuidIn db res) {id : Uuid} (hid : id ∈ ids) (hread : id ∈ res.distinct)
    (hmay : mayEnqueue db id = true) (hkey : deriveBatchSubmitKey requestKey id ∈ db.outboxKeys) :
    ∃ item ∈ items, item.invoiceID = id ∧ item.status = .queued ∧
      ∃ r, db'.invoices.get? id = some r ∧ r.status = .validated := by
  have hskip := (hreads.skipReason_eq_none hread).mpr hmay
  rw [← h.position] at hid
  obtain ⟨item, hitem, rfl⟩ := List.mem_map.mp hid
  have hunmoved : item.invoiceID ∉ enqueuedIDs items := fun hmoved => h.fresh _ hmoved hkey
  obtain ⟨r, hr, hrs, -⟩ := hreads.row _ hread
  have hvalidated : r.status = .validated := by
    have hstatus := (Invoice.skipReason_eq_none.mp hskip).1
    rwa [eligibility, hrs, Option.getD_some] at hstatus
  refine ⟨item, hitem, rfl, ?_, r, (h.others _ hunmoved).trans hr, hvalidated⟩
  cases h.reported item hitem with
  | enqueued hon hnone hstatus => exact hstatus
  | skipped hoff hsome hstatus =>
    rw [hskip] at hsome
    cases hsome
  | duplicate hoff hnone hstatus hkey => exact hstatus

theorem Written.status_true {caller : Uuid} {requestKey : String} {ids : List Uuid}
    {items : List BatchSubmitResultItem}
    (h : Written caller requestKey (eligibility db res) db ids db' items)
    (hreads : Reads uuidIn db res) (hread : ∀ id ∈ ids, id ∈ res.distinct)
    (hfresh : ∀ id ∈ ids, mayEnqueue db id = true →
      deriveBatchSubmitKey requestKey id ∉ db.outboxKeys)
    {item : BatchSubmitResultItem} (hitem : item ∈ items) :
    ∃ r, db'.invoices.get? item.invoiceID = some r ∧ item.status = r.status := by
  have hid : item.invoiceID ∈ ids := h.position ▸ List.mem_map_of_mem hitem
  have hqueued : item.invoiceID ∈ enqueuedIDs items → item.status = .queued →
      ∃ r, db'.invoices.get? item.invoiceID = some r ∧ item.status = r.status := by
    intro hmoved hstatus
    obtain ⟨r, -, -, hr'⟩ := h.moved _ hmoved
    exact ⟨_, hr', hstatus⟩
  cases h.reported item hitem with
  | enqueued hon hskip hstatus => exact hqueued (mem_enqueuedIDs hitem hon) hstatus
  | skipped hoff hskip hstatus =>
    obtain ⟨r, hr, hrs, -⟩ := hreads.row _ (hread _ hid)
    refine ⟨r, (h.others _ (h.not_moved hskip)).trans hr, ?_⟩
    rw [hstatus, eligibility, hrs, Option.getD_some]
  | duplicate hoff hskip hstatus hkey =>
    have hmay := (hreads.skipReason_eq_none (hread _ hid)).mp hskip
    exact hqueued (hkey.resolve_left (hfresh _ hid hmay)) hstatus

theorem exists_of_mem_forall₂ {α β : Type*} {R : α → β → Prop} {as : List α} {bs : List β}
    (h : List.Forall₂ R as bs) : (∀ a ∈ as, ∃ b ∈ bs, R a b) ∧ ∀ b ∈ bs, ∃ a ∈ as, R a b := by
  induction h with
  | nil => exact ⟨fun a ha => (nomatch ha), fun b hb => (nomatch hb)⟩
  | @cons a b as bs hab _ ih =>
    refine ⟨List.forall_mem_cons.mpr ⟨⟨b, List.mem_cons_self, hab⟩, fun a' ha' => ?_⟩,
      List.forall_mem_cons.mpr ⟨⟨a, List.mem_cons_self, hab⟩, fun b' hb' => ?_⟩⟩
    · obtain ⟨b', hb', hR⟩ := ih.1 a' ha'
      exact ⟨b', List.mem_cons_of_mem _ hb', hR⟩
    · obtain ⟨a', ha', hR⟩ := ih.2 b' hb'
      exact ⟨a', List.mem_cons_of_mem _ ha', hR⟩

/-- A request that committed reports the truth exactly when none of its positions that may
enqueue finds its key already used. -/
theorem batch_reports_truth_iff {caller : Uuid} {input : BatchSubmitInput}
    {items : List BatchSubmitResultItem}
    (h : batchSubmit uuidIn db caller input = .ok (db', items)) :
    ReportsTruth uuidIn db db' caller input items ↔
      ∀ raw ∈ input.invoiceIDs, ∀ id, uuidIn raw = some id → mayEnqueue db id = true →
        deriveBatchSubmitKey input.idempotencyKey id ∉ db.outboxKeys := by
  obtain ⟨res, ids, hreads, hspelled, hw⟩ := batchSubmit_eq_ok h
  obtain ⟨hforth, hback⟩ := exists_of_mem_forall₂ hspelled
  constructor
  · intro htruth raw hraw id hid hmay hkey
    obtain ⟨id', hmem, hid', hread⟩ := hforth raw hraw
    obtain rfl : id' = id := Option.some.inj (hid'.symm.trans hid)
    obtain ⟨item, hitem, rfl, hqueued, r, hr, hvalidated⟩ :=
      hw.used_key_untrue hreads hmem hread hmay hkey
    obtain ⟨r', hr', hstatus⟩ := htruth.status item hitem
    rw [hr] at hr'
    cases hr'
    rw [hqueued, hvalidated] at hstatus
    cases hstatus
  · intro hfresh
    refine ⟨?_, fun item hitem => ?_, fun id hmoved => ?_, fun item hitem hon => ?_,
      hw.jobs, hw.others⟩
    · have hids := hspelled.imp fun raw id h => h.1
      rwa [← hw.position, List.forall₂_map_right_iff] at hids
    · refine hw.status_true hreads (fun id hid => ?_) (fun id hid hmay => ?_) hitem
      · obtain ⟨raw, -, -, hread⟩ := hback id hid
        exact hread
      · obtain ⟨raw, hraw, hin, -⟩ := hback id hid
        exact hfresh raw hraw id hin hmay
    · obtain ⟨r, r', hr, hr', hs, hs'⟩ := hmoved
      rw [countP_enqueued]
      by_cases hmem : id ∈ enqueuedIDs items
      · exact List.count_eq_one_of_mem hw.once hmem
      · rw [hw.others id hmem, hr] at hr'
        cases hr'
        exact absurd hs' hs
    · exact hw.moved _ (mem_enqueuedIDs hitem hon)

end

/-! ### A second life under one request key -/

def hexValue (c : Char) : Option ℕ :=
  if c.isDigit then some (c.toNat - 48)
  else if 'a' ≤ c ∧ c ≤ 'f' then some (c.toNat - 87)
  else if 'A' ≤ c ∧ c ≤ 'F' then some (c.toNat - 55)
  else none

def readUuid (s : String) : Option Uuid := do
  let digits ← (s.toList.filter fun c => c ∉ ['-', '{', '}']).mapM hexValue
  if digits.length = 32 then some (BitVec.ofNat 128 (digits.foldl (fun n d => 16 * n + d) 0))
  else none

def resavedInput : EditInput where
  total := .put (.hundredths 12600)

def resavedFingerprint : String :=
  contentFingerprint id { sampleInput.header with
    total := some (.hundredths 12600)
    supplierTIN := some "12345678-9012"
    supplierName := some "Ada Ltd" } []

theorem batch_reports_truth_iff_sample :
    ∃ db db' items, runFrom (requestStep id) emptyDb [.create 1 46 sampleInput,
        .applyValidation 46 1 ⟨[], 60, [], sampleFingerprint⟩ 50 0] = some db ∧
      batchSubmit readUuid db 1 ⟨["00000000-0000-0000-0000-00000000002e",
        "0000000000000000000000000000002E"], "k"⟩ = .ok (db', items) ∧
      items = [⟨46, true, .queued, none⟩,
        ⟨46, false, .queued, some batchSubmitReasonDuplicate⟩] ∧
      ReportsTruth readUuid db db' 1 ⟨["00000000-0000-0000-0000-00000000002e",
        "0000000000000000000000000000002E"], "k"⟩ items := by
  refine ⟨_, _, _, rfl, rfl, rfl, (batch_reports_truth_iff rfl).mpr ?_⟩
  intro raw _ i _ _
  exact List.not_mem_nil

theorem second_life_reported_queued :
    ∃ db db' items r, runFrom (requestStep id) emptyDb [.create 1 46 sampleInput,
        .applyValidation 46 1 ⟨[], 60, [], sampleFingerprint⟩ 50 0, .batchSubmit 1 "k" [46],
        .markRejected 46 ["buyer TIN"], .edit 46 1 resavedInput,
        .applyValidation 46 1 ⟨[], 60, [], resavedFingerprint⟩ 51 0] = some db ∧
      batchSubmit readUuid db 1 ⟨["00000000-0000-0000-0000-00000000002e"], "k"⟩ =
        .ok (db', items) ∧
      items = [⟨46, false, .queued, some batchSubmitReasonDuplicate⟩] ∧
      db'.invoices.get? 46 = some r ∧ r.status = .validated ∧
      ¬ ReportsTruth readUuid db db' 1 ⟨["00000000-0000-0000-0000-00000000002e"], "k"⟩ items := by
  refine ⟨_, _, _, _, rfl, rfl, rfl, rfl, rfl, fun h => ?_⟩
  obtain ⟨r, hr, hstatus⟩ := h.status _ List.mem_cons_self
  cases hr
  cases hstatus

end Submitter
end InvoiceOs.Invoice
