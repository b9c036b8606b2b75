import InvoiceOs.Customers.Replay

/-! Any order of creates, updates, fills and backfills: what a member wrote stays, and the rest is
the newest value an invoice gave. -/

namespace InvoiceOs.Customers

open Lib

inductive Op where
  | create (tin : Option String) (input : UpdateInput) (newID : Uuid)
  | update (id : Uuid) (input : UpdateInput)
  | fill (invoiceID newID : Uuid)
  | backfill (privileged : Bool) (ids : String → Uuid) (dryRun : Bool)
  | invoices (rows : List InvoiceRow) (unique : (rows.map InvoiceRow.id).Nodup)

def apply (x : Externals) (db : Db) : Op → Db
  | .create tin input newID => (create x db tin input newID).toOption.getD db
  | .update id input => (update db id input).toOption.getD db
  | .fill invoiceID newID => (fillFromInvoice x db invoiceID newID).toOption.getD db
  | .backfill privileged ids dryRun =>
    ((backfill x privileged ids db dryRun).toOption.map Prod.fst).getD db
  | .invoices rows unique => { db with invoices := rows, unique := unique }

/-! ### The history of one field -/

def lastWritten (tin : String) (col : Column) : List Entry → Option (Option String)
  | [] => none
  | .wrote t sent :: js =>
    if t = tin ∧ (sent col).isSome then sent col else lastWritten tin col js
  | .filled _ _ :: js => lastWritten tin col js

def newestFilled (tin : String) (col : Column) : List Entry → Option String
  | [] => none
  | .wrote _ _ :: js => newestFilled tin col js
  | .filled t values :: js =>
    if t = tin ∧ (values col).isSome then values col else newestFilled tin col js

structure FieldKept (c : Customer) (tin : String) (js : List Entry) (col : Column) : Prop where
  member : col ∈ c.editedFields → lastWritten tin col js = some (c.values col)
  filled : col ∉ c.editedFields → c.values col = newestFilled tin col js
  marked : (lastWritten tin col js).isSome → col ∈ c.editedFields

structure Kept (db : Db) : Prop where
  records : ∀ tin c, db.customers.get? tin = some c → ∀ col, FieldKept c tin db.journal col
  absent : ∀ tin, db.customers.get? tin = none → ∀ col,
    lastWritten tin col db.journal = none ∧ newestFilled tin col db.journal = none

variable {x : Externals} {db db' : Db} {tin : String}

theorem FieldKept.fill {c : Customer} {js : List Entry} {col : Column}
    (h : FieldKept c tin js col) (values : Values) :
    FieldKept (c.fill values) tin (.filled tin values :: js) col := by
  refine ⟨fun hmem => ?_, fun hmem => ?_, h.marked⟩
  · have hsame : (c.fill values).values col = c.values col := if_pos hmem
    rw [hsame]
    exact h.member hmem
  · have hnew : (c.fill values).values col = (values col).or (c.values col) := if_neg hmem
    rw [hnew, newestFilled, h.filled hmem]
    cases values col with
    | none => rw [if_neg (by simp), Option.none_or]
    | some v => rw [if_pos ⟨rfl, rfl⟩, Option.some_or]

theorem FieldKept.new {js : List Entry} {col : Column} (values : Values) (id : Uuid)
    (h : lastWritten tin col js = none ∧ newestFilled tin col js = none) :
    FieldKept { id := id, values := values } tin (.filled tin values :: js) col := by
  refine ⟨fun hmem => absurd hmem List.not_mem_nil, fun _ => ?_, fun hsome => ?_⟩
  · rw [newestFilled, h.2]
    dsimp only
    cases values col with
    | none => rw [if_neg (by simp)]
    | some v => rw [if_pos ⟨rfl, rfl⟩]
  · rw [lastWritten, h.1] at hsome
    cases hsome

theorem mem_markEdited {edited : List Column} {sent : Column → Option (Option String)} {col : Column} :
    col ∈ markEdited edited sent ↔ col ∈ edited ∨ (sent col).isSome = true := by
  rw [markEdited, List.mem_filter, Bool.or_eq_true, decide_eq_true_eq]
  exact and_iff_right (Column.mem_sorted col)

theorem FieldKept.write {edited : List Column} {values : Values} {js : List Entry} {col : Column}
    (sent : Column → Option (Option String))
    (hmember : col ∈ edited → lastWritten tin col js = some (values col))
    (hfilled : col ∉ edited → values col = newestFilled tin col js)
    (hmarked : (lastWritten tin col js).isSome → col ∈ edited) {id : Uuid}
    {status : CustomerStatus} :
    FieldKept ⟨id, Customers.write values sent, markEdited edited sent, status⟩ tin
      (.wrote tin sent :: js) col := by
  cases hsent : sent col with
  | none =>
    have hmem : col ∈ markEdited edited sent ↔ col ∈ edited := by
      rw [mem_markEdited, hsent]
      exact or_iff_left Bool.false_ne_true
    have hvalue : Customers.write values sent col = values col := by
      rw [Customers.write, hsent, Option.getD_none]
    have hlast : lastWritten tin col (.wrote tin sent :: js) = lastWritten tin col js := by
      rw [lastWritten, hsent]
      exact if_neg (by simp)
    refine ⟨fun h => ?_, fun h => ?_, fun h => ?_⟩
    · dsimp only at h ⊢
      rw [hlast, hvalue]
      exact hmember (hmem.mp h)
    · dsimp only at h ⊢
      rw [hvalue]
      exact hfilled (mt hmem.mpr h)
    · rw [hlast] at h
      exact hmem.mpr (hmarked h)
  | some v =>
    have hmem : col ∈ markEdited edited sent := mem_markEdited.mpr (.inr (by rw [hsent]; rfl))
    refine ⟨fun _ => ?_, fun h => absurd hmem h, fun _ => hmem⟩
    have hvalue : Customers.write values sent col = v := by
      rw [Customers.write, hsent, Option.getD_some]
    dsimp only
    rw [lastWritten, hsent, if_pos ⟨rfl, rfl⟩, hvalue]

/-! ### The other records -/

theorem lastWritten_of_ne {t : String} {sent : Column → Option (Option String)} {js : List Entry}
    {col : Column} (h : t ≠ tin) : lastWritten tin col (.wrote t sent :: js) =
      lastWritten tin col js := if_neg fun hand => h hand.1

theorem newestFilled_of_ne {t : String} {values : Values} {js : List Entry} {col : Column}
    (h : t ≠ tin) : newestFilled tin col (.filled t values :: js) = newestFilled tin col js :=
  if_neg fun hand => h hand.1

theorem Kept.set (h : Kept db) {c : Customer} {e : Entry}
    (hentry : ∀ t, t ≠ tin → ∀ col, lastWritten t col (e :: db.journal) =
      lastWritten t col db.journal ∧ newestFilled t col (e :: db.journal) =
      newestFilled t col db.journal)
    (hc : ∀ col, FieldKept c tin (e :: db.journal) col) :
    Kept { db with customers := db.customers.set tin c, journal := e :: db.journal } := by
  constructor
  · intro t q hq col
    dsimp only at hq ⊢
    rw [Table.get?_set] at hq
    split at hq
    · rename_i ht
      obtain rfl := Option.some.inj hq
      exact ht ▸ hc col
    · rename_i ht
      obtain ⟨hwritten, hfilled⟩ := hentry t ht col
      have hold := h.records t q hq col
      refine ⟨?_, ?_, ?_⟩
      · rw [hwritten]
        exact hold.member
      · rw [hfilled]
        exact hold.filled
      · rw [hwritten]
        exact hold.marked
  · intro t hnone col
    dsimp only at hnone ⊢
    rw [Table.get?_set] at hnone
    split at hnone
    · cases hnone
    · rename_i ht
      obtain ⟨hwritten, hfilled⟩ := hentry t ht col
      rw [hwritten, hfilled]
      exact h.absent t hnone col

theorem Kept.filed (h : Kept db) {values : Values} {c : Customer}
    (hc : ∀ col, FieldKept c tin (.filled tin values :: db.journal) col) :
    Kept (db.filed tin values c) :=
  h.set (fun _ ht _ => ⟨rfl, newestFilled_of_ne (Ne.symm ht)⟩) hc

theorem Kept.wrote (h : Kept db) {sent : Column → Option (Option String)} {c : Customer}
    (hc : ∀ col, FieldKept c tin (.wrote tin sent :: db.journal) col) :
    Kept { db with
      customers := db.customers.set tin c, journal := .wrote tin sent :: db.journal } :=
  h.set (fun _ ht _ => ⟨lastWritten_of_ne (Ne.symm ht), rfl⟩) hc

/-! ### The calls -/

theorem Kept.upsert (h : Kept db) {values : Values} {newID : Uuid}
    (hok : upsert x db tin values newID = .ok db') : Kept db' := by
  unfold Customers.upsert at hok
  split at hok
  · rename_i c hc
    obtain rfl := Except.ok.inj hok
    exact h.filed fun col => (h.records tin c hc col).fill values
  · rename_i hnone
    obtain ⟨-, hok⟩ := check_eq_ok.mp hok
    obtain rfl := Except.ok.inj hok
    exact h.filed fun col => .new values newID (h.absent tin hnone col)

theorem fillFromInvoice_cases {invoiceID newID : Uuid}
    (hok : fillFromInvoice x db invoiceID newID = .ok db') :
    db' = db ∨ ∃ tin values, upsert x db tin values newID = .ok db' := by
  unfold fillFromInvoice at hok
  split at hok
  · exact .inl (Except.ok.inj hok).symm
  · split at hok
    · exact .inl (Except.ok.inj hok).symm
    · exact .inr ⟨_, _, hok⟩

theorem Kept.update (h : Kept db) {id : Uuid} {input : UpdateInput}
    (hok : update db id input = .ok db') : Kept db' := by
  obtain ⟨-, hok⟩ := check_eq_ok.mp hok
  split at hok
  · cases hok
  · rename_i tin c hfind
    have hc := Table.mem_rows.mp (List.mem_of_find?_eq_some hfind)
    obtain ⟨-, hok⟩ := check_eq_ok.mp hok
    obtain rfl := Except.ok.inj hok
    refine h.wrote fun col => ?_
    have hold := h.records tin c hc col
    exact .write input.sent hold.member hold.filled hold.marked

theorem Kept.create (h : Kept db) {tin : Option String} {input : UpdateInput} {newID : Uuid}
    (hok : create x db tin input newID = .ok db') : Kept db' := by
  unfold Customers.create at hok
  split at hok
  · cases hok
  · rename_i tin _
    obtain ⟨-, hok⟩ := check_eq_ok.mp hok
    obtain ⟨-, hok⟩ := check_eq_ok.mp hok
    obtain ⟨-, hok⟩ := check_eq_ok.mp hok
    obtain ⟨-, hok⟩ := check_eq_ok.mp hok
    obtain ⟨hnew, hok⟩ := check_eq_ok.mp hok
    obtain rfl := Except.ok.inj hok
    have hnone : db.customers.get? tin = none := by
      rw [Bool.not_eq_true] at hnew
      exact Option.isNone_iff_eq_none.mp (Option.isSome_eq_false_iff.mp hnew)
    refine h.wrote fun col => ?_
    obtain ⟨hwritten, hfilled⟩ := h.absent tin hnone col
    refine .write input.stored (fun hmem => absurd hmem List.not_mem_nil) (fun _ => ?_) fun hsome => ?_
    · rw [hfilled]
    · rw [hwritten] at hsome
      cases hsome

theorem Kept.backfill (h : Kept db) {privileged dryRun : Bool} {ids : String → Uuid}
    {s : Db × BackfillResult} (hok : backfill x privileged ids db dryRun = .ok s) : Kept s.1 := by
  obtain ⟨hrole, -⟩ := check_eq_ok.mp hok
  obtain rfl := Bool.not_eq_true _ ▸ hrole
  cases dryRun with
  | true =>
    obtain ⟨res, hdry⟩ : ∃ res, Customers.backfill x false ids db true = .ok (db, res) := dryRun_ok
    obtain rfl := Except.ok.inj (hdry.symm.trans hok)
    exact h
  | false =>
    obtain ⟨-, hdb, -⟩ := backfill_ok.mp hok
    have hloop : ∀ (found : List BackfillRow) (db : Db), Matches db found → Kept db →
        Kept (found.foldl (file ids) db) := by
      intro found
      induction found with
      | nil => exact fun _ _ h => h
      | cons r found ih =>
        intro db hmatches h
        refine ih _ hmatches.tail ?_
        have hexists := hmatches.2 r List.mem_cons_self
        unfold file
        split
        · exact h
        · rename_i hnew
          have hnone : db.customers.get? r.tin = none := by
            rw [hexists, Bool.not_eq_true] at hnew
            exact Option.isNone_iff_eq_none.mp (Option.isSome_eq_false_iff.mp hnew)
          exact h.filed fun col => .new r.vals (ids r.tin) (h.absent r.tin hnone col)
    rw [hdb]
    exact hloop _ _ backfillAgg_matches h

theorem Kept.result (h : Kept db) {r : Except Err Db} (hr : ∀ db', r = .ok db' → Kept db') :
    Kept (r.toOption.getD db) := by
  cases hok : r with
  | error e => exact h
  | ok db' => exact hr db' hok

theorem Kept.apply (h : Kept db) (op : Op) : Kept (apply x db op) := by
  cases op with
  | create tin input newID => exact h.result fun _ hok => h.create hok
  | update id input => exact h.result fun _ hok => h.update hok
  | fill invoiceID newID =>
    refine h.result fun db' hok => ?_
    obtain rfl | ⟨tin, values, hupsert⟩ := fillFromInvoice_cases hok
    · exact h
    · exact h.upsert hupsert
  | backfill privileged ids dryRun =>
    unfold Customers.apply
    dsimp only
    cases hok : Customers.backfill x privileged ids db dryRun with
    | error e => exact h
    | ok s => exact h.backfill hok
  | invoices rows unique => exact ⟨h.records, h.absent⟩

end InvoiceOs.Customers
