import InvoiceOs.Customers.Directory

/-! One aggregate over all invoices files the record that their fills one after another leave, and
neither touches what a member wrote. -/

namespace InvoiceOs.Customers

open Lib

variable {x : Externals} {db db' : Db}

/-! ### One fill -/

theorem mem_ofTIN {tin : String} {i : InvoiceRow} :
    i ∈ db.ofTIN tin ↔ i ∈ db.invoices ∧ i.tin = some tin := by
  rw [Db.ofTIN, List.mem_filter, beq_iff_eq]

theorem isOrder_newest : IsOrder newestFirst :=
  (isOrder_le.comparing InvoiceRow.createdAt).descending.thenBy
    (isOrder_le.comparing fun i : InvoiceRow => i.id.toNat).descending

theorem newestFirst_ties {i j : InvoiceRow} (hij : newestFirst i j = true)
    (hji : newestFirst j i = true) : i.id = j.id := by
  obtain ⟨-, hid, hid'⟩ := thenBy_ties hij hji
  exact BitVec.eq_of_toNat_eq (le_antisymm (of_decide_eq_true hid') (of_decide_eq_true hid))

structure InOrder (db : Db) (tin : String) (order : List InvoiceRow) : Prop where
  perm : order.Perm (db.ofTIN tin)
  sorted : order.Pairwise fun a b => newestFirst b a = true

theorem same_of_id {i j : InvoiceRow} (hi : i ∈ db.invoices) (hj : j ∈ db.invoices)
    (h : i.id = j.id) : i = j :=
  List.inj_on_of_nodup_map db.unique hi hj h

theorem InOrder.reverse {tin : String} {order : List InvoiceRow} (h : InOrder db tin order) :
    order.reverse = (db.ofTIN tin).mergeSort newestFirst := by
  have hperm := List.mergeSort_perm (db.ofTIN tin) newestFirst
  refine @List.Perm.eq_of_pairwise _ (fun a b => newestFirst a b = true) _ _ ?_ ?_ ?_ ?_
  · intro a b ha hb hab hba
    have ha' := h.perm.mem_iff.mp (List.mem_reverse.mp ha)
    exact same_of_id (mem_ofTIN.mp ha').1 (mem_ofTIN.mp (hperm.mem_iff.mp hb)).1
      (newestFirst_ties hab hba)
  · exact List.pairwise_reverse.mpr h.sorted
  · exact List.pairwise_mergeSort isOrder_newest.trans isOrder_newest.total _
  · exact (List.reverse_perm order).trans (h.perm.trans hperm.symm)

def report (res : BackfillResult) (r : BackfillRow) : BackfillResult :=
  let res := { res with collisions := res.collisions ++ collisionOf r }
  if r.exists_ then res else { res with created := res.created + 1 }

def file (ids : String → Uuid) (db : Db) (r : BackfillRow) : Db :=
  if r.exists_ then db
  else db.filed r.tin r.vals { id := ids r.tin, values := r.vals }

variable {ids : String → Uuid}

def Matches (db : Db) (found : List BackfillRow) : Prop :=
  (found.map BackfillRow.tin).Nodup ∧ ∀ r ∈ found, r.exists_ = (db.customers.get? r.tin).isSome

theorem Matches.tail {r : BackfillRow} {found : List BackfillRow} (h : Matches db (r :: found)) :
    Matches (file ids db r) found := by
  obtain ⟨hnodup, hexists⟩ := h
  rw [List.map_cons, List.nodup_cons] at hnodup
  refine ⟨hnodup.2, fun q hq => ?_⟩
  have hq' := hexists q (List.mem_cons_of_mem r hq)
  unfold file
  split
  · exact hq'
  · have hne : q.tin ≠ r.tin := fun h => hnodup.1 (h ▸ List.mem_map_of_mem hq)
    rw [Db.filed, Table.get?_set_of_ne _ _ hne]
    exact hq'

theorem dryRun_loop (found : List BackfillRow) (res : BackfillResult) :
    found.foldlM (backfillStep x true ids) (db, res) = .ok (db, found.foldl report res) := by
  induction found generalizing res with
  | nil => rfl
  | cons r found ih =>
    have hstep : backfillStep x true ids (db, res) r = .ok (db, report res r) := by
      unfold backfillStep report
      split
      · rfl
      · rfl
    rw [List.foldlM_cons, hstep]
    exact ih _

theorem backfillStep_ok {r : BackfillRow} {res : BackfillResult}
    (hexists : r.exists_ = (db.customers.get? r.tin).isSome) {s : Db × BackfillResult} :
    backfillStep x false ids (db, res) r = .ok s ↔
      (r.exists_ = false → x.indexable r.tin = true) ∧ s = (file ids db r, report res r) := by
  unfold backfillStep file report
  cases hr : r.exists_ with
  | true =>
    rw [if_pos rfl, if_pos rfl, if_pos rfl]
    constructor
    · intro h
      cases h
      exact ⟨nofun, rfl⟩
    · rintro ⟨-, rfl⟩
      rfl
  | false =>
    have hnone : db.customers.get? r.tin = none := by
      rw [hr] at hexists
      exact Option.isNone_iff_eq_none.mp (Option.isSome_eq_false_iff.mp hexists.symm)
    have hno : ¬ false = true := Bool.false_ne_true
    rw [if_neg hno, if_neg hno, if_neg hno, if_neg hno, backfillInsert, hnone]
    dsimp only
    constructor
    · intro h
      obtain ⟨⟨db', n⟩, hinsert, h⟩ := bind_eq_ok.mp h
      obtain ⟨hroom, hinsert⟩ := check_eq_ok.mp hinsert
      cases hinsert
      cases h
      exact ⟨fun _ => not_not.mp hroom, rfl⟩
    · rintro ⟨hroom, rfl⟩
      refine bind_eq_ok.mpr ⟨_, check_eq_ok.mpr ⟨not_not.mpr (hroom rfl), rfl⟩, rfl⟩

theorem realRun_loop {found : List BackfillRow} (h : Matches db found) (res : BackfillResult)
    {s : Db × BackfillResult} :
    found.foldlM (backfillStep x false ids) (db, res) = .ok s ↔
      (∀ r ∈ found, r.exists_ = false → x.indexable r.tin = true) ∧
        s = (found.foldl (file ids) db, found.foldl report res) := by
  induction found generalizing db res with
  | nil =>
    rw [List.foldlM_nil, pure_eq_ok]
    exact ⟨fun heq => ⟨nofun, heq.symm⟩, fun heq => heq.2.symm⟩
  | cons r found ih =>
    have hexists := h.2 r List.mem_cons_self
    rw [List.foldlM_cons, bind_eq_ok]
    constructor
    · rintro ⟨s₁, hstep, hrest⟩
      obtain ⟨hroom, rfl⟩ := (backfillStep_ok hexists).mp hstep
      obtain ⟨hrooms, rfl⟩ := (ih h.tail _).mp hrest
      refine ⟨fun q hq => ?_, rfl⟩
      obtain rfl | hq := List.mem_cons.mp hq
      · exact hroom
      · exact hrooms q hq
    · rintro ⟨hrooms, rfl⟩
      exact ⟨_, (backfillStep_ok hexists).mpr ⟨hrooms r List.mem_cons_self, rfl⟩,
        (ih h.tail _).mpr ⟨fun q hq => hrooms q (List.mem_cons_of_mem r hq), rfl⟩⟩

theorem backfillAgg_matches : Matches db (backfillAgg x db) := by
  constructor
  · have htins : (backfillAgg x db).map BackfillRow.tin =
        ((db.invoices.filterMap InvoiceRow.tin).dedup).mergeSort x.collate := by
      rw [backfillAgg, List.map_map]
      exact List.map_id _
    rw [htins]
    exact (List.mergeSort_perm _ _).nodup_iff.mpr (List.nodup_dedup _)
  · intro r hr
    obtain ⟨tin, -, rfl⟩ := List.mem_map.mp hr
    rfl

theorem mem_backfillAgg {r : BackfillRow} :
    r ∈ backfillAgg x db ↔ db.ofTIN r.tin ≠ [] ∧ r = aggregate db r.tin := by
  have hmem : ∀ tin, tin ∈ (db.invoices.filterMap InvoiceRow.tin).dedup.mergeSort x.collate ↔
      db.ofTIN tin ≠ [] := by
    intro tin
    rw [(List.mergeSort_perm _ _).mem_iff, List.mem_dedup, List.mem_filterMap]
    constructor
    · rintro ⟨i, hi, htin⟩
      exact List.ne_nil_of_mem (mem_ofTIN.mpr ⟨hi, htin⟩)
    · intro hne
      obtain ⟨i, hi⟩ := List.exists_mem_of_ne_nil _ hne
      exact ⟨i, mem_ofTIN.mp hi⟩
  constructor
  · intro hr
    obtain ⟨tin, htin, rfl⟩ := List.mem_map.mp hr
    exact ⟨(hmem tin).mp htin, rfl⟩
  · rintro ⟨hne, hr⟩
    rw [hr]
    exact List.mem_map_of_mem ((hmem r.tin).mpr hne)

/-! ### The backfill -/

theorem dryRun_ok : ∃ res, backfill x false ids db true = .ok (db, res) := by
  refine ⟨_, check_eq_ok.mpr ⟨Bool.false_ne_true, bind_eq_ok.mpr ⟨_, dryRun_loop _ _, rfl⟩⟩⟩

theorem backfill_ok {s : Db × BackfillResult} : backfill x false ids db false = .ok s ↔
    (∀ tin, db.ofTIN tin ≠ [] → db.customers.get? tin = none → x.indexable tin = true) ∧
      s.1 = (backfillAgg x db).foldl (file ids) db ∧
      backfill x false ids db true = .ok (db, s.2) := by
  have hrooms : (∀ r ∈ backfillAgg x db, r.exists_ = false → x.indexable r.tin = true) ↔
      ∀ tin, db.ofTIN tin ≠ [] → db.customers.get? tin = none → x.indexable tin = true := by
    constructor
    · intro h tin hne hnone
      refine h (aggregate db tin) (mem_backfillAgg.mpr ⟨hne, rfl⟩) ?_
      rw [aggregate, hnone]
      rfl
    · intro h r hr hnew
      obtain ⟨hne, hagg⟩ := mem_backfillAgg.mp hr
      refine h r.tin hne ?_
      rw [hagg] at hnew
      exact Option.isNone_iff_eq_none.mp (Option.isSome_eq_false_iff.mp hnew)
  have hdry : ∀ res, (backfillAgg x db).foldlM (backfillStep x true ids) (db, res) =
      .ok (db, (backfillAgg x db).foldl report res) := dryRun_loop _
  unfold backfill
  simp only [Bool.false_eq_true, if_false, bind_eq_ok, hdry]
  constructor
  · rintro ⟨⟨db', res⟩, hloop, hs⟩
    obtain ⟨hroom, heq⟩ := (realRun_loop backfillAgg_matches _).mp hloop
    cases heq
    cases hs
    exact ⟨hrooms.mp hroom, rfl, _, rfl, rfl⟩
  · rintro ⟨hroom, hdb, ⟨db', res⟩, heq, hs⟩
    cases heq
    refine ⟨_, (realRun_loop backfillAgg_matches _).mpr ⟨hrooms.mpr hroom, rfl⟩, ?_⟩
    obtain ⟨s₁, s₂⟩ := s
    cases hdb
    cases hs
    rfl

end InvoiceOs.Customers
