import InvoiceOs.Concurrency.Step
import InvoiceOs.Invoice.CreditedNotes

/-! The credit-note cap under concurrent transactions: a note whose checks passed keeps its
room until its commit, as long as no failed note is resolved outside past it. -/

namespace InvoiceOs.Concurrency

open Lib Approval CustomRule Invoice

/-- The invoice whose note checks have passed in this transaction, and the original locked
for them. -/
def Task.cleared : Task → Option (Uuid × Option Uuid)
  | .judged j => if hasBlockingViolation j.vs then none else some (j.doc.id, j.original)
  | .arming j _ => some (j.doc.id, j.original)
  | .requeueing id _ original => some (id, original)
  | _ => none

def pendingOn (db : Db) (u : Task) (original : Uuid) : WithTop Decimal :=
  match u.cleared with
  | some (id, some o) => if o = original then ((db.invoices.get? id).map Row.credit).getD 0 else 0
  | _ => 0

def withinTotal (sum : WithTop Decimal) (total : Numeric) : Bool :=
  match sum, total with
  | _, .nan => true
  | some s, .hundredths orig => s ≤ orig
  | none, .hundredths _ => false

theorem withinTotal_hundredths {sum : WithTop Decimal} {orig : Decimal}
    (h : withinTotal sum (.hundredths orig) = true) : sum ≤ (orig : WithTop Decimal) := by
  cases sum with
  | top => cases h
  | coe s => exact WithTop.coe_le_coe.mpr (of_decide_eq_true h)

/-- A failed credit note is newly resolved outside only where its original's sum, with what
the other task is about to add, has room for it. -/
def marksWithinCap (σ : Store) (_ : Task) : Action → Task → Bool
  | .write (.call (.resolveOutside id _ _)), u =>
    (σ.db.invoices.get? id).all fun r =>
      r.counts || r.documentType != .creditNote || r.originalInvoiceID.all fun original =>
        (σ.db.invoices.get? original).all fun o => o.header.total.all (withinTotal
          (creditedSoFarTx σ.db.invoices original none + r.credit + pendingOn σ.db u original))
  | _, _ => true

section
variable (sha256 : String → String)

structure NoteKnows (σ : Store) (t : Task) : Prop where
  checked : Checked sha256 σ.db t
  cleared : ∀ id original, t.cleared = some (id, original) → ∀ r,
    σ.db.invoices.get? id = some r → r.documentType = .creditNote →
      r.originalInvoiceID = original ∧ r.counts = false ∧ Room σ.db.invoices r

abbrev MarksWithinCap : World Store Task → ℕ × Action → Prop :=
  (protocol sha256).Meets (fun σ t a => marksWithinCap σ t a .idle = true)
    fun σ t a u => marksWithinCap σ t a u = true

end

variable {sha256 : String → String} {σ σ' : Store} {t t' u : Task} {a : Action} {c : Commit}

theorem cleared_holds {id : Uuid} {original : Option Uuid}
    (h : t.cleared = some (id, original)) :
    .invoice id ∈ t.holds ∧ ∀ o, original = some o → .invoice o ∈ t.holds := by
  have hlocks : ∀ j : Judgement, .invoice j.doc.id ∈ j.locks ∧
      ∀ o, j.original = some o → .invoice o ∈ j.locks := by
    intro j
    refine ⟨List.mem_cons_of_mem _ List.mem_cons_self, fun o ho => ?_⟩
    simp [Judgement.locks, ho]
  cases t with
  | judged j =>
    simp only [Task.cleared, Option.ite_none_left_eq_some, Option.some.injEq, Prod.mk.injEq] at h
    obtain ⟨-, rfl, rfl⟩ := h
    exact hlocks j
  | arming j versions =>
    cases h
    exact hlocks j
  | requeueing i actor o =>
    cases h
    refine ⟨List.mem_cons_self, fun o ho => ?_⟩
    simp [Task.holds, ho]
  | _ => cases h

theorem Checked.cleared_row {db : Db} (ht : Checked sha256 db t) {id : Uuid}
    {original : Option Uuid} (h : t.cleared = some (id, original)) :
    ∃ r, db.invoices.get? id = some r ∧ r.status ≠ .accepted := by
  cases t with
  | judged j =>
    simp only [Task.cleared, Option.ite_none_left_eq_some, Option.some.injEq, Prod.mk.injEq] at h
    obtain ⟨-, rfl, -⟩ := h
    obtain ⟨-, row, hrow, hs, -⟩ := ht
    exact ⟨row, hrow, by rw [hs]; decide⟩
  | arming j versions =>
    cases h
    obtain ⟨-, -, row, hrow, hs, -⟩ := ht
    exact ⟨row, hrow, by rw [hs]; decide⟩
  | requeueing i actor o =>
    cases h
    obtain ⟨row, hrow, hs, -⟩ := ht
    exact ⟨row, hrow, by rw [hs]; decide⟩
  | _ => cases h

theorem noteOriginal_eq {db : Db} {id : Uuid} {r : Row} (hr : db.invoices.get? id = some r)
    (hnote : r.documentType = .creditNote) : noteOriginal db id = r.originalInvoiceID := by
  simp [noteOriginal, hr, locksOriginal, hnote]

theorem NoteKnows.reads {s : Statement} (ht : NoteKnows sha256 σ t)
    (h : Reads sha256 σ.db t s t') : NoteKnows sha256 σ t' := by
  refine ⟨ht.checked.reads h, fun id original hcleared r hr hnote => ?_⟩
  cases h with
  | judge h =>
    simp only [Task.cleared, Option.ite_none_left_eq_some, Option.some.injEq,
      Prod.mk.injEq] at hcleared
    obtain ⟨hno, rfl, rfl⟩ := hcleared
    obtain ⟨q, hq, hs, -, -, hvs⟩ := checkValidation_spec h
    obtain rfl : r = q := Option.some.inj (hr.symm.trans hq)
    have his : r.isNote = true := by simp [Row.isNote, hnote]
    rw [hvs, noteVerdict, if_pos his, hasBlockingViolation_append] at hno
    simp only [Bool.not_eq_true, Bool.or_eq_false_iff] at hno
    have hcounts := not_counts_draft hs
    exact ⟨(noteOriginal_eq hr hnote).symm, hcounts, .of_noteViolations hr hcounts hnote hno.2⟩
  | versions hb =>
    refine ht.cleared id original ?_ r hr hnote
    simp only [Task.cleared, hb, Bool.false_eq_true, if_false]
    exact hcleared
  | requeue h =>
    cases hcleared
    obtain ⟨q, hq, hs, hk, hb⟩ := checkRequeue_spec h
    obtain rfl : r = q := Option.some.inj (hr.symm.trans hq)
    have hcounts : r.counts = false := by simp [Row.counts, hs, hk]
    exact ⟨(noteOriginal_eq hr hnote).symm, hcounts, .of_noteViolations hr hcounts hnote hb⟩
  | _ => cases hcleared

theorem NoteKnows.writes (h : Writes sha256 σ t c σ' t') : NoteKnows sha256 σ' t' := by
  refine ⟨Checked.writes h, fun id original hcleared => ?_⟩
  cases h <;> cases hcleared

/-- The commits that can make a note count: of a cleared task, and of a mark. -/
inductive Starter (t : Task) (c : Commit) (id : Uuid) (r : Row) : Prop
  | cleared {original : Option Uuid} (h : t.cleared = some (id, original))
  | mark {caller : Uuid} {reason : String} (h : c = .call (.resolveOutside id caller reason))
      (hs : r.status ≠ .draft)

inductive CreditStep (σ : Store) (t : Task) (c : Commit) (σ' : Store) : Prop
  | quiet (hcap : Capped σ'.db.invoices) (hle : ∀ i, creditedSoFarTx σ'.db.invoices i none ≤
      creditedSoFarTx σ.db.invoices i none)
  | starts {id : Uuid} {r r' : Row} (hr : σ.db.invoices.get? id = some r)
      (hi : σ'.db.invoices = σ.db.invoices.set id r') (hsame : r.SameNote r')
      (hnote : r.documentType = .creditNote) (hcounts : r.counts = false)
      (hstarter : Starter t c id r)

theorem noStart_call {q : Request} {ls : List Lock} (hq : callLocks q = some ls)
    (hmark : ∀ id caller reason, q ≠ .resolveOutside id caller reason) : NoStart q.may where
  assert i := (callLocks_no_promotion hq i).1
  promote i := (callLocks_no_promotion hq i).2
  resolve i := by
    intro hmay
    cases q with
    | resolveOutside id caller reason => exact hmark id caller reason rfl
    | batchSubmit caller requestKey ids => cases hq
    | applyValidation id caller ev runID now => cases hq
    | publishPolicy caller id runIDs now => cases hq
    | transition id target caller => rcases hmay with hm | ⟨hm, -⟩ | ⟨hm, -⟩ <;> cases hm
    | _ => exact nomatch hmay
  requeue i := by
    intro hmay
    cases q with
    | requeueFailed id actor => cases hq
    | batchSubmit caller requestKey ids => cases hq
    | applyValidation id caller ev runID now => cases hq
    | publishPolicy caller id runIDs now => cases hq
    | transition id target caller => rcases hmay with hm | ⟨hm, -⟩ | ⟨hm, -⟩ <;> cases hm
    | _ => exact nomatch hmay

theorem CreditStep.of_set {id : Uuid} {r r' : Row} (hI : Capped σ.db.invoices)
    (hr : σ.db.invoices.get? id = some r) (hacc : r.status ≠ .accepted)
    (hi : σ'.db.invoices = σ.db.invoices.set id r') (hsame : r.SameNote r')
    (hfresh : r.counts = true → r'.status ≠ .draft → r.status ≠ .draft)
    (hstarter : Starter t c id r) : CreditStep σ t c σ' := by
  have hacc' : ∀ q, σ.db.invoices.get? id = some q → q.status ≠ .accepted := by
    intro q hq
    rw [Option.some.inj (hq.symm.trans hr)]
    exact hacc
  by_cases hnote : r.documentType = .creditNote
  · cases hcounts : r.counts with
    | false => exact .starts hr hi hsame hnote hcounts hstarter
    | true =>
      have hout : StaysOut σ.db.invoices id r' := fun _ hd =>
        ⟨r, hr, hsame, hfresh hcounts hd, fun _ => hcounts⟩
      have hquiet := hI.staysOut hacc' hout
      rw [← hi] at hquiet
      exact .quiet hquiet.1 hquiet.2
  · have hout : StaysOut σ.db.invoices id r' := fun htype _ =>
      absurd (hsame.documentType ▸ htype) hnote
    have hquiet := hI.staysOut hacc' hout
    rw [← hi] at hquiet
    exact .quiet hquiet.1 hquiet.2

theorem Writes.credit (hsha : Function.Injective sha256) (h : Writes sha256 σ t c σ' t')
    (ht : Checked sha256 σ.db t) (hI : Capped σ.db.invoices) : CreditStep σ t c σ' := by
  have hquiet : (∀ runIDs now, c ≠ .publish runIDs now) → NoStart (commitMay t c) →
      CreditStep σ t c σ' := by
    intro hne hno
    obtain ⟨hcap, hle⟩ := (h.effects ht hne).capped hsha hno hI
    exact .quiet hcap hle
  have hwrite := h
  cases h with
  | @call q ls db' hq hok =>
    by_cases hmark : ∃ id caller reason, q = .resolveOutside id caller reason
    · obtain ⟨id, caller, reason, rfl⟩ := hmark
      obtain ⟨r, hr, hs, rfl⟩ := resolveOutside_spec hok
      exact .of_set hI hr (by rw [hs]; decide) rfl ⟨rfl, rfl, rfl⟩
        (fun _ _ => by rw [hs]; decide) (.mark rfl (by rw [hs]; decide))
    · refine hquiet (fun _ _ => nofun) (noStart_call hq fun id caller reason heq => ?_)
      exact hmark ⟨id, caller, reason, heq⟩
  | stamp => exact hquiet (fun _ _ => nofun) ⟨nofun, nofun, nofun, nofun⟩
  | promote hok =>
    obtain ⟨row, row', hrow, hs, -, rfl, harm, -⟩ := promote_spec ht hok
    refine .of_set hI hrow (by rw [hs]; decide) (armTx_invoices harm) ⟨rfl, rfl, rfl⟩
      (fun hc => ?_) (.cleared rfl)
    rw [not_counts_draft hs] at hc
    cases hc
  | publish =>
    have hi := hwrite.publish_invoices
    refine .quiet (by rw [hi]; exact hI) fun i => ?_
    rw [hi]
  | batch =>
    refine hquiet (fun _ _ => nofun) ⟨?_, ?_, ?_, ?_⟩
    · rintro i ⟨id, -, hm | hm⟩ <;> cases hm
    · rintro i ⟨id, -, hm | hm⟩ <;> cases hm
    · rintro i ⟨id, -, hm | hm⟩ <;> cases hm
    · rintro i versions ⟨id, -, hm | hm⟩ <;> cases hm
  | queue =>
    refine hquiet (fun _ _ => nofun) ⟨?_, ?_, ?_, ?_⟩
    · rintro i (hm | hm) <;> cases hm
    · rintro i (hm | hm) <;> cases hm
    · rintro i (hm | hm) <;> cases hm
    · rintro i versions (hm | hm) <;> cases hm
  | requeue hok =>
    obtain ⟨row, hrow, hs, hk⟩ := ht
    simp only [commitRequeue, bind_eq_ok, Db.getInvoice_eq_ok, hrow, pure_eq_ok,
      Option.some.injEq] at hok
    obtain ⟨q, rfl, rfl⟩ := hok
    exact .of_set hI hrow (by rw [hs]; decide) rfl ⟨rfl, rfl, rfl⟩
      (fun _ _ => by rw [hs]; decide) (.cleared rfl)
  | pass => exact .quiet hI fun _ => le_refl _
  | skip => exact .quiet hI fun _ => le_refl _
  | demote =>
    exact hquiet (fun _ _ => nofun)
      ⟨fun _ hm => (nomatch hm.2), fun _ hm => (nomatch hm.2), fun _ hm => (nomatch hm.2),
        fun _ _ hm => (nomatch hm.2)⟩
  | mark => exact .quiet hI fun _ => le_refl _

theorem marked_room {id caller : Uuid} {reason : String} {r : Row} {original : Uuid} {o : Row}
    {orig : Decimal} (hr : σ.db.invoices.get? id = some r) (hnote : r.documentType = .creditNote)
    (hcounts : r.counts = false) (horiginal : r.originalInvoiceID = some original)
    (ho : σ.db.invoices.get? original = some o) (htotal : o.header.total = some (.hundredths orig))
    (hD : marksWithinCap σ t (.write (.call (.resolveOutside id caller reason))) u = true) :
    creditedSoFarTx σ.db.invoices original none + r.credit + pendingOn σ.db u original ≤
      (orig : WithTop Decimal) := by
  simp only [marksWithinCap, hr, hcounts, hnote, horiginal, ho, htotal, Option.all_some,
    Bool.false_or, bne_self_eq_false] at hD
  exact withinTotal_hundredths hD

theorem Starter.room {id : Uuid} {r : Row} (hstarter : Starter t c id r)
    (hI : Capped σ.db.invoices) (ht : NoteKnows sha256 σ t)
    (hD : marksWithinCap σ t (.write c) .idle = true) (hr : σ.db.invoices.get? id = some r)
    (hnote : r.documentType = .creditNote) (hcounts : r.counts = false) :
    Room σ.db.invoices r := by
  cases hstarter with
  | cleared h => exact (ht.cleared _ _ h r hr hnote).2.2
  | mark hc hs =>
    subst hc
    obtain ⟨original, o, orig, total, hq, ho, hcred, htotal, hpos⟩ := hI.notes hr hnote hs
    have hle := marked_room hr hnote hcounts hq ho hcred.total hD
    have hnone : pendingOn σ.db .idle original = 0 := rfl
    rw [hnone, add_zero, Row.credit_of_total htotal] at hle
    exact ⟨original, o, orig, total, hq, ho, hcred, htotal, hpos, hle⟩

theorem Capped.next (hsha : Function.Injective sha256) (hI : Capped σ.db.invoices)
    (ht : NoteKnows sha256 σ t) (hC : marksWithinCap σ t a .idle = true)
    (h : (protocol sha256).next σ t a = some (σ', t')) : Capped σ'.db.invoices := by
  obtain ⟨s, rfl, rfl, -⟩ | ⟨c, rfl, hw⟩ := next_cases sha256 h
  · exact hI
  · cases hw.credit hsha ht.checked hI with
    | quiet hcap => exact hcap
    | starts hr hi hsame hnote hcounts hstarter =>
      rw [hi]
      exact hI.starts hr hnote hcounts hsame (hstarter.room hI ht hC hr hnote hcounts)

theorem Writes.accepted (hsha : Function.Injective sha256) (h : Writes sha256 σ t c σ' t')
    (ht : Checked sha256 σ.db t) {i : Uuid} {o : Row} (ho : σ.db.invoices.get? i = some o)
    (hs : o.status = .accepted) : σ'.db.invoices.get? i = some o := by
  by_cases hpublish : ∃ runIDs now, c = .publish runIDs now
  · obtain ⟨runIDs, now, rfl⟩ := hpublish
    rw [h.publish_invoices, ho]
  · refine (h.effects ht ?_).accepted hsha ho hs
    rintro runIDs now rfl
    exact hpublish ⟨runIDs, now, rfl⟩

theorem not_both_cleared {id id' : Uuid} {original : Uuid}
    (hu : u.cleared = some (id, some original)) (ht : t.cleared = some (id', some original))
    (hapart : (protocol sha256).Apart (t.holds ++ needs sha256 σ t a) u.holds) : False := by
  have hlock := (cleared_holds hu).2 original rfl
  exact not_mem_of_apart hapart hlock
    (List.mem_append_left _ ((cleared_holds ht).2 original rfl))

theorem Room.others (hsha : Function.Injective sha256) (hI : Capped σ.db.invoices)
    (ht : NoteKnows sha256 σ t) (hD : marksWithinCap σ t (.write c) u = true)
    (h : Writes sha256 σ t c σ' t')
    (hapart : (protocol sha256).Apart (t.holds ++ needs sha256 σ t (.write c)) u.holds) {id : Uuid}
    {original : Option Uuid} (hu : u.cleared = some (id, original)) {r : Row}
    (hr : σ.db.invoices.get? id = some r) (horiginal : r.originalInvoiceID = original)
    (hroom : Room σ.db.invoices r) : Room σ'.db.invoices r := by
  obtain ⟨q, o, orig, total, hq, ho, hcred, htotal, hpos, hle⟩ := hroom
  refine ⟨q, o, orig, total, hq, h.accepted hsha ht.checked ho hcred.status, hcred, htotal, hpos, ?_⟩
  have hu' : u.cleared = some (id, some q) := by rw [hu, ← horiginal, hq]
  cases h.credit hsha ht.checked hI with
  | quiet _ hquiet => exact (add_le_add_left (hquiet q) _).trans hle
  | @starts i p p' hp hi hsame hnote hcounts hstarter =>
    rw [hi, creditedSoFarTx_set hp hcounts]
    by_cases hpq : p.originalInvoiceID = some q
    · cases hstarter with
      | cleared hcleared =>
        obtain ⟨horig, -, -⟩ := ht.cleared _ _ hcleared p hp hnote
        rw [← horig, hpq] at hcleared
        exact (not_both_cleared hu' hcleared hapart).elim
      | mark hc hs =>
        subst hc
        have hmark := marked_room hp hnote hcounts hpq ho hcred.total hD
        have hpending : pendingOn σ.db u q = (total : WithTop Decimal) := by
          simp [pendingOn, hu', hr, Row.credit_of_total htotal]
        have hnonneg : 0 ≤ p'.credit := by
          rw [hsame.credit]
          exact (hI.notes hp hnote hs).credit_nonneg
        rw [hpending] at hmark
        calc creditOn q none i p' + creditedSoFarTx σ.db.invoices q none + (total : WithTop Decimal)
            ≤ p.credit + creditedSoFarTx σ.db.invoices q none + (total : WithTop Decimal) := by
              rw [← hsame.credit]
              exact add_le_add_left (add_le_add_left (creditOn_le_credit hnonneg) _) _
          _ = creditedSoFarTx σ.db.invoices q none + p.credit + (total : WithTop Decimal) := by
              rw [add_comm p.credit]
          _ ≤ orig := hmark
    · have hother : p'.originalInvoiceID ≠ some q := by
        rw [hsame.originalInvoiceID]
        exact hpq
      rw [creditOn_of_other hother, zero_add]
      exact hle

theorem NoteKnows.others (hsha : Function.Injective sha256) (hI : Capped σ.db.invoices)
    (ht : NoteKnows sha256 σ t) (hu : NoteKnows sha256 σ u)
    (hD : marksWithinCap σ t a u = true) (h : (protocol sha256).next σ t a = some (σ', t'))
    (hapart : (protocol sha256).Apart (t.holds ++ needs sha256 σ t a) u.holds) :
    NoteKnows sha256 σ' u := by
  obtain ⟨s, rfl, rfl, -⟩ | ⟨c, rfl, hw⟩ := next_cases sha256 h
  · exact hu
  · refine ⟨hu.checked.others ht.checked hw hapart, fun id original hcleared r hr hnote => ?_⟩
    obtain ⟨r₀, hr₀, -⟩ := hu.checked.cleared_row hcleared
    have hkept := hw.keeps_locked ht.checked hapart (cleared_holds hcleared).1 hr₀
    obtain rfl : r = r₀ := Option.some.inj (hr.symm.trans hkept)
    obtain ⟨horiginal, hcounts, hroom⟩ := hu.cleared id original hcleared r hr₀ hnote
    exact ⟨horiginal, hcounts,
      Room.others hsha hI ht hD hw hapart hcleared hr₀ horiginal hroom⟩

theorem credit_outline (hsha : Function.Injective sha256) : (protocol sha256).Outline
    (fun σ t a => marksWithinCap σ t a .idle = true)
    (fun σ t a u => marksWithinCap σ t a u = true)
    (fun σ => Capped σ.db.invoices) (NoteKnows sha256) (fun _ _ => True) where
  store hI ht hC h := Capped.next hsha hI ht hC h
  own _ ht _ h := by
    obtain ⟨s, -, rfl, hr⟩ | ⟨c, -, hw⟩ := next_cases sha256 h
    · exact ht.reads hr
    · exact .writes hw
  other hI ht _ h hu _ hD hapart := ht.others hsha hI hu hD h hapart
  pair _ _ _ _ _ _ _ _ := ⟨trivial, trivial⟩

/-- In every run whose marks stay within the cap: the credit notes counted against an accepted
commercial invoice, whose total is a number and not negative, never exceed it. -/
theorem credit_notes_within_total {sha256 : String → String} (hsha : Function.Injective sha256)
    {db : Db} {steps : List (ℕ × Action)} {w : World Store Task} (hempty : db.invoices = ∅)
    (hmeets : Along (protocol sha256).step (MarksWithinCap sha256) (start db) steps)
    (hrun : runFrom (protocol sha256).step (start db) steps = some w) {i : Uuid} {o : Row}
    {total : Decimal} (ho : w.store.db.invoices.get? i = some o)
    (htype : o.documentType = .commercialInvoice) (hs : o.status = .accepted)
    (htotal : o.header.total = some (.hundredths total)) (hpos : 0 ≤ total) :
    creditedSoFarTx w.store.db.invoices i none ≤ (total : WithTop Decimal) := by
  have hstart : Capped (start db).store.db.invoices := by
    have hnone : ∀ i, db.invoices.get? i = none := by
      intro i
      rw [hempty]
      exact Table.get?_empty i
    refine ⟨fun {i r} hr => ?_, fun {i o orig} ho => ?_⟩
    · rw [show (start db).store.db = db from rfl, hnone i] at hr
      cases hr
    · rw [show (start db).store.db = db from rfl, hnone i] at ho
      cases ho
  have hend := (Protocol.Holds.start (p := protocol sha256) hstart ⟨trivial, nofun⟩ trivial).run
    (credit_outline hsha) hmeets hrun
  exact hend.store.cap ho ⟨htype, hs, htotal⟩ hpos

def document (number : String) (type : DocumentType) (original : Option Uuid) (kobo : ℤ) :
    CreateInput where
  entityID := 5
  documentType := type
  originalInvoiceID := original
  header := { invoiceNumber := number, currency := some "NGN", total := some (.hundredths kobo) }

def invoiceAndNotes : List (ℕ × Action) :=
  [(0, .write (.call (.create 1 40 (document "INV-1" .commercialInvoice none 10000)))),
    (0, .write (.call (.create 1 41 (document "CN-1" .creditNote (some 40) 6000)))),
    (0, .write (.call (.create 1 42 (document "CN-2" .creditNote (some 40) 6000))))]

def gated (id runID : Uuid) : List (ℕ × Action) :=
  [(1, .read (.get id)), (1, .read .getLines), (1, .read (.evaluate (fun _ => []) fun _ => 60)),
    (1, .read (.apply 1)), (1, .read .readVersions), (1, .write (.verdict runID 0))]

def sent (id : Uuid) : List (ℕ × Action) :=
  [(1, .read (.queue id 1)), (1, .read .readPending), (1, .read .readClear), (1, .write .queue)]

def accepted (id : Uuid) : List (ℕ × Action) :=
  [(0, .write (.call (.markAccepted id "IRN-1" "CSID-1" "QR-1")))]

def firstNoteFailed : List (ℕ × Action) :=
  invoiceAndNotes ++ gated 40 50 ++ sent 40 ++ accepted 40 ++ gated 41 51 ++ sent 41 ++
    [(0, .write (.call (.markFailed 41 .neverAcknowledged)))]

def resolved : List (ℕ × Action) := [(0, .write (.call (.resolveOutside 41 1 "filed by hand")))]

theorem credit_notes_within_total_sample :
    ∃ w o, runFrom (protocol id).step (start emptyDb) (firstNoteFailed ++ resolved) = some w ∧
      w.store.db.invoices.get? 40 = some o ∧ o.status = .accepted ∧
      creditedSoFarTx w.store.db.invoices 40 none = ((6000 : Decimal) : WithTop Decimal) ∧
      creditedSoFarTx w.store.db.invoices 40 none ≤ ((10000 : Decimal) : WithTop Decimal) := by
  have htest : (runFrom (protocol id).step (start emptyDb) (firstNoteFailed ++ resolved)).any
      (fun w => (w.store.db.invoices.get? 40).any fun o => o.documentType == .commercialInvoice &&
        o.status == .accepted && o.header.total == some (.hundredths 10000) &&
        creditedSoFarTx w.store.db.invoices 40 none == ((6000 : Decimal) : WithTop Decimal)) =
          true := by decide +kernel
  obtain ⟨w, hrun, hw⟩ := (Option.any_eq_true _ _).mp htest
  obtain ⟨o, ho, hrow⟩ := (Option.any_eq_true _ _).mp hw
  simp only [Bool.and_eq_true, beq_iff_eq] at hrow
  obtain ⟨⟨⟨htype, hs⟩, htotal⟩, hsum⟩ := hrow
  exact ⟨w, o, hrun, ho, hs, hsum, credit_notes_within_total Function.injective_id rfl
    (by decide +kernel) hrun ho htype hs htotal (by decide)⟩

theorem resolved_past_total :
    ∃ w o, runFrom (protocol id).step (start emptyDb)
        (firstNoteFailed ++ gated 42 52 ++ resolved) = some w ∧
      w.store.db.invoices.get? 40 = some o ∧ o.documentType = .commercialInvoice ∧
      o.status = .accepted ∧ o.header.total = some (.hundredths 10000) ∧
      creditedSoFarTx w.store.db.invoices 40 none = ((12000 : Decimal) : WithTop Decimal) ∧
      ¬ creditedSoFarTx w.store.db.invoices 40 none ≤ ((10000 : Decimal) : WithTop Decimal) := by
  have htest : (runFrom (protocol id).step (start emptyDb)
      (firstNoteFailed ++ gated 42 52 ++ resolved)).any
      (fun w => (w.store.db.invoices.get? 40).any fun o => o.documentType == .commercialInvoice &&
        o.status == .accepted && o.header.total == some (.hundredths 10000) &&
        creditedSoFarTx w.store.db.invoices 40 none == ((12000 : Decimal) : WithTop Decimal)) =
          true := by decide +kernel
  obtain ⟨w, hrun, hw⟩ := (Option.any_eq_true _ _).mp htest
  obtain ⟨o, ho, hrow⟩ := (Option.any_eq_true _ _).mp hw
  simp only [Bool.and_eq_true, beq_iff_eq] at hrow
  obtain ⟨⟨⟨htype, hs⟩, htotal⟩, hsum⟩ := hrow
  exact ⟨w, o, hrun, ho, htype, hs, htotal, hsum, by rw [hsum]; decide⟩

end InvoiceOs.Concurrency
