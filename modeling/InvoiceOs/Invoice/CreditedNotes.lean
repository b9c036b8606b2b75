import InvoiceOs.Invoice.Effect
import InvoiceOs.Invoice.Fingerprint

/-! The cap on credit notes: what the commits that make no note count keep of it, and what
one that does owes. -/

namespace InvoiceOs.Invoice

open Lib Approval

structure Row.Creditable (o : Row) (orig : Decimal) : Prop where
  documentType : o.documentType = .commercialInvoice
  status : o.status = .accepted
  total : o.header.total = some (.hundredths orig)

structure Row.SameNote (r r' : Row) : Prop where
  documentType : r'.documentType = r.documentType
  originalInvoiceID : r'.originalInvoiceID = r.originalInvoiceID
  total : r'.header.total = r.header.total

def HasOriginal (invoices : Invoices) (r : Row) : Prop :=
  ∃ original o, ∃ orig total : Decimal, r.originalInvoiceID = some original ∧
    invoices.get? original = some o ∧ o.Creditable orig ∧
    r.header.total = some (.hundredths total) ∧ 0 ≤ total

structure Capped (invoices : Invoices) : Prop where
  notes : ∀ {i : Uuid} {r : Row}, invoices.get? i = some r → r.documentType = .creditNote →
    r.status ≠ .draft → HasOriginal invoices r
  cap : ∀ {i : Uuid} {o : Row} {orig : Decimal}, invoices.get? i = some o → o.Creditable orig →
    0 ≤ orig → creditedSoFarTx invoices i none ≤ orig

def StaysOut (invoices : Invoices) (id : Uuid) (r' : Row) : Prop :=
  r'.documentType = .creditNote → r'.status ≠ .draft → ∃ r, invoices.get? id = some r ∧
    r.SameNote r' ∧ r.status ≠ .draft ∧ (r'.counts = true → r.counts = true)

variable {invoices : Invoices} {id : Uuid} {r r' : Row}

theorem Row.SameNote.credit (h : r.SameNote r') : r'.credit = r.credit := by
  unfold Row.credit
  rw [h.total]

theorem Row.credit_of_total {total : Decimal} (h : r.header.total = some (.hundredths total)) :
    r.credit = (total : WithTop Decimal) := by
  unfold Row.credit
  rw [h]
  rfl

theorem Row.counts_spec (h : r.counts = true) :
    r.documentType = .creditNote ∧ r.status ≠ .draft ∧ r.status ≠ .rejected := by
  simp only [Row.counts, Bool.and_eq_true, beq_iff_eq, Bool.or_eq_true, bne_iff_ne] at h
  obtain ⟨htype, ⟨⟨hd, hr⟩, -⟩ | ⟨hf, -⟩⟩ := h
  · exact ⟨htype, hd, hr⟩
  · exact ⟨htype, by rw [hf]; decide, by rw [hf]; decide⟩

theorem not_counts_draft (h : r.status = .draft) : r.counts = false := by
  rw [Bool.eq_false_iff]
  exact fun hc => (Row.counts_spec hc).2.1 h

theorem creditOn_of_not_counts {original : Uuid} (h : r.counts = false) :
    creditOn original none id r = 0 := by
  simp [creditOn, h]

theorem creditOn_of_other {original : Uuid} (h : r.originalInvoiceID ≠ some original) :
    creditOn original none id r = 0 := by
  simp [creditOn, h]

theorem creditOn_le_credit {original : Uuid} (h : 0 ≤ r.credit) :
    creditOn original none id r ≤ r.credit := by
  unfold creditOn
  split
  · exact le_refl _
  · exact h

theorem HasOriginal.credit_nonneg (h : HasOriginal invoices r) : 0 ≤ r.credit := by
  obtain ⟨original, o, orig, total, -, -, -, htotal, hpos⟩ := h
  rw [Row.credit_of_total htotal]
  exact WithTop.coe_nonneg.mpr hpos

theorem Capped.creditOn_nonneg (hI : Capped invoices) (hr : invoices.get? id = some r)
    (original : Uuid) : 0 ≤ creditOn original none id r := by
  unfold creditOn
  split
  · rename_i hcounts
    obtain ⟨htype, hd, -⟩ := Row.counts_spec hcounts.2.1
    exact (hI.notes hr htype hd).credit_nonneg
  · exact le_refl _

theorem Capped.share_nonneg (hI : Capped invoices) (id original : Uuid) :
    0 ≤ invoices.share (creditOn original none) id := by
  unfold Table.share
  cases hr : invoices.get? id with
  | none => exact le_refl _
  | some r => exact hI.creditOn_nonneg hr original

theorem Capped.set (hI : Capped invoices)
    (hacc : ∀ r, invoices.get? id = some r → r.status ≠ .accepted)
    (hnote : r'.documentType = .creditNote → r'.status ≠ .draft → HasOriginal invoices r')
    (hcap : ∀ {i : Uuid} {o : Row} {orig : Decimal}, invoices.get? i = some o →
      o.Creditable orig → 0 ≤ orig → creditedSoFarTx (invoices.set id r') i none ≤ orig) :
    Capped (invoices.set id r') := by
  have hkeep : ∀ {q : Row}, HasOriginal invoices q → HasOriginal (invoices.set id r') q := by
    rintro q ⟨original, o, orig, total, hq, ho, hc, htotal, hpos⟩
    have hne : original ≠ id := by
      rintro rfl
      exact hacc o ho hc.status
    exact ⟨original, o, orig, total, hq, by rw [Table.get?_set_of_ne _ _ hne, ho], hc, htotal,
      hpos⟩
  constructor
  · intro i q hq htype hd
    rw [Table.get?_set] at hq
    split at hq
    · cases hq
      exact hkeep (hnote htype hd)
    · exact hkeep (hI.notes hq htype hd)
  · intro i o orig ho hc hpos
    by_cases hi : i = id
    · -- an invoice accepted now: its notes were drafts until it was
      have hzero : creditedSoFarTx (invoices.set id r') i none = 0 := by
        refine Table.sum_eq_zero fun j q hq => ?_
        unfold creditOn
        split
        · rename_i hcounts
          obtain ⟨htype, hd, -⟩ := Row.counts_spec hcounts.2.1
          have horiginal : HasOriginal invoices q := by
            rw [Table.get?_set] at hq
            split at hq
            · cases hq
              exact hnote htype hd
            · exact hI.notes hq htype hd
          obtain ⟨original, o', orig', total, hqo, ho', hc', -, -⟩ := horiginal
          have hsame : original = id := hi ▸ Option.some.inj (hqo.symm.trans hcounts.1)
          exact absurd hc'.status (hacc o' (hsame ▸ ho'))
        · rfl
      rw [hzero]
      exact WithTop.coe_nonneg.mpr hpos
    · rw [Table.get?_set_of_ne _ _ hi] at ho
      exact hcap ho hc hpos

theorem Capped.staysOut (hI : Capped invoices)
    (hacc : ∀ r, invoices.get? id = some r → r.status ≠ .accepted)
    (hout : StaysOut invoices id r') :
    Capped (invoices.set id r') ∧ ∀ i,
      creditedSoFarTx (invoices.set id r') i none ≤ creditedSoFarTx invoices i none := by
  have hle : ∀ i,
      creditedSoFarTx (invoices.set id r') i none ≤ creditedSoFarTx invoices i none := by
    intro i
    refine Table.sum_set_le ?_
    by_cases hcounts : r'.counts = true
    · obtain ⟨htype, hd, -⟩ := Row.counts_spec hcounts
      obtain ⟨r, hr, hsame, -, hbefore⟩ := hout htype hd
      rw [Table.share_of_get? _ hr]
      simp only [creditOn, hsame.originalInvoiceID, hcounts, hbefore hcounts, hsame.credit]
      exact le_refl _
    · rw [creditOn_of_not_counts (by simpa using hcounts)]
      exact hI.share_nonneg id i
  refine ⟨hI.set hacc (fun htype hd => ?_) fun ho hc hpos => (hle _).trans (hI.cap ho hc hpos), hle⟩
  obtain ⟨r, hr, hsame, hbefore, -⟩ := hout htype hd
  obtain ⟨original, o, orig, total, hq, ho, hc, htotal, hpos⟩ :=
    hI.notes hr (hsame.documentType ▸ htype) hbefore
  exact ⟨original, o, orig, total, hsame.originalInvoiceID.trans hq, ho, hc,
    hsame.total.trans htotal, hpos⟩

theorem creditedSoFarTx_set {original : Uuid} (hr : invoices.get? id = some r)
    (hcounts : r.counts = false) :
    creditedSoFarTx (invoices.set id r') original none =
      creditOn original none id r' + creditedSoFarTx invoices original none := by
  refine Table.sum_set_add ?_ r'
  rw [Table.share_of_get? _ hr, creditOn_of_not_counts hcounts]

def Room (invoices : Invoices) (r : Row) : Prop :=
  ∃ original o, ∃ orig total : Decimal, r.originalInvoiceID = some original ∧
    invoices.get? original = some o ∧ o.Creditable orig ∧
    r.header.total = some (.hundredths total) ∧ 0 ≤ total ∧
    creditedSoFarTx invoices original none + (total : WithTop Decimal) ≤ orig

theorem Room.hasOriginal (h : Room invoices r) : HasOriginal invoices r := by
  obtain ⟨original, o, orig, total, hq, ho, hc, htotal, hpos, -⟩ := h
  exact ⟨original, o, orig, total, hq, ho, hc, htotal, hpos⟩

theorem Room.of_noteViolations (hr : invoices.get? id = some r) (hno : r.counts = false)
    (hnote : r.documentType = .creditNote)
    (h : hasBlockingViolation
      (noteViolations r (readOriginalFactsTx invoices r.originalInvoiceID id)) = false) :
    Room invoices r := by
  obtain ⟨original, o, hq, ho, htype, hs, total, orig, htotal, hpos, horig, hle⟩ :=
    noteViolations_clear hnote h
  rw [creditedSoFarTx_exclude hr hno] at hle
  exact ⟨original, o, orig, total, hq, ho, ⟨htype, hs, horig⟩, htotal, hpos, hle⟩

theorem Capped.starts (hI : Capped invoices) (hr : invoices.get? id = some r)
    (hnote : r.documentType = .creditNote) (hcounts : r.counts = false) (hsame : r.SameNote r')
    (hroom : Room invoices r) : Capped (invoices.set id r') := by
  have hacc' : ∀ q, invoices.get? id = some q → q.status ≠ .accepted := by
    intro q hq hacc
    obtain rfl : q = r := Option.some.inj (hq.symm.trans hr)
    simp [Row.counts, hnote, hacc] at hcounts
  refine hI.set hacc' (fun _ _ => ?_) fun {i o orig} ho hc hpos => ?_
  · obtain ⟨original, o, orig, total, hq, ho, hc, htotal, hpos⟩ := hroom.hasOriginal
    exact ⟨original, o, orig, total, hsame.originalInvoiceID.trans hq, ho, hc,
      hsame.total.trans htotal, hpos⟩
  · rw [creditedSoFarTx_set hr hcounts]
    obtain ⟨original, o', orig', total, hq, ho', hc', htotal, htpos, hle⟩ := hroom
    by_cases hi : i = original
    · subst hi
      obtain rfl : o = o' := Option.some.inj (ho.symm.trans ho')
      have horig : orig = orig' := by
        have htotals := hc.total.symm.trans hc'.total
        cases htotals
        rfl
      have hcredit : r'.credit = (total : WithTop Decimal) := by
        rw [hsame.credit, Row.credit_of_total htotal]
      have hnonneg : 0 ≤ r'.credit := by
        rw [hcredit]
        exact WithTop.coe_nonneg.mpr htpos
      calc creditOn i none id r' + creditedSoFarTx invoices i none
          ≤ r'.credit + creditedSoFarTx invoices i none :=
            add_le_add_left (creditOn_le_credit hnonneg) _
        _ = creditedSoFarTx invoices i none + (total : WithTop Decimal) := by
            rw [hcredit, add_comm]
        _ ≤ orig := by
            rw [horig]
            exact hle
    · have hne : r'.originalInvoiceID ≠ some i := by
        rw [hsame.originalInvoiceID, hq]
        exact fun h => hi (Option.some.inj h).symm
      rw [creditOn_of_other hne, zero_add]
      exact hI.cap ho hc hpos

/-! ### The commits -/

section
variable {sha256 : String → String} {may : Move → Prop} {db db' : Db}

theorem Rewrite.not_accepted (h : Rewrite sha256 may id r r') : r.status ≠ .accepted := by
  intro hacc
  cases h with
  | resave _ hs =>
    rw [hacc] at hs
    cases hs
  | advance _ _ _ hlegal =>
    rw [hacc] at hlegal
    cases hlegal
  | edit _ hs => exact nomatch hacc.symm.trans hs
  | stamp _ hs => exact nomatch hacc.symm.trans hs
  | keep _ hs => exact nomatch hacc.symm.trans hs
  | resolve _ hs => exact nomatch hacc.symm.trans hs
  | unresolve _ hs => exact nomatch hacc.symm.trans hs
  | requeue _ _ _ hs => exact nomatch hacc.symm.trans hs
  | assert _ _ hs => exact nomatch hacc.symm.trans hs

structure NoStart (may : Move → Prop) : Prop where
  assert : ∀ i, ¬ may (.assert i)
  resolve : ∀ i, ¬ may (.resolve i)
  requeue : ∀ i, ¬ may (.requeue i)
  promote : ∀ i versions, ¬ may (.promote i versions)

theorem staysOut_advance (hr : invoices.get? id = some r) (hframe : r.Frame r')
    (hlegal : canTransition r.status r'.status = true) (hv : r'.status ≠ .validated) :
    StaysOut invoices id r' := by
  intro htype hd
  have hsame : r.SameNote r' :=
    ⟨hframe.documentType, hframe.originalInvoiceID, by rw [hframe.header]⟩
  refine ⟨r, hr, hsame, ?_, fun _ => ?_⟩
  · intro hdraft
    rw [hdraft] at hlegal
    exact hv (by simpa [canTransition, legalTransitions] using hlegal)
  · rw [hframe.documentType] at htype
    cases hs : r.status <;> rw [hs] at hlegal <;>
      simp_all [canTransition, legalTransitions, Row.counts]

theorem Rewrite.staysOut (hsha : Function.Injective sha256) (hno : NoStart may)
    (hr : invoices.get? id = some r) (h : Rewrite sha256 may id r r') :
    StaysOut invoices id r' := by
  have hdraft : r'.status = .draft → StaysOut invoices id r' := fun hs _ hd => absurd hs hd
  cases h with
  | @resave header lines _ _ hfp =>
    intro _ hd
    have htotal : header.total = r.header.total := fingerprintStream_total (hsha hfp)
    exact ⟨r, hr, ⟨rfl, rfl, htotal⟩, hd, fun hc => hc⟩
  | edit _ hs => exact hdraft hs
  | stamp _ hs => exact hdraft hs
  | keep _ hs => exact hdraft hs
  | resolve hmay => exact absurd hmay (hno.resolve id)
  | unresolve _ hs =>
    intro _ hd
    refine ⟨r, hr, ⟨rfl, rfl, rfl⟩, hd, fun hc => ?_⟩
    simp [Row.counts, hs] at hc
  | advance _ hframe _ hlegal _ hv => exact staysOut_advance hr hframe hlegal hv
  | requeue hmay => exact absurd hmay (hno.requeue id)
  | assert hmay => exact absurd hmay (hno.assert id)

theorem Effect.write (hsha : Function.Injective sha256) (h : Effect sha256 may db db') :
    db'.invoices = db.invoices ∨ ∃ i q, db'.invoices = db.invoices.set i q ∧
      (∀ p, db.invoices.get? i = some p → p.status ≠ .accepted) ∧
      (NoStart may → StaysOut db.invoices i q) := by
  have hrow : ∀ {i : Uuid} {p : Row}, db.invoices.get? i = some p → p.status ≠ .accepted →
      ∀ p', db.invoices.get? i = some p' → p'.status ≠ .accepted := by
    intro i p hp hacc p' hp'
    rw [Option.some.inj (hp'.symm.trans hp)]
    exact hacc
  cases h with
  | elsewhere hi => exact .inl hi
  | policies _ hi => exact .inl hi
  | revisions _ hi => exact .inl hi
  | create _ hnew hs hi =>
    refine .inr ⟨_, _, hi, fun p hp => ?_, fun _ _ hd => absurd hs hd⟩
    rw [hnew] at hp
    cases hp
  | rewrite hr hw hi =>
    exact .inr ⟨_, _, hi, hrow hr hw.not_accepted, fun hno => hw.staysOut hsha hno hr⟩
  | demote _ hr hs hi _ hs' =>
    refine .inr ⟨_, _, hi, hrow hr ?_, fun _ _ hd => absurd hs' hd⟩
    rcases hs with hs | hs <;> rw [hs] <;> decide
  | promote hmay hr hs _ harm =>
    refine .inr ⟨_, _, armTx_invoices harm, hrow hr ?_, fun hno => absurd hmay (hno.promote _ _)⟩
    rw [hs]
    decide
  | arm _ _ _ _ harm => exact .inl (armTx_invoices harm)
  | decide _ hok =>
    obtain ⟨q, k, run, s, why, asDelegate, hq, hs, -, -, -, -, -, -, ⟨-, rfl⟩ | ⟨-, rfl⟩⟩ :=
      decide_spec hok
    · exact .inl rfl
    · refine .inr ⟨_, _, rfl, hrow hq ?_, fun _ _ hd => absurd rfl hd⟩
      rw [hs]
      decide

theorem Effects.accepted (hsha : Function.Injective sha256) (h : Effects sha256 may db db')
    {i : Uuid} {o : Row} (ho : db.invoices.get? i = some o) (hs : o.status = .accepted) :
    db'.invoices.get? i = some o := by
  induction h with
  | refl => exact ho
  | tail _ hlast ih =>
    rcases hlast.write hsha with hi | ⟨j, q, hi, hacc, -⟩
    · rw [hi, ih]
    · have hne : i ≠ j := by
        rintro rfl
        exact hacc o ih hs
      rw [hi, Table.get?_set_of_ne _ _ hne, ih]

theorem Effects.capped (hsha : Function.Injective sha256) (hno : NoStart may)
    (h : Effects sha256 may db db') (hI : Capped db.invoices) :
    Capped db'.invoices ∧ ∀ i,
      creditedSoFarTx db'.invoices i none ≤ creditedSoFarTx db.invoices i none := by
  induction h with
  | refl => exact ⟨hI, fun _ => le_refl _⟩
  | tail _ hlast ih =>
    obtain ⟨hmid, hle⟩ := ih
    rcases hlast.write hsha with hi | ⟨j, q, hi, hacc, hout⟩
    · rw [hi]
      exact ⟨hmid, hle⟩
    · rw [hi]
      obtain ⟨hlater, hle'⟩ := hmid.staysOut hacc (hout hno)
      exact ⟨hlater, fun i => (hle' i).trans (hle i)⟩

end
end InvoiceOs.Invoice
