import InvoiceOs.Invoice.Request
import InvoiceOs.Lib.Run

/-! Approved content is sent content: over every run of requests, a live run was armed on the
content its invoice still has, and what leaves for the authority is what was approved. -/

namespace InvoiceOs.Invoice

open Lib Approval CustomRule

section
variable (sha256 : String → String)

structure ApprovedContent (db : Db) : Prop where
  unique : ∀ {k k' : Uuid} {run run' : Run}, db.runs.get? k = some run →
    db.runs.get? k' = some run' → run.live = true → run'.live = true →
    run.invoiceID = run'.invoiceID → k = k'
  current : ∀ {k : Uuid} {run : Run}, db.runs.get? k = some run → run.live = true →
    ∃ r, db.invoices.get? run.invoiceID = some r ∧ r.status ≠ .draft ∧
      run.contentFingerprint = r.fingerprint sha256

def VerdictCurrent (db : Db) : Prop :=
  ∀ (i : Uuid) (r : Row), db.invoices.get? i = some r → r.status ≠ .draft →
    r.verdictFingerprint = some (r.fingerprint sha256)

end

variable {sha256 : String → String} {may : Move → Prop} {db db' : Db}

/-! ### One effect -/

theorem Rewrite.past_draft {i : Uuid} {r r' : Row} (h : Rewrite sha256 may i r r')
    (hs : r.status ≠ .draft) :
    r'.status ≠ .draft ∧ r'.fingerprint sha256 = r.fingerprint sha256 := by
  cases h with
  | resave _ hedit hfp => exact ⟨hs, hfp⟩
  | edit _ hd => exact absurd hd hs
  | stamp _ hd => exact absurd hd hs
  | keep _ hd => exact absurd hd hs
  | resolve => exact ⟨hs, rfl⟩
  | unresolve => exact ⟨hs, rfl⟩
  | advance _ hframe _ _ hd => exact ⟨hd, hframe.fingerprint sha256⟩
  | requeue _ hframe _ _ hq =>
    refine ⟨?_, hframe.fingerprint sha256⟩
    rw [hq]
    decide
  | assert _ _ hd => exact absurd hd hs

theorem Rewrite.verdict {i : Uuid} {r r' : Row} (h : Rewrite sha256 may i r r')
    (hassert : ¬ may (.assert i))
    (hr : r.status ≠ .draft → r.verdictFingerprint = some (r.fingerprint sha256))
    (hs : r'.status ≠ .draft) : r'.verdictFingerprint = some (r'.fingerprint sha256) := by
  have hkept : r.status ≠ .draft → r'.verdictFingerprint = r.verdictFingerprint →
      r'.verdictFingerprint = some (r'.fingerprint sha256) := by
    intro hne hv
    rw [hv, (h.past_draft hne).2]
    exact hr hne
  cases h with
  | resave => exact hkept hs rfl
  | edit _ hd => exact absurd hd hs
  | stamp _ hd => exact absurd hd hs
  | keep _ hd => exact absurd hd hs
  | resolve => exact hkept hs rfl
  | unresolve => exact hkept hs rfl
  | advance _ hframe _ hlegal _ hv =>
    have hne : r.status ≠ .draft := by
      intro hdraft
      rw [hdraft] at hlegal
      have : r'.status = .validated := by simpa [canTransition, legalTransitions] using hlegal
      exact hv this
    exact hkept hne hframe.verdictFingerprint
  | requeue _ hframe _ hf => exact hkept (by rw [hf]; decide) hframe.verdictFingerprint
  | assert ha => exact absurd ha hassert

theorem ApprovedContent.no_live_of_draft (h : ApprovedContent sha256 db) {i : Uuid} {r : Row}
    (hr : db.invoices.get? i = some r) (hs : r.status = .draft) : db.hasLiveRun i = false := by
  rw [Bool.eq_false_iff]
  intro hlive
  obtain ⟨k, run, hk, rfl, hl⟩ := Db.hasLiveRun_iff.mp hlive
  obtain ⟨q, hq, hne, -⟩ := h.current hk hl
  rw [hr] at hq
  cases hq
  exact hne hs

theorem ApprovedContent.setInvoice (h : ApprovedContent sha256 db) {i : Uuid} {r : Row}
    (hi : db'.invoices = db.invoices.set i r) (hr : db'.runs = db.runs)
    (hno : db.hasLiveRun i = false) : ApprovedContent sha256 db' where
  unique := by
    rw [hr]
    exact h.unique
  current := by
    intro k run hk hl
    rw [hr] at hk
    have hne : run.invoiceID ≠ i := by
      intro heq
      have hyes := Db.hasLiveRun_iff.mpr ⟨k, run, hk, heq, hl⟩
      rw [hno] at hyes
      cases hyes
    rw [hi, Table.get?_set_of_ne _ _ hne]
    exact h.current hk hl

theorem ApprovedContent.arm (h : ApprovedContent sha256 db) {i runID : Uuid} {r : Row}
    {versions : List InForceVersion} {now : ℕ} (hr : db.invoices.get? i = some r)
    (hs : r.status ≠ .draft) (hno : db.hasLiveRun i = false)
    (harm : armTx db versions i runID (r.fingerprint sha256) now = .ok db') :
    ApprovedContent sha256 db' := by
  obtain ⟨q, -, ⟨-, rfl⟩ | ⟨run, hrun, -, hnew, rfl⟩⟩ := armTx_spec harm
  · exact h
  · obtain ⟨hinv, hfp, hlive, -⟩ := armRun_eq_some hrun
    have hold : ∀ {k : Uuid} {run' : Run}, db.runs.get? k = some run' → run'.live = true →
        run'.invoiceID ≠ i := by
      intro k run' hk hl heq
      have hyes := Db.hasLiveRun_iff.mpr ⟨k, run', hk, heq, hl⟩
      rw [hno] at hyes
      cases hyes
    constructor
    · intro k k' a b hk hk' ha hb heq
      rw [Db.setRun_runs, Table.get?_set] at hk hk'
      split at hk
      · rename_i hkr
        cases hk
        split at hk'
        · rename_i hkr'
          rw [hkr, hkr']
        · exact absurd (heq ▸ hinv) (hold hk' hb)
      · split at hk'
        · cases hk'
          exact absurd (heq.trans hinv) (hold hk ha)
        · exact h.unique hk hk' ha hb heq
    · intro k a hk ha
      rw [Db.setRun_runs, Table.get?_set] at hk
      split at hk
      · cases hk
        rw [hinv, hfp]
        exact ⟨r, hr, hs, rfl⟩
      · exact h.current hk ha

theorem ApprovedContent.decide (h : ApprovedContent sha256 db) {i caller : Uuid} {d : Decision}
    {reason : Option String} (hok : Approval.decide db i caller d reason = .ok db') :
    ApprovedContent sha256 db' := by
  obtain ⟨r, k, run, s, why, asDelegate, hr, hs, hk, hinv, hopen, -, -, -, hdb⟩ := decide_spec hok
  have hlive : run.live = true := by rw [Run.live, hopen]; rfl
  have hunique : ∀ {run' : Run}, run'.invoiceID = run.invoiceID →
      run'.contentFingerprint = run.contentFingerprint →
      ∀ {j : Uuid} {a : Run}, (db.runs.set k run').get? j = some a → a.live = true →
        ∃ b, db.runs.get? j = some b ∧ b.live = true ∧ a.invoiceID = b.invoiceID ∧
          a.contentFingerprint = b.contentFingerprint := by
    intro run' hi hfp j a hj ha
    rw [Table.get?_set] at hj
    split at hj
    · rename_i hjk
      cases hj
      exact ⟨run, hjk ▸ hk, hlive, hi, hfp⟩
    · exact ⟨a, hj, ha, rfl, rfl⟩
  rcases hdb with ⟨-, rfl⟩ | ⟨-, rfl⟩
  · constructor
    · intro j j' a b hj hj' ha hb heq
      obtain ⟨p, hp, hpl, hpi, -⟩ := hunique (by simp) (by simp) hj ha
      obtain ⟨q, hq, hql, hqi, -⟩ := hunique (by simp) (by simp) hj' hb
      exact h.unique hp hq hpl hql (by rw [← hpi, ← hqi, heq])
    · intro j a hj ha
      obtain ⟨p, hp, hpl, hpi, hpf⟩ := hunique (by simp) (by simp) hj ha
      rw [hpi, hpf]
      exact h.current hp hpl
  · -- a reject closes the one live run of the invoice it demotes
    have hother : ∀ {j : Uuid} {a : Run}, (db.runs.set k (run.decide .rejected caller s.ord why
        asDelegate)).get? j = some a → a.live = true → db.runs.get? j = some a ∧ a.invoiceID ≠ i := by
      intro j a hj ha
      rw [Table.get?_set] at hj
      split at hj
      · cases hj
        rw [Run.live, Run.decide_rejected_state] at ha
        cases ha
      · rename_i hjk
        refine ⟨hj, fun hi => hjk ?_⟩
        exact h.unique hj hk ha hlive (hi.trans hinv.symm)
    constructor
    · intro j j' a b hj hj' ha hb heq
      exact h.unique (hother hj ha).1 (hother hj' hb).1 ha hb heq
    · intro j a hj ha
      obtain ⟨hj, hne⟩ := hother hj ha
      obtain ⟨q, hq, hrest⟩ := h.current hj ha
      exact ⟨q, (Table.get?_set_of_ne _ _ hne).trans hq, hrest⟩

theorem ApprovedContent.effect (h : ApprovedContent sha256 db)
    (he : Effect sha256 may db db') : ApprovedContent sha256 db' := by
  have hsame : db'.invoices = db.invoices → db'.runs = db.runs → ApprovedContent sha256 db' := by
    intro hi hr
    constructor
    · rw [hr]
      exact h.unique
    · rw [hr, hi]
      exact h.current
  cases he with
  | elsewhere hi hr => exact hsame hi hr
  | policies _ hi hr => exact hsame hi hr
  | revisions _ hi hr => exact hsame hi hr
  | create _ hnew hs hi hr =>
    refine h.setInvoice hi hr ?_
    rw [Bool.eq_false_iff]
    intro hlive
    obtain ⟨k, run, hk, rfl, hl⟩ := Db.hasLiveRun_iff.mp hlive
    obtain ⟨q, hq, -⟩ := h.current hk hl
    rw [hnew] at hq
    cases hq
  | @rewrite id r r' hrow hw hi hr =>
    constructor
    · rw [hr]
      exact h.unique
    · intro k run hk hl
      rw [hr] at hk
      obtain ⟨q, hq, hne, hfp⟩ := h.current hk hl
      by_cases hid : run.invoiceID = id
      · rw [hid, hrow] at hq
        cases hq
        obtain ⟨hne', hfp'⟩ := hw.past_draft hne
        exact ⟨r', by rw [hi, hid, Table.get?_set_self], hne', by rw [hfp, hfp']⟩
      · exact ⟨q, by rw [hi, Table.get?_set_of_ne _ _ hid, hq], hne, hfp⟩
  | @demote id r r' actor _ hrow hs hi hr hs' hent =>
    have hold : ∀ {k : Uuid} {run : Run}, db'.runs.get? k = some run → run.live = true →
        db.runs.get? k = some run ∧ run.invoiceID ≠ id := by
      intro k run hk hl
      rw [hr] at hk
      exact live_cancelLiveRunTx hk hl
    constructor
    · intro k k' a b hk hk' ha hb heq
      exact h.unique (hold hk ha).1 (hold hk' hb).1 ha hb heq
    · intro k a hk ha
      obtain ⟨hk, hne⟩ := hold hk ha
      rw [hi, Table.get?_set_of_ne _ _ hne]
      exact h.current hk ha
  | @promote id caller runID v r vs versions now _ hrow hs hvs harm =>
    have hno := h.no_live_of_draft hrow hs
    have hset : ApprovedContent sha256 (db.setInvoice id ((r.withVerdict vs v
        (r.fingerprint sha256)).applyTransition .validated (.user caller) {})) :=
      h.setInvoice rfl rfl hno
    exact hset.arm (Table.get?_set_self _ _ _) (by simp) hno harm
  | arm _ hrow hs hlive harm => exact h.arm hrow (by rw [hs]; decide) hlive harm
  | decide _ hok => exact h.decide hok

theorem VerdictCurrent.effect (h : VerdictCurrent sha256 db)
    (hassert : ∀ i, ¬ may (.assert i)) (he : Effect sha256 may db db') : VerdictCurrent sha256 db' := by
  have hset : ∀ {id : Uuid} {r' : Row}, db'.invoices = db.invoices.set id r' →
      (r'.status ≠ .draft → r'.verdictFingerprint = some (r'.fingerprint sha256)) →
      VerdictCurrent sha256 db' := by
    intro id r' hi hr' i r hr hs
    rw [hi, Table.get?_set] at hr
    split at hr
    · cases hr
      exact hr' hs
    · exact h i r hr hs
  have hsame : db'.invoices = db.invoices → VerdictCurrent sha256 db' := by
    intro hi i r hr hs
    rw [hi] at hr
    exact h i r hr hs
  cases he with
  | elsewhere hi => exact hsame hi
  | policies _ hi => exact hsame hi
  | revisions _ hi => exact hsame hi
  | create _ _ hs hi => exact hset hi fun hne => absurd hs hne
  | rewrite hrow hw hi => exact hset hi (hw.verdict (hassert _) (h _ _ hrow))
  | demote _ _ _ hi _ hs' => exact hset hi fun hne => absurd hs' hne
  | promote _ _ _ _ harm => exact hset (armTx_invoices harm) fun _ => rfl
  | arm _ _ _ _ harm => exact hsame (armTx_invoices harm)
  | decide _ hok =>
    obtain ⟨r, k, run, s, why, asDelegate, -, -, -, -, -, -, -, -, ⟨-, rfl⟩ | ⟨-, rfl⟩⟩ :=
      decide_spec hok
    · exact hsame rfl
    · exact hset rfl fun hne => absurd rfl hne

def Unsent (i : Uuid) (db : Db) : Prop :=
  ∃ r, db.invoices.get? i = some r ∧ (r.status = .draft ∨ r.status = .validated)

theorem Rewrite.unsent {i : Uuid} {r r' : Row} (h : Rewrite sha256 may i r r')
    (hsend : ¬ may (.send i))
    (hs : r.status = .draft ∨ r.status = .validated) :
    r'.status = .draft ∨ r'.status = .validated := by
  cases h with
  | resave => exact hs
  | edit _ hd => exact .inl hd
  | stamp _ hd => exact .inl hd
  | keep _ hd => exact .inl hd
  | resolve => exact hs
  | unresolve => exact hs
  | advance _ _ _ hlegal hd hv hq =>
    rcases hs with hs | hs <;> rw [hs] at hlegal
    · have hto : r'.status = .validated := by simpa [canTransition, legalTransitions] using hlegal
      exact absurd hto hv
    · have hto : r'.status = .queued ∨ r'.status = .draft := by
        simpa [canTransition, legalTransitions] using hlegal
      exact (hto.elim (fun h => hsend (hq h)) hd).elim
  | requeue _ _ _ hf =>
    rw [hf] at hs
    rcases hs with hs | hs <;> cases hs
  | assert _ _ _ hv => exact .inr hv

theorem Unsent.effect {i : Uuid} (h : Unsent i db) (hsend : ∀ j, ¬ may (.send j))
    (he : Effect sha256 may db db') : Unsent i db' := by
  obtain ⟨r, hr, hs⟩ := h
  have hset : ∀ {id : Uuid} {q : Row}, db'.invoices = db.invoices.set id q →
      (i = id → q.status = .draft ∨ q.status = .validated) → Unsent i db' := by
    intro id q hi hq
    rw [Unsent, hi]
    by_cases hid : i = id
    · exact ⟨q, by rw [hid, Table.get?_set_self], hq hid⟩
    · exact ⟨r, by rw [Table.get?_set_of_ne _ _ hid, hr], hs⟩
  have hsame : db'.invoices = db.invoices → Unsent i db' := by
    intro hi
    rw [Unsent, hi]
    exact ⟨r, hr, hs⟩
  cases he with
  | elsewhere hi => exact hsame hi
  | policies _ hi => exact hsame hi
  | revisions _ hi => exact hsame hi
  | create _ _ hd hi => exact hset hi fun _ => .inl hd
  | rewrite hrow hw hi =>
    refine hset hi fun hid => ?_
    rw [hid, hrow] at hr
    cases hr
    exact hw.unsent (hsend _) hs
  | demote _ _ _ hi _ hs' => exact hset hi fun _ => .inl hs'
  | promote _ _ _ _ harm => exact hset (armTx_invoices harm) fun _ => .inr rfl
  | arm _ _ _ _ harm => exact hsame (armTx_invoices harm)
  | decide _ hok =>
    obtain ⟨r, k, run, s, why, asDelegate, -, -, -, -, -, -, -, -, ⟨-, rfl⟩ | ⟨-, rfl⟩⟩ :=
      decide_spec hok
    · exact hsame rfl
    · exact hset rfl fun _ => .inl rfl

/-! ### Requests -/

theorem ApprovedContent.effects (h : ApprovedContent sha256 db)
    (he : Effects sha256 may db db') : ApprovedContent sha256 db' := by
  induction he with
  | refl => exact h
  | tail _ hlast ih => exact ih.effect hlast

theorem VerdictCurrent.effects (h : VerdictCurrent sha256 db) (hassert : ∀ i, ¬ may (.assert i))
    (he : Effects sha256 may db db') : VerdictCurrent sha256 db' := by
  induction he with
  | refl => exact h
  | tail _ hlast ih => exact ih.effect hassert hlast

theorem Unsent.effects {i : Uuid} (h : Unsent i db) (hsend : ∀ j, ¬ may (.send j))
    (he : Effects sha256 may db db') : Unsent i db' := by
  induction he with
  | refl => exact h
  | tail _ hlast ih => exact ih.effect hsend hlast

/-! ### Submission -/

theorem transmitClearTx_approved {i : Uuid} (hpolicy : policyActive db = true)
    (h : transmitClearTx db i = true) : db.hasApprovedRun i = true := by
  rw [transmitClearTx, if_pos hpolicy, Bool.and_eq_true] at h
  simpa [transmitClear] using h.2

theorem transition_queued_spec {i caller : Uuid}
    (h : transition db i .queued caller = .ok db') :
    db'.runs = db.runs ∧ transmitClearTx db i = true ∧
      ∃ r, db'.invoices = db.invoices.set i r := by
  simp only [transition, bind_eq_ok] at h
  obtain ⟨read, -, hgated⟩ := h
  obtain ⟨-, hclear, hruns, r, -, -, hi⟩ := transitionGated_queued hgated
  exact ⟨hruns, hclear, _, hi⟩

theorem sent_approved {q : Request} (hstep : requestStep sha256 db q = some db') {i : Uuid}
    {r r' : Row} (hr : db.invoices.get? i = some r) (hs : r.status = .validated)
    (hr' : db'.invoices.get? i = some r') (hs' : r'.status = .queued)
    (hpolicy : policyActive db = true) : db'.hasApprovedRun i = true := by
  have hother : ¬ q.submits → db'.hasApprovedRun i = true := by
    intro hno
    have hunsent : Unsent i db := ⟨r, hr, .inr hs⟩
    obtain ⟨a, ha, has⟩ := hunsent.effects (Request.not_send hno) (requestStep_effects hstep)
    rw [hr'] at ha
    cases ha
    rw [hs'] at has
    rcases has with has | has <;> cases has
  have hmoved : ∀ {a : Row}, db'.invoices.get? i = some a → a.status = .queued → db' ≠ db := by
    rintro a ha has rfl
    rw [hr] at ha
    cases ha
    rw [hs] at has
    cases has
  by_cases hsub : q.submits
  · unfold requestStep at hstep
    split at hstep
    · rename_i hok
      cases hstep
      cases q with
      | transition id target caller =>
        obtain rfl : target = .queued := hsub
        obtain ⟨hruns, hclear, row, hi⟩ := transition_queued_spec hok
        have hid : i = id := by
          by_contra hne
          rw [hi, Table.get?_set_of_ne _ _ hne, hr] at hr'
          cases hr'
          rw [hs] at hs'
          cases hs'
        rw [Db.hasApprovedRun, hruns, hid]
        exact transmitClearTx_approved hpolicy hclear
      | batchSubmit caller requestKey ids =>
        simp only [Request.call, bind_eq_ok, pure_eq_ok, Invoice.batchSubmit] at hok
        obtain ⟨⟨last, items⟩, ⟨-, -, hpos⟩, rfl⟩ := hok
        have hbefore : ∀ a, db.invoices.get? i = some a → a.status ≠ .queued := by
          intro a ha
          rw [hr] at ha
          cases ha
          rw [hs]
          decide
        have hskip := submitPositions_queued hpos hbefore hr' hs'
        rw [Db.hasApprovedRun, submitPositions_runs hpos]
        exact transmitClearTx_approved hpolicy (skipReason_eq_none.mp hskip).2.2
      | _ => exact hsub.elim
    · cases hstep
      exact absurd rfl (hmoved hr' hs')
  · exact hother hsub

/-! ### Every run -/

structure Fresh (db : Db) : Prop where
  invoices : db.invoices = ∅
  runs : db.runs = ∅

theorem ApprovedContent.fresh (h : Fresh db) : ApprovedContent sha256 db where
  unique := by
    intro k k' a b hk
    rw [h.runs] at hk
    cases hk
  current := by
    intro k a hk
    rw [h.runs] at hk
    cases hk

theorem VerdictCurrent.fresh (h : Fresh db) : VerdictCurrent sha256 db := by
  intro i r hr
  rw [h.invoices] at hr
  cases hr

theorem ApprovedContent.run {reqs : List Request} (h : ApprovedContent sha256 db)
    (hrun : runFrom (requestStep sha256) db reqs = some db') : ApprovedContent sha256 db' := by
  refine invariant_run (fun a q b ha hstep => ?_) h hrun
  exact ha.effects (requestStep_effects hstep)

theorem VerdictCurrent.run {reqs : List Request} (h : VerdictCurrent sha256 db)
    (hno : ∀ q ∈ reqs, ¬ q.assertsValidated)
    (hrun : runFrom (requestStep sha256) db reqs = some db') : VerdictCurrent sha256 db' := by
  induction reqs generalizing db with
  | nil =>
    cases hrun
    exact h
  | cons q reqs ih =>
    obtain ⟨mid, hstep, hrest⟩ := runFrom_cons.mp hrun
    obtain ⟨hq, hreqs⟩ := List.forall_mem_cons.mp hno
    exact ih (h.effects (Request.not_assert hq) (requestStep_effects hstep)) hreqs hrest

/-- Over every run of requests: one live run an invoice and none on a draft, each live run on
the content that stands, a current verdict past draft unless a call asserted `validated`, and
an approved run on exactly the content that leaves while a policy is active. -/
theorem approved_content_is_sent {sha256 : String → String} {db₀ db : Db} {reqs : List Request}
    (hfresh : Fresh db₀) (hrun : runFrom (requestStep sha256) db₀ reqs = some db) :
    (∀ i, (∀ k k' run run', db.runs.get? k = some run → db.runs.get? k' = some run' →
        run.invoiceID = i → run'.invoiceID = i → run.live = true → run'.live = true → k = k') ∧
      ∀ r, db.invoices.get? i = some r → r.status = .draft → db.hasLiveRun i = false) ∧
    (∀ k run, db.runs.get? k = some run → run.live = true →
      ∃ r, db.invoices.get? run.invoiceID = some r ∧
        run.contentFingerprint = r.fingerprint sha256) ∧
    ((∀ q ∈ reqs, ¬ q.assertsValidated) → ∀ i r, db.invoices.get? i = some r →
      r.status ≠ .draft → r.verdictFingerprint = some (r.fingerprint sha256)) ∧
    ∀ q db', requestStep sha256 db q = some db' → ∀ i r r', db.invoices.get? i = some r →
      r.status = .validated → db'.invoices.get? i = some r' → r'.status = .queued →
      policyActive db = true → ∃ k run, db'.runs.get? k = some run ∧ run.invoiceID = i ∧
        run.state = .approved ∧ run.contentFingerprint = r'.fingerprint sha256 := by
  have hcontent : ApprovedContent sha256 db := (ApprovedContent.fresh hfresh).run hrun
  refine ⟨fun i => ⟨?_, fun r hr hs => hcontent.no_live_of_draft hr hs⟩, ?_, ?_, ?_⟩
  · intro k k' run run' hk hk' hi hi' hl hl'
    exact hcontent.unique hk hk' hl hl' (hi.trans hi'.symm)
  · intro k run hk hl
    obtain ⟨r, hr, -, hfp⟩ := hcontent.current hk hl
    exact ⟨r, hr, hfp⟩
  · intro hno
    exact (VerdictCurrent.fresh hfresh).run hno hrun
  · intro q db' hstep i r r' hr hs hr' hs' hpolicy
    have happroved := sent_approved hstep hr hs hr' hs' hpolicy
    obtain ⟨k, run, hk, rfl, hstate⟩ := Db.hasApprovedRun_iff.mp happroved
    have hlive : run.live = true := by rw [Run.live, hstate]; rfl
    obtain ⟨a, ha, -, hfp⟩ := (hcontent.effects (requestStep_effects hstep)).current hk hlive
    rw [hr'] at ha
    cases ha
    exact ⟨k, run, hk, rfl, hstate, hfp⟩

def reviewedDb : Db where
  directory := { emptyDb.directory with
    members := [⟨1, .admin, true, true, []⟩, ⟨2, .reviewer, true, true, []⟩]
    roles := [⟨10, "checker", "Checker", false, [2]⟩] }

/-- A policy is published, and an invoice armed under it and approved. -/
def approvedRequests : List Request :=
  [.editPolicy (.create 1 30 20 "Default" none),
    .editPolicy (.putDraft 1 30 21 none none
      [{ kind := .approval, workflowRoleKey := some "checker" }]),
    .publishPolicy 1 30 id 0, .create 1 40 sampleInput,
    .applyValidation 40 1 ⟨[], 60, [], sampleFingerprint⟩ 50 0, .decide 40 2 .approved none]

theorem approved_content_is_sent_sample :
    ∃ db db' r k run, runFrom (requestStep id) reviewedDb approvedRequests = some db ∧
      requestStep id db (.transition 40 .queued 1) = some db' ∧ policyActive db = true ∧
      db'.invoices.get? 40 = some r ∧ r.status = .queued ∧
      db'.runs.get? k = some run ∧ run.invoiceID = 40 ∧ run.state = .approved ∧
      run.contentFingerprint = r.fingerprint id := by
  have htest : (runFrom (requestStep id) reviewedDb approvedRequests).any (fun db =>
      policyActive db && (db.invoices.get? 40).any (fun r => r.status == .validated) &&
        (requestStep id db (.transition 40 .queued 1)).any fun db' =>
          (db'.invoices.get? 40).any fun r => r.status == .queued) = true := by
    decide +kernel
  obtain ⟨db, hrun, htest⟩ := (Option.any_eq_true _ _).mp htest
  obtain ⟨htest, hsent⟩ := Bool.and_eq_true_iff.mp htest
  obtain ⟨hpolicy, hvalidated⟩ := Bool.and_eq_true_iff.mp htest
  obtain ⟨r, hr, hs⟩ := (Option.any_eq_true _ _).mp hvalidated
  obtain ⟨db', hstep, hsent⟩ := (Option.any_eq_true _ _).mp hsent
  obtain ⟨r', hr', hs'⟩ := (Option.any_eq_true _ _).mp hsent
  obtain ⟨-, -, -, hsends⟩ := approved_content_is_sent ⟨rfl, rfl⟩ hrun
  obtain ⟨k, run, hk, hi, hstate, hfp⟩ := hsends _ db' hstep 40 r r' hr (beq_iff_eq.mp hs) hr'
    (beq_iff_eq.mp hs') hpolicy
  exact ⟨db, db', r', k, run, hrun, hstep, hpolicy, hr', beq_iff_eq.mp hs', hk, hi, hstate, hfp⟩

theorem validated_without_verdict :
    ∃ db r, runFrom (requestStep id) emptyDb [.create 1 40 sampleInput,
        .transition 40 .validated 1] = some db ∧ Fresh emptyDb ∧
      db.invoices.get? 40 = some r ∧ r.status = .validated ∧
      r.verdictFingerprint ≠ some (r.fingerprint id) :=
  ⟨_, _, rfl, ⟨rfl, rfl⟩, rfl, rfl, by decide⟩

end InvoiceOs.Invoice
