import InvoiceOs.Approval.Decision
import InvoiceOs.Invoice.BatchSubmit
import InvoiceOs.Invoice.Worker
import Mathlib.Logic.Relation

/-! What a committed call can do to the invoices and the runs, said once. Every call is one
effect, or for a batch a chain of them; the invariants are proved over the effects. -/

namespace InvoiceOs.Invoice

open Lib Approval

structure Row.Frame (r r' : Row) : Prop where
  entityID : r'.entityID = r.entityID
  documentType : r'.documentType = r.documentType
  originalInvoiceID : r'.originalInvoiceID = r.originalInvoiceID
  header : r'.header = r.header
  lines : r'.lines = r.lines
  verdictFingerprint : r'.verdictFingerprint = r.verdictFingerprint

theorem Row.Frame.refl (r : Row) : r.Frame r := ⟨rfl, rfl, rfl, rfl, rfl, rfl⟩

theorem Row.Frame.fingerprint {r r' : Row} (h : r.Frame r') (sha256 : String → String) :
    r'.fingerprint sha256 = r.fingerprint sha256 := by
  unfold Row.fingerprint
  rw [h.header, h.lines]

theorem Row.Frame.applyTransition {r r' : Row} (h : r.Frame r') (target : Status)
    (actor : Subject) (cause : DemotionCause) : r.Frame (r'.applyTransition target actor cause) :=
  ⟨h.1, h.2, h.3, h.4, h.5, h.6⟩

/-- What an effect needs a licence for: an invoice's plain writes, and each write that an
invariant has a rule about. -/
inductive Move where
  | create (id : Uuid)
  | write (id : Uuid)
  | assert (id : Uuid)
  | send (id : Uuid)
  | resolve (id : Uuid)
  | requeue (id : Uuid)
  | judge (id : Uuid)
  | promote (id : Uuid) (versions : List InForceVersion)
  | arm (id : Uuid)
  | policies
  | revisions

/-- The row a move writes. A create finds none, and an arm writes a run. -/
def Move.row : Move → Option Uuid
  | .create _ => none
  | .write id => some id
  | .assert id => some id
  | .send id => some id
  | .resolve id => some id
  | .requeue id => some id
  | .judge id => some id
  | .promote id _ => some id
  | .arm _ => none
  | .policies => none
  | .revisions => none

section
variable (sha256 : String → String) (may : Move → Prop)

inductive Rewrite (id : Uuid) (r : Row) : Row → Prop
  | resave {header : Header} {lines : List LineItem} (hmay : may (.write id))
      (hs : canEdit r.status = true)
      (hfp : (r.withContent header lines).fingerprint sha256 = r.fingerprint sha256) :
      Rewrite id r (r.withContent header lines)
  | edit {header : Header} {lines : List LineItem} (hmay : may (.write id))
      (hs : r.status = .draft) : Rewrite id r ((r.withContent header lines).withMark none)
  | stamp {vs : List Violation} {v : Uuid} (hmay : may (.judge id)) (hs : r.status = .draft) :
      Rewrite id r (r.withVerdict vs v (r.fingerprint sha256))
  | keep {mark : Option KeptAsIs} (hmay : may (.write id)) (hs : r.status = .draft) :
      Rewrite id r (r.withMark mark)
  | resolve {mark : KeptAsIs} (hmay : may (.resolve id)) (hs : r.status = .failed) :
      Rewrite id r (r.withMark (some mark))
  | unresolve (hmay : may (.write id)) (hs : r.status = .failed) : Rewrite id r (r.withMark none)
  | advance {r' : Row} (hmay : may (.write id)) (hframe : r.Frame r')
      (hmark : r'.keptAsIs = r.keptAsIs) (hlegal : canTransition r.status r'.status = true)
      (hd : r'.status ≠ .draft) (hv : r'.status ≠ .validated)
      (hq : r'.status = .queued → may (.send id)) : Rewrite id r r'
  | requeue {r' : Row} (hmay : may (.requeue id)) (hframe : r.Frame r')
      (hmark : r'.keptAsIs = none) (hs : r.status = .failed) (hs' : r'.status = .queued) :
      Rewrite id r r'
  | assert {r' : Row} (hmay : may (.assert id)) (hframe : r.Frame r') (hs : r.status = .draft)
      (hs' : r'.status = .validated) : Rewrite id r r'

inductive Effect (db db' : Db) : Prop
  | elsewhere (hi : db'.invoices = db.invoices) (hr : db'.runs = db.runs) (hrules : db.SameRules db')
  | policies (hmay : may .policies) (hi : db'.invoices = db.invoices) (hr : db'.runs = db.runs)
      (hrevs : db'.revisions = db.revisions)
  | revisions (hmay : may .revisions) (hi : db'.invoices = db.invoices) (hr : db'.runs = db.runs)
      (hpolicies : db'.policies = db.policies)
  | create {id : Uuid} {r : Row} (hmay : may (.create id)) (hnew : db.invoices.get? id = none)
      (hs : r.status = .draft) (hi : db'.invoices = db.invoices.set id r)
      (hr : db'.runs = db.runs) (hrules : db.SameRules db')
  | rewrite {id : Uuid} {r r' : Row} (hrow : db.invoices.get? id = some r)
      (hw : Rewrite sha256 may id r r') (hi : db'.invoices = db.invoices.set id r')
      (hr : db'.runs = db.runs) (hrules : db.SameRules db')
  | demote {id : Uuid} {r r' : Row} {actor : Subject} (hmay : may (.write id))
      (hrow : db.invoices.get? id = some r)
      (hs : r.status = .validated ∨ r.status = .rejected)
      (hi : db'.invoices = db.invoices.set id r')
      (hr : db'.runs = db.runs.mapRows fun _ run => cancelLive id actor run)
      (hs' : r'.status = .draft) (hent : r'.entityID = r.entityID) (hrules : db.SameRules db')
  | promote {id caller runID v : Uuid} {r : Row} {vs : List Violation}
      {versions : List InForceVersion} {now : ℕ} (hmay : may (.promote id versions))
      (hrow : db.invoices.get? id = some r)
      (hs : r.status = .draft) (hvs : hasBlockingViolation vs = false)
      (harm : armTx (db.setInvoice id ((r.withVerdict vs v (r.fingerprint sha256)).applyTransition
        .validated (.user caller) {})) versions id runID (r.fingerprint sha256) now = .ok db')
  | arm {id runID : Uuid} {r : Row} {versions : List InForceVersion} {now : ℕ}
      (hmay : may (.arm id)) (hrow : db.invoices.get? id = some r) (hs : r.status = .validated)
      (hlive : db.hasLiveRun id = false)
      (harm : armTx db versions id runID (r.fingerprint sha256) now = .ok db')
  | decide {id caller : Uuid} {d : Decision} {reason : Option String} (hmay : may (.write id))
      (h : Approval.decide db id caller d reason = .ok db')

abbrev Effects : Db → Db → Prop := Relation.ReflTransGen (Effect sha256 may)

end

variable {sha256 : String → String} {may : Move → Prop} {db db' : Db} {id caller : Uuid}

theorem Rewrite.licensed {r r' : Row} (h : Rewrite sha256 may id r r') :
    ∃ m, may m ∧ m.row = some id := by
  cases h with
  | resave hmay => exact ⟨_, hmay, rfl⟩
  | edit hmay => exact ⟨_, hmay, rfl⟩
  | stamp hmay => exact ⟨_, hmay, rfl⟩
  | keep hmay => exact ⟨_, hmay, rfl⟩
  | resolve hmay => exact ⟨_, hmay, rfl⟩
  | unresolve hmay => exact ⟨_, hmay, rfl⟩
  | advance hmay => exact ⟨_, hmay, rfl⟩
  | requeue hmay => exact ⟨_, hmay, rfl⟩
  | assert hmay => exact ⟨_, hmay, rfl⟩

theorem Effect.get?_of_unlicensed (h : Effect sha256 may db db') {i : Uuid} {r : Row}
    (hr : db.invoices.get? i = some r) (hno : ∀ m, may m → m.row ≠ some i) :
    db'.invoices.get? i = some r := by
  have hset : ∀ {j : Uuid} {q : Row}, db'.invoices = db.invoices.set j q → j ≠ i →
      db'.invoices.get? i = some r := by
    intro j q hi hne
    rw [hi, Table.get?_set_of_ne _ _ (Ne.symm hne), hr]
  have hne : ∀ {m : Move} {j : Uuid}, may m → m.row = some j → j ≠ i := by
    rintro m j hmay hrow rfl
    exact hno m hmay hrow
  cases h with
  | elsewhere hi => rw [hi, hr]
  | policies _ hi => rw [hi, hr]
  | revisions _ hi => rw [hi, hr]
  | create _ hnew _ hi =>
    refine hset hi ?_
    rintro rfl
    rw [hnew] at hr
    cases hr
  | rewrite _ hw hi =>
    obtain ⟨m, hmay, hrow⟩ := hw.licensed
    exact hset hi (hne hmay hrow)
  | demote hmay _ _ hi => exact hset hi (hne hmay rfl)
  | promote hmay _ _ _ harm => exact hset (armTx_invoices harm) (hne hmay rfl)
  | arm _ _ _ _ harm => rw [armTx_invoices harm, hr]
  | decide hmay h =>
    obtain ⟨q, k, run, s, why, asDelegate, -, -, -, -, -, -, -, -, ⟨-, rfl⟩ | ⟨-, rfl⟩⟩ :=
      decide_spec h
    · exact hr
    · exact hset rfl (hne hmay rfl)

theorem Effects.get?_of_unlicensed (h : Effects sha256 may db db') {i : Uuid} {r : Row}
    (hr : db.invoices.get? i = some r) (hno : ∀ m, may m → m.row ≠ some i) :
    db'.invoices.get? i = some r := by
  induction h with
  | refl => exact hr
  | tail _ hlast ih => exact hlast.get?_of_unlicensed ih hno

theorem Rewrite.entityID {r r' : Row} (h : Rewrite sha256 may id r r') :
    r'.entityID = r.entityID := by
  cases h with
  | advance _ hframe => exact hframe.entityID
  | requeue _ hframe => exact hframe.entityID
  | assert _ hframe => exact hframe.entityID
  | _ => rfl

theorem Effect.entityID (h : Effect sha256 may db db') {i : Uuid} {r : Row}
    (hr : db.invoices.get? i = some r) :
    ∃ r', db'.invoices.get? i = some r' ∧ r'.entityID = r.entityID := by
  have hset : ∀ {j : Uuid} {p q : Row}, db.invoices.get? j = some p →
      db'.invoices = db.invoices.set j q → q.entityID = p.entityID →
      ∃ r', db'.invoices.get? i = some r' ∧ r'.entityID = r.entityID := by
    intro j p q hp hi hent
    by_cases hij : i = j
    · subst hij
      obtain rfl : r = p := Option.some.inj (hr.symm.trans hp)
      exact ⟨q, by rw [hi, Table.get?_set_self], hent⟩
    · exact ⟨r, by rw [hi, Table.get?_set_of_ne _ _ hij, hr], rfl⟩
  cases h with
  | elsewhere hi => exact ⟨r, by rw [hi, hr], rfl⟩
  | policies _ hi => exact ⟨r, by rw [hi, hr], rfl⟩
  | revisions _ hi => exact ⟨r, by rw [hi, hr], rfl⟩
  | @create j q _ hnew _ hi =>
    have hij : i ≠ j := by
      rintro rfl
      rw [hnew] at hr
      cases hr
    exact ⟨r, by rw [hi, Table.get?_set_of_ne _ _ hij, hr], rfl⟩
  | rewrite hrow hw hi => exact hset hrow hi hw.entityID
  | demote _ hrow _ hi _ _ hent => exact hset hrow hi hent
  | promote _ hrow _ _ harm => exact hset hrow (armTx_invoices harm) rfl
  | arm _ _ _ _ harm => exact ⟨r, by rw [armTx_invoices harm, hr], rfl⟩
  | decide _ hok =>
    obtain ⟨q, k, run, s, why, asDelegate, hq, -, -, -, -, -, -, -, ⟨-, rfl⟩ | ⟨-, rfl⟩⟩ :=
      decide_spec hok
    · exact ⟨r, hr, rfl⟩
    · exact hset hq rfl rfl

theorem Effects.entityID (h : Effects sha256 may db db') {i : Uuid} {r : Row}
    (hr : db.invoices.get? i = some r) :
    ∃ r', db'.invoices.get? i = some r' ∧ r'.entityID = r.entityID := by
  induction h with
  | refl => exact ⟨r, hr, rfl⟩
  | tail _ hlast ih =>
    obtain ⟨q, hq, hent⟩ := ih
    obtain ⟨r', hr', hent'⟩ := hlast.entityID hq
    exact ⟨r', hr', hent'.trans hent⟩

/-! ### The calls on one invoice -/

theorem create_effect {u : CreateInput} (hmay : may (.create id))
    (h : create db caller id u = .ok db') :
    Effect sha256 may db db' := by
  simp only [create, bind_eq_ok, refuse_eq_ok, pure_eq_ok] at h
  obtain ⟨-, -, -, -, e, -, -, -, -, hnew, rfl⟩ := h
  have hnone : db.invoices.get? id = none := by simpa using hnew
  exact .create hmay hnone rfl rfl rfl ⟨rfl, rfl⟩

theorem edit_effect {u : EditInput} (hmay : may (.write id))
    (h : edit sha256 db id caller u = .ok db') :
    Effect sha256 may db db' := by
  obtain ⟨r, header, lines, hr, ⟨hs, hfp, rfl⟩ | ⟨hs, rfl⟩ | ⟨hs, rfl⟩⟩ :=
    editTx_spec (edit_eq_ok h)
  · exact .rewrite hr (.resave hmay hs hfp) rfl rfl ⟨rfl, rfl⟩
  · exact .rewrite hr (.edit hmay hs) rfl rfl ⟨rfl, rfl⟩
  · exact .demote hmay hr hs rfl rfl rfl rfl ⟨rfl, rfl⟩

theorem transitionGated_effect {target : Status} {pending clear : Bool}
    (hmay : may (.write id)) (hasserts : target = .validated → may (.assert id))
    (hsends : target = .queued → may (.send id))
    (h : transitionGated db id target caller pending clear = .ok db') :
    Effect sha256 may db db' := by
  simp only [transitionGated, bind_eq_ok, refuse_eq_ok, pure_eq_ok, Row.transition_eq_ok] at h
  obtain ⟨r, hr, -, -, -, r', ⟨hlegal, rfl⟩, rfl⟩ := h
  have hr : db.invoices.get? id = some r := Db.getInvoice_eq_ok.mp hr
  have hframe := (Row.Frame.refl r).applyTransition target (.user caller) {}
  unfold writeTransition
  split
  · rename_i hd
    subst hd
    exact .demote hmay hr (canTransition_draft_iff.mp hlegal) rfl rfl rfl rfl ⟨rfl, rfl⟩
  · rename_i hd
    by_cases hv : target = .validated
    · subst hv
      have hs : r.status = .draft := canTransition_validated_iff.mp hlegal
      exact .rewrite hr (.assert (hasserts rfl) hframe hs rfl) rfl rfl ⟨rfl, rfl⟩
    · have hmark : (r.applyTransition target (.user caller) {}).keptAsIs = r.keptAsIs := by
        rw [Row.applyTransition_keptAsIs, if_neg hv]
      exact .rewrite hr (.advance hmay hframe hmark hlegal hd hv hsends) rfl rfl ⟨rfl, rfl⟩

theorem transitionGated_queued {pending clear : Bool}
    (h : transitionGated db id .queued caller pending clear = .ok db') :
    pending = false ∧ clear = true ∧ db'.runs = db.runs ∧ ∃ r, db.invoices.get? id = some r ∧
      r.status = .validated ∧
      db'.invoices = db.invoices.set id (r.applyTransition .queued (.user caller) {}) := by
  simp only [transitionGated, bind_eq_ok, refuse_eq_ok, pure_eq_ok, Row.transition_eq_ok] at h
  obtain ⟨r, hr, -, u, hgates, r', ⟨hlegal, rfl⟩, rfl⟩ := h
  simp only [queueGates, hlegal, and_self, if_true, check_eq_ok] at hgates
  exact ⟨by simpa using hgates.1, by simpa using hgates.2.1, rfl, r, Db.getInvoice_eq_ok.mp hr,
    canTransition_queued_iff.mp hlegal, rfl⟩

theorem transition_effect {target : Status} (hmay : may (.write id))
    (hasserts : target = .validated → may (.assert id))
    (hsends : target = .queued → may (.send id))
    (h : transition db id target caller = .ok db') : Effect sha256 may db db' := by
  simp only [transition, bind_eq_ok] at h
  obtain ⟨r, -, h⟩ := h
  exact transitionGated_effect hmay hasserts hsends h

theorem checkValidation_spec {ev : Evaluation} {vs : List Violation}
    (h : checkValidation sha256 db id ev = .ok vs) :
    ∃ r, db.invoices.get? id = some r ∧ r.status = .draft ∧
      r.fingerprint sha256 = ev.fingerprint ∧
      rulesUnchanged db.revisions r.entityID ev.customIDs = true ∧
      vs = noteVerdict db.invoices id r ev.violations := by
  simp only [checkValidation, bind_eq_ok, refuse_eq_ok, pure_eq_ok] at h
  obtain ⟨r, hr, hcan, hfp, hrules, rfl⟩ := h
  have hs : r.status = .draft := by simpa [canRevalidate] using hcan
  exact ⟨r, Db.getInvoice_eq_ok.mp hr, hs, not_not.mp hfp, by simpa using hrules, rfl⟩

theorem commitValidation_effect {ev : Evaluation} {vs : List Violation}
    {versions : List InForceVersion} {runID : Uuid} {now : ℕ} {r : Row}
    (hjudge : may (.judge id)) (hpromote : may (.promote id versions))
    (hr : db.invoices.get? id = some r) (hs : r.status = .draft)
    (hfp : r.fingerprint sha256 = ev.fingerprint)
    (h : commitValidation db id caller ev vs versions runID now = .ok db') :
    Effect sha256 may db db' := by
  simp only [commitValidation, bind_eq_ok, Db.getInvoice_eq_ok, hr, Option.some.injEq] at h
  obtain ⟨q, rfl, h⟩ := h
  rw [← hfp] at h
  split at h
  · cases h
    exact .rewrite hr (.stamp hjudge hs) rfl rfl ⟨rfl, rfl⟩
  · rename_i hvs
    simp only [bind_eq_ok, Row.transition_eq_ok] at h
    obtain ⟨promoted, ⟨-, rfl⟩, harm⟩ := h
    have hno : hasBlockingViolation vs = false := by simpa using hvs
    exact .promote hpromote hr hs hno harm

theorem applyValidation_effect {ev : Evaluation} {runID : Uuid} {now : ℕ}
    (hjudge : may (.judge id)) (hpromote : may (.promote id db.readInForce))
    (h : applyValidation sha256 db id caller ev runID now = .ok db') :
    Effect sha256 may db db' := by
  simp only [applyValidation, bind_eq_ok] at h
  obtain ⟨vs, hcheck, hcommit⟩ := h
  obtain ⟨r, hr, hs, hfp, -, -⟩ := checkValidation_spec hcheck
  exact commitValidation_effect hjudge hpromote hr hs hfp hcommit

theorem keepAsIs_effect {reason : String} (hmay : may (.write id))
    (h : keepAsIs db id caller reason = .ok db') :
    Effect sha256 may db db' := by
  simp only [keepAsIs, bind_eq_ok, refuse_eq_ok, pure_eq_ok, not_or, not_not] at h
  obtain ⟨r, hr, ⟨hs, -⟩, rfl⟩ := h
  exact .rewrite (Db.getInvoice_eq_ok.mp hr) (.keep hmay hs) rfl rfl ⟨rfl, rfl⟩

theorem unkeepAsIs_effect (hmay : may (.write id)) (h : unkeepAsIs db id = .ok db') :
    Effect sha256 may db db' := by
  simp only [unkeepAsIs, bind_eq_ok] at h
  obtain ⟨r, hr, h⟩ := h
  split at h
  · cases h
    exact .elsewhere rfl rfl ⟨rfl, rfl⟩
  · rename_i hno
    cases h
    have hs : r.status = .draft := not_not.mp fun hne => hno (.inr hne)
    exact .rewrite (Db.getInvoice_eq_ok.mp hr) (.keep hmay hs) rfl rfl ⟨rfl, rfl⟩

theorem resolveOutside_spec {reason : String} (h : resolveOutside db id caller reason = .ok db') :
    ∃ r, db.invoices.get? id = some r ∧ r.status = .failed ∧
      db' = db.setInvoice id (r.withMark (some { author := .user caller, reason := reason })) := by
  simp only [resolveOutside, bind_eq_ok, refuse_eq_ok, pure_eq_ok, not_not] at h
  obtain ⟨-, -, r, hr, hs, rfl⟩ := h
  exact ⟨r, Db.getInvoice_eq_ok.mp hr, hs, rfl⟩

theorem resolveOutside_effect {reason : String} (hmay : may (.resolve id))
    (h : resolveOutside db id caller reason = .ok db') : Effect sha256 may db db' := by
  obtain ⟨r, hr, hs, rfl⟩ := resolveOutside_spec h
  exact .rewrite hr (.resolve hmay hs) rfl rfl ⟨rfl, rfl⟩

theorem unresolveOutside_effect (hmay : may (.write id))
    (h : unresolveOutside db id caller = .ok db') :
    Effect sha256 may db db' := by
  simp only [unresolveOutside, bind_eq_ok, refuse_eq_ok, pure_eq_ok, not_not] at h
  obtain ⟨-, -, r, hr, hs, rfl⟩ := h
  exact .rewrite (Db.getInvoice_eq_ok.mp hr) (.unresolve hmay hs) rfl rfl ⟨rfl, rfl⟩

/-! ### The worker, support and the sweep -/

theorem markTerminalTx_effect {target : Status} {outcome : Row → Except Err Row}
    (hmay : may (.write id)) (hd : target ≠ .draft) (hv : target ≠ .validated)
    (hq : target ≠ .queued)
    (hout : ∀ r r', outcome r = .ok r' →
      r.Frame r' ∧ r'.keptAsIs = r.keptAsIs ∧ r'.status = r.status)
    (h : markTerminalTx db id target outcome = .ok db') : Effect sha256 may db db' := by
  simp only [markTerminalTx, bind_eq_ok] at h
  obtain ⟨r, hr, h⟩ := h
  split at h
  · cases h
    exact .elsewhere rfl rfl ⟨rfl, rfl⟩
  · simp only [bind_eq_ok, pure_eq_ok, Row.transition_eq_ok] at h
    obtain ⟨written, hw, r', ⟨hlegal, rfl⟩, rfl⟩ := h
    obtain ⟨hframe, hmark, hstatus⟩ := hout r written hw
    rw [hstatus] at hlegal
    have hmark' : (written.applyTransition target .system {}).keptAsIs = r.keptAsIs := by
      rw [Row.applyTransition_keptAsIs, if_neg hv, hmark]
    exact .rewrite (Db.getInvoice_eq_ok.mp hr)
      (.advance hmay (hframe.applyTransition _ _ _) hmark' hlegal hd hv fun h => absurd h hq)
      rfl rfl ⟨rfl, rfl⟩

theorem markSubmittedTx_effect (hmay : may (.write id)) (h : markSubmittedTx db id = .ok db') :
    Effect sha256 may db db' := by
  refine markTerminalTx_effect hmay (by decide) (by decide) (by decide) (fun r r' hr => ?_) h
  cases hr
  exact ⟨.refl r, rfl, rfl⟩

theorem markFailedTx_effect {kind : FailureKind} (hmay : may (.write id))
    (h : markFailedTx db id kind = .ok db') :
    Effect sha256 may db db' := by
  refine markTerminalTx_effect hmay (by decide) (by decide) (by decide) (fun r r' hr => ?_) h
  cases hr
  exact ⟨⟨rfl, rfl, rfl, rfl, rfl, rfl⟩, rfl, rfl⟩

theorem markAcceptedTx_effect {irn csid qr : String} (hmay : may (.write id))
    (h : markAcceptedTx db id irn csid qr = .ok db') :
    Effect sha256 may db db' := by
  refine markTerminalTx_effect hmay (by decide) (by decide) (by decide) (fun r r' hr => ?_) h
  simp only [writeAccepted, check_eq_ok] at hr
  cases hr.2
  exact ⟨⟨rfl, rfl, rfl, rfl, rfl, rfl⟩, rfl, rfl⟩

theorem markRejectedTx_effect {reasons : List String} (hmay : may (.write id))
    (h : markRejectedTx db id reasons = .ok db') :
    Effect sha256 may db db' := by
  refine markTerminalTx_effect hmay (by decide) (by decide) (by decide) (fun r r' hr => ?_) h
  cases hr
  exact ⟨⟨rfl, rfl, rfl, rfl, rfl, rfl⟩, rfl, rfl⟩

theorem checkRequeue_spec {u : Unit} (h : checkRequeue db id = .ok u) :
    ∃ r, db.invoices.get? id = some r ∧ r.status = .failed ∧ r.keptAsIs = none ∧
      hasBlockingViolation
        (noteViolations r (readOriginalFactsTx db.invoices r.originalInvoiceID id)) = false := by
  simp only [checkRequeue, bind_eq_ok, refuse_eq_ok, check_eq_ok, not_not] at h
  obtain ⟨r, hr, hs, hk, hb, -⟩ := h
  exact ⟨r, Db.getInvoice_eq_ok.mp hr, hs, by simpa using hk, by simpa using hb⟩

theorem commitRequeue_effect {actor : Subject} {r : Row} (hmay : may (.requeue id))
    (hr : db.invoices.get? id = some r)
    (hs : r.status = .failed) (hk : r.keptAsIs = none)
    (h : commitRequeue db id actor = .ok db') : Effect sha256 may db db' := by
  simp only [commitRequeue, bind_eq_ok, Db.getInvoice_eq_ok, hr, pure_eq_ok,
    Option.some.injEq] at h
  obtain ⟨q, rfl, rfl⟩ := h
  have hframe := (Row.Frame.refl r).applyTransition .queued actor {}
  exact .rewrite hr (.requeue hmay hframe hk hs rfl) rfl rfl ⟨rfl, rfl⟩

theorem requeueFailedTx_effect {actor : Subject} (hmay : may (.requeue id))
    (h : requeueFailedTx db id actor = .ok db') :
    Effect sha256 may db db' := by
  simp only [requeueFailedTx, bind_eq_ok] at h
  obtain ⟨u, hcheck, hcommit⟩ := h
  obtain ⟨r, hr, hs, hk, -⟩ := checkRequeue_spec hcheck
  exact commitRequeue_effect hmay hr hs hk hcommit

theorem cancelQueuedTx_effect (hmay : may (.write id)) (h : cancelQueuedTx db id = .ok db') :
    Effect sha256 may db db' := by
  simp only [cancelQueuedTx, bind_eq_ok, refuse_eq_ok, pure_eq_ok, Row.transition_eq_ok] at h
  obtain ⟨r, hr, -, r', ⟨hlegal, rfl⟩, rfl⟩ := h
  have hframe := (Row.Frame.refl r).applyTransition .failed .support {}
  exact .rewrite (Db.getInvoice_eq_ok.mp hr)
    (.advance hmay hframe rfl hlegal (by simp) (by simp) (by simp)) rfl rfl ⟨rfl, rfl⟩

theorem demoteCausedTx_spec {vs : List Violation} {v : Uuid} {cause : DemotionCause}
    (h : demoteCausedTx db id vs v cause = .ok db') :
    ∃ r, db.invoices.get? id = some r ∧ ((r.status ≠ .validated ∧ db' = db) ∨
      r.status = .validated ∧
        db' = cancelLiveRunTx (db.setInvoice id ((r.withViolations vs v).applyTransition .draft
          .revalidateRuleSet cause)) id .revalidateRuleSet) := by
  simp only [demoteCausedTx, bind_eq_ok] at h
  obtain ⟨r, hr, h⟩ := h
  refine ⟨r, Db.getInvoice_eq_ok.mp hr, ?_⟩
  split at h
  · rename_i hne
    cases h
    exact .inl ⟨hne, rfl⟩
  · rename_i hs
    simp only [bind_eq_ok, pure_eq_ok, Row.transitionCaused_eq_ok] at h
    obtain ⟨r', ⟨-, rfl⟩, rfl⟩ := h
    exact .inr ⟨not_not.mp hs, rfl⟩

theorem demoteCausedTx_effect {vs : List Violation} {v : Uuid} {cause : DemotionCause}
    (hmay : may (.write id)) (h : demoteCausedTx db id vs v cause = .ok db') :
    Effect sha256 may db db' := by
  obtain ⟨r, hr, ⟨-, rfl⟩ | ⟨hs, rfl⟩⟩ := demoteCausedTx_spec h
  · exact .elsewhere rfl rfl ⟨rfl, rfl⟩
  · exact .demote hmay hr (.inl hs) rfl rfl rfl rfl ⟨rfl, rfl⟩

/-! ### Batches -/

theorem submitPosition_effect {requestKey : String} {e : Eligibility}
    {item : BatchSubmitResultItem} (hmay : may (.write id)) (hsends : may (.send id))
    (h : submitPosition caller requestKey e db id = .ok (db', item)) :
    Effect sha256 may db db' := by
  obtain ⟨hruns, hrules, hi | ⟨r, hr, -, hlegal, hi⟩⟩ := submitPosition_spec h
  · exact .elsewhere hi hruns hrules
  · have hframe := (Row.Frame.refl r).applyTransition .queued (.user caller) {}
    exact .rewrite hr (.advance hmay hframe rfl hlegal (by simp) (by simp) fun _ => hsends) hi
      hruns hrules

theorem submitPositions_effects {requestKey : String} {eligible : Uuid → Eligibility}
    {ids : List Uuid} {items : List BatchSubmitResultItem}
    (hmay : ∀ i ∈ ids, may (.write i) ∧ may (.send i))
    (h : submitPositions caller requestKey eligible db ids = .ok (db', items)) :
    Effects sha256 may db db' := by
  induction ids generalizing db items with
  | nil =>
    cases h
    exact .refl
  | cons id ids ih =>
    simp only [submitPositions, bind_eq_ok, pure_eq_ok, Prod.mk.injEq] at h
    obtain ⟨⟨mid, item⟩, hone, ⟨last, rest⟩, hrest, rfl, -⟩ := h
    obtain ⟨⟨hwrite, hsend⟩, hids⟩ := List.forall_mem_cons.mp hmay
    exact .head (submitPosition_effect hwrite hsend hone) (ih hids hrest)

theorem batchSubmit_effects {requestKey : String} {ids : List Uuid}
    {items : List BatchSubmitResultItem} (hmay : ∀ i ∈ ids, may (.write i) ∧ may (.send i))
    (h : batchSubmit db caller requestKey ids = .ok (db', items)) :
    Effects sha256 may db db' := by
  simp only [batchSubmit, bind_eq_ok] at h
  obtain ⟨-, -, h⟩ := h
  exact submitPositions_effects hmay h

theorem sweep_effects {runIDs : Uuid → Uuid} {now : ℕ} {ids : List Uuid}
    (hmay : ∀ i, may (.arm i)) (hnodup : ids.Nodup)
    (hids : ∀ i ∈ ids, ∃ r, db.invoices.get? i = some r ∧ r.status = .validated ∧
      db.hasLiveRun i = false)
    (h : ids.foldlM (sweepOne sha256 runIDs now) db = .ok db') :
    Effects sha256 may db db' := by
  induction ids generalizing db with
  | nil =>
    cases h
    exact .refl
  | cons id ids ih =>
    simp only [List.foldlM_cons, bind_eq_ok] at h
    obtain ⟨mid, hone, hrest⟩ := h
    simp only [sweepOne, bind_eq_ok, Db.getInvoice_eq_ok] at hone
    obtain ⟨r, hr, harm⟩ := hone
    obtain ⟨q, hq, hs, hlive⟩ := hids id List.mem_cons_self
    rw [hr] at hq
    cases hq
    obtain ⟨hnotin, hnodup⟩ := List.nodup_cons.mp hnodup
    have htail : ∀ i ∈ ids, ∃ r, mid.invoices.get? i = some r ∧ r.status = .validated ∧
        mid.hasLiveRun i = false := by
      intro i hi
      have hne : i ≠ id := fun heq => hnotin (heq ▸ hi)
      rw [armTx_invoices harm, armTx_hasLiveRun harm hne]
      exact hids i (List.mem_cons_of_mem _ hi)
    exact .head (.arm (hmay id) hr hs hlive harm) (ih hnodup htail hrest)

theorem publishPolicy_effects {runIDs : Uuid → Uuid} {now : ℕ} (hpolicies : may .policies)
    (harm : ∀ i, may (.arm i))
    (h : publishPolicy sha256 db caller id runIDs now = .ok db') :
    Effects sha256 may db db' := by
  simp only [publishPolicy, bind_eq_ok, sweepLocked, check_eq_ok] at h
  obtain ⟨ps, -, -, hsweep⟩ := h
  have hstart : Effect sha256 may db { db with policies := ps } := .policies hpolicies rfl rfl rfl
  exact .head hstart
    (sweep_effects harm (sweepCandidates_nodup _) (fun _ => mem_sweepCandidates) hsweep)

/-! ### What stays validated -/

theorem Rewrite.validated {r r' : Row} (h : Rewrite sha256 may id r r')
    (hno : ¬ may (.assert id)) (hs' : r'.status = .validated) :
    r.status = .validated ∧ r'.fingerprint sha256 = r.fingerprint sha256 := by
  have hdraft : r.status = .draft → r'.status = r.status →
      r.status = .validated ∧ r'.fingerprint sha256 = r.fingerprint sha256 := by
    intro hs heq
    rw [heq, hs] at hs'
    cases hs'
  cases h with
  | resave _ _ hfp => exact ⟨hs', hfp⟩
  | edit _ hs => exact hdraft hs rfl
  | stamp _ hs => exact hdraft hs rfl
  | keep _ hs => exact hdraft hs rfl
  | resolve => exact ⟨hs', rfl⟩
  | unresolve => exact ⟨hs', rfl⟩
  | advance _ _ _ _ _ hv => exact absurd hs' hv
  | requeue _ _ _ _ hq =>
    rw [hq] at hs'
    cases hs'
  | assert hmay => exact absurd hmay hno

theorem Effect.validated (h : Effect sha256 may db db') (hassert : ∀ j, ¬ may (.assert j))
    (hpromote : ∀ j versions, ¬ may (.promote j versions)) {i : Uuid} {r' : Row}
    (hr' : db'.invoices.get? i = some r') (hs' : r'.status = .validated) :
    ∃ r, db.invoices.get? i = some r ∧ r.status = .validated ∧
      r'.fingerprint sha256 = r.fingerprint sha256 ∧
      (db.hasLiveRun i = true → db'.hasLiveRun i = true) := by
  have hsame : db'.invoices = db.invoices → db'.runs = db.runs → ∃ r,
      db.invoices.get? i = some r ∧ r.status = .validated ∧
        r'.fingerprint sha256 = r.fingerprint sha256 ∧
        (db.hasLiveRun i = true → db'.hasLiveRun i = true) := by
    intro hi hr
    rw [hi] at hr'
    exact ⟨r', hr', hs', rfl, by rw [Db.hasLiveRun, Db.hasLiveRun, hr]; exact fun hl => hl⟩
  have hset : ∀ {j : Uuid} {q : Row}, db'.invoices = db.invoices.set j q →
      q.status ≠ .validated → i ≠ j ∧ db.invoices.get? i = some r' := by
    intro j q hi hq
    rw [hi, Table.get?_set] at hr'
    split at hr'
    · cases hr'
      exact absurd hs' hq
    · rename_i hne
      exact ⟨hne, hr'⟩
  have hruns : db'.runs = db.runs → db.hasLiveRun i = true → db'.hasLiveRun i = true := by
    intro hr
    rw [Db.hasLiveRun, Db.hasLiveRun, hr]
    exact fun hl => hl
  cases h with
  | elsewhere hi hr => exact hsame hi hr
  | policies _ hi hr => exact hsame hi hr
  | revisions _ hi hr => exact hsame hi hr
  | create _ _ hs hi hr =>
    obtain ⟨-, hrow⟩ := hset hi (by rw [hs]; decide)
    exact ⟨r', hrow, hs', rfl, hruns hr⟩
  | @rewrite id r q hrow hw hi hr =>
    by_cases hid : i = id
    · subst hid
      rw [hi, Table.get?_set_self] at hr'
      cases hr'
      obtain ⟨hs, hfp⟩ := hw.validated (hassert i) hs'
      exact ⟨r, hrow, hs, hfp, hruns hr⟩
    · rw [hi, Table.get?_set_of_ne _ _ hid] at hr'
      exact ⟨r', hr', hs', rfl, hruns hr⟩
  | @demote id r q actor _ hrow hs hi hr hq =>
    obtain ⟨hne, hrow'⟩ := hset hi (by rw [hq]; decide)
    refine ⟨r', hrow', hs', rfl, hasLiveRun_mono fun k run hk hinv hl => ?_⟩
    refine ⟨run, ?_, hinv, hl⟩
    rw [hr, Table.get?_mapRows, hk, Option.map_some, cancelLive_of_ne (by rw [hinv]; exact hne)]
  | promote hmay => exact absurd hmay (hpromote _ _)
  | arm _ _ _ _ harm =>
    rw [armTx_invoices harm] at hr'
    exact ⟨r', hr', hs', rfl, armTx_live_mono harm⟩
  | @decide id caller d reason _ hok =>
    obtain ⟨q, k, run, s, why, asDelegate, hq, -, hk, hinv, hopen, -, -, -, hdb⟩ := decide_spec hok
    rcases hdb with ⟨-, rfl⟩ | ⟨-, rfl⟩
    · refine ⟨r', hr', hs', rfl, hasLiveRun_mono fun k' run' hk' hinv' hl' => ?_⟩
      by_cases hkk : k' = k
      · subst hkk
        rw [hk] at hk'
        cases hk'
        refine ⟨_, Table.get?_set_self _ _ _, by rw [Run.decide_invoiceID, hinv'], ?_⟩
        rw [Run.live, Run.decide_approved_state]
        split
        · exact hl'
        · rfl
      · exact ⟨run', (Table.get?_set_of_ne _ _ hkk).trans hk', hinv', hl'⟩
    · obtain ⟨hne, hrow'⟩ := hset rfl (by rw [Row.applyTransition_status]; decide)
      refine ⟨r', hrow', hs', rfl, hasLiveRun_mono fun k' run' hk' hinv' hl' => ?_⟩
      have hkk : k' ≠ k := by
        rintro rfl
        rw [hk] at hk'
        cases hk'
        exact hne (hinv'.symm.trans hinv)
      exact ⟨run', (Table.get?_set_of_ne _ _ hkk).trans hk', hinv', hl'⟩

theorem Effects.validated (h : Effects sha256 may db db') (hassert : ∀ j, ¬ may (.assert j))
    (hpromote : ∀ j versions, ¬ may (.promote j versions)) {i : Uuid} {r' : Row}
    (hr' : db'.invoices.get? i = some r') (hs' : r'.status = .validated) :
    ∃ r, db.invoices.get? i = some r ∧ r.status = .validated ∧
      r'.fingerprint sha256 = r.fingerprint sha256 ∧
      (db.hasLiveRun i = true → db'.hasLiveRun i = true) := by
  induction h generalizing r' with
  | refl => exact ⟨r', hr', hs', rfl, fun hl => hl⟩
  | tail _ hlast ih =>
    obtain ⟨q, hq, hqs, hfp, hlive⟩ := hlast.validated hassert hpromote hr' hs'
    obtain ⟨r, hr, hs, hfp', hlive'⟩ := ih hq hqs
    exact ⟨r, hr, hs, hfp.trans hfp', fun hl => hlive (hlive' hl)⟩

theorem Effect.rules (h : Effect sha256 may db db') :
    (¬ may .policies → db'.policies = db.policies) ∧
      (¬ may .revisions → db'.revisions = db.revisions) := by
  have hsame : db.SameRules db' → (¬ may .policies → db'.policies = db.policies) ∧
      (¬ may .revisions → db'.revisions = db.revisions) :=
    fun hrules => ⟨fun _ => hrules.policies, fun _ => hrules.revisions⟩
  cases h with
  | elsewhere _ _ hrules => exact hsame hrules
  | policies hmay _ _ hrevs => exact ⟨fun hno => absurd hmay hno, fun _ => hrevs⟩
  | revisions hmay _ _ hpolicies => exact ⟨fun _ => hpolicies, fun hno => absurd hmay hno⟩
  | create _ _ _ _ _ hrules => exact hsame hrules
  | rewrite _ _ _ _ hrules => exact hsame hrules
  | demote _ _ _ _ _ _ _ hrules => exact hsame hrules
  | promote _ _ _ _ harm =>
    exact hsame ⟨(armTx_sameRules harm).policies, (armTx_sameRules harm).revisions⟩
  | arm _ _ _ _ harm => exact hsame (armTx_sameRules harm)
  | decide _ hok =>
    obtain ⟨q, k, run, s, why, asDelegate, -, -, -, -, -, -, -, -, ⟨-, rfl⟩ | ⟨-, rfl⟩⟩ :=
      decide_spec hok
    · exact hsame ⟨rfl, rfl⟩
    · exact hsame ⟨rfl, rfl⟩

theorem Effects.policies_eq (h : Effects sha256 may db db') (hno : ¬ may .policies) :
    db'.policies = db.policies := by
  induction h with
  | refl => rfl
  | tail _ hlast ih => rw [hlast.rules.1 hno, ih]

theorem Effects.revisions_eq (h : Effects sha256 may db db') (hno : ¬ may .revisions) :
    db'.revisions = db.revisions := by
  induction h with
  | refl => rfl
  | tail _ hlast ih => rw [hlast.rules.2 hno, ih]

end InvoiceOs.Invoice
