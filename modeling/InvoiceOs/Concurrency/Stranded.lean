import InvoiceOs.Concurrency.Step

/-! A publish and the promotions beside it: while some version is in force, no validated
invoice is left without a live run, as long as no promotion that found no version in force
crosses the sweep of a publish. -/

namespace InvoiceOs.Concurrency

open Lib Approval CustomRule Invoice

/-- Validated, with no run to decide. -/
def Stranded (db : Db) (i : Uuid) : Prop :=
  ∃ r, db.invoices.get? i = some r ∧ r.status = .validated ∧ db.hasLiveRun i = false

def Task.foundNone : Task → Bool
  | .arming _ [] => true
  | _ => false

def Task.hasSwept : Task → Bool
  | .sweeping _ _ _ => true
  | _ => false

/-- A sweep reads the backlog while no promotion that found no version in force is open, and
no promotion finds none while such a sweep is. -/
def sweepSeesPromotions (σ : Store) (_ : Task) : Action → Task → Bool
  | .read .selectBacklog, u => !u.foundNone
  | .read .readVersions, u => !(σ.db.readInForce.isEmpty && u.hasSwept)
  | _, _ => true

structure NoneStranded (σ : Store) : Prop where
  catchAll : CatchAllLast σ.db.policies
  armed : InForce σ.db.policies → ∀ i, ¬ Stranded σ.db i

section
variable (sha256 : String → String)

def SweepKnows (σ : Store) (t : Task) : Prop :=
  Checked sha256 σ.db t ∧
    match t with
    | .arming _ versions => (versions = [] → ¬ InForce σ.db.policies) ∧
      (versions ≠ [] → ∀ doc, (firstMatch doc versions).isSome)
    | .sealing ps => CatchAllLast ps ∧ InForce ps
    | .sweeping ps todo kept => CatchAllLast ps ∧ InForce ps ∧
      ∀ i, Stranded σ.db i → i ∈ todo ∨ i ∈ kept
    | _ => True

end

def SweepApart (t u : Task) : Prop :=
  (t.hasSwept = true → u.foundNone = false) ∧ (u.hasSwept = true → t.foundNone = false)

variable {sha256 : String → String} {σ σ' : Store} {t t' u : Task} {a : Action} {c : Commit}

theorem policyActive_iff {db : Db} : policyActive db = true ↔ InForce db.policies := by
  simp only [policyActive, InForce, List.any_eq_true, Prod.exists, Table.mem_rows]
  constructor
  · rintro ⟨i, p, hp, v, hv, hact⟩
    exact ⟨i, p, v, hp, hv, hact⟩
  · rintro ⟨i, p, v, hp, hv, hact⟩
    exact ⟨i, p, hp, v, hv, hact⟩

theorem callLocks_policies {q : Request} {ls : List Lock} (hq : callLocks q = some ls)
    (hmay : q.may .policies) : ∃ e, q = .editPolicy e := by
  cases q with
  | editPolicy e => exact ⟨e, rfl⟩
  | publishPolicy caller id runIDs now => cases hq
  | batchSubmit caller requestKey ids => cases hq
  | applyValidation id caller ev runID now => cases hq
  | transition id target caller =>
    rcases hmay with hm | ⟨hm, -⟩ | ⟨hm, -⟩ <;> cases hm
  | _ => exact nomatch hmay

theorem Writes.policies (h : Writes sha256 σ t c σ' t') (ht : Checked sha256 σ.db t) :
    σ'.db.policies = σ.db.policies ∨
      (∃ e : PolicyEdit, e.call σ.db.directory σ.db.policies = .ok σ'.db.policies) ∨
      ∃ ps kept, t = .sweeping ps [] kept ∧ σ'.db.policies = ps := by
  have hrest : (∀ runIDs now, c ≠ .publish runIDs now) → ¬ commitMay t c .policies →
      σ'.db.policies = σ.db.policies := fun hne hno => (h.effects ht hne).policies_eq hno
  have hsame := h
  cases h with
  | @call q ls db' hq hok =>
    by_cases hmay : q.may .policies
    · obtain ⟨e, rfl⟩ := callLocks_policies hq hmay
      simp only [Request.call, bind_eq_ok, pure_eq_ok] at hok
      obtain ⟨ps, hps, rfl⟩ := hok
      exact .inr (.inl ⟨e, hps⟩)
    · exact .inl (hrest (by rintro _ _ ⟨⟩) hmay)
  | publish hok =>
    simp only [sweepLocked, check_eq_ok] at hok
    exact .inr (.inr ⟨_, _, rfl, (sweep_frame hok.2).2.policies⟩)
  | stamp => exact .inl (hrest (by rintro _ _ ⟨⟩) (by rintro ⟨⟩))
  | promote =>
    refine .inl (hrest (by rintro _ _ ⟨⟩) ?_)
    rintro (hm | hm) <;> cases hm
  | batch =>
    refine .inl (hrest (by rintro _ _ ⟨⟩) ?_)
    rintro ⟨id, -, hm | hm⟩ <;> cases hm
  | queue =>
    refine .inl (hrest (by rintro _ _ ⟨⟩) ?_)
    rintro (hm | hm) <;> cases hm
  | requeue => exact .inl (hrest (by rintro _ _ ⟨⟩) (by rintro ⟨⟩))
  | pass => exact .inl rfl
  | skip => exact .inl rfl
  | demote => exact .inl (hrest (by rintro _ _ ⟨⟩) (by rintro ⟨-, ⟨⟩⟩))
  | mark => exact .inl rfl

theorem Writes.stranded (h : Writes sha256 σ t c σ' t') (ht : SweepKnows sha256 σ t) {i : Uuid}
    (hi : Stranded σ'.db i) : Stranded σ.db i ∨ t.foundNone = true := by
  obtain ⟨r', hr', hs', hno⟩ := hi
  obtain ⟨r, hr, -, ⟨hs, hlive⟩ | ⟨j, versions, rfl, rfl, -, hmatch⟩⟩ := h.validated ht.1 hr' hs'
  · refine .inl ⟨r, hr, hs, ?_⟩
    rw [Bool.eq_false_iff]
    intro hyes
    rw [hlive hyes] at hno
    cases hno
  · right
    cases versions with
    | nil => rfl
    | cons v versions =>
      rw [hmatch (ht.2.2 (List.cons_ne_nil _ _))] at hno
      cases hno

theorem NoneStranded.next (hI : NoneStranded σ) (ht : SweepKnows sha256 σ t)
    (h : (protocol sha256).next σ t a = some (σ', t')) : NoneStranded σ' := by
  obtain ⟨s, rfl, rfl, -⟩ | ⟨c, rfl, hw⟩ := next_cases sha256 h
  · exact hI
  · rcases hw.policies ht.1 with hsame | ⟨e, he⟩ | ⟨ps, kept, rfl, hps⟩
    · refine ⟨by rw [hsame]; exact hI.catchAll, fun hforce i hi => ?_⟩
      rw [hsame] at hforce
      rcases hw.stranded ht hi with hold | hnone
      · exact hI.armed hforce i hold
      · cases t with
        | arming j versions =>
          cases versions with
          | nil => exact ht.2.1 rfl hforce
          | cons v versions => cases hnone
        | _ => cases hnone
    · refine ⟨hI.catchAll.policyEdit he, fun hforce i hi => ?_⟩
      have hbefore := hforce.policyEdit he
      rcases hw.stranded ht hi with hold | hnone
      · exact hI.armed hbefore i hold
      · cases t with
        | arming j versions =>
          cases versions with
          | nil => exact ht.2.1 rfl hbefore
          | cons v versions => cases hnone
        | _ => cases hnone
    · obtain ⟨-, hcatch, hforce, hknown⟩ := ht
      refine ⟨by rw [hps]; exact hcatch, fun _ i hi => ?_⟩
      obtain ⟨r', hr', hs', hno⟩ := hi
      cases hw with
      | publish hok =>
        simp only [sweepLocked, check_eq_ok] at hok
        have hmatch := hcatch.firstMatch_isSome (hcatch.wf.inForce_iff.mp hforce)
        rw [(sweep_frame hok.2).1] at hr'
        have hyes := sweep_live (i := i) hok.2
        cases hlive : σ.db.hasLiveRun i with
        | true =>
          rw [hyes (.inl hlive)] at hno
          cases hno
        | false =>
          rcases hknown i ⟨r', hr', hs', hlive⟩ with hmem | hmem
          · cases hmem
          · rw [hyes (.inr ⟨hmem, hmatch⟩)] at hno
            cases hno

theorem SweepKnows.next (hI : NoneStranded σ) (ht : SweepKnows sha256 σ t)
    (h : (protocol sha256).next σ t a = some (σ', t')) : SweepKnows sha256 σ' t' := by
  obtain ⟨s, rfl, rfl, hr⟩ | ⟨c, rfl, hw⟩ := next_cases sha256 h
  · refine ⟨ht.1.reads hr, ?_⟩
    cases hr with
    | versions hb =>
      refine ⟨fun hnil hforce => ?_, fun hne => hI.catchAll.firstMatch_isSome hne⟩
      exact hI.catchAll.wf.inForce_iff.mp hforce hnil
    | publish hps => exact ⟨hI.catchAll.publishVersion hps, publishVersion_inForce hps⟩
    | backlog =>
      obtain ⟨-, hcatch, hforce⟩ := ht
      exact ⟨hcatch, hforce, fun i hi => .inl (mem_validatedBacklog.mpr hi)⟩
    | keepBacklog hs =>
      obtain ⟨-, hcatch, hforce, hknown⟩ := ht
      refine ⟨hcatch, hforce, fun i hi => ?_⟩
      rcases hknown i hi with hmem | hmem
      · rcases List.mem_cons.mp hmem with rfl | hmem
        · exact .inr (List.mem_append_right _ (List.mem_singleton_self _))
        · exact .inl hmem
      · exact .inr (List.mem_append_left _ hmem)
    | dropBacklog hs =>
      obtain ⟨-, hcatch, hforce, hknown⟩ := ht
      refine ⟨hcatch, hforce, fun i hi => ?_⟩
      rcases hknown i hi with hmem | hmem
      · rcases List.mem_cons.mp hmem with rfl | hmem
        · obtain ⟨r, hr, hv, -⟩ := hi
          exact absurd ((statusOf_eq hr).trans hv) hs
        · exact .inl hmem
      · exact .inr hmem
    | _ => trivial
  · refine ⟨Checked.writes hw, ?_⟩
    cases hw <;> trivial

theorem SweepKnows.others (ht : SweepKnows sha256 σ t) (hu : SweepKnows sha256 σ u)
    (hR : SweepApart t u) (h : (protocol sha256).next σ t a = some (σ', t'))
    (hapart : (protocol sha256).Apart (t.holds ++ needs sha256 σ t a) u.holds) :
    SweepKnows sha256 σ' u := by
  obtain ⟨s, rfl, rfl, -⟩ | ⟨c, rfl, hw⟩ := next_cases sha256 h
  · exact hu
  · refine ⟨hu.1.others ht.1 hw hapart, ?_⟩
    cases u with
    | arming j versions =>
      refine ⟨fun hnil hforce => ?_, hu.2.2⟩
      subst hnil
      rcases hw.policies ht.1 with hsame | ⟨e, he⟩ | ⟨ps, kept, rfl, -⟩
      · exact hu.2.1 rfl (by rwa [hsame] at hforce)
      · exact hu.2.1 rfl (hforce.policyEdit he)
      · cases hR.1 rfl
    | sealing ps => exact hu.2
    | sweeping ps todo kept =>
      obtain ⟨-, hcatch, hforce, hknown⟩ := hu
      refine ⟨hcatch, hforce, fun i hi => ?_⟩
      rcases hw.stranded ht hi with hold | hnone
      · exact hknown i hold
      · rw [hR.2 rfl] at hnone
        cases hnone
    | _ => trivial

theorem SweepApart.next (hR : SweepApart t u) (hD : sweepSeesPromotions σ t a u = true)
    (h : (protocol sha256).next σ t a = some (σ', t')) : SweepApart t' u ∧ SweepApart u t' := by
  have hboth : SweepApart t' u → SweepApart t' u ∧ SweepApart u t' := fun h => ⟨h, h.2, h.1⟩
  refine hboth ?_
  obtain ⟨s, rfl, rfl, hr⟩ | ⟨c, rfl, hw⟩ := next_cases sha256 h
  · cases hr with
    | versions hb =>
      refine ⟨nofun, fun hswept => ?_⟩
      cases hforce : σ'.db.readInForce with
      | nil => simp [sweepSeesPromotions, hforce, hswept] at hD
      | cons v versions => rfl
    | backlog => exact ⟨fun _ => by simpa [sweepSeesPromotions] using hD, fun _ => rfl⟩
    | keepBacklog => exact ⟨fun _ => hR.1 rfl, fun _ => rfl⟩
    | dropBacklog => exact ⟨fun _ => hR.1 rfl, fun _ => rfl⟩
    | nextChunk => exact ⟨nofun, fun _ => rfl⟩
    | _ => exact ⟨nofun, fun _ => rfl⟩
  · cases hw <;> exact ⟨nofun, fun _ => rfl⟩

abbrev SweepSeesPromotions (sha256 : String → String) : World Store Task → ℕ × Action → Prop :=
  (protocol sha256).Meets (fun _ _ _ => True) fun σ t a u => sweepSeesPromotions σ t a u = true

theorem stranded_outline : (protocol sha256).Outline (fun _ _ _ => True)
    (fun σ t a u => sweepSeesPromotions σ t a u = true) NoneStranded (SweepKnows sha256) SweepApart where
  store hI ht _ h := hI.next ht h
  own hI ht _ h := ht.next hI h
  other _ ht _ h hu hR _ hapart := ht.others hu hR h hapart
  pair _ _ _ h _ hR hD _ := hR.next hD h

/-- In every run whose sweeps see every promotion that found no version in force: while some
version is active, every validated invoice has a live run. -/
theorem no_validated_invoice_stranded {sha256 : String → String} {db : Db}
    {steps : List (ℕ × Action)} {w : World Store Task} (hempty : db.policies = ∅)
    (hmeets : Along (protocol sha256).step (SweepSeesPromotions sha256) (start db) steps)
    (hrun : runFrom (protocol sha256).step (start db) steps = some w)
    (hactive : policyActive w.store.db = true) {i : Uuid} {r : Row}
    (hr : w.store.db.invoices.get? i = some r) (hs : r.status = .validated) :
    ∃ k run, w.store.db.runs.get? k = some run ∧ run.invoiceID = i ∧ run.live = true := by
  have hstart : NoneStranded ⟨db, []⟩ := by
    refine ⟨hempty ▸ CatchAllLast.empty, fun ⟨i, p, v, hp, _⟩ => ?_⟩
    have hnone : db.policies.get? i = none := by
      rw [hempty]
      exact Table.get?_empty i
    rw [hnone] at hp
    cases hp
  have hend := (Protocol.Holds.start (p := protocol sha256) hstart ⟨trivial, trivial⟩
    ⟨nofun, nofun⟩).run stranded_outline hmeets hrun
  have hno := hend.store.armed (policyActive_iff.mp hactive) i
  rw [← Db.hasLiveRun_iff]
  cases hlive : w.store.db.hasLiveRun i with
  | true => rfl
  | false => exact absurd ⟨r, hr, hs, hlive⟩ hno

def drafted : List (ℕ × Action) :=
  [(0, .write (.call (.create 1 40 sampleInput))),
    (0, .write (.call (.editPolicy (.create 1 30 20 "Default" none)))),
    (0, .write (.call (.editPolicy (.putDraft 1 30 21 none none [{ kind := .autoapprove }]))))]

def judging : List (ℕ × Action) :=
  [(1, .read (.get 40)), (1, .read .getLines), (1, .read (.evaluate (fun _ => []) fun _ => 60)),
    (1, .read (.apply 1)), (1, .read .readVersions)]

def publishing : List (ℕ × Action) :=
  [(2, .read (.publish 1 30)), (2, .read .selectBacklog), (2, .write (.publish id 0))]

def promotedThenPublished : List (ℕ × Action) :=
  drafted ++ judging ++ [(1, .write (.verdict 50 0))] ++
    [(2, .read (.publish 1 30)), (2, .read .selectBacklog), (2, .read .lockBacklog),
      (2, .write (.publish id 0))]

theorem no_validated_invoice_stranded_sample :
    ∃ w k run, runFrom (protocol id).step (start emptyDb) promotedThenPublished = some w ∧
      statusOf w.store.db 40 = .validated ∧ w.store.db.runs.get? k = some run ∧
      run.invoiceID = 40 ∧ run.live = true := by
  have htest : (runFrom (protocol id).step (start emptyDb) promotedThenPublished).any
      (fun w => policyActive w.store.db && statusOf w.store.db 40 == .validated) = true := by
    decide +kernel
  obtain ⟨w, hrun, hw⟩ := (Option.any_eq_true _ _).mp htest
  obtain ⟨hactive, hs⟩ := Bool.and_eq_true_iff.mp hw
  obtain ⟨r, hr, hv⟩ := statusOf_validated (beq_iff_eq.mp hs)
  obtain ⟨k, run, hk, hi, hl⟩ :=
    no_validated_invoice_stranded rfl (by decide +kernel) hrun hactive hr hv
  exact ⟨w, k, run, hrun, beq_iff_eq.mp hs, hk, hi, hl⟩

theorem publish_misses_promotion :
    ∃ w, runFrom (protocol id).step (start emptyDb)
        (drafted ++ judging ++ publishing ++ [(1, .write (.verdict 50 0))]) = some w ∧
      (protocol id).Quiet w ∧ policyActive w.store.db = true ∧
      statusOf w.store.db 40 = .validated ∧
      w.store.db.hasLiveRun 40 = false ∧ transmitClearTx w.store.db 40 = false :=
  ⟨_, rfl, quiet_of_idle rfl, rfl, rfl, rfl, rfl⟩

end InvoiceOs.Concurrency
