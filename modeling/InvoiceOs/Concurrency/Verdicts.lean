import InvoiceOs.Concurrency.Step
import InvoiceOs.Invoice.Fingerprint

/-! A stored verdict describes the stored content, as long as no invoice is promoted on other
content while a re-check pass holds what it read of it. -/

namespace InvoiceOs.Concurrency

open Lib Approval CustomRule Invoice

def Entry.sound : Entry → Prop
  | .judged _ evaluated locked _ _ => evaluated = locked
  | .demoted _ evaluated locked => evaluated = locked
  | .passed _ _ _ _ => True
  | .queued _ _ => True

instance : DecidablePred Entry.sound := fun e => by
  cases e <;> unfold Entry.sound <;> infer_instance

def Task.documents : Task → List Document
  | .reading _ _ docs => docs
  | .readingLines _ _ docs _ _ => docs
  | .demoting _ _ verdicts => verdicts.map Prod.fst
  | _ => []

def Task.halfRead : Task → Option (Uuid × Row)
  | .readingLines _ _ _ id row => some (id, row)
  | _ => none

section
variable (sha256 : String → String)

/-- The promotion of `j` is on the content the other task read, if it read this invoice; of
a half-read one, under the header it read. -/
def promotesAsRead (db : Db) (j : Judgement) (u : Task) : Bool :=
  (u.documents.all fun d =>
    d.id != j.doc.id || d.fingerprint sha256 == j.doc.fingerprint sha256) &&
  u.halfRead.all fun e =>
    e.1 != j.doc.id || (db.invoices.get? j.doc.id).all fun r =>
      contentFingerprint sha256 e.2.header r.lines == j.doc.fingerprint sha256

/-- No invoice is promoted on other content than a pass under way has read of it. -/
def promotionAsRead (σ : Store) : Task → Action → Task → Bool
  | .arming j _, .write (.verdict _ _), u => promotesAsRead sha256 σ.db j u
  | _, _, _ => true

def Reflects (db : Db) (d : Document) : Prop :=
  ∀ r, db.invoices.get? d.id = some r → r.status = .validated →
    d.fingerprint sha256 = r.fingerprint sha256

def HalfReflects (db : Db) (id : Uuid) (row : Row) : Prop :=
  ∀ r, db.invoices.get? id = some r → r.status = .validated →
    contentFingerprint sha256 row.header r.lines = r.fingerprint sha256

structure PassKnows (σ : Store) (t : Task) : Prop where
  checked : Checked sha256 σ.db t
  documents : ∀ d ∈ t.documents, Reflects sha256 σ.db d
  half : ∀ e, t.halfRead = some e → HalfReflects sha256 σ.db e.1 e.2

abbrev PromotesAsRead : World Store Task → ℕ × Action → Prop :=
  (protocol sha256).Meets (fun _ _ _ => True) fun σ t a u => promotionAsRead sha256 σ t a u = true

end

variable {sha256 : String → String} {σ σ' : Store} {t t' u : Task} {a : Action} {c : Commit}

theorem contentFingerprint_mix (hsha : Function.Injective sha256) {h : Header} {r r' : Row}
    (hhalf : contentFingerprint sha256 h r.lines = r.fingerprint sha256)
    (hsame : r'.fingerprint sha256 = r.fingerprint sha256) :
    contentFingerprint sha256 h r'.lines = r'.fingerprint sha256 := by
  obtain ⟨hfields, hvalues, -⟩ := fingerprintStream_inj (hsha hhalf)
  obtain ⟨hfields', hvalues', -⟩ := fingerprintStream_inj (hsha hsame)
  have hstream : fingerprintStream h r'.lines = fingerprintStream r'.header r'.lines :=
    fingerprintStream_congr (hfields.trans hfields'.symm) (hvalues.trans hvalues'.symm) rfl
  exact congrArg sha256 hstream

theorem Reflects.read {db : Db} {id : Uuid} {row r : Row}
    (h : HalfReflects sha256 db id row) (hr : db.invoices.get? id = some r) :
    Reflects sha256 db ⟨id, row.entityID, row.header, r.lines⟩ := by
  intro q hq hs
  have hqr : q = r := Option.some.inj (hq.symm.trans hr)
  have hfp := h q hq hs
  rw [hqr] at hfp ⊢
  exact hfp

theorem PassKnows.reads {s : Statement} (ht : PassKnows sha256 σ t)
    (h : Reads sha256 σ.db t s t') : PassKnows sha256 σ t' := by
  refine ⟨ht.checked.reads h, ?_, ?_⟩
  · intro d hd
    cases h with
    | next h => exact ht.documents d hd
    | nextLines h =>
      rcases List.mem_append.mp hd with hd | hd
      · exact ht.documents d hd
      · rw [List.mem_singleton.mp hd]
        exact .read (ht.half _ rfl) h
    | evaluateChunk =>
      simp only [Task.documents, List.map_map, List.mem_map, Function.comp_apply,
        exists_eq_right] at hd
      exact ht.documents d hd
    | _ => cases hd
  · intro e he
    cases h with
    | next h =>
      cases he
      intro r hr hs
      have hrow : r = _ := Option.some.inj (hr.symm.trans h)
      rw [hrow]
      rfl
    | _ => cases he

theorem Writes.documents (h : Writes sha256 σ t c σ' t') :
    (∀ d ∈ t'.documents, d ∈ t.documents ∧ ∃ doc, t.documents.head? = some doc ∧
      (σ'.db.invoices = σ.db.invoices ∨ ∃ row row', σ.db.invoices.get? doc.id = some row ∧
        row'.status = .draft ∧ σ'.db.invoices = σ.db.invoices.set doc.id row')) ∧
      t'.halfRead = none := by
  cases h with
  | pass h => exact ⟨fun d hd => ⟨List.mem_cons_of_mem _ hd, _, rfl, .inl rfl⟩, rfl⟩
  | skip hb h => exact ⟨fun d hd => ⟨List.mem_cons_of_mem _ hd, _, rfl, .inl rfl⟩, rfl⟩
  | demote hb hrow hs h =>
    subst h
    exact ⟨fun d hd => ⟨List.mem_cons_of_mem _ hd, _, rfl, .inr ⟨_, _, hrow, rfl, rfl⟩⟩, rfl⟩
  | _ => exact ⟨fun d hd => (nomatch hd), rfl⟩

theorem PassKnows.writes (ht : PassKnows sha256 σ t) (h : Writes sha256 σ t c σ' t') :
    PassKnows sha256 σ' t' := by
  obtain ⟨hdocs, hhalf⟩ := h.documents
  refine ⟨Checked.writes h, fun d hd r hr hs => ?_, fun e he => ?_⟩
  · obtain ⟨hd, doc, -, hi | ⟨row, row', -, hs', hi⟩⟩ := hdocs d hd
    · rw [hi] at hr
      exact ht.documents d hd r hr hs
    · rw [hi, Table.get?_set] at hr
      split at hr
      · cases hr
        rw [hs'] at hs
        cases hs
      · exact ht.documents d hd r hr hs
  · rw [hhalf] at he
    cases he

theorem PassKnows.others (hsha : Function.Injective sha256) (ht : PassKnows sha256 σ t)
    (hu : PassKnows sha256 σ u) (hD : promotionAsRead sha256 σ t (.write c) u = true)
    (h : Writes sha256 σ t c σ' t')
    (hapart : (protocol sha256).Apart (t.holds ++ needs sha256 σ t (.write c)) u.holds) :
    PassKnows sha256 σ' u := by
  -- a promotion is on the content read, whole or by its half
  have hpromoted : ∀ {j versions}, t = .arming j versions → ∀ {r},
      σ.db.invoices.get? j.doc.id = some r →
      (∀ d ∈ u.documents, d.id = j.doc.id → d.fingerprint sha256 = r.fingerprint sha256) ∧
      ∀ e, u.halfRead = some e → e.1 = j.doc.id →
        contentFingerprint sha256 e.2.header r.lines = r.fingerprint sha256 := by
    rintro j versions rfl r hr
    obtain ⟨-, hev, row, hrow, -, hfp⟩ := ht.checked
    obtain rfl : r = row := Option.some.inj (hr.symm.trans hrow)
    have hjr : j.doc.fingerprint sha256 = r.fingerprint sha256 := (hfp.trans hev).symm
    cases h with
    | promote h =>
      simp only [promotionAsRead, promotesAsRead, Bool.and_eq_true, List.all_eq_true,
        Bool.or_eq_true, bne_iff_ne, ne_eq, beq_iff_eq, hrow] at hD
      constructor
      · intro d hd hid
        exact ((hD.1 d hd).resolve_left (not_not.mpr hid)).trans hjr
      · intro e he hid
        have hhalf := hD.2
        rw [he] at hhalf
        simp only [Option.all_some, Bool.or_eq_true, bne_iff_ne, ne_eq, beq_iff_eq] at hhalf
        exact (hhalf.resolve_left (not_not.mpr hid)).trans hjr
  refine ⟨hu.checked.others ht.checked h hapart, ?_, ?_⟩
  · intro d hd r' hr' hs'
    obtain ⟨r, hr, hfp, ⟨hs, -⟩ | ⟨j, versions, htj, hid, -, -⟩⟩ := h.validated ht.checked hr' hs'
    · rw [hfp]
      exact hu.documents d hd r hr hs
    · rw [hfp]
      exact (hpromoted htj (hid ▸ hr)).1 d hd hid
  · intro e he r' hr' hs'
    obtain ⟨r, hr, hfp, ⟨hs, -⟩ | ⟨j, versions, htj, hid, -, -⟩⟩ := h.validated ht.checked hr' hs'
    · exact contentFingerprint_mix hsha (hu.half e he r hr hs) hfp
    · exact contentFingerprint_mix hsha ((hpromoted htj (hid ▸ hr)).2 e he hid) hfp

theorem Writes.sound (h : Writes sha256 σ t c σ' t') (ht : PassKnows sha256 σ t)
    (hI : ∀ e ∈ σ.journal, e.sound) : ∀ e ∈ σ'.journal, e.sound := by
  have hcons : ∀ {e : Entry} {es : List Entry}, e.sound → es = e :: σ.journal →
      ∀ e' ∈ es, e'.sound := by
    rintro e es he rfl e' he'
    rcases List.mem_cons.mp he' with rfl | he'
    · exact he
    · exact hI e' he'
  cases h with
  | call => exact hI
  | stamp hb h =>
    obtain ⟨hev, row, hrow, -, hfp⟩ := ht.checked
    obtain ⟨db', -, rfl⟩ := commitJudgement_spec h
    refine hcons ?_ rfl
    simp only [Entry.sound, lockedFingerprint, hrow]
    exact (hfp.trans hev).symm
  | promote h =>
    obtain ⟨row, row', -, -, hfp, -, -, hj⟩ := promote_spec ht.checked h
    exact hcons (e := .judged _ _ _ _ _) hfp.symm hj
  | publish => exact hI
  | @batch b clear pending n db' items h =>
    intro e he
    rcases List.mem_append.mp he with he | he
    · obtain ⟨item, -, rfl⟩ := List.mem_map.mp he
      trivial
    · exact hI e he
  | queue => exact hcons (e := .queued _ _) trivial rfl
  | requeue => exact hI
  | pass => exact hcons (e := .passed _ _ _ _) trivial rfl
  | skip => exact hI
  | demote hb hrow hs h =>
    exact hcons (e := .demoted _ _ _) (ht.documents _ List.mem_cons_self _ hrow hs) rfl
  | mark => exact hI

theorem verdict_outline (hsha : Function.Injective sha256) : (protocol sha256).Outline
    (fun _ _ _ => True) (fun σ t a u => promotionAsRead sha256 σ t a u = true)
    (fun σ => ∀ e ∈ σ.journal, e.sound) (PassKnows sha256) (fun _ _ => True) where
  store hI ht _ h := by
    obtain ⟨s, -, rfl, -⟩ | ⟨c, -, hw⟩ := next_cases sha256 h
    · exact hI
    · exact hw.sound ht hI
  own _ ht _ h := by
    obtain ⟨s, -, rfl, hr⟩ | ⟨c, -, hw⟩ := next_cases sha256 h
    · exact ht.reads hr
    · exact ht.writes hw
  other _ ht _ h hu _ hD hapart := by
    obtain ⟨s, -, rfl, -⟩ | ⟨c, rfl, hw⟩ := next_cases sha256 h
    · exact hu
    · exact ht.others hsha hu hD hw hapart
  pair _ _ _ _ _ _ _ _ := ⟨trivial, trivial⟩

/-- In every run whose promotions are on what the passes under way have read: every verdict
written was evaluated on the content its transaction had locked. -/
theorem verdict_describes_content {sha256 : String → String} (hsha : Function.Injective sha256)
    {db : Db} {steps : List (ℕ × Action)} {w : World Store Task}
    (hmeets : Along (protocol sha256).step (PromotesAsRead sha256) (start db) steps)
    (hrun : runFrom (protocol sha256).step (start db) steps = some w) {e : Entry}
    (he : e ∈ w.store.journal) : e.sound := by
  have hstart : ∀ e ∈ (start db).store.journal, e.sound := by
    intro e he
    cases he
  have hidle : PassKnows sha256 (start db).store .idle := by
    refine ⟨trivial, fun d hd => ?_, fun e he => ?_⟩
    · cases hd
    · cases he
  have hend := (Protocol.Holds.start (p := protocol sha256) hstart hidle trivial).run
    (verdict_outline hsha) hmeets hrun
  exact hend.store e he

def promoted : List (ℕ × Action) :=
  [(1, .read (.get 40)), (1, .read .getLines), (1, .read (.evaluate (fun _ => []) fun _ => 60)),
    (1, .read (.apply 1)), (1, .read .readVersions), (1, .write (.verdict 50 0))]

def passRead : List (ℕ × Action) :=
  [(2, .read .revalidate), (2, .read (.get 40)), (2, .read .getLines)]

def overdue : Violation where
  ruleKey := "issue-date"
  severity := .error
  message := "The issue date is missing."
  path := "issue_date"

def passSettled : List (ℕ × Action) :=
  [(2, .read (.evaluate (fun _ => [overdue]) fun _ => 61)), (2, .write .settle)]

def created : ℕ × Action := (0, .write (.call (.create 1 40 sampleInput)))

def edited : ℕ × Action := (0, .write (.call (.edit 40 1 { buyerName := .put "Bola Ltd" })))

theorem verdict_describes_content_sample :
    ∃ w, runFrom (protocol id).step (start emptyDb)
        (created :: promoted ++ passRead ++ passSettled) = some w ∧
      w.store.journal.length = 2 ∧ ∀ e ∈ w.store.journal, e.sound := by
  have htest : (runFrom (protocol id).step (start emptyDb)
      (created :: promoted ++ passRead ++ passSettled)).any
        (fun w => w.store.journal.length == 2) = true := by decide +kernel
  obtain ⟨w, hrun, hw⟩ := (Option.any_eq_true _ _).mp htest
  refine ⟨w, hrun, beq_iff_eq.mp hw, fun e he => ?_⟩
  exact verdict_describes_content Function.injective_id (by decide +kernel) hrun he

theorem stale_demotion :
    ∃ w, runFrom (protocol id).step (start emptyDb)
        (created :: promoted ++ passRead ++ edited :: promoted ++ passSettled) = some w ∧
      ∃ e ∈ w.store.journal, ¬ e.sound := by
  have htest : (runFrom (protocol id).step (start emptyDb)
      (created :: promoted ++ passRead ++ edited :: promoted ++ passSettled)).any
        (fun w => w.store.journal.any fun e => !decide e.sound) = true := by decide +kernel
  obtain ⟨w, hrun, hw⟩ := (Option.any_eq_true _ _).mp htest
  obtain ⟨e, he, hno⟩ := List.any_eq_true.mp hw
  exact ⟨w, hrun, e, he, by simpa using hno⟩

end InvoiceOs.Concurrency
