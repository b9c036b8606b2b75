import InvoiceOs.Importer.Columns

/-! The dry run and the real run over the same tables: what both start from, what the real run
makes of it, and when the first predicts the second. -/

namespace InvoiceOs.Importer

open Lib Invoice Approval

/-! ### The plan -/

section
variable {quote : String → String} {db : Db} {req : Request} {p : Plan}

variable (db req) in
def existingAmong (cols : Columns) (number : String) : Option Uuid :=
  if number ∈ (groupRows (numberAt cols req.rows) req.rows.length).groups.map InvoiceGroup.number
  then db.findNumber req.entityID number
  else none

variable (quote db req p) in
structure Planned : Prop where
  columns : resolveMapping req.mapping req.header = .ok p.cols
  entity : db.entities.find? (fun e => e.id == req.entityID) = some p.entity
  triage : p.triage = triage quote p.cols req.rows req.headerRow (existingAmong db req p.cols)
    (groupRows (numberAt p.cols req.rows) req.rows.length)

theorem planned_of_plan (h : plan quote db req = .ok p) : Planned quote db req p := by
  unfold plan at h
  simp only [bind_eq_ok, refuse_eq_ok, pure_eq_ok] at h
  obtain ⟨cols, hcols, -, existing, hexisting, entity, hentity, rfl⟩ := h
  unfold existingNumbers at hexisting
  simp only [check_eq_ok, pure_eq_ok] at hexisting
  unfold entitySupplier at hentity
  split at hentity
  · cases hentity
  · rename_i e he
    cases hentity
    exact ⟨hcols, he, by rw [← hexisting.2]; rfl⟩

theorem Planned.mem_ready (h : Planned quote db req p) {g : InvoiceGroup}
    (hg : g ∈ p.triage.ready) :
    g ∈ (groupRows (numberAt p.cols req.rows) req.rows.length).groups ∧
      Checked p.cols req.rows (existingAmong db req p.cols) g := by
  rw [h.triage, triage_ready, List.mem_filter] at hg
  exact ⟨hg.1, checked_of_passes hg.2⟩

theorem Planned.rows_ne_nil (h : Planned quote db req p) {g : InvoiceGroup}
    (hg : g ∈ p.triage.ready) : g.rowIdxs ≠ [] :=
  (groupRows_spec _ _).nonempty g (h.mem_ready hg).1

theorem Planned.free (h : Planned quote db req p) {g : InvoiceGroup} (hg : g ∈ p.triage.ready) :
    db.findNumber req.entityID g.number = none := by
  obtain ⟨hmem, hchecked⟩ := h.mem_ready hg
  have hfree := hchecked.free
  unfold existingAmong at hfree
  rwa [if_pos (List.mem_map_of_mem hmem)] at hfree

theorem Planned.startable (h : Planned quote db req p)
    (hdoc : ∀ d, req.documentID = some d → d ∈ db.documents) :
    Startable req db p.triage.ready := by
  have hspec := groupRows_spec (numberAt p.cols req.rows) req.rows.length
  refine ⟨?_, fun g hg hempty => ?_, by rw [h.entity]; rfl, hdoc, fun g hg => h.free hg⟩
  · rw [h.triage, triage_ready]
    exact hspec.nodup.sublist (List.filter_sublist.map _)
  · exact hspec.named g (h.mem_ready hg).1 (by rw [hempty, trimSpace_empty])

theorem Planned.perm (h : Planned quote db req p) :
    (p.triage.errors.flatMap RowError.cited ++
      (p.triage.ready.flatMap InvoiceGroup.rowIdxs).map (sheetRow req.headerRow)).Perm
      ((List.range req.rows.length).map (sheetRow req.headerRow)) := by
  rw [h.triage]
  exact triage_perm _ _

theorem Planned.invalidRows (h : Planned quote db req p) :
    p.triage.invalidRows = (p.triage.errors.flatMap RowError.cited).length := by
  rw [h.triage]
  exact triage_invalidRows _ (groupRows_spec _ _).nonempty

theorem Planned.total (h : Planned quote db req p) :
    p.triage.invalidRows + (p.triage.ready.map fun g => g.rowIdxs.length).sum = req.rows.length := by
  have hlength := h.perm.length_eq
  rw [List.length_append, ← h.invalidRows, List.length_map, List.length_map, List.length_range,
    List.length_flatMap] at hlength
  exact hlength

end

/-! ### The real run -/

structure Figures where
  rowsTotal : ℤ
  rowsValid : ℤ
  rowsInvalid : ℤ
  readyInvoices : ℕ
  quarantinedInvoices : ℕ
  errors : List RowError

def BatchResult.figures (r : BatchResult) : Figures where
  rowsTotal := r.rowsTotal
  rowsValid := r.rowsValid
  rowsInvalid := r.rowsInvalid
  readyInvoices := r.readyInvoices
  quarantinedInvoices := r.quarantinedInvoices
  errors := r.errors

/-- The rules can be asked, and none of them changes during the run. -/
structure Gate.Answers (gate : Gate) : Prop where
  evaluate : ∀ items, ∃ r, gate.evaluate items = .ok r
  validateBatch : ∀ rows, ∃ outcome, gate.validateBatch rows = .ok outcome ∧
    outcome.unvalidated = []

section
variable {quote : String → String} {gate : Gate} {x : Externals} {ids : Ids} {db : Db}
  {req : Request} {batchID : Uuid} {p : Plan}

variable (req batchID) in
theorem validateCreated_ok (hgate : gate.Answers) (s : Progress) :
    ∃ r, validateCreated gate req batchID s = .ok r ∧
      r.figures = (s.result req batchID).figures := by
  unfold validateCreated
  by_cases hnone : s.created = []
  · rw [if_pos hnone]
    exact ⟨_, rfl, rfl⟩
  · rw [if_neg hnone]
    obtain ⟨outcome, houtcome, hall⟩ := hgate.validateBatch (s.created.map CreatedInvoice.inv)
    rw [houtcome]
    refine ⟨_, rfl, ?_⟩
    have hno : unvalidatedErrors req outcome s.created = [] := by
      unfold unvalidatedErrors
      rw [hall]
      simp
    simp only [BatchResult.figures, hno, List.append_nil]
    rfl

variable (db p req) in
def start : Progress where
  db := db
  errors := p.triage.errors
  quarantined := p.triage.quarantined
  rowsValid := req.rows.length - p.triage.invalidRows
  rowsInvalid := p.triage.invalidRows

theorem finalize_ok {b : Batch} (hbatch : db.batches.get? batchID = some b) {total valid invalid : ℤ}
    (htotal : 0 ≤ total) (hvalid : 0 ≤ valid) (hinvalid : 0 ≤ invalid) (errors : List RowError)
    (status : BatchStatus) : ∃ b', finalize db batchID total valid invalid errors status =
      .ok (db.setBatch batchID b') := by
  have hchecks : ¬ (total < 0 ∨ valid < 0 ∨ invalid < 0) := by omega
  unfold finalize
  rw [if_neg hchecks, hbatch]
  exact ⟨_, rfl⟩

theorem Looped.rowsValid_nonneg (h : Planned quote db req p) {db' : Db} {s' : Progress}
    {new : List CreatedInvoice}
    (hloop : Looped x ids p.cols req p.entity batchID db p.triage.ready (start db' req p) s' new) :
    0 ≤ s'.rowsValid ∧ 0 ≤ s'.rowsInvalid := by
  have htotal := h.total
  have hsub : ((p.triage.ready.filter fun g =>
      !stored x p.cols req p.entity batchID db g).map fun g => g.rowIdxs.length).sum ≤
        (p.triage.ready.map fun g => g.rowIdxs.length).sum :=
    (List.filter_sublist.map _).sum_le_sum fun _ _ => Nat.zero_le _
  have hinvalid := hloop.rowsInvalid
  have hvalid := hloop.rowsValid
  simp only [start] at hinvalid hvalid
  omega

structure Completed (x : Externals) (ids : Ids) (db : Db) (req : Request) (p : Plan)
    (batchID : Uuid) (s' : Progress) (new : List CreatedInvoice)
    (run : Db × Except ImportErr BatchResult) : Prop where
  looped : ∃ b, Looped x ids p.cols req p.entity batchID db p.triage.ready
    (start (db.setBatch batchID b) req p) s' new
  result : ∃ r, run.2 = .ok r ∧ r.figures = (s'.result req batchID).figures
  tables : ∃ b, run.1 = s'.db.setBatch batchID b

theorem grown_setBatch (x : Externals) (db : Db) (b : Batch) : db.Grown x (db.setBatch batchID b) :=
  ⟨rfl, rfl, fun _ h => h, fun _ h => Or.inl h⟩

section
variable (hgate : gate.Answers) (hdoc : ∀ d, req.documentID = some d → d ∈ db.documents)
  (hplan : plan quote db req = .ok p)
include hdoc

theorem createBatch_ok : createBatch db req batchID = .ok (db.setBatch batchID (newBatch req)) := by
  have hany : (req.documentID.any fun d => d ∉ db.documents) = false := by
    cases hd : req.documentID with
    | none => rfl
    | some d => simpa using hdoc d hd
  unfold createBatch
  rw [hany, req.filename_text]
  rfl

include hplan

variable (gate ids) in
theorem realRun_abort (hrows : req.rows ≠ [])
    (habort : ∃ g ∈ p.triage.ready,
      refusal x db (inputOf p.cols req p.entity batchID g) = some .database) :
    (realRun quote gate x ids db req batchID).2 = .error .database := by
  have hp := planned_of_plan hplan
  have hstart : Startable req (db.setBatch batchID (newBatch req)) p.triage.ready :=
    let h := hp.startable hdoc
    ⟨h.nodup, h.named, h.entity, h.document, h.free⟩
  obtain ⟨s', hloop⟩ := createAll_abort ids p.triage.ready
    (start (db.setBatch batchID (newBatch req)) req p) (grown_setBatch x db _) hstart habort
  unfold realRun
  rw [hplan]
  simp only [createBatch_ok hdoc, if_neg hrows]
  unfold createRun
  unfold start at hloop
  rw [hloop]

include hgate

variable (x ids batchID) in
theorem realRun_completed (hrows : req.rows ≠ [])
    (hdomain : ∀ g ∈ p.triage.ready,
      refusal x db (inputOf p.cols req p.entity batchID g) ≠ some .database) :
    ∃ s' new, Completed x ids db req p batchID s' new (realRun quote gate x ids db req batchID) := by
  have hp := planned_of_plan hplan
  have hstart : Startable req (db.setBatch batchID (newBatch req)) p.triage.ready :=
    let h := hp.startable hdoc
    ⟨h.nodup, h.named, h.entity, h.document, h.free⟩
  obtain ⟨s', new, hrun, hloop⟩ := createAll_ok ids p.triage.ready
    (start (db.setBatch batchID (newBatch req)) req p) (grown_setBatch x db _) hstart hdomain
  obtain ⟨r, hr, hfigures⟩ := validateCreated_ok req batchID hgate s'
  obtain ⟨hvalid, hinvalid⟩ := hloop.rowsValid_nonneg hp
  have hbatch : s'.db.batches.get? batchID = some (newBatch req) := by
    rw [hloop.batches]
    exact Table.get?_set_self _ _ _
  obtain ⟨b', hfinal⟩ := finalize_ok hbatch (Int.natCast_nonneg req.rows.length) hvalid hinvalid
    r.errors .completed
  have hall : realRun quote gate x ids db req batchID =
      (s'.db.setBatch batchID b', .ok r) := by
    unfold realRun
    rw [hplan]
    simp only [createBatch_ok hdoc, if_neg hrows]
    unfold createRun
    unfold start at hrun
    rw [hrun]
    simp only [hr, hfinal]
  refine ⟨s', new, ⟨_, hloop⟩, ⟨r, ?_, hfigures⟩, b', ?_⟩
  · rw [hall]
  · rw [hall]

end
end

/-! ### The prediction -/

def Agree : Except ImportErr BatchResult → Except ImportErr BatchResult → Prop
  | .error e, .error e' => e = e'
  | .ok r, .ok r' => r.figures = r'.figures
  | _, _ => False

section
variable {quote : String → String} {gate : Gate} {x : Externals} {ids : Ids} {db : Db}
  {req : Request} {batchID : Uuid} {p : Plan}

theorem dryRun_figures (hgate : gate.Answers) (hplan : plan quote db req = .ok p) :
    ∃ r, dryRun quote gate db req = .ok r ∧ r.figures = (p.result req).figures := by
  unfold dryRun
  rw [hplan]
  by_cases hnone : p.triage.ready = []
  · change ∃ r, (if p.triage.ready = [] then _ else _) = _ ∧ _
    rw [if_pos hnone]
    exact ⟨_, rfl, rfl⟩
  · obtain ⟨eval, heval⟩ := hgate.evaluate (p.triage.ready.map fun g =>
      (g.number, invoiceFromCreateInput (buildCreateInput p.cols req p.entity g none none)))
    change ∃ r, (if p.triage.ready = [] then _ else _) = _ ∧ _
    rw [if_neg hnone, heval]
    exact ⟨_, rfl, rfl⟩

theorem Planned.empty (h : Planned quote db req p) (hrows : req.rows = []) : p.triage = {} := by
  rw [h.triage, hrows]
  rfl

theorem realRun_empty (hdoc : ∀ d, req.documentID = some d → d ∈ db.documents)
    (hplan : plan quote db req = .ok p) (hrows : req.rows = []) :
    (realRun quote gate x ids db req batchID).2 =
      .ok { id := some batchID, status := some .failed } := by
  have hbatch : (db.setBatch batchID (newBatch req)).batches.get? batchID = some (newBatch req) :=
    Table.get?_set_self db.batches batchID (newBatch req)
  obtain ⟨b', hfinal⟩ := finalize_ok hbatch le_rfl le_rfl le_rfl [] .failed
  unfold realRun
  rw [hplan]
  simp only [createBatch_ok hdoc, if_pos hrows]
  unfold emptyRun
  rw [hfinal]

theorem stored_iff (hp : Planned quote db req p) {g : InvoiceGroup} (hg : g ∈ p.triage.ready) :
    stored x p.cols req p.entity batchID db g = true ↔
      Storable x db (inputOf p.cols req p.entity batchID g) := by
  rw [stored, Option.isNone_iff_eq_none]
  exact refusal_ready (hp.mem_ready hg).2 (hp.rows_ne_nil hg)

theorem Completed.figures_of_stored {s' : Progress} {new : List CreatedInvoice}
    {run : Db × Except ImportErr BatchResult}
    (h : Completed x ids db req p batchID s' new run)
    (hall : ∀ g ∈ p.triage.ready, stored x p.cols req p.entity batchID db g = true) :
    ∃ r, run.2 = .ok r ∧ r.figures = (p.result req).figures := by
  obtain ⟨r, hr, hfigures⟩ := h.result
  obtain ⟨b, hloop⟩ := h.looped
  have herrors : p.triage.ready.filterMap (refusedError x p.cols req p.entity batchID db) = [] := by
    rw [List.filterMap_eq_nil_iff]
    intro g hg
    have hnone := Option.isNone_iff_eq_none.mp (hall g hg)
    rw [refusedError, hnone]
    rfl
  have hkept : p.triage.ready.filter (stored x p.cols req p.entity batchID db) = p.triage.ready :=
    List.filter_eq_self.mpr hall
  have hdropped : (p.triage.ready.filter fun g =>
      !stored x p.cols req p.entity batchID db g) = [] := by
    rw [List.filter_eq_nil_iff]
    intro g hg
    rw [hall g hg]
    exact Bool.false_ne_true
  have hlength := hloop.rows.length_eq
  have hinvalid := hloop.rowsInvalid
  have hvalid := hloop.rowsValid
  rw [hkept] at hlength
  rw [hdropped] at hinvalid
  simp only [start, List.map_nil, List.sum_nil, Nat.cast_zero, add_zero] at hinvalid hvalid
  have hvalid' : s'.rowsValid = req.rows.length - p.triage.invalidRows := by omega
  refine ⟨r, hr, hfigures.trans ?_⟩
  simp only [BatchResult.figures, Progress.result, Plan.result, hinvalid, hvalid', hloop.errors,
    hloop.quarantined, hloop.created, herrors, start, List.nil_append, List.append_nil, hlength,
    List.length_nil, Nat.add_zero]

theorem Completed.stored_of_figures {s' : Progress} {new : List CreatedInvoice}
    {run : Db × Except ImportErr BatchResult}
    (h : Completed x ids db req p batchID s' new run) {r : BatchResult} (hr : run.2 = .ok r)
    (hfigures : r.figures = (p.result req).figures) :
    ∀ g ∈ p.triage.ready, stored x p.cols req p.entity batchID db g = true := by
  obtain ⟨r', hr', hfigures'⟩ := h.result
  obtain ⟨b, hloop⟩ := h.looped
  obtain rfl : r = r' := Except.ok.inj (hr.symm.trans hr')
  have hready := congrArg Figures.readyInvoices (hfigures'.symm.trans hfigures)
  simp only [BatchResult.figures, Progress.result, Plan.result, hloop.created, start,
    List.nil_append, hloop.rows.length_eq] at hready
  exact List.filter_eq_self.mp (List.filter_sublist.eq_of_length hready)

/-- With no concurrent writer the dry run predicts the real run exactly where the database takes
every group the checks keep. -/
theorem dryRun_predicts (hgate : gate.Answers)
    (hdoc : ∀ d, req.documentID = some d → d ∈ db.documents) :
    Agree (realRun quote gate x ids db req batchID).2 (dryRun quote gate db req) ↔
      ∀ p, plan quote db req = .ok p →
        ∀ g ∈ p.triage.ready, Storable x db (inputOf p.cols req p.entity batchID g) := by
  cases hplan : plan quote db req with
  | error e =>
    have hreal : realRun quote gate x ids db req batchID = (db, .error e) := by
      unfold realRun
      rw [hplan]
    have hdry : dryRun quote gate db req = .error e := by
      unfold dryRun
      rw [hplan]
      rfl
    rw [hreal, hdry]
    exact ⟨fun _ p hp => absurd hp nofun, fun _ => rfl⟩
  | ok p =>
    have hp := planned_of_plan hplan
    obtain ⟨d, hd, hdfigures⟩ := dryRun_figures hgate hplan
    have hone : (∀ p', Except.ok p = Except.ok (ε := ImportErr) p' → ∀ g ∈ p'.triage.ready,
        Storable x db (inputOf p'.cols req p'.entity batchID g)) ↔
          ∀ g ∈ p.triage.ready, stored x p.cols req p.entity batchID db g = true := by
      constructor
      · exact fun h g hg => (stored_iff hp hg).mpr (h p rfl g hg)
      · intro h p' hp' g hg
        cases hp'
        exact (stored_iff hp hg).mp (h g hg)
    rw [hone, hd]
    by_cases hrows : req.rows = []
    · have htriage := hp.empty hrows
      rw [realRun_empty hdoc hplan hrows, htriage]
      refine ⟨fun _ g hg => absurd hg List.not_mem_nil, fun _ => ?_⟩
      change _ = d.figures
      rw [hdfigures]
      simp [BatchResult.figures, Plan.result, htriage, hrows]
    · by_cases habort : ∃ g ∈ p.triage.ready,
          refusal x db (inputOf p.cols req p.entity batchID g) = some .database
      · rw [realRun_abort gate ids hdoc hplan hrows habort]
        refine ⟨fun h => h.elim, fun h => ?_⟩
        obtain ⟨g, hg, hrefused⟩ := habort
        have hstored := Option.isNone_iff_eq_none.mp (h g hg)
        rw [hrefused] at hstored
        cases hstored
      · obtain ⟨s', new, hdone⟩ := realRun_completed x ids batchID
          hgate hdoc hplan hrows fun g hg hdb => habort ⟨g, hg, hdb⟩
        constructor
        · intro hagree
          obtain ⟨r, hr, -⟩ := hdone.result
          rw [hr] at hagree
          have hsame : r.figures = d.figures := hagree
          exact hdone.stored_of_figures hr (hsame.trans hdfigures)
        · intro hall
          obtain ⟨r, hr, hfigures⟩ := hdone.figures_of_stored hall
          rw [hr]
          exact hfigures.trans hdfigures.symm

end

def lenientGate : Gate where
  evaluate _ := pure { ruleSetVersion := 1, byRef := fun _ => [] }
  validateBatch rows := pure
    { ruleSetVersion := 1, clean := rows.length, withViolations := 0, byID := fun _ => [] }

theorem lenientGate_answers : lenientGate.Answers := ⟨fun _ => ⟨_, rfl⟩, fun _ => ⟨_, rfl, rfl⟩⟩

def shortTexts : Externals where
  cast _ _ := none
  numberIndexable s := s.length ≤ 500
  customers := { collate := fun a b => decide (a ≤ b), indexable := fun s => s.length ≤ 500 }

def oneClient : Db where
  entities := [{ id := 7, name := "Adaeze Ltd" }]

def numberIds : Ids where
  invoice s := BitVec.ofNat 128 s.length
  customer s := BitVec.ofNat 128 (s.length + 1)

def wideTotal : Request where
  entityID := 7
  mapping := Table.ofList [("invoice_number", "No"), ("total", "Total")]
  header := ["No", "Total"]
  rows := [["A1", "9999999999999"]]

theorem dryRun_predicts_wideTotal : ¬ Agree
    (realRun (fun s => s) lenientGate shortTexts numberIds oneClient wideTotal 1).2
    (dryRun (fun s => s) lenientGate oneClient wideTotal) := by
  intro h
  have hdoc : ∀ d, wideTotal.documentID = some d → d ∈ oneClient.documents := by
    intro d hd
    cases hd
  have hstorable := (dryRun_predicts lenientGate_answers hdoc).mp h _ rfl ⟨"A1", [0]⟩ (by decide)
  have hfits := hstorable.amounts "9999999999999" (by decide)
  exact absurd hfits.units (by decide)

end InvoiceOs.Importer
