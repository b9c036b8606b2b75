import InvoiceOs.Importer.Predicts

/-! What a completed import leaves: every data row is cited by one error or is a line of one
created invoice, and the same file imported again creates nothing. -/

namespace InvoiceOs.Importer

open Lib Invoice Approval

/-! ### The rows of a created invoice -/

structure FromRows (x : Externals) (cols : Columns) (req : Request) (c : CreatedInvoice) : Prop where
  sorted : c.rowIdxs.Pairwise (· < ·)
  rows : ∀ i, i ∈ c.rowIdxs ↔ i < req.rows.length ∧ numberAt cols req.rows i = c.inv.invoiceNumber
  sourceRows : c.inv.sourceRows = req.documentID.map fun _ => sheetRows req.headerRow c.rowIdxs
  lines : ∃ stored, List.Forall₂
      (fun i li => storeLine x (lineInput cols (req.rows.row i)) = .ok li) c.rowIdxs stored ∧
    c.inv.lineItems = replaceLines stored

section
variable {quote : String → String} {gate : Gate} {x : Externals} {ids : Ids} {db db' : Db}
  {req : Request} {batchID : Uuid} {p : Plan}

theorem fromRows_of_created (hp : Planned quote db req p) {g : InvoiceGroup}
    (hg : g ∈ p.triage.ready) {c : CreatedInvoice} (hrows : c.rowIdxs = g.rowIdxs)
    (hinv : CreatedFrom x ids (inputOf p.cols req p.entity batchID g) c.inv) :
    FromRows x p.cols req c := by
  have hspec := groupRows_spec (numberAt p.cols req.rows) req.rows.length
  have hgroup := hspec.rows g (hp.mem_ready hg).1
  have hnumber : c.inv.invoiceNumber = g.number := hinv.content.invoiceNumber
  have hsource : c.inv.sourceRows = (inputOf p.cols req p.entity batchID g).sourceRows :=
    hinv.content.sourceRows
  obtain ⟨stored, hstored, hlines⟩ := hinv.lines
  refine ⟨?_, fun i => ?_, ?_, stored, ?_, hlines⟩
  · rw [hrows, hgroup]
    exact List.pairwise_lt_range.filter _
  · rw [hrows, hgroup, hnumber, List.mem_filter, List.mem_range, decide_eq_true_eq]
  · rw [hsource, hrows]
    rfl
  · rw [hrows]
    exact List.forall₂_map_left_iff.mp hstored

theorem completed_of_ok (hgate : gate.Answers) (hrows : req.rows ≠ []) {r : BatchResult}
    (h : realRun quote gate x ids db req batchID = (db', .ok r)) :
    ∃ p, plan quote db req = .ok p ∧ (∀ d, req.documentID = some d → d ∈ db.documents) ∧
      (∀ g ∈ p.triage.ready,
        refusal x db (inputOf p.cols req p.entity batchID g) ≠ some .database) ∧
      ∃ s' new, Completed x ids db req p batchID s' new (db', .ok r) := by
  cases hplan : plan quote db req with
  | error e =>
    unfold realRun at h
    rw [hplan] at h
    cases congrArg Prod.snd h
  | ok p =>
    have hdoc : ∀ d, req.documentID = some d → d ∈ db.documents := by
      intro d hd
      by_contra hno
      have hbatch : createBatch db req batchID = .error .validation := by
        have hany : (req.documentID.any fun d => d ∉ db.documents) = true := by
          rw [hd]
          simpa using hno
        unfold createBatch
        rw [if_pos hany]
        rfl
      unfold realRun at h
      rw [hplan] at h
      simp only [hbatch] at h
      cases congrArg Prod.snd h
    have hdomain : ∀ g ∈ p.triage.ready,
        refusal x db (inputOf p.cols req p.entity batchID g) ≠ some .database := by
      intro g hg hrefused
      have habort := realRun_abort gate ids hdoc hplan hrows ⟨g, hg, hrefused⟩
      rw [h] at habort
      cases habort
    have hdone := realRun_completed x ids batchID hgate hdoc hplan hrows hdomain
    rw [h] at hdone
    exact ⟨p, rfl, hdoc, hdomain, hdone⟩

variable (x db req batchID) in
theorem rows_of_refusedError (cols : Columns) (e : Entity) (g : InvoiceGroup) (err : RowError)
    (h : refusedError x cols req e batchID db g = some err) :
    err.rows = sheetRows req.headerRow g.rowIdxs := by
  obtain ⟨c, -, rfl⟩ := Option.map_eq_some_iff.mp h
  unfold createRowError
  split
  · rfl
  · rfl

variable (x batchID) in
theorem cited_refused (hp : Planned quote db req p) :
    ((p.triage.ready.filterMap (refusedError x p.cols req p.entity batchID db)).flatMap
        RowError.cited).Perm
      (((p.triage.ready.filter fun g => !stored x p.cols req p.entity batchID db g).flatMap
        InvoiceGroup.rowIdxs).map (sheetRow req.headerRow)) := by
  have hcited := cited_groups (rows_of_refusedError x db req batchID p.cols p.entity)
    p.triage.ready fun g hg => hp.rows_ne_nil hg
  have hsame : ∀ g, (refusedError x p.cols req p.entity batchID db g).isNone =
      stored x p.cols req p.entity batchID db g := fun g => Option.isNone_map
  simpa only [hsame] using hcited

theorem ready_perm (hp : Planned quote db req p) :
    ((p.triage.ready.filterMap (refusedError x p.cols req p.entity batchID db)).flatMap
        RowError.cited ++
      ((p.triage.ready.filter (stored x p.cols req p.entity batchID db)).flatMap
        InvoiceGroup.rowIdxs).map (sheetRow req.headerRow)).Perm
      ((p.triage.ready.flatMap InvoiceGroup.rowIdxs).map (sheetRow req.headerRow)) := by
  refine ((cited_refused x batchID hp).append_right _).trans ?_
  rw [← List.map_append, ← List.flatMap_append]
  have hsplit := List.filter_append_perm (stored x p.cols req p.entity batchID db) p.triage.ready
  exact ((List.perm_append_comm.trans hsplit).flatMap_right _).map _

theorem accounted_perm (hp : Planned quote db req p) :
    ((p.triage.errors ++ p.triage.ready.filterMap (refusedError x p.cols req p.entity batchID db)
        ).flatMap RowError.cited ++
      ((p.triage.ready.filter (stored x p.cols req p.entity batchID db)).flatMap
        InvoiceGroup.rowIdxs).map (sheetRow req.headerRow)).Perm
      ((List.range req.rows.length).map (sheetRow req.headerRow)) := by
  rw [List.flatMap_append, List.append_assoc]
  exact ((ready_perm hp).append_left _).trans hp.perm

variable (x batchID) in
theorem errors_nodup (hp : Planned quote db req p) :
    ((p.triage.errors ++ p.triage.ready.filterMap (refusedError x p.cols req p.entity batchID db)
      ).flatMap RowError.cited).Nodup := by
  have hrange : ((List.range req.rows.length).map (sheetRow req.headerRow)).Nodup := by
    refine List.nodup_range.map fun i j hij => ?_
    unfold sheetRow at hij
    omega
  exact (List.nodup_append.mp ((accounted_perm (x := x) hp).nodup_iff.mpr hrange)).1

theorem exists_of_forall₂ {α β : Type*} {R : α → β → Prop} {l : List α} {l' : List β}
    (h : List.Forall₂ R l l') {a : α} (ha : a ∈ l) : ∃ b ∈ l', R a b := by
  induction h with
  | nil => cases ha
  | @cons a' b' l l' hhead _ ih =>
    rcases List.mem_cons.mp ha with rfl | ha
    · exact ⟨b', List.mem_cons_self, hhead⟩
    · obtain ⟨b, hb, hab⟩ := ih ha
      exact ⟨b, List.mem_cons_of_mem _ hb, hab⟩

theorem flatMap_rows {new : List CreatedInvoice} {groups : List InvoiceGroup}
    {P : CreatedInvoice → InvoiceGroup → Prop}
    (h : List.Forall₂ (fun c g => c.rowIdxs = g.rowIdxs ∧ P c g) new groups) :
    new.flatMap CreatedInvoice.rowIdxs = groups.flatMap InvoiceGroup.rowIdxs := by
  induction h with
  | nil => rfl
  | cons hhead _ ih => rw [List.flatMap_cons, List.flatMap_cons, ih, hhead.1]

/-- Every data row of a completed import is cited by one error, or is one line of one created
invoice that has all rows of its number in the order of the file; the counts are those rows'. -/
theorem rows_accounted (hgate : gate.Answers) (hrows : req.rows ≠ []) {r : BatchResult}
    (h : realRun quote gate x ids db req batchID = (db', .ok r)) :
    ∃ (cols : Columns) (created : List CreatedInvoice),
      resolveMapping req.mapping req.header = .ok cols ∧
      db'.invoices = (created.map CreatedInvoice.inv).reverse ++ db.invoices ∧
      (∀ c ∈ created, FromRows x cols req c) ∧
      (r.errors.flatMap RowError.cited ++
        (created.flatMap CreatedInvoice.rowIdxs).map (sheetRow req.headerRow)).Perm
        ((List.range req.rows.length).map (sheetRow req.headerRow)) ∧
      r.readyInvoices = created.length ∧ r.quarantinedInvoices = r.errors.length ∧
      r.rowsValid = (created.flatMap CreatedInvoice.rowIdxs).length ∧
      r.rowsInvalid = (r.errors.flatMap RowError.cited).length := by
  obtain ⟨p, hplan, hdoc, hdomain, s', new, hdone⟩ := completed_of_ok hgate hrows h
  have hp := planned_of_plan hplan
  obtain ⟨b, hloop⟩ := hdone.looped
  obtain ⟨r', hr', hfigures⟩ := hdone.result
  obtain ⟨b', htables⟩ := hdone.tables
  obtain rfl : r = r' := Except.ok.inj hr'
  have herrors : r.errors = p.triage.errors ++
      p.triage.ready.filterMap (refusedError x p.cols req p.entity batchID db) :=
    (congrArg Figures.errors hfigures).trans hloop.errors
  have hcreated : s'.created = new := hloop.created.trans (List.nil_append _)
  have hnew := flatMap_rows hloop.rows
  have hperm : (r.errors.flatMap RowError.cited ++
      (new.flatMap CreatedInvoice.rowIdxs).map (sheetRow req.headerRow)).Perm
        ((List.range req.rows.length).map (sheetRow req.headerRow)) := by
    rw [herrors, hnew]
    exact accounted_perm hp
  have hquarantined : r.quarantinedInvoices = r.errors.length := by
    have hstart : p.triage.quarantined = p.triage.errors.length := by
      rw [hp.triage]
      exact triage_quarantined _
    rw [herrors, List.length_append, ← hstart]
    exact (congrArg Figures.quarantinedInvoices hfigures).trans hloop.quarantined
  have hinvalid : r.rowsInvalid = (r.errors.flatMap RowError.cited).length := by
    have hrefused := (cited_refused x batchID hp).length_eq
    rw [List.length_map, List.length_flatMap (f := InvoiceGroup.rowIdxs)] at hrefused
    rw [herrors, List.flatMap_append, List.length_append, ← hp.invalidRows, hrefused, Nat.cast_add]
    exact (congrArg Figures.rowsInvalid hfigures).trans hloop.rowsInvalid
  refine ⟨p.cols, new, hp.columns, ?_, ?_, hperm, ?_, hquarantined, ?_, hinvalid⟩
  · have htables' : db' = s'.db.setBatch batchID b' := htables
    rw [htables']
    exact hloop.invoices
  · intro c hc
    obtain ⟨g, hg, hcg⟩ := exists_of_forall₂ hloop.rows hc
    exact fromRows_of_created hp (List.mem_filter.mp hg).1 hcg.1 hcg.2
  · exact (congrArg Figures.readyInvoices hfigures).trans (congrArg List.length hcreated)
  · have hlength := hperm.length_eq
    rw [List.length_append, List.length_map, List.length_map, List.length_range] at hlength
    have htotal : r.rowsValid + r.rowsInvalid = req.rows.length := by
      have hvalid := congrArg Figures.rowsValid hfigures
      have hinvalid' := congrArg Figures.rowsInvalid hfigures
      have hsum := hloop.rowsValid
      simp only [BatchResult.figures, Progress.result, start] at hvalid hinvalid' hsum
      omega
    omega

end

def twoInvoices : Request := { wideTotal with
  mapping := Table.ofList [("invoice_number", "No"), ("line_unit_price", "Price")]
  header := ["No", "Price"]
  rows := [["A1", "10.00"], ["", "5"], ["A2", "7.50"], ["A1", "20"]] }

theorem rows_accounted_twoInvoices : ∃ db' r,
    realRun (fun s => s) lenientGate shortTexts numberIds oneClient twoInvoices 1 = (db', .ok r) ∧
      r.readyInvoices = 2 ∧ r.quarantinedInvoices = r.errors.length := by
  have hrows : twoInvoices.rows ≠ [] := nofun
  have hrun : realRun (fun s => s) lenientGate shortTexts numberIds oneClient twoInvoices 1 =
      (_, .ok _) := rfl
  obtain ⟨_, _, -, -, -, -, -, hquarantined, -, -⟩ :=
    rows_accounted lenientGate_answers hrows hrun
  exact ⟨_, _, hrun, rfl, hquarantined⟩

/-! ### The same file again -/

section
variable {quote : String → String} {gate : Gate} {x : Externals} {ids : Ids} {db db' : Db}
  {req : Request} {batchID : Uuid} {p : Plan}

theorem storeContent_batch (c : Content) (b : Option Uuid) :
    storeContent x { c with importBatchID := b } =
      (storeContent x c).map fun c' => { c' with importBatchID := b } := by
  unfold storeContent
  have htexts : ({ c with importBatchID := b } : Content).texts = c.texts := rfl
  rw [htexts]
  cases storeTexts c.texts with
  | error e => rfl
  | ok _ =>
    cases storeAmount x 2 c.subtotal with
    | error e => rfl
    | ok subtotal =>
      cases storeAmount x 2 c.vat with
      | error e => rfl
      | ok vat =>
        cases storeAmount x 2 c.total with
        | error e => rfl
        | ok total => rfl

theorem refusal_batch (cols : Columns) (e : Entity) (b b' : Uuid) (g : InvoiceGroup) :
    refusal x db (inputOf cols req e b g) = refusal x db (inputOf cols req e b' g) := by
  have hcontent : storeContent x (inputOf cols req e b g).toContent =
      (storeContent x (inputOf cols req e b' g).toContent).map fun c =>
        { c with importBatchID := some b } :=
    storeContent_batch (inputOf cols req e b' g).toContent (some b)
  unfold refusal
  rw [hcontent]
  cases storeContent x (inputOf cols req e b' g).toContent with
  | error e => rfl
  | ok content => rfl

theorem classify_eq (cols : Columns) (rows : Sheet) (headerRow : ℕ)
    (existing : String → Option Uuid) (g : InvoiceGroup) :
    classify quote cols rows headerRow existing g =
      (classify quote cols rows headerRow (fun _ => none) g).or
        ((existing g.number).map fun id => storeDuplicateRowError headerRow g.rowIdxs (some id)) := by
  have hsplit : ∀ found : String → Option Uuid, checks quote cols rows headerRow found g =
      (checks quote cols rows headerRow (fun _ => none) g).dropLast ++
        [(found g.number).map fun id => storeDuplicateRowError headerRow g.rowIdxs (some id)] :=
    fun _ => rfl
  unfold classify
  rw [hsplit existing, hsplit fun _ => none, List.findSome?_append, List.findSome?_append]
  simp

theorem passes_iff {cols : Columns} {rows : Sheet} {headerRow : ℕ}
    {existing : String → Option Uuid} {g : InvoiceGroup} :
    passes quote cols rows headerRow existing g = true ↔
      classify quote cols rows headerRow (fun _ => none) g = none ∧ existing g.number = none := by
  unfold passes
  rw [Option.isNone_iff_eq_none, classify_eq, Option.or_eq_none_iff, Option.map_eq_none_iff]

theorem plan_later (hplan : plan quote db req = .ok p) (hentities : db'.entities = db.entities) :
    ∃ p', plan quote db' req = .ok p' ∧ p'.cols = p.cols ∧ p'.entity = p.entity := by
  unfold plan at hplan ⊢
  simp only [bind_eq_ok, refuse_eq_ok, pure_eq_ok] at hplan ⊢
  obtain ⟨cols, hcols, hkind, existing, hexisting, entity, hentity, rfl⟩ := hplan
  unfold existingNumbers at hexisting
  simp only [check_eq_ok, pure_eq_ok] at hexisting
  let grouped := groupRows (numberAt cols req.rows) req.rows.length
  let later : String → Option Uuid := existingAmong db' req cols
  refine ⟨⟨cols, entity, triage quote cols req.rows req.headerRow later grouped⟩,
    ⟨cols, hcols, hkind, later, ?_, entity, ?_, rfl⟩, rfl, rfl⟩
  · unfold existingNumbers
    rw [if_neg hexisting.1]
    rfl
  · unfold entitySupplier at hentity ⊢
    rw [hentities]
    exact hentity

theorem Db.findNumber_append {db : Db} {new old : List InvoiceRow}
    (h : db.invoices = new ++ old) {entityID : Uuid} {number : String}
    (hnone : db.findNumber entityID number = none) :
    (old.find? fun r => r.entityID == entityID && r.invoiceNumber == number) = none := by
  unfold Db.findNumber at hnone
  rw [h, Option.map_eq_none_iff, List.find?_append, Option.or_eq_none_iff] at hnone
  exact hnone.2

theorem ready_later {p' : Plan} {s' : Progress} {new : List CreatedInvoice} {b : Batch}
    (hp : Planned quote db req p) (hp' : Planned quote db' req p') (hcols : p'.cols = p.cols)
    (hinvoices : db'.invoices = (new.map CreatedInvoice.inv).reverse ++ db.invoices)
    (hloop : Looped x ids p.cols req p.entity batchID db p.triage.ready
      (start (db.setBatch batchID b) req p) s' new)
    {g : InvoiceGroup} (hg : g ∈ p'.triage.ready) :
    g ∈ p.triage.ready ∧ stored x p.cols req p.entity batchID db g = false := by
  have hfree := hp'.free hg
  have hready : g ∈ p.triage.ready := by
    rw [hp'.triage, triage_ready, List.mem_filter, hcols, passes_iff] at hg
    rw [hp.triage, triage_ready, List.mem_filter, passes_iff]
    refine ⟨hg.1, hg.2.1, ?_⟩
    unfold existingAmong
    split
    · exact Option.map_eq_none_iff.mpr (Db.findNumber_append hinvoices hfree)
    · rfl
  refine ⟨hready, Bool.eq_false_iff.mpr fun hstored => ?_⟩
  -- a created group's number is taken by now
  obtain ⟨c, hc, hcg⟩ := exists_of_forall₂ hloop.rows.flip (List.mem_filter.mpr ⟨hready, hstored⟩)
  have hmem : c.inv ∈ db'.invoices := by
    rw [hinvoices, List.mem_append, List.mem_reverse]
    exact Or.inl (List.mem_map_of_mem hc)
  have hnone := List.find?_eq_none.mp (Option.map_eq_none_iff.mp hfree) c.inv hmem
  have hentity : c.inv.entityID = req.entityID := hcg.2.content.entityID
  have hnumber : c.inv.invoiceNumber = g.number := hcg.2.content.invoiceNumber
  simp [hentity, hnumber] at hnone

theorem numbers_created {s s' : Progress} {groups : List InvoiceGroup}
    {new : List CreatedInvoice} {cols : Columns} {e : Entity}
    (hloop : Looped x ids cols req e batchID db groups s s' new)
    (hnodup : (groups.map InvoiceGroup.number).Nodup) :
    (new.map fun c => c.inv.invoiceNumber).Nodup := by
  have hnumbers : ∀ (l : List CreatedInvoice) (gs : List InvoiceGroup),
      List.Forall₂ (fun c g => c.rowIdxs = g.rowIdxs ∧
        CreatedFrom x ids (inputOf cols req e batchID g) c.inv) l gs →
      (l.map fun c => c.inv.invoiceNumber) = gs.map InvoiceGroup.number := by
    intro l gs h
    induction h with
    | nil => rfl
    | cons hhead _ ih => rw [List.map_cons, List.map_cons, ih, hhead.2.content.invoiceNumber]; rfl
  rw [hnumbers new _ hloop.rows]
  exact hnodup.sublist (List.filter_sublist.map _)

theorem findNumber_created {new : List CreatedInvoice}
    (hinvoices : db'.invoices = (new.map CreatedInvoice.inv).reverse ++ db.invoices)
    (hnodup : (new.map fun c => c.inv.invoiceNumber).Nodup) {c : CreatedInvoice} (hc : c ∈ new)
    {entityID : Uuid} (hentity : c.inv.entityID = entityID)
    (hfree : db.findNumber entityID c.inv.invoiceNumber = none) :
    db'.findNumber entityID c.inv.invoiceNumber = some c.inv.id := by
  have hmem : c.inv ∈ db'.invoices := by
    rw [hinvoices, List.mem_append, List.mem_reverse]
    exact Or.inl (List.mem_map_of_mem hc)
  unfold Db.findNumber
  cases hfound : db'.invoices.find? fun r =>
      r.entityID == entityID && r.invoiceNumber == c.inv.invoiceNumber with
  | none =>
    have hno := List.find?_eq_none.mp hfound c.inv hmem
    simp [hentity] at hno
  | some row =>
    have hrow := List.find?_some hfound
    simp only [Bool.and_eq_true, beq_iff_eq] at hrow
    have hrowmem := List.mem_of_find?_eq_some hfound
    rw [hinvoices, List.mem_append, List.mem_reverse, List.mem_map] at hrowmem
    rcases hrowmem with ⟨c', hc', rfl⟩ | hold
    · rw [List.inj_on_of_nodup_map hnodup hc' hc hrow.2]
      rfl
    · have hno := List.find?_eq_none.mp (Option.map_eq_none_iff.mp hfree) row hold
      simp [hrow.1, hrow.2] at hno

def citing (errors : List RowError) (rows : List ℕ) : List RowError :=
  errors.filter fun e => e.cited.any fun row => row ∈ rows

theorem citing_eq {errors : List RowError} (h : (errors.flatMap RowError.cited).Nodup)
    {e : RowError} (he : e ∈ errors) (hne : e.cited ≠ []) : citing errors e.cited = [e] := by
  obtain ⟨before, behind, rfl⟩ := List.append_of_mem he
  rw [List.flatMap_append, List.flatMap_cons, List.nodup_append, List.nodup_append] at h
  obtain ⟨-, ⟨-, -, hbehind⟩, hbefore⟩ := h
  have hothers : ∀ others : List RowError, (∀ row ∈ others.flatMap RowError.cited, row ∉ e.cited) →
      citing others e.cited = [] := by
    intro others hapart
    refine List.filter_eq_nil_iff.mpr fun other hother hcites => ?_
    obtain ⟨row, hrow, hmem⟩ := List.any_eq_true.mp hcites
    exact hapart row (List.mem_flatMap.mpr ⟨other, hother, hrow⟩) (of_decide_eq_true hmem)
  have hself : (e.cited.any fun row => row ∈ e.cited) = true := by
    obtain ⟨row, hrow⟩ := List.exists_mem_of_ne_nil _ hne
    exact List.any_eq_true.mpr ⟨row, hrow, decide_eq_true hrow⟩
  have hsplit : citing (before ++ e :: behind) e.cited =
      citing before e.cited ++ e :: citing behind e.cited := by
    unfold citing
    rw [List.filter_append, List.filter_cons, if_pos hself]
  rw [hsplit, hothers before fun row hrow hmem =>
      hbefore row hrow row (List.mem_append_left _ hmem) rfl,
    hothers behind fun row hrow hmem => hbehind row hmem row hrow rfl]
  rfl

def rowsUnder (cols : Columns) (rows : Sheet) (number : String) : List ℕ :=
  (List.range rows.length).filter fun i => numberAt cols rows i = number

theorem created_taken {p' : Plan} {s' : Progress} {new : List CreatedInvoice} {b : Batch}
    (hp : Planned quote db req p) (hcols : p'.cols = p.cols)
    (hdoc : ∀ d, req.documentID = some d → d ∈ db.documents)
    (hinvoices : db'.invoices = (new.map CreatedInvoice.inv).reverse ++ db.invoices)
    (hloop : Looped x ids p.cols req p.entity batchID db p.triage.ready
      (start (db.setBatch batchID b) req p) s' new)
    {c : CreatedInvoice} (hc : c ∈ new) :
    ∃ g ∈ p.triage.ready, c.inv.invoiceNumber = g.number ∧
      classify quote p'.cols req.rows req.headerRow (existingAmong db' req p'.cols) g =
        some (storeDuplicateRowError req.headerRow g.rowIdxs (some c.inv.id)) := by
  obtain ⟨g, hg, hcg⟩ := exists_of_forall₂ hloop.rows hc
  have hgready := (List.mem_filter.mp hg).1
  have hnumber : c.inv.invoiceNumber = g.number := hcg.2.content.invoiceNumber
  have hfound : db'.findNumber req.entityID g.number = some c.inv.id := by
    rw [← hnumber]
    exact findNumber_created hinvoices (numbers_created hloop (hp.startable hdoc).nodup) hc
      hcg.2.content.entityID (hnumber ▸ hp.free hgready)
  have hexisting : existingAmong db' req p'.cols g.number = some c.inv.id := by
    unfold existingAmong
    rw [hcols, if_pos (List.mem_map_of_mem (hp.mem_ready hgready).1), hfound]
  have hpassed : classify quote p.cols req.rows req.headerRow (fun _ => none) g = none := by
    rw [hp.triage, triage_ready, List.mem_filter, passes_iff] at hgready
    exact hgready.2.1
  refine ⟨g, hgready, hnumber, ?_⟩
  rw [classify_eq, hexisting, hcols, hpassed]
  rfl

variable (x batchID) in
theorem duplicate_alone (hp : Planned quote db req p) {g : InvoiceGroup} {id : Uuid}
    (hg : g ∈ (groupRows (numberAt p.cols req.rows) req.rows.length).groups)
    (hclass : classify quote p.cols req.rows req.headerRow (existingAmong db req p.cols) g =
      some (storeDuplicateRowError req.headerRow g.rowIdxs (some id))) :
    citing (p.triage.errors ++
        p.triage.ready.filterMap (refusedError x p.cols req p.entity batchID db))
      (sheetRows req.headerRow g.rowIdxs) =
        [storeDuplicateRowError req.headerRow g.rowIdxs (some id)] := by
  have hmem : storeDuplicateRowError req.headerRow g.rowIdxs (some id) ∈ p.triage.errors ++
      p.triage.ready.filterMap (refusedError x p.cols req p.entity batchID db) := by
    refine List.mem_append_left _ ?_
    rw [hp.triage, triage_errors]
    exact List.mem_append_left _ (List.mem_filterMap.mpr ⟨g, hg, hclass⟩)
  have hne : sheetRows req.headerRow g.rowIdxs ≠ [] := by
    unfold sheetRows
    rw [ne_eq, ← List.length_eq_zero_iff, List.length_insertionSort, List.length_map,
      List.length_eq_zero_iff]
    exact (groupRows_spec _ _).nonempty g hg
  have hcited : (storeDuplicateRowError req.headerRow g.rowIdxs (some id)).cited =
      sheetRows req.headerRow g.rowIdxs := if_neg hne
  have hlone := citing_eq (errors_nodup x batchID hp) hmem (hcited ▸ hne)
  rwa [hcited] at hlone

/-- An import of the same file creates nothing, and the one error over the rows of each invoice
created before says that it is there. -/
theorem reimport_creates_nothing (hgate : gate.Answers) {gate' : Gate} (hgate' : gate'.Answers)
    (ids' : Ids) (batchID' : Uuid) (hrows : req.rows ≠ []) {r : BatchResult}
    (h : realRun quote gate x ids db req batchID = (db', .ok r)) :
    ∃ cols b r', resolveMapping req.mapping req.header = .ok cols ∧
      realRun quote gate' x ids' db' req batchID' = (db'.setBatch batchID' b, .ok r') ∧
      r'.readyInvoices = 0 ∧ r'.rowsValid = 0 ∧ r'.rowsInvalid = req.rows.length ∧
      ∀ row ∈ db'.invoices.take r.readyInvoices,
        citing r'.errors (sheetRows req.headerRow (rowsUnder cols req.rows row.invoiceNumber)) =
          [storeDuplicateRowError req.headerRow (rowsUnder cols req.rows row.invoiceNumber)
            (some row.id)] := by
  obtain ⟨p, hplan, hdoc, hdomain, s', new, hdone⟩ := completed_of_ok hgate hrows h
  obtain ⟨b, hloop⟩ := hdone.looped
  obtain ⟨b', htables⟩ := hdone.tables
  have htables' : db' = s'.db.setBatch batchID b' := htables
  have hp := planned_of_plan hplan
  have hgrown : db.Grown x db' := by
    rw [htables']
    exact (grown_setBatch x db b).trans (hloop.grown.trans (grown_setBatch x s'.db b'))
  have hinvoices : db'.invoices = (new.map CreatedInvoice.inv).reverse ++ db.invoices := by
    rw [htables']
    exact hloop.invoices
  obtain ⟨p', hplan', hcols, hentity⟩ := plan_later hplan hgrown.entities
  have hp' := planned_of_plan hplan'
  have hsame : ∀ g, refusal x db' (inputOf p'.cols req p'.entity batchID' g) =
      refusal x db (inputOf p.cols req p.entity batchID g) := fun g => by
    rw [hgrown.refusal, hcols, hentity]
    exact refusal_batch p.cols p.entity batchID' batchID g
  have hlater : ∀ g ∈ p'.triage.ready,
      g ∈ p.triage.ready ∧ stored x p.cols req p.entity batchID db g = false :=
    fun g hg => ready_later hp hp' hcols hinvoices hloop hg
  have hdoc' : ∀ d, req.documentID = some d → d ∈ db'.documents := by
    rw [hgrown.documents]
    exact hdoc
  obtain ⟨s'', new', hdone'⟩ := realRun_completed x ids' batchID'
    hgate' hdoc' hplan' hrows fun g hg => by
      rw [hsame]
      exact hdomain g (hlater g hg).1
  obtain ⟨b₂, hloop'⟩ := hdone'.looped
  obtain ⟨b₃, htables''⟩ := hdone'.tables
  obtain ⟨r', hr', hfigures⟩ := hdone'.result
  have hnone : p'.triage.ready.filter (stored x p'.cols req p'.entity batchID' db') = [] := by
    rw [List.filter_eq_nil_iff]
    intro g hg
    have hrefused := (hlater g hg).2
    unfold stored at hrefused ⊢
    rw [hsame, hrefused]
    exact Bool.false_ne_true
  have hnew : new' = [] := by
    have hlength := hloop'.rows.length_eq
    rw [hnone] at hlength
    exact List.length_eq_zero_iff.mp hlength
  have hdropped : (p'.triage.ready.filter fun g =>
      !stored x p'.cols req p'.entity batchID' db' g) = p'.triage.ready := by
    rw [List.filter_eq_self]
    intro g hg
    have hrefused := List.filter_eq_nil_iff.mp hnone g hg
    rw [Bool.eq_false_iff.mpr hrefused]
    rfl
  have hinvalid : s''.rowsInvalid = req.rows.length := by
    have htotal := hp'.total
    have hloopInvalid := hloop'.rowsInvalid
    rw [hdropped] at hloopInvalid
    simp only [start] at hloopInvalid
    omega
  have hvalid : s''.rowsValid = 0 := by
    have hsum := hloop'.rowsValid
    simp only [start] at hsum
    omega
  refine ⟨p.cols, b₃, r', hp.columns, ?_, ?_, ?_, ?_, fun row hrow => ?_⟩
  · have hdb : s''.db.setBatch batchID' b₃ = db'.setBatch batchID' b₃ := by
      rw [hloop'.idle hnew]
      unfold start Db.setBatch
      simp only [Table.set_set]
    exact Prod.ext (htables''.trans hdb) hr'
  · refine (congrArg Figures.readyInvoices hfigures).trans ?_
    have hcreated : s''.created = [] := by
      rw [hloop'.created, hnew]
      rfl
    exact congrArg List.length hcreated
  · exact (congrArg Figures.rowsValid hfigures).trans hvalid
  · exact (congrArg Figures.rowsInvalid hfigures).trans hinvalid
  · obtain ⟨r₁, hr₁, hfigures₁⟩ := hdone.result
    obtain rfl : r = r₁ := Except.ok.inj hr₁
    have hready : r.readyInvoices = (new.map CreatedInvoice.inv).reverse.length := by
      refine (congrArg Figures.readyInvoices hfigures₁).trans ?_
      have hcreated : s'.created = new := hloop.created.trans (List.nil_append _)
      rw [List.length_reverse, List.length_map, ← hcreated]
      rfl
    rw [hinvoices, hready, List.take_left, List.mem_reverse, List.mem_map] at hrow
    obtain ⟨c, hc, rfl⟩ := hrow
    obtain ⟨g, hg, hnumber, hclass⟩ := created_taken hp hcols hdoc hinvoices hloop hc
    have hmem := (hp.mem_ready hg).1
    have hgroup : g.rowIdxs = rowsUnder p.cols req.rows g.number :=
      (groupRows_spec (numberAt p.cols req.rows) req.rows.length).rows g hmem
    have herrors : r'.errors = p'.triage.errors ++
        p'.triage.ready.filterMap (refusedError x p'.cols req p'.entity batchID' db') :=
      (congrArg Figures.errors hfigures).trans hloop'.errors
    rw [hnumber, ← hgroup, herrors]
    exact duplicate_alone x batchID' hp' (hcols ▸ hmem) hclass

end

theorem reimport_twoInvoices : ∃ db' r b r' id,
    realRun (fun s => s) lenientGate shortTexts numberIds oneClient twoInvoices 1 = (db', .ok r) ∧
      realRun (fun s => s) lenientGate shortTexts numberIds db' twoInvoices 2 =
        (db'.setBatch 2 b, .ok r') ∧ r'.readyInvoices = 0 ∧
      citing r'.errors [2, 5] = [storeDuplicateRowError 1 [0, 3] (some id)] := by
  have hrows : twoInvoices.rows ≠ [] := nofun
  have hrun : realRun (fun s => s) lenientGate shortTexts numberIds oneClient twoInvoices 1 =
      (_, .ok _) := rfl
  obtain ⟨cols, b, r', hcols, hagain, hnone, -, -, hlone⟩ :=
    reimport_creates_nothing lenientGate_answers lenientGate_answers numberIds 2 hrows hrun
  have hone := hlone _ (List.mem_of_getElem? (i := 1) rfl)
  have hunder : rowsUnder cols twoInvoices.rows "A1" = [0, 3] := by
    cases hcols
    decide +kernel
  change citing r'.errors (sheetRows 1 (rowsUnder cols twoInvoices.rows "A1")) =
    [storeDuplicateRowError 1 (rowsUnder cols twoInvoices.rows "A1") _] at hone
  rw [hunder] at hone
  exact ⟨_, _, b, r', _, hrun, hagain, hnone, hone⟩

end InvoiceOs.Importer
