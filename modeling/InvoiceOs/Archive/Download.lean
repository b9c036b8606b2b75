import InvoiceOs.Archive.Complete

/-! The download of a bundle and its preview, over the stages of one company. -/

namespace InvoiceOs.Archive

open Lib

/-! ### Counts -/

theorem rows_of_mem_bodyFiles {dir : String} {e : Exchange} {f : File} (h : f ∈ bodyFiles dir e) :
    f.rows = none := by
  rcases mem_bodyFiles.mp h with ⟨b, -, rfl⟩ | ⟨b, -, rfl⟩ <;> rfl

theorem length_bodyFileOf (name : String) (body : Option String) :
    (bodyFileOf name body).length = if body.isSome then 1 else 0 := by
  cases body <;> rfl

theorem length_bodies (dir : String) (rows : List Exchange) :
    (rows.flatMap (bodyFiles dir)).length = bodyCount rows := by
  induction rows with
  | nil => rfl
  | cons e rows ih =>
    have hhead : (bodyFiles dir e).length =
        (if e.requestBody.isSome then 1 else 0) + if e.responseBody.isSome then 1 else 0 := by
      unfold bodyFiles
      rw [List.length_append, length_bodyFileOf, length_bodyFileOf]
    unfold bodyCount at ih ⊢
    rw [List.flatMap_cons, List.length_append, ih, hhead, List.countP_cons, List.countP_cons]
    omega

theorem bodyCount_perm {rows rows' : List Exchange} (h : rows.Perm rows') :
    bodyCount rows = bodyCount rows' := by
  unfold bodyCount
  rw [h.countP_eq, h.countP_eq]

theorem entryCount_append {entries rest : List ManifestEntry} {e : ManifestEntry} {n : ℕ}
    (hbefore : ∀ e' ∈ entries, e'.name ≠ e.name ∨ e'.rows = none) (hrows : e.rows = some n) :
    entryCount (entries ++ e :: rest) e.name = n := by
  have hnone : entries.find? (fun e' => decide (e'.name = e.name) && e'.rows.isSome) = none := by
    rw [List.find?_eq_none]
    intro e' he'
    rcases hbefore e' he' with hname | hnorows
    · simp [hname]
    · simp [hnorows]
  unfold entryCount
  rw [List.find?_append, hnone, Option.none_or, List.find?_cons_of_pos (by simp [hrows]),
    Option.bind_some, hrows]
  rfl

section
variable {x : Externals} {db : Snapshot}

theorem length_under_lineItemRows (ids : List Uuid) :
    (lineItemRows db ids).length = (under LineItem.invoiceID db.lineItems ids).length :=
  (batchRows_perm ids).length_eq

theorem length_historyRows {ids : List Uuid} (hids : ids.Nodup) :
    (historyRows db ids).length = (under HistoryRow.invoiceID db.history ids).length := by
  rw [← (historyRows_perm db hids).length_eq, List.length_map]

theorem bodyFileCount_stageFiles {ids : List Uuid} (hids : ids.Nodup)
    (invoices exchanges : List Record) :
    bodyFileCount ((stageFiles x db "" ids invoices exchanges).map (File.describe x)) =
      bodyCount (under Exchange.invoiceID db.exchanges ids) := by
  have hall : ∀ f ∈ (exchangeRows db ids).flatMap (bodyFiles ""),
      ((fun e => hasPrefix e.name "bodies/") ∘ File.describe x) f = true := by
    intro f hf
    obtain ⟨e, -, hf⟩ := List.mem_flatMap.mp hf
    have hpre : ∀ s : String, hasPrefix ("" ++ ("bodies/" ++ e.id.text ++ s)) "bodies/" = true := by
      intro s
      unfold hasPrefix
      rw [ List.isPrefixOf_iff_prefix]
      simp only [String.toList_append, List.append_assoc]
      exact List.prefix_append _ _
    rcases mem_bodyFiles.mp hf with ⟨b, -, rfl⟩ | ⟨b, -, rfl⟩
    · exact hpre ".request"
    · exact hpre ".response"
  have hno : ∀ name ∈ csvNames, hasPrefix ("" ++ name) "bodies/" = false := by decide
  have hnone : ∀ files : List File, (∀ f ∈ files, ∃ name ∈ csvNames, f.name = "" ++ name) →
      files.countP ((fun e => hasPrefix e.name "bodies/") ∘ File.describe x) = 0 := by
    intro files hfiles
    rw [List.countP_eq_zero]
    intro f hf hstarts
    obtain ⟨name, hname, heq⟩ := hfiles f hf
    have htrue : hasPrefix ("" ++ name) "bodies/" = true := heq ▸ hstarts
    rw [hno name hname] at htrue
    cases htrue
  unfold bodyFileCount stageFiles
  rw [List.countP_map, List.countP_append, List.countP_append, hnone _ ?_, hnone [_] ?_,
    List.countP_eq_length.mpr hall, length_bodies, bodyCount_perm (exchangeRows_rows db hids).perm]
  · omega
  · intro f hf
    obtain rfl := List.mem_singleton.mp hf
    exact ⟨"exchange.csv", by decide, rfl⟩
  · intro f hf
    simp only [List.mem_cons, List.not_mem_nil, or_false] at hf
    rcases hf with rfl | rfl | rfl | rfl
    · exact ⟨"invoices.csv", by decide, rfl⟩
    · exact ⟨"line_items.csv", by decide, rfl⟩
    · exact ⟨"status_history.csv", by decide, rfl⟩
    · exact ⟨"submissions.csv", by decide, rfl⟩

theorem entryCount_exchange (ids : List Uuid) (invoices exchanges : List Record) :
    entryCount ((stageFiles x db "" ids invoices exchanges).map (File.describe x)) "exchange.csv" =
      exchanges.length := by
  unfold stageFiles
  rw [List.map_append, List.map_append]
  refine entryCount_append
    (e := (csvFile ("" ++ "exchange.csv") exchangeCSVHeader exchanges).describe x)
    (fun e' he' => ?_) rfl
  rcases List.mem_append.mp he' with he' | he'
  · left
    have hne : ∀ name ∈ ["invoices.csv", "line_items.csv", "status_history.csv", "submissions.csv"],
        "" ++ name ≠ "exchange.csv" := by decide
    obtain ⟨f, hf, rfl⟩ := List.mem_map.mp he'
    simp only [List.mem_cons, List.not_mem_nil, or_false] at hf
    rcases hf with rfl | rfl | rfl | rfl
    · exact hne _ (by decide)
    · exact hne _ (by decide)
    · exact hne _ (by decide)
    · exact hne _ (by decide)
  · right
    obtain ⟨f, hf, rfl⟩ := List.mem_map.mp he'
    obtain ⟨e, -, hf⟩ := List.mem_flatMap.mp hf
    exact rows_of_mem_bodyFiles hf

theorem counts_stageFiles {ids : List Uuid} (hids : ids.Nodup) {invoices exchanges : List Record}
    (hinvoices : invoices.length = ids.length)
    (hexchanges : exchanges.length = (exchangeRows db ids).length) (o : AssembleOpts)
    (entity : Entity) (r : Request) :
    (manifestDoc x db o entity r
        ((stageFiles x db "" ids invoices exchanges).map (File.describe x))).counts =
      bundleCounts db ids := by
  have hsubmissions := (submissionRows_rows db hids).perm.length_eq
  unfold manifestDoc bundleCounts
  rw [ManifestCounts.mk.injEq]
  refine ⟨hinvoices, ?_, ?_, ?_, ?_, bodyFileCount_stageFiles hids invoices exchanges⟩
  · exact (List.length_map _).trans (length_under_lineItemRows ids)
  · exact (List.length_map _).trans (length_historyRows hids)
  · exact (List.length_map _).trans hsubmissions
  · rw [entryCount_exchange, hexchanges, (exchangeRows_rows db hids).perm.length_eq]

/-! ### The preview's counts -/

theorem length_under_batches {ρ : Type} (key : ρ → Uuid) (table : List ρ) {ids : List Uuid}
    (hids : ids.Nodup) :
    ((chunk batchSize ids).flatMap (under key table)).Perm (under key table ids) := by
  have hflat : (chunk batchSize ids).flatten = ids := flatten_chunk batchSize_pos ids
  have hnodup : (chunk batchSize ids).flatten.Nodup := by rw [hflat]; exact hids
  have hperm : ((chunk batchSize ids).flatMap (under key table)).Perm
      (under key table (chunk batchSize ids).flatten) := flatMap_under_perm table _ hnodup
  rwa [hflat] at hperm

theorem foldl_countBatch (c : ManifestCounts) (batches : List (List Uuid)) :
    batches.foldl (countBatch db) c =
      { invoices := c.invoices
        lineItems := c.lineItems + (batches.flatMap (under LineItem.invoiceID db.lineItems)).length
        statusTransitions :=
          c.statusTransitions + (batches.flatMap (under HistoryRow.invoiceID db.history)).length
        submissions :=
          c.submissions + (batches.flatMap (under SubmissionJob.invoiceID db.submissions)).length
        exchangeAttempts :=
          c.exchangeAttempts + (batches.flatMap (under Exchange.invoiceID db.exchanges)).length
        bodyFiles :=
          c.bodyFiles + bodyCount (batches.flatMap (under Exchange.invoiceID db.exchanges)) } := by
  induction batches generalizing c with
  | nil => rfl
  | cons b batches ih =>
    have hbodies : ∀ rows rows' : List Exchange,
        bodyCount (rows ++ rows') = bodyCount rows + bodyCount rows' := by
      intro rows rows'
      unfold bodyCount
      rw [List.countP_append, List.countP_append]
      omega
    rw [List.foldl_cons, ih]
    simp only [countBatch, List.flatMap_cons, List.length_append, hbodies, Nat.add_assoc]

theorem countChildren_eq {ids ids' : List Uuid} (hids : ids.Nodup) (hperm : ids'.Perm ids) :
    { countChildren db ids' with invoices := ids'.length } = bundleCounts db ids := by
  have hids' : ids'.Nodup := hperm.nodup_iff.mpr hids
  have hsame : ∀ {ρ : Type} (key : ρ → Uuid) (table : List ρ),
      ((chunk batchSize ids').flatMap (under key table)).Perm (under key table ids) := by
    intro ρ key table
    have h := length_under_batches key table hids'
    rwa [under_congr key table fun id => hperm.mem_iff] at h
  unfold countChildren bundleCounts
  rw [foldl_countBatch, ManifestCounts.mk.injEq]
  simp only [Nat.zero_add]
  exact ⟨hperm.length_eq, (hsame _ _).length_eq, (hsame _ _).length_eq, (hsame _ _).length_eq,
    (hsame _ _).length_eq, bodyCount_perm (hsame _ _)⟩

/-! ### The download -/

def Readable (x : Externals) (db : Snapshot) (scope : List Invoice) : Prop :=
  (∀ i ∈ scope, (x.compactJSON i.rejectionReasons).isSome = true) ∧
    ∀ e ∈ db.exchanges, e.invoiceID ∈ scope.map Invoice.id →
      (x.rescrubHeaders e.requestHeaders).isSome = true ∧
        (x.rescrubHeaders e.responseHeaders).isSome = true

theorem forall₂_exists {α β : Type} {R : α → β → Prop} {l : List α} (h : ∀ a ∈ l, ∃ b, R a b) :
    ∃ l', List.Forall₂ R l l' := by
  induction l with
  | nil => exact ⟨[], List.Forall₂.nil⟩
  | cons a l ih =>
    obtain ⟨b, hb⟩ := h a List.mem_cons_self
    obtain ⟨l', hl'⟩ := ih fun a' ha' => h a' (List.mem_cons_of_mem _ ha')
    exact ⟨b :: l', List.Forall₂.cons hb hl'⟩

theorem forall₂_left {α β : Type} {R : α → β → Prop} {P : α → Prop} {l : List α} {l' : List β}
    (h : List.Forall₂ R l l') (hR : ∀ a b, R a b → P a) : ∀ a ∈ l, P a := by
  induction h with
  | nil => nofun
  | cons hab _ ih =>
    intro c hc
    rcases List.mem_cons.mp hc with rfl | hc
    · exact hR _ _ hab
    · exact ih c hc

theorem invoiceRecord_isSome (i : Invoice) :
    (∃ record, invoiceRecord x db i = .ok record) ↔ (x.compactJSON i.rejectionReasons).isSome = true := by
  unfold invoiceRecord
  cases x.compactJSON i.rejectionReasons with
  | none => exact ⟨fun ⟨_, h⟩ => (nomatch h), nofun⟩
  | some compact => exact ⟨fun _ => rfl, fun _ => ⟨_, rfl⟩⟩

theorem scrubbedRecord_isSome (numbers : Uuid → String) (e : Exchange) :
    (∃ record, scrubbedRecord x numbers e = some record) ↔
      (x.rescrubHeaders e.requestHeaders).isSome = true ∧
        (x.rescrubHeaders e.responseHeaders).isSome = true := by
  unfold scrubbedRecord
  cases x.rescrubHeaders e.requestHeaders with
  | none => exact ⟨fun ⟨_, h⟩ => (nomatch h), fun h => nomatch h.1⟩
  | some req =>
    cases x.rescrubHeaders e.responseHeaders with
    | none => exact ⟨fun ⟨_, h⟩ => (nomatch h), fun h => nomatch h.2⟩
    | some resp => exact ⟨fun _ => ⟨rfl, rfl⟩, fun _ => ⟨_, rfl⟩⟩

theorem stages_readable {dir : String} {r : Request} {canonical : Uuid} (bw : BundleWriter)
    (hparse : x.uuidParse r.entityID = some canonical) :
    (∃ bw', writeEntityStages x db dir r bw = .ok bw') ↔
      Readable x db (db.invoices.filter (inScope canonical r)) := by
  have hids := scopeIDs_nodup db canonical r
  have hscope : ∀ id, id ∈ (db.invoices.filter (inScope canonical r)).map Invoice.id ↔
      id ∈ scopeIDs db canonical r :=
    fun id => ((List.mergeSort_perm _ _).map Invoice.id).mem_iff.symm
  have hrows : ∀ e, e ∈ exchangeRows db (scopeIDs db canonical r) ↔
      e ∈ db.exchanges ∧ e.invoiceID ∈ scopeIDs db canonical r := fun e =>
    ((exchangeRows_rows db hids).perm.mem_iff).trans mem_under
  have hinvoices : ∀ i, i ∈ scopeRows db canonical r ↔
      i ∈ db.invoices.filter (inScope canonical r) := fun i => (List.mergeSort_perm _ _).mem_iff
  constructor
  · rintro ⟨bw', h⟩
    obtain ⟨c, invoices, exchanges, hc, hall, hscrub, -⟩ := writeEntityStages_ok.mp h
    obtain rfl := Option.some.inj (hparse.symm.trans hc)
    refine ⟨fun i hi => ?_, fun e he hid => ?_⟩
    · exact forall₂_left hall (fun i record h => (invoiceRecord_isSome i).mp ⟨record, h⟩) i
        ((hinvoices i).mpr hi)
    · exact forall₂_left hscrub (fun e record h => (scrubbedRecord_isSome _ e).mp ⟨record, h⟩) e
        ((hrows e).mpr ⟨he, (hscope _).mp hid⟩)
  · rintro ⟨hcompact, hheaders⟩
    obtain ⟨invoices, hall⟩ := forall₂_exists (l := scopeRows db canonical r)
      (R := fun i record => invoiceRecord x db i = .ok record) fun i hi =>
        (invoiceRecord_isSome i).mpr (hcompact i ((hinvoices i).mp hi))
    obtain ⟨exchanges, hscrub⟩ := forall₂_exists (l := exchangeRows db (scopeIDs db canonical r))
      (R := fun e record =>
        scrubbedRecord x (invoiceNumbers db (scopeIDs db canonical r)) e = some record) fun e he =>
        (scrubbedRecord_isSome _ e).mpr
          (hheaders e ((hrows e).mp he).1 ((hscope _).mpr ((hrows e).mp he).2))
    exact ⟨_, writeEntityStages_ok.mpr ⟨canonical, invoices, exchanges, hparse, hall, hscrub, rfl⟩⟩

theorem selectEntity_ok {entityID : String} {entity : Entity}
    (h : selectEntity x db entityID = .ok entity) :
    entity ∈ db.entities ∧ x.uuidParse entityID = some entity.id := by
  unfold selectEntity normalizeEntityID at h
  cases hparse : x.uuidParse entityID with
  | none => rw [hparse] at h; cases h
  | some canonical =>
    simp only [hparse, pure, Except.pure, bind, Except.bind] at h
    cases hfind : db.entities.find? fun e => e.id = canonical with
    | none => rw [hfind] at h; cases h
    | some e =>
      rw [hfind] at h
      obtain rfl := Except.ok.inj h
      have hid : e.id = canonical :=
        of_decide_eq_true (List.find?_some (p := fun e : Entity => decide (e.id = canonical)) hfind)
      exact ⟨List.mem_of_find?_eq_some hfind, by rw [hid]⟩

theorem countInvoices_eq {r : Request} {canonical : Uuid}
    (hparse : x.uuidParse r.entityID = some canonical) :
    countInvoices x db r = .ok (db.invoices.filter (inScope canonical r)).length := by
  unfold countInvoices normalizeEntityID
  rw [hparse, ← List.countP_eq_length_filter]
  rfl

theorem selectInvoiceIDs_eq {r : Request} {canonical : Uuid}
    (hparse : x.uuidParse r.entityID = some canonical) :
    selectInvoiceIDs x db r = .ok ((db.invoices.filter (inScope canonical r)).map Invoice.id) := by
  unfold selectInvoiceIDs normalizeEntityID
  rw [hparse]
  rfl

theorem assemble_eq {o : AssembleOpts} {r : Request} {entity : Entity} (hmax : 0 < o.maxInvoices)
    (hentity : selectEntity x db r.entityID = .ok entity) :
    assemble x db o r =
      if o.maxInvoices < (db.invoices.filter (inScope entity.id r)).length then
        .error { err := .tooManyInvoices (db.invoices.filter (inScope entity.id r)).length o.maxInvoices }
      else
        match writeEntityStages x db "" r {} with
        | .error (e, bw) => .error { err := e, sent :=
            { filename := some (bundleFilename x entity.name r), zip := bw.zip } }
        | .ok bw => .ok {
            filename := some (bundleFilename x entity.name r)
            zip := bw.zip ++ [{ name := "manifest.json"
                                content := bytesOf (x.marshal (manifestDoc x db o entity r bw.entries)) }]
            closed := true } := by
  have hcount : countInvoices x db r = _ := countInvoices_eq (selectEntity_ok hentity).2
  unfold assemble
  rw [if_neg (not_le.mpr hmax), hentity]
  dsimp only
  rw [hcount]
  dsimp only
  split
  · rfl
  · cases writeEntityStages x db "" r {} with
    | error failed => rfl
    | ok bw => rfl

theorem manifest_not_mem {ids : List Uuid} {invoices exchanges : List Record} :
    "manifest.json" ∉ (stageFiles x db "" ids invoices exchanges).map File.name := by
  intro hin
  obtain ⟨f, hf, hname⟩ := List.mem_map.mp hin
  rcases mem_stageFiles hf with ⟨name, hcsv, heq⟩ | ⟨e, -, hf⟩
  · have hne : ∀ n ∈ csvNames, "" ++ n ≠ "manifest.json" := by decide
    exact hne name hcsv (heq.symm.trans hname)
  · have hfirst : ∀ s : String, ("" ++ ("bodies/" ++ e.id.text ++ s)) ≠ "manifest.json" := by
      intro s heq
      have hlist := congrArg (fun t : String => t.toList.head?) heq
      simp only [String.toList_append, List.append_assoc] at hlist
      have hheads : some 'b' = some 'm' := hlist
      exact absurd hheads (by decide)
    rcases mem_bodyFiles.mp hf with ⟨b, -, rfl⟩ | ⟨b, -, rfl⟩
    · exact hfirst ".request" hname
    · exact hfirst ".response" hname

theorem complete_of_stages {o : AssembleOpts} {r : Request} {entity : Entity}
    (hentity : selectEntity x db r.entityID = .ok entity) {bw : BundleWriter}
    (hstages : writeEntityStages x db "" r {} = .ok bw) :
    ∃ files, bw = ({} : BundleWriter).createAll x files ∧
      Complete x db o r entity {
        filename := some (bundleFilename x entity.name r)
        zip := bw.zip ++ [{ name := "manifest.json"
                            content := bytesOf (x.marshal (manifestDoc x db o entity r bw.entries)) }]
        closed := true } files := by
  obtain ⟨hmem, hparse⟩ := selectEntity_ok hentity
  obtain ⟨c, invoices, exchanges, hc, hall, hscrub, rfl⟩ := writeEntityStages_ok.mp hstages
  obtain rfl := Option.some.inj (hparse.symm.trans hc)
  have hids := scopeIDs_nodup db entity.id r
  have hnames : ((stageFiles x db "" (scopeIDs db entity.id r) invoices exchanges).map
      File.name).Nodup := names_stageFiles "" hids invoices exchanges
  have hperm : (scopeIDs db entity.id r).Perm
      ((db.invoices.filter (inScope entity.id r)).map Invoice.id) := (List.mergeSort_perm _ _).map _
  have hcounts := counts_stageFiles (x := x) hids
    (by rw [← hall.length_eq]; exact (List.length_map _).symm) hscrub.length_eq.symm o entity r
  have hsame : bundleCounts db (scopeIDs db entity.id r) =
      bundleCounts db ((db.invoices.filter (inScope entity.id r)).map Invoice.id) := by
    rw [← countChildren_eq (hperm.nodup_iff.mp hids) hperm]
    exact (countChildren_eq hids (List.Perm.refl _)).symm
  refine ⟨_, rfl, rfl, rfl, ⟨hmem, hparse⟩, rfl, ?_, ?_, hcounts.trans hsame⟩
  · have hzip : ((stageFiles x db "" (scopeIDs db entity.id r) invoices exchanges).map
        File.zipEntry).map ZipEntry.name =
        (stageFiles x db "" (scopeIDs db entity.id r) invoices exchanges).map File.name :=
      List.map_map
    show ((([] ++ _) ++ [_] : List ZipEntry).map ZipEntry.name).Nodup
    rw [List.nil_append, List.map_append, hzip]
    refine List.nodup_append.mpr ⟨hnames, List.nodup_singleton _, fun name hname name' hname' heq => ?_⟩
    obtain rfl := List.mem_singleton.mp hname'
    exact manifest_not_mem (heq ▸ hname)
  · refine holds_stageFiles hall hscrub (fun f hf => ?_) fun z hz hstarts => ?_
    · exact List.mem_append_left _ (List.mem_append_right _ (List.mem_map_of_mem hf))
    · rcases List.mem_append.mp hz with hz | hz
      · obtain ⟨f, hf, rfl⟩ := List.mem_map.mp hz
        exact ⟨f, hf, rfl⟩
      · obtain rfl := List.mem_singleton.mp hz
        have hno : hasPrefix "manifest.json" ("" ++ "bodies/") = false := by decide
        rw [hno] at hstarts
        cases hstarts

end

/-- A download that does not fail is complete: it opens, its last entry lists the others with
their sizes and digests and counts them truly, and its files are the evidence of the scope. -/
theorem bundle_complete (x : Externals) (db : Snapshot) (o : AssembleOpts) (r : Request) {sent : Sent}
    (h : assemble x db o r = .ok sent) :
    ∃ entity files, Complete x db o r entity sent files := by
  have hmax : 0 < o.maxInvoices := by
    by_contra hle
    unfold assemble at h
    rw [if_pos (not_lt.mp hle)] at h
    cases h
  cases hentity : selectEntity x db r.entityID with
  | error e =>
    unfold assemble at h
    rw [if_neg (not_le.mpr hmax), hentity] at h
    cases h
  | ok entity =>
    rw [assemble_eq hmax hentity] at h
    split at h
    · cases h
    · cases hstages : writeEntityStages x db "" r {} with
      | error failed => rw [hstages] at h; cases h
      | ok bw =>
        rw [hstages] at h
        obtain rfl := Except.ok.inj h
        obtain ⟨files, -, hcomplete⟩ := complete_of_stages (o := o) hentity hstages
        exact ⟨entity, files, hcomplete⟩

def sampleExternals : Externals where
  uuidParse s := if s = Uuid.text 7 then some 7 else none
  compactJSON := some
  rescrubHeaders := some
  rfc3339 := toString
  rfc3339Nano := toString
  day := toString
  sha256 b := toString b.length
  marshal d := d.format

def sampleInvoice (id entityID : Uuid) : Invoice where
  id := id
  entityID := entityID
  number := "INV-1"
  status := "accepted"
  issueDate := none
  currency := some "NGN"
  subtotal := none
  vat := none
  total := some "107.50"
  supplierTIN := none
  supplierName := none
  buyerTIN := none
  buyerName := some "Buyer, Ltd"
  irn := none
  csid := none
  qrPayload := none
  rejectionReasons := "[]"
  createdAt := 5
  nrs := Vector.replicate 22 none
  documentType := "invoice"
  originalInvoiceID := none

def sampleExchange (id invoiceID : Uuid) : Exchange where
  id := id
  submissionJobID := 3
  invoiceID := invoiceID
  operation := "submit"
  outcome := "sent"
  attempt := 1
  httpStatus := some 200
  latencyMs := none
  truncated := false
  encodingCoerced := false
  requestHeaders := "\x7b\x7d"
  responseHeaders := "\x7b\x7d"
  requestBody := some "ping"
  responseBody := some ""
  adapter := "mock"
  adapterVersion := "1"
  occurredAt := 6

def sentOnce : Snapshot where
  tenantID := 1
  entities := [{ id := 7, name := "Acme", tin := none }]
  invoices := [sampleInvoice 11 7]
  lineItems := [{ invoiceID := 11, lineNo := 1, cells := Vector.replicate 14 none }]
  history := [{ id := 21, invoiceID := 11, fromStatus := none, toStatus := "draft"
                actor := "system", changedAt := 5 }]
  submissions := []
  exchanges := [sampleExchange 31 11]
  memberships := []
  entities_unique := List.nodup_singleton _
  invoices_unique := List.nodup_singleton _
  lineItems_unique := List.nodup_singleton _
  history_unique := List.nodup_singleton _
  submissions_unique := List.nodup_nil
  exchanges_unique := List.nodup_singleton _

theorem bundle_complete_sentOnce : ∃ sent entity files,
    assemble sampleExternals sentOnce { tenantID := 1, subject := "system", maxInvoices := 5, now := 9 }
        { entityID := Uuid.text 7, «from» := 0, «to» := 9 } = .ok sent ∧
      Complete sampleExternals sentOnce
        { tenantID := 1, subject := "system", maxInvoices := 5, now := 9 }
        { entityID := Uuid.text 7, «from» := 0, «to» := 9 } entity sent files := by
  have hread : Readable sampleExternals sentOnce (sentOnce.invoices.filter
      (inScope 7 { entityID := Uuid.text 7, «from» := 0, «to» := 9 })) :=
    ⟨fun _ _ => rfl, fun _ _ _ => ⟨rfl, rfl⟩⟩
  have hparse : sampleExternals.uuidParse (Uuid.text 7) = some 7 := rfl
  obtain ⟨bw, hbw⟩ : ∃ bw, writeEntityStages sampleExternals sentOnce ""
      { entityID := Uuid.text 7, «from» := 0, «to» := 9 } {} = .ok bw :=
    (stages_readable {} hparse).mpr hread
  have hentity : selectEntity sampleExternals sentOnce (Uuid.text 7) =
      .ok { id := 7, name := "Acme", tin := none } := rfl
  have hok : assemble sampleExternals sentOnce
      { tenantID := 1, subject := "system", maxInvoices := 5, now := 9 }
      { entityID := Uuid.text 7, «from» := 0, «to» := 9 } = _ := assemble_eq (by decide) hentity
  rw [if_neg (by decide), hbw] at hok
  obtain ⟨entity, files, h⟩ := bundle_complete _ _ _ _ hok
  exact ⟨_, entity, files, hok, h⟩

def Foretells (x : Externals) (db : Snapshot) (o : AssembleOpts) (r : Request) :
    Except Err Preview → Except Failure Sent → Prop
  | .error e, .error f => f.err = e ∧ f.sent = {}
  | .error _, .ok _ => False
  | .ok p, .error f =>
    if p.overLimit then f = { err := .tooManyInvoices p.counts.invoices o.maxInvoices }
    else f.sent.filename = some p.filename ∧ f.sent.closed = false ∧
      ∃ canonical, x.uuidParse r.entityID = some canonical ∧
        ¬ Readable x db (db.invoices.filter (inScope canonical r))
  | .ok p, .ok sent =>
    p.overLimit = false ∧ sent.filename = some p.filename ∧ ∃ doc : ManifestDoc,
      { name := "manifest.json", content := bytesOf (x.marshal doc) } ∈ sent.zip ∧
      doc.counts = p.counts ∧ doc.entity = p.entity ∧ doc.period = p.period

/-- The preview's counts are the manifest's, its refusals the download's, and beyond its limit
nothing is sent; only a stored text that cannot be read makes a previewed download fail. -/
theorem preview_foretells (x : Externals) (db : Snapshot) (o : AssembleOpts) (r : Request) :
    Foretells x db o r (preview x db o.maxInvoices r) (assemble x db o r) := by
  by_cases hmax : o.maxInvoices ≤ 0
  · have hpreview : preview x db o.maxInvoices r = .error (.maxInvoices o.maxInvoices) := by
      unfold preview
      rw [if_pos hmax]
      rfl
    unfold assemble
    rw [hpreview, if_pos hmax]
    exact ⟨rfl, rfl⟩
  · cases hentity : selectEntity x db r.entityID with
    | error e =>
      have hpreview : preview x db o.maxInvoices r = .error e := by
        unfold preview
        rw [if_neg hmax, hentity]
        rfl
      unfold assemble
      rw [hpreview, if_neg hmax, hentity]
      exact ⟨rfl, rfl⟩
    | ok entity =>
      obtain ⟨-, hparse⟩ := selectEntity_ok hentity
      have hpreview : preview x db o.maxInvoices r = .ok {
          entity := bundleEntity entity
          period := bundlePeriod x r
          filename := bundleFilename x entity.name r
          counts := bundleCounts db ((db.invoices.filter (inScope entity.id r)).map Invoice.id)
          overLimit := decide (o.maxInvoices <
            ((db.invoices.filter (inScope entity.id r)).map Invoice.id).length) } := by
        have hnodup : ((db.invoices.filter (inScope entity.id r)).map Invoice.id).Nodup :=
          db.invoices_unique.sublist (List.filter_sublist.map _)
        unfold preview
        rw [if_neg hmax, hentity]
        simp only [bind, Except.bind, selectInvoiceIDs_eq hparse, pure, Except.pure]
        rw [countChildren_eq hnodup (List.Perm.refl _)]
      rw [hpreview, assemble_eq (not_le.mp hmax) hentity, List.length_map]
      by_cases hover : o.maxInvoices < (db.invoices.filter (inScope entity.id r)).length
      · rw [if_pos hover]
        unfold Foretells
        dsimp only
        rw [if_pos (decide_eq_true hover)]
        unfold bundleCounts
        rw [List.length_map]
      · rw [if_neg hover]
        cases hstages : writeEntityStages x db "" r {} with
        | error failed =>
          unfold Foretells
          dsimp only
          rw [if_neg (by simpa using hover)]
          refine ⟨rfl, rfl, entity.id, hparse, fun hread => ?_⟩
          obtain ⟨bw, hok⟩ := (stages_readable {} hparse).mpr hread
          rw [hok] at hstages
          cases hstages
        | ok bw =>
          obtain ⟨files, rfl, hcomplete⟩ := complete_of_stages (o := o) hentity hstages
          refine ⟨decide_eq_false hover, rfl, _, List.mem_append_right _ (List.mem_singleton.mpr rfl),
            ?_, rfl, rfl⟩
          exact hcomplete.counts

end InvoiceOs.Archive
