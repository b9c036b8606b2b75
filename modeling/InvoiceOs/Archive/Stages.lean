import InvoiceOs.Archive.Bundle

/-! What each stage of a company's export writes: the files it adds and the rows they hold,
whatever the batches it reads them in. -/

namespace InvoiceOs.Archive

open Lib

/-! ### The rows of a table -/

structure RowsOf {ρ : Type} (key : ρ → Uuid) (le : ρ → ρ → Bool) (table : List ρ) (ids : List Uuid)
    (rows : List ρ) : Prop where
  perm : rows.Perm (under key table ids)
  ordered : ∀ id ∈ ids, (rows.filter fun r => key r = id) =
    (table.filter fun r => key r = id).mergeSort le

theorem batchSize_pos : 0 < batchSize := by decide

theorem isOrder_byID {ρ : Type} (id : ρ → Uuid) : IsOrder (byID id) := isOrder_le.comparing id

theorem isOrder_byTime {ρ : Type} (time : ρ → ℕ) (id : ρ → Uuid) : IsOrder (byTime time id) :=
  (isOrder_le.comparing time).thenBy (isOrder_byID id)

theorem id_of_byTime_ties {ρ : Type} {time : ρ → ℕ} {id : ρ → Uuid} {r r' : ρ}
    (h : byTime time id r r' = true) (h' : byTime time id r' r = true) : id r = id r' := by
  have hties := (thenBy_ties h h').2
  unfold byID comparing at hties
  exact le_antisymm (of_decide_eq_true hties.1) (of_decide_eq_true hties.2)

theorem rowsOf_batches {ρ : Type} (key : ρ → Uuid) (time : ρ → ℕ) {id : ρ → Uuid} {table : List ρ}
    (hunique : (table.map id).Nodup) {ids : List Uuid} (hids : ids.Nodup) :
    RowsOf key (byTime time id) table ids
      ((chunk batchSize ids).flatMap (batchRows key (byTime time id) table)) := by
  have hflat : (chunk batchSize ids).flatten = ids := flatten_chunk batchSize_pos ids
  have hnodup : (chunk batchSize ids).flatten.Nodup := by rw [hflat]; exact hids
  have hties : ∀ r ∈ table, ∀ r' ∈ table, byTime time id r r' = true → byTime time id r' r = true →
      r = r' := fun r hr r' hr' h h' =>
    List.inj_on_of_nodup_map hunique hr hr' (id_of_byTime_ties h h')
  refine ⟨?_, fun k hk => filter_batches (isOrder_byTime time id) hties hnodup (by rw [hflat]; exact hk)⟩
  have hbatch : ∀ b, (batchRows key (byTime time id) table b).Perm (under key table b) :=
    batchRows_perm
  have hperm := (flatMap_perm hbatch (chunk batchSize ids)).trans (flatMap_under_perm table _ hnodup)
  rw [hflat] at hperm
  exact hperm

theorem under_congr {ρ : Type} (key : ρ → Uuid) (table : List ρ) {ids ids' : List Uuid}
    (h : ∀ id, id ∈ ids ↔ id ∈ ids') : under key table ids = under key table ids' := by
  unfold under
  refine List.filter_congr fun r _ => ?_
  rw [decide_eq_decide]
  exact h _

/-! ### Line items -/

theorem sortedIDs_eq (ids : List Uuid) : sortedIDs ids = ids.mergeSort fun a b => decide (a ≤ b) := by
  unfold sortedIDs comparing
  refine congrArg _ (funext fun a => funext fun b => ?_)
  rw [decide_eq_decide]
  exact text_le a b

theorem sortedIDs_perm (ids : List Uuid) : (sortedIDs ids).Perm ids := List.mergeSort_perm _ _

theorem sortedIDs_increasing {ids : List Uuid} (hids : ids.Nodup) :
    (sortedIDs ids).Pairwise (· < ·) := by
  have hsorted : (sortedIDs ids).Pairwise fun a b => decide (a ≤ b) = true := by
    rw [sortedIDs_eq]
    exact List.pairwise_mergeSort isOrder_le.trans isOrder_le.total _
  have hnodup : (sortedIDs ids).Nodup := (sortedIDs_perm ids).nodup_iff.mpr hids
  exact (hsorted.and hnodup).imp fun h => lt_of_le_of_ne (of_decide_eq_true h.1) h.2

def lineItemRows (db : Snapshot) (ids : List Uuid) : List LineItem :=
  batchRows LineItem.invoiceID byLine db.lineItems ids

theorem selectLineItems_eq (db : Snapshot) {ids : List Uuid} (hids : ids.Nodup) :
    selectLineItems db ids =
      lineItemsCSVHeader :: (lineItemRows db ids).map (lineItemRecord (invoiceNumbers db ids)) := by
  have hflat : (chunk batchSize (sortedIDs ids)).flatten = sortedIDs ids :=
    flatten_chunk batchSize_pos _
  have hties : ∀ l ∈ db.lineItems, ∀ l' ∈ db.lineItems,
      keyFirst LineItem.invoiceID byLine l l' = true →
        keyFirst LineItem.invoiceID byLine l' l = true → l = l' := by
    intro l hl l' hl' h h'
    have hkey := le_antisymm (le_of_keyFirst h) (le_of_keyFirst h')
    have hline : l.lineNo = l'.lineNo :=
      le_antisymm (of_decide_eq_true (ties_of_keyFirst h hkey))
        (of_decide_eq_true (ties_of_keyFirst h' hkey.symm))
    exact List.inj_on_of_nodup_map db.lineItems_unique hl hl' (Prod.ext hkey hline)
  have hincreasing : (chunk batchSize (sortedIDs ids)).flatten.Pairwise (· < ·) := by
    rw [hflat]
    exact sortedIDs_increasing hids
  have hbatches := flatMap_batchRows (isOrder_le.comparing LineItem.lineNo) hties hincreasing
  have hsame : under LineItem.invoiceID db.lineItems (sortedIDs ids) =
      under LineItem.invoiceID db.lineItems ids :=
    under_congr _ _ fun id => (sortedIDs_perm ids).mem_iff
  unfold selectLineItems lineItemRows
  refine congrArg _ (congrArg _ ?_)
  refine hbatches.trans ?_
  rw [hflat]
  exact congrArg (fun l => l.mergeSort (keyFirst LineItem.invoiceID byLine)) hsame

/-! ### Status history -/

theorem history_numbered (db : Snapshot) {ids : List Uuid} (hids : ids.Nodup) {id : Uuid}
    (hid : id ∈ ids) :
    ((numbered HistoryRow.invoiceID none 0 ((chunk batchSize ids).flatMap
        (batchRows HistoryRow.invoiceID (byTime HistoryRow.changedAt HistoryRow.id)
          db.history))).filter fun e => e.2.invoiceID = id) =
      numberFrom 1 ((db.history.filter fun h => h.invoiceID = id).mergeSort
        (byTime HistoryRow.changedAt HistoryRow.id)) := by
  have hflat : (chunk batchSize ids).flatten = ids := flatten_chunk batchSize_pos ids
  have hsorted : ∀ b, (batchRows HistoryRow.invoiceID (byTime HistoryRow.changedAt HistoryRow.id)
      db.history b).Pairwise fun h h' => h.invoiceID ≤ h'.invoiceID := fun b =>
    (batchRows_sorted (isOrder_byTime _ _) b).imp le_of_keyFirst
  have hnumbered := filter_numbered_batches none 0 (fun b h => key_mem_of_batchRows) hsorted
    (by rw [hflat]; exact hids) nofun id
  exact hnumbered.trans (congrArg _
    ((rowsOf_batches HistoryRow.invoiceID HistoryRow.changedAt db.history_unique hids).ordered id hid))

/-! ### Files -/

structure File where
  name : String
  content : Bytes
  rows : Option ℕ

def File.zipEntry (f : File) : ZipEntry := { name := f.name, content := f.content }

def File.describe (x : Externals) (f : File) : ManifestEntry :=
  { name := f.name, bytes := f.content.length, sha256 := x.sha256 f.content, rows := f.rows }

def csvFile (name : String) (header : Record) (records : List Record) : File :=
  { name := name, content := bytesOf (csvText (header :: records)), rows := some records.length }

def bodyFileOf (name : String) : Option String → List File
  | none => []
  | some body => [{ name := name, content := bytesOf body, rows := none }]

def bodyFiles (dir : String) (e : Exchange) : List File :=
  bodyFileOf (dir ++ requestBodyFile e) e.requestBody ++
    bodyFileOf (dir ++ responseBodyFile e) e.responseBody

namespace BundleWriter

variable (x : Externals) (bw : BundleWriter)

def createAll (files : List File) : BundleWriter where
  zip := bw.zip ++ files.map File.zipEntry
  entries := bw.entries ++ files.map (File.describe x)

@[simp] theorem createAll_nil : bw.createAll x [] = bw := by
  unfold createAll
  simp

@[simp] theorem createAll_createAll (files files' : List File) :
    (bw.createAll x files).createAll x files' = bw.createAll x (files ++ files') := by
  unfold createAll
  simp

theorem finalizeCSV_eq (name : String) (header : Record) (records : List Record) :
    bw.finalizeCSV x name (header :: records) = bw.createAll x [csvFile name header records] := rfl

theorem writeBodyOf_eq (name : String) (body : Option String) :
    bw.writeBodyOf x name body = bw.createAll x (bodyFileOf name body) := by
  cases body with
  | none => exact (createAll_nil x bw).symm
  | some body => rfl

end BundleWriter

/-! ### Exchanges -/

section
variable (x : Externals) (db : Snapshot)

def scrubbedRecord (numbers : Uuid → String) (e : Exchange) : Option Record := do
  let reqHeaders ← x.rescrubHeaders e.requestHeaders
  let respHeaders ← x.rescrubHeaders e.responseHeaders
  pure (exchangeRecord x numbers e reqHeaders respHeaders)

variable {x db}

theorem writeExchange_ok {numbers : Uuid → String} {dir : String} {bw bw' : BundleWriter}
    {e : Exchange} {record : Record} :
    writeExchange x numbers dir bw e = .ok (bw', record) ↔
      scrubbedRecord x numbers e = some record ∧ bw' = bw.createAll x (bodyFiles dir e) := by
  unfold writeExchange scrubbedRecord
  cases hreq : x.rescrubHeaders e.requestHeaders with
  | none => exact ⟨nofun, fun h => nomatch h.1⟩
  | some reqHeaders =>
    cases hresp : x.rescrubHeaders e.responseHeaders with
    | none => exact ⟨nofun, fun h => nomatch h.1⟩
    | some respHeaders =>
      dsimp only
      rw [BundleWriter.writeBodyOf_eq, BundleWriter.writeBodyOf_eq, BundleWriter.createAll_createAll]
      constructor
      · intro h
        obtain ⟨rfl, rfl⟩ := Prod.mk.inj (Except.ok.inj h)
        exact ⟨rfl, rfl⟩
      · rintro ⟨h, rfl⟩
        obtain rfl := Option.some.inj h
        rfl

theorem writeExchanges_ok {numbers : Uuid → String} {dir : String} {bw bw' : BundleWriter}
    {rows : List Exchange} {records : List Record} :
    writeExchanges x numbers dir bw rows = .ok (bw', records) ↔
      List.Forall₂ (fun e record => scrubbedRecord x numbers e = some record) rows records ∧
        bw' = bw.createAll x (rows.flatMap (bodyFiles dir)) := by
  induction rows generalizing bw bw' records with
  | nil =>
    constructor
    · intro h
      obtain ⟨rfl, rfl⟩ := Prod.mk.inj (Except.ok.inj h)
      exact ⟨List.Forall₂.nil, (BundleWriter.createAll_nil x _).symm⟩
    · rintro ⟨h, rfl⟩
      cases h
      rw [List.flatMap_nil, BundleWriter.createAll_nil]
      rfl
  | cons e rows ih =>
    rw [writeExchanges]
    constructor
    · intro h
      cases hone : writeExchange x numbers dir bw e with
      | error failed =>
        rw [hone] at h
        cases h
      | ok step =>
        cases hrest : writeExchanges x numbers dir step.1 rows with
        | error failed =>
          simp only [hone, hrest, bind, Except.bind] at h
          cases h
        | ok out =>
          simp only [hone, hrest, bind, Except.bind, pure, Except.pure, Except.ok.injEq] at h
          obtain ⟨rfl, rfl⟩ := Prod.mk.inj h
          obtain ⟨hrecord, hbw⟩ := writeExchange_ok.mp hone
          obtain ⟨hrecords, hout⟩ := ih.mp hrest
          refine ⟨List.Forall₂.cons hrecord hrecords, ?_⟩
          rw [hout, hbw, BundleWriter.createAll_createAll, List.flatMap_cons]
    · rintro ⟨h, rfl⟩
      cases h with
      | cons hrecord hrecords =>
        have hone : writeExchange x numbers dir bw e = _ := writeExchange_ok.mpr ⟨hrecord, rfl⟩
        have hrest : writeExchanges x numbers dir (bw.createAll x (bodyFiles dir e)) rows = _ :=
          ih.mpr ⟨hrecords, rfl⟩
        simp only [hone, hrest, bind, Except.bind, BundleWriter.createAll_createAll]
        rfl

/-! ### A company's files -/

def scopeRows (db : Snapshot) (entityID : Uuid) (r : Request) : List Invoice :=
  (db.invoices.filter (inScope entityID r)).mergeSort (byTime Invoice.createdAt Invoice.id)

def scopeIDs (db : Snapshot) (entityID : Uuid) (r : Request) : List Uuid :=
  (scopeRows db entityID r).map Invoice.id

theorem scopeIDs_nodup (db : Snapshot) (entityID : Uuid) (r : Request) :
    (scopeIDs db entityID r).Nodup := by
  have hperm : (scopeIDs db entityID r).Perm ((db.invoices.filter (inScope entityID r)).map Invoice.id) :=
    (List.mergeSort_perm _ _).map _
  exact hperm.nodup_iff.mpr (db.invoices_unique.sublist (List.filter_sublist.map _))

def historyRows (db : Snapshot) (ids : List Uuid) : List (ℕ × HistoryRow) :=
  numbered HistoryRow.invoiceID none 0 ((chunk batchSize ids).flatMap
    (batchRows HistoryRow.invoiceID (byTime HistoryRow.changedAt HistoryRow.id) db.history))

def submissionRows (db : Snapshot) (ids : List Uuid) : List SubmissionJob :=
  (chunk batchSize ids).flatMap
    (batchRows SubmissionJob.invoiceID (byTime SubmissionJob.createdAt SubmissionJob.id)
      db.submissions)

theorem exchangeRows_rows (db : Snapshot) {ids : List Uuid} (hids : ids.Nodup) :
    RowsOf Exchange.invoiceID (byTime Exchange.occurredAt Exchange.id) db.exchanges ids
      (exchangeRows db ids) := rowsOf_batches _ _ db.exchanges_unique hids

theorem submissionRows_rows (db : Snapshot) {ids : List Uuid} (hids : ids.Nodup) :
    RowsOf SubmissionJob.invoiceID (byTime SubmissionJob.createdAt SubmissionJob.id) db.submissions
      ids (submissionRows db ids) := rowsOf_batches _ _ db.submissions_unique hids

theorem historyRows_perm (db : Snapshot) {ids : List Uuid} (hids : ids.Nodup) :
    ((historyRows db ids).map Prod.snd).Perm (under HistoryRow.invoiceID db.history ids) := by
  have hsnd : (historyRows db ids).map Prod.snd = _ := map_snd_numbered none 0 _
  rw [hsnd]
  exact (rowsOf_batches _ _ db.history_unique hids).perm

variable (x db)

def stageFiles (dir : String) (ids : List Uuid) (invoices exchanges : List Record) : List File :=
  let numbers := invoiceNumbers db ids
  [csvFile (dir ++ "invoices.csv") invoicesCSVHeader invoices,
    csvFile (dir ++ "line_items.csv") lineItemsCSVHeader
      ((lineItemRows db ids).map (lineItemRecord numbers)),
    csvFile (dir ++ "status_history.csv") historyCSVHeader
      ((historyRows db ids).map fun e => historyRecord x db numbers e.1 e.2),
    csvFile (dir ++ "submissions.csv") submissionsCSVHeader
      ((submissionRows db ids).map (submissionRecord x numbers))] ++
    (exchangeRows db ids).flatMap (bodyFiles dir) ++
      [csvFile (dir ++ "exchange.csv") exchangeCSVHeader exchanges]

variable {x db}

theorem mapM_invoiceRecord {rows : List Invoice} {records : List Record} :
    rows.mapM (invoiceRecord x db) = .ok records ↔
      List.Forall₂ (fun i record => invoiceRecord x db i = .ok record) rows records := by
  induction rows generalizing records with
  | nil =>
    rw [List.mapM_nil, List.forall₂_nil_left_iff]
    exact ⟨fun h => (Except.ok.inj h).symm, fun h => h ▸ rfl⟩
  | cons i rows ih =>
    rw [List.mapM_cons]
    constructor
    · intro h
      cases hone : invoiceRecord x db i with
      | error e => rw [hone] at h; cases h
      | ok record =>
        cases hrest : rows.mapM (invoiceRecord x db) with
        | error e => simp only [hone, hrest, bind, Except.bind] at h; cases h
        | ok rest =>
          simp only [hone, hrest, bind, Except.bind, pure, Except.pure, Except.ok.injEq] at h
          subst h
          exact List.Forall₂.cons hone (ih.mp hrest)
    · rintro (_ | ⟨hone, hrest⟩)
      simp only [hone, ih.mpr hrest, bind, Except.bind]
      rfl

theorem selectInvoices_ok {r : Request} {ids : List Uuid} {records : List Record} :
    selectInvoices x db r = .ok (ids, records) ↔
      ∃ canonical rest, x.uuidParse r.entityID = some canonical ∧ ids = scopeIDs db canonical r ∧
        List.Forall₂ (fun i record => invoiceRecord x db i = .ok record) (scopeRows db canonical r)
          rest ∧ records = invoicesCSVHeader :: rest := by
  unfold selectInvoices normalizeEntityID
  cases hparse : x.uuidParse r.entityID with
  | none =>
    constructor
    · intro h; cases h
    · rintro ⟨canonical, rest, h, -⟩; cases h
  | some canonical =>
    dsimp only [pure, Except.pure, bind, Except.bind]
    unfold writeInvoiceRows
    cases hrows : (scopeRows db canonical r).mapM (invoiceRecord x db) with
    | error e =>
      have hrows' := hrows
      unfold scopeRows at hrows'
      simp only [hrows', bind, Except.bind]
      constructor
      · intro h; cases h
      · rintro ⟨c, rest, hc, -, hall, -⟩
        obtain rfl := Option.some.inj hc
        rw [mapM_invoiceRecord.mpr hall] at hrows
        cases hrows
    | ok out =>
      have hrows' := hrows
      unfold scopeRows at hrows'
      simp only [hrows', bind, Except.bind, pure, Except.pure, Except.ok.injEq, Prod.mk.injEq]
      constructor
      · rintro ⟨rfl, rfl⟩
        exact ⟨canonical, out, rfl, rfl, mapM_invoiceRecord.mp hrows, rfl⟩
      · rintro ⟨c, rest, hc, rfl, hall, rfl⟩
        obtain rfl := Option.some.inj hc
        rw [mapM_invoiceRecord.mpr hall] at hrows
        obtain rfl := Except.ok.inj hrows
        exact ⟨rfl, rfl⟩

theorem writeEntityStages_ok {dir : String} {r : Request} {bw bw' : BundleWriter} :
    writeEntityStages x db dir r bw = .ok bw' ↔
      ∃ canonical invoices exchanges, x.uuidParse r.entityID = some canonical ∧
        List.Forall₂ (fun i record => invoiceRecord x db i = .ok record) (scopeRows db canonical r)
          invoices ∧
        List.Forall₂ (fun e record =>
            scrubbedRecord x (invoiceNumbers db (scopeIDs db canonical r)) e = some record)
          (exchangeRows db (scopeIDs db canonical r)) exchanges ∧
        bw' = bw.createAll x
          (stageFiles x db dir (scopeIDs db canonical r) invoices exchanges) := by
  unfold writeEntityStages
  cases hinvoices : selectInvoices x db r with
  | error e =>
    constructor
    · intro h; cases h
    · rintro ⟨canonical, invoices, exchanges, hparse, hall, -⟩
      rw [selectInvoices_ok.mpr ⟨canonical, invoices, hparse, rfl, hall, rfl⟩] at hinvoices
      cases hinvoices
  | ok out =>
    obtain ⟨ids, records⟩ := out
    obtain ⟨canonical, rest, hparse, rfl, hall, rfl⟩ := selectInvoices_ok.mp hinvoices
    have hids := scopeIDs_nodup db canonical r
    dsimp only
    rw [selectLineItems_eq db hids]
    unfold selectHistory selectSubmissions selectExchange
    simp only [BundleWriter.finalizeCSV_eq, BundleWriter.createAll_createAll]
    constructor
    · intro h
      cases hex : writeExchanges x (invoiceNumbers db (scopeIDs db canonical r)) dir _
          (exchangeRows db (scopeIDs db canonical r)) with
      | error failed =>
        rw [hex] at h
        cases h
      | ok out =>
        obtain ⟨bw₁, exchanges⟩ := out
        rw [hex] at h
        obtain ⟨hrecords, rfl⟩ := writeExchanges_ok.mp hex
        obtain rfl := Except.ok.inj h
        refine ⟨canonical, rest, exchanges, hparse, hall, hrecords, ?_⟩
        rw [BundleWriter.finalizeCSV_eq, BundleWriter.createAll_createAll,
          BundleWriter.createAll_createAll]
        rfl
    · rintro ⟨c, invoices, exchanges, hc, hall', hrecords, rfl⟩
      obtain rfl := Option.some.inj (hparse.symm.trans hc)
      have hsame : invoices = rest := by
        have h := mapM_invoiceRecord.mpr hall'
        rw [mapM_invoiceRecord.mpr hall] at h
        exact (Except.ok.inj h).symm
      subst hsame
      rw [writeExchanges_ok.mpr ⟨hrecords, rfl⟩]
      simp only [bind, Except.bind, pure, Except.pure, BundleWriter.finalizeCSV_eq,
        BundleWriter.createAll_createAll]
      rfl

end
end InvoiceOs.Archive
