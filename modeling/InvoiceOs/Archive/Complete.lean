import InvoiceOs.Archive.Stages

/-! A bundle that closes is the whole evidence of its scope, and says so truly; the preview says
beforehand what the download will do. -/

namespace InvoiceOs.Archive

open Lib

/-! ### What an archive holds -/

def Reads (zip : List ZipEntry) (name : String) (records : List Record) : Prop :=
  ∃ text : String, { name := name, content := bytesOf text } ∈ zip ∧
    Csv.read text.toList = some (records.map (List.map String.toList))

def numberOf (db : Snapshot) (id : Uuid) : String :=
  ((db.invoices.find? fun i => i.id = id).map Invoice.number).getD ""

/-- The evidence of some invoices under a directory: every row of every table of theirs once and
in order, and every body verbatim under the name its row gives. -/
structure Holds (x : Externals) (db : Snapshot) (dir : String) (scope : List Invoice)
    (zip : List ZipEntry) : Prop where
  invoices : ∃ records,
    List.Forall₂ (fun i record => invoiceRecord x db i = .ok record)
      (scope.mergeSort (byTime Invoice.createdAt Invoice.id)) records ∧
    Reads zip (dir ++ "invoices.csv") (invoicesCSVHeader :: records)
  lineItems : Reads zip (dir ++ "line_items.csv")
    (lineItemsCSVHeader :: ((db.lineItems.filter fun l => l.invoiceID ∈ scope.map Invoice.id).mergeSort
      (keyFirst LineItem.invoiceID byLine)).map (lineItemRecord (numberOf db)))
  history : ∃ rows : List (ℕ × HistoryRow),
    (rows.map Prod.snd).Perm (db.history.filter fun h => h.invoiceID ∈ scope.map Invoice.id) ∧
    (∀ i ∈ scope, (rows.filter fun e => e.2.invoiceID = i.id) =
      numberFrom 1 ((db.history.filter fun h => h.invoiceID = i.id).mergeSort
        (byTime HistoryRow.changedAt HistoryRow.id))) ∧
    Reads zip (dir ++ "status_history.csv")
      (historyCSVHeader :: rows.map fun e => historyRecord x db (numberOf db) e.1 e.2)
  submissions : ∃ rows,
    RowsOf SubmissionJob.invoiceID (byTime SubmissionJob.createdAt SubmissionJob.id) db.submissions
      (scope.map Invoice.id) rows ∧
    Reads zip (dir ++ "submissions.csv")
      (submissionsCSVHeader :: rows.map (submissionRecord x (numberOf db)))
  exchanges : ∃ rows records,
    RowsOf Exchange.invoiceID (byTime Exchange.occurredAt Exchange.id) db.exchanges
      (scope.map Invoice.id) rows ∧
    List.Forall₂ (fun e record => scrubbedRecord x (numberOf db) e = some record) rows records ∧
    Reads zip (dir ++ "exchange.csv") (exchangeCSVHeader :: records)
  bodies : ∀ e ∈ db.exchanges, e.invoiceID ∈ scope.map Invoice.id → ∀ body,
    (e.requestBody = some body →
      { name := dir ++ requestBodyFile e, content := bytesOf body } ∈ zip) ∧
    (e.responseBody = some body →
      { name := dir ++ responseBodyFile e, content := bytesOf body } ∈ zip)
  only : ∀ z ∈ zip, hasPrefix z.name (dir ++ "bodies/") = true →
    ∃ e ∈ db.exchanges, e.invoiceID ∈ scope.map Invoice.id ∧ ∃ body,
      (e.requestBody = some body ∧ z = { name := dir ++ requestBodyFile e, content := bytesOf body }) ∨
      (e.responseBody = some body ∧ z = { name := dir ++ responseBodyFile e, content := bytesOf body })

def bundleCounts (db : Snapshot) (ids : List Uuid) : ManifestCounts where
  invoices := ids.length
  lineItems := (under LineItem.invoiceID db.lineItems ids).length
  statusTransitions := (under HistoryRow.invoiceID db.history ids).length
  submissions := (under SubmissionJob.invoiceID db.submissions ids).length
  exchangeAttempts := (under Exchange.invoiceID db.exchanges ids).length
  bodyFiles := bodyCount (under Exchange.invoiceID db.exchanges ids)

structure Complete (x : Externals) (db : Snapshot) (o : AssembleOpts) (r : Request) (entity : Entity)
    (sent : Sent) (files : List File) : Prop where
  closed : sent.closed = true
  filename : sent.filename = some (bundleFilename x entity.name r)
  found : entity ∈ db.entities ∧ x.uuidParse r.entityID = some entity.id
  zip : sent.zip = files.map File.zipEntry ++
    [{ name := "manifest.json"
       content := bytesOf (x.marshal (manifestDoc x db o entity r (files.map (File.describe x)))) }]
  names : (sent.zip.map ZipEntry.name).Nodup
  holds : Holds x db "" (db.invoices.filter (inScope entity.id r)) sent.zip
  counts : (manifestDoc x db o entity r (files.map (File.describe x))).counts =
    bundleCounts db ((db.invoices.filter (inScope entity.id r)).map Invoice.id)

/-! ### Reading back -/

theorem read_csvText {records : List Record} (h : ∀ r ∈ records, r ≠ []) :
    Csv.read (csvText records).toList = some (records.map (List.map String.toList)) := by
  unfold csvText
  rw [String.toList_ofList]
  refine Csv.read_writeAll isSpace fun r hr => ?_
  obtain ⟨r', hr', rfl⟩ := List.mem_map.mp hr
  exact fun hnil => h r' hr' (List.map_eq_nil_iff.mp hnil)

theorem reads_csvFile {zip : List ZipEntry} {name : String} {header : Record} {records : List Record}
    (hmem : (csvFile name header records).zipEntry ∈ zip) (hheader : header ≠ [])
    (h : ∀ r ∈ records, r ≠ []) : Reads zip name (header :: records) := by
  refine ⟨csvText (header :: records), hmem, read_csvText fun r hr => ?_⟩
  rcases List.mem_cons.mp hr with rfl | hr
  · exact hheader
  · exact h r hr

theorem invoiceRecord_ne_nil {x : Externals} {db : Snapshot} {i : Invoice} {record : Record}
    (h : invoiceRecord x db i = .ok record) : record ≠ [] := by
  unfold invoiceRecord at h
  split at h
  · cases h
  · obtain rfl := Except.ok.inj h
    exact List.cons_ne_nil _ _

theorem scrubbedRecord_ne_nil {x : Externals} {numbers : Uuid → String} {e : Exchange}
    {record : Record} (h : scrubbedRecord x numbers e = some record) : record ≠ [] := by
  unfold scrubbedRecord at h
  obtain ⟨req, -, h⟩ := Option.bind_eq_some_iff.mp h
  obtain ⟨resp, -, h⟩ := Option.bind_eq_some_iff.mp h
  obtain rfl := Option.some.inj h
  exact List.cons_ne_nil _ _

theorem forall₂_right {α β : Type} {R : α → β → Prop} {P : β → Prop} {l : List α} {l' : List β}
    (h : List.Forall₂ R l l') (hR : ∀ a b, R a b → P b) : ∀ b ∈ l', P b := by
  induction h with
  | nil => nofun
  | cons hab _ ih =>
    intro c hc
    rcases List.mem_cons.mp hc with rfl | hc
    · exact hR _ _ hab
    · exact ih c hc

/-! ### Invoice numbers -/

theorem invoiceNumbers_eq (db : Snapshot) {ids : List Uuid} {id : Uuid} (h : id ∈ ids) :
    invoiceNumbers db ids id = numberOf db id := by
  unfold invoiceNumbers numberOf
  have hsame : (fun i : Invoice => decide (i.id ∈ ids) && decide (i.id = id)) =
      fun i => decide (i.id = id) := by
    funext i
    by_cases hi : i.id = id
    · rw [hi, decide_eq_true h, Bool.true_and]
    · rw [decide_eq_false hi, Bool.and_false]
  rw [hsame]

section
variable {x : Externals} {db : Snapshot} {ids : List Uuid}

theorem lineItemRecord_numbers {l : LineItem} (h : l.invoiceID ∈ ids) :
    lineItemRecord (invoiceNumbers db ids) l = lineItemRecord (numberOf db) l := by
  unfold lineItemRecord
  rw [invoiceNumbers_eq db h]

theorem historyRecord_numbers {seq : ℕ} {h : HistoryRow} (hid : h.invoiceID ∈ ids) :
    historyRecord x db (invoiceNumbers db ids) seq h = historyRecord x db (numberOf db) seq h := by
  unfold historyRecord
  rw [invoiceNumbers_eq db hid]

theorem submissionRecord_numbers {s : SubmissionJob} (h : s.invoiceID ∈ ids) :
    submissionRecord x (invoiceNumbers db ids) s = submissionRecord x (numberOf db) s := by
  unfold submissionRecord
  rw [invoiceNumbers_eq db h]

theorem scrubbedRecord_numbers {e : Exchange} (h : e.invoiceID ∈ ids) :
    scrubbedRecord x (invoiceNumbers db ids) e = scrubbedRecord x (numberOf db) e := by
  unfold scrubbedRecord exchangeRecord
  rw [invoiceNumbers_eq db h]

end

/-! ### Names -/

theorem bodyFile_ne {e : Exchange} {suffix : String} {body : Option String} {b : String}
    (h : body = some b) : bodyFile e suffix body = "bodies/" ++ e.id.text ++ suffix := by
  subst h
  rfl

theorem length_text (u : Uuid) : u.text.toList.length = 36 := by
  rw [Uuid.text_toList]
  unfold Uuid.chars
  simp [length_hexGroup]

theorem bodyName_inj {dir s s' : String} {u v : Uuid}
    (h : dir ++ ("bodies/" ++ u.text ++ s) = dir ++ ("bodies/" ++ v.text ++ s')) :
    u = v ∧ s = s' := by
  have hlist := congrArg String.toList h
  simp only [String.toList_append, List.append_assoc] at hlist
  have htail := List.append_cancel_left (List.append_cancel_left hlist)
  obtain ⟨htext, hs⟩ := List.append_inj htail (by rw [length_text, length_text])
  exact ⟨text_injective (String.ext_iff.mpr htext), String.ext_iff.mpr hs⟩

theorem mem_bodyFiles {dir : String} {e : Exchange} {f : File} :
    f ∈ bodyFiles dir e ↔
      (∃ body, e.requestBody = some body ∧
        f = ⟨dir ++ ("bodies/" ++ e.id.text ++ ".request"), bytesOf body, none⟩) ∨
      ∃ body, e.responseBody = some body ∧
        f = ⟨dir ++ ("bodies/" ++ e.id.text ++ ".response"), bytesOf body, none⟩ := by
  unfold bodyFiles requestBodyFile responseBodyFile
  rw [List.mem_append]
  refine or_congr ?_ ?_
  · cases e.requestBody with
    | none => simp [bodyFileOf]
    | some body => simp [bodyFileOf, bodyFile]
  · cases e.responseBody with
    | none => simp [bodyFileOf]
    | some body => simp [bodyFileOf, bodyFile]

theorem bodyFiles_names_nodup (dir : String) (e : Exchange) :
    ((bodyFiles dir e).map File.name).Nodup := by
  unfold bodyFiles
  cases hreq : e.requestBody with
  | none =>
    cases e.responseBody with
    | none => exact List.nodup_nil
    | some body => exact List.nodup_singleton _
  | some req =>
    cases hresp : e.responseBody with
    | none => exact List.nodup_singleton _
    | some resp =>
      have hne : dir ++ requestBodyFile e ≠ dir ++ responseBodyFile e := by
        unfold requestBodyFile responseBodyFile
        rw [bodyFile_ne hreq, bodyFile_ne hresp]
        intro h
        exact absurd (bodyName_inj h).2 (by decide)
      simpa [bodyFileOf] using hne

theorem bodies_names_nodup (dir : String) {rows : List Exchange} (h : (rows.map Exchange.id).Nodup) :
    ((rows.flatMap (bodyFiles dir)).map File.name).Nodup := by
  induction rows with
  | nil => exact List.nodup_nil
  | cons e rows ih =>
    obtain ⟨hnot, hrest⟩ := List.nodup_cons.mp h
    rw [List.flatMap_cons, List.map_append]
    refine List.nodup_append.mpr ⟨bodyFiles_names_nodup dir e, ih hrest, ?_⟩
    intro name hname name' hname' heq
    obtain ⟨f, hf, rfl⟩ := List.mem_map.mp hname
    obtain ⟨f', hf', rfl⟩ := List.mem_map.mp hname'
    obtain ⟨e', he', hf'⟩ := List.mem_flatMap.mp hf'
    have hid : e.id = e'.id := by
      rcases mem_bodyFiles.mp hf with ⟨b, -, rfl⟩ | ⟨b, -, rfl⟩ <;>
        rcases mem_bodyFiles.mp hf' with ⟨b', -, rfl⟩ | ⟨b', -, rfl⟩ <;>
          exact (bodyName_inj heq).1
    exact hnot (List.mem_map.mpr ⟨e', he', hid.symm⟩)

def csvNames : List String :=
  ["invoices.csv", "line_items.csv", "status_history.csv", "submissions.csv", "exchange.csv"]

theorem csvName_ne_body {dir name s : String} {u : Uuid} (h : name ∈ csvNames) :
    dir ++ name ≠ dir ++ ("bodies/" ++ u.text ++ s) := by
  intro heq
  have hlist := congrArg String.toList heq
  simp only [String.toList_append, List.append_assoc] at hlist
  have htail := congrArg List.head? (List.append_cancel_left hlist)
  have hfirst : ∀ n ∈ csvNames, n.toList.head? ≠ some 'b' := by decide
  exact hfirst name h htail

/-! ### The files of the stages -/

section
variable {x : Externals} {db : Snapshot}

theorem mem_stageFiles {dir : String} {ids : List Uuid} {invoices exchanges : List Record} {f : File}
    (h : f ∈ stageFiles x db dir ids invoices exchanges) :
    (∃ name ∈ csvNames, f.name = dir ++ name) ∨ ∃ e ∈ exchangeRows db ids, f ∈ bodyFiles dir e := by
  unfold stageFiles at h
  simp only [List.mem_append, List.mem_cons, List.not_mem_nil, or_false, List.mem_flatMap] at h
  rcases h with ((rfl | rfl | rfl | rfl) | h) | rfl
  · exact Or.inl ⟨"invoices.csv", by decide, rfl⟩
  · exact Or.inl ⟨"line_items.csv", by decide, rfl⟩
  · exact Or.inl ⟨"status_history.csv", by decide, rfl⟩
  · exact Or.inl ⟨"submissions.csv", by decide, rfl⟩
  · exact Or.inr h
  · exact Or.inl ⟨"exchange.csv", by decide, rfl⟩

theorem exchangeRows_nodup (db : Snapshot) {ids : List Uuid} (hids : ids.Nodup) :
    ((exchangeRows db ids).map Exchange.id).Nodup :=
  ((exchangeRows_rows db hids).perm.map _).nodup_iff.mpr
    (db.exchanges_unique.sublist (List.filter_sublist.map _))

theorem names_stageFiles (dir : String) {ids : List Uuid} (hids : ids.Nodup)
    (invoices exchanges : List Record) :
    ((stageFiles x db dir ids invoices exchanges).map File.name).Nodup := by
  have hbodies := bodies_names_nodup dir (exchangeRows_nodup db hids)
  have hbody : ∀ name ∈ csvNames,
      dir ++ name ∉ ((exchangeRows db ids).flatMap (bodyFiles dir)).map File.name := by
    intro name hname hmem
    obtain ⟨f, hf, heq⟩ := List.mem_map.mp hmem
    obtain ⟨e, -, hf⟩ := List.mem_flatMap.mp hf
    rcases mem_bodyFiles.mp hf with ⟨b, -, rfl⟩ | ⟨b, -, rfl⟩ <;>
      exact csvName_ne_body hname heq.symm
  have hcsv : (csvNames.map fun name => dir ++ name).Nodup := by
    refine List.Nodup.map (fun a b h => ?_) (by decide)
    have hlist := congrArg String.toList h
    simp only [String.toList_append] at hlist
    exact String.ext_iff.mpr (List.append_cancel_left hlist)
  have hnames : ((stageFiles x db dir ids invoices exchanges).map File.name).Perm
      (csvNames.map (fun name => dir ++ name) ++
        ((exchangeRows db ids).flatMap (bodyFiles dir)).map File.name) := by
    unfold stageFiles
    rw [List.map_append, List.map_append, List.append_assoc]
    exact (List.perm_append_comm.append_left _).trans (by rw [← List.append_assoc]; exact List.Perm.refl _)
  refine hnames.nodup_iff.mpr (List.nodup_append.mpr ⟨hcsv, hbodies, ?_⟩)
  intro name hname name' hname' heq
  obtain ⟨n, hn, rfl⟩ := List.mem_map.mp hname
  exact hbody n hn (heq ▸ hname')

theorem holds_stageFiles {dir : String} {canonical : Uuid} {r : Request} {invoices exchanges : List Record}
    (hinvoices : List.Forall₂ (fun i record => invoiceRecord x db i = .ok record)
      (scopeRows db canonical r) invoices)
    (hexchanges : List.Forall₂ (fun e record =>
        scrubbedRecord x (invoiceNumbers db (scopeIDs db canonical r)) e = some record)
      (exchangeRows db (scopeIDs db canonical r)) exchanges)
    {zip : List ZipEntry}
    (hmem : ∀ f ∈ stageFiles x db dir (scopeIDs db canonical r) invoices exchanges, f.zipEntry ∈ zip)
    (honly : ∀ z ∈ zip, hasPrefix z.name (dir ++ "bodies/") = true →
      ∃ f ∈ stageFiles x db dir (scopeIDs db canonical r) invoices exchanges, z = f.zipEntry) :
    Holds x db dir (db.invoices.filter (inScope canonical r)) zip := by
  set ids := scopeIDs db canonical r with hidsdef
  have hids : ids.Nodup := scopeIDs_nodup db canonical r
  have hscope : ∀ id, id ∈ (db.invoices.filter (inScope canonical r)).map Invoice.id ↔ id ∈ ids :=
    fun id => ((List.mergeSort_perm _ _).map Invoice.id).mem_iff.symm
  have hfile : ∀ f ∈ stageFiles x db dir ids invoices exchanges, f.zipEntry ∈ zip := hmem
  have hcsv : ∀ name header records, csvFile name header records ∈
      stageFiles x db dir ids invoices exchanges → header ≠ [] → (∀ r ∈ records, r ≠ []) →
        Reads zip name (header :: records) :=
    fun name header records hin hheader hrecords => reads_csvFile (hfile _ hin) hheader hrecords
  have hexchangeRows := exchangeRows_rows db hids
  have hrows : ∀ e ∈ exchangeRows db ids, e ∈ db.exchanges ∧ e.invoiceID ∈ ids := fun e he =>
    mem_under.mp (hexchangeRows.perm.subset he)
  refine ⟨⟨invoices, hinvoices, hcsv _ _ _ ?_ (by decide) ?_⟩, ?_,
    ⟨historyRows db ids, ?_, ?_, ?_⟩, ⟨submissionRows db ids, ?_, ?_⟩,
    ⟨exchangeRows db ids, exchanges, ?_, ?_, ?_⟩, ?_, ?_⟩
  · simp [stageFiles]
  · exact forall₂_right hinvoices fun _ _ => invoiceRecord_ne_nil
  · have hsame : lineItemRows db ids = (db.lineItems.filter fun l => l.invoiceID ∈
        (db.invoices.filter (inScope canonical r)).map Invoice.id).mergeSort
          (keyFirst LineItem.invoiceID byLine) :=
      congrArg (fun l => l.mergeSort (keyFirst LineItem.invoiceID byLine))
        (under_congr LineItem.invoiceID db.lineItems fun id => (hscope id).symm)
    rw [← hsame]
    have hnumbers : (lineItemRows db ids).map (lineItemRecord (invoiceNumbers db ids)) =
        (lineItemRows db ids).map (lineItemRecord (numberOf db)) :=
      List.map_congr_left fun l hl => lineItemRecord_numbers (key_mem_of_batchRows hl)
    rw [← hnumbers]
    refine hcsv _ _ _ (by simp [stageFiles]) (by decide) fun record hrecord => ?_
    obtain ⟨l, -, rfl⟩ := List.mem_map.mp hrecord
    exact List.cons_ne_nil _ _
  · refine (historyRows_perm db hids).trans (List.Perm.of_eq ?_)
    exact under_congr HistoryRow.invoiceID db.history fun id => (hscope id).symm
  · intro i hi
    exact history_numbered db hids ((hscope i.id).mp (List.mem_map_of_mem hi))
  · have hin : ∀ e ∈ historyRows db ids, e.2.invoiceID ∈ ids := fun e he =>
      (mem_under.mp ((historyRows_perm db hids).subset (List.mem_map_of_mem he))).2
    have hnumbers : ((historyRows db ids).map fun e => historyRecord x db (invoiceNumbers db ids) e.1 e.2) =
        (historyRows db ids).map fun e => historyRecord x db (numberOf db) e.1 e.2 :=
      List.map_congr_left fun e he => historyRecord_numbers (hin e he)
    rw [← hnumbers]
    refine hcsv _ _ _ (by simp [stageFiles]) (by decide) fun record hrecord => ?_
    obtain ⟨e, -, rfl⟩ := List.mem_map.mp hrecord
    exact List.cons_ne_nil _ _
  · have hrowsOf := submissionRows_rows db hids
    refine ⟨hrowsOf.perm.trans (List.Perm.of_eq ?_), fun id hid => hrowsOf.ordered id ((hscope id).mp hid)⟩
    exact under_congr SubmissionJob.invoiceID db.submissions fun id => (hscope id).symm
  · have hin : ∀ s ∈ submissionRows db ids, s.invoiceID ∈ ids := fun s hs =>
      (mem_under.mp ((submissionRows_rows db hids).perm.subset hs)).2
    have hnumbers : (submissionRows db ids).map (submissionRecord x (invoiceNumbers db ids)) =
        (submissionRows db ids).map (submissionRecord x (numberOf db)) :=
      List.map_congr_left fun s hs => submissionRecord_numbers (hin s hs)
    rw [← hnumbers]
    refine hcsv _ _ _ (by simp [stageFiles]) (by decide) fun record hrecord => ?_
    obtain ⟨s, -, rfl⟩ := List.mem_map.mp hrecord
    exact List.cons_ne_nil _ _
  · refine ⟨hexchangeRows.perm.trans (List.Perm.of_eq ?_), fun id hid =>
      hexchangeRows.ordered id ((hscope id).mp hid)⟩
    exact under_congr Exchange.invoiceID db.exchanges fun id => (hscope id).symm
  · refine List.forall₂_iff_zip.mpr ⟨hexchanges.length_eq, fun {e record} hzip => ?_⟩
    have he := (hrows e (List.of_mem_zip hzip).1).2
    rw [← scrubbedRecord_numbers he]
    exact (List.forall₂_iff_zip.mp hexchanges).2 hzip
  · exact hcsv _ _ _ (by simp [stageFiles]) (by decide)
      (forall₂_right hexchanges fun _ _ => scrubbedRecord_ne_nil)
  · intro e he hid body
    have hrow : e ∈ exchangeRows db ids :=
      hexchangeRows.perm.symm.subset (mem_under.mpr ⟨he, (hscope _).mp hid⟩)
    have hbody : ∀ f ∈ bodyFiles dir e, f.zipEntry ∈ zip := fun f hf =>
      hfile f (List.mem_append_left _ (List.mem_append_right _ (List.mem_flatMap.mpr ⟨e, hrow, hf⟩)))
    constructor
    · intro hreq
      refine hbody ⟨_, _, none⟩ (List.mem_append_left _ ?_)
      rw [hreq]
      exact List.mem_singleton.mpr rfl
    · intro hresp
      refine hbody ⟨_, _, none⟩ (List.mem_append_right _ ?_)
      rw [hresp]
      exact List.mem_singleton.mpr rfl
  · intro z hz hstarts
    obtain ⟨f, hf, rfl⟩ := honly z hz hstarts
    rcases mem_stageFiles hf with ⟨name, hname, heq⟩ | ⟨e, he, hf⟩
    · have hnot : ∀ n ∈ csvNames, "bodies/".toList.isPrefixOf n.toList = false := by decide
      have hlist : (dir ++ "bodies/").toList.isPrefixOf (dir ++ name).toList = true := by
        rw [← heq]
        exact hstarts
      rw [String.toList_append, String.toList_append, List.isPrefixOf_iff_prefix,
        List.prefix_append_right_inj, ← List.isPrefixOf_iff_prefix, hnot name hname] at hlist
      cases hlist
    · obtain ⟨he, hid⟩ := hrows e he
      refine ⟨e, he, (hscope _).mpr hid, ?_⟩
      rcases mem_bodyFiles.mp hf with ⟨b, hb, rfl⟩ | ⟨b, hb, rfl⟩
      · refine ⟨b, Or.inl ⟨hb, ?_⟩⟩
        unfold requestBodyFile
        rw [bodyFile_ne hb]
        rfl
      · refine ⟨b, Or.inr ⟨hb, ?_⟩⟩
        unfold responseBodyFile
        rw [bodyFile_ne hb]
        rfl

end
end InvoiceOs.Archive
