import InvoiceOs.Archive.Counts
import Mathlib.Tactic.Ring

/-! The export of a workspace is all of it: every company's evidence, every document and every
audit row, once, counted as many as the tables hold. -/

namespace InvoiceOs.Archive

open Lib

structure Whole (x : WorkspaceExternals) (db : Workspace) (o : WorkspaceOpts) (sent : Sent)
    (exported : Exported) (companies : List WorkspaceCompany) (files : List File) : Prop where
  closed : sent.closed = true
  zip : sent.zip = files.map File.zipEntry ++ [{
    name := "manifest.json"
    content := bytesOf (x.marshalWorkspace
      (workspaceManifestDoc x db o companies (files.map (File.describe x.toExternals)))) }]
  names : (sent.zip.map ZipEntry.name).Nodup
  evidence : List.Forall₂ (fun (e : Entity) (c : WorkspaceCompany) =>
      c.id = e.id ∧ c.name = e.name ∧ c.tin = e.tin ∧
        Holds x.toExternals db.toSnapshot (companyPath c.dir)
          (db.invoices.filter fun i => i.entityID = e.id) sent.zip)
    (db.entities.mergeSort (byName x)) companies
  documents : ∀ d ∈ db.documents, ∃ body, x.openObject d.storageKey = some body ∧
    { name := documentName d, content := body } ∈ sent.zip
  auditLog : ∃ records,
    List.Forall₂ (fun r record => exportRecord x db r = .ok record)
      (db.log.rows.mergeSort Audit.pageOrder) records ∧
    Reads sent.zip "audit_log.csv" (exportCSVHeader :: records)
  counts : (workspaceManifestDoc x db o companies
    (files.map (File.describe x.toExternals))).counts = tableCounts db
  exported : exported = { files := files.length, bytes := (files.map fun f => f.content.length).sum }

section
variable {x : WorkspaceExternals} {db : Workspace}

theorem mapM_exportRecord {rows : List Audit.Row} {records : List Record}
    (h : rows.mapM (exportRecord x db) = .ok records) :
    List.Forall₂ (fun r record => exportRecord x db r = .ok record) rows records := by
  induction rows generalizing records with
  | nil =>
    obtain rfl := Except.ok.inj h
    exact List.Forall₂.nil
  | cons r rows ih =>
    rw [List.mapM_cons] at h
    cases hone : exportRecord x db r with
    | error e => rw [hone] at h; cases h
    | ok record =>
      cases hrest : rows.mapM (exportRecord x db) with
      | error e => simp only [hone, hrest, bind, Except.bind] at h; cases h
      | ok rest =>
        simp only [hone, hrest, bind, Except.bind, pure, Except.pure, Except.ok.injEq] at h
        subst h
        exact List.Forall₂.cons hone (ih hrest)

theorem exportRecord_ne_nil {r : Audit.Row} {record : Record} (h : exportRecord x db r = .ok record) :
    record ≠ [] := by
  unfold exportRecord at h
  split at h
  · cases h
  · obtain rfl := Except.ok.inj h
    exact List.cons_ne_nil _ _

theorem writeExportCSV_ok {records : List Record} (h : writeExportCSV x db = .ok records) :
    ∃ rest, records = exportCSVHeader :: rest ∧
      List.Forall₂ (fun r record => exportRecord x db r = .ok record)
        (db.log.rows.mergeSort Audit.pageOrder) rest := by
  unfold writeExportCSV at h
  rw [exportPages_eq] at h
  cases hrows : (db.log.rows.mergeSort Audit.pageOrder).mapM (exportRecord x db) with
  | error e => rw [hrows] at h; cases h
  | ok rest =>
    rw [hrows] at h
    obtain rfl := Except.ok.inj h
    exact ⟨rest, rfl, mapM_exportRecord hrows⟩

def exportFiles (x : WorkspaceExternals) (placed : List Placed) (docs : List Document)
    (auditRows : List Record) : List File :=
  placed.flatMap Placed.files ++
    docs.map (documentFile fun d => (x.openObject d.storageKey).getD []) ++
      [csvFile "audit_log.csv" exportCSVHeader auditRows]

theorem writeWorkspaceStages_ok {bw : BundleWriter} {companies : List WorkspaceCompany}
    (h : writeWorkspaceStages x db = .ok (bw, companies)) :
    ∃ placed : List Placed, ∃ auditRows, placed.map Placed.company = selectWorkspaceCompanies x db ∧
      placed.map Placed.dir = companyDirs [] (selectWorkspaceCompanies x db) ∧
      (∀ p ∈ placed, p.Written x db) ∧ companies = placed.map Placed.toCompany ∧
      (∀ d ∈ db.documents, (x.openObject d.storageKey).isSome = true) ∧
      List.Forall₂ (fun r record => exportRecord x db r = .ok record)
        (db.log.rows.mergeSort Audit.pageOrder) auditRows ∧
      bw = ({} : BundleWriter).createAll x.toExternals (exportFiles x placed
        (db.documents.mergeSort (byTime Document.createdAt Document.id)) auditRows) := by
  unfold writeWorkspaceStages at h
  rw [documentPages_eq] at h
  cases hcompanies : writeCompanies x db [] {} (selectWorkspaceCompanies x db) with
  | error failed =>
    simp only [hcompanies, bind, Except.bind] at h
    cases h
  | ok out =>
    obtain ⟨bw₁, cs⟩ := out
    obtain ⟨placed, hcompany, hdirs, hwritten, rfl, rfl⟩ := writeCompanies_ok hcompanies
    simp only [hcompanies, bind, Except.bind] at h
    cases hdocs : writeDocuments x (({} : BundleWriter).createAll x.toExternals
        (placed.flatMap Placed.files))
        (db.documents.mergeSort (byTime Document.createdAt Document.id)) with
    | error failed =>
      rw [hdocs] at h
      cases h
    | ok bw₂ =>
      obtain ⟨hopen, rfl⟩ := writeDocuments_ok hdocs
      rw [hdocs] at h
      cases haudit : writeExportCSV x db with
      | error e =>
        rw [haudit] at h
        cases h
      | ok records =>
        obtain ⟨auditRows, rfl, hrows⟩ := writeExportCSV_ok haudit
        rw [haudit] at h
        obtain ⟨rfl, rfl⟩ := Prod.mk.inj (Except.ok.inj h)
        refine ⟨placed, auditRows, hcompany, hdirs, hwritten, rfl, fun d hd => ?_, hrows, ?_⟩
        · exact hopen d ((List.mergeSort_perm _ _).mem_iff.mpr hd)
        · rw [BundleWriter.finalizeCSV_eq, BundleWriter.createAll_createAll,
            BundleWriter.createAll_createAll]
          unfold exportFiles
          rw [List.append_assoc]

variable {placed : List Placed} {auditRows : List Record}

theorem head_companyPath (dir rest : String) :
    (companyPath dir ++ rest).toList.head? = some 'c' := by
  rw [companyPath_toList, String.toList_append, List.append_assoc]
  rfl

theorem head_documentName (d : Document) : (documentName d).toList.head? = some 'd' := by
  rw [documentName_toList]
  rfl

theorem exportFiles_names (hwritten : ∀ p ∈ placed, p.Written x db)
    (hdirs : (placed.map Placed.dir).Nodup) (hslash : ∀ p ∈ placed, '/' ∉ p.dir.toList) :
    ((exportFiles x placed (db.documents.mergeSort (byTime Document.createdAt Document.id))
      auditRows).map File.name ++ ["manifest.json"]).Nodup := by
  set docs := db.documents.mergeSort (byTime Document.createdAt Document.id) with hdocs
  have hmem : ∀ d ∈ docs, d ∈ db.documents := fun d hd => (List.mergeSort_perm _ _).subset hd
  have hcompanies := companies_names_nodup hwritten hdirs hslash
  have hcompanyHead : ∀ name ∈ (placed.flatMap Placed.files).map File.name,
      name.toList.head? = some 'c' := by
    intro name hname
    obtain ⟨f, hf, rfl⟩ := List.mem_map.mp hname
    obtain ⟨p, hp, hf⟩ := List.mem_flatMap.mp hf
    obtain ⟨rest, hrest⟩ := (hwritten p hp).name hf
    rw [hrest]
    exact head_companyPath _ _
  have hdocHead : ∀ name ∈ docs.map documentName, name.toList.head? = some 'd' := by
    intro name hname
    obtain ⟨d, -, rfl⟩ := List.mem_map.mp hname
    exact head_documentName d
  have hdocNodup : (docs.map documentName).Nodup := by
    have hnodup : docs.Nodup :=
      (List.mergeSort_perm _ _).nodup_iff.mpr (List.Nodup.of_map _ db.documents_unique)
    exact List.Nodup.map_on (fun d hd d' hd' h => documentName_inj db (hmem d hd) (hmem d' hd') h)
      hnodup
  have hrest : (["audit_log.csv"] ++ ["manifest.json"] : List String).Nodup := by decide
  have hnames : (exportFiles x placed docs auditRows).map File.name ++ ["manifest.json"] =
      (placed.flatMap Placed.files).map File.name ++ (docs.map documentName ++
        (["audit_log.csv"] ++ ["manifest.json"])) := by
    unfold exportFiles
    simp only [List.map_append, List.map_map, List.append_assoc]
    rfl
  rw [hnames]
  refine List.nodup_append.mpr ⟨hcompanies, List.nodup_append.mpr ⟨hdocNodup, hrest, ?_⟩, ?_⟩
  · intro name hname name' hname' heq
    have hhead := hdocHead name hname
    have hother : ∀ n ∈ (["audit_log.csv"] ++ ["manifest.json"] : List String),
        n.toList.head? ≠ some 'd' := by decide
    exact hother name' hname' (heq ▸ hhead)
  · intro name hname name' hname' heq
    have hhead : name'.toList.head? = some 'c' := heq ▸ hcompanyHead name hname
    rcases List.mem_append.mp hname' with hname' | hname'
    · rw [hdocHead name' hname'] at hhead
      exact absurd hhead (by decide)
    · have hother : ∀ n ∈ (["audit_log.csv"] ++ ["manifest.json"] : List String),
          n.toList.head? ≠ some 'c' := by decide
      exact hother name' hname' hhead

theorem only_company (hwritten : ∀ p ∈ placed, p.Written x db)
    (hdirs : (placed.map Placed.dir).Nodup) (hslash : ∀ p ∈ placed, '/' ∉ p.dir.toList)
    {docs : List Document} {p : Placed} (hp : p ∈ placed) {f : File}
    (hf : f ∈ exportFiles x placed docs auditRows)
    (hstarts : hasPrefix f.name (companyPath p.dir ++ "bodies/") = true) : f ∈ p.files := by
  obtain ⟨t, ht⟩ := hasPrefix_iff.mp hstarts
  have hname : f.name = companyPath p.dir ++ ("bodies/" ++ String.ofList t) := by
    refine String.ext_iff.mpr ?_
    rw [← ht]
    simp only [String.toList_append, String.toList_ofList, List.append_assoc]
  have hhead : f.name.toList.head? = some 'c' := by
    rw [hname]
    exact head_companyPath _ _
  unfold exportFiles at hf
  rcases List.mem_append.mp hf with hf | hf
  · rcases List.mem_append.mp hf with hf | hf
    · obtain ⟨p', hp', hf⟩ := List.mem_flatMap.mp hf
      obtain ⟨rest, hrest⟩ := (hwritten p' hp').name hf
      have hdir := companyPath_inj (hslash p' hp') (hslash p hp) (hrest.symm.trans hname)
      rwa [List.inj_on_of_nodup_map hdirs hp' hp hdir] at hf
    · obtain ⟨d, -, rfl⟩ := List.mem_map.mp hf
      have hdoc : (documentFile (fun d => (x.openObject d.storageKey).getD []) d).name.toList.head? =
          some 'd' := head_documentName d
      rw [hdoc] at hhead
      exact absurd hhead (by decide)
  · obtain rfl := List.mem_singleton.mp hf
    have haudit : "audit_log.csv".toList.head? = some 'c' := hhead
    exact absurd haudit (by decide)

theorem holds_company (hwritten : ∀ p ∈ placed, p.Written x db)
    (hdirs : (placed.map Placed.dir).Nodup) (hslash : ∀ p ∈ placed, '/' ∉ p.dir.toList)
    {docs : List Document} {zip : List ZipEntry} {last : ZipEntry}
    (hzip : zip = (exportFiles x placed docs auditRows).map File.zipEntry ++ [last])
    (hlast : last.name = "manifest.json") {p : Placed} (hp : p ∈ placed) :
    Holds x.toExternals db.toSnapshot (companyPath p.dir)
      (db.invoices.filter fun i => i.entityID = p.company.id) zip := by
  obtain ⟨invoices, exchanges, hall, hscrub, hfiles⟩ := hwritten p hp
  have hscope : db.invoices.filter (inScope p.company.id (allTime p.company.id)) =
      db.invoices.filter fun i => i.entityID = p.company.id := by
    refine List.filter_congr fun i hi => ?_
    unfold inScope allTime
    simp [db.created_in_time i hi]
  rw [← hscope]
  refine holds_stageFiles hall hscrub (fun f hf => ?_) fun z hz hstarts => ?_
  · have hin : f ∈ exportFiles x placed docs auditRows :=
      List.mem_append_left _ (List.mem_append_left _
        (List.mem_flatMap.mpr ⟨p, hp, hfiles ▸ hf⟩))
    rw [hzip]
    exact List.mem_append_left _ (List.mem_map_of_mem hin)
  · rw [hzip] at hz
    rcases List.mem_append.mp hz with hz | hz
    · obtain ⟨f, hf, rfl⟩ := List.mem_map.mp hz
      exact ⟨f, hfiles ▸ only_company hwritten hdirs hslash hp hf hstarts, rfl⟩
    · obtain rfl := List.mem_singleton.mp hz
      obtain ⟨t, ht⟩ := hasPrefix_iff.mp hstarts
      have hhead : z.name.toList.head? = some 'c' := by
        rw [← ht, ← head_companyPath p.dir "bodies/"]
        have hne : (companyPath p.dir ++ "bodies/").toList ≠ [] := by
          intro hnil
          have h := head_companyPath p.dir "bodies/"
          rw [hnil] at h
          cases h
        exact List.head?_append_of_ne_nil _ hne
      rw [hlast] at hhead
      exact absurd hhead (by decide)

theorem counts_exportFiles (hwritten : ∀ p ∈ placed, p.Written x db)
    (hcompany : placed.map Placed.company = selectWorkspaceCompanies x db)
    (hrows : auditRows.length = db.log.rows.length) :
    workspaceCountsOf placed.length ((exportFiles x placed
      (db.documents.mergeSort (byTime Document.createdAt Document.id)) auditRows).map
        (File.describe x.toExternals)) = tableCounts db := by
  have hperm : (placed.map Placed.company).Perm db.entities := by
    rw [hcompany]
    exact List.mergeSort_perm _ _
  have hids := companyIDs_perm db hperm
  have hnodup : ((placed.map Placed.company).flatMap (companyIDs db)).Nodup :=
    hids.nodup_iff.mpr db.invoices_unique
  have hplaced : ∀ (ps : List Placed) (c : WorkspaceCounts), (∀ p ∈ ps, p.Written x db) →
      ((ps.map Placed.company).flatMap (companyIDs db)).Nodup →
        ((ps.flatMap Placed.files).map (File.describe x.toExternals)).foldl countEntry c =
          c.addBundle (bundleCounts db.toSnapshot
            ((ps.map Placed.company).flatMap (companyIDs db))) := by
    intro ps
    induction ps with
    | nil =>
      intro c _ _
      unfold WorkspaceCounts.addBundle bundleCounts under bodyCount
      simp
    | cons p ps ih =>
      intro c hall hnd
      obtain ⟨invoices, exchanges, hinv, hscrub, hfiles⟩ := hall p List.mem_cons_self
      rw [List.map_cons, List.flatMap_cons] at hnd ⊢
      have hlen : invoices.length = (companyIDs db p.company).length := by
        rw [← hinv.length_eq]
        exact (List.length_map _).symm
      rw [List.flatMap_cons, List.map_append, List.foldl_append, hfiles,
        foldl_stageFiles c p.dir (companyIDs_nodup db p.company) hlen hscrub.length_eq.symm,
        ih _ (fun p' hp' => hall p' (List.mem_cons_of_mem _ hp')) (List.nodup_append.mp hnd).2.1,
        addBundle_addBundle, bundleCounts_append db.toSnapshot hnd]
  have hdocs : ∀ d ∈ db.documents.mergeSort (byTime Document.createdAt Document.id),
      d ∈ db.documents := fun d hd => (List.mergeSort_perm _ _).subset hd
  have haudit : ∀ c : WorkspaceCounts, countEntry c
      ((csvFile "audit_log.csv" exportCSVHeader auditRows).describe x.toExternals) =
        { c with auditRows := c.auditRows + auditRows.length } := by
    intro c
    have h₁ : hasSuffix "audit_log.csv" "/invoices.csv" = false := by decide
    have h₂ : hasSuffix "audit_log.csv" "/line_items.csv" = false := by decide
    have h₃ : hasSuffix "audit_log.csv" "/status_history.csv" = false := by decide
    have h₄ : hasSuffix "audit_log.csv" "/submissions.csv" = false := by decide
    have h₅ : hasSuffix "audit_log.csv" "/exchange.csv" = false := by decide
    have h₆ : contains "audit_log.csv" "/bodies/" = false := by decide
    have h₇ : hasPrefix "audit_log.csv" "documents/" = false := by decide
    unfold countEntry File.describe csvFile
    dsimp only
    rw [h₁, h₂, h₃, h₄, h₅, h₆, h₇]
    rfl
  unfold workspaceCountsOf exportFiles
  rw [List.map_append, List.map_append, List.foldl_append, List.foldl_append,
    hplaced placed _ hwritten hnodup, bundleCounts_perm db.toSnapshot hids, bundleCounts_all,
    foldl_documents _ _ hdocs]
  simp only [List.map_cons, List.map_nil, List.foldl_cons, List.foldl_nil]
  rw [haudit]
  unfold WorkspaceCounts.addBundle tableCounts
  have hlen : placed.length = db.entities.length := by
    rw [← hperm.length_eq, List.length_map]
  simp only [hlen, hrows, Nat.zero_add, (List.mergeSort_perm _ _).length_eq]

end

/-- An export that does not fail is the whole workspace, where no company's slug is another's with
that one's id behind it. -/
theorem workspace_whole (x : WorkspaceExternals) (db : Workspace) (o : WorkspaceOpts) {sent : Sent}
    {exported : Exported} (h : assembleWorkspace x db o = .ok (sent, exported))
    (hapart : SlugsApart db.entities) :
    ∃ companies files, Whole x db o sent exported companies files := by
  unfold assembleWorkspace at h
  dsimp only at h
  cases hstages : writeWorkspaceStages x db with
  | error failed => rw [hstages] at h; cases h
  | ok out =>
    obtain ⟨bw, companies⟩ := out
    rw [hstages] at h
    obtain ⟨rfl, rfl⟩ := Prod.mk.inj (Except.ok.inj h)
    obtain ⟨placed, auditRows, hcompany, hplacedDirs, hwritten, rfl, hopen, hrows, rfl⟩ :=
      writeWorkspaceStages_ok hstages
    have hperm : (selectWorkspaceCompanies x db).Perm db.entities := List.mergeSort_perm _ _
    have hapart' : SlugsApart (selectWorkspaceCompanies x db) := fun c hc c' hc' =>
      hapart c (hperm.subset hc) c' (hperm.subset hc')
    have hdirs : (placed.map Placed.dir).Nodup := by
      rw [hplacedDirs]
      exact companyDirs_nodup hapart' ((hperm.map _).nodup_iff.mpr db.entities_unique)
    have hslash : ∀ p ∈ placed, '/' ∉ p.dir.toList := by
      intro p hp
      have hdir : p.dir ∈ placed.map Placed.dir := List.mem_map_of_mem hp
      rw [hplacedDirs] at hdir
      exact slash_not_mem_companyDirs hdir
    set files := exportFiles x placed
      (db.documents.mergeSort (byTime Document.createdAt Document.id)) auditRows with hfiles
    have hzipNames : (files.map File.zipEntry).map ZipEntry.name = files.map File.name := List.map_map
    refine ⟨_, files, rfl, rfl, ?_, ?_, fun d hd => ?_, ⟨auditRows, hrows, ?_⟩, ?_, ?_⟩
    · show ((([] ++ _) ++ [_] : List ZipEntry).map ZipEntry.name).Nodup
      rw [List.nil_append, List.map_append, hzipNames]
      exact exportFiles_names hwritten hdirs hslash
    · have hcs : db.entities.mergeSort (byName x) = placed.map Placed.company := hcompany.symm
      rw [hcs, List.forall₂_map_left_iff, List.forall₂_map_right_iff, List.forall₂_same]
      exact fun p hp => ⟨rfl, rfl, rfl, holds_company hwritten hdirs hslash rfl rfl hp⟩
    · obtain ⟨body, hbody⟩ := Option.isSome_iff_exists.mp (hopen d hd)
      refine ⟨body, hbody, List.mem_append_left _ (List.mem_append_right _ ?_)⟩
      have hin : documentFile (fun d => (x.openObject d.storageKey).getD []) d ∈ files :=
        List.mem_append_left _ (List.mem_append_right _
          (List.mem_map_of_mem ((List.mergeSort_perm _ _).mem_iff.mpr hd)))
      have hentry := List.mem_map_of_mem (f := File.zipEntry) hin
      unfold documentFile File.zipEntry at hentry
      dsimp only at hentry
      rwa [hbody] at hentry
    · refine reads_csvFile (List.mem_append_left _ (List.mem_append_right _ ?_)) (by decide)
        (forall₂_right hrows fun _ _ => exportRecord_ne_nil)
      exact List.mem_map_of_mem (List.mem_append_right _ (List.mem_singleton.mpr rfl))
    · have hlen : auditRows.length = db.log.rows.length := by
        rw [← hrows.length_eq, (List.mergeSort_perm _ _).length_eq]
      show workspaceCountsOf (placed.map Placed.toCompany).length _ = _
      rw [List.length_map]
      exact counts_exportFiles hwritten hcompany hlen
    · show ({ files := _, bytes := _ } : Exported) = _
      rw [Exported.mk.injEq]
      constructor
      · show ([] ++ files.map (File.describe x.toExternals)).length = _
        rw [List.nil_append, List.length_map]
      · show (([] ++ files.map (File.describe x.toExternals)).map ManifestEntry.bytes).sum = _
        rw [List.nil_append, List.map_map]
        rfl

/-! ### When an export succeeds -/

section
variable {x : WorkspaceExternals} {db : Workspace}

theorem writeCompanies_readable (taken : List String) (bw : BundleWriter) {cs : List Entity}
    (h : ∀ c ∈ cs, Readable x.toExternals db.toSnapshot
      (db.invoices.filter (inScope c.id (allTime c.id)))) :
    ∃ out, writeCompanies x db taken bw cs = .ok out := by
  induction cs generalizing taken bw with
  | nil => exact ⟨_, rfl⟩
  | cons c cs ih =>
    obtain ⟨bw₁, hone⟩ : ∃ bw₁, writeEntityStages x.toExternals db.toSnapshot
        (companyPath (companyDir c.name c.id taken)) (allTime c.id) bw = .ok bw₁ :=
      (stages_readable bw (x.uuidParse_text c.id)).mpr (h c List.mem_cons_self)
    obtain ⟨out, hrest⟩ := ih (companyDir c.name c.id taken :: taken) bw₁
      fun c' hc' => h c' (List.mem_cons_of_mem _ hc')
    rw [writeCompanies]
    simp only [hone, hrest, bind, Except.bind]
    exact ⟨_, rfl⟩

theorem writeDocuments_open (bw : BundleWriter) {docs : List Document}
    (h : ∀ d ∈ docs, (x.openObject d.storageKey).isSome = true) :
    ∃ bw', writeDocuments x bw docs = .ok bw' := by
  induction docs generalizing bw with
  | nil => exact ⟨_, rfl⟩
  | cons d docs ih =>
    obtain ⟨body, hbody⟩ := Option.isSome_iff_exists.mp (h d List.mem_cons_self)
    rw [writeDocuments]
    unfold writeDocument
    simp only [hbody, pure, Except.pure, bind, Except.bind]
    exact ih _ fun d' hd' => h d' (List.mem_cons_of_mem _ hd')

theorem assembleWorkspace_readable (o : WorkspaceOpts)
    (hread : Readable x.toExternals db.toSnapshot db.invoices)
    (hopen : ∀ d ∈ db.documents, (x.openObject d.storageKey).isSome = true)
    (hpayload : ∀ r ∈ db.log.rows, (x.compactJSON r.payload.text).isSome = true) :
    ∃ sent exported, assembleWorkspace x db o = .ok (sent, exported) := by
  have hcompany : ∀ c ∈ selectWorkspaceCompanies x db, Readable x.toExternals db.toSnapshot
      (db.invoices.filter (inScope c.id (allTime c.id))) := by
    refine fun c _ => ⟨fun i hi => hread.1 i (List.mem_filter.mp hi).1, fun e he _ => ?_⟩
    exact hread.2 e he (db.exchange_invoice e he)
  obtain ⟨out, hcompanies⟩ := writeCompanies_readable [] {} hcompany
  have hpages : ∀ d ∈ (documentPages db).flatten, (x.openObject d.storageKey).isSome = true := by
    intro d hd
    rw [documentPages_eq] at hd
    exact hopen d ((List.mergeSort_perm _ _).subset hd)
  obtain ⟨bw, hdocs⟩ := writeDocuments_open out.1 hpages
  obtain ⟨records, hrecords⟩ : ∃ records, writeExportCSV x db = .ok records := by
    have hall : ∀ rows : List Audit.Row, (∀ r ∈ rows, (x.compactJSON r.payload.text).isSome = true) →
        ∃ records, rows.mapM (exportRecord x db) = .ok records := by
      intro rows hrows
      induction rows with
      | nil => exact ⟨[], rfl⟩
      | cons r rows ih =>
        obtain ⟨payload, hone⟩ := Option.isSome_iff_exists.mp (hrows r List.mem_cons_self)
        obtain ⟨rest, hrest⟩ := ih fun r' hr' => hrows r' (List.mem_cons_of_mem _ hr')
        rw [List.mapM_cons, hrest]
        unfold exportRecord
        rw [hone]
        exact ⟨_, rfl⟩
    obtain ⟨records, h⟩ := hall (exportPages db).flatten fun r hr => by
      rw [exportPages_eq] at hr
      exact hpayload r ((List.mergeSort_perm _ _).subset hr)
    unfold writeExportCSV
    rw [h]
    exact ⟨_, rfl⟩
  have hstages : ∃ out, writeWorkspaceStages x db = .ok out := by
    unfold writeWorkspaceStages
    simp only [hcompanies, hdocs, hrecords, bind, Except.bind]
    exact ⟨_, rfl⟩
  obtain ⟨stages, hstages⟩ := hstages
  unfold assembleWorkspace
  rw [hstages]
  exact ⟨_, _, rfl⟩

end

/-! ### Two companies of one name -/

def hexValue (c : Char) : ℕ := if c.isDigit then c.toNat - 48 else c.toNat - 87

def parseText (s : String) : Option Uuid :=
  let value := (s.toList.filter (· ≠ '-')).foldl (fun acc c => acc * 16 + hexValue c) 0
  if Uuid.text (BitVec.ofNat 128 value) = s then some (BitVec.ofNat 128 value) else none

theorem foldl_hexGroup (n v acc : ℕ) :
    (hexGroup n v).foldl (fun acc c => acc * 16 + hexValue c) acc = acc * 16 ^ n + v % 16 ^ n := by
  have hdigit : ∀ d < 16, hexValue (Nat.digitChar d) = d := by decide
  induction n generalizing acc with
  | zero => simp [hexGroup, Nat.mod_one]
  | succ n ih =>
    rw [hexGroup_succ, List.foldl_cons, ih, hdigit _ (Nat.mod_lt _ (by decide)), Nat.mod_pow_succ,
      Nat.pow_succ]
    ring

theorem place_add (v m n : ℕ) :
    v / 16 ^ (m + n) * 16 ^ n + v / 16 ^ m % 16 ^ n = v / 16 ^ m := by
  rw [Nat.pow_add, ← Nat.div_div_eq_div_mul]
  exact Nat.div_add_mod' _ _

theorem parseText_text (u : Uuid) : parseText u.text = some u := by
  have hfilter : ∀ n v, (hexGroup n v).filter (fun c => decide (c ≠ '-')) = hexGroup n v := by
    intro n v
    refine List.filter_eq_self.mpr fun c hc => decide_eq_true ?_
    rintro rfl
    obtain ⟨d, hd, h⟩ := hex_of_mem_hexGroup hc
    have hnone : ∀ d < 16, '-' ≠ Nat.digitChar d := by decide
    exact hnone d hd h
  have hvalue : (u.text.toList.filter (fun c => decide (c ≠ '-'))).foldl
      (fun acc c => acc * 16 + hexValue c) 0 = u.toNat := by
    have hdash : ∀ t : List Char, ('-' :: t).filter (fun c => decide (c ≠ '-')) =
        t.filter fun c => decide (c ≠ '-') := fun t => rfl
    have hhigh : u.toNat / 16 ^ 24 % 16 ^ 8 = u.toNat / 16 ^ 24 :=
      Nat.mod_eq_of_lt (Nat.div_lt_of_lt_mul u.isLt)
    rw [Uuid.text_toList]
    unfold Uuid.chars
    simp only [List.filter_append, hdash, hfilter, List.foldl_append, foldl_hexGroup, Nat.zero_mul,
      Nat.zero_add]
    rw [hhigh, place_add u.toNat 20 4, place_add u.toNat 16 4, place_add u.toNat 12 4]
    exact Nat.div_add_mod' _ _
  unfold parseText
  dsimp only
  rw [hvalue, BitVec.ofNat_toNat, BitVec.setWidth_eq, if_pos rfl]

def parsingExternals : Externals := { sampleExternals with uuidParse := parseText }

theorem parsingExternals_text (u : Uuid) : parsingExternals.uuidParse u.text = some u :=
  parseText_text u

def sampleWorkspaceExternals : WorkspaceExternals where
  toExternals := parsingExternals
  uuidParse_text := parsingExternals_text
  collation := {
    le := fun a b => decide (a ≤ b)
    order := isOrder_le
    anti := Audit.le_anti }
  openObject key := if key = "objects/1" then some [1, 2, 3] else none
  marshalWorkspace d := d.format

def namesakes : Workspace where
  tenantID := 1
  tenantName := "Firm"
  entities := [{ id := 7, name := "Acme", tin := none }, { id := 8, name := "acme", tin := some "1" }]
  invoices := [sampleInvoice 11 7, sampleInvoice 12 8]
  lineItems := []
  history := []
  submissions := []
  exchanges := [sampleExchange 31 12]
  memberships := []
  documents := [{ id := 41, hash := String.ofList (List.replicate 64 'a')
                  filename := some "scan.PDF", storageKey := "objects/1", createdAt := 3 }]
  log := { rows := [{ id := 1, createdAt := 2, event := "invoice.created", actor := "system" }]
           unique := List.nodup_singleton _ }
  entities_unique := by decide
  invoices_unique := by decide
  lineItems_unique := List.nodup_nil
  history_unique := List.nodup_nil
  submissions_unique := List.nodup_nil
  exchanges_unique := List.nodup_singleton _
  documents_unique := List.nodup_singleton _
  hashes_unique := List.nodup_singleton _
  hash_length := by
    intro d hd
    obtain rfl := List.mem_singleton.mp hd
    rw [String.toList_ofList, List.length_replicate]
  hash_hex := by
    intro d hd c hc
    obtain rfl := List.mem_singleton.mp hd
    rw [String.toList_ofList] at hc
    obtain rfl := List.eq_of_mem_replicate hc
    decide
  created_in_time := by decide
  invoice_entity := by decide
  line_invoice := nofun
  history_invoice := nofun
  submission_invoice := nofun
  exchange_invoice := by decide

theorem workspace_whole_namesakes : ∃ sent exported companies files,
    assembleWorkspace sampleWorkspaceExternals namesakes { subject := "system", now := 9 } =
        .ok (sent, exported) ∧
      Whole sampleWorkspaceExternals namesakes { subject := "system", now := 9 } sent exported
        companies files := by
  have hopen : ∀ d ∈ namesakes.documents,
      (sampleWorkspaceExternals.openObject d.storageKey).isSome = true := by
    intro d hd
    obtain rfl := List.mem_singleton.mp hd
    rfl
  have hread : Readable sampleWorkspaceExternals.toExternals namesakes.toSnapshot
      namesakes.invoices := ⟨fun _ _ => rfl, fun _ _ _ => ⟨rfl, rfl⟩⟩
  have hpayload : ∀ r ∈ namesakes.log.rows,
      (sampleWorkspaceExternals.compactJSON r.payload.text).isSome = true := fun _ _ => rfl
  obtain ⟨sent, exported, hok⟩ :=
    assembleWorkspace_readable { subject := "system", now := 9 } hread hopen hpayload
  have hapart : SlugsApart namesakes.entities := by
    unfold SlugsApart
    decide +kernel
  obtain ⟨companies, files, h⟩ := workspace_whole _ _ _ hok hapart
  exact ⟨sent, exported, companies, files, hok, h⟩

end InvoiceOs.Archive
