import InvoiceOs.Archive.Download
import InvoiceOs.Archive.Placed

/-! The counts of an export's manifest, taken off the names of its entries, are the sizes of the
tables. -/

namespace InvoiceOs.Archive

open Lib

/-! ### Names and endings -/

theorem hasSuffix_iff {s tail : String} : hasSuffix s tail = true ↔ tail.toList <:+ s.toList :=
  List.isSuffixOf_iff_suffix

theorem hasPrefix_iff {s start : String} : hasPrefix s start = true ↔ start.toList <+: s.toList :=
  List.isPrefixOf_iff_prefix

theorem contains_iff {s part : String} : contains s part = true ↔ part.toList <:+: s.toList := by
  unfold contains
  rw [List.any_eq_true]
  constructor
  · rintro ⟨t, ht, hpre⟩
    obtain ⟨a, rfl⟩ := List.isPrefixOf_iff_prefix.mp hpre
    obtain ⟨b, hb⟩ := (List.mem_tails _ _).mp ht
    exact ⟨b, a, by rw [List.append_assoc]; exact hb⟩
  · rintro ⟨b, a, hs⟩
    refine ⟨part.toList ++ a, (List.mem_tails _ _).mpr ⟨b, ?_⟩,
      List.isPrefixOf_iff_prefix.mpr (List.prefix_append _ _)⟩
    rw [← List.append_assoc]
    exact hs

theorem not_suffix_append {a b t : List Char} (h : ¬ t <:+ b) (h' : ¬ b <:+ t) : ¬ t <:+ a ++ b := by
  intro ht
  rcases Nat.le_total t.length b.length with hlen | hlen
  · exact h (List.suffix_of_suffix_length_le ht (List.suffix_append a b) hlen)
  · exact h' (List.suffix_of_suffix_length_le (List.suffix_append a b) ht hlen)

theorem companyPath_toList (dir name : String) : (companyPath dir ++ name).toList =
    ("companies/" ++ dir).toList ++ ("/" ++ name).toList := by
  unfold companyPath
  simp only [String.toList_append, List.append_assoc]

theorem hasSuffix_csv (dir : String) {name tail : String} (hname : name ∈ csvNames)
    (htail : tail ∈ csvNames) :
    hasSuffix (companyPath dir ++ name) ("/" ++ tail) = decide (name = tail) := by
  have hends : ∀ n ∈ csvNames, ∀ t ∈ csvNames, n ≠ t →
      ("/" ++ t).toList.isSuffixOf ("/" ++ n).toList = false := by decide
  by_cases heq : name = tail
  · subst heq
    rw [decide_eq_true rfl, hasSuffix_iff, companyPath_toList]
    exact List.suffix_append _ _
  · rw [decide_eq_false heq, ← Bool.not_eq_true, hasSuffix_iff, companyPath_toList]
    refine not_suffix_append ?_ ?_
    · rw [← List.isSuffixOf_iff_suffix, hends name hname tail htail heq]
      exact Bool.false_ne_true
    · rw [← List.isSuffixOf_iff_suffix, hends tail htail name hname (Ne.symm heq)]
      exact Bool.false_ne_true

theorem hasSuffix_body (start : String) {ending tail : String}
    (hending : ending ∈ [".request", ".response"]) (htail : tail ∈ csvNames) :
    hasSuffix (start ++ ending) ("/" ++ tail) = false := by
  have hends : ∀ s ∈ [".request", ".response"], ∀ t ∈ csvNames,
      ("/" ++ t).toList.isSuffixOf s.toList = false ∧
        s.toList.isSuffixOf ("/" ++ t).toList = false := by decide
  obtain ⟨h, h'⟩ := hends ending hending tail htail
  have hsplit : (start ++ ending).toList = start.toList ++ ending.toList := String.toList_append
  rw [← Bool.not_eq_true, hasSuffix_iff, hsplit]
  refine not_suffix_append ?_ ?_
  · rw [← List.isSuffixOf_iff_suffix, h]
    exact Bool.false_ne_true
  · rw [← List.isSuffixOf_iff_suffix, h']
    exact Bool.false_ne_true

theorem hasSuffix_document (db : Workspace) {d : Document} (hd : d ∈ db.documents) {tail : String}
    (htail : tail ∈ csvNames) : hasSuffix (documentName d) ("/" ++ tail) = false := by
  have hshort : ∀ t ∈ csvNames, ("/" ++ t).toList.length ≤ 64 := by decide
  rw [← Bool.not_eq_true, hasSuffix_iff, documentName_toList]
  intro hsuffix
  have hlen : ("/" ++ tail).toList.length ≤
      (d.hash.toList ++ (documentExt d.filename).toList).length := by
    rw [List.length_append, db.hash_length d hd]
    exact (hshort tail htail).trans (Nat.le_add_right _ _)
  have hin := List.suffix_of_suffix_length_le hsuffix (List.suffix_append _ _) hlen
  refine slash_not_mem_documentName db hd (hin.subset ?_)
  rw [String.toList_append]
  exact List.mem_append_left _ (List.mem_singleton.mpr rfl)

theorem contains_document (db : Workspace) {d : Document} (hd : d ∈ db.documents) :
    contains (documentName d) "/bodies/" = false := by
  rw [← Bool.not_eq_true, contains_iff, documentName_toList]
  intro hmark
  have hcount := hmark.sublist.count_le '/'
  have hnone := List.count_eq_zero.mpr (slash_not_mem_documentName db hd)
  rw [List.count_append, hnone] at hcount
  exact absurd hcount (by decide)

/-! ### Counting entries -/

section
variable {x : WorkspaceExternals} {db : Workspace}

def WorkspaceCounts.addBundle (c : WorkspaceCounts) (b : ManifestCounts) : WorkspaceCounts :=
  { c with
    invoices := c.invoices + b.invoices
    lineItems := c.lineItems + b.lineItems
    statusTransitions := c.statusTransitions + b.statusTransitions
    submissions := c.submissions + b.submissions
    exchangeAttempts := c.exchangeAttempts + b.exchangeAttempts
    bodyFiles := c.bodyFiles + b.bodyFiles }

def ManifestCounts.add (b b' : ManifestCounts) : ManifestCounts where
  invoices := b.invoices + b'.invoices
  lineItems := b.lineItems + b'.lineItems
  statusTransitions := b.statusTransitions + b'.statusTransitions
  submissions := b.submissions + b'.submissions
  exchangeAttempts := b.exchangeAttempts + b'.exchangeAttempts
  bodyFiles := b.bodyFiles + b'.bodyFiles

theorem addBundle_addBundle (c : WorkspaceCounts) (b b' : ManifestCounts) :
    (c.addBundle b).addBundle b' = c.addBundle (b.add b') := by
  unfold WorkspaceCounts.addBundle ManifestCounts.add
  simp only [Nat.add_assoc]

theorem countEntry_csv (c : WorkspaceCounts) (dir : String) {name : String} (hname : name ∈ csvNames)
    (e : ManifestEntry) (he : e.name = companyPath dir ++ name) (n : ℕ) (hrows : e.rows = some n) :
    countEntry c e = c.addBundle {
      invoices := if name = "invoices.csv" then n else 0
      lineItems := if name = "line_items.csv" then n else 0
      statusTransitions := if name = "status_history.csv" then n else 0
      submissions := if name = "submissions.csv" then n else 0
      exchangeAttempts := if name = "exchange.csv" then n else 0 } := by
  have hends : ∀ tail ∈ csvNames, hasSuffix e.name ("/" ++ tail) = decide (name = tail) :=
    fun tail htail => by rw [he, hasSuffix_csv dir hname htail]
  have h₁ : hasSuffix e.name "/invoices.csv" = _ := hends "invoices.csv" (by decide)
  have h₂ : hasSuffix e.name "/line_items.csv" = _ := hends "line_items.csv" (by decide)
  have h₃ : hasSuffix e.name "/status_history.csv" = _ := hends "status_history.csv" (by decide)
  have h₄ : hasSuffix e.name "/submissions.csv" = _ := hends "submissions.csv" (by decide)
  have h₅ : hasSuffix e.name "/exchange.csv" = _ := hends "exchange.csv" (by decide)
  unfold countEntry WorkspaceCounts.addBundle
  rw [h₁, h₂, h₃, h₄, h₅, hrows]
  simp only [csvNames, List.mem_cons, List.not_mem_nil, or_false] at hname
  rcases hname with rfl | rfl | rfl | rfl | rfl <;> rfl

theorem countEntry_body (c : WorkspaceCounts) (dir : String) (u : Uuid) (ending : String)
    (hending : ending ∈ [".request", ".response"]) (e : ManifestEntry)
    (he : e.name = companyPath dir ++ ("bodies/" ++ u.text ++ ending)) :
    countEntry c e = c.addBundle { bodyFiles := 1 } := by
  have hends : ∀ tail ∈ csvNames, hasSuffix e.name ("/" ++ tail) = false := by
    intro tail htail
    have hsplit : companyPath dir ++ ("bodies/" ++ u.text ++ ending) =
        (companyPath dir ++ ("bodies/" ++ u.text)) ++ ending := by
      simp only [String.append_assoc]
    rw [he, hsplit, hasSuffix_body _ hending htail]
  have h₁ : hasSuffix e.name "/invoices.csv" = _ := hends "invoices.csv" (by decide)
  have h₂ : hasSuffix e.name "/line_items.csv" = _ := hends "line_items.csv" (by decide)
  have h₃ : hasSuffix e.name "/status_history.csv" = _ := hends "status_history.csv" (by decide)
  have h₄ : hasSuffix e.name "/submissions.csv" = _ := hends "submissions.csv" (by decide)
  have h₅ : hasSuffix e.name "/exchange.csv" = _ := hends "exchange.csv" (by decide)
  have hbodies : contains e.name "/bodies/" = true := by
    rw [he, contains_iff, companyPath_toList]
    refine ⟨("companies/" ++ dir).toList, (u.text ++ ending).toList, ?_⟩
    have hlit : "/bodies/".toList = "/".toList ++ "bodies/".toList := by decide
    rw [hlit]
    simp only [String.toList_append, List.append_assoc]
  unfold countEntry WorkspaceCounts.addBundle
  rw [h₁, h₂, h₃, h₄, h₅, hbodies]
  rfl

theorem countEntry_document (c : WorkspaceCounts) {d : Document} (hd : d ∈ db.documents)
    (e : ManifestEntry) (he : e.name = documentName d) :
    countEntry c e = { c with documents := c.documents + 1 } := by
  have hends : ∀ tail ∈ csvNames, hasSuffix e.name ("/" ++ tail) = false := fun tail htail => by
    rw [he, hasSuffix_document db hd htail]
  have h₁ : hasSuffix e.name "/invoices.csv" = _ := hends "invoices.csv" (by decide)
  have h₂ : hasSuffix e.name "/line_items.csv" = _ := hends "line_items.csv" (by decide)
  have h₃ : hasSuffix e.name "/status_history.csv" = _ := hends "status_history.csv" (by decide)
  have h₄ : hasSuffix e.name "/submissions.csv" = _ := hends "submissions.csv" (by decide)
  have h₅ : hasSuffix e.name "/exchange.csv" = _ := hends "exchange.csv" (by decide)
  have hno : contains e.name "/bodies/" = false := by rw [he, contains_document db hd]
  have hdocs : hasPrefix e.name "documents/" = true := by
    rw [he, hasPrefix_iff, documentName_toList]
    exact List.prefix_append _ _
  unfold countEntry
  rw [h₁, h₂, h₃, h₄, h₅, hno, hdocs]
  rfl

theorem foldl_bodies (c : WorkspaceCounts) (dir : String) (rows : List Exchange) :
    ((rows.flatMap (bodyFiles (companyPath dir))).map (File.describe x.toExternals)).foldl
      countEntry c = c.addBundle { bodyFiles := bodyCount rows } := by
  have hone : ∀ (e : Exchange) (c : WorkspaceCounts),
      ((bodyFiles (companyPath dir) e).map (File.describe x.toExternals)).foldl countEntry c =
        c.addBundle { bodyFiles := bodyCount [e] } := by
    intro e c
    have hreq : ∀ (b : String) (c : WorkspaceCounts), e.requestBody = some b →
        countEntry c ((⟨companyPath dir ++ requestBodyFile e, bytesOf b, none⟩ : File).describe
          x.toExternals) = c.addBundle { bodyFiles := 1 } := by
      intro b c hb
      refine countEntry_body c dir e.id ".request" (by decide) _ ?_
      unfold requestBodyFile
      rw [bodyFile_ne hb]
      rfl
    have hresp : ∀ (b : String) (c : WorkspaceCounts), e.responseBody = some b →
        countEntry c ((⟨companyPath dir ++ responseBodyFile e, bytesOf b, none⟩ : File).describe
          x.toExternals) = c.addBundle { bodyFiles := 1 } := by
      intro b c hb
      refine countEntry_body c dir e.id ".response" (by decide) _ ?_
      unfold responseBodyFile
      rw [bodyFile_ne hb]
      rfl
    unfold bodyFiles bodyCount
    rw [List.map_append, List.foldl_append]
    cases hq : e.requestBody with
    | none =>
      cases hp : e.responseBody with
      | none => simp [bodyFileOf, hq, hp, WorkspaceCounts.addBundle]
      | some b =>
        simp only [bodyFileOf, List.map_cons, List.map_nil, List.foldl_cons, List.foldl_nil,
          hresp b c hp]
        simp [hq, hp]
    | some a =>
      cases hp : e.responseBody with
      | none =>
        simp only [bodyFileOf, List.map_cons, List.map_nil, List.foldl_cons, List.foldl_nil,
          hreq a c hq]
        simp [hq, hp]
      | some b =>
        simp only [bodyFileOf, List.map_cons, List.map_nil, List.foldl_cons, List.foldl_nil,
          hreq a c hq, hresp b _ hp, addBundle_addBundle]
        simp [hq, hp, ManifestCounts.add]
  induction rows generalizing c with
  | nil => simp [bodyCount, WorkspaceCounts.addBundle]
  | cons e rows ih =>
    have hsplit : bodyCount (e :: rows) = bodyCount [e] + bodyCount rows := by
      unfold bodyCount
      simp only [List.countP_cons, List.countP_nil]
      omega
    rw [List.flatMap_cons, List.map_append, List.foldl_append, hone e c, ih, addBundle_addBundle,
      hsplit]
    rfl

theorem foldl_stageFiles (c : WorkspaceCounts) (dir : String) {ids : List Uuid} (hids : ids.Nodup)
    {invoices exchanges : List Record} (hinvoices : invoices.length = ids.length)
    (hexchanges : exchanges.length = (exchangeRows db.toSnapshot ids).length) :
    ((stageFiles x.toExternals db.toSnapshot (companyPath dir) ids invoices exchanges).map
      (File.describe x.toExternals)).foldl countEntry c =
        c.addBundle (bundleCounts db.toSnapshot ids) := by
  have hcsv : ∀ (c : WorkspaceCounts) (name : String) (header : Record) (records : List Record),
      name ∈ csvNames → countEntry c
        ((csvFile (companyPath dir ++ name) header records).describe x.toExternals) = c.addBundle {
          invoices := if name = "invoices.csv" then records.length else 0
          lineItems := if name = "line_items.csv" then records.length else 0
          statusTransitions := if name = "status_history.csv" then records.length else 0
          submissions := if name = "submissions.csv" then records.length else 0
          exchangeAttempts := if name = "exchange.csv" then records.length else 0 } :=
    fun c name header records hname => countEntry_csv c dir hname _ rfl _ rfl
  have hsubmissions := (submissionRows_rows db.toSnapshot hids).perm.length_eq
  have hrows := (exchangeRows_rows db.toSnapshot hids).perm
  unfold stageFiles
  simp only [List.map_append, List.foldl_append, List.map_cons, List.map_nil, List.foldl_cons,
    List.foldl_nil]
  rw [hcsv _ "invoices.csv" _ _ (by decide), hcsv _ "line_items.csv" _ _ (by decide),
    hcsv _ "status_history.csv" _ _ (by decide), hcsv _ "submissions.csv" _ _ (by decide),
    foldl_bodies, hcsv _ "exchange.csv" _ _ (by decide)]
  simp only [addBundle_addBundle]
  refine congrArg c.addBundle ?_
  unfold ManifestCounts.add bundleCounts
  rw [ManifestCounts.mk.injEq]
  simp only [List.length_map, hinvoices, hexchanges, bodyCount_perm hrows,
    length_under_lineItemRows, length_historyRows hids, String.reduceEq, if_true, if_false,
    Nat.zero_add, Nat.add_zero, true_and, hrows.length_eq]
  exact ⟨hsubmissions, trivial⟩

theorem foldl_documents (c : WorkspaceCounts) (body : Document → Bytes) {docs : List Document}
    (hdocs : ∀ d ∈ docs, d ∈ db.documents) :
    ((docs.map (documentFile body)).map (File.describe x.toExternals)).foldl countEntry c =
      { c with documents := c.documents + docs.length } := by
  induction docs generalizing c with
  | nil => rfl
  | cons d docs ih =>
    rw [List.map_cons, List.map_cons, List.foldl_cons,
      countEntry_document c (hdocs d List.mem_cons_self) _ rfl,
      ih _ fun d' hd' => hdocs d' (List.mem_cons_of_mem _ hd')]
    simp only [List.length_cons]
    rw [Nat.add_assoc, Nat.add_comm 1]

/-! ### The tables as a whole -/

theorem length_under_append {ρ : Type} (key : ρ → Uuid) (table : List ρ) {ids ids' : List Uuid}
    (h : (ids ++ ids').Nodup) :
    (under key table ids ++ under key table ids').Perm (under key table (ids ++ ids')) :=
  under_append_perm table h

theorem bundleCounts_append (db : Snapshot) {ids ids' : List Uuid} (h : (ids ++ ids').Nodup) :
    (bundleCounts db ids).add (bundleCounts db ids') = bundleCounts db (ids ++ ids') := by
  have hlen : ∀ {ρ : Type} (key : ρ → Uuid) (table : List ρ),
      (under key table ids).length + (under key table ids').length =
        (under key table (ids ++ ids')).length := by
    intro ρ key table
    rw [← List.length_append, (length_under_append key table h).length_eq]
  have hbodies : bodyCount (under Exchange.invoiceID db.exchanges ids) +
      bodyCount (under Exchange.invoiceID db.exchanges ids') =
        bodyCount (under Exchange.invoiceID db.exchanges (ids ++ ids')) := by
    rw [← bodyCount_perm (length_under_append Exchange.invoiceID db.exchanges h)]
    unfold bodyCount
    rw [List.countP_append, List.countP_append]
    omega
  unfold bundleCounts ManifestCounts.add
  simp only [hlen, hbodies, List.length_append]

theorem bundleCounts_perm (db : Snapshot) {ids ids' : List Uuid} (h : ids.Perm ids') :
    bundleCounts db ids = bundleCounts db ids' := by
  unfold bundleCounts
  simp only [h.length_eq, under_congr _ _ fun id => h.mem_iff]

theorem companyIDs_perm (db : Workspace) {cs : List Entity} (hcs : cs.Perm db.entities) :
    (cs.flatMap (companyIDs db)).Perm (db.invoices.map Invoice.id) := by
  have hids : (cs.map Entity.id).Nodup := (hcs.map _).nodup_iff.mpr db.entities_unique
  have hflat : (cs.map fun c => [c.id]).flatten = cs.map Entity.id := by
    rw [← List.flatMap_def, ← List.map_eq_flatMap]
  have hall : under Invoice.entityID db.invoices (cs.map Entity.id) = db.invoices := by
    refine List.filter_eq_self.mpr fun i hi => decide_eq_true ?_
    exact ((hcs.map _).mem_iff).mpr (db.invoice_entity i hi)
  have hparts : ((cs.map fun c => [c.id]).flatMap (under Invoice.entityID db.invoices)).Perm
      (under Invoice.entityID db.invoices (cs.map fun c => [c.id]).flatten) :=
    flatMap_under_perm db.invoices _ (by rw [hflat]; exact hids)
  rw [hflat, hall, List.flatMap_map] at hparts
  have hone : ∀ c : Entity, (companyIDs db c).Perm
      ((under Invoice.entityID db.invoices [c.id]).map Invoice.id) := by
    intro c
    have hscope : db.invoices.filter (inScope c.id (allTime c.id)) =
        under Invoice.entityID db.invoices [c.id] := by
      refine List.filter_congr fun i hi => ?_
      unfold inScope allTime
      simp [db.created_in_time i hi]
    unfold companyIDs scopeIDs scopeRows
    rw [hscope]
    exact (List.mergeSort_perm _ _).map _
  have hall' : ∀ l : List Entity, (l.flatMap (companyIDs db)).Perm
      ((l.flatMap fun c => under Invoice.entityID db.invoices [c.id]).map Invoice.id) := by
    intro l
    induction l with
    | nil => exact List.Perm.refl _
    | cons c l ih =>
      rw [List.flatMap_cons, List.flatMap_cons, List.map_append]
      exact (hone c).append ih
  exact (hall' cs).trans (hparts.map _)

def tableCounts (db : Workspace) : WorkspaceCounts where
  companies := db.entities.length
  invoices := db.invoices.length
  lineItems := db.lineItems.length
  statusTransitions := db.history.length
  submissions := db.submissions.length
  exchangeAttempts := db.exchanges.length
  bodyFiles := bodyCount db.exchanges
  documents := db.documents.length
  auditRows := db.log.rows.length

theorem bundleCounts_all (db : Workspace) :
    bundleCounts db.toSnapshot (db.invoices.map Invoice.id) = {
      invoices := db.invoices.length
      lineItems := db.lineItems.length
      statusTransitions := db.history.length
      submissions := db.submissions.length
      exchangeAttempts := db.exchanges.length
      bodyFiles := bodyCount db.exchanges } := by
  have hall : ∀ {ρ : Type} (key : ρ → Uuid) (table : List ρ),
      (∀ r ∈ table, key r ∈ db.invoices.map Invoice.id) →
        under key table (db.invoices.map Invoice.id) = table := fun key table h =>
    List.filter_eq_self.mpr fun r hr => decide_eq_true (h r hr)
  unfold bundleCounts
  rw [hall _ _ db.line_invoice, hall _ _ db.history_invoice, hall _ _ db.submission_invoice,
    hall _ _ db.exchange_invoice, List.length_map]

end
end InvoiceOs.Archive
