import InvoiceOs.Archive.Complete
import InvoiceOs.Archive.Workspace

/-! Where the files of an export stand: each company's under a directory of its own, the documents
under theirs, no two under one name. -/

namespace InvoiceOs.Archive

open Lib

/-! ### Directories -/

theorem toLower_slash {c : Char} (h : c.toLower = '/') : c = '/' := by
  unfold Char.toLower at h
  split at h
  · rename_i hc
    have hval := congrArg (fun d : Char => d.val.toNat) h
    have hlow : 65 ≤ c.val.toNat ∧ c.val.toNat ≤ 90 := ⟨UInt32.le_iff_toNat_le.mp hc.1,
      UInt32.le_iff_toNat_le.mp hc.2⟩
    have hsum : (c.val + ('a'.val - 'A'.val)).toNat = c.val.toNat + 32 := by
      rw [UInt32.toNat_add]
      exact Nat.mod_eq_of_lt (by show c.val.toNat + 32 < 2 ^ 32; omega)
    have hslash : ('/' : Char).val.toNat = 47 := rfl
    simp only [hsum, hslash] at hval
    omega
  · exact h

theorem slugRuns_chars {cs : List Char} {c : Char} (h : c ∈ slugRuns cs) :
    isAlnum c = true ∨ c = '-' := by
  induction cs with
  | nil => cases h
  | cons d cs ih =>
    unfold slugRuns at h
    split at h
    · rename_i hd
      rcases List.mem_cons.mp h with rfl | h
      · exact Or.inl hd
      · exact ih h
    · split at h
      · rename_i rest hrest
        rw [hrest] at ih
        exact ih h
      · rcases List.mem_cons.mp h with rfl | h
        · exact Or.inr rfl
        · exact ih h

theorem slash_not_mem_text (u : Uuid) : '/' ∉ u.text.toList := by
  intro h
  rw [Uuid.text_toList] at h
  unfold Uuid.chars at h
  have hgroup : ∀ n v, '/' ∉ hexGroup n v := by
    intro n v hm
    obtain ⟨d, hd, hc⟩ := hex_of_mem_hexGroup hm
    have hnone : ∀ d < 16, '/' ≠ Nat.digitChar d := by decide
    exact hnone d hd hc
  have hdash : '/' ≠ '-' := by decide
  simp only [List.mem_append, List.mem_cons, hgroup, hdash, or_self] at h

theorem slash_not_mem_slug (name : String) (id : Uuid) :
    '/' ∉ (entitySlug name id.text).toLower.toList := by
  have hslug : '/' ∉ (entitySlug name id.text).toList := by
    unfold entitySlug
    dsimp only
    split
    · exact slash_not_mem_text id
    · rw [String.toList_ofList]
      intro h
      obtain ⟨a, b, hsplit, -, -⟩ := exists_trim (fun c => decide (c = '-')) (slugRuns name.toList)
      have hmem : '/' ∈ slugRuns name.toList := by
        rw [hsplit]
        exact List.mem_append_left _ (List.mem_append_right _ (List.mem_of_mem_take h))
      rcases slugRuns_chars hmem with h | h
      · exact absurd h (by decide)
      · exact absurd h (by decide)
  intro h
  unfold String.toLower at h
  rw [String.toList_map] at h
  obtain ⟨c, hc, heq⟩ := List.mem_map.mp h
  exact hslug (toLower_slash heq ▸ hc)

theorem slash_not_mem_dir (name : String) (id : Uuid) (taken : List String) :
    '/' ∉ (companyDir name id taken).toList := by
  unfold companyDir
  dsimp only
  split
  · rw [String.toList_append, String.toList_append]
    intro h
    rcases List.mem_append.mp h with h | h
    · rcases List.mem_append.mp h with h | h
      · exact slash_not_mem_slug name id h
      · exact absurd h (by decide)
    · exact slash_not_mem_text id h
  · exact slash_not_mem_slug name id

def companySlug (c : Entity) : String := (entitySlug c.name c.id.text).toLower

/-- No company is named so that its slug is another's with that one's id behind it. -/
def SlugsApart (companies : List Entity) : Prop :=
  ∀ c ∈ companies, ∀ c' ∈ companies, companySlug c ≠ companySlug c' ++ "-" ++ c'.id.text

def companyDirs (taken : List String) : List Entity → List String
  | [] => []
  | c :: rest =>
    let dir := companyDir c.name c.id taken
    dir :: companyDirs (dir :: taken) rest

theorem companyDir_cases (c : Entity) (taken : List String) :
    (companySlug c ∉ taken ∧ companyDir c.name c.id taken = companySlug c) ∨
      (companySlug c ∈ taken ∧
        companyDir c.name c.id taken = companySlug c ++ "-" ++ c.id.text) := by
  unfold companyDir
  by_cases h : companySlug c ∈ taken
  · exact Or.inr ⟨h, if_pos h⟩
  · exact Or.inl ⟨h, if_neg h⟩

theorem slash_not_mem_companyDirs {taken : List String} {companies : List Entity} {dir : String}
    (h : dir ∈ companyDirs taken companies) : '/' ∉ dir.toList := by
  induction companies generalizing taken with
  | nil => cases h
  | cons c rest ih =>
    rcases List.mem_cons.mp h with rfl | h
    · exact slash_not_mem_dir c.name c.id taken
    · exact ih h

theorem companyDirs_fresh {taken : List String} {companies before : List Entity}
    (hapart : SlugsApart (before ++ companies))
    (hids : ((before ++ companies).map Entity.id).Nodup)
    (htaken : ∀ dir ∈ taken, ∃ c ∈ before, dir = companySlug c ∨ dir = companySlug c ++ "-" ++ c.id.text)
    (hnodup : taken.Nodup) :
    ((companyDirs taken companies).reverse ++ taken).Nodup := by
  induction companies generalizing taken before with
  | nil => simpa [companyDirs] using hnodup
  | cons c rest ih =>
    have hdir : companyDir c.name c.id taken ∉ taken := by
      rcases companyDir_cases c taken with ⟨hnot, heq⟩ | ⟨-, heq⟩
      · rwa [heq]
      · rw [heq]
        intro hmem
        obtain ⟨c', hc', hsame | hsame⟩ := htaken _ hmem
        · exact hapart c' (List.mem_append_left _ hc') c
            (List.mem_append_right _ List.mem_cons_self) hsame.symm
        · have hlist := congrArg String.toList hsame
          simp only [String.toList_append] at hlist
          have hid := (List.append_inj' hlist (by rw [length_text, length_text])).2
          have heqid : c.id = c'.id := text_injective (String.ext_iff.mpr hid)
          rw [List.map_append, List.map_cons] at hids
          exact (List.nodup_append.mp hids).2.2 _ (List.mem_map_of_mem hc') _ List.mem_cons_self
            heqid.symm
    have hmove : before ++ c :: rest = (before ++ [c]) ++ rest := by simp
    rw [hmove] at hapart hids
    have hnext : ∀ dir ∈ companyDir c.name c.id taken :: taken, ∃ c' ∈ before ++ [c],
        dir = companySlug c' ∨ dir = companySlug c' ++ "-" ++ c'.id.text := by
      intro dir hmem
      rcases List.mem_cons.mp hmem with rfl | hmem
      · refine ⟨c, by simp, ?_⟩
        rcases companyDir_cases c taken with ⟨-, h⟩ | ⟨-, h⟩
        · exact Or.inl h
        · exact Or.inr h
      · obtain ⟨c', hc', h⟩ := htaken _ hmem
        exact ⟨c', List.mem_append_left _ hc', h⟩
    simpa [companyDirs] using ih hapart hids hnext (List.nodup_cons.mpr ⟨hdir, hnodup⟩)

theorem companyDirs_nodup {companies : List Entity} (hapart : SlugsApart companies)
    (hids : (companies.map Entity.id).Nodup) : (companyDirs [] companies).Nodup := by
  have hapart' : SlugsApart ([] ++ companies) := hapart
  have h : ((companyDirs [] companies).reverse ++ []).Nodup :=
    companyDirs_fresh hapart' hids nofun List.nodup_nil
  rwa [List.append_nil, List.nodup_reverse] at h

/-! ### The files of the companies -/

structure Placed where
  company : Entity
  dir : String
  files : List File

def Placed.toCompany (p : Placed) : WorkspaceCompany :=
  { id := p.company.id, name := p.company.name, tin := p.company.tin, dir := p.dir }

section
variable {x : WorkspaceExternals} {db : Workspace}

def companyIDs (db : Workspace) (c : Entity) : List Uuid :=
  scopeIDs db.toSnapshot c.id (allTime c.id)

def Placed.Written (x : WorkspaceExternals) (db : Workspace) (p : Placed) : Prop :=
  ∃ invoices exchanges,
    List.Forall₂ (fun i record => invoiceRecord x.toExternals db.toSnapshot i = .ok record)
      (scopeRows db.toSnapshot p.company.id (allTime p.company.id)) invoices ∧
    List.Forall₂ (fun e record => scrubbedRecord x.toExternals
        (invoiceNumbers db.toSnapshot (companyIDs db p.company)) e = some record)
      (exchangeRows db.toSnapshot (companyIDs db p.company)) exchanges ∧
    p.files = stageFiles x.toExternals db.toSnapshot (companyPath p.dir) (companyIDs db p.company)
      invoices exchanges

theorem writeCompanies_ok {taken : List String} {bw bw' : BundleWriter} {cs : List Entity}
    {companies : List WorkspaceCompany} (h : writeCompanies x db taken bw cs = .ok (bw', companies)) :
    ∃ placed : List Placed, placed.map Placed.company = cs ∧
      placed.map Placed.dir = companyDirs taken cs ∧ (∀ p ∈ placed, p.Written x db) ∧
      companies = placed.map Placed.toCompany ∧
      bw' = bw.createAll x.toExternals (placed.flatMap Placed.files) := by
  induction cs generalizing taken bw bw' companies with
  | nil =>
    obtain ⟨rfl, rfl⟩ := Prod.mk.inj (Except.ok.inj h)
    exact ⟨[], rfl, rfl, nofun, rfl, (BundleWriter.createAll_nil _ _).symm⟩
  | cons c cs ih =>
    rw [writeCompanies] at h
    cases hone : writeEntityStages x.toExternals db.toSnapshot
        (companyPath (companyDir c.name c.id taken)) (allTime c.id) bw with
    | error failed =>
      simp only [hone, bind, Except.bind] at h
      cases h
    | ok bw₁ =>
      cases hrest : writeCompanies x db (companyDir c.name c.id taken :: taken) bw₁ cs with
      | error failed =>
        simp only [hone, hrest, bind, Except.bind] at h
        cases h
      | ok out =>
        simp only [hone, hrest, bind, Except.bind, pure, Except.pure, Except.ok.injEq] at h
        obtain ⟨rfl, rfl⟩ := Prod.mk.inj h
        obtain ⟨canonical, invoices, exchanges, hc, hall, hscrub, hbw⟩ := writeEntityStages_ok.mp hone
        obtain rfl := Option.some.inj ((x.uuidParse_text c.id).symm.trans hc)
        obtain ⟨placed, hcompany, hdirs, hwritten, hcompanies, hout⟩ := ih hrest
        refine ⟨{
          company := c
          dir := companyDir c.name c.id taken
          files := stageFiles x.toExternals db.toSnapshot (companyPath (companyDir c.name c.id taken))
            (companyIDs db c) invoices exchanges } :: placed, ?_, ?_, ?_, ?_, ?_⟩
        · rw [List.map_cons, hcompany]
        · rw [List.map_cons, hdirs]
          rfl
        · intro p hp
          rcases List.mem_cons.mp hp with rfl | hp
          · exact ⟨invoices, exchanges, hall, hscrub, rfl⟩
          · exact hwritten p hp
        · rw [hcompanies]
          rfl
        · rw [hout, hbw, BundleWriter.createAll_createAll]
          rfl

theorem companyIDs_nodup (db : Workspace) (c : Entity) : (companyIDs db c).Nodup :=
  scopeIDs_nodup _ _ _

theorem Placed.Written.name {p : Placed} (h : p.Written x db) {f : File} (hf : f ∈ p.files) :
    ∃ rest : String, f.name = companyPath p.dir ++ rest := by
  obtain ⟨invoices, exchanges, -, -, hfiles⟩ := h
  rw [hfiles] at hf
  rcases mem_stageFiles hf with ⟨name, -, heq⟩ | ⟨e, -, hf⟩
  · exact ⟨name, heq⟩
  · rcases mem_bodyFiles.mp hf with ⟨b, -, rfl⟩ | ⟨b, -, rfl⟩
    · exact ⟨_, rfl⟩
    · exact ⟨_, rfl⟩

theorem Placed.Written.nodup {p : Placed} (h : p.Written x db) : (p.files.map File.name).Nodup := by
  obtain ⟨invoices, exchanges, -, -, hfiles⟩ := h
  rw [hfiles]
  exact names_stageFiles _ (companyIDs_nodup db p.company) _ _

theorem companyPath_inj {dir dir' rest rest' : String} (hdir : '/' ∉ dir.toList)
    (hdir' : '/' ∉ dir'.toList) (h : companyPath dir ++ rest = companyPath dir' ++ rest') :
    dir = dir' := by
  have hlist := congrArg String.toList h
  unfold companyPath at hlist
  simp only [String.toList_append, List.append_assoc] at hlist
  have htail := List.append_cancel_left hlist
  have hslash : ∀ t : List Char, "/".toList ++ t = '/' :: t := fun t => rfl
  rw [hslash, hslash] at htail
  exact String.ext_iff.mpr (append_sep_inj hdir hdir' htail).1

theorem companies_names_nodup {placed : List Placed} (hwritten : ∀ p ∈ placed, p.Written x db)
    (hdirs : (placed.map Placed.dir).Nodup) (hslash : ∀ p ∈ placed, '/' ∉ p.dir.toList) :
    ((placed.flatMap Placed.files).map File.name).Nodup := by
  induction placed with
  | nil => exact List.nodup_nil
  | cons p placed ih =>
    obtain ⟨hnot, hrest⟩ := List.nodup_cons.mp hdirs
    rw [List.flatMap_cons, List.map_append]
    refine List.nodup_append.mpr ⟨(hwritten p List.mem_cons_self).nodup,
      ih (fun p' hp' => hwritten p' (List.mem_cons_of_mem _ hp')) hrest
        fun p' hp' => hslash p' (List.mem_cons_of_mem _ hp'), ?_⟩
    intro name hname name' hname' heq
    obtain ⟨f, hf, rfl⟩ := List.mem_map.mp hname
    obtain ⟨f', hf', rfl⟩ := List.mem_map.mp hname'
    obtain ⟨p', hp', hf'⟩ := List.mem_flatMap.mp hf'
    obtain ⟨rest, hrest⟩ := (hwritten p List.mem_cons_self).name hf
    obtain ⟨rest', hrest'⟩ := (hwritten p' (List.mem_cons_of_mem _ hp')).name hf'
    have hsame := companyPath_inj (hslash p List.mem_cons_self)
      (hslash p' (List.mem_cons_of_mem _ hp')) (hrest.symm.trans (heq.trans hrest'))
    exact hnot (List.mem_map.mpr ⟨p', hp', hsame.symm⟩)

/-! ### Documents -/

theorem documentExt_alnum {filename : Option String} {c : Char}
    (h : c ∈ (documentExt filename).toList) : c ≠ '/' := by
  unfold documentExt at h
  split at h
  · cases h
  · dsimp only at h
    split at h
    · rename_i hext
      rw [String.toList_append] at h
      rcases List.mem_append.mp h with h | h
      · have hdot : c = '.' := by simpa using h
        rw [hdot]
        decide
      · simp only [Bool.and_eq_true, List.all_eq_true] at hext
        unfold String.toLower at h
        rw [String.toList_map, String.toList_ofList] at h
        obtain ⟨d, hd, rfl⟩ := List.mem_map.mp h
        intro hslash
        have halnum := hext.2 d hd
        rw [toLower_slash hslash] at halnum
        exact absurd halnum (by decide)
    · cases h

theorem slash_not_mem_documentName (db : Workspace) {d : Document} (hd : d ∈ db.documents) :
    '/' ∉ d.hash.toList ++ (documentExt d.filename).toList := by
  intro h
  rcases List.mem_append.mp h with h | h
  · exact absurd (db.hash_hex d hd _ h) (by decide)
  · exact documentExt_alnum h rfl

theorem documentName_toList (d : Document) : (documentName d).toList =
    "documents/".toList ++ (d.hash.toList ++ (documentExt d.filename).toList) := by
  unfold documentName
  simp only [String.toList_append, List.append_assoc]

theorem documentName_inj (db : Workspace) {d d' : Document} (hd : d ∈ db.documents)
    (hd' : d' ∈ db.documents) (h : documentName d = documentName d') : d = d' := by
  have hlist := congrArg String.toList h
  rw [documentName_toList, documentName_toList] at hlist
  have hhash := (List.append_inj (List.append_cancel_left hlist)
    (by rw [db.hash_length d hd, db.hash_length d' hd'])).1
  exact List.inj_on_of_nodup_map db.hashes_unique hd hd' (String.ext_iff.mpr hhash)

def documentFile (body : Document → Bytes) (d : Document) : File :=
  { name := documentName d, content := body d, rows := none }

theorem writeDocuments_ok {bw bw' : BundleWriter} {docs : List Document}
    (h : writeDocuments x bw docs = .ok bw') :
    (∀ d ∈ docs, (x.openObject d.storageKey).isSome = true) ∧
      bw' = bw.createAll x.toExternals
        (docs.map (documentFile fun d => (x.openObject d.storageKey).getD [])) := by
  induction docs generalizing bw with
  | nil =>
    obtain rfl := Except.ok.inj h
    exact ⟨nofun, (BundleWriter.createAll_nil _ _).symm⟩
  | cons d docs ih =>
    rw [writeDocuments] at h
    unfold writeDocument at h
    cases hopen : x.openObject d.storageKey with
    | none =>
      simp only [hopen, throw, throwThe, MonadExceptOf.throw, bind, Except.bind] at h
      cases h
    | some body =>
      simp only [hopen, pure, Except.pure, bind, Except.bind] at h
      obtain ⟨hall, hbw⟩ := ih h
      refine ⟨fun d' hd' => ?_, ?_⟩
      · rcases List.mem_cons.mp hd' with rfl | hd'
        · rw [hopen]
          rfl
        · exact hall d' hd'
      · have hfile : bw.writeBody x.toExternals (documentName d) body = bw.createAll x.toExternals
            [documentFile (fun d => (x.openObject d.storageKey).getD []) d] := by
          unfold documentFile
          dsimp only
          rw [hopen]
          rfl
        rw [hbw, hfile, BundleWriter.createAll_createAll]
        rfl

theorem documentPages_eq (db : Workspace) : (documentPages db).flatten =
    db.documents.mergeSort (byTime Document.createdAt Document.id) :=
  pages_flatten _
    (fun _ hd _ hd' h h' => List.inj_on_of_nodup_map db.documents_unique hd hd'
      (id_of_byTime_ties h h'))
    (List.Nodup.of_map _ db.documents_unique) _

theorem exportPages_eq (db : Workspace) : (exportPages db).flatten =
    db.log.rows.mergeSort Audit.pageOrder :=
  pages_flatten _
    (fun _ hr _ hr' h h' => List.inj_on_of_nodup_map db.log.unique hr hr'
      (Audit.pageOrder_ties h h'))
    (List.Nodup.of_map _ db.log.unique) _

end
end InvoiceOs.Archive
