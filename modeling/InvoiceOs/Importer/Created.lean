import InvoiceOs.Importer.Rows

/-! What the create call makes of a ready group, and what the loop over the groups leaves. -/

namespace InvoiceOs.Importer

open Lib Invoice Approval

/-! ### The columns -/

section
variable {x : Externals}

theorem error_storeNumeric {scale : ℕ} {v : String} {e : CreateErr}
    (h : storeNumeric x scale v = .error e) : e = .validation := by
  unfold storeNumeric at h
  split at h
  · split at h
    · exact (Except.error.inj h).symm
    · split at h
      · exact (Except.error.inj h).symm
      · cases h
  · split at h
    · exact (Except.error.inj h).symm
    · cases h

theorem error_bind {α β : Type} {f : Except CreateErr α} {k : α → Except CreateErr β}
    {e : CreateErr} (h : (f >>= k) = .error e) :
    f = .error e ∨ ∃ a, f = .ok a ∧ k a = .error e := by
  cases f with
  | error e' => exact Or.inl (congrArg _ (Except.error.inj h))
  | ok a => exact Or.inr ⟨a, rfl, h⟩

theorem error_storeAmount {scale : ℕ} {v : Option String} {e : CreateErr}
    (h : storeAmount x scale v = .error e) : e = .validation := by
  cases v with
  | none => cases h
  | some v =>
    rcases error_bind h with h | ⟨n, -, h⟩
    · exact error_storeNumeric h
    · cases h

theorem error_storeTexts {texts : List (Option String)} {e : CreateErr}
    (h : storeTexts texts = .error e) : e = .validation := by
  unfold storeTexts at h
  split at h
  · exact (Except.error.inj h).symm
  · cases h

theorem error_storeContent {c : Content} {e : CreateErr} (h : storeContent x c = .error e) :
    e = .validation := by
  rcases error_bind h with h | ⟨-, -, h⟩
  · exact error_storeTexts h
  rcases error_bind h with h | ⟨_, -, h⟩
  · exact error_storeAmount h
  rcases error_bind h with h | ⟨_, -, h⟩
  · exact error_storeAmount h
  rcases error_bind h with h | ⟨_, -, h⟩
  · exact error_storeAmount h
  · cases h

theorem error_storeLine {li : LineItemInput} {e : CreateErr} (h : storeLine x li = .error e) :
    e = .validation := by
  rcases error_bind h with h | ⟨-, -, h⟩
  · exact error_storeTexts h
  rcases error_bind h with h | ⟨_, -, h⟩
  · exact error_storeAmount h
  rcases error_bind h with h | ⟨_, -, h⟩
  · exact error_storeAmount h
  rcases error_bind h with h | ⟨_, -, h⟩
  · exact error_storeAmount h
  rcases error_bind h with h | ⟨_, -, h⟩
  · exact error_storeAmount h
  rcases error_bind h with h | ⟨_, -, h⟩
  · exact error_storeAmount h
  rcases error_bind h with h | ⟨_, -, h⟩
  · exact error_storeAmount h
  · cases h

theorem error_storeLines {lines : List LineItemInput} {e : CreateErr}
    (h : lines.mapM (storeLine x) = .error e) : e = .validation := by
  induction lines with
  | nil => cases h
  | cons li lines ih =>
    rw [List.mapM_cons] at h
    rcases error_bind h with h | ⟨_, -, h⟩
    · exact error_storeLine h
    rcases error_bind h with h | ⟨_, -, h⟩
    · exact ih h
    · cases h

structure Content.Same (c c' : Content) : Prop where
  entityID : c'.entityID = c.entityID
  invoiceNumber : c'.invoiceNumber = c.invoiceNumber
  buyerTIN : c'.buyerTIN = c.buyerTIN
  importBatchID : c'.importBatchID = c.importBatchID
  sourceDocumentID : c'.sourceDocumentID = c.sourceDocumentID
  sourceRows : c'.sourceRows = c.sourceRows
  nrs : c'.nrs = c.nrs

theorem storeContent_same {c c' : Content} (h : storeContent x c = .ok c') : c.Same c' := by
  unfold storeContent at h
  simp only [bind_eq_ok, pure_eq_ok] at h
  obtain ⟨-, -, subtotal, -, vat, -, total, -, rfl⟩ := h
  exact ⟨rfl, rfl, rfl, rfl, rfl, rfl, rfl⟩

theorem forall₂_storeLines {lines stored : List LineItemInput}
    (h : lines.mapM (storeLine x) = .ok stored) :
    List.Forall₂ (fun li li' => storeLine x li = .ok li') lines stored := by
  induction lines generalizing stored with
  | nil =>
    cases h
    exact List.Forall₂.nil
  | cons li lines ih =>
    rw [List.mapM_cons] at h
    simp only [bind_eq_ok, pure_eq_ok] at h
    obtain ⟨li', hli, rest, hrest, rfl⟩ := h
    exact List.Forall₂.cons hli (ih hrest)

end

/-! ### The directory -/

def fileable (x : Externals) (db : Db) (row : Customers.InvoiceRow) : Bool :=
  row.tin.all fun tin => (db.customers.get? tin).isSome || x.customers.indexable tin

/-- The tables a create reads have only grown, the directory by TINs the index has room for. -/
structure Db.Grown (x : Externals) (db db' : Db) : Prop where
  entities : db'.entities = db.entities
  documents : db'.documents = db.documents
  kept : ∀ tin, (db.customers.get? tin).isSome = true → (db'.customers.get? tin).isSome = true
  filed : ∀ tin, (db'.customers.get? tin).isSome = true →
    (db.customers.get? tin).isSome = true ∨ x.customers.indexable tin = true

section
variable {x : Externals} {db db' db'' : Db}

theorem Db.Grown.refl (x : Externals) (db : Db) : db.Grown x db :=
  ⟨rfl, rfl, fun _ h => h, fun _ h => Or.inl h⟩

theorem Db.Grown.trans (h : db.Grown x db') (h' : db'.Grown x db'') : db.Grown x db'' := by
  refine ⟨h'.entities.trans h.entities, h'.documents.trans h.documents,
    fun tin htin => h'.kept tin (h.kept tin htin), fun tin htin => ?_⟩
  rcases h'.filed tin htin with hold | hroom
  · exact h.filed tin hold
  · exact Or.inr hroom

theorem Db.Grown.fileable (h : db.Grown x db') (row : Customers.InvoiceRow) :
    fileable x db' row = fileable x db row := by
  unfold Importer.fileable
  cases row.tin with
  | none => rfl
  | some tin =>
    rw [Option.all_some, Option.all_some, Bool.eq_iff_iff, Bool.or_eq_true, Bool.or_eq_true]
    constructor
    · rintro (hold | hroom)
      · exact h.filed tin hold
      · exact Or.inr hroom
    · rintro (hold | hroom)
      · exact Or.inl (h.kept tin hold)
      · exact Or.inr hroom

theorem fillCustomers_ok {row : Customers.InvoiceRow} (newID : Uuid)
    (h : fileable x db row = true) :
    ∃ customers, fillCustomers x db row newID = .ok { db with customers := customers } ∧
      db.Grown x { db with customers := customers } := by
  unfold fillCustomers
  cases htin : row.tin with
  | none => exact ⟨db.customers, rfl, Db.Grown.refl x db⟩
  | some tin =>
    dsimp only
    unfold Customers.upsert
    dsimp only
    cases hc : db.customers.get? tin with
    | some c =>
      refine ⟨_, rfl, rfl, rfl, fun t ht => ?_, fun t ht => ?_⟩
      · by_cases hsame : t = tin
        · rw [hsame]
          simp [Customers.Db.filed]
        · simpa [Customers.Db.filed, Table.get?_set_of_ne _ _ hsame] using ht
      · by_cases hsame : t = tin
        · rw [hsame, hc]
          exact Or.inl rfl
        · left
          simpa [Customers.Db.filed, Table.get?_set_of_ne _ _ hsame] using ht
    | none =>
      have hroom : x.customers.indexable tin = true := by
        simpa [fileable, htin, hc] using h
      simp only [hroom, not_true_eq_false, if_false]
      refine ⟨_, rfl, rfl, rfl, fun t ht => ?_, fun t ht => ?_⟩
      · by_cases hsame : t = tin
        · rw [hsame]
          simp [Customers.Db.filed]
        · simpa [Customers.Db.filed, Table.get?_set_of_ne _ _ hsame] using ht
      · by_cases hsame : t = tin
        · exact Or.inr (hsame ▸ hroom)
        · left
          simpa [Customers.Db.filed, Table.get?_set_of_ne _ _ hsame] using ht

theorem fillCustomers_error {row : Customers.InvoiceRow} (newID : Uuid)
    (h : fileable x db row = false) : fillCustomers x db row newID = .error .database := by
  unfold fillCustomers
  cases htin : row.tin with
  | none => simp [fileable, htin] at h
  | some tin =>
    simp only [fileable, htin, Option.all_some, Bool.or_eq_false_iff] at h
    have hc : db.customers.get? tin = none := by simpa using h.1
    have hroom : ¬ x.customers.indexable tin = true := Bool.eq_false_iff.mp h.2
    dsimp only
    unfold Customers.upsert
    simp only [hc, hroom]
    rfl

end

/-! ### One create -/

section
variable (x : Externals)

def refusal (db : Db) (input : CreateInput) : Option CreateErr :=
  match storeContent x input.toContent with
  | .error e => some e
  | .ok content =>
    if x.numberIndexable input.invoiceNumber = false ∨
        fileable x db (customerRow 0 content) = false then
      some .database
    else
      match input.lineItems.mapM (storeLine x) with
      | .error e => some e
      | .ok _ => none

structure CreatedFrom (ids : Ids) (input : CreateInput) (row : InvoiceRow) : Prop where
  content : input.toContent.Same row.toContent
  id : row.id = ids.invoice input.invoiceNumber
  lines : ∃ stored, List.Forall₂ (fun li li' => storeLine x li = .ok li') input.lineItems stored ∧
    row.lineItems = replaceLines stored

structure Creatable (db : Db) (input : CreateInput) : Prop where
  named : input.invoiceNumber ≠ ""
  entity : (db.entities.find? fun e => e.id == input.entityID).isSome = true
  document : ∀ d, input.sourceDocumentID = some d → d ∈ db.documents
  free : db.findNumber input.entityID input.invoiceNumber = none

variable {x}

theorem Db.Grown.refusal {db db' : Db} (h : db.Grown x db') (input : CreateInput) :
    refusal x db' input = refusal x db input := by
  unfold Importer.refusal
  cases storeContent x input.toContent with
  | error e => rfl
  | ok content => simp only [h.fileable]

theorem refusal_cases {db : Db} {input : CreateInput} {e : CreateErr}
    (h : refusal x db input = some e) : e = .validation ∨ e = .database := by
  unfold refusal at h
  split at h
  · rename_i hcontent
    exact Or.inl (Option.some.inj h ▸ error_storeContent hcontent)
  · split at h
    · exact Or.inr (Option.some.inj h).symm
    · split at h
      · rename_i hlines
        exact Or.inl (Option.some.inj h ▸ error_storeLines hlines)
      · cases h

variable {ids : Ids} {db : Db} {input : CreateInput}

theorem Creatable.document_any (h : Creatable db input) :
    (input.sourceDocumentID.any fun d => d ∉ db.documents) = false := by
  cases hd : input.sourceDocumentID with
  | none => rfl
  | some d => simpa using h.document d hd

theorem create_eq (h : Creatable db input) {content : Content}
    (hcontent : storeContent x input.toContent = .ok content)
    (hnumber : x.numberIndexable input.invoiceNumber = true) :
    create x ids db input = insertRows x ids db input content := by
  have hentity : (db.entities.find? fun e => e.id == input.entityID).isNone = false := by
    simpa using h.entity
  unfold create
  simp only [if_neg h.named, hentity, hcontent, h.document_any, h.free, hnumber, Option.isSome_none,
    Bool.false_eq_true, Bool.true_eq_false, if_false]

variable (ids) in
theorem create_error (h : Creatable db input) {e : CreateErr}
    (hrefusal : refusal x db input = some e) : create x ids db input = .error e := by
  have hentity : (db.entities.find? fun e => e.id == input.entityID).isNone = false := by
    simpa using h.entity
  unfold refusal at hrefusal
  cases hcontent : storeContent x input.toContent with
  | error e' =>
    simp only [hcontent, Option.some.injEq] at hrefusal
    unfold create
    simp only [if_neg h.named, hentity, hcontent, Bool.false_eq_true, if_false, hrefusal]
    rfl
  | ok content =>
    simp only [hcontent] at hrefusal
    cases hnumber : x.numberIndexable input.invoiceNumber with
    | false =>
      simp only [hnumber, true_or, if_true, Option.some.injEq] at hrefusal
      unfold create
      simp only [if_neg h.named, hentity, hcontent, h.document_any, h.free, hnumber,
        Option.isSome_none, Bool.false_eq_true, if_false, if_true, ← hrefusal]
      rfl
    | true =>
      rw [create_eq h hcontent hnumber]
      unfold insertRows
      simp only [hnumber, Bool.true_eq_false, false_or] at hrefusal
      cases hroom : fileable x db (customerRow 0 content) with
      | false =>
        simp only [hroom, if_true, Option.some.injEq] at hrefusal
        have hfill : fillCustomers x db (customerRow (ids.invoice input.invoiceNumber) content)
            (ids.customer input.invoiceNumber) = .error .database := fillCustomers_error _ hroom
        simp only [hfill, ← hrefusal]
        rfl
      | true =>
        obtain ⟨customers, hfill, -⟩ := fillCustomers_ok (ids.customer input.invoiceNumber) hroom
        simp only [hroom, Bool.true_eq_false, if_false] at hrefusal
        have hfill' : fillCustomers x db (customerRow (ids.invoice input.invoiceNumber) content)
            (ids.customer input.invoiceNumber) = .ok { db with customers := customers } := hfill
        simp only [hfill']
        cases hlines : input.lineItems.mapM (storeLine x) with
        | error e' =>
          simp only [hlines, Option.some.injEq] at hrefusal
          rw [hrefusal]
          rfl
        | ok stored =>
          simp only [hlines] at hrefusal
          cases hrefusal

variable (ids) in
theorem create_ok (h : Creatable db input) (hrefusal : refusal x db input = none) :
    ∃ db' row, create x ids db input = .ok (db', row) ∧ CreatedFrom x ids input row ∧
      db.Grown x db' ∧ db'.invoices = row :: db.invoices ∧ db'.batches = db.batches := by
  unfold refusal at hrefusal
  cases hcontent : storeContent x input.toContent with
  | error e' =>
    simp only [hcontent] at hrefusal
    cases hrefusal
  | ok content =>
    simp only [hcontent] at hrefusal
    split at hrefusal
    · cases hrefusal
    · rename_i hroom
      obtain ⟨hnumber, hroom⟩ := not_or.mp hroom
      rw [create_eq h hcontent (Bool.not_eq_false _ ▸ hnumber)]
      cases hlines : input.lineItems.mapM (storeLine x) with
      | error e' =>
        simp only [hlines] at hrefusal
        cases hrefusal
      | ok stored =>
        obtain ⟨customers, hfill, hgrown⟩ :=
          fillCustomers_ok (ids.customer input.invoiceNumber) (Bool.not_eq_false _ ▸ hroom)
        have hfill' : fillCustomers x db (customerRow (ids.invoice input.invoiceNumber) content)
            (ids.customer input.invoiceNumber) = .ok { db with customers := customers } := hfill
        unfold insertRows
        simp only [hfill', hlines]
        refine ⟨_, _, rfl, ⟨?_, rfl, stored, forall₂_storeLines hlines, rfl⟩, ?_, rfl, rfl⟩
        · exact storeContent_same hcontent
        · exact ⟨hgrown.entities, hgrown.documents, hgrown.kept, hgrown.filed⟩

end

/-! ### The loop -/

section
variable {x : Externals} {ids : Ids} {cols : Columns} {req : Request} {e : Entity} {batchID : Uuid}

variable (cols req e batchID) in
def inputOf (g : InvoiceGroup) : CreateInput :=
  buildCreateInput cols req e g (some batchID) req.documentID

variable (x cols req e batchID) in
def refusedError (db : Db) (g : InvoiceGroup) : Option RowError :=
  (refusal x db (inputOf cols req e batchID g)).map fun err =>
    createRowError cols req g err ((domainCreateErrorMessage err).getD "")

variable (x cols req e batchID) in
def stored (db : Db) (g : InvoiceGroup) : Bool := (refusal x db (inputOf cols req e batchID g)).isNone

theorem Db.findNumber_cons {db : Db} {row : InvoiceRow} {rest : List InvoiceRow}
    (h : db.invoices = row :: rest) {entityID : Uuid} {number : String}
    (hne : row.invoiceNumber ≠ number) :
    db.findNumber entityID number =
      (rest.find? fun r => r.entityID == entityID && r.invoiceNumber == number).map InvoiceRow.id := by
  have hfalse : (row.entityID == entityID && row.invoiceNumber == number) = false := by
    simp [hne]
  unfold Db.findNumber
  rw [h, List.find?_cons_of_neg (by simpa using hfalse)]

structure Startable (req : Request) (db : Db) (groups : List InvoiceGroup) : Prop where
  nodup : (groups.map InvoiceGroup.number).Nodup
  named : ∀ g ∈ groups, g.number ≠ ""
  entity : (db.entities.find? fun e => e.id == req.entityID).isSome = true
  document : ∀ d, req.documentID = some d → d ∈ db.documents
  free : ∀ g ∈ groups, db.findNumber req.entityID g.number = none

variable (cols e batchID) in
theorem Startable.creatable {db : Db} {groups : List InvoiceGroup} (h : Startable req db groups)
    {g : InvoiceGroup} (hg : g ∈ groups) : Creatable db (inputOf cols req e batchID g) :=
  ⟨h.named g hg, h.entity, h.document, h.free g hg⟩

theorem Startable.tail {db : Db} {g : InvoiceGroup} {groups : List InvoiceGroup}
    (h : Startable req db (g :: groups)) : Startable req db groups :=
  ⟨(List.nodup_cons.mp h.nodup).2, fun g' hg' => h.named g' (List.mem_cons_of_mem _ hg'),
    h.entity, h.document, fun g' hg' => h.free g' (List.mem_cons_of_mem _ hg')⟩

theorem Startable.created {db db' : Db} {g : InvoiceGroup} {groups : List InvoiceGroup}
    (h : Startable req db (g :: groups)) {row : InvoiceRow}
    (hrow : CreatedFrom x ids (inputOf cols req e batchID g) row) (hgrown : db.Grown x db')
    (hinvoices : db'.invoices = row :: db.invoices) : Startable req db' groups := by
  have htail := h.tail
  refine ⟨htail.nodup, htail.named, by rw [hgrown.entities]; exact htail.entity,
    by rw [hgrown.documents]; exact htail.document, fun g' hg' => ?_⟩
  have hne : row.invoiceNumber ≠ g'.number := by
    rw [hrow.content.invoiceNumber]
    intro heq
    have hnumber : g.number = g'.number := heq
    have hnotMem := (List.nodup_cons.mp h.nodup).1
    exact hnotMem (hnumber ▸ List.mem_map_of_mem hg')
  rw [Db.findNumber_cons hinvoices hne]
  exact htail.free g' hg'

structure Looped (x : Externals) (ids : Ids) (cols : Columns) (req : Request) (e : Entity)
    (batchID : Uuid) (db : Db) (groups : List InvoiceGroup) (s s' : Progress)
    (new : List CreatedInvoice) : Prop where
  created : s'.created = s.created ++ new
  rows : List.Forall₂ (fun c g => c.rowIdxs = g.rowIdxs ∧
    CreatedFrom x ids (inputOf cols req e batchID g) c.inv) new
      (groups.filter (stored x cols req e batchID db))
  invoices : s'.db.invoices = (new.map CreatedInvoice.inv).reverse ++ s.db.invoices
  batches : s'.db.batches = s.db.batches
  grown : s.db.Grown x s'.db
  errors : s'.errors = s.errors ++ groups.filterMap (refusedError x cols req e batchID db)
  quarantined : s'.quarantined =
    s.quarantined + (groups.filterMap (refusedError x cols req e batchID db)).length
  rowsInvalid : s'.rowsInvalid = s.rowsInvalid + (((groups.filter fun g =>
    !stored x cols req e batchID db g).map fun g => g.rowIdxs.length).sum : ℕ)
  rowsValid : s'.rowsValid + s'.rowsInvalid = s.rowsValid + s.rowsInvalid
  idle : new = [] → s'.db = s.db

variable (ids) in
theorem createAll_ok {db : Db} (groups : List InvoiceGroup) (s : Progress)
    (hgrown : db.Grown x s.db) (hstart : Startable req s.db groups)
    (hdomain : ∀ g ∈ groups, refusal x db (inputOf cols req e batchID g) ≠ some .database) :
    ∃ s' new, createAll x ids cols req e batchID s groups = (s', none) ∧
      Looped x ids cols req e batchID db groups s s' new := by
  induction groups generalizing s with
  | nil =>
    exact ⟨s, [], rfl, ⟨(List.append_nil _).symm, List.Forall₂.nil, rfl, rfl, Db.Grown.refl x s.db,
      (List.append_nil _).symm, rfl, (add_zero _).symm, rfl, fun _ => rfl⟩⟩
  | cons g groups ih =>
    have hrest : ∀ g' ∈ groups, refusal x db (inputOf cols req e batchID g') ≠ some .database :=
      fun g' hg' => hdomain g' (List.mem_cons_of_mem _ hg')
    have hcreatable := hstart.creatable cols e batchID List.mem_cons_self
    have hsame := hgrown.refusal (inputOf cols req e batchID g)
    cases hrefusal : refusal x db (inputOf cols req e batchID g) with
    | none =>
      obtain ⟨db', row, hcreate, hrow, hgrown', hinvoices, hbatches⟩ :=
        create_ok ids hcreatable (hsame.trans hrefusal)
      obtain ⟨s', new, hloop, hdone⟩ := ih
        { s with db := db', created := s.created ++ [⟨row, g.rowIdxs⟩] } (hgrown.trans hgrown')
        (hstart.created hrow hgrown' hinvoices) hrest
      have hkept : stored x cols req e batchID db g = true := by simp [stored, hrefusal]
      have herr : refusedError x cols req e batchID db g = none := by simp [refusedError, hrefusal]
      refine ⟨s', ⟨row, g.rowIdxs⟩ :: new, ?_, ?_⟩
      · unfold createAll
        unfold inputOf at hcreate
        rw [hcreate]
        exact hloop
      · refine ⟨?_, ?_, ?_, hdone.batches.trans hbatches, hgrown'.trans hdone.grown, ?_, ?_, ?_,
          hdone.rowsValid, fun h => absurd h (List.cons_ne_nil _ _)⟩
        · rw [hdone.created, List.append_assoc]
          rfl
        · rw [List.filter_cons_of_pos hkept]
          exact List.Forall₂.cons ⟨rfl, hrow⟩ hdone.rows
        · rw [hdone.invoices, hinvoices]
          simp
        · rw [hdone.errors, List.filterMap_cons_none herr]
        · rw [hdone.quarantined, List.filterMap_cons_none herr]
        · rw [hdone.rowsInvalid, List.filter_cons_of_neg (by simp [hkept])]
    | some err =>
      obtain rfl : err = .validation :=
        (refusal_cases hrefusal).resolve_right fun h => hdomain g List.mem_cons_self (h ▸ hrefusal)
      have hcreate := create_error ids hcreatable (hsame.trans hrefusal)
      obtain ⟨s', new, hloop, hdone⟩ := ih
        (s.refuse (createRowError cols req g .validation "one or more fields failed validation")
          g.rowIdxs.length) hgrown hstart.tail hrest
      have hkept : ¬ stored x cols req e batchID db g = true := by simp [stored, hrefusal]
      have herr : refusedError x cols req e batchID db g =
          some (createRowError cols req g .validation "one or more fields failed validation") := by
        simp [refusedError, hrefusal, domainCreateErrorMessage]
      refine ⟨s', new, ?_, ?_⟩
      · unfold createAll
        unfold inputOf at hcreate
        rw [hcreate]
        exact hloop
      · refine ⟨hdone.created, ?_, hdone.invoices, hdone.batches, hdone.grown, ?_, ?_, ?_, ?_,
          hdone.idle⟩
        · rw [List.filter_cons_of_neg hkept]
          exact hdone.rows
        · rw [hdone.errors, List.filterMap_cons_some herr]
          simp [Progress.refuse]
        · rw [hdone.quarantined, List.filterMap_cons_some herr]
          simp only [Progress.refuse, List.length_cons]
          omega
        · rw [hdone.rowsInvalid, List.filter_cons_of_pos (by simp [hkept])]
          simp only [Progress.refuse, List.map_cons, List.sum_cons, Nat.cast_add]
          omega
        · have hsum := hdone.rowsValid
          simp only [Progress.refuse] at hsum
          omega

variable (ids) in
theorem createAll_abort {db : Db} (groups : List InvoiceGroup) (s : Progress)
    (hgrown : db.Grown x s.db) (hstart : Startable req s.db groups)
    (habort : ∃ g ∈ groups, refusal x db (inputOf cols req e batchID g) = some .database) :
    ∃ s', createAll x ids cols req e batchID s groups = (s', some .database) := by
  induction groups generalizing s with
  | nil =>
    obtain ⟨g, hg, -⟩ := habort
    cases hg
  | cons g groups ih =>
    have hcreatable := hstart.creatable cols e batchID List.mem_cons_self
    have hsame := hgrown.refusal (inputOf cols req e batchID g)
    have hlater : refusal x db (inputOf cols req e batchID g) ≠ some .database →
        ∃ g' ∈ groups, refusal x db (inputOf cols req e batchID g') = some .database := by
      intro hne
      obtain ⟨g', hg', hg''⟩ := habort
      rcases List.mem_cons.mp hg' with rfl | hmem
      · exact absurd hg'' hne
      · exact ⟨g', hmem, hg''⟩
    unfold createAll
    cases hrefusal : refusal x db (inputOf cols req e batchID g) with
    | none =>
      obtain ⟨db', row, hcreate, hrow, hgrown', hinvoices, -⟩ :=
        create_ok ids hcreatable (hsame.trans hrefusal)
      obtain ⟨s', hloop⟩ := ih { s with db := db', created := s.created ++ [⟨row, g.rowIdxs⟩] }
        (hgrown.trans hgrown') (hstart.created hrow hgrown' hinvoices)
        (hlater (by simp [hrefusal]))
      unfold inputOf at hcreate
      rw [hcreate]
      exact ⟨s', hloop⟩
    | some err =>
      have hcreate := create_error ids hcreatable (hsame.trans hrefusal)
      unfold inputOf at hcreate
      rw [hcreate]
      rcases refusal_cases hrefusal with rfl | rfl
      · exact ih _ hgrown hstart.tail (hlater (by simp [hrefusal]))
      · exact ⟨s, rfl⟩

end
end InvoiceOs.Importer
