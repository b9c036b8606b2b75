import InvoiceOs.Audit.ClientScope

/-! What a filter keeps: the one test every statement of a request makes of a row, field by field,
and the texts that have to be uuids for the test to be made. -/

namespace InvoiceOs.Audit

open Lib

def ofKind (kind : String) (r : Row) : Bool :=
  if kind = "system" then r.actor == "system"
  else if kind = "people" then r.actor != "system"
  else true

def ofCompany (x : Externals) (c : CompanyFilter) (r : Row) : Bool :=
  match c with
  | .allCompanies => true
  | .namedCompany id => uuidAny x r.entityID [id]
  | .workspaceOnly => r.entityID.isNone

def among (values : List String) (value : String) : Bool := values.isEmpty || values.contains value

def searchHits (x : Externals) (q : String) (s : SearchTargets) (r : Row) : Bool :=
  x.ilike r.event (contains q) ||
    ((r.payload.each.any fun kv => kv.1 != "invoice_number" && kv.2.any (x.ilike · (contains q))) ||
      (s.subjects.contains r.actor ||
        (uuidAny x r.entityID s.companies || uuidAny x r.invoiceID s.invoices)))

def keeps (x : Externals) (s : SearchTargets) (f : Filter) (r : Row) : Bool :=
  inScope x f.scope r && f.«from».all (fun t => decide (t ≤ r.createdAt)) &&
    f.«to».all (fun t => decide (r.createdAt ≤ t)) && among f.events r.event &&
    among f.actors r.actor && ofKind f.actorKind r && ofCompany x f.company r &&
    (f.invoiceID == "" || uuidAny x r.invoiceID [f.invoiceID]) &&
    (f.q == "" || searchHits x f.q s r)

def past (c : Option Cursor) (r : Row) : Bool :=
  c.all fun c => decide (r.createdAt < c.createdAt ∨ r.createdAt = c.createdAt ∧ r.id < c.id)

def castTexts (f : Filter) (s : SearchTargets) : List String :=
  (if f.scope.set then f.scope.ids else []) ++
    (match f.company with
      | .namedCompany id => [id]
      | _ => []) ++
    (if f.invoiceID = "" then [] else [f.invoiceID]) ++
    if f.q = "" then [] else s.companies ++ s.invoices

/-! ### A list of conditions as one test -/

section
variable {x : Externals}

def Tests (x : Externals) (parts : List Text) (p : Row → Bool) : Prop :=
  ∃ ps, List.Forall₂ (Means x) parts ps ∧ ∀ r, (ps.all fun q => q r) = p r

theorem Tests.append {a b : List Text} {p q : Row → Bool} (ha : Tests x a p) (hb : Tests x b q) :
    Tests x (a ++ b) fun r => p r && q r := by
  obtain ⟨ps, hps, hp⟩ := ha
  obtain ⟨qs, hqs, hq⟩ := hb
  refine ⟨ps ++ qs, List.rel_append hps hqs, fun r => ?_⟩
  rw [List.all_append, hp, hq]

theorem Tests.congr {parts : List Text} {p q : Row → Bool} (h : Tests x parts p)
    (hpq : ∀ r, p r = q r) : Tests x parts q := by
  obtain ⟨ps, hps, hp⟩ := h
  exact ⟨ps, hps, fun r => (hp r).trans (hpq r)⟩

theorem tests_nil : Tests x [] fun _ => true := ⟨[], .nil, fun _ => rfl⟩

theorem tests_single {t : Text} {p : Row → Bool} (h : Means x t p) : Tests x [t] p :=
  ⟨[p], .cons h .nil, fun _ => Bool.and_true _⟩

theorem tests_optional {α : Type} (value : Option α) (atom : α → Atom) :
    Tests x (optional value atom) fun r => value.all fun a => (atom a).holds x r := by
  cases value with
  | none => exact tests_nil
  | some a => exact tests_single (means_cond _)

theorem tests_actorKind {kind : String} {parts : List Text}
    (h : actorKindConditions kind = .ok parts) : Tests x parts (ofKind kind) := by
  unfold actorKindConditions at h
  split at h
  · rename_i hempty
    cases h
    subst hempty
    exact tests_nil.congr fun _ => rfl
  · split at h
    · rename_i hsystem
      cases h
      subst hsystem
      exact (tests_single (means_cond _)).congr fun _ => rfl
    · split at h
      · rename_i hpeople
        cases h
        subst hpeople
        exact (tests_single (means_cond _)).congr fun _ => rfl
      · cases h

theorem tests_company (c : CompanyFilter) : Tests x (companyConditions c) (ofCompany x c) := by
  cases c with
  | allCompanies => exact tests_nil
  | namedCompany id => exact tests_single (means_cond _)
  | workspaceOnly => exact tests_single (means_cond _)

theorem searchArms_means (q : String) (s : SearchTargets) :
    ∃ ps, List.Forall₂ (Means x) (searchArms q s) ps ∧
      ∀ r, (ps.any fun p => p r) = searchHits x q s r := by
  have harm : ∀ (ids : List String) (a : List String → Atom),
      (∀ r, (a []).holds x r = false) →
      ∃ ps, List.Forall₂ (Means x) (if ids = [] then [] else [[.cond (a ids)]]) ps ∧
        ∀ r, (ps.any fun p => p r) = (a ids).holds x r := by
    intro ids a hnil
    split
    · rename_i hempty
      subst hempty
      exact ⟨[], .nil, fun r => (hnil r).symm⟩
    · exact ⟨_, .cons (means_cond _) .nil, fun r => Bool.or_false _⟩
  have hnone : ∀ u : Option Uuid, uuidAny x u [] = false := by
    intro u
    cases u <;> rfl
  obtain ⟨subjects, hsubjects, hactor⟩ := harm s.subjects .actorAny fun _ => rfl
  obtain ⟨companies, hcompanies, hentity⟩ := harm s.companies .entityAny fun r => hnone _
  obtain ⟨invoices, hinvoices, hinvoice⟩ := harm s.invoices .invoiceAny fun r => hnone _
  refine ⟨_, List.rel_append (List.rel_append (List.rel_append
    (.cons (means_cond _) (.cons (means_cond _) .nil)) hsubjects) hcompanies) hinvoices,
    fun r => ?_⟩
  rw [List.any_append, List.any_append, List.any_append, hactor, hentity, hinvoice]
  simp only [List.any_cons, List.any_nil, Bool.or_false, Atom.holds, searchHits, Bool.or_assoc]

theorem tests_search (q : String) (s : SearchTargets) :
    Tests x (if q = "" then [] else [searchFragment q s]) fun r =>
      q == "" || searchHits x q s r := by
  split
  · rename_i hempty
    subst hempty
    exact tests_nil
  · rename_i hsome
    obtain ⟨ps, hps, hhits⟩ := searchArms_means (x := x) q s
    refine (tests_single (means_any hps (by simp [searchArms]))).congr fun r => ?_
    rw [hhits, beq_false_of_ne hsome, Bool.false_or]

theorem tests_invoice (id : String) :
    Tests x (if id = "" then [] else [[.cond (.invoiceIs id)]]) fun r =>
      id == "" || uuidAny x r.invoiceID [id] := by
  split
  · rename_i hempty
    subst hempty
    exact tests_nil
  · rename_i hsome
    refine (tests_single (means_cond _)).congr fun r => ?_
    rw [beq_false_of_ne hsome, Bool.false_or]
    rfl

theorem tests_among (values : List String) (atom : List String → Atom) (value : Row → String)
    (hatom : ∀ l r, (atom l).holds x r = l.contains (value r)) :
    Tests x (optional (nonempty values) atom) fun r => among values (value r) := by
  refine (tests_optional _ _).congr fun r => ?_
  unfold nonempty among
  cases values with
  | nil => rfl
  | cons a values => exact hatom _ r

theorem predicates_test {f : Filter} {s : SearchTargets} {parts : List Text}
    (h : predicates f s = .ok parts) : Tests x parts (keeps x s f) := by
  obtain ⟨kind, hkind, hparts⟩ := bind_eq_ok.mp h
  obtain rfl := Except.ok.inj hparts
  have hscope : Tests x (scopeConditions f.scope) (inScope x f.scope) := scopeConditions_means f.scope
  have hfrom := tests_optional (x := x) f.«from» .createdFrom
  have hto := tests_optional (x := x) f.«to» .createdTo
  have hevents := tests_among (x := x) f.events .eventAny Row.event fun _ _ => rfl
  have hactors := tests_among (x := x) f.actors .actorAny Row.actor fun _ _ => rfl
  exact (((((((hscope.append hfrom).append hto).append hevents).append hactors).append
    (tests_actorKind hkind)).append (tests_company f.company)).append
    (tests_invoice f.invoiceID)).append (tests_search f.q s)

/-! ### The casts -/

def tokenTexts : Token Atom → List String
  | .cond a => a.uuids
  | _ => []

theorem texts_join {sep : Token Atom} (hsep : tokenTexts sep = []) (parts : List Text) :
    (join sep parts).flatMap tokenTexts = parts.flatMap fun t => t.flatMap tokenTexts := by
  induction parts with
  | nil => rfl
  | cons part parts ih =>
    cases parts with
    | nil => simp only [join, List.intercalate_singleton, List.flatMap_cons, List.flatMap_nil,
        List.append_nil]
    | cons next rest =>
      rw [List.flatMap_cons, ← ih]
      simp only [join, List.intercalate_cons_cons, List.flatMap_append, List.flatMap_cons,
        List.flatMap_nil, List.append_nil, hsep, List.append_assoc, List.nil_append]

theorem texts_group {sep : Token Atom} (hsep : tokenTexts sep = []) (parts : List Text) :
    (group sep parts).flatMap tokenTexts = parts.flatMap fun t => t.flatMap tokenTexts := by
  rw [group, List.flatMap_cons, List.flatMap_append, texts_join hsep]
  exact List.append_nil _

theorem texts_arm (ids : List String) (a : List String → Atom) (hnil : (a []).uuids = []) :
    (if ids = [] then [] else [[Token.cond (a ids)]]).flatMap (fun t => t.flatMap tokenTexts) =
      (a ids).uuids := by
  split
  · rename_i hempty
    subst hempty
    exact hnil.symm
  · exact (List.append_nil _).trans (List.append_nil _)

theorem clause_eq {parts : List Text} {p : Row → Bool} (h : Tests x parts p) :
    clause x (join .and parts) =
      if (parts.flatMap fun t => t.flatMap tokenTexts).all (fun id => (x.uuidIn id).isSome) then
        .ok p
      else .error .cast := by
  obtain ⟨ps, hps, hp⟩ := h
  have hall : ((join .and parts).all fun t =>
      match t with
      | .cond a => a.uuids.all fun id => (x.uuidIn id).isSome
      | _ => true) = (parts.flatMap fun t => t.flatMap tokenTexts).all
        fun id => (x.uuidIn id).isSome := by
    rw [← @texts_join .and rfl, List.all_flatMap]
    congr 1
    funext t
    cases t <;> rfl
  by_cases hne : parts = []
  · subst hne
    cases hps
    have htrue : p = fun _ => true := funext fun r => (hp r).symm
    rw [htrue]
    rfl
  · have hcondition := condition_and (reads_stand hps) fun hnil => hne (List.map_eq_nil_iff.mp hnil)
    have hread : read x (join .and parts) = [.and].intercalate (parts.map (read x)) :=
      read_join .and parts
    rw [← hread] at hcondition
    have hsome : (join .and parts).isEmpty = false := by
      rw [Bool.eq_false_iff, Ne, List.isEmpty_iff]
      intro hempty
      rw [hempty] at hcondition
      cases hcondition
    have htest : (fun r => ps.all fun q => q r) = p := funext hp
    unfold read at hcondition
    unfold clause
    rw [hsome, if_neg Bool.false_ne_true, hcondition, htest]
    change (if ((join .and parts).all fun t =>
      match t with
      | .cond a => a.uuids.all fun id => (x.uuidIn id).isSome
      | _ => true) = true then _ else _) = _
    rw [hall]
    rfl

theorem texts_optional {α : Type} (value : Option α) (atom : α → Atom)
    (h : ∀ a, (atom a).uuids = []) :
    (optional value atom).flatMap (fun t => t.flatMap tokenTexts) = [] := by
  cases value with
  | none => rfl
  | some a => exact congrArg (· ++ []) (congrArg (· ++ []) (h a))

theorem predicates_texts {f : Filter} {s : SearchTargets} {parts : List Text}
    (h : predicates f s = .ok parts) :
    (parts.flatMap fun t => t.flatMap tokenTexts) = castTexts f s := by
  obtain ⟨kind, hkind, hparts⟩ := bind_eq_ok.mp h
  obtain rfl := Except.ok.inj hparts
  have hkindTexts : kind.flatMap (fun t => t.flatMap tokenTexts) = [] := by
    unfold actorKindConditions at hkind
    split at hkind
    · cases hkind
      rfl
    · split at hkind
      · cases hkind
        rfl
      · split at hkind
        · cases hkind
          rfl
        · cases hkind
  have hscope : (scopeConditions f.scope).flatMap (fun t => t.flatMap tokenTexts) =
      if f.scope.set then f.scope.ids else [] := by
    unfold scopeConditions
    split
    · simp [group, join, tokenTexts, Atom.uuids, List.intercalate]
    · split
      · simp [group, join, tokenTexts, Atom.uuids, List.intercalate]
      · rfl
  have hcompany : (companyConditions f.company).flatMap (fun t => t.flatMap tokenTexts) =
      match f.company with
      | .namedCompany id => [id]
      | _ => [] := by
    cases f.company <;> rfl
  have hinvoice : (if f.invoiceID = "" then [] else [[Token.cond (Atom.invoiceIs f.invoiceID)]]).flatMap
      (fun t => t.flatMap tokenTexts) = if f.invoiceID = "" then [] else [f.invoiceID] := by
    split <;> rfl
  have hsearch : (if f.q = "" then [] else [searchFragment f.q s]).flatMap
      (fun t => t.flatMap tokenTexts) = if f.q = "" then [] else s.companies ++ s.invoices := by
    split
    · rfl
    · rw [List.flatMap_singleton, searchFragment, texts_group rfl, searchArms]
      rw [List.flatMap_append, List.flatMap_append, List.flatMap_append,
        texts_arm s.subjects .actorAny rfl, texts_arm s.companies .entityAny rfl,
        texts_arm s.invoices .invoiceAny rfl]
      rfl
  simp only [List.flatMap_append, hkindTexts, hscope, hcompany, hinvoice, hsearch,
    texts_optional f.«from» .createdFrom (fun _ => rfl), texts_optional f.«to» .createdTo (fun _ => rfl),
    texts_optional (nonempty f.events) .eventAny (fun _ => rfl),
    texts_optional (nonempty f.actors) .actorAny (fun _ => rfl), List.append_nil, castTexts]

/-! ### A statement -/

def knownKind (kind : String) : Bool := kind == "" || kind == "system" || kind == "people"

theorem actorKindConditions_ok {kind : String} (h : knownKind kind = true) :
    ∃ parts, actorKindConditions kind = .ok parts := by
  simp only [knownKind, Bool.or_eq_true, beq_iff_eq] at h
  obtain (rfl | rfl) | rfl := h
  · exact ⟨_, rfl⟩
  · exact ⟨_, rfl⟩
  · exact ⟨_, rfl⟩

theorem knownKind_of_ok {kind : String} {parts : List Text}
    (h : actorKindConditions kind = .ok parts) : knownKind kind = true := by
  unfold actorKindConditions at h
  unfold knownKind
  split at h
  · rename_i hempty
    rw [hempty]
    rfl
  · split at h
    · rename_i hsystem
      rw [hsystem]
      rfl
    · split at h
      · rename_i hpeople
        rw [hpeople]
        rfl
      · cases h

def casts (x : Externals) (s : SearchTargets) (f : Filter) : Bool :=
  (castTexts f s).all fun id => (x.uuidIn id).isSome

theorem select_eq_ok {v : View} {s : SearchTargets} {f : Filter} {c : Option Cursor}
    {rows : List Row} :
    (∃ where_, filterPredicates f s = .ok where_ ∧ select x v (pageWhere where_ c) = .ok rows) ↔
      knownKind f.actorKind = true ∧ casts x s f = true ∧
        rows = v.log.rows.filter fun r => keeps x s f r && past c r := by
  have hselect : ∀ parts, predicates f s = .ok parts →
      select x v (pageWhere (join .and parts) c) = if casts x s f then
        .ok (v.log.rows.filter fun r => keeps x s f r && past c r) else .error .cast := by
    intro parts hparts
    have htest := (predicates_test (x := x) hparts).append (tests_optional (x := x) c .before)
    have htexts : ((parts ++ optional c .before).flatMap fun t => t.flatMap tokenTexts) =
        castTexts f s := by
      rw [List.flatMap_append, predicates_texts hparts, texts_optional c .before fun _ => rfl,
        List.append_nil]
    rw [pageWhere_join (predicates_ne_nil hparts x), select, clause_eq htest, htexts]
    unfold casts
    split
    · rfl
    · rfl
  constructor
  · rintro ⟨where_, hwhere, hrows⟩
    obtain ⟨parts, hparts, hjoin⟩ := bind_eq_ok.mp hwhere
    obtain rfl := Except.ok.inj hjoin
    obtain ⟨kind, hkind, -⟩ := bind_eq_ok.mp hparts
    rw [hselect parts hparts] at hrows
    split at hrows
    · rename_i hcasts
      exact ⟨knownKind_of_ok hkind, hcasts, (Except.ok.inj hrows).symm⟩
    · cases hrows
  · rintro ⟨hkind, hcasts, rfl⟩
    obtain ⟨kind, hkind⟩ := actorKindConditions_ok hkind
    have hparts : ∃ parts, predicates f s = .ok parts := ⟨_, bind_eq_ok.mpr ⟨kind, hkind, rfl⟩⟩
    obtain ⟨parts, hparts⟩ := hparts
    refine ⟨_, bind_eq_ok.mpr ⟨parts, hparts, rfl⟩, ?_⟩
    rw [hselect parts hparts, if_pos hcasts]

end
end InvoiceOs.Audit
