import InvoiceOs.Audit.Reader
import Mathlib.Data.String.Basic
import Mathlib.Data.List.Dedup
import Mathlib.Data.List.Forall2

/-! Every statement of a read keeps rows of the caller's scope only, so the response is a
function of those rows. -/

namespace InvoiceOs.Audit

open Lib

def inScope (x : Externals) (s : CallerScope) (r : Row) : Bool :=
  let account := accountEvents.contains r.event
  (account && r.actor == s.self) || if s.set then uuidAny x r.entityID s.ids else s.admin || !account

/-! ### What the predicates mean -/

section
variable (x : Externals)

def read (t : Text) : List (Token (Row → Bool)) := t.map (Token.map fun a r => a.holds x r)

def Means (t : Text) (p : Row → Bool) : Prop := Stands (read x t) p

end

section
variable {x : Externals}

theorem means_cond (a : Atom) : Means x [.cond a] fun r => a.holds x r := stands_cond _

theorem read_join (sep : Token Atom) (parts : List Text) :
    read x (join sep parts) =
      [sep.map fun a r => a.holds x r].intercalate (parts.map (read x)) := by
  induction parts with
  | nil => rfl
  | cons part parts ih =>
    cases parts with
    | nil => simp only [join, List.intercalate_singleton, List.map_cons, List.map_nil]
    | cons next rest =>
      have hnext : read x ([sep].intercalate (next :: rest)) = _ := ih
      simp only [join, List.intercalate_cons_cons, List.map_cons, read, List.map_append,
        List.map_nil] at hnext ⊢
      rw [hnext]

theorem reads_stand {parts : List Text} {ps : List (Row → Bool)}
    (h : List.Forall₂ (Means x) parts ps) : List.Forall₂ Stands (parts.map (read x)) ps := by
  rw [List.forall₂_map_left_iff]
  exact h

theorem means_any {parts : List Text} {ps : List (Row → Bool)}
    (h : List.Forall₂ (Means x) parts ps) (hne : parts ≠ []) :
    Means x (group .or parts) fun r => ps.any fun p => p r := by
  have hread : read x (group .or parts) =
      .opening :: ([.or].intercalate (parts.map (read x)) ++ [.closing]) := by
    have hjoin := read_join (x := x) .or parts
    simp only [group, read, List.map_cons, List.map_append, List.map_nil, Token.map] at hjoin ⊢
    rw [hjoin]
  unfold Means
  rw [hread]
  exact stands_any (reads_stand h) fun hnil => hne (List.map_eq_nil_iff.mp hnil)

theorem means_all {parts : List Text} {ps : List (Row → Bool)}
    (h : List.Forall₂ (Means x) parts ps) (hne : parts ≠ []) :
    Means x (group .and parts) fun r => ps.all fun p => p r := by
  have hread : read x (group .and parts) =
      .opening :: ([.and].intercalate (parts.map (read x)) ++ [.closing]) := by
    have hjoin := read_join (x := x) .and parts
    simp only [group, read, List.map_cons, List.map_append, List.map_nil, Token.map] at hjoin ⊢
    rw [hjoin]
  unfold Means
  rw [hread]
  exact stands_all (reads_stand h) fun hnil => hne (List.map_eq_nil_iff.mp hnil)

theorem clause_join {parts : List Text} {ps : List (Row → Bool)}
    (h : List.Forall₂ (Means x) parts ps) {p : Row → Bool}
    (hclause : clause x (join .and parts) = .ok p) : p = fun r => ps.all fun q => q r := by
  by_cases hne : parts = []
  · subst hne
    cases h
    cases hclause
    rfl
  · have hcondition := condition_and (reads_stand h) fun hnil => hne (List.map_eq_nil_iff.mp hnil)
    have hread : read x (join .and parts) = [.and].intercalate (parts.map (read x)) :=
      read_join .and parts
    rw [← hread] at hcondition
    unfold clause at hclause
    split at hclause
    · rename_i hempty
      rw [List.isEmpty_iff.mp hempty] at hcondition
      cases hcondition
    · split at hclause
      · unfold read at hcondition
        rw [hcondition] at hclause
        exact (Except.ok.inj hclause).symm
      · cases hclause

def Meant (x : Externals) (t : Text) : Prop := ∃ p, Means x t p

theorem meant_parts {parts : List Text} (h : ∀ t ∈ parts, Meant x t) :
    ∃ ps, List.Forall₂ (Means x) parts ps := by
  induction parts with
  | nil => exact ⟨[], .nil⟩
  | cons part parts ih =>
    obtain ⟨p, hp⟩ := h part List.mem_cons_self
    obtain ⟨ps, hps⟩ := ih fun t ht => h t (List.mem_cons_of_mem _ ht)
    exact ⟨p :: ps, .cons hp hps⟩

theorem meant_of_forall₂ {parts : List Text} {ps : List (Row → Bool)}
    (h : List.Forall₂ (Means x) parts ps) : ∀ t ∈ parts, Meant x t := by
  induction h with
  | nil => exact nofun
  | cons hp _ ih =>
    intro t ht
    rcases List.mem_cons.mp ht with rfl | ht
    · exact ⟨_, hp⟩
    · exact ih t ht

theorem meant_cond (a : Atom) : Meant x [.cond a] := ⟨_, means_cond a⟩

theorem meant_searchFragment (q : String) (s : SearchTargets) : Meant x (searchFragment q s) := by
  have harms : ∀ t ∈ searchArms q s, Meant x t := by
    intro t ht
    simp only [searchArms, List.mem_append, List.mem_cons, List.not_mem_nil, or_false] at ht
    obtain ((((rfl | rfl) | ht) | ht) | ht) := ht
    · exact meant_cond _
    · exact meant_cond _
    all_goals
      split at ht
      · cases ht
      · rw [List.mem_singleton.mp ht]
        exact meant_cond _
  obtain ⟨ps, hps⟩ := meant_parts harms
  exact ⟨_, means_any hps (by simp [searchArms])⟩

theorem meant_optional {α : Type} (value : Option α) (atom : α → Atom) :
    ∀ t ∈ optional value atom, Meant x t := by
  intro t ht
  cases value with
  | none => cases ht
  | some a =>
    rw [List.mem_singleton.mp ht]
    exact meant_cond _

theorem meant_actorKind {kind : String} {parts : List Text}
    (h : actorKindConditions kind = .ok parts) : ∀ t ∈ parts, Meant x t := by
  intro t ht
  unfold actorKindConditions at h
  split at h
  · cases h
    cases ht
  · split at h
    · cases h
      rw [List.mem_singleton.mp ht]
      exact meant_cond _
    · split at h
      · cases h
        rw [List.mem_singleton.mp ht]
        exact meant_cond _
      · cases h

theorem meant_company (c : CompanyFilter) : ∀ t ∈ companyConditions c, Meant x t := by
  intro t ht
  cases c with
  | allCompanies => cases ht
  | namedCompany id =>
    rw [List.mem_singleton.mp ht]
    exact meant_cond _
  | workspaceOnly =>
    rw [List.mem_singleton.mp ht]
    exact meant_cond _

theorem scopeConditions_means (s : CallerScope) :
    ∃ ps, List.Forall₂ (Means x) (scopeConditions s) ps ∧
      ∀ r, (ps.all fun p => p r) = inScope x s r := by
  unfold scopeConditions
  split
  · rename_i hset
    refine ⟨_, .cons (means_any (.cons (means_cond _) (.cons (means_all
      (.cons (means_cond _) (.cons (means_cond _) .nil)) (List.cons_ne_nil _ _)) .nil))
      (List.cons_ne_nil _ _)) .nil, fun r => ?_⟩
    simp only [List.all_cons, List.all_nil, List.any_cons, List.any_nil, Atom.holds, inScope, hset,
      if_true, Bool.and_true, Bool.or_false]
    exact Bool.or_comm _ _
  · rename_i hset
    split
    · rename_i hadmin
      refine ⟨_, .cons (means_any (.cons (means_cond _) (.cons (means_cond _) .nil))
        (List.cons_ne_nil _ _)) .nil, fun r => ?_⟩
      rw [Bool.not_eq_true'] at hadmin
      simp only [List.all_cons, List.all_nil, List.any_cons, List.any_nil, Atom.holds, inScope, hset,
        hadmin, Bool.false_eq_true, if_false, Bool.and_true, Bool.or_false, Bool.false_or]
      cases accountEvents.contains r.event <;> cases r.actor == s.self <;> decide
    · rename_i hadmin
      rw [Bool.not_eq_true', Bool.not_eq_false] at hadmin
      refine ⟨[], .nil, fun r => ?_⟩
      simp only [List.all_nil, inScope, hset, hadmin, Bool.false_eq_true, if_false, Bool.true_or,
        Bool.or_true]

theorem predicates_eq {f : Filter} {s : SearchTargets} {parts : List Text}
    (h : predicates f s = .ok parts) :
    ∃ rest, parts = scopeConditions f.scope ++ rest ∧ ∀ t ∈ rest, Meant x t := by
  obtain ⟨kind, hkind, hparts⟩ := bind_eq_ok.mp h
  simp only [List.append_assoc, pure_eq_ok] at hparts
  refine ⟨_, hparts.symm, fun t ht => ?_⟩
  simp only [List.mem_append] at ht
  obtain ht | ht | ht | ht | ht | ht | ht | ht := ht
  · exact meant_optional _ _ t ht
  · exact meant_optional _ _ t ht
  · exact meant_optional _ _ t ht
  · exact meant_optional _ _ t ht
  · exact meant_actorKind hkind t ht
  · exact meant_company _ t ht
  · split at ht
    · cases ht
    · rw [List.mem_singleton.mp ht]
      exact meant_cond _
  · split at ht
    · cases ht
    · rw [List.mem_singleton.mp ht]
      exact meant_searchFragment _ _

theorem predicates_within {f : Filter} {s : SearchTargets} {parts : List Text}
    (h : predicates f s = .ok parts) {more : List Text} (hmore : ∀ t ∈ more, Meant x t)
    {p : Row → Bool} (hclause : clause x (join .and (parts ++ more)) = .ok p) :
    ∀ r, p r = true → inScope x f.scope r = true := by
  obtain ⟨ps, hps, hscope⟩ := scopeConditions_means (x := x) f.scope
  obtain ⟨rest, rfl, hmeant⟩ := predicates_eq (x := x) h
  have hboth : ∀ t ∈ rest ++ more, Meant x t := fun t ht =>
    (List.mem_append.mp ht).elim (hmeant t) (hmore t)
  obtain ⟨qs, hqs⟩ := meant_parts hboth
  intro r hr
  rw [List.append_assoc] at hclause
  have hall : p r = (ps ++ qs).all fun q => q r :=
    congrFun (clause_join (List.rel_append hps hqs) hclause) r
  rw [hall, List.all_append, Bool.and_eq_true, hscope] at hr
  exact hr.1

theorem Means.ne_nil {t : Text} {p : Row → Bool} (h : Means x t p) : t ≠ [] := by
  rintro rfl
  have hread := h [] {} []
  cases hread

theorem predicates_ne_nil {f : Filter} {s : SearchTargets} {parts : List Text}
    (h : predicates f s = .ok parts) (x : Externals) : ∀ t ∈ parts, t ≠ [] := by
  intro t ht
  obtain ⟨ps, hps, -⟩ := scopeConditions_means (x := x) f.scope
  obtain ⟨rest, rfl, hmeant⟩ := predicates_eq (x := x) h
  rcases List.mem_append.mp ht with ht | ht
  · obtain ⟨p, hp⟩ := meant_of_forall₂ hps t ht
    exact hp.ne_nil
  · obtain ⟨p, hp⟩ := hmeant t ht
    exact hp.ne_nil

theorem join_concat (sep : Token Atom) {parts : List Text} (hne : parts ≠ []) (t : Text) :
    join sep (parts ++ [t]) = join sep parts ++ sep :: t := by
  induction parts with
  | nil => exact absurd rfl hne
  | cons part parts ih =>
    cases parts with
    | nil =>
      simp only [join, List.cons_append, List.nil_append, List.intercalate_cons_cons,
        List.intercalate_singleton, List.append_assoc]
    | cons next rest =>
      have hnext := ih (List.cons_ne_nil _ _)
      simp only [join, List.cons_append, List.intercalate_cons_cons] at hnext ⊢
      rw [hnext]
      simp only [List.append_assoc, List.cons_append, List.nil_append]

theorem pageWhere_join {parts : List Text} (hparts : ∀ t ∈ parts, t ≠ []) (c : Option Cursor) :
    pageWhere (join .and parts) c = join .and (parts ++ optional c .before) := by
  cases c with
  | none => simp only [pageWhere, optional, List.append_nil]
  | some c =>
    cases parts with
    | nil => rfl
    | cons part parts =>
      have hsome : (join .and (part :: parts)).isEmpty = false := by
        rw [Bool.eq_false_iff, Ne, List.isEmpty_iff]
        intro hempty
        refine hparts part List.mem_cons_self ?_
        cases parts with
        | nil => simpa only [join, List.intercalate_singleton] using hempty
        | cons next rest =>
          simp only [join, List.intercalate_cons_cons, List.append_eq_nil_iff] at hempty
          exact hempty.1.1
      simp only [pageWhere, hsome, Bool.false_eq_true, if_false, optional]
      exact (join_concat .and (List.cons_ne_nil _ _) _).symm

end

/-! ### The response -/

section
variable {x : Externals} {v : View} {l : Log} {f : Filter} {s : SearchTargets}

def Agrees (x : Externals) (scope : CallerScope) (v : View) (l : Log) : Prop :=
  (v.log.rows.filter (inScope x scope)).Perm (l.rows.filter (inScope x scope))

theorem filter_perm (hlog : Agrees x f.scope v l) {p : Row → Bool}
    (hp : ∀ r, p r = true → inScope x f.scope r = true) :
    (v.log.rows.filter p).Perm (l.rows.filter p) := by
  have hboth : (fun r => p r && inScope x f.scope r) = p := by
    funext r
    cases hr : p r with
    | false => rfl
    | true => rw [hp r hr, Bool.and_self]
  have hfiltered := hlog.filter p
  rw [List.filter_filter, List.filter_filter, hboth] at hfiltered
  exact hfiltered

theorem buckets_perm {κ : Type} [DecidableEq κ] (key : Row → κ) {rows rows' : List Row}
    (h : rows.Perm rows') : (buckets key rows).Perm (buckets key rows') := by
  have hcount : (fun k => (k, rows.countP fun r => key r == k)) =
      fun k => (k, rows'.countP fun r => key r == k) := by
    funext k
    rw [h.countP_eq]
  unfold buckets
  rw [hcount]
  exact (h.map key).dedup.map _

theorem select_perm (hlog : Agrees x f.scope v l) {parts : List Text}
    (hparts : predicates f s = .ok parts) {more : List Text} (hmore : ∀ t ∈ more, Meant x t) :
    (∃ e, select x v (join .and (parts ++ more)) = .error e ∧
      select x { v with log := l } (join .and (parts ++ more)) = .error e) ∨
    ∃ p, (v.log.rows.filter p).Perm (l.rows.filter p) ∧
      select x v (join .and (parts ++ more)) = .ok (v.log.rows.filter p) ∧
      select x { v with log := l } (join .and (parts ++ more)) = .ok (l.rows.filter p) := by
  unfold select
  cases hclause : clause x (join .and (parts ++ more)) with
  | error e => exact .inl ⟨e, rfl, rfl⟩
  | ok p => exact .inr ⟨p, filter_perm hlog (predicates_within hparts hmore hclause), rfl, rfl⟩

theorem select_where (hlog : Agrees x f.scope v l) {where_ : Text}
    (hwhere : filterPredicates f s = .ok where_) (c : Option Cursor) :
    (∃ e, select x v (pageWhere where_ c) = .error e ∧
      select x { v with log := l } (pageWhere where_ c) = .error e) ∨
    ∃ p, (v.log.rows.filter p).Perm (l.rows.filter p) ∧
      select x v (pageWhere where_ c) = .ok (v.log.rows.filter p) ∧
      select x { v with log := l } (pageWhere where_ c) = .ok (l.rows.filter p) := by
  obtain ⟨parts, hparts, hjoin⟩ := bind_eq_ok.mp hwhere
  obtain rfl := Except.ok.inj hjoin
  rw [pageWhere_join (predicates_ne_nil hparts x)]
  exact select_perm hlog hparts (meant_optional _ _)

theorem countOrder_ties {κ : Type} {a b : κ × ℕ} (hab : countOrder a b = true)
    (hba : countOrder b a = true) : a.2 = b.2 :=
  le_antisymm (of_decide_eq_true hba) (of_decide_eq_true hab)

theorem isOrder_count {κ : Type} : IsOrder (@countOrder κ) :=
  (isOrder_le.comparing Prod.snd).descending

theorem facetColumn_same (hlog : Agrees x f.scope v l) (column : Row → String) :
    facetColumn x { v with log := l } f s column = facetColumn x v f s column := by
  unfold facetColumn
  cases hwhere : filterPredicates f s with
  | error e => rfl
  | ok where_ =>
    obtain ⟨e, hv, hl⟩ | ⟨p, hperm, hv, hl⟩ := select_where hlog hwhere none
    · have hv' : select x v where_ = .error e := hv
      have hl' : select x { v with log := l } where_ = .error e := hl
      simp only [bind, Except.bind, hv', hl']
    · have hv' : select x v where_ = .ok _ := hv
      have hl' : select x { v with log := l } where_ = .ok _ := hl
      have hsort := @mergeSort_perm_congr _ (columnOrder x)
        (isOrder_count.thenBy (x.collation.order.comparing Prod.fst)) _ _ (buckets_perm column hperm) ?_
      · simp only [bind, Except.bind, hv', hl', hsort]
      · intro a _ b _ hab hba
        obtain ⟨hcount, hkey, hkey'⟩ := thenBy_ties hab hba
        exact Prod.ext (x.collation.anti _ _ hkey hkey') (countOrder_ties hcount.1 hcount.2)

theorem facetCompany_same (hlog : Agrees x f.scope v l) :
    facetCompany x { v with log := l } f s = facetCompany x v f s := by
  unfold facetCompany
  cases hwhere : filterPredicates f s with
  | error e => rfl
  | ok where_ =>
    obtain ⟨e, hv, hl⟩ | ⟨p, hperm, hv, hl⟩ := select_where hlog hwhere none
    · have hv' : select x v where_ = .error e := hv
      have hl' : select x { v with log := l } where_ = .error e := hl
      simp only [bind, Except.bind, hv', hl']
    · have hv' : select x v where_ = .ok _ := hv
      have hl' : select x { v with log := l } where_ = .ok _ := hl
      have hname : companyName { v with log := l } = companyName v := rfl
      have hsort := @mergeSort_perm_congr _ (companyOrder x)
        (isOrder_count.thenBy ((x.collation.order.nullsLast.comparing _).thenBy
          ((isOrder_le.comparing BitVec.toNat).nullsLast.comparing _))) _ _
        (buckets_perm (fun r => (r.entityID, companyName v r.entityID)) hperm) ?_
      · simp only [bind, Except.bind, hv', hl', hname, hsort]
      · intro a _ b _ hab hba
        obtain ⟨hcount, hkey, hkey'⟩ := thenBy_ties hab hba
        obtain ⟨hname, hid, hid'⟩ := thenBy_ties hkey hkey'
        have hentity : a.1.1 = b.1.1 := nullsLast_ties
          (fun u w huw hwu => BitVec.eq_of_toNat_eq
            (le_antisymm (of_decide_eq_true huw) (of_decide_eq_true hwu))) hid hid'
        have hjoined : a.1.2 = b.1.2 := nullsLast_ties x.collation.anti hname.1 hname.2
        exact Prod.ext (Prod.ext hentity hjoined) (countOrder_ties hcount.1 hcount.2)

theorem facetCounts_same (hlog : Agrees x f.scope v l) :
    facetCounts x { v with log := l } f s = facetCounts x v f s := by
  have hevent := facetColumn_same (f := { f with events := [] }) (s := s) hlog Row.event
  have hactor := facetColumn_same (f := { f with actors := [] }) (s := s) hlog Row.actor
  have hcompany := facetCompany_same (f := { f with company := .allCompanies }) (s := s) hlog
  unfold facetCounts
  rw [hevent, hactor, hcompany]

theorem pageOrder_ties {a b : Row} (hab : pageOrder a b = true) (hba : pageOrder b a = true) :
    a.id = b.id := by
  obtain ⟨-, hid, hid'⟩ := thenBy_ties hab hba
  exact le_antisymm (of_decide_eq_true hid') (of_decide_eq_true hid)

theorem isOrder_page : IsOrder pageOrder :=
  (isOrder_le.comparing Row.createdAt).descending.thenBy (isOrder_le.comparing Row.id).descending

theorem query_same (hlog : Agrees x f.scope v l) :
    query x { v with log := l } f = query x v f := by
  have htargets : resolveSearchTargets x { v with log := l } f.q = resolveSearchTargets x v f.q := rfl
  have hevent : eventOf { v with log := l } = eventOf v := rfl
  have hlabel : labelEvent { v with log := l } = labelEvent v := rfl
  have hfacet : labelFacet { v with log := l } = labelFacet v := rfl
  unfold query
  rw [htargets, hevent, hlabel, hfacet]
  split
  · rfl
  · cases hwhere : filterPredicates f (resolveSearchTargets x v f.q) with
    | error e => simp only [bind, Except.bind, hwhere]
    | ok where_ =>
      obtain ⟨e, hv, hl⟩ | ⟨p, hperm, hv, hl⟩ := select_where hlog hwhere f.cursor
      · simp only [bind, Except.bind, hwhere, hv, hl]
      · have hsort := mergeSort_perm_congr isOrder_page hperm (fun a ha b hb hab hba =>
          List.inj_on_of_nodup_map v.log.unique (List.mem_of_mem_filter ha)
            (List.mem_of_mem_filter hb) (pageOrder_ties hab hba))
        obtain ⟨e, hcv, hcl⟩ | ⟨q, hcount, hcv, hcl⟩ := select_where hlog hwhere none
        · have hcv' : select x v where_ = .error e := hcv
          have hcl' : select x { v with log := l } where_ = .error e := hcl
          simp only [bind, Except.bind, hwhere, hv, hl, facetCounts_same hlog, hcv', hcl']
        · have hcv' : select x v where_ = .ok _ := hcv
          have hcl' : select x { v with log := l } where_ = .ok _ := hcl
          simp only [bind, Except.bind, hwhere, hv, hl, hsort, facetCounts_same hlog, hcv', hcl',
            hcount.length_eq]

theorem logIsEmpty_same {scope : CallerScope} (hlog : Agrees x scope v l) :
    logIsEmpty x { v with log := l } scope = logIsEmpty x v scope := by
  unfold logIsEmpty
  split
  · cases hwhere : filterPredicates { limit := 0, scope := scope } {} with
    | error e => rfl
    | ok where_ =>
      obtain ⟨e, hv, hl⟩ | ⟨p, hperm, hv, hl⟩ := select_where (l := l) (v := v) (x := x) hlog hwhere none
      · have hv' : select x v where_ = .error e := hv
        have hl' : select x { v with log := l } where_ = .error e := hl
        simp only [bind, Except.bind, hv', hl']
      · have hv' : select x v where_ = .ok _ := hv
        have hl' : select x { v with log := l } where_ = .ok _ := hl
        simp only [bind, Except.bind, hv', hl', hperm.isEmpty_eq]
  · rename_i hfree
    -- who reads everything has every row in scope
    have hall : ∀ r, inScope x scope r = true := by
      intro r
      simp only [CallerScope.restricts, Bool.or_eq_true, Bool.not_eq_true', not_or,
        Bool.not_eq_true, Bool.not_eq_false] at hfree
      simp only [inScope, hfree.1, hfree.2, Bool.false_eq_true, if_false, Bool.true_or, Bool.or_true]
    have hrows := hlog
    unfold Agrees at hrows
    rw [List.filter_eq_self.mpr fun r _ => hall r, List.filter_eq_self.mpr fun r _ => hall r] at hrows
    rw [hrows.isEmpty_eq]

end

/-! ### The scope text -/

/-- What the seam writes: everything, or an array literal of the listed clients. -/
def WellFormed (x : Externals) (guc : String) : Prop :=
  guc = "" ∨ guc = "*" ∨ ∃ ids : List String, (∀ id ∈ ids, scopeID x id = true) ∧
    guc.toList = '\x7b' :: [','].intercalate (ids.map String.toList) ++ ['\x7d']

theorem inBraces_eq_some {cs inner : List Char} (h : inBraces cs = some inner) :
    cs = '\x7b' :: inner ++ ['\x7d'] := by
  unfold inBraces at h
  split at h
  · rename_i rest
    split at h
    · rename_i hlast
      obtain rfl := Option.some.inj h
      rw [List.cons_append, List.dropLast_append_getLast? _ hlast]
    · cases h
  · cases h

theorem scopeFromGUC_malformed {x : Externals} {guc : String} (h : ¬ WellFormed x guc) :
    scopeFromGUC x guc = { set := true } := by
  unfold WellFormed at h
  rw [not_or, not_or] at h
  obtain ⟨hempty, hstar, hliteral⟩ := h
  unfold scopeFromGUC
  rw [if_neg (by simp only [hempty, hstar, decide_false, Bool.or_self, Bool.false_eq_true,
    not_false_eq_true])]
  split
  · rfl
  · rename_i inner hinner
    split
    · rfl
    · dsimp only
      split
      · rename_i hids
        refine absurd ⟨(inner.splitOn ',').map String.ofList, List.all_eq_true.mp hids, ?_⟩ hliteral
        have hback : (inner.splitOn ',').map (String.toList ∘ String.ofList) = inner.splitOn ',' := by
          simp only [Function.comp_def, String.toList_ofList, List.map_id']
        rw [List.map_map, hback, List.intercalate_splitOn]
        exact inBraces_eq_some hinner
      · rfl

/-- Two logs that agree on the caller's rows get one response, whatever is asked; and a text
that is no scope is the empty set. -/
theorem list_within_scope (x : Externals) (v : View) (l : Log) (subject guc : String) (f : Filter)
    (hlog : ∀ scope, callerScope x v subject guc = .ok scope → Agrees x scope v l) :
    list x { v with log := l } subject guc f = list x v subject guc f ∧
      (¬ WellFormed x guc → list x v subject guc f = list x v subject "\x7b\x7d" f) := by
  constructor
  · have hcaller : callerScope x { v with log := l } subject guc = callerScope x v subject guc := rfl
    unfold list
    rw [hcaller]
    cases hscope : callerScope x v subject guc with
    | error e => rfl
    | ok scope =>
      have hagrees := hlog scope hscope
      have hquery := query_same (f := { f with scope := scope }) hagrees
      simp only [bind, Except.bind, hquery, logIsEmpty_same hagrees]
  · intro hmalformed
    have hempty : scopeFromGUC x guc = scopeFromGUC x "\x7b\x7d" := scopeFromGUC_malformed hmalformed
    unfold list callerScope
    rw [hempty]

def clerkID : String := "00000000-0000-0000-0000-000000000001"

def clientID : String := "00000000-0000-0000-0000-000000000007"

def clerkExternals : Externals where
  uuidParse s := s == clerkID || s == clientID
  uuidIn s := if s = clerkID then some 1 else if s = clientID then some 7 else none
  ilike value pattern := "%" ++ value ++ "%" == pattern
  collation := ⟨fun a b => decide (a ≤ b), isOrder_le, le_anti⟩

def clientRow : Row :=
  { id := 1, createdAt := 5, event := "invoice.created", actor := "system", entityID := some 7 }

def otherRow : Row := { clientRow with id := 2, entityID := some 8 }

theorem clientRow_alone : ([clientRow].map Row.id).Nodup := by decide

def clerkView : View where
  memberships := [{ userID := 1, displayName := some "Ada Eze" }]
  log := ⟨[clientRow], clientRow_alone⟩

def clerkFilter : Filter := { limit := 20, q := "invoice.created" }

theorem clerk_scope :
    (callerScope clerkExternals clerkView clerkID ("\x7b" ++ clientID ++ "\x7d")).toOption =
    some { set := true, ids := [clientID], self := clerkID } := by
  decide +kernel

theorem list_within_scope_sample :
    list clerkExternals { clerkView with log := ⟨[clientRow, otherRow], by decide⟩ } clerkID
        ("\x7b" ++ clientID ++ "\x7d") clerkFilter =
      list clerkExternals clerkView clerkID ("\x7b" ++ clientID ++ "\x7d") clerkFilter := by
  refine (list_within_scope clerkExternals clerkView ⟨[clientRow, otherRow], by decide⟩ _ _ _
    fun scope hscope => ?_).1
  have hclerk := clerk_scope
  rw [hscope] at hclerk
  obtain rfl := Option.some.inj hclerk
  unfold Agrees
  decide +kernel

end InvoiceOs.Audit
