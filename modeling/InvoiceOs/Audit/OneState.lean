import InvoiceOs.Audit.Snapshots
import InvoiceOs.Builder.UuidText

/-! The numbers of one response describe one state of the log just where no row that a statement
counts was appended between that state and the statement. -/

namespace InvoiceOs.Audit

open Lib

def matching (x : Externals) (v : View) (subject guc : String) (f : Filter) (r : Row) : Bool :=
  match callerScope x v subject guc with
  | .ok scope => keeps x (resolveSearchTargets x v f.q) { f with scope := scope } r
  | .error _ => false

/-- The facet holds exactly the values with a row when its own filter is cleared, each with the
total that picking it alone gives. -/
structure FacetOf (x : Externals) (v : View) (subject guc : String) (facet : List Facet)
    (value : Row → Option String) (cleared : Filter) (pick : Option String → Filter) : Prop where
  nodup : (facet.map Facet.value).Nodup
  values : ∀ a, a ∈ facet.map Facet.value ↔
    ∃ r ∈ v.log.rows, matching x v subject guc cleared r = true ∧ value r = a
  totals : ∀ b ∈ facet, ∃ out, list x v subject guc (pick b.value) = .ok out ∧ out.total = b.count

/-- The company a bucket of the company facet picks: the bucket without one, the workspace. -/
def pickCompany : Option String → CompanyFilter
  | some id => .namedCompany id
  | none => .workspaceOnly

/-- The row comes after the page: behind the cursor and behind every event of it. -/
def Follows (f : Filter) (out : Response) (r : Row) : Prop :=
  past f.cursor r = true ∧
    ∀ e ∈ out.events, ∀ id : ℕ, e.id = toString id → past (some ⟨e.createdAt, id⟩) r = true

structure Describes (x : Externals) (v : View) (subject guc : String) (f : Filter)
    (out : Response) : Prop where
  total : out.total = v.log.rows.countP (matching x v subject guc f)
  event : FacetOf x v subject guc out.facets.event (fun r => some r.event) { f with events := [] }
    fun a => { f with events := a.toList }
  actor : FacetOf x v subject guc out.facets.actor (fun r => some r.actor) { f with actors := [] }
    fun a => { f with actors := a.toList }
  company : FacetOf x v subject guc out.facets.company (fun r => r.entityID.map Uuid.text)
    { f with company := .allCompanies } fun a => { f with company := pickCompany a }
  hasMore : out.page.hasMore = false →
    ∀ r ∈ v.log.rows, matching x v subject guc f r = true → ¬ Follows f out r

/-- No row between the state and a statement's snapshot is one the statement counts: by the
filter with that statement's own field cleared, and for the page also behind its last row where
it was the last page. -/
structure Undisturbed (x : Externals) (v : View) (subject guc : String) (f : Filter)
    (s : Snapshots) (l : Log) : Prop where
  total : ∀ r, Between s.count l r → matching x v subject guc f r = false
  event : ∀ r, Between s.event l r → matching x v subject guc { f with events := [] } r = false
  actor : ∀ r, Between s.actor l r → matching x v subject guc { f with actors := [] } r = false
  company : ∀ r, Between s.company l r →
    matching x v subject guc { f with company := .allCompanies } r = false
  page : ∀ r ∈ l.rows, r ∉ s.page.rows → matching x v subject guc f r = true →
    past f.cursor r = true →
    f.limit.toNat < (s.page.rows.countP fun r => matching x v subject guc f r && past f.cursor r) ∨
      ∃ r' ∈ s.page.rows, matching x v subject guc f r' = true ∧ past f.cursor r' = true ∧
        past (some ⟨r'.createdAt, r'.id⟩) r = false

section
variable {x : Externals} {v : View} {s : Snapshots} {l : Log} {subject guc : String} {f : Filter}
  {scope : CallerScope}

theorem Answered.matching_eq (h : Answered x v subject guc f scope) (g : Filter) (r : Row) :
    matching x v subject guc g r =
      keeps x (resolveSearchTargets x v g.q) { g with scope := scope } r := by
  unfold matching
  rw [h.caller]

theorem list_total (hx : ReadsUuids x) (h : Answered x v subject guc f scope) :
    ∃ out, list x (v.at_ l) subject guc f = .ok out ∧
      out.total = l.rows.countP (matching x v subject guc f) := by
  obtain ⟨out, hout⟩ := listAcross_answers (s := ⟨l, l, l, l, l, l⟩) h
  obtain ⟨scope', hanswered, hnumbers⟩ := listAcross_ok hx hout
  obtain rfl := Except.ok.inj (h.caller.symm.trans hanswered.caller)
  rw [listAcross_same] at hout
  refine ⟨out, hout, hnumbers.total.trans ?_⟩
  congr 1
  funext r
  exact (h.matching_eq f r).symm

theorem facetOf_iff {facet : List Facet} {value : Row → Option String} {cleared : Filter}
    {pick : Option String → Filter} {keep : Row → Bool} {rows : List Row}
    (h : Tallies facet value keep rows)
    (hpick : ∀ r₀, ∃ out, list x (v.at_ l) subject guc (pick (value r₀)) = .ok out ∧
      out.total = l.rows.countP fun r => matching x v subject guc cleared r && value r == value r₀) :
    FacetOf x (v.at_ l) subject guc facet value cleared pick ↔
      Tallies facet value (matching x v subject guc cleared) l.rows := by
  have hvalue : ∀ b ∈ facet, ∃ r₀, value r₀ = b.value := by
    intro b hb
    obtain ⟨r₀, -, -, hr₀⟩ := (h.values _).mp (List.mem_map_of_mem hb)
    exact ⟨r₀, hr₀⟩
  constructor
  · intro hfacet
    refine ⟨hfacet.nodup, hfacet.values, fun b hb => ?_⟩
    obtain ⟨r₀, hr₀⟩ := hvalue b hb
    obtain ⟨out, hout, htotal⟩ := hpick r₀
    obtain ⟨out', hout', htotal'⟩ := hfacet.totals b hb
    rw [← hr₀] at hout' ⊢
    obtain rfl := Except.ok.inj (hout.symm.trans hout')
    exact htotal'.symm.trans htotal
  · intro htally
    refine ⟨htally.nodup, htally.values, fun b hb => ?_⟩
    obtain ⟨r₀, hr₀⟩ := hvalue b hb
    obtain ⟨out, hout, htotal⟩ := hpick r₀
    have hcount := htally.counts b hb
    rw [← hr₀] at hcount ⊢
    exact ⟨out, hout, htotal.trans hcount.symm⟩

/-! ### Picking one value -/

theorem among_single (a value : String) : among [a] value = (value == a) := by
  unfold among
  rw [List.isEmpty_cons, Bool.false_or, List.contains_cons]
  exact Bool.or_false _

theorem pick_event (hx : ReadsUuids x) (h : Answered x v subject guc f scope) (r₀ : Row) :
    ∃ out, list x (v.at_ l) subject guc { f with events := (some r₀.event).toList } = .ok out ∧
      out.total = l.rows.countP fun r =>
        matching x v subject guc { f with events := [] } r && some r.event == some r₀.event := by
  have hpick : Answered x v subject guc { f with events := [r₀.event] } scope :=
    ⟨h.caller, h.limit, h.kind, h.casts⟩
  obtain ⟨out, hout, htotal⟩ := list_total (l := l) hx hpick
  refine ⟨out, hout, htotal.trans (List.countP_congr fun r _ => ?_)⟩
  rw [h.matching_eq, h.matching_eq]
  unfold keeps
  simp only [among_single, Option.some_beq_some]
  simp only [among, List.isEmpty_nil, Bool.true_or, Bool.and_true, Bool.and_eq_true]
  tauto

theorem pick_actor (hx : ReadsUuids x) (h : Answered x v subject guc f scope) (r₀ : Row) :
    ∃ out, list x (v.at_ l) subject guc { f with actors := (some r₀.actor).toList } = .ok out ∧
      out.total = l.rows.countP fun r =>
        matching x v subject guc { f with actors := [] } r && some r.actor == some r₀.actor := by
  have hpick : Answered x v subject guc { f with actors := [r₀.actor] } scope :=
    ⟨h.caller, h.limit, h.kind, h.casts⟩
  obtain ⟨out, hout, htotal⟩ := list_total (l := l) hx hpick
  refine ⟨out, hout, htotal.trans (List.countP_congr fun r _ => ?_)⟩
  rw [h.matching_eq, h.matching_eq]
  unfold keeps
  simp only [among_single, Option.some_beq_some]
  simp only [among, List.isEmpty_nil, Bool.true_or, Bool.and_true, Bool.and_eq_true]
  tauto

theorem ofCompany_pick (hx : ReadsUuids x) (r r₀ : Row) :
    ofCompany x (pickCompany (r₀.entityID.map Uuid.text)) r =
      (r.entityID.map Uuid.text == r₀.entityID.map Uuid.text) := by
  cases h₀ : r₀.entityID with
  | none =>
    cases h : r.entityID with
    | none => simp [ofCompany, pickCompany, h]
    | some w => simp [ofCompany, pickCompany, h]
  | some u =>
    unfold pickCompany ofCompany uuidAny
    simp only [Option.map_some, List.any_cons, List.any_nil, Bool.or_false]
    rw [hx u]
    cases h : r.entityID with
    | none => rfl
    | some w =>
      rw [Bool.eq_iff_iff]
      simp only [Option.any_some, Option.some_beq_some, beq_iff_eq, Option.map_some]
      exact ⟨fun heq => by rw [heq], fun htext => hx.text_inj htext.symm⟩

theorem pick_company (hx : ReadsUuids x) (h : Answered x v subject guc f scope) (r₀ : Row) :
    ∃ out, list x (v.at_ l) subject guc
        { f with company := pickCompany (r₀.entityID.map Uuid.text) } = .ok out ∧
      out.total = l.rows.countP fun r =>
        matching x v subject guc { f with company := .allCompanies } r &&
          r.entityID.map Uuid.text == r₀.entityID.map Uuid.text := by
  have hcasts : ∀ id, pickCompany (r₀.entityID.map Uuid.text) = .namedCompany id →
      (x.uuidIn id).isSome = true := by
    intro id hid
    cases h₀ : r₀.entityID with
    | none =>
      rw [h₀] at hid
      cases hid
    | some u =>
      rw [h₀] at hid
      cases hid
      rw [hx u]
      rfl
  have hpick : Answered x v subject guc
      { f with company := pickCompany (r₀.entityID.map Uuid.text) } scope :=
    ⟨h.caller, h.limit, h.kind, casts_company h.casts hcasts⟩
  obtain ⟨out, hout, htotal⟩ := list_total (l := l) hx hpick
  refine ⟨out, hout, htotal.trans (List.countP_congr fun r _ => ?_)⟩
  rw [h.matching_eq, h.matching_eq]
  unfold keeps
  simp only [ofCompany_pick hx]
  simp only [ofCompany, Bool.and_true, Bool.and_eq_true]
  tauto

/-! ### The page -/

theorem mem_pageRows {t : SearchTargets} {r : Row} :
    r ∈ pageRows x t f l ↔ r ∈ l.rows ∧ keeps x t f r = true ∧ past f.cursor r = true := by
  unfold pageRows
  rw [(List.mergeSort_perm _ _).mem_iff, List.mem_filter, Bool.and_eq_true]

theorem length_pageRows (t : SearchTargets) :
    (pageRows x t f l).length = l.rows.countP fun r => keeps x t f r && past f.cursor r := by
  unfold pageRows
  rw [(List.mergeSort_perm _ _).length_eq, List.countP_eq_length_filter]

theorem follows_iff {out : Response} (h : Numbers x v s f out) (hlast : out.page.hasMore = false)
    (r : Row) : Follows f out r ↔ past f.cursor r = true ∧
      ∀ r' ∈ pageRows x (resolveSearchTargets x v f.q) f s.page,
        past (some ⟨r'.createdAt, r'.id⟩) r = true := by
  have hshort : (pageRows x (resolveSearchTargets x v f.q) f s.page).length ≤ f.limit.toNat := by
    by_contra hlong
    rw [h.hasMore.mpr (not_le.mp hlong)] at hlast
    cases hlast
  have hevents := h.events
  rw [List.take_of_length_le hshort] at hevents
  refine and_congr_right fun _ => ⟨fun hall r' hr' => ?_, fun hall e he id hid => ?_⟩
  · refine hall (labelEvent v (eventOf v r')) ?_ r'.id rfl
    rw [hevents]
    exact List.mem_map_of_mem hr'
  · rw [hevents] at he
    obtain ⟨r', hr', rfl⟩ := List.mem_map.mp he
    have hsame : digits r'.id = digits id := congrArg String.toList hid
    obtain rfl := digits_inj hsame
    exact hall r' hr'

theorem past_self (r : Row) : past (some ⟨r.createdAt, r.id⟩) r = false := by
  unfold past
  simp

theorem describes_iff (hx : ReadsUuids x) (hgrown : ∀ l' ∈ [s.event, s.actor, s.company, s.count],
    Grown l' l) {out : Response} (hout : listAcross x v s subject guc f = .ok out) :
    Describes x (v.at_ l) subject guc f out ↔ Undisturbed x v subject guc f s l := by
  obtain ⟨scope, h, hnumbers⟩ := listAcross_ok hx hout
  have hkeep : ∀ g : Filter, g.q = f.q → keeps x (resolveSearchTargets x v f.q)
      { g with scope := scope } = matching x v subject guc g := by
    intro g hq
    funext r
    rw [h.matching_eq, hq]
  have htotal := hnumbers.total
  have hevent := hnumbers.event
  have hactor := hnumbers.actor
  have hcompany := hnumbers.company
  have hfull := hkeep f rfl
  have hnoEvents := hkeep { f with events := [] } rfl
  have hnoActors := hkeep { f with actors := [] } rfl
  have hnoCompany := hkeep { f with company := .allCompanies } rfl
  dsimp only at htotal hevent hactor hcompany hnoEvents hnoActors hnoCompany
  rw [hfull] at htotal
  rw [hnoEvents] at hevent
  rw [hnoActors] at hactor
  rw [hnoCompany] at hcompany
  have hcount := countP_between (hgrown s.count (by simp)) (matching x v subject guc f)
  have heventIff := hevent.iff (hgrown s.event (by simp))
  have hactorIff := hactor.iff (hgrown s.actor (by simp))
  have hcompanyIff := hcompany.iff (hgrown s.company (by simp))
  have heventFacet : FacetOf x (v.at_ l) subject guc out.facets.event (fun r => some r.event)
      { f with events := [] } (fun a => { f with events := a.toList }) ↔ _ :=
    facetOf_iff hevent (pick_event hx h)
  have hactorFacet : FacetOf x (v.at_ l) subject guc out.facets.actor (fun r => some r.actor)
      { f with actors := [] } (fun a => { f with actors := a.toList }) ↔ _ :=
    facetOf_iff hactor (pick_actor hx h)
  have hcompanyFacet : FacetOf x (v.at_ l) subject guc out.facets.company
      (fun r => r.entityID.map Uuid.text) { f with company := .allCompanies }
      (fun a => { f with company := pickCompany a }) ↔ _ :=
    facetOf_iff hcompany (pick_company hx h)
  have hlength := length_pageRows (x := x) (f := { f with scope := scope }) (l := s.page)
    (resolveSearchTargets x v f.q)
  have hmem : ∀ r, r ∈ pageRows x (resolveSearchTargets x v f.q) { f with scope := scope } s.page ↔
      r ∈ s.page.rows ∧ matching x v subject guc f r = true ∧ past f.cursor r = true := by
    intro r
    rw [mem_pageRows, hfull]
  rw [hfull] at hlength
  have hmore := hnumbers.hasMore
  have hfollows := follows_iff hnumbers
  constructor
  · intro hd
    refine ⟨hcount.mp (htotal.symm.trans hd.total), heventIff.mp (heventFacet.mp hd.event),
      hactorIff.mp (hactorFacet.mp hd.actor), hcompanyIff.mp (hcompanyFacet.mp hd.company),
      fun r hr _ hmatch hpast => ?_⟩
    by_contra hnot
    rw [not_or, not_lt] at hnot
    obtain ⟨hshort, hnone⟩ := hnot
    have hlast : out.page.hasMore = false := by
      rw [← Bool.not_eq_true, hmore, hlength]
      exact not_lt.mpr hshort
    refine hd.hasMore hlast r hr hmatch ((hfollows hlast r).mpr ⟨hpast, fun r' hr' => ?_⟩)
    obtain ⟨hr', hmatch', hpast'⟩ := (hmem r').mp hr'
    by_contra hfalse
    exact hnone ⟨r', hr', hmatch', hpast', Bool.not_eq_true _ ▸ hfalse⟩
  · intro hu
    refine ⟨htotal.trans (hcount.mpr hu.total), heventFacet.mpr (heventIff.mpr hu.event),
      hactorFacet.mpr (hactorIff.mpr hu.actor), hcompanyFacet.mpr (hcompanyIff.mpr hu.company),
      fun hlast r hr hmatch hfollow => ?_⟩
    obtain ⟨hpast, hall⟩ := (hfollows hlast r).mp hfollow
    have hshort : ¬ f.limit.toNat <
        (s.page.rows.countP fun r => matching x v subject guc f r && past f.cursor r) := by
      intro hlong
      rw [hmore.mpr (hlength ▸ hlong)] at hlast
      cases hlast
    by_cases hpage : r ∈ s.page.rows
    · have hself := hall r ((hmem r).mpr ⟨hpage, hmatch, hpast⟩)
      rw [past_self] at hself
      cases hself
    · obtain hlong | ⟨r', hr', hmatch', hpast', hbehind⟩ := hu.page r hr hpage hmatch hpast
      · exact hshort hlong
      · have hpastPage := hall r' ((hmem r').mpr ⟨hr', hmatch', hpast'⟩)
        rw [hbehind] at hpastPage
        cases hpastPage

end

/-! ### A run of the log -/

/-- When each statement of a request starts, counted in appends to the log. -/
structure Moments where
  page : ℕ
  event : ℕ
  actor : ℕ
  company : ℕ
  count : ℕ
  probe : ℕ
  ordered : page ≤ event ∧ event ≤ actor ∧ actor ≤ company ∧ company ≤ count ∧ count ≤ probe

def Moments.snapshots (m : Moments) (log : ℕ → Log) : Snapshots :=
  ⟨log m.page, log m.event, log m.actor, log m.company, log m.count, log m.probe⟩

theorem grown_of_append {log : ℕ → Log} (hgrow : ∀ n, (log n).rows <+: (log (n + 1)).rows) (m n : ℕ) :
    Grown (log m) (log n) := by
  have hup : ∀ k m, (log m).rows <+: (log (m + k)).rows := by
    intro k
    induction k with
    | zero => exact fun m => List.prefix_refl _
    | succ k ih => exact fun m => (ih m).trans (hgrow (m + k))
  obtain hle | hle := le_total m n
  · obtain ⟨k, rfl⟩ := Nat.exists_eq_add_of_le hle
    exact .inl (hup k m)
  · obtain ⟨k, rfl⟩ := Nat.exists_eq_add_of_le hle
    exact .inr (hup k n)

/-- A response describes one state of the log it ran over just where, for some state, no row
appended between it and a statement of the request is one the statement counts. -/
theorem numbers_agree_iff (x : Externals) (v : View) (log : ℕ → Log) (m : Moments)
    (subject guc : String) (f : Filter) (out : Response) (hx : ReadsUuids x)
    (hgrow : ∀ n, (log n).rows <+: (log (n + 1)).rows)
    (hout : listAcross x v (m.snapshots log) subject guc f = .ok out) :
    (∃ n, Describes x (v.at_ (log n)) subject guc f out) ↔
      ∃ n, Undisturbed x v subject guc f (m.snapshots log) (log n) := by
  refine exists_congr fun n => describes_iff hx ?_ hout
  have hgrown := fun k => grown_of_append hgrow k n
  intro l hl
  simp only [List.mem_cons, List.not_mem_nil, or_false, Moments.snapshots] at hl
  obtain rfl | rfl | rfl | rfl := hl
  · exact hgrown _
  · exact hgrown _
  · exact hgrown _
  · exact hgrown _

def plainExternals : Externals where
  uuidParse _ := false
  uuidIn := Builder.parseUuid
  ilike _ _ := false
  collation := clerkExternals.collation

theorem plain_readsUuids : ReadsUuids plainExternals := Builder.parseUuid_text

def appended : ℕ → Log
  | 0 => ⟨[clientRow], clientRow_alone⟩
  | _ + 1 => ⟨[clientRow, otherRow], by decide⟩

theorem appended_grows (n : ℕ) : (appended n).rows <+: (appended (n + 1)).rows := by
  cases n with
  | zero => exact ⟨[otherRow], rfl⟩
  | succ n => exact List.prefix_refl _

theorem plain_answered : Answered plainExternals clerkView "worker" "*" { limit := 25 }
    { admin := true, self := "worker" } :=
  ⟨rfl, by decide, rfl, rfl⟩

theorem numbers_agree_iff_quiet :
    ∃ out, listAcross plainExternals clerkView
        (Moments.snapshots ⟨0, 0, 0, 0, 0, 1, by decide⟩ appended) "worker" "*" { limit := 25 } =
          .ok out ∧
      ∃ n, Describes plainExternals (clerkView.at_ (appended n)) "worker" "*" { limit := 25 } out := by
  obtain ⟨out, hout⟩ := listAcross_answers
    (s := Moments.snapshots ⟨0, 0, 0, 0, 0, 1, by decide⟩ appended) plain_answered
  have hself : ∀ r, ¬ Between (appended 0) (appended 0) r := by
    rintro r (⟨hr, hnot⟩ | ⟨hr, hnot⟩)
    · exact hnot hr
    · exact hnot hr
  refine ⟨out, hout, (numbers_agree_iff _ _ _ _ _ _ _ _ plain_readsUuids appended_grows hout).mpr
    ⟨0, ?_, ?_, ?_, ?_, ?_⟩⟩
  · exact fun r hr => absurd hr (hself r)
  · exact fun r hr => absurd hr (hself r)
  · exact fun r hr => absurd hr (hself r)
  · exact fun r hr => absurd hr (hself r)
  · exact fun r hr hnot => absurd hr hnot

theorem append_splits_the_numbers :
    ∃ out, listAcross plainExternals clerkView
        (Moments.snapshots ⟨0, 0, 0, 0, 1, 1, by decide⟩ appended) "worker" "*" { limit := 25 } =
          .ok out ∧
      ¬ ∃ n, Describes plainExternals (clerkView.at_ (appended n)) "worker" "*" { limit := 25 } out := by
  obtain ⟨out, hout⟩ := listAcross_answers
    (s := Moments.snapshots ⟨0, 0, 0, 0, 1, 1, by decide⟩ appended) plain_answered
  refine ⟨out, hout, ?_⟩
  rintro ⟨n, hdescribes⟩
  have hgrown : ∀ k, Grown (appended k) (appended n) := fun k => grown_of_append appended_grows k n
  have hundisturbed := (describes_iff plain_readsUuids (by
    intro l hl
    simp only [List.mem_cons, List.not_mem_nil, or_false, Moments.snapshots] at hl
    obtain rfl | rfl | rfl | rfl := hl
    · exact hgrown 0
    · exact hgrown 0
    · exact hgrown 0
    · exact hgrown 1) hout).mp hdescribes
  have hnew : Between (appended 0) (appended 1) otherRow :=
    .inr ⟨List.mem_cons_of_mem _ List.mem_cons_self, by decide⟩
  cases n with
  | zero =>
    have hmissed := hundisturbed.total otherRow hnew.symm
    cases hmissed
  | succ n =>
    have hmissed := hundisturbed.event otherRow hnew
    cases hmissed

end InvoiceOs.Audit
