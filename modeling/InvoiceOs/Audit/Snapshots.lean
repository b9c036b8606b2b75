import InvoiceOs.Audit.Kept
import InvoiceOs.Lib.Framing

/-! The statements of one request as read committed runs them: each finds the log as it is when
the statement starts, so rows that others append in between reach some of the numbers only. -/

namespace InvoiceOs.Audit

open Lib

/-- The log as each statement of a request finds it, in the order they run. -/
structure Snapshots where
  page : Log
  event : Log
  actor : Log
  company : Log
  count : Log
  probe : Log

def View.at_ (v : View) (l : Log) : View := { v with log := l }

/-- `Query`, its statements one after another. -/
def queryAcross (x : Externals) (v : View) (s : Snapshots) (f : Filter) : Except ReadErr Response :=
  if f.limit ≤ 0 then throw (.limit f.limit)
  else do
    let targets := resolveSearchTargets x v f.q
    let where_ ← filterPredicates f targets
    let rows ← select x (v.at_ s.page) (pageWhere where_ f.cursor)
    let page := pageOf f.limit ((rows.mergeSort pageOrder).take (f.limit.toNat + 1))
    let event ← facetColumn x (v.at_ s.event) { f with events := [] } targets Row.event
    let actor ← facetColumn x (v.at_ s.actor) { f with actors := [] } targets Row.actor
    let company ← facetCompany x (v.at_ s.company) { f with company := .allCompanies } targets
    let counted ← select x (v.at_ s.count) where_
    pure {
      events := page.1.map fun r => labelEvent v (eventOf v r)
      page := page.2
      total := counted.length
      facets := { event := event, actor := actor.map (labelFacet v), company := company } }

/-- `List`, under the default isolation of its transaction. -/
def listAcross (x : Externals) (v : View) (s : Snapshots) (subject guc : String) (f : Filter) :
    Except ReadErr Response := do
  let scope ← callerScope x v subject guc
  let out ← queryAcross x v s { f with scope := scope }
  if out.total = 0 then
    let empty ← logIsEmpty x (v.at_ s.probe) scope
    pure { out with logIsEmpty := empty }
  else pure out

theorem listAcross_same (x : Externals) (v : View) (l : Log) (subject guc : String) (f : Filter) :
    listAcross x v ⟨l, l, l, l, l, l⟩ subject guc f = list x (v.at_ l) subject guc f := by
  have hquery : ∀ f, queryAcross x v ⟨l, l, l, l, l, l⟩ f = query x (v.at_ l) f := by
    intro f
    unfold queryAcross query facetCounts
    simp only [bind_assoc, pure_bind]
    rfl
  unfold listAcross list
  simp only [hquery]
  rfl

/-! ### Tallies -/

structure Tallies (facet : List Facet) (value : Row → Option String) (keep : Row → Bool)
    (rows : List Row) : Prop where
  nodup : (facet.map Facet.value).Nodup
  values : ∀ a, a ∈ facet.map Facet.value ↔ ∃ r ∈ rows, keep r = true ∧ value r = a
  counts : ∀ b ∈ facet, b.count = rows.countP fun r => keep r && value r == b.value

def Between (a b : Log) (r : Row) : Prop := r ∈ a.rows ∧ r ∉ b.rows ∨ r ∈ b.rows ∧ r ∉ a.rows

def Grown (a b : Log) : Prop := a.rows <+: b.rows ∨ b.rows <+: a.rows

theorem not_mem_of_append {l : Log} {a b : List Row} (h : l.rows = a ++ b) {r : Row} (hr : r ∈ b) :
    r ∉ a := by
  intro ha
  have hnodup := l.unique
  rw [h, List.map_append, List.nodup_append] at hnodup
  exact hnodup.2.2 _ (List.mem_map_of_mem ha) _ (List.mem_map_of_mem hr) rfl

theorem Grown.split {a b : Log} (h : Grown a b) :
    ∃ more, (b.rows = a.rows ++ more ∨ a.rows = b.rows ++ more) ∧
      ∀ r, Between a b r ↔ r ∈ more := by
  obtain ⟨more, hmore⟩ | ⟨more, hmore⟩ := h
  · refine ⟨more, .inl hmore.symm, fun r => ⟨?_, fun hr => .inr ⟨?_, ?_⟩⟩⟩
    · rintro (⟨ha, hb⟩ | ⟨hb, ha⟩)
      · exact absurd (hmore ▸ List.mem_append_left _ ha) hb
      · rw [← hmore] at hb
        exact (List.mem_append.mp hb).resolve_left ha
    · exact hmore ▸ List.mem_append_right _ hr
    · exact not_mem_of_append hmore.symm hr
  · refine ⟨more, .inr hmore.symm, fun r => ⟨?_, fun hr => .inl ⟨?_, ?_⟩⟩⟩
    · rintro (⟨ha, hb⟩ | ⟨hb, ha⟩)
      · rw [← hmore] at ha
        exact (List.mem_append.mp ha).resolve_left hb
      · exact absurd (hmore ▸ List.mem_append_left _ hb) ha
    · exact hmore ▸ List.mem_append_right _ hr
    · exact not_mem_of_append hmore.symm hr

theorem countP_between {a b : Log} (h : Grown a b) (p : Row → Bool) :
    a.rows.countP p = b.rows.countP p ↔ ∀ r, Between a b r → p r = false := by
  obtain ⟨more, hmore, hbetween⟩ := h.split
  have hzero : more.countP p = 0 ↔ ∀ r, Between a b r → p r = false := by
    simp only [List.countP_eq_zero, hbetween, Bool.not_eq_true]
  rw [← hzero]
  obtain hrows | hrows := hmore
  · rw [hrows, List.countP_append]
    omega
  · rw [hrows, List.countP_append]
    omega

theorem mem_between {a b : Log} {p : Row → Bool} (hnone : ∀ r, Between a b r → p r = false) {r : Row}
    (hr : r ∈ a.rows) (hp : p r = true) : r ∈ b.rows := by
  by_contra hb
  have hfalse := hnone r (.inl ⟨hr, hb⟩)
  rw [hp] at hfalse
  cases hfalse

theorem Tallies.iff {facet : List Facet} {value : Row → Option String} {keep : Row → Bool} {a b : Log}
    (hgrown : Grown a b) (h : Tallies facet value keep a.rows) :
    Tallies facet value keep b.rows ↔ ∀ r, Between a b r → keep r = false := by
  constructor
  · intro hb r hr
    by_contra hkeep
    rw [Bool.not_eq_false] at hkeep
    have hmem : value r ∈ facet.map Facet.value := by
      obtain hr | hr := hr
      · exact (h.values _).mpr ⟨r, hr.1, hkeep, rfl⟩
      · exact (hb.values _).mpr ⟨r, hr.1, hkeep, rfl⟩
    obtain ⟨bucket, hbucket, hvalue⟩ := List.mem_map.mp hmem
    have hcount := (h.counts bucket hbucket).symm.trans (hb.counts bucket hbucket)
    have hnone := (countP_between hgrown _).mp hcount r hr
    simp only [hkeep, hvalue, Bool.true_and, beq_self_eq_true, Bool.true_eq_false] at hnone
  · intro hnone
    refine ⟨h.nodup, fun v => (h.values v).trans ⟨?_, ?_⟩, fun bucket hbucket => ?_⟩
    · rintro ⟨r, hr, hkeep, hvalue⟩
      exact ⟨r, mem_between hnone hr hkeep, hkeep, hvalue⟩
    · rintro ⟨r, hr, hkeep, hvalue⟩
      exact ⟨r, mem_between (fun r hr => hnone r hr.symm) hr hkeep, hkeep, hvalue⟩
    · rw [h.counts bucket hbucket]
      refine (countP_between hgrown _).mpr fun r hr => ?_
      rw [hnone r hr, Bool.false_and]

theorem Tallies.map {facet : List Facet} {value : Row → Option String} {keep : Row → Bool}
    {rows : List Row} (h : Tallies facet value keep rows) {g : Facet → Facet}
    (hvalue : ∀ b, (g b).value = b.value) (hcount : ∀ b, (g b).count = b.count) :
    Tallies (facet.map g) value keep rows := by
  have hsame : (facet.map g).map Facet.value = facet.map Facet.value := by
    rw [List.map_map]
    exact List.map_congr_left fun b _ => hvalue b
  refine ⟨hsame ▸ h.nodup, fun a => hsame ▸ h.values a, fun b hb => ?_⟩
  obtain ⟨b, hmem, rfl⟩ := List.mem_map.mp hb
  rw [hcount, hvalue]
  exact h.counts b hmem

theorem tallies_buckets {κ : Type} [DecidableEq κ] {key : Row → κ} {text : κ → Option String}
    {keep : Row → Bool} {rows : List Row} {le : κ × ℕ → κ × ℕ → Bool} {mk : κ × ℕ → Facet}
    (htext : ∀ r r', text (key r) = text (key r') → key r = key r')
    (hvalue : ∀ b, (mk b).value = text b.1) (hcount : ∀ b, (mk b).count = b.2) :
    Tallies (((buckets key (rows.filter keep)).mergeSort le).map mk) (fun r => text (key r)) keep
      rows := by
  have hperm := List.mergeSort_perm (buckets key (rows.filter keep)) le
  have hmem : ∀ b ∈ (buckets key (rows.filter keep)).mergeSort le,
      ∃ r ∈ rows, keep r = true ∧ key r = b.1 ∧
        b.2 = (rows.filter keep).countP fun r => key r == b.1 := by
    intro b hb
    obtain ⟨k, hk, rfl⟩ := List.mem_map.mp (hperm.mem_iff.mp hb)
    obtain ⟨r, hr, rfl⟩ := List.mem_map.mp (List.mem_dedup.mp hk)
    obtain ⟨hr, hkeep⟩ := List.mem_filter.mp hr
    exact ⟨r, hr, hkeep, rfl, rfl⟩
  have hvalues : ((((buckets key (rows.filter keep)).mergeSort le).map mk).map Facet.value).Perm
      (((rows.filter keep).map key).dedup.map text) := by
    have hsorted := hperm.map fun b => text b.1
    have hkeys : (buckets key (rows.filter keep)).map (fun b => text b.1) =
        ((rows.filter keep).map key).dedup.map text := by
      unfold buckets
      rw [List.map_map]
      rfl
    have htexts : (((buckets key (rows.filter keep)).mergeSort le).map mk).map Facet.value =
        ((buckets key (rows.filter keep)).mergeSort le).map fun b => text b.1 := by
      rw [List.map_map]
      exact List.map_congr_left fun b _ => hvalue b
    rw [htexts, ← hkeys]
    exact hsorted
  refine ⟨?_, fun a => ⟨fun ha => ?_, ?_⟩, fun b hb => ?_⟩
  · refine hvalues.nodup_iff.mpr (List.Nodup.map_on ?_ (List.nodup_dedup _))
    intro k hk k' hk' hsame
    obtain ⟨r, -, rfl⟩ := List.mem_map.mp (List.mem_dedup.mp hk)
    obtain ⟨r', -, rfl⟩ := List.mem_map.mp (List.mem_dedup.mp hk')
    exact htext r r' hsame
  · obtain ⟨k, hk, rfl⟩ := List.mem_map.mp (hvalues.mem_iff.mp ha)
    obtain ⟨r, hr, rfl⟩ := List.mem_map.mp (List.mem_dedup.mp hk)
    obtain ⟨hr, hkeep⟩ := List.mem_filter.mp hr
    exact ⟨r, hr, hkeep, rfl⟩
  · rintro ⟨r, hr, hkeep, rfl⟩
    have hfiltered := List.mem_filter.mpr ⟨hr, hkeep⟩
    exact hvalues.mem_iff.mpr
      (List.mem_map_of_mem (List.mem_dedup.mpr (List.mem_map_of_mem hfiltered)))
  · obtain ⟨bucket, hbucket, rfl⟩ := List.mem_map.mp hb
    obtain ⟨r, hr, hkeep, hkey, hbucketCount⟩ := hmem bucket hbucket
    rw [hcount, hvalue, hbucketCount, List.countP_filter]
    refine List.countP_congr fun r' _ => ?_
    rw [← hkey]
    by_cases hsame : key r' = key r
    · rw [hsame, beq_self_eq_true, beq_self_eq_true, Bool.and_comm]
    · have hdiff : text (key r') ≠ text (key r) := fun heq => hsame (htext r' r heq)
      rw [beq_false_of_ne hsame, beq_false_of_ne hdiff, Bool.false_and, Bool.and_false]

/-! ### What a request answers -/

section
variable {x : Externals} {v : View} {s : SearchTargets} {f : Filter}

theorem select_ok {rows : List Row} :
    (∃ where_, filterPredicates f s = .ok where_ ∧ select x v where_ = .ok rows) ↔
      knownKind f.actorKind = true ∧ casts x s f = true ∧ rows = v.log.rows.filter (keeps x s f) := by
  have hcursor : _ ↔ _ ∧ casts x s f = true ∧ rows = v.log.rows.filter fun r =>
      keeps x s f r && past none r := select_eq_ok
  simp only [past, Option.all_none, Bool.and_true] at hcursor
  exact hcursor

theorem facetColumn_ok {column : Row → String} {facet : List Facet}
    (h : facetColumn x v f s column = .ok facet) :
    Tallies facet (fun r => some (column r)) (keeps x s f) v.log.rows := by
  obtain ⟨where_, hwhere, h⟩ := bind_eq_ok.mp h
  obtain ⟨rows, hrows, h⟩ := bind_eq_ok.mp h
  obtain rfl := Except.ok.inj h
  obtain ⟨-, -, rfl⟩ := select_ok.mp ⟨where_, hwhere, hrows⟩
  exact @tallies_buckets _ _ _ some _ _ _ _ (fun _ _ => Option.some.inj) (fun _ => rfl) fun _ => rfl

theorem facetColumn_answers (hkind : knownKind f.actorKind = true) (hcasts : casts x s f = true)
    (column : Row → String) : ∃ facet, facetColumn x v f s column = .ok facet := by
  obtain ⟨where_, hwhere, hrows⟩ := select_ok.mpr ⟨hkind, hcasts, rfl⟩
  exact ⟨_, bind_eq_ok.mpr ⟨where_, hwhere, bind_eq_ok.mpr ⟨_, hrows, rfl⟩⟩⟩

def ReadsUuids (x : Externals) : Prop := ∀ u : Uuid, x.uuidIn u.text = some u

theorem ReadsUuids.text_inj (hx : ReadsUuids x) {u w : Uuid} (h : u.text = w.text) : u = w :=
  Option.some.inj ((hx u).symm.trans ((congrArg x.uuidIn h).trans (hx w)))

theorem facetCompany_ok (hx : ReadsUuids x) {facet : List Facet}
    (h : facetCompany x v f s = .ok facet) :
    Tallies facet (fun r => r.entityID.map Uuid.text) (keeps x s f) v.log.rows := by
  obtain ⟨where_, hwhere, h⟩ := bind_eq_ok.mp h
  obtain ⟨rows, hrows, h⟩ := bind_eq_ok.mp h
  obtain rfl := Except.ok.inj h
  obtain ⟨-, -, rfl⟩ := select_ok.mp ⟨where_, hwhere, hrows⟩
  refine @tallies_buckets _ _ (fun r => (r.entityID, companyName v r.entityID))
    (fun k => k.1.map Uuid.text) _ _ _ _ (fun r r' htext => ?_) (fun _ => rfl) fun _ => rfl
  -- the joined name goes with the id
  have hid : r.entityID = r'.entityID := Option.map_injective (fun _ _ => hx.text_inj) htext
  rw [hid]

theorem facetCompany_answers (hkind : knownKind f.actorKind = true) (hcasts : casts x s f = true) :
    ∃ facet, facetCompany x v f s = .ok facet := by
  obtain ⟨where_, hwhere, hrows⟩ := select_ok.mpr ⟨hkind, hcasts, rfl⟩
  exact ⟨_, bind_eq_ok.mpr ⟨where_, hwhere, bind_eq_ok.mpr ⟨_, hrows, rfl⟩⟩⟩

end

def pageRows (x : Externals) (t : SearchTargets) (f : Filter) (l : Log) : List Row :=
  (l.rows.filter fun r => keeps x t f r && past f.cursor r).mergeSort pageOrder

theorem pageOf_rows (limit : ℤ) (rows : List Row) :
    (pageOf limit (rows.take (limit.toNat + 1))).1 = rows.take limit.toNat ∧
      ((pageOf limit (rows.take (limit.toNat + 1))).2.hasMore = true ↔ limit.toNat < rows.length) := by
  unfold pageOf
  rw [List.length_take]
  by_cases hmore : limit.toNat < rows.length
  · rw [if_pos (by omega)]
    dsimp only
    rw [List.take_take, Nat.min_eq_left (Nat.le_succ _)]
    exact ⟨rfl, iff_of_true rfl hmore⟩
  · rw [if_neg (by omega)]
    dsimp only
    rw [List.take_of_length_le (by omega : rows.length ≤ limit.toNat + 1),
      List.take_of_length_le (by omega : rows.length ≤ limit.toNat)]
    exact ⟨rfl, iff_of_false Bool.false_ne_true hmore⟩

section
variable {x : Externals} {v : View} {s : Snapshots} {subject guc : String} {f : Filter}

structure Numbers (x : Externals) (v : View) (s : Snapshots) (f : Filter) (out : Response) : Prop where
  events : out.events = ((pageRows x (resolveSearchTargets x v f.q) f s.page).take f.limit.toNat).map
    fun r => labelEvent v (eventOf v r)
  hasMore : out.page.hasMore = true ↔
    f.limit.toNat < (pageRows x (resolveSearchTargets x v f.q) f s.page).length
  total : out.total = s.count.rows.countP (keeps x (resolveSearchTargets x v f.q) f)
  event : Tallies out.facets.event (fun r => some r.event)
    (keeps x (resolveSearchTargets x v f.q) { f with events := [] }) s.event.rows
  actor : Tallies out.facets.actor (fun r => some r.actor)
    (keeps x (resolveSearchTargets x v f.q) { f with actors := [] }) s.actor.rows
  company : Tallies out.facets.company (fun r => r.entityID.map Uuid.text)
    (keeps x (resolveSearchTargets x v f.q) { f with company := .allCompanies }) s.company.rows

theorem queryAcross_ok (hx : ReadsUuids x) {out : Response} (h : queryAcross x v s f = .ok out) :
    0 < f.limit ∧ knownKind f.actorKind = true ∧ casts x (resolveSearchTargets x v f.q) f = true ∧
      Numbers x v s f out := by
  unfold queryAcross at h
  obtain ⟨hlimit, h⟩ := check_eq_ok.mp h
  obtain ⟨where_, hwhere, h⟩ := bind_eq_ok.mp h
  obtain ⟨rows, hrows, h⟩ := bind_eq_ok.mp h
  obtain ⟨event, hevent, h⟩ := bind_eq_ok.mp h
  obtain ⟨actor, hactor, h⟩ := bind_eq_ok.mp h
  obtain ⟨company, hcompany, h⟩ := bind_eq_ok.mp h
  obtain ⟨counted, hcounted, h⟩ := bind_eq_ok.mp h
  obtain rfl := Except.ok.inj h
  obtain ⟨hkind, hcasts, rfl⟩ := select_eq_ok.mp ⟨where_, hwhere, hrows⟩
  obtain ⟨-, -, rfl⟩ := select_ok.mp ⟨where_, hwhere, hcounted⟩
  have hpage := pageOf_rows f.limit (pageRows x (resolveSearchTargets x v f.q) f s.page)
  refine ⟨not_le.mp hlimit, hkind, hcasts, ?_, hpage.2, ?_, facetColumn_ok hevent, ?_,
    facetCompany_ok hx hcompany⟩
  · exact congrArg (List.map fun r => labelEvent v (eventOf v r)) hpage.1
  · exact (List.countP_eq_length_filter).symm
  · refine (facetColumn_ok hactor).map (fun b => ?_) fun b => ?_
    · unfold labelFacet
      split
      · rfl
      · rfl
    · unfold labelFacet
      split
      · rfl
      · rfl

theorem casts_company {t : SearchTargets} (h : casts x t f = true) {c : CompanyFilter}
    (hc : ∀ id, c = .namedCompany id → (x.uuidIn id).isSome = true) :
    casts x t { f with company := c } = true := by
  unfold casts castTexts at h ⊢
  simp only [List.all_append, Bool.and_eq_true] at h ⊢
  refine ⟨⟨⟨h.1.1.1, ?_⟩, h.1.2⟩, h.2⟩
  cases c with
  | allCompanies => rfl
  | workspaceOnly => rfl
  | namedCompany id =>
    simp only [List.all_cons, List.all_nil, Bool.and_true]
    exact hc id rfl

theorem queryAcross_answers (hlimit : 0 < f.limit) (hkind : knownKind f.actorKind = true)
    (hcasts : casts x (resolveSearchTargets x v f.q) f = true) :
    ∃ out, queryAcross x v s f = .ok out := by
  obtain ⟨where_, hwhere, hrows⟩ := select_eq_ok.mpr
    ⟨hkind, hcasts, @rfl _ ((v.at_ s.page).log.rows.filter fun r =>
      keeps x (resolveSearchTargets x v f.q) f r && past f.cursor r)⟩
  obtain ⟨where', hwhere', hcounted⟩ := select_ok.mpr
    ⟨hkind, hcasts, @rfl _ ((v.at_ s.count).log.rows.filter
      (keeps x (resolveSearchTargets x v f.q) f))⟩
  obtain rfl := Except.ok.inj (hwhere.symm.trans hwhere')
  obtain ⟨event, hevent⟩ := facetColumn_answers (x := x) (v := v.at_ s.event)
    (s := resolveSearchTargets x v f.q) (f := { f with events := [] }) hkind hcasts Row.event
  obtain ⟨actor, hactor⟩ := facetColumn_answers (x := x) (v := v.at_ s.actor)
    (s := resolveSearchTargets x v f.q) (f := { f with actors := [] }) hkind hcasts Row.actor
  obtain ⟨company, hcompany⟩ := facetCompany_answers (x := x) (v := v.at_ s.company)
    (s := resolveSearchTargets x v f.q) (f := { f with company := .allCompanies }) hkind
    (casts_company hcasts nofun)
  unfold queryAcross
  refine ⟨_, check_eq_ok.mpr ⟨not_le.mpr hlimit, bind_eq_ok.mpr ⟨where_, hwhere,
    bind_eq_ok.mpr ⟨_, hrows, bind_eq_ok.mpr ⟨event, hevent, bind_eq_ok.mpr ⟨actor, hactor,
    bind_eq_ok.mpr ⟨company, hcompany, bind_eq_ok.mpr ⟨_, hcounted, rfl⟩⟩⟩⟩⟩⟩⟩⟩

structure Answered (x : Externals) (v : View) (subject guc : String) (f : Filter)
    (scope : CallerScope) : Prop where
  caller : callerScope x v subject guc = .ok scope
  limit : 0 < f.limit
  kind : knownKind f.actorKind = true
  casts : casts x (resolveSearchTargets x v f.q) { f with scope := scope } = true

theorem listAcross_ok (hx : ReadsUuids x) {out : Response}
    (h : listAcross x v s subject guc f = .ok out) :
    ∃ scope, Answered x v subject guc f scope ∧ Numbers x v s { f with scope := scope } out := by
  obtain ⟨scope, hscope, h⟩ := bind_eq_ok.mp h
  obtain ⟨read, hread, h⟩ := bind_eq_ok.mp h
  obtain ⟨hlimit, hkind, hcasts, hnumbers⟩ := queryAcross_ok hx hread
  refine ⟨scope, ⟨hscope, hlimit, hkind, hcasts⟩, ?_⟩
  split at h
  · obtain ⟨empty, -, h⟩ := bind_eq_ok.mp h
    obtain rfl := Except.ok.inj h
    exact { hnumbers with }
  · obtain rfl := Except.ok.inj h
    exact hnumbers

theorem listAcross_answers {scope : CallerScope} (h : Answered x v subject guc f scope) :
    ∃ out, listAcross x v s subject guc f = .ok out := by
  obtain ⟨read, hread⟩ := queryAcross_answers (s := s) (f := { f with scope := scope })
    h.limit h.kind h.casts
  have hprobe : ∃ empty, logIsEmpty x (v.at_ s.probe) scope = .ok empty := by
    unfold logIsEmpty
    split
    · have hcasts := h.casts
      unfold casts castTexts at hcasts
      simp only [List.all_append, Bool.and_eq_true] at hcasts
      have hscope : casts x {} { limit := 0, scope := scope } = true := by
        unfold casts castTexts
        simp only [List.all_append, hcasts.1.1.1, if_true, List.all_nil, Bool.and_self]
      obtain ⟨where_, hwhere, hrows⟩ := select_ok.mpr
        ⟨rfl, hscope, @rfl _ ((v.at_ s.probe).log.rows.filter (keeps x {} { limit := 0, scope := scope }))⟩
      exact ⟨_, bind_eq_ok.mpr ⟨where_, hwhere, bind_eq_ok.mpr ⟨_, hrows, rfl⟩⟩⟩
    · exact ⟨_, rfl⟩
  obtain ⟨empty, hempty⟩ := hprobe
  have hout : ∃ out, (if read.total = 0 then do
      let empty ← logIsEmpty x (v.at_ s.probe) scope
      pure { read with logIsEmpty := empty }
    else pure read) = (.ok out : Except ReadErr Response) := by
    split
    · exact ⟨_, bind_eq_ok.mpr ⟨empty, hempty, rfl⟩⟩
    · exact ⟨_, rfl⟩
  obtain ⟨out, hout⟩ := hout
  exact ⟨out, bind_eq_ok.mpr ⟨scope, h.caller, bind_eq_ok.mpr ⟨read, hread, hout⟩⟩⟩

end

end InvoiceOs.Audit
