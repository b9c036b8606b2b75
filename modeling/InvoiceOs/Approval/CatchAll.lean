import InvoiceOs.Approval.PolicyStore
import InvoiceOs.Lib.Refusal

/-! The policy order always ends in a catch-all: what each call leaves behind, and the
bridge from the SQL notion of scoped to the matcher's notion of an unset scope. -/

namespace InvoiceOs.Approval

open Lib

/-! ### What a call that went through wrote -/

theorem requireCatchAllLastTx_eq_ok {ps : Policies} {u : Unit} :
    requireCatchAllLastTx ps = .ok u ↔ lastScoped (topRows ps) = false ∧
      lastScoped ((activeRows ps).map fun v => (v.position, v.scopes.scoped)) = false := by
  simp only [requireCatchAllLastTx, check_eq_ok, Bool.or_eq_true, not_or, Bool.not_eq_true]
  exact ⟨fun h => h.1, fun h => ⟨h, rfl⟩⟩

theorem createPolicy_spec {d : Directory} {ps ps' : Policies} {caller id versionID : Uuid}
    {name : String} {scopes : Option ScopeInput}
    (h : createPolicy d ps caller id versionID name scopes = .ok ps') :
    ∃ name row, ps.get? id = none ∧ versionTaken ps versionID = false ∧
      ps' = insertPolicy ps id name { id := versionID, version := 1, scopes := row } ∧
      requireCatchAllLastTx ps' = .ok () := by
  simp only [createPolicy, bind_eq_ok, refuse_eq_ok, pure_eq_ok, Bool.or_eq_true, not_or,
    Bool.not_eq_true] at h
  obtain ⟨name, -, -, -, -, -, row, -, ⟨hid, hv⟩, u, hc, rfl⟩ := h
  exact ⟨name, row, by simpa using hid, hv, rfl, hc⟩

theorem livePolicy_eq_ok {ps : Policies} {id : Uuid} {p : PolicyRow} :
    livePolicy ps id = .ok p ↔ ps.get? id = some p ∧ p.deleted = false := by
  unfold livePolicy
  split
  · rename_i q hq
    simp only [check_eq_ok, pure_eq_ok, hq, Option.some.injEq, Bool.not_eq_true]
    constructor
    · rintro ⟨hd, rfl⟩
      exact ⟨rfl, hd⟩
    · rintro ⟨rfl, hd⟩
      exact ⟨hd, rfl⟩
  · rename_i hq
    simp [hq]

theorem openDraft_spec {ps : Policies} {p p' : PolicyRow} {versionID draftID : Uuid}
    (h : openDraft ps p versionID = .ok (p', draftID)) :
    p' = p ∨ versionTaken ps versionID = false ∧ draftID = versionID ∧
      ∃ v, v.id = versionID ∧ v.isActive = false ∧
        p' = { p with versions := p.versions ++ [v] } := by
  unfold openDraft at h
  split at h
  · rename_i v hv
    cases h
    exact .inl rfl
  · simp only [check_eq_ok, pure_eq_ok, Prod.mk.injEq, Bool.not_eq_true] at h
    obtain ⟨hv, rfl, rfl⟩ := h
    exact .inr ⟨hv, rfl, _, rfl, rfl, rfl⟩

theorem putDraft_spec {d : Directory} {ps ps' : Policies} {caller id versionID : Uuid}
    {name : Option String} {scopes : Option ScopeInput} {steps : List Step}
    (h : putDraft d ps caller id versionID name scopes steps = .ok ps') :
    ∃ p name q draftID row, ps.get? id = some p ∧ p.deleted = false ∧
      openDraft ps { p with name := name } versionID = .ok (q, draftID) ∧
      ps' = ps.set id { q with versions := q.versions.map (writeDraft draftID row steps) } ∧
      requireCatchAllLastTx ps' = .ok () := by
  simp only [putDraft, bind_eq_ok, refuse_eq_ok, pure_eq_ok] at h
  obtain ⟨name, -, -, -, -, -, -, -, p, hp, row, -, ⟨q, draftID⟩, hq, -, u, hc, rfl⟩ := h
  obtain ⟨hp, hd⟩ := livePolicy_eq_ok.mp hp
  exact ⟨p, _, q, draftID, row, hp, hd, hq, rfl, hc⟩

theorem publishVersion_spec {d : Directory} {ps ps' : Policies} {caller id : Uuid}
    (h : publishVersion d ps caller id = .ok ps') :
    ∃ p v, ps.get? id = some p ∧ p.deleted = false ∧ p.draft = some v ∧
      ps' = ps.set id { p with versions := p.versions.map (sealVersion v.id caller) } ∧
      requireCatchAllLastTx ps' = .ok () := by
  simp only [publishVersion, bind_eq_ok] at h
  obtain ⟨-, -, p, hp, h⟩ := h
  obtain ⟨hp, hd⟩ := livePolicy_eq_ok.mp hp
  split at h
  · cases h
  · rename_i v hv
    simp only [bind_eq_ok, refuse_eq_ok, pure_eq_ok] at h
    obtain ⟨-, -, -, -, u, hc, rfl⟩ := h
    exact ⟨p, v, hp, hd, hv, rfl, hc⟩

theorem deletePolicy_spec {d : Directory} {ps ps' : Policies} {caller id : Uuid}
    (h : deletePolicy d ps caller id = .ok ps') :
    ∃ p, ps.get? id = some p ∧ p.deleted = false ∧
      ps' = ps.set id { p with
        deleted := true
        versions := p.versions.map fun v => { v with isActive := false } } ∧
      requireCatchAllLastTx ps' = .ok () := by
  simp only [deletePolicy, bind_eq_ok, pure_eq_ok] at h
  obtain ⟨-, -, p, hp, -, -, u, hc, rfl⟩ := h
  obtain ⟨hp, hd⟩ := livePolicy_eq_ok.mp hp
  exact ⟨p, hp, hd, rfl, hc⟩

theorem reorderPolicies_spec {d : Directory} {ps ps' : Policies} {caller : Uuid}
    {ids : List Uuid} (h : reorderPolicies d ps caller ids = .ok ps') :
    ps' = ps ∨ ids.length = (liveInOrder ps).length ∧
      (∀ e ∈ liveInOrder ps, e.1 ∈ ids) ∧
      ps' = permutePositions ps ids ((liveInOrder ps).map fun p => p.2.position) ∧
      requireCatchAllLastTx ps' = .ok () := by
  simp only [reorderPolicies, bind_eq_ok, refuse_eq_ok] at h
  obtain ⟨-, -, -, hlen, hall, h⟩ := h
  split at h
  · cases h
    exact .inl rfl
  · simp only [refuse_eq_ok, bind_eq_ok, pure_eq_ok] at h
    obtain ⟨-, u, hc, rfl⟩ := h
    refine .inr ⟨by simpa using hlen, ?_, rfl, hc⟩
    intro e he
    by_contra hne
    exact hall (List.any_eq_true.mpr ⟨e.1, List.mem_map.mpr ⟨e, he, rfl⟩, by simpa using hne⟩)

/-! ### The tables stay well formed -/

structure PolicyRow.Ok (p : PolicyRow) : Prop where
  ids : (p.versions.map Version.id).Nodup
  oneActive : ∀ u ∈ p.active, ∀ v ∈ p.active, u = v
  deleted : p.deleted = true → p.active = []

structure WellFormed (ps : Policies) : Prop where
  rows : ∀ {i : Uuid} {p : PolicyRow}, ps.get? i = some p → p.Ok
  positions : ∀ {i j : Uuid} {p q : PolicyRow}, ps.get? i = some p → ps.get? j = some q →
    p.deleted = false → q.deleted = false → p.position = q.position → i = j

theorem mem_liveRows {ps : Policies} {i : Uuid} {p : PolicyRow} :
    (i, p) ∈ liveRows ps ↔ ps.get? i = some p ∧ p.deleted = false := by
  simp only [liveRows, List.mem_filter, Table.mem_rows, Bool.not_eq_true']

theorem mem_activeRows {ps : Policies} {w : InForceVersion} :
    w ∈ activeRows ps ↔ ∃ i p, ps.get? i = some p ∧ p.deleted = false ∧ ∃ v ∈ p.active,
      w = { versionID := v.id, policyID := i, position := p.position, scopes := v.scopes } := by
  simp only [activeRows, List.mem_flatMap, List.mem_map, Prod.exists, mem_liveRows]
  constructor
  · rintro ⟨i, p, ⟨hp, hd⟩, v, hv, rfl⟩
    exact ⟨i, p, hp, hd, v, hv, rfl⟩
  · rintro ⟨i, p, hp, hd, v, hv, rfl⟩
    exact ⟨i, p, ⟨hp, hd⟩, v, hv, rfl⟩

theorem le_maxPosition {rows : List (Uuid × PolicyRow)} {e : Uuid × PolicyRow} (h : e ∈ rows) :
    e.2.position ≤ maxPosition rows := by
  induction rows with
  | nil => cases h
  | cons a rows ih =>
    simp only [maxPosition, List.foldr_cons] at ih ⊢
    rcases List.mem_cons.mp h with rfl | h
    · exact le_max_left _ _
    · exact (ih h).trans (le_max_right _ _)

theorem WellFormed.set {ps : Policies} (h : WellFormed ps) {i : Uuid} {r : PolicyRow} (hr : r.Ok)
    (hpos : r.deleted = false → ∀ j q, j ≠ i → ps.get? j = some q → q.deleted = false →
      q.position ≠ r.position) : WellFormed (ps.set i r) where
  rows := by
    intro j p hp
    rw [Table.get?_set] at hp
    split at hp
    · cases hp
      exact hr
    · exact h.rows hp
  positions := by
    intro j k p q hp hq hpd hqd heq
    rw [Table.get?_set] at hp hq
    split at hp <;> split at hq
    · rename_i hj hk
      exact hj.trans hk.symm
    · rename_i hj hk
      cases hp
      exact absurd heq.symm (hpos hpd k q hk hq hqd)
    · rename_i hj hk
      cases hq
      exact absurd heq (hpos hqd j p hj hp hpd)
    · exact h.positions hp hq hpd hqd heq

theorem WellFormed.set_versions {ps : Policies} (h : WellFormed ps) {i : Uuid} {p r : PolicyRow}
    (hp : ps.get? i = some p) (hd : p.deleted = false) (hr : r.Ok)
    (hposition : r.position = p.position) : WellFormed (ps.set i r) := by
  refine h.set hr fun _ j q hj hq hqd heq => ?_
  exact hj (h.positions hq hp hqd hd (heq.trans hposition))

theorem PolicyRow.Ok.single (name : String) (position : ℕ) {v : Version} (hv : v.isActive = false) :
    ({ name := name, position := position, versions := [v] } : PolicyRow).Ok where
  ids := List.nodup_singleton _
  oneActive := by
    intro u hu
    simp [PolicyRow.active, hv] at hu
  deleted := by
    intro h
    cases h

theorem filter_isActive_map {vs : List Version} {f : Version → Version}
    (hact : ∀ v, (f v).isActive = v.isActive) :
    (vs.map f).filter Version.isActive = (vs.filter Version.isActive).map f := by
  rw [List.filter_map]
  exact congrArg (List.map f) (List.filter_congr fun v _ => hact v)

theorem PolicyRow.Ok.mapVersions {p : PolicyRow} (h : p.Ok) {f : Version → Version}
    (hid : ∀ v, (f v).id = v.id) (hact : ∀ v, (f v).isActive = v.isActive) :
    ({ p with versions := p.versions.map f } : PolicyRow).Ok where
  ids := by
    have hm : (p.versions.map f).map Version.id = p.versions.map Version.id := by
      rw [List.map_map]
      exact List.map_congr_left fun v _ => hid v
    rw [hm]
    exact h.ids
  oneActive := by
    intro u hu v hv
    simp only [PolicyRow.active, filter_isActive_map hact] at hu hv
    obtain ⟨u', hu', rfl⟩ := List.mem_map.mp hu
    obtain ⟨v', hv', rfl⟩ := List.mem_map.mp hv
    rw [h.oneActive u' hu' v' hv']
  deleted := by
    intro hd
    simp only [PolicyRow.active, filter_isActive_map hact]
    exact List.map_eq_nil_iff.mpr (h.deleted hd)

theorem PolicyRow.Ok.append {p : PolicyRow} (h : p.Ok) {v : Version}
    (hid : v.id ∉ p.versions.map Version.id) (hv : v.isActive = false) :
    ({ p with versions := p.versions ++ [v] } : PolicyRow).Ok where
  ids := by
    rw [List.map_append, List.map_singleton]
    exact List.nodup_append.mpr ⟨h.ids, List.nodup_singleton _, fun a ha b hb => by
      rintro rfl
      rw [List.mem_singleton] at hb
      exact hid (hb ▸ ha)⟩
  oneActive := by
    simpa only [PolicyRow.active, List.filter_append, List.filter_cons, hv, Bool.false_eq_true,
      if_false, List.filter_nil, List.append_nil] using h.oneActive
  deleted := by
    simpa only [PolicyRow.active, List.filter_append, List.filter_cons, hv, Bool.false_eq_true,
      if_false, List.filter_nil, List.append_nil] using h.deleted

theorem PolicyRow.Ok.seal {p : PolicyRow} (h : p.Ok) (hd : p.deleted = false)
    (versionID caller : Uuid) :
    ({ p with versions := p.versions.map (sealVersion versionID caller) } : PolicyRow).Ok where
  ids := by
    have hm : (p.versions.map (sealVersion versionID caller)).map Version.id =
        p.versions.map Version.id := by
      rw [List.map_map]
      refine List.map_congr_left fun v _ => ?_
      simp only [Function.comp_apply, sealVersion]
      split <;> rfl
    rw [hm]
    exact h.ids
  oneActive := by
    have key : ∀ u ∈ (p.versions.map (sealVersion versionID caller)).filter Version.isActive,
        ∃ w ∈ p.versions, w.id = versionID ∧ u = sealVersion versionID caller w := by
      intro u hu
      obtain ⟨hu, hact⟩ := List.mem_filter.mp hu
      obtain ⟨w, hw, rfl⟩ := List.mem_map.mp hu
      refine ⟨w, hw, ?_, rfl⟩
      by_contra hne
      simp [sealVersion, hne] at hact
    intro u hu v hv
    obtain ⟨u', hu', hui, rfl⟩ := key u hu
    obtain ⟨v', hv', hvi, rfl⟩ := key v hv
    rw [List.inj_on_of_nodup_map h.ids hu' hv' (hui.trans hvi.symm)]
  deleted := by
    intro hd'
    exact absurd (hd.symm.trans hd') Bool.false_ne_true

theorem PolicyRow.Ok.deactivate {p : PolicyRow} (h : p.Ok) :
    ({ p with
      deleted := true
      versions := p.versions.map fun v => { v with isActive := false } } : PolicyRow).Ok := by
  have hm : (p.versions.map fun v => { v with isActive := false }).filter Version.isActive = [] := by
    rw [List.filter_eq_nil_iff]
    intro v hv
    obtain ⟨w, -, rfl⟩ := List.mem_map.mp hv
    exact Bool.false_ne_true
  refine ⟨?_, ?_, fun _ => hm⟩
  · have hids : (p.versions.map fun v => { v with isActive := false }).map Version.id =
        p.versions.map Version.id := by
      rw [List.map_map]
      rfl
    rw [hids]
    exact h.ids
  · intro u hu
    simp only [PolicyRow.active, hm, List.not_mem_nil] at hu

/-! ### Each call keeps them well formed -/

theorem versionTaken_eq_false {ps : Policies} {versionID : Uuid}
    (h : versionTaken ps versionID = false) {i : Uuid} {p : PolicyRow} (hp : ps.get? i = some p) :
    versionID ∉ p.versions.map Version.id := by
  intro hm
  obtain ⟨v, hv, rfl⟩ := List.mem_map.mp hm
  have : versionTaken ps v.id = true := List.any_eq_true.mpr
    ⟨(i, p), Table.mem_rows.mpr hp, List.any_eq_true.mpr ⟨v, hv, beq_self_eq_true _⟩⟩
  exact Bool.false_ne_true (h.symm.trans this)

theorem WellFormed.createPolicy {d : Directory} {ps ps' : Policies} {caller id versionID : Uuid}
    {name : String} {scopes : Option ScopeInput} (hw : WellFormed ps)
    (h : createPolicy d ps caller id versionID name scopes = .ok ps') : WellFormed ps' := by
  obtain ⟨name, row, hid, -, rfl, -⟩ := createPolicy_spec h
  have habove : ∀ {j q}, ps.get? j = some q → q.position < maxPosition ps.rows + 1 :=
    fun hq => Nat.lt_succ_of_le (le_maxPosition (Table.mem_rows.mpr hq))
  unfold insertPolicy
  split
  · rename_i hnone
    refine hw.set (PolicyRow.Ok.single _ _ rfl) fun _ j q _ hq hqd => ?_
    have hmem : (j, q) ∈ liveRows ps := mem_liveRows.mpr ⟨hq, hqd⟩
    rw [List.argmax_eq_none.mp hnone] at hmem
    cases hmem
  · rename_i last hlast
    obtain ⟨hl, hld⟩ := mem_liveRows.mp (List.argmax_mem hlast)
    have hr := hw.rows hl
    have hmoved : WellFormed (ps.set last.1 { last.2 with position := maxPosition ps.rows + 1 }) :=
      hw.set ⟨hr.ids, hr.oneActive, hr.deleted⟩ fun _ j q _ hq _ => (habove hq).ne
    refine hmoved.set (PolicyRow.Ok.single _ _ rfl) fun _ j q hj hq hqd => ?_
    rw [Table.get?_set] at hq
    split at hq
    · cases hq
      exact (habove hl).ne'
    · rename_i hne
      exact fun heq => hne (hw.positions hq hl hqd hld heq)

theorem WellFormed.putDraft {d : Directory} {ps ps' : Policies} {caller id versionID : Uuid}
    {name : Option String} {scopes : Option ScopeInput} {steps : List Step} (hw : WellFormed ps)
    (h : putDraft d ps caller id versionID name scopes steps = .ok ps') : WellFormed ps' := by
  obtain ⟨p, name, q, draftID, row, hp, hd, hq, rfl, -⟩ := putDraft_spec h
  have hp' : ({ p with name := name } : PolicyRow).Ok := by
    have hr := hw.rows hp
    exact ⟨hr.ids, hr.oneActive, hr.deleted⟩
  have hkeep : ∀ {r : PolicyRow}, r.Ok →
      ({ r with versions := r.versions.map (writeDraft draftID row steps) } : PolicyRow).Ok := by
    intro r hr
    refine hr.mapVersions (fun v => ?_) fun v => ?_
    · unfold writeDraft
      split <;> rfl
    · unfold writeDraft
      split <;> rfl
  rcases openDraft_spec hq with rfl | ⟨hv, -, v, rfl, hact, rfl⟩
  · exact hw.set_versions hp hd (hkeep hp') rfl
  · have hfresh : v.id ∉ p.versions.map Version.id := versionTaken_eq_false hv hp
    exact hw.set_versions hp hd (hkeep (hp'.append hfresh hact)) rfl

theorem WellFormed.publishVersion {d : Directory} {ps ps' : Policies} {caller id : Uuid}
    (hw : WellFormed ps) (h : publishVersion d ps caller id = .ok ps') : WellFormed ps' := by
  obtain ⟨p, v, hp, hd, -, rfl, -⟩ := publishVersion_spec h
  exact hw.set_versions hp hd ((hw.rows hp).seal hd v.id caller) rfl

theorem WellFormed.deletePolicy {d : Directory} {ps ps' : Policies} {caller id : Uuid}
    (hw : WellFormed ps) (h : deletePolicy d ps caller id = .ok ps') : WellFormed ps' := by
  obtain ⟨p, hp, hd, rfl, -⟩ := deletePolicy_spec h
  exact hw.set_versions hp hd (hw.rows hp).deactivate rfl

theorem lookup_zip_getElem? {as : List Uuid} {bs : List ℕ} {a : Uuid} {b : ℕ}
    (h : (as.zip bs).lookup a = some b) : ∃ n : ℕ, as[n]? = some a ∧ bs[n]? = some b := by
  induction as generalizing bs with
  | nil => cases h
  | cons x as ih =>
    cases bs with
    | nil => cases h
    | cons y bs =>
      rw [List.zip_cons_cons, List.lookup_cons] at h
      split at h
      · rename_i heq
        cases h
        exact ⟨0, congrArg some (beq_iff_eq.mp heq).symm, rfl⟩
      · obtain ⟨n, ha, hb⟩ := ih h
        exact ⟨n + 1, ha, hb⟩

theorem lookup_zip_isSome {as : List Uuid} {bs : List ℕ} {a : Uuid} (ha : a ∈ as)
    (hlen : as.length = bs.length) : ∃ b, (as.zip bs).lookup a = some b := by
  induction as generalizing bs with
  | nil => cases ha
  | cons x as ih =>
    cases bs with
    | nil => cases hlen
    | cons y bs =>
      rw [List.zip_cons_cons, List.lookup_cons]
      split
      · exact ⟨y, rfl⟩
      · rename_i hne
        refine ih ?_ (Nat.succ.inj hlen)
        rcases List.mem_cons.mp ha with rfl | ha
        · exact absurd (beq_self_eq_true a) (by rw [hne]; exact Bool.false_ne_true)
        · exact ha

theorem liveInOrder_perm (ps : Policies) : (liveInOrder ps).Perm (liveRows ps) :=
  List.perm_insertionSort _ _

theorem WellFormed.positions_nodup {ps : Policies} (hw : WellFormed ps) :
    ((liveInOrder ps).map fun p => p.2.position).Nodup := by
  have hnd : (liveRows ps).Nodup := (Table.rows_nodup ps).filter _
  refine List.Nodup.map_on ?_ ((liveInOrder_perm ps).nodup_iff.mpr hnd)
  rintro ⟨i, p⟩ hp ⟨j, q⟩ hq heq
  obtain ⟨hp, hpd⟩ := mem_liveRows.mp ((liveInOrder_perm ps).mem_iff.mp hp)
  obtain ⟨hq, hqd⟩ := mem_liveRows.mp ((liveInOrder_perm ps).mem_iff.mp hq)
  obtain rfl := hw.positions hp hq hpd hqd heq
  rw [hp] at hq
  cases hq
  rfl

theorem get?_permutePositions {ps : Policies} {ids : List Uuid} {positions : List ℕ} {i : Uuid}
    {r : PolicyRow} (h : (permutePositions ps ids positions).get? i = some r) :
    ∃ p, ps.get? i = some p ∧ r.versions = p.versions ∧ r.deleted = p.deleted ∧
      r.position = ((ids.zip positions).lookup i).getD p.position := by
  rw [permutePositions, Table.get?_mapRows] at h
  obtain ⟨p, hp, rfl⟩ := Option.map_eq_some_iff.mp h
  refine ⟨p, hp, ?_⟩
  split
  · rename_i b hb
    exact ⟨rfl, rfl, by rw [hb, Option.getD_some]⟩
  · rename_i hnone
    exact ⟨rfl, rfl, by rw [hnone, Option.getD_none]⟩

theorem WellFormed.permutePositions {ps : Policies} (hw : WellFormed ps) {ids : List Uuid}
    (hlen : ids.length = (liveInOrder ps).length)
    (hall : ∀ e ∈ liveInOrder ps, e.1 ∈ ids) :
    WellFormed (permutePositions ps ids ((liveInOrder ps).map fun p => p.2.position)) where
  rows := by
    intro i r hr
    obtain ⟨p, hp, hv, hd, -⟩ := get?_permutePositions hr
    have ho := hw.rows hp
    refine ⟨hv ▸ ho.ids, ?_, ?_⟩
    · simpa only [PolicyRow.active, hv] using ho.oneActive
    · simpa only [PolicyRow.active, hv, hd] using ho.deleted
  positions := by
    have place : ∀ {i r},
        (Approval.permutePositions ps ids ((liveInOrder ps).map fun p => p.2.position)).get? i =
          some r → r.deleted = false → ∃ n : ℕ, ids[n]? = some i ∧
            ((liveInOrder ps).map fun p => p.2.position)[n]? = some r.position := by
      intro i r hr hd
      obtain ⟨p, hp, -, hpd, hpos⟩ := get?_permutePositions hr
      have hmem := hall _ ((liveInOrder_perm ps).mem_iff.mpr (mem_liveRows.mpr ⟨hp, hpd ▸ hd⟩))
      have hsame : ids.length = ((liveInOrder ps).map fun p => p.2.position).length := by
        rw [List.length_map, hlen]
      obtain ⟨b, hb⟩ := lookup_zip_isSome hmem hsame
      rw [hb, Option.getD_some] at hpos
      rw [hpos]
      exact lookup_zip_getElem? hb
    intro i j p q hp hq hpd hqd heq
    obtain ⟨m, hmi, hmp⟩ := place hp hpd
    obtain ⟨n, hnj, hnq⟩ := place hq hqd
    rw [heq] at hmp
    obtain ⟨hm, hmp⟩ := List.getElem?_eq_some_iff.mp hmp
    obtain ⟨hn', hnq⟩ := List.getElem?_eq_some_iff.mp hnq
    obtain rfl := (hw.positions_nodup.getElem_inj_iff).mp (hmp.trans hnq.symm)
    rw [hmi] at hnj
    exact Option.some.inj hnj

theorem WellFormed.reorderPolicies {d : Directory} {ps ps' : Policies} {caller : Uuid}
    {ids : List Uuid} (hw : WellFormed ps) (h : reorderPolicies d ps caller ids = .ok ps') :
    WellFormed ps' := by
  rcases reorderPolicies_spec h with rfl | ⟨hlen, hall, rfl, -⟩
  · exact hw
  · exact hw.permutePositions hlen hall

/-! ### The list the engine reads -/

theorem InForceVersion.le_total (a b : InForceVersion) : a.le b ∨ b.le a := by
  rcases Nat.lt_trichotomy a.position b.position with h | h | h
  · exact .inl (.inl h)
  · rcases Nat.le_total a.policyID.toNat b.policyID.toNat with hp | hp
    · exact .inl (.inr ⟨h, hp⟩)
    · exact .inr (.inr ⟨h.symm, hp⟩)
  · exact .inr (.inl h)

theorem InForceVersion.le_trans {a b c : InForceVersion} (hab : a.le b) (hbc : b.le c) : a.le c := by
  rcases hab with hab | ⟨hab, hp⟩ <;> rcases hbc with hbc | ⟨hbc, hq⟩
  · exact .inl (hab.trans hbc)
  · exact .inl (hbc ▸ hab)
  · exact .inl (hab ▸ hbc)
  · exact .inr ⟨hab.trans hbc, Nat.le_trans hp hq⟩

theorem InForceVersion.position_le {a b : InForceVersion} (h : a.le b) : a.position ≤ b.position := by
  rcases h with h | ⟨h, -⟩
  · exact h.le
  · exact h.le

instance : Std.Total InForceVersion.le := ⟨InForceVersion.le_total⟩
instance : IsTrans InForceVersion InForceVersion.le := ⟨fun _ _ _ => InForceVersion.le_trans⟩
instance : Std.Refl InForceVersion.le := ⟨fun a => (InForceVersion.le_total a a).elim id id⟩

theorem mem_readInForceVersionsTx {ps : Policies} {v : InForceVersion} :
    v ∈ readInForceVersionsTx ps ↔ v ∈ activeRows ps :=
  (List.perm_insertionSort _ _).mem_iff

theorem position_le_last {ps : Policies} {v w : InForceVersion}
    (hlast : (readInForceVersionsTx ps).getLast? = some v) (hw : w ∈ activeRows ps) :
    w.position ≤ v.position := by
  have hmem := mem_readInForceVersionsTx.mpr hw
  have hrel := (List.pairwise_insertionSort InForceVersion.le (activeRows ps)).rel_getLast hmem
  have hv : (readInForceVersionsTx ps).getLast (List.ne_nil_of_mem hmem) = v := by
    rw [List.getLast?_eq_some_getLast (List.ne_nil_of_mem hmem)] at hlast
    exact Option.some.inj hlast
  exact InForceVersion.position_le (hv ▸ hrel)

theorem activeRows_position_inj {ps : Policies} (hw : WellFormed ps) {v w : InForceVersion}
    (hv : v ∈ activeRows ps) (hw' : w ∈ activeRows ps) (h : v.position = w.position) : v = w := by
  obtain ⟨i, p, hp, hpd, a, ha, rfl⟩ := mem_activeRows.mp hv
  obtain ⟨j, q, hq, hqd, b, hb, rfl⟩ := mem_activeRows.mp hw'
  obtain rfl := hw.positions hp hq hpd hqd h
  rw [hp] at hq
  cases hq
  rw [(hw.rows hp).oneActive a ha b hb]

theorem scoped_eq_false_iff (v : InForceVersion) : v.scopes.scoped = false ↔ v.unscoped := by
  simp only [Scopes.scoped, InForceVersion.unscoped, Bool.or_eq_false_iff, Bool.not_eq_false',
    List.isEmpty_iff, Option.isSome_eq_false_iff, Option.isNone_iff_eq_none, and_assoc]
  constructor
  · rintro ⟨ht, he, hr, hb⟩
    exact ⟨ht, he, hb, hr⟩
  · rintro ⟨ht, he, hb, hr⟩
    exact ⟨ht, he, hr, hb⟩

theorem lastInForce_unscoped {ps : Policies} (hw : WellFormed ps)
    (hc : lastScoped ((activeRows ps).map fun v => (v.position, v.scopes.scoped)) = false)
    {v : InForceVersion} (hlast : (readInForceVersionsTx ps).getLast? = some v) : v.unscoped := by
  have hv : v ∈ activeRows ps := mem_readInForceVersionsTx.mp (List.mem_of_getLast? hlast)
  have hvm := List.mem_map_of_mem (f := fun v => (v.position, v.scopes.scoped)) hv
  unfold lastScoped at hc
  split at hc
  · rename_i r hr
    obtain ⟨w, hwm, rfl⟩ := List.mem_map.mp (List.argmax_mem hr)
    have hvw := List.le_of_mem_argmax (f := Prod.fst) hvm hr
    obtain rfl := activeRows_position_inj hw hv hwm (hvw.antisymm (position_le_last hlast hwm))
    exact (scoped_eq_false_iff _).mp hc
  · rename_i hnone
    rw [List.argmax_eq_none.mp hnone] at hvm
    cases hvm

structure CatchAllLast (ps : Policies) : Prop where
  wf : WellFormed ps
  last : ∀ v, (readInForceVersionsTx ps).getLast? = some v → v.unscoped

theorem CatchAllLast.of_check {ps : Policies} (hw : WellFormed ps) {u : Unit}
    (hc : requireCatchAllLastTx ps = .ok u) : CatchAllLast ps where
  wf := hw
  last := fun _ => lastInForce_unscoped hw (requireCatchAllLastTx_eq_ok.mp hc).2

theorem CatchAllLast.empty : CatchAllLast ∅ where
  wf := ⟨fun h => absurd h (by simp), fun h => absurd h (by simp)⟩
  last := by
    intro v h
    cases h

theorem CatchAllLast.firstMatch_isSome {ps : Policies} (h : CatchAllLast ps)
    (hne : readInForceVersionsTx ps ≠ []) (doc : MatchDoc) :
    (firstMatch doc (readInForceVersionsTx ps)).isSome :=
  firstMatch_isSome_of_unscoped doc (List.getLast_mem hne)
    (h.last _ (List.getLast?_eq_some_getLast hne))

theorem CatchAllLast.createPolicy {d : Directory} {ps ps' : Policies} {caller id versionID : Uuid}
    {name : String} {scopes : Option ScopeInput} (h : CatchAllLast ps)
    (hok : createPolicy d ps caller id versionID name scopes = .ok ps') : CatchAllLast ps' := by
  obtain ⟨-, -, -, -, -, hc⟩ := createPolicy_spec hok
  exact .of_check (h.wf.createPolicy hok) hc

theorem CatchAllLast.putDraft {d : Directory} {ps ps' : Policies} {caller id versionID : Uuid}
    {name : Option String} {scopes : Option ScopeInput} {steps : List Step} (h : CatchAllLast ps)
    (hok : putDraft d ps caller id versionID name scopes steps = .ok ps') : CatchAllLast ps' := by
  obtain ⟨-, -, -, -, -, -, -, -, -, hc⟩ := putDraft_spec hok
  exact .of_check (h.wf.putDraft hok) hc

theorem CatchAllLast.publishVersion {d : Directory} {ps ps' : Policies} {caller id : Uuid}
    (h : CatchAllLast ps) (hok : publishVersion d ps caller id = .ok ps') : CatchAllLast ps' := by
  obtain ⟨-, -, -, -, -, -, hc⟩ := publishVersion_spec hok
  exact .of_check (h.wf.publishVersion hok) hc

theorem CatchAllLast.deletePolicy {d : Directory} {ps ps' : Policies} {caller id : Uuid}
    (h : CatchAllLast ps) (hok : deletePolicy d ps caller id = .ok ps') : CatchAllLast ps' := by
  obtain ⟨-, -, -, -, hc⟩ := deletePolicy_spec hok
  exact .of_check (h.wf.deletePolicy hok) hc

theorem CatchAllLast.reorderPolicies {d : Directory} {ps ps' : Policies} {caller : Uuid}
    {ids : List Uuid} (h : CatchAllLast ps)
    (hok : reorderPolicies d ps caller ids = .ok ps') : CatchAllLast ps' := by
  rcases reorderPolicies_spec hok with rfl | ⟨-, -, -, hc⟩
  · exact h
  · exact .of_check (h.wf.reorderPolicies hok) hc

inductive PolicyEdit where
  | create (caller id versionID : Uuid) (name : String) (scopes : Option ScopeInput)
  | putDraft (caller id versionID : Uuid) (name : Option String) (scopes : Option ScopeInput)
      (steps : List Step)
  | delete (caller id : Uuid)
  | reorder (caller : Uuid) (ids : List Uuid)

def PolicyEdit.call (d : Directory) (ps : Policies) : PolicyEdit → Except Err Policies
  | .create caller id versionID name scopes => createPolicy d ps caller id versionID name scopes
  | .putDraft caller id versionID name scopes steps =>
    Approval.putDraft d ps caller id versionID name scopes steps
  | .delete caller id => deletePolicy d ps caller id
  | .reorder caller ids => reorderPolicies d ps caller ids

theorem CatchAllLast.policyEdit {d : Directory} {ps ps' : Policies} {e : PolicyEdit}
    (h : CatchAllLast ps) (hok : e.call d ps = .ok ps') : CatchAllLast ps' := by
  cases e with
  | create caller id versionID name scopes => exact h.createPolicy hok
  | putDraft caller id versionID name scopes steps => exact h.putDraft hok
  | delete caller id => exact h.deletePolicy hok
  | reorder caller ids => exact h.reorderPolicies hok

/-! ### Some version in force -/

def InForce (ps : Policies) : Prop :=
  ∃ i p v, ps.get? i = some p ∧ v ∈ p.versions ∧ v.isActive = true

theorem WellFormed.inForce_iff {ps : Policies} (hw : WellFormed ps) :
    InForce ps ↔ readInForceVersionsTx ps ≠ [] := by
  constructor
  · rintro ⟨i, p, v, hp, hv, hact⟩
    have hmem : v ∈ p.active := List.mem_filter.mpr ⟨hv, hact⟩
    have hd : p.deleted = false := by
      rw [Bool.eq_false_iff]
      intro hdel
      rw [(hw.rows hp).deleted hdel] at hmem
      cases hmem
    have hrow := mem_activeRows.mpr ⟨i, p, hp, hd, v, hmem, rfl⟩
    exact List.ne_nil_of_mem (mem_readInForceVersionsTx.mpr hrow)
  · intro hne
    obtain ⟨w, hw⟩ := List.exists_mem_of_ne_nil _ hne
    obtain ⟨i, p, hp, -, v, hv, -⟩ := mem_activeRows.mp (mem_readInForceVersionsTx.mp hw)
    obtain ⟨hv, hact⟩ := List.mem_filter.mp hv
    exact ⟨i, p, v, hp, hv, hact⟩

theorem InForce.of_set {ps : Policies} {i : Uuid} {q : PolicyRow} (h : InForce (ps.set i q))
    (hq : ∀ v ∈ q.versions, v.isActive = true → InForce ps) : InForce ps := by
  obtain ⟨j, p, v, hp, hv, hact⟩ := h
  rw [Table.get?_set] at hp
  split at hp
  · cases hp
    exact hq v hv hact
  · exact ⟨j, p, v, hp, hv, hact⟩

theorem InForce.policyEdit {d : Directory} {ps ps' : Policies} {e : PolicyEdit}
    (hok : e.call d ps = .ok ps') (h : InForce ps') : InForce ps := by
  cases e with
  | create caller id versionID name scopes =>
    obtain ⟨name, row, -, -, rfl, -⟩ := createPolicy_spec hok
    have hnew : ∀ v ∈ [({ id := versionID, version := 1, scopes := row } : Version)],
        ¬ v.isActive = true := by
      intro v hv hact
      rw [List.mem_singleton.mp hv] at hact
      cases hact
    unfold insertPolicy at h
    split at h
    · exact h.of_set fun v hv hact => absurd hact (hnew v hv)
    · rename_i last hlast
      have hl := (mem_liveRows.mp (List.argmax_mem hlast)).1
      have hmid := h.of_set fun v hv hact => absurd hact (hnew v hv)
      exact hmid.of_set fun v hv hact => ⟨last.1, last.2, v, hl, hv, hact⟩
  | putDraft caller id versionID name scopes steps =>
    obtain ⟨p, name, q, draftID, row, hp, -, hq, rfl, -⟩ := putDraft_spec hok
    refine h.of_set fun v hv hact => ?_
    obtain ⟨w, hw, rfl⟩ := List.mem_map.mp hv
    have hwact : w.isActive = true := by
      unfold writeDraft at hact
      split at hact <;> exact hact
    rcases openDraft_spec hq with rfl | ⟨-, -, u, -, hu, rfl⟩
    · exact ⟨id, p, w, hp, hw, hwact⟩
    · rcases List.mem_append.mp hw with hw | hw
      · exact ⟨id, p, w, hp, hw, hwact⟩
      · rw [List.mem_singleton.mp hw, hu] at hwact
        cases hwact
  | delete caller id =>
    obtain ⟨p, -, -, rfl, -⟩ := deletePolicy_spec hok
    refine h.of_set fun v hv hact => ?_
    obtain ⟨w, -, rfl⟩ := List.mem_map.mp hv
    cases hact
  | reorder caller ids =>
    rcases reorderPolicies_spec hok with rfl | ⟨-, -, rfl, -⟩
    · exact h
    · obtain ⟨i, p, v, hp, hv, hact⟩ := h
      obtain ⟨q, hq, rfl⟩ := Option.map_eq_some_iff.mp ((Table.get?_mapRows _ _ _).symm.trans hp)
      refine ⟨i, q, v, hq, ?_, hact⟩
      split at hv <;> exact hv

theorem publishVersion_inForce {d : Directory} {ps ps' : Policies} {caller id : Uuid}
    (hok : publishVersion d ps caller id = .ok ps') : InForce ps' := by
  obtain ⟨p, v, -, -, hv, rfl, -⟩ := publishVersion_spec hok
  refine ⟨id, _, sealVersion v.id caller v, Table.get?_set_self _ _ _, ?_, ?_⟩
  · exact List.mem_map.mpr ⟨v, List.mem_of_find?_eq_some hv, rfl⟩
  · unfold sealVersion
    rw [if_pos rfl]

end InvoiceOs.Approval
