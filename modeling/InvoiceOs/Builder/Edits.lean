import InvoiceOs.Builder.Lanes
import InvoiceOs.Lib.Run

/-! What the reducers do to the lanes of a policy: each changes the node it names and leaves every
other node where it stands. -/

namespace InvoiceOs.Builder

open Lib

def WfNode.own (n : WfNode) (laneKey : String) : Option (List WfNode) :=
  if n.isCondition then
    if laneKey = branchKey n.id false then some ((n.lane false).map WfNode.bare)
    else if laneKey = branchKey n.id true then some ((n.lane true).map WfNode.bare)
    else none
  else none

structure Fresh (p : Policy) (n : WfNode) : Prop where
  fine : n.Fine
  distinct : n.ids.Nodup
  new : ∀ id ∈ n.ids, id ∉ p.ids

section
variable {p : Policy} {n m : WfNode} {laneKey key' id : String} {index i : ℕ} {l : List WfNode}

theorem branchKey_ne (id : String) : branchKey id true ≠ branchKey id false := by
  unfold branchKey
  intro h
  have hsuffix := String.append_right_inj id |>.mp h
  exact absurd hsuffix (by decide)

theorem own_eq_some : n.own laneKey = some l ↔
    n.isCondition = true ∧ ∃ e, laneKey = branchKey n.id e ∧ l = (n.lane e).map WfNode.bare := by
  unfold WfNode.own
  cases hc : n.isCondition with
  | false => simp
  | true =>
    rw [if_pos rfl]
    constructor
    · intro h
      split at h
      · rename_i hkey
        exact ⟨rfl, false, hkey, (Option.some.inj h).symm⟩
      · split at h
        · rename_i hkey
          exact ⟨rfl, true, hkey, (Option.some.inj h).symm⟩
        · cases h
    · rintro ⟨-, e, rfl, rfl⟩
      cases e with
      | false => rw [if_pos rfl]
      | true => rw [if_neg (branchKey_ne n.id), if_pos rfl]

theorem own_of_not_condition (h : n.isCondition = false) (laneKey : String) :
    n.own laneKey = none := by
  unfold WfNode.own
  rw [h]
  rfl

theorem own_root (n : WfNode) : n.own "root" = none := by
  refine Option.eq_none_iff_forall_ne_some.mpr fun l h => ?_
  obtain ⟨-, e, hkey, -⟩ := own_eq_some.mp h
  exact branchKey_ne_root _ _ hkey.symm

namespace Policy

theorem Tidy.rows_own (h : p.Tidy) (hne : laneKey ≠ "root") :
    p.rows laneKey = some l ↔ ∃ n ∈ p.nodes, n.own laneKey = some l := by
  rw [h.rows_eq_some]
  constructor
  · rintro (⟨rfl, -⟩ | ⟨n, hn, hc, hkey⟩)
    · exact absurd rfl hne
    · exact ⟨n, hn, own_eq_some.mpr ⟨hc, hkey⟩⟩
  · rintro ⟨n, hn, hown⟩
    obtain ⟨hc, hkey⟩ := own_eq_some.mp hown
    exact .inr ⟨n, hn, hc, hkey⟩

theorem own_apart (hn : n.Fine) (hm : m.Fine) (hne : n.id ≠ m.id) (h : n.own laneKey = some l) :
    m.own laneKey = none := by
  refine Option.eq_none_iff_forall_ne_some.mpr fun l' h' => ?_
  obtain ⟨hc, e, rfl, -⟩ := own_eq_some.mp h
  obtain ⟨hc', e', hkey, -⟩ := own_eq_some.mp h'
  exact hne (branchKey_inj (hn.plain hc) (hm.plain hc') hkey).1

theorem rows_lane (hlane : p.IsLane laneKey) :
    p.rows laneKey = some ((getLane p laneKey).map WfNode.bare) := if_pos hlane

theorem Tidy.nodup_lane (h : p.Tidy) (hlane : p.IsLane laneKey) :
    ((getLane p laneKey).map WfNode.id).Nodup := by
  obtain ⟨rest, hperm, -⟩ := h.ids_write hlane
  have hnodup := (hperm.nodup_iff.mp h.distinct)
  exact (List.nodup_append.mp hnodup).1.sublist (map_id_sublist _)

/-! ### One insertion -/

theorem Tidy.insert (h : p.Tidy) (hlane : p.IsLane laneKey) (hfresh : Fresh p n)
    (hdrop : laneKey ≠ "root" → n.isCondition = false) (index : ℕ) :
    (withLane p laneKey (spliced (getLane p laneKey) index 0 (some n))).Tidy ∧
      ∀ key', (withLane p laneKey (spliced (getLane p laneKey) index 0 (some n))).rows key' =
        if key' = laneKey then
          (p.rows laneKey).map fun l => l.take index ++ n.bare :: l.drop index
        else (n.own key').or (p.rows key') := by
  have hspliced : spliced (getLane p laneKey) index 0 (some n) =
      (getLane p laneKey).take index ++ n :: (getLane p laneKey).drop index := by
    simp [spliced]
  rw [hspliced]
  have hmem : ∀ m ∈ (getLane p laneKey).take index ++ n :: (getLane p laneKey).drop index,
      m = n ∨ m ∈ getLane p laneKey := by
    intro m hm
    obtain hm | hm := List.mem_append.mp hm
    · exact .inr (List.mem_of_mem_take hm)
    · exact (List.mem_cons.mp hm).imp_right List.mem_of_mem_drop
  have hnext : ((getLane p laneKey).take index ++ n :: (getLane p laneKey).drop index).Perm
      (n :: getLane p laneKey) := by
    refine List.perm_middle.trans ?_
    rw [List.take_append_drop]
  have htidy : (withLane p laneKey ((getLane p laneKey).take index ++
      n :: (getLane p laneKey).drop index)).Tidy := by
    refine h.write hlane (fun m hm => ?_) (fun hne m hm => ?_) (fun rest hrest => ?_)
    · obtain rfl | hm := hmem m hm
      · exact hfresh.fine
      · exact (h.mem_lane hlane hm).1
    · obtain rfl | hm := hmem m hm
      · exact hdrop hne
      · exact (h.mem_lane hlane hm).2.2 hne
    · have hperm := (hnext.flatMap_right WfNode.ids).append_right rest
      rw [hperm.nodup_iff, List.flatMap_cons, List.append_assoc]
      refine List.nodup_append.mpr ⟨hfresh.distinct, hrest.nodup_iff.mp h.distinct, ?_⟩
      rintro id hid _ hid' rfl
      exact hfresh.new id hid (hrest.mem_iff.mpr hid')
  refine ⟨htidy, fun key' => ?_⟩
  rw [rows_lane hlane, Option.map_some, ← List.map_take, ← List.map_drop, ← List.map_cons,
    ← List.map_append]
  obtain rfl | ⟨c, hc, hcond, e, rfl⟩ := hlane
  · rw [withLane_root, getLane_root] at htidy ⊢
    split
    · rename_i hkey
      rw [hkey, rows_root]
    · rename_i hkey
      refine Option.ext fun l => ?_
      rw [htidy.rows_own hkey, Option.or_eq_some_iff, h.rows_own hkey]
      have hmem' : ∀ m, m ∈ p.nodes.take index ++ n :: p.nodes.drop index ↔ m = n ∨ m ∈ p.nodes := by
        rw [getLane_root] at hnext
        intro m
        rw [hnext.mem_iff, List.mem_cons]
      constructor
      · rintro ⟨m, hm, hown⟩
        obtain rfl | hm := (hmem' m).mp hm
        · exact .inl hown
        · refine .inr ⟨own_apart (h.fine m hm) hfresh.fine (fun heq => ?_) hown, m, hm, hown⟩
          exact hfresh.new n.id List.mem_cons_self
            (mem_ids.mpr ⟨m, hm, heq ▸ List.mem_cons_self⟩)
      · rintro (hown | ⟨-, m, hm, hown⟩)
        · exact ⟨n, (hmem' n).mpr (.inl rfl), hown⟩
        · exact ⟨m, (hmem' m).mpr (.inr hm), hown⟩
  · rw [h.rows_write hc hcond htidy, own_of_not_condition (hdrop (branchKey_ne_root _ _)),
      Option.none_or]

/-! ### One removal -/

theorem exists_split {α : Type*} {l : List α} {i : ℕ} {a : α} (h : l[i]? = some a) :
    ∃ pre post, l = pre ++ a :: post ∧ pre.length = i := by
  induction l generalizing i with
  | nil => cases h
  | cons b l ih =>
    cases i with
    | zero =>
      obtain rfl := Option.some.inj h
      exact ⟨[], l, rfl, rfl⟩
    | succ i =>
      obtain ⟨pre, post, rfl, rfl⟩ := ih h
      exact ⟨b :: pre, post, rfl, rfl⟩

theorem filter_split {pre post : List WfNode} (h : ((pre ++ n :: post).map WfNode.id).Nodup) :
    (pre ++ n :: post).filter (fun m => m.id != n.id) = pre ++ post := by
  rw [List.map_append, List.map_cons, List.nodup_middle, List.nodup_cons, List.mem_append, not_or]
    at h
  have hall : ∀ l : List WfNode, n.id ∉ l.map WfNode.id → l.filter (fun m => m.id != n.id) = l := by
    intro l hl
    refine List.filter_eq_self.mpr fun m hm => bne_iff_ne.mpr fun heq => hl ?_
    exact heq ▸ List.mem_map_of_mem hm
  rw [List.filter_append, List.filter_cons, hall pre h.1.1, hall post h.1.2, bne_self_eq_false]
  rfl

def without (id : String) (l : List WfNode) : List WfNode := l.filter fun m => m.id != id

theorem without_map_bare (id : String) (l : List WfNode) :
    without id (l.map WfNode.bare) = (l.filter fun m => m.id != id).map WfNode.bare := by
  unfold without
  rw [List.filter_map]
  simp only [Function.comp_def, id_bare]

theorem Tidy.remove (h : p.Tidy) (hlane : p.IsLane laneKey)
    (hi : (getLane p laneKey)[i]? = some n) :
    (withLane p laneKey (spliced (getLane p laneKey) i 1 none)).Tidy ∧
      p.ids.Perm (n.ids ++ (withLane p laneKey (spliced (getLane p laneKey) i 1 none)).ids) ∧
      ∀ key', (withLane p laneKey (spliced (getLane p laneKey) i 1 none)).rows key' =
        if key' = laneKey then (p.rows laneKey).map (without n.id)
        else if (n.own key').isSome then none else p.rows key' := by
  have hn : n ∈ getLane p laneKey := List.mem_of_getElem? hi
  obtain ⟨hfine, -, hleaf⟩ := h.mem_lane hlane hn
  obtain ⟨pre, post, hsplit, hlength⟩ := exists_split hi
  have hnext : spliced (getLane p laneKey) i 1 none = pre ++ post := by
    rw [hsplit, ← hlength]
    simp [spliced]
  have hwithout : without n.id ((getLane p laneKey).map WfNode.bare) =
      (pre ++ post).map WfNode.bare := by
    have hnodup := h.nodup_lane hlane
    rw [hsplit] at hnodup
    rw [without_map_bare, hsplit, filter_split hnodup]
  have hmem : ∀ m ∈ pre ++ post, m ∈ getLane p laneKey := by
    intro m hm
    rw [hsplit, List.mem_append, List.mem_cons]
    exact (List.mem_append.mp hm).imp_right .inr
  have hperm : (getLane p laneKey).Perm (n :: (pre ++ post)) := hsplit ▸ List.perm_middle
  have hflat : laneKey ≠ "root" → ∀ m ∈ pre ++ post, m.isCondition = false :=
    fun hne m hm => (h.mem_lane hlane (hmem m hm)).2.2 hne
  rw [hnext]
  have htidy : (withLane p laneKey (pre ++ post)).Tidy := by
    refine h.write hlane (fun m hm => (h.mem_lane hlane (hmem m hm)).1) hflat fun rest hrest => ?_
    have hids := (hperm.flatMap_right WfNode.ids).append_right rest
    have hnodup := (hrest.trans hids).nodup_iff.mp h.distinct
    rw [List.flatMap_cons, List.append_assoc] at hnodup
    exact (List.nodup_append.mp hnodup).2.1
  refine ⟨htidy, ?_, fun key' => ?_⟩
  · obtain ⟨rest, hrest, hwrite⟩ := h.ids_write hlane
    refine hrest.trans (((hperm.flatMap_right WfNode.ids).append_right rest).trans ?_)
    rw [List.flatMap_cons, List.append_assoc]
    exact (hwrite _ hflat).symm.append_left n.ids
  rw [rows_lane hlane, Option.map_some, hwithout]
  obtain rfl | ⟨c, hc, hcond, e, rfl⟩ := hlane
  · rw [withLane_root] at htidy ⊢
    rw [getLane_root] at hmem hsplit
    split
    · rename_i hkey
      rw [hkey, rows_root]
    · rename_i hkey
      refine Option.ext fun l => ?_
      rw [htidy.rows_own hkey]
      have hdistinct : ∀ m ∈ pre ++ post, m.id ≠ n.id := by
        intro m hm heq
        have hnodup := h.distinct.sublist (map_id_sublist p.nodes)
        rw [hsplit, List.map_append, List.map_cons, List.nodup_middle, List.nodup_cons,
          ← List.map_append] at hnodup
        exact hnodup.1 (heq ▸ List.mem_map_of_mem hm)
      constructor
      · rintro ⟨m, hm, hown⟩
        have hnone := own_apart (h.fine m (hmem m hm)) hfine (hdistinct m hm) hown
        rw [hnone, Option.isSome_none]
        exact (h.rows_own hkey).mpr ⟨m, hmem m hm, hown⟩
      · intro hrows
        split at hrows
        · cases hrows
        · rename_i hnone
          obtain ⟨m, hm, hown⟩ := (h.rows_own hkey).mp hrows
          refine ⟨m, ?_, hown⟩
          rw [hsplit, List.mem_append, List.mem_cons] at hm
          obtain hm | rfl | hm := hm
          · exact List.mem_append_left _ hm
          · exact absurd (Option.isSome_iff_exists.mpr ⟨l, hown⟩) hnone
          · exact List.mem_append_right _ hm
  · rw [h.rows_write hc hcond htidy, own_of_not_condition (hleaf (branchKey_ne_root _ _))]
    rfl

/-! ### One merge -/

theorem merge_rest {patch : NodePatch} (hthen : patch.thenLane = none)
    (helse : patch.elseLane = none) (n : WfNode) :
    (n.merge patch).id = n.id ∧ (n.merge patch).isCondition = n.isCondition ∧
      (∀ e, (n.merge patch).lane e = n.lane e) ∧ (n.merge patch).bare = n.bare.merge patch := by
  cases n with
  | branch n => cases n <;> exact ⟨rfl, rfl, fun _ => rfl, rfl⟩
  | condition id field op value thenLane elseLane =>
    simp only [WfNode.merge, WfNode.bare, WfNode.id, WfNode.isCondition, WfNode.lane, hthen, helse,
      Option.map_none, Option.getD_none, implies_true, and_self]

theorem Tidy.update (h : p.Tidy) (hlane : p.IsLane laneKey)
    (hi : (getLane p laneKey)[i]? = some n) {patch : NodePatch} (hthen : patch.thenLane = none)
    (helse : patch.elseLane = none) :
    (withLane p laneKey (spliced (getLane p laneKey) i 1 (some (n.merge patch)))).Tidy ∧
      ∀ key', (withLane p laneKey (spliced (getLane p laneKey) i 1 (some (n.merge patch)))).rows
          key' =
        if key' = laneKey then
          (p.rows laneKey).map (List.map fun m => if m.id = n.id then m.merge patch else m)
        else p.rows key' := by
  have hn : n ∈ getLane p laneKey := List.mem_of_getElem? hi
  obtain ⟨hfine, -, hleaf⟩ := h.mem_lane hlane hn
  obtain ⟨hid, hcondition, hlanes, hbare⟩ := merge_rest hthen helse n
  obtain ⟨pre, post, hsplit, hlength⟩ := exists_split hi
  have hnext : spliced (getLane p laneKey) i 1 (some (n.merge patch)) =
      pre ++ n.merge patch :: post := by
    rw [hsplit, ← hlength]
    simp [spliced]
  have hids : (n.merge patch).ids = n.ids := by
    unfold WfNode.ids
    rw [hid, hlanes, hlanes]
  have hmem : ∀ m ∈ pre ++ n.merge patch :: post, m = n.merge patch ∨ m ∈ getLane p laneKey := by
    intro m hm
    rw [hsplit, List.mem_append, List.mem_cons]
    obtain hm | hm := List.mem_append.mp hm
    · exact .inr (.inl hm)
    · exact (List.mem_cons.mp hm).imp_right fun hm => .inr (.inr hm)
  rw [hnext]
  have htidy : (withLane p laneKey (pre ++ n.merge patch :: post)).Tidy := by
    refine h.write hlane (fun m hm => ?_) (fun hne m hm => ?_) fun rest hrest => ?_
    · obtain rfl | hm := hmem m hm
      · refine ⟨fun e m hm => hfine.flat e m (hlanes e ▸ hm), fun hc => ?_⟩
        rw [hid]
        exact hfine.plain (hcondition ▸ hc)
      · exact (h.mem_lane hlane hm).1
    · obtain rfl | hm := hmem m hm
      · rw [hcondition]
        exact hleaf hne
      · exact (h.mem_lane hlane hm).2.2 hne
    · have hnodup := hrest.nodup_iff.mp h.distinct
      rw [hsplit, List.flatMap_append, List.flatMap_cons] at hnodup
      rw [List.flatMap_append, List.flatMap_cons, hids]
      exact hnodup
  refine ⟨htidy, fun key' => ?_⟩
  have hmap : ((getLane p laneKey).map WfNode.bare).map
      (fun m => if m.id = n.id then m.merge patch else m) =
      (pre ++ n.merge patch :: post).map WfNode.bare := by
    have hnodup := h.nodup_lane hlane
    rw [hsplit, List.map_append, List.map_cons, List.nodup_middle, List.nodup_cons,
      ← List.map_append] at hnodup
    have hsame : ∀ l : List WfNode, (∀ m ∈ l, m ∈ pre ++ post) →
        (l.map WfNode.bare).map (fun m => if m.id = n.id then m.merge patch else m) =
          l.map WfNode.bare := by
      intro l hl
      rw [List.map_map]
      refine List.map_congr_left fun m hm => if_neg fun heq => hnodup.1 ?_
      rw [id_bare] at heq
      exact heq ▸ List.mem_map_of_mem (hl m hm)
    rw [hsplit, List.map_append, List.map_append, List.map_cons, List.map_cons,
      hsame pre fun m hm => List.mem_append_left _ hm,
      hsame post fun m hm => List.mem_append_right _ hm, id_bare, if_pos rfl, List.map_append,
      List.map_cons, hbare]
  rw [rows_lane hlane, Option.map_some, hmap]
  obtain rfl | ⟨c, hc, hcond, e, rfl⟩ := hlane
  · rw [withLane_root] at htidy ⊢
    rw [getLane_root] at hsplit
    split
    · rename_i hkey
      rw [hkey, rows_root]
    · rename_i hkey
      refine Option.ext fun l => ?_
      rw [htidy.rows_own hkey, h.rows_own hkey]
      have hown : (n.merge patch).own key' = n.own key' := by
        unfold WfNode.own
        rw [hcondition, hid, hlanes, hlanes]
      rw [hsplit]
      simp only [List.mem_append, List.mem_cons, or_and_right, exists_or, exists_eq_left, hown]
  · exact h.rows_write hc hcond htidy key'

/-! ### Places -/

theorem Tidy.place_unique (h : p.Tidy) (hlane : p.IsLane laneKey) (hlane' : p.IsLane key')
    (hn : n ∈ getLane p laneKey) (hm : m ∈ getLane p key') (hid : n.id = m.id) :
    laneKey = key' ∧ n = m := by
  have hself : ∀ {c : WfNode} {e : Bool} {m : WfNode}, c ∈ p.nodes → m ∈ c.lane e → c.id ≠ m.id := by
    intro c e m hc hm heq
    have hnodup := (List.nodup_cons.mp (h.nodup_ids hc)).1
    rw [heq] at hnodup
    refine hnodup (List.mem_append.mpr ?_)
    cases e with
    | false => exact .inl (List.mem_map_of_mem hm)
    | true => exact .inr (List.mem_map_of_mem hm)
  obtain rfl | ⟨c, hc, hcond, e, rfl⟩ := hlane
  · rw [getLane_root] at hn
    obtain rfl | ⟨c, hc, hcond, e, rfl⟩ := hlane'
    · rw [getLane_root] at hm
      exact ⟨rfl, h.eq_of_id hn hm hid⟩
    · rw [h.lane_eq hc hcond] at hm
      obtain rfl := h.apart hn hc (i := n.id) List.mem_cons_self (hid ▸ mem_ids_lane hm)
      exact absurd hid (hself hn hm)
  · rw [h.lane_eq hc hcond] at hn
    obtain rfl | ⟨c', hc', hcond', e', rfl⟩ := hlane'
    · rw [getLane_root] at hm
      obtain rfl := h.apart hm hc (i := m.id) List.mem_cons_self (hid ▸ mem_ids_lane hn)
      exact absurd hid.symm (hself hm hn)
    · rw [h.lane_eq hc' hcond'] at hm
      obtain rfl := h.apart hc hc' (i := n.id) (mem_ids_lane hn) (hid ▸ mem_ids_lane hm)
      have hnodup := (List.nodup_cons.mp (h.nodup_ids hc)).2
      obtain ⟨hthen, helse, hdisjoint⟩ := List.nodup_append.mp hnodup
      have hbranch : e = e' := by
        by_contra hne
        cases e <;> cases e'
        · exact hne rfl
        · exact hdisjoint _ (List.mem_map_of_mem hn) _ (List.mem_map_of_mem hm) hid
        · exact hdisjoint _ (List.mem_map_of_mem hm) _ (List.mem_map_of_mem hn) hid.symm
        · exact hne rfl
      subst hbranch
      refine ⟨rfl, ?_⟩
      cases e with
      | false => exact List.inj_on_of_nodup_map hthen hn hm hid
      | true => exact List.inj_on_of_nodup_map helse hn hm hid

theorem findIn_eq_some {arr : List WfNode} {f : Found} (h : findIn laneKey arr id = some f) :
    f.node.id = id ∧ f.laneKey = laneKey ∧ arr[f.index]? = some f.node := by
  unfold findIn at h
  obtain ⟨i, hi, hf⟩ := Option.bind_eq_some_iff.mp h
  obtain ⟨n, hn, rfl⟩ := Option.map_eq_some_iff.mp hf
  obtain ⟨hlt, hmatch, -⟩ := List.findIdx?_eq_some_iff_getElem.mp hi
  rw [List.getElem?_eq_getElem hlt] at hn
  obtain rfl := Option.some.inj hn
  exact ⟨eq_of_beq hmatch, rfl, List.getElem?_eq_getElem hlt⟩

theorem findIn_eq_none {arr : List WfNode} (h : findIn laneKey arr id = none) :
    ∀ n ∈ arr, n.id ≠ id := by
  unfold findIn at h
  cases hi : arr.findIdx? fun n => n.id == id with
  | none =>
    intro n hn heq
    have hnone := List.findIdx?_eq_none_iff.mp hi n hn
    rw [heq, beq_self_eq_true] at hnone
    cases hnone
  | some i =>
    obtain ⟨hlt, -, -⟩ := List.findIdx?_eq_some_iff_getElem.mp hi
    rw [hi, Option.bind_some, List.getElem?_eq_getElem hlt] at h
    cases h

theorem Tidy.findNode_some (h : p.Tidy) {f : Found} (hf : findNode p id = some f) :
    f.node.id = id ∧ p.IsLane f.laneKey ∧ (getLane p f.laneKey)[f.index]? = some f.node := by
  unfold findNode at hf
  obtain hf | ⟨-, hf⟩ := Option.or_eq_some_iff.mp hf
  · obtain ⟨hid, hkey, hindex⟩ := findIn_eq_some hf
    rw [hkey, getLane_root]
    exact ⟨hid, .inl rfl, hindex⟩
  · obtain ⟨c, hc, hfound⟩ := List.exists_of_findSome?_eq_some hf
    split at hfound
    · rename_i hcond
      obtain ⟨e, hfound⟩ : ∃ e, findIn (branchKey c.id e) (c.lane e) id = some f := by
        obtain hfound | ⟨-, hfound⟩ := Option.or_eq_some_iff.mp hfound
        · exact ⟨false, hfound⟩
        · exact ⟨true, hfound⟩
      obtain ⟨hid, hkey, hindex⟩ := findIn_eq_some hfound
      rw [hkey, h.lane_eq hc hcond]
      exact ⟨hid, .inr ⟨c, hc, hcond, e, rfl⟩, hindex⟩
    · cases hfound

theorem findNode_none (h : findNode p id = none) : id ∉ p.ids := by
  unfold findNode at h
  obtain ⟨hroot, hbranches⟩ := Option.or_eq_none_iff.mp h
  intro hid
  obtain ⟨c, hc, hmem⟩ := mem_ids.mp hid
  obtain rfl | hmem := List.mem_cons.mp hmem
  · exact findIn_eq_none hroot c hc rfl
  · have hnone := List.findSome?_eq_none_iff.mp hbranches c hc
    split at hnone
    · obtain ⟨hthen, helse⟩ := Option.or_eq_none_iff.mp hnone
      obtain hmem | hmem := List.mem_append.mp hmem
      · obtain ⟨m, hm, rfl⟩ := List.mem_map.mp hmem
        exact findIn_eq_none hthen m hm rfl
      · obtain ⟨m, hm, rfl⟩ := List.mem_map.mp hmem
        exact findIn_eq_none helse m hm rfl
    · rename_i hleaf
      rw [lane_of_not_condition (Bool.not_eq_true _ ▸ hleaf),
        lane_of_not_condition (Bool.not_eq_true _ ▸ hleaf)] at hmem
      cases hmem

theorem Tidy.findNode_eq (h : p.Tidy) (hlane : p.IsLane laneKey) (hn : n ∈ getLane p laneKey) :
    ∃ i, findNode p n.id = some { node := n, laneKey := laneKey, index := i } ∧
      (getLane p laneKey)[i]? = some n := by
  cases hf : findNode p n.id with
  | none => exact absurd (h.mem_lane hlane hn).2.1 (findNode_none hf)
  | some f =>
    obtain ⟨hid, hlane', hindex⟩ := h.findNode_some hf
    obtain ⟨hkey, hnode⟩ := h.place_unique hlane hlane' hn (List.mem_of_getElem? hindex) hid.symm
    refine ⟨f.index, ?_, ?_⟩
    · rw [hkey, hnode]
    · rw [hkey, hnode]
      exact hindex

theorem Tidy.without_other (h : p.Tidy) (hlane : p.IsLane laneKey) (hn : n ∈ getLane p laneKey)
    (hne : key' ≠ laneKey) : (p.rows key').map (without n.id) = p.rows key' := by
  cases hrows : p.rows key' with
  | none => rfl
  | some l =>
    have hlane' : p.IsLane key' := by
      by_contra hnot
      rw [rows_eq_none.mpr hnot] at hrows
      cases hrows
    rw [rows_lane hlane'] at hrows
    obtain rfl := Option.some.inj hrows
    rw [Option.map_some, without_map_bare]
    congr 2
    refine List.filter_eq_self.mpr fun m hm => bne_iff_ne.mpr fun heq => hne ?_
    exact (h.place_unique hlane' hlane hm hn heq).1

end Policy
end
end InvoiceOs.Builder
