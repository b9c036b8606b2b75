import InvoiceOs.Builder.Edits

/-! Editing a policy loses no step and doubles none: every reducer changes the node it names, and a
policy stays tidy under any sequence of them. -/

namespace InvoiceOs.Builder

open Lib Policy

section
variable {p p' : Policy} {n m : WfNode} {laneKey dst key' id : String} {index : ℕ}

/-! ### Writing a lane twice -/

theorem Policy.Tidy.write_self (h : p.Tidy) (hlane : p.IsLane laneKey) :
    withLane p laneKey (getLane p laneKey) = p := by
  obtain rfl | ⟨c, hc, hcond, e, rfl⟩ := hlane
  · rw [withLane_root, getLane_root]
  · obtain ⟨pre, post, hp⟩ := List.append_of_mem hc
    rw [h.write_eq hp hcond, h.lane_eq hc hcond, setLane_lane, ← hp]

theorem Policy.Tidy.lane_write (h : p.Tidy) (hlane : p.IsLane laneKey) {next : List WfNode}
    (h' : (withLane p laneKey next).Tidy) : getLane (withLane p laneKey next) laneKey = next := by
  obtain rfl | ⟨c, hc, hcond, e, rfl⟩ := hlane
  · rw [withLane_root, getLane_root]
  · obtain ⟨pre, post, hp⟩ := List.append_of_mem hc
    rw [h.write_eq hp hcond] at h' ⊢
    have hself : c.setLane e next ∈ pre ++ c.setLane e next :: post :=
      List.mem_append_right _ List.mem_cons_self
    have hlane := h'.lane_eq hself (by rw [isCondition_setLane, hcond]) e
    rw [id_setLane, lane_setLane hcond, if_pos rfl] at hlane
    exact hlane

theorem Policy.Tidy.write_write (h : p.Tidy) (hlane : p.IsLane laneKey) {next next' : List WfNode}
    (h' : (withLane p laneKey next).Tidy) :
    withLane (withLane p laneKey next) laneKey next' = withLane p laneKey next' := by
  obtain rfl | ⟨c, hc, hcond, e, rfl⟩ := hlane
  · simp only [withLane_root]
  · obtain ⟨pre, post, hp⟩ := List.append_of_mem hc
    rw [h.write_eq hp hcond] at h' ⊢
    have hwrite := h'.write_eq (n := c.setLane e next) rfl (by rw [isCondition_setLane, hcond]) e
      next'
    rw [id_setLane] at hwrite
    rw [hwrite, h.write_eq hp hcond, setLane_setLane]

/-! ### The reducers -/

theorem canDrop_iff : canDrop n laneKey = true ↔ (laneKey ≠ "root" → n.isCondition = false) := by
  unfold canDrop
  cases n.isCondition <;> simp

theorem insertNode_spec (h : p.Tidy) (hlane : p.IsLane laneKey) (hfresh : Fresh p n) (index : ℕ) :
    (canDrop n laneKey = false → insertNode p laneKey index n = p) ∧
      (canDrop n laneKey = true → (insertNode p laneKey index n).Tidy ∧
        ∀ key', (insertNode p laneKey index n).rows key' =
          if key' = laneKey then
            (p.rows laneKey).map fun l => l.take index ++ n.bare :: l.drop index
          else (n.own key').or (p.rows key')) := by
  unfold insertNode
  constructor
  · intro hdrop
    rw [hdrop]
    rfl
  · intro hdrop
    rw [hdrop]
    exact h.insert hlane hfresh (canDrop_iff.mp hdrop) index

theorem deleteNode_spec (h : p.Tidy) (hlane : p.IsLane laneKey) (hn : n ∈ getLane p laneKey) :
    (deleteNode p n.id).Tidy ∧ ∀ key', (deleteNode p n.id).rows key' =
      if key' = laneKey then (p.rows laneKey).map (without n.id)
      else if (n.own key').isSome then none else p.rows key' := by
  obtain ⟨i, hfound, hi⟩ := h.findNode_eq hlane hn
  obtain ⟨htidy, -, hrows⟩ := h.remove hlane hi
  unfold deleteNode
  rw [hfound]
  exact ⟨htidy, hrows⟩

theorem updateNode_spec (h : p.Tidy) (hlane : p.IsLane laneKey) (hn : n ∈ getLane p laneKey)
    {patch : NodePatch} (hthen : patch.thenLane = none) (helse : patch.elseLane = none) :
    ∃ p', updateNode p n.id patch = some p' ∧ p'.Tidy ∧ ∀ key', p'.rows key' =
      if key' = laneKey then
        (p.rows laneKey).map (List.map fun m => if m.id = n.id then m.merge patch else m)
      else p.rows key' := by
  obtain ⟨i, hfound, hi⟩ := h.findNode_eq hlane hn
  unfold updateNode
  rw [hfound]
  dsimp only
  rw [hi]
  exact ⟨_, rfl, h.update hlane hi hthen helse⟩

/-- Where a node goes: everything else stays in its lane and its order, and the node stands before
what stood at the index, or last. -/
structure Moved (p p' : Policy) (n : WfNode) (dst : String) (index : ℕ) : Prop where
  others : ∀ key', key' ≠ dst → p'.rows key' = (p.rows key').map (without n.id)
  placed : ∃ before after, without n.id ((getLane p dst).map WfNode.bare) = before ++ after ∧
    p'.rows dst = some (before ++ n.bare :: after) ∧
    match (getLane p dst)[index]? with
    | none => after = []
    | some m => m.id = n.id ∨ after.head? = some m.bare
  kept : (getLane p dst)[index]?.map WfNode.id = some n.id → p' = p

theorem placed_same {l : List WfNode} {i : ℕ} (hi : l[i]? = some n)
    (hnodup : (l.map WfNode.id).Nodup) (hindex : index ≤ l.length) :
    ∃ before after, without n.id (l.map WfNode.bare) = before ++ after ∧
      (without n.id (l.map WfNode.bare)).take (if i < index then index - 1 else index) = before ∧
      (without n.id (l.map WfNode.bare)).drop (if i < index then index - 1 else index) = after ∧
      match l[index]? with
      | none => after = []
      | some m => m.id = n.id ∨ after.head? = some m.bare := by
  obtain ⟨pre, post, rfl, rfl⟩ := exists_split hi
  rw [without_map_bare, filter_split hnodup]
  refine ⟨_, _, (List.take_append_drop _ _).symm, rfl, rfl, ?_⟩
  rw [List.head?_drop, List.getElem?_map]
  rw [List.length_append, List.length_cons] at hindex
  by_cases hafter : pre.length < index
  · rw [if_pos hafter]
    obtain ⟨k, rfl⟩ : ∃ k, index = pre.length + (k + 1) := ⟨index - pre.length - 1, by omega⟩
    have hget : (pre ++ n :: post)[pre.length + (k + 1)]? = post[k]? := by
      rw [List.getElem?_append_right (by omega)]
      simp
    have hget' : (pre ++ post)[pre.length + (k + 1) - 1]? = post[k]? := by
      rw [List.getElem?_append_right (by omega)]
      congr 1
      omega
    rw [hget, hget']
    cases hk : post[k]? with
    | none =>
      have hlast := List.getElem?_eq_none_iff.mp hk
      refine List.drop_eq_nil_of_le ?_
      rw [List.length_map, List.length_append]
      omega
    | some m => exact .inr rfl
  · rw [if_neg hafter]
    obtain hbefore | heq := lt_or_eq_of_le (not_lt.mp hafter)
    · have hget : (pre ++ n :: post)[index]? = (pre ++ post)[index]? := by
        rw [List.getElem?_append_left hbefore, List.getElem?_append_left hbefore]
      rw [hget]
      cases hk : (pre ++ post)[index]? with
      | none =>
        have hlast := List.getElem?_eq_none_iff.mp hk
        rw [List.length_append] at hlast
        omega
      | some m => exact .inr rfl
    · have hget : (pre ++ n :: post)[index]? = some n := by
        rw [heq, List.getElem?_append_right le_rfl, Nat.sub_self]
        rfl
      rw [hget]
      exact .inl rfl

theorem moveNode_spec (h : p.Tidy) (hlane : p.IsLane laneKey) (hn : n ∈ getLane p laneKey)
    (hdst : p.IsLane dst) (hindex : index ≤ (getLane p dst).length) :
    (canDrop n dst = false → moveNode p n.id dst index = p) ∧
      (canDrop n dst = true → (moveNode p n.id dst index).Tidy ∧
        Moved p (moveNode p n.id dst index) n dst index) := by
  obtain ⟨i, hfound, hi⟩ := h.findNode_eq hlane hn
  have hmove : moveNode p n.id dst index =
      if !canDrop n dst then p
      else
        let removed := withLane p laneKey (spliced (getLane p laneKey) i 1 none)
        let t := if dst = laneKey ∧ i < index then index - 1 else index
        withLane removed dst (spliced (getLane removed dst) t 0 (some n)) := by
    unfold moveNode
    rw [hfound]
  rw [hmove]
  constructor
  · intro hdrop
    rw [hdrop]
    rfl
  intro hdrop
  rw [hdrop, if_neg (by decide)]
  dsimp only
  obtain ⟨hremoved, hids, hrows⟩ := h.remove hlane hi
  have hdrop := canDrop_iff.mp hdrop
  obtain ⟨hfine, -, hleaf⟩ := h.mem_lane hlane hn
  have hfresh : Fresh (withLane p laneKey (spliced (getLane p laneKey) i 1 none)) n := by
    have hnodup := hids.nodup_iff.mp h.distinct
    obtain ⟨hown, -, hapart⟩ := List.nodup_append.mp hnodup
    exact ⟨hfine, hown, fun id hid hid' => hapart id hid id hid' rfl⟩
  have hsource : n.own laneKey = none := by
    by_cases hroot : laneKey = "root"
    · rw [hroot]
      exact own_root n
    · exact own_of_not_condition (hleaf hroot) _
  have htarget : n.own dst = none := by
    by_cases hroot : dst = "root"
    · rw [hroot]
      exact own_root n
    · exact own_of_not_condition (hdrop hroot) _
  have hbrought : ∀ key' l, n.own key' = some l → p.rows key' = some l := by
    intro key' l hown
    have hcondition := (own_eq_some.mp hown).1
    have hroot : laneKey = "root" := by
      by_contra hne
      rw [hleaf hne] at hcondition
      cases hcondition
    rw [hroot, getLane_root] at hn
    refine (h.rows_own fun hkey => ?_).mpr ⟨n, hn, hown⟩
    rw [hkey, own_root] at hown
    cases hown
  generalize hr : withLane p laneKey (spliced (getLane p laneKey) i 1 none) = removed
    at hremoved hrows hfresh ⊢
  have hdst' : removed.IsLane dst := by
    by_contra hnot
    have hnone := rows_eq_none.mpr hnot
    rw [hrows, rows_lane hlane, htarget] at hnone
    split at hnone
    · cases hnone
    · exact rows_eq_none.mp hnone hdst
  obtain ⟨htidy, hinserted⟩ := hremoved.insert hdst' hfresh hdrop
    (if dst = laneKey ∧ i < index then index - 1 else index)
  refine ⟨htidy, ⟨fun key' hne => ?_, ?_, fun hsame => ?_⟩⟩
  · rw [hinserted, if_neg hne, hrows]
    by_cases hkey : key' = laneKey
    · subst hkey
      rw [hsource, if_pos rfl, Option.none_or]
    · rw [if_neg hkey, h.without_other hlane hn hkey]
      cases hown : n.own key' with
      | none => rfl
      | some l => rw [hbrought key' l hown, Option.some_or]
  · rw [hinserted, if_pos rfl, hrows]
    by_cases hkey : dst = laneKey
    · subst hkey
      obtain ⟨before, after, hsplit, hbefore, hafter, hplace⟩ :=
        placed_same hi (h.nodup_lane hlane) hindex
      refine ⟨before, after, hsplit, ?_, hplace⟩
      rw [if_pos rfl, rows_lane hlane, Option.map_some, Option.map_some]
      simp only [true_and, hbefore, hafter]
    · have hother := h.without_other hlane hn hkey
      rw [rows_lane hdst, Option.map_some] at hother
      have hwithout := Option.some.inj hother
      refine ⟨((getLane p dst).map WfNode.bare).take index,
        ((getLane p dst).map WfNode.bare).drop index, ?_, ?_, ?_⟩
      · rw [hwithout, List.take_append_drop]
      · rw [if_neg hkey, htarget, rows_lane hdst]
        simp [hkey]
      · rw [List.head?_drop, List.getElem?_map]
        cases hk : (getLane p dst)[index]? with
        | none =>
          have hlast := List.getElem?_eq_none_iff.mp hk
          refine List.drop_eq_nil_of_le ?_
          rw [List.length_map]
          exact hlast
        | some m => exact .inr rfl
  · obtain ⟨m, hm, hid⟩ := Option.map_eq_some_iff.mp hsame
    obtain ⟨hkey, hnode⟩ := h.place_unique hdst hlane (List.mem_of_getElem? hm) hn hid
    subst hkey hnode
    have hsame : index = i := by
      have hnodup := h.nodup_lane hlane
      have hget : ((getLane p dst).map WfNode.id)[index]? = ((getLane p dst).map WfNode.id)[i]? := by
        rw [List.getElem?_map, List.getElem?_map, hm, hi]
      have hlt : index < ((getLane p dst).map WfNode.id).length := by
        rw [List.length_map]
        exact (List.getElem?_eq_some_iff.mp hm).1
      exact (List.getElem?_inj hlt hnodup).mp hget
    subst hsame
    obtain ⟨pre, post, hsplit, hlength⟩ := exists_split hi
    have hnext : spliced (getLane p dst) index 1 none = pre ++ post := by
      rw [hsplit, ← hlength]
      simp [spliced]
    subst hr
    rw [hnext] at hremoved ⊢
    rw [h.lane_write hlane hremoved, h.write_write hlane hremoved]
    have hback : spliced (pre ++ post) index 0 (some m) = getLane p dst := by
      rw [hsplit, ← hlength]
      simp [spliced]
    simp only [lt_irrefl, and_false, if_false]
    rw [hback, h.write_self hlane]

/-! ### Sequences of edits -/

inductive Edit where
  | insert (laneKey : String) (index : ℕ) (node : WfNode)
  | delete (id : String)
  | move (id laneKey : String) (index : ℕ)
  | update (id : String) (patch : NodePatch)

def Edit.apply (p : Policy) : Edit → Option Policy
  | .insert laneKey index node => some (insertNode p laneKey index node)
  | .delete id => some (deleteNode p id)
  | .move id laneKey index => some (moveNode p id laneKey index)
  | .update id patch => updateNode p id patch

/-- Lanes that exist, indices inside them, a node with fresh ids, a patch without lanes. -/
def Edit.Allowed (p : Policy) : Edit → Prop
  | .insert laneKey index node => p.IsLane laneKey ∧ index ≤ (getLane p laneKey).length ∧ Fresh p node
  | .delete _ => True
  | .move _ laneKey index => p.IsLane laneKey ∧ index ≤ (getLane p laneKey).length
  | .update _ patch => patch.thenLane = none ∧ patch.elseLane = none

theorem exists_lane (h : p.Tidy) (hid : id ∈ p.ids) :
    ∃ laneKey n, p.IsLane laneKey ∧ n ∈ getLane p laneKey ∧ n.id = id := by
  obtain ⟨c, hc, hmem⟩ := mem_ids.mp hid
  obtain rfl | hmem := List.mem_cons.mp hmem
  · exact ⟨"root", c, .inl rfl, by rwa [getLane_root], rfl⟩
  · obtain ⟨e, m, hm, rfl⟩ : ∃ e, ∃ m ∈ c.lane e, m.id = id := by
      obtain hmem | hmem := List.mem_append.mp hmem
      · exact ⟨false, List.mem_map.mp hmem⟩
      · exact ⟨true, List.mem_map.mp hmem⟩
    have hcond : c.isCondition = true := by
      by_contra hnot
      rw [lane_of_not_condition (Bool.not_eq_true _ ▸ hnot)] at hm
      cases hm
    exact ⟨branchKey c.id e, m, .inr ⟨c, hc, hcond, e, rfl⟩, by rwa [h.lane_eq hc hcond], rfl⟩

theorem unknown_id (h : p.Tidy) (hid : id ∉ p.ids) : deleteNode p id = p ∧
    (∀ dst index, moveNode p id dst index = p) ∧ ∀ patch, updateNode p id patch = some p := by
  have hnone : findNode p id = none := by
    cases hf : findNode p id with
    | none => rfl
    | some f =>
      obtain ⟨rfl, hlane, hindex⟩ := h.findNode_some hf
      exact absurd (h.mem_lane hlane (List.mem_of_getElem? hindex)).2.1 hid
  unfold deleteNode moveNode updateNode
  rw [hnone]
  exact ⟨rfl, fun _ _ => rfl, fun _ => rfl⟩

theorem Edit.tidy (h : p.Tidy) {edit : Edit} (hallowed : edit.Allowed p) :
    ∃ p', edit.apply p = some p' ∧ p'.Tidy := by
  cases edit with
  | insert laneKey index node =>
    obtain ⟨hlane, -, hfresh⟩ := hallowed
    obtain ⟨hrefused, hinserted⟩ := insertNode_spec h hlane hfresh index
    refine ⟨_, rfl, ?_⟩
    cases hdrop : canDrop node laneKey with
    | false => exact Eq.subst (motive := Policy.Tidy) (hrefused hdrop).symm h
    | true => exact (hinserted hdrop).1
  | delete id =>
    refine ⟨_, rfl, ?_⟩
    by_cases hid : id ∈ p.ids
    · obtain ⟨laneKey, n, hlane, hn, rfl⟩ := exists_lane h hid
      exact (deleteNode_spec h hlane hn).1
    · exact Eq.subst (motive := Policy.Tidy) (unknown_id h hid).1.symm h
  | move id dst index =>
    refine ⟨_, rfl, ?_⟩
    by_cases hid : id ∈ p.ids
    · obtain ⟨laneKey, n, hlane, hn, rfl⟩ := exists_lane h hid
      obtain ⟨hrefused, hmoved⟩ := moveNode_spec h hlane hn hallowed.1 hallowed.2
      cases hdrop : canDrop n dst with
      | false => exact Eq.subst (motive := Policy.Tidy) (hrefused hdrop).symm h
      | true => exact (hmoved hdrop).1
    · exact Eq.subst (motive := Policy.Tidy) ((unknown_id h hid).2.1 dst index).symm h
  | update id patch =>
    by_cases hid : id ∈ p.ids
    · obtain ⟨laneKey, n, hlane, hn, rfl⟩ := exists_lane h hid
      obtain ⟨p', hp', htidy, -⟩ := updateNode_spec h hlane hn hallowed.1 hallowed.2
      exact ⟨p', hp', htidy⟩
    · exact ⟨p, (unknown_id h hid).2.2 patch, h⟩

/-- Every edit changes the node it names and no other; an id that is nowhere changes nothing; and
the ids stay distinct, with no condition in a branch lane, under any sequence of edits. -/
theorem edits_lose_nothing (h : p.Tidy) :
    (∀ id, id ∉ p.ids → deleteNode p id = p ∧ (∀ dst index, moveNode p id dst index = p) ∧
      ∀ patch, updateNode p id patch = some p) ∧
    (∀ laneKey n, p.IsLane laneKey → n ∈ getLane p laneKey →
      (∀ dst index, p.IsLane dst → index ≤ (getLane p dst).length →
        (n.isCondition = true → dst ≠ "root" → moveNode p n.id dst index = p) ∧
        ((dst ≠ "root" → n.isCondition = false) →
          Moved p (moveNode p n.id dst index) n dst index)) ∧
      (∀ key', (deleteNode p n.id).rows key' =
        if key' = laneKey then (p.rows laneKey).map (without n.id)
        else if (n.own key').isSome then none else p.rows key') ∧
      ∀ patch : NodePatch, patch.thenLane = none → patch.elseLane = none →
        ∃ p', updateNode p n.id patch = some p' ∧ ∀ key', p'.rows key' =
          if key' = laneKey then
            (p.rows laneKey).map (List.map fun m => if m.id = n.id then m.merge patch else m)
          else p.rows key') ∧
    (∀ laneKey n index, p.IsLane laneKey → index ≤ (getLane p laneKey).length → Fresh p n →
      (n.isCondition = true → laneKey ≠ "root" → insertNode p laneKey index n = p) ∧
      ((laneKey ≠ "root" → n.isCondition = false) →
        ∀ key', (insertNode p laneKey index n).rows key' =
          if key' = laneKey then
            (p.rows laneKey).map fun l => l.take index ++ n.bare :: l.drop index
          else (n.own key').or (p.rows key'))) ∧
    ∀ edits, Along Edit.apply (fun p edit => edit.Allowed p) p edits →
      ∃ p', runFrom Edit.apply p edits = some p' ∧ p'.Tidy := by
  have hrefused : ∀ {n : WfNode} {laneKey : String}, n.isCondition = true → laneKey ≠ "root" →
      canDrop n laneKey = false := by
    intro n laneKey hcond hroot
    refine Bool.eq_false_iff.mpr fun hdrop => ?_
    rw [canDrop_iff.mp hdrop hroot] at hcond
    cases hcond
  refine ⟨fun id hid => unknown_id h hid, fun laneKey n hlane hn => ⟨fun dst index hdst hindex => ?_,
    (deleteNode_spec h hlane hn).2, fun patch hthen helse => ?_⟩,
    fun laneKey n index hlane _ hfresh => ?_, fun edits hallowed =>
      exists_run (I := Policy.Tidy) (fun _ _ htidy hedit => Edit.tidy htidy hedit) h hallowed⟩
  · obtain ⟨hsame, hmoved⟩ := moveNode_spec h hlane hn hdst hindex
    exact ⟨fun hcond hroot => hsame (hrefused hcond hroot),
      fun hdrop => (hmoved (canDrop_iff.mpr hdrop)).2⟩
  · obtain ⟨p', hp', -, hrows⟩ := updateNode_spec h hlane hn hthen helse
    exact ⟨p', hp', hrows⟩
  · obtain ⟨hsame, hinserted⟩ := insertNode_spec h hlane hfresh index
    exact ⟨fun hcond hroot => hsame (hrefused hcond hroot),
      fun hdrop => (hinserted (canDrop_iff.mpr hdrop)).2⟩

end

def twoLanes : Policy where
  nodes := [
    .condition "c1" .amount (some .gt) 500
      [.branch (.approval "s1" "cfo" "48" false none)] [.branch (.autoapprove "s2")],
    .branch (.notify "s3" "Tax Team" "Email")]

theorem twoLanes_tidy : twoLanes.Tidy where
  distinct := by decide
  fine := by
    intro n hn
    simp only [twoLanes, List.mem_cons, List.not_mem_nil, or_false] at hn
    obtain rfl | rfl := hn
    · refine ⟨fun e m hm => ?_, fun _ => by decide⟩
      cases e <;> (obtain rfl := List.mem_singleton.mp hm; rfl)
    · exact ⟨fun _ _ hm => (List.not_mem_nil hm).elim, nofun⟩

theorem edits_lose_nothing_twoLanes :
    Moved twoLanes (moveNode twoLanes "s1" "c1:else" 1) (.branch (.approval "s1" "cfo" "48" false none))
      "c1:else" 1 ∧ (moveNode twoLanes "s1" "c1:else" 1).ids = ["c1", "s2", "s1", "s3"] := by
  obtain ⟨-, hnode, -⟩ := edits_lose_nothing twoLanes_tidy
  have hcondition : twoLanes.nodes.head (by decide) ∈ twoLanes.nodes := List.mem_cons_self
  have hlane : ∀ e, twoLanes.IsLane (branchKey "c1" e) := fun e =>
    .inr ⟨_, hcondition, rfl, e, rfl⟩
  have hlanes : ∀ e, getLane twoLanes (branchKey "c1" e) =
      (twoLanes.nodes.head (by decide)).lane e := twoLanes_tidy.lane_eq hcondition rfl
  have hmoved := (hnode _ _ (hlane false) (by rw [hlanes]; exact List.mem_cons_self)).1
    (branchKey "c1" true) 1 (hlane true) (by rw [hlanes]; decide)
  exact ⟨hmoved.2 fun _ => rfl, by decide +kernel⟩

def colon : Policy where
  nodes := [.condition "a:b" .amount (some .gt) 500 [.branch (.autoapprove "s1")] []]

theorem colon_doubles : ¬ ∀ p : Policy, p.ids.Nodup →
    (∀ n ∈ p.nodes, ∀ e, ∀ m ∈ n.lane e, m.isCondition = false) →
    ∀ id dst index, p.IsLane dst → index ≤ (getLane p dst).length →
      (moveNode p id dst index).ids.Nodup := by
  intro h
  have hdoubled := h colon (by decide) (fun n hn e m hm => ?_) "s1" "root" 0 (.inl rfl)
    (Nat.zero_le _)
  · exact absurd hdoubled (by decide +kernel)
  · obtain rfl := List.mem_singleton.mp hn
    cases e with
    | false =>
      obtain rfl := List.mem_singleton.mp hm
      rfl
    | true => cases hm

end InvoiceOs.Builder
