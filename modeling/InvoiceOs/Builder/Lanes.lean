import InvoiceOs.Builder.Nodes
import Mathlib.Data.List.Nodup
import Mathlib.Data.List.Pairwise
import Mathlib.Data.List.Perm.Lattice

/-! The lanes of a policy by their keys: where the ids are distinct, a key leads to one lane, and a
write to it changes that lane alone. -/

namespace InvoiceOs.Builder

def WfNode.bare : WfNode → WfNode
  | .branch n => .branch n
  | .condition id field op value _ _ => .condition id field op value [] []

def WfNode.ids (n : WfNode) : List String :=
  n.id :: ((n.lane false).map WfNode.id ++ (n.lane true).map WfNode.id)

structure WfNode.Fine (n : WfNode) : Prop where
  flat : ∀ e, ∀ m ∈ n.lane e, m.isCondition = false
  plain : n.isCondition = true → ':' ∉ n.id.toList

namespace Policy

def ids (p : Policy) : List String := p.nodes.flatMap WfNode.ids

def IsLane (p : Policy) (laneKey : String) : Prop :=
  laneKey = "root" ∨ ∃ n ∈ p.nodes, n.isCondition = true ∧ ∃ e, laneKey = branchKey n.id e

/-- Distinct ids, no condition in a branch lane, and no colon in a condition's id. -/
structure Tidy (p : Policy) : Prop where
  distinct : p.ids.Nodup
  fine : ∀ n ∈ p.nodes, n.Fine

end Policy

/-! ### Nodes -/

section
variable {n m : WfNode} {e : Bool} {next : List WfNode}

@[simp] theorem id_bare (n : WfNode) : n.bare.id = n.id := by cases n <;> rfl

@[simp] theorem bare_setLane (e : Bool) (next : List WfNode) (n : WfNode) :
    (n.setLane e next).bare = n.bare := by
  cases n with
  | branch n => rfl
  | condition => cases e <;> rfl

@[simp] theorem id_setLane (e : Bool) (next : List WfNode) (n : WfNode) :
    (n.setLane e next).id = n.id := by
  cases n with
  | branch n => rfl
  | condition => cases e <;> rfl

@[simp] theorem isCondition_setLane (e : Bool) (next : List WfNode) (n : WfNode) :
    (n.setLane e next).isCondition = n.isCondition := by
  cases n with
  | branch n => rfl
  | condition => cases e <;> rfl

theorem lane_setLane (hn : n.isCondition = true) (e e' : Bool) (next : List WfNode) :
    (n.setLane e next).lane e' = if e' = e then next else n.lane e' := by
  cases n with
  | branch n => cases hn
  | condition => cases e <;> cases e' <;> rfl

theorem setLane_lane (e : Bool) (n : WfNode) : n.setLane e (n.lane e) = n := by
  cases n with
  | branch n => rfl
  | condition => cases e <;> rfl

theorem setLane_setLane (e : Bool) (next next' : List WfNode) (n : WfNode) :
    (n.setLane e next).setLane e next' = n.setLane e next' := by
  cases n with
  | branch n => rfl
  | condition => cases e <;> rfl

theorem lane_of_not_condition (h : m.isCondition = false) (e : Bool) : m.lane e = [] := by
  cases m with
  | branch n => rfl
  | condition => cases h

theorem ids_of_not_condition (h : m.isCondition = false) : m.ids = [m.id] := by
  rw [WfNode.ids, lane_of_not_condition h, lane_of_not_condition h]
  rfl

theorem mem_ids_lane {e : Bool} (h : m ∈ n.lane e) : m.id ∈ n.ids := by
  have hmem := List.mem_map_of_mem (f := WfNode.id) h
  cases e with
  | false => exact List.mem_cons_of_mem _ (List.mem_append_left _ hmem)
  | true => exact List.mem_cons_of_mem _ (List.mem_append_right _ hmem)

end

theorem map_id_sublist (l : List WfNode) : (l.map WfNode.id).Sublist (l.flatMap WfNode.ids) := by
  induction l with
  | nil => exact List.Sublist.slnil
  | cons m l ih =>
    rw [List.map_cons, List.flatMap_cons, WfNode.ids, List.cons_append]
    exact (ih.trans (List.sublist_append_right _ _)).cons_cons _

/-! ### Keys -/

theorem laneParts_branchKey {id : String} (h : ':' ∉ id.toList) (e : Bool) :
    laneParts (branchKey id e) = (id, if e then "else" else "then") := by
  have hid : ∀ c ∈ id.toList, (c != ':') = true := by
    intro c hc
    rw [bne_iff_ne]
    rintro rfl
    exact h hc
  have hkey : ∀ rest : List Char, (id.toList ++ ':' :: rest).takeWhile (· != ':') = id.toList ∧
      (id.toList ++ ':' :: rest).dropWhile (· != ':') = ':' :: rest := by
    intro rest
    rw [List.takeWhile_append_of_pos hid, List.dropWhile_append_of_pos hid]
    simp
  unfold laneParts branchKey
  cases e with
  | false =>
    have hlist : (id ++ ":then").toList = id.toList ++ ':' :: ['t', 'h', 'e', 'n'] :=
      String.toList_append
    simp only [Bool.false_eq_true, if_false, hlist, (hkey _).1, (hkey _).2, String.ofList_toList]
    rfl
  | true =>
    have hlist : (id ++ ":else").toList = id.toList ++ ':' :: ['e', 'l', 's', 'e'] :=
      String.toList_append
    simp only [if_true, hlist, (hkey _).1, (hkey _).2, String.ofList_toList]
    rfl

theorem branchKey_ne_root (id : String) (e : Bool) : branchKey id e ≠ "root" := by
  intro h
  have hcolon : ':' ∈ (branchKey id e).toList := by
    unfold branchKey
    rw [String.toList_append, List.mem_append]
    refine .inr ?_
    cases e <;> decide
  rw [h] at hcolon
  exact absurd hcolon (by decide)

theorem branchKey_inj {id id' : String} {e e' : Bool} (h : ':' ∉ id.toList) (h' : ':' ∉ id'.toList)
    (hkey : branchKey id e = branchKey id' e') : id = id' ∧ e = e' := by
  have hparts := congrArg laneParts hkey
  rw [laneParts_branchKey h, laneParts_branchKey h'] at hparts
  obtain ⟨hid, hbranch⟩ := Prod.mk.inj hparts
  refine ⟨hid, ?_⟩
  cases e <;> cases e' <;> first | rfl | exact absurd hbranch (by decide)

/-! ### Lanes of a tidy policy -/

section
variable {p : Policy} {n m : WfNode} {pre post next : List WfNode} {e : Bool}

namespace Policy

theorem ids_split (pre : List WfNode) (n : WfNode) (post : List WfNode) :
    ids ⟨pre ++ n :: post⟩ = pre.flatMap WfNode.ids ++ (n.ids ++ post.flatMap WfNode.ids) := by
  unfold ids
  rw [List.flatMap_append, List.flatMap_cons]

theorem mem_ids {id : String} : id ∈ p.ids ↔ ∃ n ∈ p.nodes, id ∈ n.ids := List.mem_flatMap

theorem Tidy.apart (h : p.Tidy) (hn : n ∈ p.nodes) (hm : m ∈ p.nodes) {i : String}
    (hid : i ∈ n.ids) (hid' : i ∈ m.ids) : n = m := by
  obtain ⟨-, hpair⟩ := List.nodup_flatMap.mp h.distinct
  have hsymm : Std.Symm (Function.onFun List.Disjoint WfNode.ids) := ⟨fun _ _ hab => hab.symm⟩
  by_contra hne
  exact hpair.forall hn hm hne hid hid'

theorem Tidy.eq_of_id (h : p.Tidy) (hn : n ∈ p.nodes) (hm : m ∈ p.nodes) (hid : n.id = m.id) :
    n = m :=
  h.apart hn hm (i := n.id) List.mem_cons_self (hid ▸ List.mem_cons_self)

theorem Tidy.nodup_ids (h : p.Tidy) (hn : n ∈ p.nodes) : n.ids.Nodup :=
  (List.nodup_flatMap.mp h.distinct).1 n hn

theorem Tidy.find (h : p.Tidy) (hn : n ∈ p.nodes) :
    (p.nodes.find? fun m => m.id == n.id) = some n := by
  cases hfind : p.nodes.find? fun m => m.id == n.id with
  | none =>
    have hnone := List.find?_eq_none.mp hfind n hn
    exact absurd (beq_self_eq_true n.id) hnone
  | some m =>
    have hid : m.id = n.id := eq_of_beq (List.find?_some (p := fun m : WfNode => m.id == n.id) hfind)
    rw [h.eq_of_id (List.mem_of_find?_eq_some hfind) hn hid]

@[simp] theorem getLane_root (p : Policy) : getLane p "root" = p.nodes := if_pos rfl

@[simp] theorem withLane_root (p : Policy) (next : List WfNode) :
    withLane p "root" next = ⟨next⟩ := if_pos rfl

theorem Tidy.lane_eq (h : p.Tidy) (hn : n ∈ p.nodes) (hc : n.isCondition = true) (e : Bool) :
    getLane p (branchKey n.id e) = n.lane e := by
  unfold getLane
  rw [if_neg (branchKey_ne_root _ _), laneParts_branchKey ((h.fine n hn).plain hc), h.find hn]
  dsimp only
  rw [if_pos hc]
  cases e <;> rfl

theorem Tidy.write_eq (h : p.Tidy) (hp : p.nodes = pre ++ n :: post) (hc : n.isCondition = true)
    (e : Bool) (next : List WfNode) :
    withLane p (branchKey n.id e) next = ⟨pre ++ n.setLane e next :: post⟩ := by
  have hn : n ∈ p.nodes := hp ▸ List.mem_append_right _ List.mem_cons_self
  have hbranch : ((if e = true then "else" else "then") == "else") = e := by cases e <;> rfl
  have hother : ∀ m ∈ p.nodes, m ≠ n → (m.id != n.id || !m.isCondition) = true := by
    intro m hm hne
    rw [Bool.or_eq_true, bne_iff_ne]
    exact .inl fun hid => hne (h.eq_of_id hm hn hid)
  have hnodup : p.nodes.Nodup :=
    List.Nodup.of_map WfNode.id (h.distinct.sublist (map_id_sublist p.nodes))
  rw [hp] at hnodup
  obtain ⟨hpre, hpost⟩ : n ∉ pre ∧ n ∉ post := by
    have hmiddle := List.nodup_middle.mp hnodup
    have hnot := (List.nodup_cons.mp hmiddle).1
    exact ⟨fun hmem => hnot (List.mem_append_left _ hmem),
      fun hmem => hnot (List.mem_append_right _ hmem)⟩
  unfold withLane
  rw [if_neg (branchKey_ne_root _ _), laneParts_branchKey ((h.fine n hn).plain hc), hp, List.map_append,
    List.map_cons]
  dsimp only
  rw [hbranch]
  have hsame : ∀ l : List WfNode, (∀ m ∈ l, m ∈ p.nodes) → n ∉ l →
      l.map (fun m => if (m.id != n.id || !m.isCondition) = true then m else m.setLane e next) = l := by
    intro l hl hnot
    refine (List.map_congr_left fun m hm => ?_).trans (List.map_id l)
    exact if_pos (hother m (hl m hm) fun heq => hnot (heq ▸ hm))
  rw [hsame pre (fun m hm => hp ▸ List.mem_append_left _ hm) hpre,
    hsame post (fun m hm => hp ▸ List.mem_append_right _ (List.mem_cons_of_mem _ hm)) hpost]
  have hself : (n.id != n.id || !n.isCondition) = false := by
    rw [hc, bne_self_eq_false]
    rfl
  rw [hself]
  rfl

/-! ### Rows -/

open Classical in
noncomputable def rows (p : Policy) (laneKey : String) : Option (List WfNode) :=
  if p.IsLane laneKey then some ((getLane p laneKey).map WfNode.bare) else none

theorem Tidy.rows_eq_some (h : p.Tidy) {laneKey : String} {l : List WfNode} :
    p.rows laneKey = some l ↔ laneKey = "root" ∧ l = p.nodes.map WfNode.bare ∨
      ∃ n ∈ p.nodes, n.isCondition = true ∧
        ∃ e, laneKey = branchKey n.id e ∧ l = (n.lane e).map WfNode.bare := by
  unfold rows
  constructor
  · intro hrows
    split at hrows
    · rename_i hlane
      obtain rfl := Option.some.inj hrows
      obtain rfl | ⟨n, hn, hc, e, rfl⟩ := hlane
      · exact .inl ⟨rfl, by rw [getLane_root]⟩
      · exact .inr ⟨n, hn, hc, e, rfl, by rw [h.lane_eq hn hc]⟩
    · cases hrows
  · rintro (⟨rfl, rfl⟩ | ⟨n, hn, hc, e, rfl, rfl⟩)
    · rw [if_pos (.inl rfl), getLane_root]
    · rw [if_pos (.inr ⟨n, hn, hc, e, rfl⟩), h.lane_eq hn hc]

theorem rows_root (p : Policy) : p.rows "root" = some (p.nodes.map WfNode.bare) := by
  unfold rows
  rw [if_pos (.inl rfl), getLane_root]

theorem Tidy.rows_branch (h : p.Tidy) (hn : n ∈ p.nodes) (hc : n.isCondition = true) (e : Bool) :
    p.rows (branchKey n.id e) = some ((n.lane e).map WfNode.bare) :=
  h.rows_eq_some.mpr (.inr ⟨n, hn, hc, e, rfl, rfl⟩)

theorem rows_eq_none {laneKey : String} : p.rows laneKey = none ↔ ¬ p.IsLane laneKey := by
  unfold rows
  split
  · rename_i h
    exact iff_of_false nofun (not_not.mpr h)
  · rename_i h
    exact iff_of_true rfl h

/-! ### Writes -/

theorem flatMap_ids_flat {l : List WfNode} (h : ∀ m ∈ l, m.isCondition = false) :
    l.flatMap WfNode.ids = l.map WfNode.id := by
  induction l with
  | nil => rfl
  | cons m l ih =>
    rw [List.flatMap_cons, List.map_cons, ids_of_not_condition (h m List.mem_cons_self),
      ih fun m' hm' => h m' (List.mem_cons_of_mem _ hm')]
    rfl

theorem ids_setLane (hc : n.isCondition = true) (e : Bool) (pre post next : List WfNode) :
    (ids ⟨pre ++ n.setLane e next :: post⟩).Perm
      (next.map WfNode.id ++ ids ⟨pre ++ n.setLane e [] :: post⟩) := by
  have hnode : (n.setLane e next).ids.Perm (next.map WfNode.id ++ (n.setLane e []).ids) := by
    unfold WfNode.ids
    simp only [id_setLane, lane_setLane hc]
    cases e with
    | false =>
      simp only [if_true, Bool.true_eq_false, if_false, List.map_nil, List.nil_append]
      exact List.perm_middle.symm
    | true =>
      simp only [if_true, Bool.false_eq_true, if_false, List.map_nil, List.append_nil]
      exact (List.perm_append_comm.cons _).trans List.perm_middle.symm
  rw [ids_split, ids_split]
  have hmove := ((hnode.append_right (post.flatMap WfNode.ids)).append_left
    (pre.flatMap WfNode.ids))
  refine hmove.trans ?_
  simp only [← List.append_assoc]
  exact (List.perm_append_comm.append_right _).append_right _

theorem Tidy.ids_write (h : p.Tidy) {laneKey : String} (hlane : p.IsLane laneKey) :
    ∃ rest, p.ids.Perm ((getLane p laneKey).flatMap WfNode.ids ++ rest) ∧
      ∀ next : List WfNode, (laneKey ≠ "root" → ∀ m ∈ next, m.isCondition = false) →
        (withLane p laneKey next).ids.Perm (next.flatMap WfNode.ids ++ rest) := by
  obtain rfl | ⟨n, hn, hc, e, rfl⟩ := hlane
  · refine ⟨[], ?_, fun next _ => ?_⟩
    · rw [getLane_root, List.append_nil]
      exact List.Perm.refl _
    · rw [withLane_root, List.append_nil]
      exact List.Perm.refl _
  · obtain ⟨pre, post, hp⟩ := List.append_of_mem hn
    refine ⟨ids ⟨pre ++ n.setLane e [] :: post⟩, ?_, fun next hnext => ?_⟩
    · rw [h.lane_eq hn hc, flatMap_ids_flat ((h.fine n hn).flat e)]
      have hperm := ids_setLane hc e pre post (n.lane e)
      rw [setLane_lane, ← hp] at hperm
      exact hperm
    · rw [h.write_eq hp hc, flatMap_ids_flat (hnext (branchKey_ne_root _ _))]
      exact ids_setLane hc e pre post next

theorem mem_setLane {m : WfNode} (hm : m ∈ pre ++ n.setLane e next :: post) :
    m = n.setLane e next ∨ m ∈ pre ++ n :: post := by
  obtain hm | hm := List.mem_append.mp hm
  · exact .inr (List.mem_append_left _ hm)
  · obtain rfl | hm := List.mem_cons.mp hm
    · exact .inl rfl
    · exact .inr (List.mem_append_right _ (List.mem_cons_of_mem _ hm))

theorem Tidy.write (h : p.Tidy) {laneKey : String} (hlane : p.IsLane laneKey)
    (hfine : ∀ m ∈ next, m.Fine) (hflat : laneKey ≠ "root" → ∀ m ∈ next, m.isCondition = false)
    (hids : ∀ rest, p.ids.Perm ((getLane p laneKey).flatMap WfNode.ids ++ rest) →
      (next.flatMap WfNode.ids ++ rest).Nodup) : (withLane p laneKey next).Tidy := by
  obtain ⟨rest, hrest, hwrite⟩ := h.ids_write hlane
  refine ⟨(hwrite next hflat).nodup_iff.mpr (hids rest hrest), ?_⟩
  obtain rfl | ⟨n, hn, hc, e, rfl⟩ := hlane
  · rw [withLane_root]
    exact hfine
  · obtain ⟨pre, post, hp⟩ := List.append_of_mem hn
    rw [h.write_eq hp hc]
    intro m hm
    obtain rfl | hm := mem_setLane hm
    · refine ⟨fun e' m hm => ?_, fun _ => ?_⟩
      · rw [lane_setLane hc] at hm
        split at hm
        · exact hflat (branchKey_ne_root _ _) m hm
        · exact (h.fine n hn).flat e' m hm
      · rw [id_setLane]
        exact (h.fine n hn).plain hc
    · exact h.fine m (hp ▸ hm)

theorem Tidy.rows_write (h : p.Tidy) (hn : n ∈ p.nodes) (hc : n.isCondition = true)
    (h' : (withLane p (branchKey n.id e) next).Tidy) (laneKey : String) :
    (withLane p (branchKey n.id e) next).rows laneKey =
      if laneKey = branchKey n.id e then some (next.map WfNode.bare) else p.rows laneKey := by
  obtain ⟨pre, post, hp⟩ := List.append_of_mem hn
  have hnodes : (withLane p (branchKey n.id e) next).nodes =
      pre ++ n.setLane e next :: post := by
    rw [h.write_eq hp hc]
  generalize withLane p (branchKey n.id e) next = p' at h' hnodes ⊢
  have hself : n.setLane e next ∈ p'.nodes := hnodes ▸ List.mem_append_right _ List.mem_cons_self
  have hbranch := h'.rows_branch hself (by rw [isCondition_setLane, hc])
  simp only [id_setLane, lane_setLane hc] at hbranch
  split
  · rename_i hkey
    rw [hkey, hbranch e, if_pos rfl]
  · rename_i hkey
    refine Option.ext fun l => ?_
    rw [h.rows_eq_some, h'.rows_eq_some]
    refine or_congr (and_congr_right fun _ => ?_) ⟨?_, ?_⟩
    · rw [hnodes, hp]
      simp only [List.map_append, List.map_cons, bare_setLane]
    · rintro ⟨m, hm, hmc, e', rfl, rfl⟩
      obtain rfl | hm := mem_setLane (hnodes ▸ hm)
      · rw [id_setLane] at hkey
        have hne : e' ≠ e := fun he => hkey (he ▸ rfl)
        refine ⟨n, hn, hc, e', by rw [id_setLane], ?_⟩
        rw [lane_setLane hc, if_neg hne]
      · exact ⟨m, hp ▸ hm, hmc, e', rfl, rfl⟩
    · rintro ⟨m, hm, hmc, e', rfl, rfl⟩
      by_cases hmn : m = n
      · subst hmn
        have hne : e' ≠ e := fun he => hkey (he ▸ rfl)
        refine ⟨_, hself, by rw [isCondition_setLane, hmc], e', by rw [id_setLane], ?_⟩
        rw [lane_setLane hc, if_neg hne]
      · refine ⟨m, ?_, hmc, e', rfl, rfl⟩
        rw [hp, List.mem_append, List.mem_cons] at hm
        rw [hnodes, List.mem_append, List.mem_cons]
        obtain hm | rfl | hm := hm
        · exact .inl hm
        · exact absurd rfl hmn
        · exact .inr (.inr hm)

theorem Tidy.mem_lane (h : p.Tidy) {laneKey : String} (hlane : p.IsLane laneKey)
    (hm : m ∈ getLane p laneKey) : m.Fine ∧ m.id ∈ p.ids ∧
      (laneKey ≠ "root" → m.isCondition = false) := by
  obtain rfl | ⟨n, hn, hc, e, rfl⟩ := hlane
  · rw [getLane_root] at hm
    exact ⟨h.fine m hm, mem_ids.mpr ⟨m, hm, List.mem_cons_self⟩, fun hne => absurd rfl hne⟩
  · rw [h.lane_eq hn hc] at hm
    have hleaf := (h.fine n hn).flat e m hm
    refine ⟨⟨fun e' m' hm' => ?_, fun hmc => ?_⟩, mem_ids.mpr ⟨n, hn, mem_ids_lane hm⟩,
      fun _ => hleaf⟩
    · rw [lane_of_not_condition hleaf] at hm'
      cases hm'
    · rw [hleaf] at hmc
      cases hmc

end Policy
end
end InvoiceOs.Builder
