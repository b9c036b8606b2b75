import InvoiceOs.CustomRule.Revision
import Mathlib.Data.List.MinMax
import Mathlib.Order.Nat

/-! The revisions over time: saves append to them, a re-check only marks them, and whichever
revisions judged a client, every earlier one was among them, replaced or retired. -/

namespace InvoiceOs.CustomRule

open Lib

/-- The revision as it was saved, its mark apart. -/
def Revision.core (r : Revision) : Revision := { r with rechecked := true }

def history (revs : List Revision) : List Revision := revs.map Revision.core

def Revision.blocks (r : Revision) : Bool := blockingCapable r.toRuleInput r.deleted

/-- As its rule's latest, the revision judges this client. -/
def Revision.judges (r : Revision) (entityID : Uuid) : Bool :=
  !r.deleted && r.enabled && r.covers entityID

def ranSince (revs : List Revision) (r : Revision) (ran : List Uuid) : Bool :=
  revs.any fun q => q.ruleID == r.ruleID && decide (r.revision ≤ q.revision) && ran.contains q.id

/-- A later revision is its rule's latest and no longer judges this client: disabled, deleted,
or moved to another one. -/
def retired (revs : List Revision) (entityID : Uuid) (r : Revision) : Bool :=
  revs.any fun q => q.ruleID == r.ruleID && decide (r.revision < q.revision) && isLatest revs q &&
    !q.judges entityID

def Ordered (revs : List Revision) : Prop :=
  revs.Pairwise fun a b => a.id ≠ b.id ∧ (b.ruleID = a.ruleID → a.revision < b.revision)

variable {revs revs' : List Revision} {r q : Revision} {entityID : Uuid} {ran : List Uuid}

theorem mem_currentTx :
    r ∈ currentTx revs entityID ↔ r ∈ revs ∧ isLatest revs r = true ∧ r.judges entityID = true := by
  simp only [currentTx, latestRevisions, Revision.judges, List.mem_filter, and_assoc]

theorem Revision.judges_of_blocks (hb : r.blocks = true) (hc : r.covers entityID = true) :
    r.judges entityID = true := by
  simp only [Revision.blocks, blockingCapable, Bool.and_eq_true] at hb
  simp [Revision.judges, hb.1.1, hb.2, hc]

/-! ### Order -/

theorem Ordered.cases (h : Ordered revs) (hr : r ∈ revs) (hq : q ∈ revs) : r = q ∨
    (r.id ≠ q.id ∧ (r.ruleID = q.ruleID → r.revision ≠ q.revision)) := by
  obtain ⟨i, hi, rfl⟩ := List.mem_iff_getElem.mp hr
  obtain ⟨j, hj, rfl⟩ := List.mem_iff_getElem.mp hq
  rcases Nat.lt_trichotomy i j with hij | rfl | hij
  · obtain ⟨hid, hrev⟩ := List.pairwise_iff_getElem.mp h i j hi hj hij
    exact .inr ⟨hid, fun heq => Nat.ne_of_lt (hrev heq.symm)⟩
  · exact .inl rfl
  · obtain ⟨hid, hrev⟩ := List.pairwise_iff_getElem.mp h j i hj hi hij
    exact .inr ⟨hid.symm, fun heq => Nat.ne_of_gt (hrev heq)⟩

theorem Ordered.eq_of_id (h : Ordered revs) (hr : r ∈ revs) (hq : q ∈ revs) (hid : r.id = q.id) :
    r = q :=
  (h.cases hr hq).resolve_right fun hne => hne.1 hid

theorem Ordered.history_iff : Ordered (history revs) ↔ Ordered revs := by
  unfold Ordered history
  rw [List.pairwise_map]
  rfl

theorem Ordered.save {d : Approval.Directory} {caller revisionID : Uuid} {s : Save}
    (h : Ordered revs) (hs : save d revs caller revisionID s = .ok revs') : Ordered revs' := by
  obtain ⟨q, rfl, hid, hfresh, hrev, -⟩ := save_spec hs
  refine List.pairwise_append.mpr ⟨h, List.pairwise_singleton _ _, fun a ha b hb => ?_⟩
  obtain rfl := List.mem_singleton.mp hb
  exact ⟨hid ▸ hfresh a ha, fun heq => hrev a ha heq.symm⟩

theorem exists_latest (hr : r ∈ revs) :
    ∃ q ∈ revs, q.ruleID = r.ruleID ∧ r.revision ≤ q.revision ∧ isLatest revs q = true := by
  have hmem : r ∈ revs.filter fun q => q.ruleID == r.ruleID :=
    List.mem_filter.mpr ⟨hr, beq_self_eq_true _⟩
  have hsome : ((revs.filter fun q => q.ruleID == r.ruleID).argmax Revision.revision) ≠ none :=
    fun hnone => List.ne_nil_of_mem hmem (List.argmax_eq_none.mp hnone)
  obtain ⟨q, hq⟩ := Option.ne_none_iff_exists'.mp hsome
  have hmax : ∀ p ∈ revs, p.ruleID = r.ruleID → p.revision ≤ q.revision := by
    intro p hp hrule
    have hp' : p ∈ revs.filter fun q => q.ruleID == r.ruleID :=
      List.mem_filter.mpr ⟨hp, beq_iff_eq.mpr hrule⟩
    exact List.le_of_mem_argmax hp' hq
  obtain ⟨hqrevs, hqrule⟩ := List.mem_filter.mp (List.argmax_mem hq)
  have hqrule : q.ruleID = r.ruleID := beq_iff_eq.mp hqrule
  refine ⟨q, hqrevs, hqrule, hmax r hr rfl, List.all_eq_true.mpr fun p hp => ?_⟩
  by_cases hrule : p.ruleID = q.ruleID
  · simp [hmax p hp (hrule.trans hqrule)]
  · simp [hrule]

theorem ranSince_or_retired (h : Ordered revs) (hr : r ∈ revs) (hb : r.blocks = true)
    (hc : r.covers entityID = true) (hran : ∀ q ∈ currentTx revs entityID, q.id ∈ ran) :
    ranSince revs r ran = true ∨ retired revs entityID r = true := by
  obtain ⟨q, hq, hrule, hle, hlatest⟩ := exists_latest hr
  cases hj : q.judges entityID with
  | true =>
    left
    have hid : q.id ∈ ran := hran q (mem_currentTx.mpr ⟨hq, hlatest, hj⟩)
    refine List.any_eq_true.mpr ⟨q, hq, ?_⟩
    simp [hrule, hle, hid]
  | false =>
    right
    have hlt : r.revision < q.revision := by
      rcases h.cases hr hq with heq | hne
      · rw [← heq, Revision.judges_of_blocks hb hc] at hj
        cases hj
      · exact Nat.lt_of_le_of_ne hle (hne.2 hrule.symm)
    refine List.any_eq_true.mpr ⟨q, hq, ?_⟩
    simp [hrule, hlt, hlatest, hj]

/-! ### What depends on the saves alone -/

theorem isLatest_history : isLatest (history revs) r.core = isLatest revs r := by
  simp only [isLatest, history, List.all_map]
  rfl

theorem currentTx_history : currentTx (history revs) entityID = history (currentTx revs entityID) := by
  have hlatest : latestRevisions (history revs) = history (latestRevisions revs) := by
    simp only [latestRevisions, history, List.filter_map]
    congr 1
    exact List.filter_congr fun p _ => isLatest_history
  rw [currentTx, hlatest, currentTx, history, history, List.filter_map]
  rfl

theorem currentIDs_of_history (h : history revs = history revs') :
    (currentTx revs entityID).map Revision.id = (currentTx revs' entityID).map Revision.id := by
  have hids : ∀ l : List Revision, (history l).map Revision.id = l.map Revision.id := by
    intro l
    rw [history, List.map_map]
    rfl
  rw [← hids, ← currentTx_history, h, currentTx_history, hids]

theorem ranSince_history : ranSince (history revs) r.core ran = ranSince revs r ran := by
  simp only [ranSince, history, List.any_map]
  rfl

theorem retired_history : retired (history revs) entityID r.core = retired revs entityID r := by
  unfold retired
  rw [history, List.any_map]
  congr 1
  funext p
  simp only [Function.comp_apply]
  rw [← history, isLatest_history]
  rfl

theorem ranSince_append {more : List Revision} (h : ranSince revs r ran = true) :
    ranSince (revs ++ more) r ran = true := by
  simp only [ranSince, List.any_append, Bool.or_eq_true] at h ⊢
  exact .inl h

/-! ### Saves and marks -/

theorem history_take (n : ℕ) : history (revs.take n) = (history revs).take n := List.map_take

theorem history_length : (history revs).length = revs.length := List.length_map _

theorem markRechecked_history (ids : List Uuid) :
    history (markRechecked revs ids) = history revs := by
  simp only [history, markRechecked, List.map_map]
  refine List.map_congr_left fun p _ => ?_
  simp only [Function.comp_apply]
  split <;> rfl

theorem mem_markRechecked {ids : List Uuid} (hr : r ∈ markRechecked revs ids) :
    ∃ q ∈ revs, q.core = r.core ∧ (q.rechecked = r.rechecked ∨ q.id ∈ ids) := by
  obtain ⟨q, hq, rfl⟩ := List.mem_map.mp hr
  refine ⟨q, hq, ?_⟩
  split
  · rename_i hid
    exact ⟨rfl, .inr (by simpa using hid)⟩
  · exact ⟨rfl, .inl rfl⟩

end InvoiceOs.CustomRule
