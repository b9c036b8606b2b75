import InvoiceOs.Approval.Directory
import InvoiceOs.Lib.Refusal

/-! Custom-rule revisions: what a save appends, which revisions are current for a set of
clients, and which are still waiting for their re-check. -/

namespace InvoiceOs.CustomRule

open Lib Approval

inductive RuleSeverity where
  | error
  | warning
  deriving DecidableEq, Repr

structure RuleInput where
  entityID : Option Uuid := none
  type : String
  target : String := ""
  params : String := "{}"
  severity : RuleSeverity
  condition : Option String := none
  message : String
  enabled : Bool
  deriving DecidableEq

/-- A `custom_rule_revisions` row; `rechecked` is `rechecked_at IS NOT NULL`. -/
structure Revision extends RuleInput where
  id : Uuid
  ruleID : Uuid
  revision : ℕ
  deleted : Bool := false
  createdBy : Uuid
  rechecked : Bool
  deriving DecidableEq

def Revision.covers (r : Revision) (entityID : Uuid) : Bool :=
  r.entityID.isNone || r.entityID == some entityID

/-- Only a revision that can block waits for the re-check. -/
def blockingCapable (input : RuleInput) (deleted : Bool) : Bool :=
  input.enabled && input.severity == .error && !deleted

def isLatest (revs : List Revision) (r : Revision) : Bool :=
  revs.all fun q => q.ruleID != r.ruleID || q.revision ≤ r.revision

def latestRevisions (revs : List Revision) : List Revision := revs.filter (isLatest revs)

def currentTx (revs : List Revision) (entityID : Uuid) : List Revision :=
  (latestRevisions revs).filter fun r => !r.deleted && r.enabled && r.covers entityID

def rulesPendingFor (revs : List Revision) (entityID : Uuid) : Bool :=
  revs.any fun r => !r.rechecked && r.covers entityID

inductive Save where
  | create (ruleID : Uuid) (input : RuleInput)
  | update (ruleID : Uuid) (input : RuleInput)
  | delete (ruleID : Uuid)

def maxRules : ℕ := 100

def checkInput (d : Directory) (input : RuleInput) : Except Err Unit := do
  if input.type = "" ∨ input.message = "" then
    throw .validation
  if input.entityID.any fun e => (d.entity? e).isNone then
    throw .validation

def latestOf (revs : List Revision) (ruleID : Uuid) : Except Err Revision :=
  match (latestRevisions revs).find? fun r => r.ruleID == ruleID with
  | none => throw .notFound
  | some r => if r.deleted then throw .notFound else pure r

def newRevision (caller revisionID ruleID : Uuid) (revision : ℕ) (input : RuleInput)
    (deleted : Bool) : Revision :=
  { input with
    id := revisionID
    ruleID := ruleID
    revision := revision
    deleted := deleted
    createdBy := caller
    rechecked := !blockingCapable input deleted }

/-- The second pass of `save`, under the exclusive save lock. -/
def save (d : Directory) (revs : List Revision) (caller revisionID : Uuid) (s : Save) :
    Except Err (List Revision) := do
  d.requireActiveAdmin caller
  if revs.any fun r => r.id == revisionID then
    throw .uniqueViolation
  match s with
  | .create ruleID input =>
    checkInput d input
    if ((latestRevisions revs).filter fun r => !r.deleted).length ≥ maxRules then
      throw .validation
    if revs.any fun r => r.ruleID == ruleID then
      throw .uniqueViolation
    return revs ++ [newRevision caller revisionID ruleID 1 input false]
  | .update ruleID input =>
    checkInput d input
    let latest ← latestOf revs ruleID
    return revs ++ [newRevision caller revisionID ruleID (latest.revision + 1) input false]
  | .delete ruleID =>
    let latest ← latestOf revs ruleID
    return revs ++
      [newRevision caller revisionID ruleID (latest.revision + 1) latest.toRuleInput true]

/-- `UPDATE ... SET rechecked_at = now() WHERE id = ANY(ids)`. -/
def markRechecked (revs : List Revision) (ids : List Uuid) : List Revision :=
  revs.map fun r => if ids.contains r.id then { r with rechecked := true } else r

theorem save_spec {d : Directory} {revs revs' : List Revision} {caller revisionID : Uuid} {s : Save}
    (h : save d revs caller revisionID s = .ok revs') :
    ∃ r, revs' = revs ++ [r] ∧ r.id = revisionID ∧ (∀ q ∈ revs, q.id ≠ revisionID) ∧
      (∀ q ∈ revs, q.ruleID = r.ruleID → q.revision < r.revision) ∧
      r.rechecked = !blockingCapable r.toRuleInput r.deleted := by
  simp only [save, bind_eq_ok, refuse_eq_ok] at h
  obtain ⟨-, -, hid, h⟩ := h
  have hfresh : ∀ q ∈ revs, q.id ≠ revisionID := by
    intro q hq heq
    exact hid (List.any_eq_true.mpr ⟨q, hq, beq_iff_eq.mpr heq⟩)
  have hlatest : ∀ {ruleID latest}, latestOf revs ruleID = .ok latest →
      ∀ q ∈ revs, q.ruleID = ruleID → q.revision < latest.revision + 1 := by
    intro ruleID latest hl q hq hqr
    unfold latestOf at hl
    split at hl
    · cases hl
    · rename_i r hr
      simp only [check_eq_ok, pure_eq_ok] at hl
      obtain ⟨-, rfl⟩ := hl
      have hm := List.mem_of_find?_eq_some hr
      have hall := (List.mem_filter.mp hm).2
      have hrr : r.ruleID = ruleID := by simpa using List.find?_some hr
      have := List.all_eq_true.mp hall q hq
      simp only [hqr, hrr, bne_self_eq_false, Bool.false_or, decide_eq_true_eq] at this
      exact Nat.lt_succ_of_le this
  cases s with
  | create ruleID input =>
    simp only [bind_eq_ok, refuse_eq_ok, pure_eq_ok] at h
    obtain ⟨-, -, -, hrule, rfl⟩ := h
    refine ⟨_, rfl, rfl, hfresh, fun q hq hqr => ?_, rfl⟩
    have htaken : (revs.any fun r => r.ruleID == ruleID) = true :=
      List.any_eq_true.mpr ⟨q, hq, beq_iff_eq.mpr hqr⟩
    exact absurd htaken hrule
  | update ruleID input =>
    simp only [bind_eq_ok, pure_eq_ok] at h
    obtain ⟨-, -, latest, hl, rfl⟩ := h
    exact ⟨_, rfl, rfl, hfresh, fun q hq hqr => hlatest hl q hq hqr, rfl⟩
  | delete ruleID =>
    simp only [bind_eq_ok, pure_eq_ok] at h
    obtain ⟨latest, hl, rfl⟩ := h
    exact ⟨_, rfl, rfl, hfresh, fun q hq hqr => hlatest hl q hq hqr, rfl⟩

end InvoiceOs.CustomRule
