import InvoiceOs.Extraction.Worker
import InvoiceOs.Lib.OrderBy
import Mathlib.Algebra.Order.Ring.Rat
import Mathlib.Order.Std

/-! Candidates, the possible values of one field, and the order they are ranked in. -/

namespace InvoiceOs.Extraction

open Lib

inductive Tier where
  | learned
  | generic
  | fallback
  deriving DecidableEq, Repr

def Tier.rank : Tier → ℕ
  | .learned => 0
  | .generic => 1
  | .fallback => 2

theorem Tier.rank_injective : Function.Injective Tier.rank := by
  intro a b h
  revert h
  cases a <;> cases b <;> decide

structure Candidate where
  field : String
  value : String
  region : Option Region
  reason : Option Reason
  ruleID : String
  tier : Tier
  distance : ℚ
  adjacent : Bool
  deriving DecidableEq

def compareFloat (a b : ℚ) : Ordering := compare a b

def compareBoxes (a b : Region) : Ordering :=
  (compare a.page b.page).then <| (compareFloat a.y0 b.y0).then <|
    (compareFloat a.x0 b.x0).then <| (compareFloat a.y1 b.y1).then <| compareFloat a.x1 b.x1

def compareRegions : Option Region → Option Region → Ordering
  | none, none => .eq
  | none, some _ => .gt
  | some _, none => .lt
  | some a, some b => compareBoxes a b

def compareCandidates (a b : Candidate) : Ordering :=
  (compare a.tier.rank b.tier.rank).then <| (compareFloat a.distance b.distance).then <|
    (compareRegions a.region b.region).then <| (compare a.value b.value).then <|
      compare a.ruleID b.ruleID

/-! ### One order -/

instance : Std.TransCmp compareBoxes :=
  inferInstanceAs (Std.TransCmp (compareLex (compareOn Region.page) (compareLex
    (compareOn Region.y0) (compareLex (compareOn Region.x0) (compareLex (compareOn Region.y1)
      (compareOn Region.x1))))))

instance : Std.OrientedCmp compareRegions where
  eq_swap {a b} := by
    cases a with
    | none => cases b <;> rfl
    | some a =>
      cases b with
      | none => rfl
      | some b =>
        change compareBoxes a b = (compareBoxes b a).swap
        exact Std.OrientedCmp.eq_swap

instance : Std.TransCmp compareRegions where
  isLE_trans {a b c} hab hbc := by
    cases c with
    | none => cases a <;> rfl
    | some c =>
      cases b with
      | none => cases hbc
      | some b =>
        cases a with
        | none => cases hab
        | some a =>
          change (compareBoxes a b).isLE = true at hab
          change (compareBoxes a c).isLE = true
          exact Std.TransCmp.isLE_trans hab hbc

instance : Std.TransCmp fun a b : Candidate => compareRegions a.region b.region where
  eq_swap := Std.OrientedCmp.eq_swap
  isLE_trans := Std.TransCmp.isLE_trans

instance : Std.TransCmp compareCandidates :=
  inferInstanceAs (Std.TransCmp (compareLex (compareOn fun c : Candidate => c.tier.rank)
    (compareLex (compareOn Candidate.distance) (compareLex
      (fun a b => compareRegions a.region b.region) (compareLex (compareOn Candidate.value)
        (compareOn Candidate.ruleID))))))

theorem compareBoxes_eq {a b : Region} (h : compareBoxes a b = .eq) : a = b := by
  simp only [compareBoxes, compareFloat, Ordering.then_eq_eq, Std.LawfulEqOrd.compare_eq_iff_eq] at h
  obtain ⟨hpage, hy0, hx0, hy1, hx1⟩ := h
  cases a
  cases b
  cases hpage
  cases hy0
  cases hx0
  cases hy1
  cases hx1
  rfl

theorem compareRegions_eq {a b : Option Region} (h : compareRegions a b = .eq) : a = b := by
  cases a with
  | none =>
    cases b with
    | none => rfl
    | some b => cases h
  | some a =>
    cases b with
    | none => cases h
    | some b => exact congrArg some (compareBoxes_eq h)

theorem compareCandidates_eq {a b : Candidate} (h : compareCandidates a b = .eq) :
    a.tier = b.tier ∧ a.distance = b.distance ∧ a.region = b.region ∧ a.value = b.value ∧
      a.ruleID = b.ruleID := by
  simp only [compareCandidates, compareFloat, Ordering.then_eq_eq,
    Std.LawfulEqOrd.compare_eq_iff_eq] at h
  obtain ⟨htier, hdistance, hregion, hvalue, hrule⟩ := h
  exact ⟨Tier.rank_injective htier, hdistance, compareRegions_eq hregion, hvalue, hrule⟩

def candidateLE (a b : Candidate) : Bool := (compareCandidates a b).isLE

theorem isOrder_candidateLE : IsOrder candidateLE := isOrder_isLE

instance : Std.Total fun a b : Candidate => candidateLE a b = true :=
  ⟨fun a b => (Bool.or_eq_true _ _).mp (isOrder_candidateLE.total a b)⟩

instance : IsTrans Candidate fun a b => candidateLE a b = true :=
  ⟨isOrder_candidateLE.trans⟩

def sortCandidates (per : List Candidate) : List Candidate :=
  per.insertionSort fun a b => candidateLE a b = true

theorem sortCandidates_perm (per : List Candidate) : (sortCandidates per).Perm per :=
  List.perm_insertionSort _ per

theorem mem_sortCandidates {per : List Candidate} {c : Candidate} :
    c ∈ sortCandidates per ↔ c ∈ per := (sortCandidates_perm per).mem_iff

theorem pairwise_sortCandidates (per : List Candidate) :
    (sortCandidates per).Pairwise fun a b => candidateLE a b = true :=
  List.pairwise_insertionSort _ per

/-! ### Which rule a reading came from -/

/-- One rule has one relation kind, so the rule says whether the value lay beside its label; no
candidate carries a doubt. -/
structure AdjacentFollowsRule (cands : List Candidate) : Prop where
  adjacent : ∀ a ∈ cands, ∀ b ∈ cands, a.field = b.field → a.tier = b.tier →
    a.ruleID = b.ruleID → a.adjacent = b.adjacent
  reason : ∀ a ∈ cands, a.reason = none

theorem AdjacentFollowsRule.eq_of_compare {cands : List Candidate} (h : AdjacentFollowsRule cands)
    {a b : Candidate} (ha : a ∈ cands) (hb : b ∈ cands) (hfield : a.field = b.field)
    (heq : compareCandidates a b = .eq) : a = b := by
  obtain ⟨htier, hdistance, hregion, hvalue, hrule⟩ := compareCandidates_eq heq
  have hadjacent := h.adjacent a ha b hb hfield htier hrule
  have hreason := (h.reason a ha).trans (h.reason b hb).symm
  cases a
  cases b
  simp only at hfield htier hdistance hregion hvalue hrule hadjacent hreason
  subst_vars
  rfl

theorem AdjacentFollowsRule.sort_perm {cands cands' : List Candidate}
    (h : AdjacentFollowsRule cands) (hperm : cands.Perm cands') (field : String) :
    sortCandidates (cands'.filter fun c => c.field = field) =
      sortCandidates (cands.filter fun c => c.field = field) := by
  have hsorted := (sortCandidates_perm (cands'.filter fun c => c.field = field)).trans
    ((hperm.filter _).symm.trans (sortCandidates_perm _).symm)
  refine List.Perm.eq_of_pairwise ?_ (pairwise_sortCandidates _) (pairwise_sortCandidates _) hsorted
  intro a b ha hb hab hba
  obtain ⟨ha, hfa⟩ := List.mem_filter.mp (mem_sortCandidates.mp (hsorted.mem_iff.mp ha))
  obtain ⟨hb, hfb⟩ := List.mem_filter.mp (mem_sortCandidates.mp hb)
  have hfield : a.field = b.field := (of_decide_eq_true hfa).trans (of_decide_eq_true hfb).symm
  exact h.eq_of_compare ha hb hfield (eq_of_isLE hab hba)

end InvoiceOs.Extraction
