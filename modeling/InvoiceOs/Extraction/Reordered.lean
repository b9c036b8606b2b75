import InvoiceOs.Extraction.Resolve
import Mathlib.Data.List.Perm.Basic

/-! Resolve does not depend on input order: pages, shipped rules and the tokens of a page without
party headings come in any order, tokens that tie for a row reach apart. -/

namespace InvoiceOs.Extraction

open Lib

variable {R : Runtime}

/-! ### What every candidate of a rule carries -/

structure Stamped (call : RuleCall) (c : Candidate) : Prop where
  reason : c.reason = none
  ruleID : c.ruleID = call.ruleID
  tier : c.tier = call.tier
  adjacent : c.adjacent = decide (call.rule.relation.kind ≠ .sameToken)
  field : call.partyScoped = false → c.field = call.field

theorem stamped_appendReadings {call : RuleCall} {raw : String} {region : Region} {party : Party}
    {distance : ℚ} {adjacent : Bool}
    (hadjacent : adjacent = decide (call.rule.relation.kind ≠ .sameToken)) :
    ∀ c ∈ appendReadings R call raw region party distance adjacent, Stamped call c := by
  intro c hc
  obtain ⟨value, -, rfl⟩ := List.mem_map.mp hc
  refine ⟨rfl, rfl, rfl, hadjacent, fun hscoped => ?_⟩
  change call.outField party = call.field
  rw [RuleCall.outField, hscoped]
  rfl

theorem stamped_relatedReadings {call : RuleCall} {page : TokenPage} {anchor : Region}
    {party : Party} {rel : RelatedToken} (hkind : call.rule.relation.kind ≠ .sameToken) :
    ∀ c ∈ relatedReadings R call page anchor party rel, Stamped call c := by
  intro c hc
  unfold relatedReadings at hc
  split at hc
  · cases hc
  · exact stamped_appendReadings (decide_eq_true hkind).symm c hc

theorem stamped_reachReadings {call : RuleCall} {page : TokenPage} {party : Party}
    {reach : Token × ℚ} (hkind : call.rule.relation.kind ≠ .sameToken) :
    ∀ c ∈ reachReadings R call page party reach, Stamped call c := by
  intro c hc
  unfold reachReadings at hc
  split at hc
  · cases hc
  · exact stamped_appendReadings (decide_eq_true hkind).symm c hc

theorem stamped_rowReachCandidates {call : RuleCall} {page : TokenPage} {anchor : Region}
    {party : Party} {text : String} {loc : ℕ × ℕ}
    (hkind : call.rule.relation.kind ≠ .sameToken) :
    ∀ c ∈ rowReachCandidates R call page anchor party text loc, Stamped call c := by
  intro c hc
  unfold rowReachCandidates at hc
  split at hc
  · cases hreach : rowReachToken R page anchor call.rule.relation with
    | none =>
      rw [hreach] at hc
      cases hc
    | some reach =>
      rw [hreach] at hc
      exact stamped_reachReadings hkind c hc
  · cases hc

theorem stamped_anchorCandidates {call : RuleCall} {re : Regexp} {page : TokenPage}
    {anchor : Token × Party} : ∀ c ∈ anchorCandidates R call re page anchor, Stamped call c := by
  intro c hc
  unfold anchorCandidates at hc
  dsimp only at hc
  split at hc
  · cases hc
  · rename_i loc hloc
    have hbeside : call.rule.relation.kind ≠ .sameToken →
        c ∈ (relatedTokens R page anchor.1.region call.rule.relation call.drop).flatMap
            (relatedReadings R call page anchor.1.region anchor.2) ++
          rowReachCandidates R call page anchor.1.region anchor.2 (labelView R anchor.1.text) loc →
        Stamped call c := by
      intro hkind hc
      rcases List.mem_append.mp hc with hrelated | hreach
      · obtain ⟨rel, -, hc⟩ := List.mem_flatMap.mp hrelated
        exact stamped_relatedReadings hkind c hc
      · exact stamped_rowReachCandidates hkind c hreach
    split at hc
    · cases hc
    split at hc
    · cases hc
    split at hc
    · rename_i hkind
      exact stamped_appendReadings (by rw [hkind]; rfl) c hc
    · rename_i hkind
      exact hbeside (by rw [hkind]; decide) hc
    · rename_i hkind
      exact hbeside (by rw [hkind]; decide) hc

theorem stamped_appendRuleCandidates {pages : List TokenPage} {call : RuleCall} :
    ∀ c ∈ appendRuleCandidates R pages call, Stamped call c := by
  intro c hc
  unfold appendRuleCandidates at hc
  split at hc
  · cases hc
  · obtain ⟨page, -, hc⟩ := List.mem_flatMap.mp hc
    obtain ⟨anchor, -, hc⟩ := List.mem_flatMap.mp hc
    exact stamped_anchorCandidates c hc

theorem learnedCandidates_spec (pages : List TokenPage) (rules : List AnchorRule) :
    ∀ claimed,
      (∀ c ∈ learnedCandidates R pages claimed rules,
        c.field ∉ claimed ∧ c.tier = .learned ∧ c.reason = none) ∧
      ∀ a ∈ learnedCandidates R pages claimed rules, ∀ b ∈ learnedCandidates R pages claimed rules,
        a.field = b.field → a.adjacent = b.adjacent := by
  induction rules with
  | nil =>
    intro claimed
    exact ⟨fun c hc => (List.not_mem_nil hc).elim, fun a ha => (List.not_mem_nil ha).elim⟩
  | cons r rest ih =>
    intro claimed
    by_cases hclaimed : r.field ∈ claimed
    · rw [learnedCandidates, if_pos hclaimed]
      exact ih claimed
    · rw [learnedCandidates, if_neg hclaimed]
      obtain ⟨hfields, hone⟩ := ih (if (appendRuleCandidates R pages r.call).isEmpty then claimed
        else claimed ++ [r.field])
      have hgot : ∀ c ∈ appendRuleCandidates R pages r.call,
          Stamped r.call c ∧ c.field = r.field := by
        intro c hc
        have hstamp := stamped_appendRuleCandidates c hc
        exact ⟨hstamp, hstamp.field rfl⟩
      -- once the rule has produced anything, what follows is of other fields
      have hother : ∀ c ∈ appendRuleCandidates R pages r.call,
          ∀ d ∈ learnedCandidates R pages (if (appendRuleCandidates R pages r.call).isEmpty
            then claimed else claimed ++ [r.field]) rest, d.field ≠ r.field := by
        intro c hc d hd hfield
        have hsome : ¬ (appendRuleCandidates R pages r.call).isEmpty = true := by
          intro hempty
          rw [List.isEmpty_iff.mp hempty] at hc
          cases hc
        have hnot := (hfields d hd).1
        rw [if_neg hsome, hfield] at hnot
        exact hnot (List.mem_append_right _ (List.mem_singleton_self _))
      refine ⟨fun c hc => ?_, fun a ha b hb hfield => ?_⟩
      · rcases List.mem_append.mp hc with hc | hc
        · obtain ⟨hstamp, hfield⟩ := hgot c hc
          rw [hfield]
          exact ⟨hclaimed, hstamp.tier, hstamp.reason⟩
        · obtain ⟨hnot, hrest⟩ := hfields c hc
          refine ⟨fun hmem => hnot ?_, hrest⟩
          split
          · exact hmem
          · exact List.mem_append_left _ hmem
      · rcases List.mem_append.mp ha with ha | ha
        · rcases List.mem_append.mp hb with hb | hb
          · rw [(hgot a ha).1.adjacent, (hgot b hb).1.adjacent]
          · exact absurd (hfield.symm.trans (hgot a ha).2) (hother a ha b hb)
        · rcases List.mem_append.mp hb with hb | hb
          · exact absurd (hfield.trans (hgot b hb).2) (hother b hb a ha)
          · exact hone a ha b hb hfield

theorem tier_call_ne_learned (r : Tier1Rule) : r.call.tier ≠ .learned := by
  unfold Tier1Rule.call
  dsimp only
  split <;> decide

theorem adjacentFollowsRule_allCandidates (pages : List TokenPage) {rules : RuleSet}
    (hkeys : (rules.tier1.map Tier1Rule.key).Nodup) :
    AdjacentFollowsRule (allCandidates R pages rules) := by
  obtain ⟨hlearned, hone⟩ := learnedCandidates_spec (R := R) pages rules.learned []
  have hshipped : ∀ c ∈ rules.tier1.flatMap fun r => appendRuleCandidates R pages r.call,
      ∃ r ∈ rules.tier1, Stamped r.call c := by
    intro c hc
    obtain ⟨r, hr, hc⟩ := List.mem_flatMap.mp hc
    exact ⟨r, hr, stamped_appendRuleCandidates c hc⟩
  have hapart : ∀ {a b : Candidate}, a ∈ learnedCandidates R pages [] rules.learned →
      (b ∈ rules.tier1.flatMap fun r => appendRuleCandidates R pages r.call) →
      a.tier ≠ b.tier := by
    intro a b ha hb htier
    obtain ⟨r, -, hstamp⟩ := hshipped b hb
    exact tier_call_ne_learned r (hstamp.tier ▸ htier ▸ (hlearned a ha).2.1)
  refine ⟨fun a ha b hb hfield htier hrule => ?_, fun a ha => ?_⟩
  · rcases List.mem_append.mp ha with ha | ha
    · rcases List.mem_append.mp hb with hb | hb
      · exact hone a ha b hb hfield
      · exact absurd htier (hapart ha hb)
    · rcases List.mem_append.mp hb with hb | hb
      · exact absurd htier.symm (hapart hb ha)
      · obtain ⟨r, hr, hra⟩ := hshipped a ha
        obtain ⟨s, hs, hsb⟩ := hshipped b hb
        have hkey : r.key = s.key := hra.ruleID.symm.trans (hrule.trans hsb.ruleID)
        obtain rfl := List.inj_on_of_nodup_map hkeys hr hs hkey
        rw [hra.adjacent, hsb.adjacent]
  · rcases List.mem_append.mp ha with ha | ha
    · exact (hlearned a ha).2.2
    · obtain ⟨r, -, hstamp⟩ := hshipped a ha
      exact hstamp.reason

/-! ### One page, its tokens in another order -/

def reachGap (R : Runtime) (anchor : Region) (t : Token) : ℚ := R.round (t.region.x0 - anchor.x1)

def tiedTokens (R : Runtime) (page : TokenPage) (anchor : Region) : List Token :=
  leasts (fun t => t.region.x0) (lineTokens R page anchor)

/-- A row reach from the token, past its dial, that would read one of those tied. -/
def Contested (R : Runtime) (call : RuleCall) (page : TokenPage) (a : Token) : Prop :=
  call.rowReach = true ∧
    (∃ re ∈ call.rule.re, ∃ loc ∈ re (labelView R a.text),
      bareLabel R (labelView R a.text) loc = true) ∧
    ∃ t ∈ tiedTokens R page a.region,
      beyond call.rule.relation.maxDistance (reachGap R a.region t) = true ∧
        reachReadings R call page .unknown (t, reachGap R a.region t) ≠ []

/-- The page as read with its tokens in another order: no party heading is on it, and tokens that
tie for a row reach that reads one of them keep theirs. -/
structure Reread (R : Runtime) (p q : TokenPage) : Prop where
  number : q.number = p.number
  tokens : p.tokens.Perm q.tokens
  noHeading : ∀ t ∈ p.tokens, partyHeading R (labelView R t.text) = .unknown
  ties : ∀ r ∈ tier1Rules R, ∀ a ∈ p.tokens, Contested R r.call p a →
    tiedTokens R q a.region = tiedTokens R p a.region

theorem zip_labelTokens (page : TokenPage) :
    page.tokens.zip (labelTokens R page) = page.tokens.map fun t => (t, carriesLabel R t) := by
  have h := List.zip_map' (f := id) (g := carriesLabel R) (l := page.tokens)
  rwa [List.map_id] at h

section
variable {p q : TokenPage} (htokens : p.tokens.Perm q.tokens)

include htokens

theorem zip_labelTokens_perm :
    (p.tokens.zip (labelTokens R p)).Perm (q.tokens.zip (labelTokens R q)) := by
  rw [zip_labelTokens, zip_labelTokens]
  exact htokens.map _

theorem crossesALabel_perm (anchor value : Region) :
    crossesALabel R q (labelTokens R q) anchor value =
      crossesALabel R p (labelTokens R p) anchor value :=
  (zip_labelTokens_perm htokens).any_eq.symm

theorem ownedBelow_perm (value : Region) :
    ownedBelow R q (labelTokens R q) value = ownedBelow R p (labelTokens R p) value :=
  (zip_labelTokens_perm htokens).any_eq.symm

theorem relatedTokens_perm (anchor : Region) (rel : Relation) (drop : ℚ) :
    (relatedTokens R p anchor rel drop).Perm (relatedTokens R q anchor rel drop) := by
  unfold relatedTokens
  split
  · exact htokens.filterMap _
  · exact .refl _

theorem relatedReadings_perm (call : RuleCall) (anchor : Region) (party : Party)
    (rel : RelatedToken) :
    relatedReadings R call q anchor party rel = relatedReadings R call p anchor party rel := by
  have hblocked : blocked R call q anchor rel = blocked R call p anchor rel := by
    simp only [blocked, crossesALabel_perm htokens]
  rw [relatedReadings, relatedReadings, hblocked]

theorem reachReadings_perm (call : RuleCall) (party : Party) (reach : Token × ℚ) :
    reachReadings R call q party reach = reachReadings R call p party reach := by
  rw [reachReadings, reachReadings, ownedBelow_perm htokens]

theorem tiedTokens_perm (anchor : Region) :
    (tiedTokens R p anchor).Perm (tiedTokens R q anchor) :=
  leasts_perm (htokens.filter _)

end

theorem rowReachToken_eq (page : TokenPage) (anchor : Region) (rel : Relation) :
    rowReachToken R page anchor rel =
      if usableBox anchor then
        ((tiedTokens R page anchor).head?.map fun t => (t, reachGap R anchor t)).filter
          fun reach => beyond rel.maxDistance reach.2
      else none := by
  unfold rowReachToken
  by_cases husable : usableBox anchor = true
  · rw [husable, Bool.not_true, if_neg Bool.false_ne_true, if_pos rfl, argmin_eq_head?_leasts]
    change _ = ((leasts (fun t : Token => t.region.x0) (lineTokens R page anchor)).head?.map
      _).filter _
    cases (leasts (fun t : Token => t.region.x0) (lineTokens R page anchor)).head? with
    | none => rfl
    | some t => rfl
  · rw [Bool.eq_false_iff.mpr husable]
    rfl

theorem rowReach_reads_tied {page : TokenPage} {anchor : Region} {rel : Relation}
    {reach : Token × ℚ} (h : rowReachToken R page anchor rel = some reach) :
    reach.1 ∈ tiedTokens R page anchor ∧ reach.2 = reachGap R anchor reach.1 ∧
      beyond rel.maxDistance reach.2 = true := by
  rw [rowReachToken_eq] at h
  split at h
  · obtain ⟨hmap, hbeyond⟩ := Option.filter_eq_some_iff.mp h
    obtain ⟨t, hhead, rfl⟩ := Option.map_eq_some_iff.mp hmap
    exact ⟨List.mem_of_head? hhead, rfl, hbeyond⟩
  · cases h

theorem rowReachCandidates_nil {call : RuleCall} {page : TokenPage} {a : Token} {re : Regexp}
    {loc : ℕ × ℕ} (hre : call.rule.re = some re) (hloc : re (labelView R a.text) = some loc)
    (h : ¬ Contested R call page a) :
    rowReachCandidates R call page a.region .unknown (labelView R a.text) loc = [] := by
  unfold rowReachCandidates
  split
  · rename_i hguard
    obtain ⟨hreaches, hbare⟩ := Bool.and_eq_true_iff.mp hguard
    have hrow := (Bool.and_eq_true_iff.mp hreaches).1
    cases hreach : rowReachToken R page a.region call.rule.relation with
    | none => rfl
    | some reach =>
      obtain ⟨htied, hgap, hbeyond⟩ := rowReach_reads_tied hreach
      by_contra hreads
      refine h ⟨hrow, ⟨re, hre, loc, hloc, hbare⟩, reach.1, htied, ?_, ?_⟩
      · rwa [← hgap]
      · rwa [← hgap]
  · rfl

section
variable {p q : TokenPage} {call : RuleCall}

theorem rowReachCandidates_reread (htokens : p.tokens.Perm q.tokens) {a : Token} {re : Regexp}
    {loc : ℕ × ℕ} (hre : call.rule.re = some re) (hloc : re (labelView R a.text) = some loc)
    (hties : Contested R call p a → tiedTokens R q a.region = tiedTokens R p a.region) :
    rowReachCandidates R call q a.region .unknown (labelView R a.text) loc =
      rowReachCandidates R call p a.region .unknown (labelView R a.text) loc := by
  by_cases hcontested : Contested R call p a
  · have hreach : rowReachToken R q a.region call.rule.relation =
        rowReachToken R p a.region call.rule.relation := by
      rw [rowReachToken_eq, rowReachToken_eq, hties hcontested]
    simp only [rowReachCandidates, hreach, reachReadings_perm htokens]
  · have hfree : ¬ Contested R call q a := by
      rintro ⟨hrow, hlabel, t, ht, hbeyond, hreads⟩
      rw [reachReadings_perm htokens] at hreads
      exact hcontested ⟨hrow, hlabel, t, (tiedTokens_perm htokens _).mem_iff.mpr ht, hbeyond, hreads⟩
    rw [rowReachCandidates_nil hre hloc hcontested, rowReachCandidates_nil hre hloc hfree]

theorem anchorCandidates_reread (hnumber : q.number = p.number)
    (htokens : p.tokens.Perm q.tokens) {a : Token} {re : Regexp} (hre : call.rule.re = some re)
    (hties : Contested R call p a → tiedTokens R q a.region = tiedTokens R p a.region) :
    (anchorCandidates R call re p (a, .unknown)).Perm
      (anchorCandidates R call re q (a, .unknown)) := by
  unfold anchorCandidates
  dsimp only
  rw [hnumber]
  cases hloc : re (labelView R a.text) with
  | none => exact .refl _
  | some loc =>
    dsimp only
    have hbeside : ((relatedTokens R p a.region call.rule.relation call.drop).flatMap
          (relatedReadings R call p a.region .unknown) ++
        rowReachCandidates R call p a.region .unknown (labelView R a.text) loc).Perm
        ((relatedTokens R q a.region call.rule.relation call.drop).flatMap
          (relatedReadings R call q a.region .unknown) ++
        rowReachCandidates R call q a.region .unknown (labelView R a.text) loc) := by
      rw [rowReachCandidates_reread htokens hre hloc hties,
        funext (relatedReadings_perm htokens call a.region .unknown)]
      exact ((relatedTokens_perm htokens _ _ _).flatMap_right _).append_right _
    split
    · exact .refl _
    split
    · exact .refl _
    split
    · exact .refl _
    · exact hbeside
    · exact hbeside

theorem partiesFrom_of_noHeading (tokens : List Token)
    (h : ∀ t ∈ tokens, partyHeading R (labelView R t.text) = .unknown) :
    tokens.zip (partiesFrom R .unknown tokens) = tokens.map fun t => (t, .unknown) := by
  induction tokens with
  | nil => rfl
  | cons t rest ih =>
    have hrest := ih fun u hu => h u (List.mem_cons_of_mem _ hu)
    rw [partiesFrom, h t List.mem_cons_self]
    exact congrArg _ hrest

theorem pageCandidates_of_noHeading {re : Regexp}
    (h : ∀ t ∈ p.tokens, partyHeading R (labelView R t.text) = .unknown) :
    pageCandidates R call re p =
      p.tokens.flatMap fun t => anchorCandidates R call re p (t, .unknown) := by
  rw [pageCandidates, partyOrder, partiesFrom_of_noHeading _ h, List.flatMap_map]

theorem pageCandidates_reread (hnumber : q.number = p.number) (htokens : p.tokens.Perm q.tokens)
    (hhead : ∀ t ∈ p.tokens, partyHeading R (labelView R t.text) = .unknown)
    (hties : ∀ a ∈ p.tokens, Contested R call p a →
      tiedTokens R q a.region = tiedTokens R p a.region)
    {re : Regexp} (hre : call.rule.re = some re) :
    (pageCandidates R call re p).Perm (pageCandidates R call re q) := by
  rw [pageCandidates_of_noHeading hhead,
    pageCandidates_of_noHeading fun t ht => hhead t (htokens.mem_iff.mpr ht)]
  refine (List.Perm.flatMap_left _ fun a ha => ?_).trans (htokens.flatMap_right _)
  exact anchorCandidates_reread hnumber htokens hre (hties a ha)

end

/-! ### The whole input in another order -/

def Reordered (R : Runtime) (pages pages' : List TokenPage) : Prop :=
  ∃ mid, pages.Perm mid ∧ List.Forall₂ (fun p q => q = p ∨ Reread R p q) mid pages'

def Reaches (R : Runtime) (call : RuleCall) : Prop :=
  call.rowReach = true → ∃ r ∈ tier1Rules R, r.call = call

theorem reaches_learned (r : AnchorRule) : Reaches R r.call := by
  intro h
  cases h

theorem appendRuleCandidates_reordered {pages pages' : List TokenPage} {call : RuleCall}
    (hcall : Reaches R call) (h : Reordered R pages pages') :
    (appendRuleCandidates R pages call).Perm (appendRuleCandidates R pages' call) := by
  obtain ⟨mid, hperm, hreread⟩ := h
  unfold appendRuleCandidates
  cases hre : call.rule.re with
  | none => exact .refl _
  | some re =>
    refine (hperm.flatMap_right _).trans ?_
    clear hperm
    induction hreread with
    | nil => exact .refl _
    | @cons p q mid pages' hpq _ ih =>
      refine List.Perm.append ?_ ih
      rcases hpq with rfl | hreread
      · exact .refl _
      · refine pageCandidates_reread hreread.number hreread.tokens hreread.noHeading ?_ hre
        intro a ha hcontested
        obtain ⟨r, hr, rfl⟩ := hcall hcontested.1
        exact hreread.ties r hr a ha hcontested

theorem learnedCandidates_reordered {pages pages' : List TokenPage} (h : Reordered R pages pages')
    (rules : List AnchorRule) : ∀ claimed, (learnedCandidates R pages claimed rules).Perm
      (learnedCandidates R pages' claimed rules) := by
  induction rules with
  | nil => exact fun claimed => .refl _
  | cons r rest ih =>
    intro claimed
    by_cases hclaimed : r.field ∈ claimed
    · rw [learnedCandidates, learnedCandidates, if_pos hclaimed, if_pos hclaimed]
      exact ih claimed
    · rw [learnedCandidates, learnedCandidates, if_neg hclaimed, if_neg hclaimed]
      have hgot := appendRuleCandidates_reordered (reaches_learned r) h
      have hempty : (appendRuleCandidates R pages' r.call).isEmpty =
          (appendRuleCandidates R pages r.call).isEmpty := hgot.isEmpty_eq.symm
      dsimp only
      rw [hempty]
      exact hgot.append (ih _)

theorem allCandidates_reordered {pages pages' : List TokenPage} (h : Reordered R pages pages')
    (learned : List AnchorRule) {shipped : List Tier1Rule} (hshipped : (tier1Rules R).Perm shipped) :
    (allCandidates R pages ⟨learned, tier1Rules R⟩).Perm
      (allCandidates R pages' ⟨learned, shipped⟩) := by
  refine (learnedCandidates_reordered h learned []).append ?_
  refine (List.Perm.flatMap_left _ fun r hr => ?_).trans (hshipped.flatMap_right _)
  exact appendRuleCandidates_reordered (fun _ => ⟨r, hr, rfl⟩) h

/-- Pages, shipped rules and the tokens of a page without headings in any order, ties of a row
reach apart, give one output; and within a field candidates the comparator ties are equal. -/
theorem resolve_reordered (R : Runtime) {pages pages' : List TokenPage}
    (h : Reordered R pages pages') (learned : List AnchorRule) {shipped : List Tier1Rule}
    (hshipped : (tier1Rules R).Perm shipped) :
    resolve R pages' ⟨learned, shipped⟩ = resolve R pages ⟨learned, tier1Rules R⟩ ∧
      ∀ a ∈ allCandidates R pages ⟨learned, tier1Rules R⟩,
        ∀ b ∈ allCandidates R pages ⟨learned, tier1Rules R⟩,
          a.field = b.field → compareCandidates a b = .eq → a = b := by
  have hfollows : AdjacentFollowsRule (allCandidates R pages ⟨learned, tier1Rules R⟩) :=
    adjacentFollowsRule_allCandidates pages (nodup_tier1_keys R)
  refine ⟨?_, fun a ha b hb => hfollows.eq_of_compare ha hb⟩
  have hranked : ∀ field, ranked R pages' ⟨learned, shipped⟩ field =
      ranked R pages ⟨learned, tier1Rules R⟩ field :=
    fun field => hfollows.sort_perm (allCandidates_reordered h learned hshipped) field
  simp only [resolve, hranked]

/-! ### A tie, and one rule read for two fields -/

def startsWithLabel (label : String) (text : String) : Option (ℕ × ℕ) :=
  if label.toList.isPrefixOf text.toList then some (0, label.length) else none

def threeLabels : Runtime where
  mustCompile pattern :=
    if pattern = anchorPattern "total" then startsWithLabel "Total"
    else if pattern = anchorPattern "bare_tin" then startsWithLabel "TIN"
    else if pattern = anchorPattern "buyer_name" then startsWithLabel "Buyer"
    else fun _ => none
  isLetter := Char.isAlpha
  round := id

def totalLabel : Token := ⟨"Total", ⟨1, 1 / 10, 4 / 10, 2 / 10, 5 / 10⟩⟩

def upperAmount : Token := ⟨"100.00", ⟨1, 8 / 10, 40 / 100, 9 / 10, 45 / 100⟩⟩

def lowerAmount : Token := ⟨"200.00", ⟨1, 8 / 10, 45 / 100, 9 / 10, 50 / 100⟩⟩

theorem resolve_reordered_sample :
    resolve threeLabels [⟨2, [upperAmount]⟩, ⟨1, [upperAmount, totalLabel]⟩]
        ⟨[], (tier1Rules threeLabels).reverse⟩ =
      resolve threeLabels [⟨1, [totalLabel, upperAmount]⟩, ⟨2, [upperAmount]⟩]
        ⟨[], tier1Rules threeLabels⟩ := by
  have hties : ∀ a ∈ [totalLabel, upperAmount],
      tiedTokens threeLabels ⟨1, [upperAmount, totalLabel]⟩ a.region =
        tiedTokens threeLabels ⟨1, [totalLabel, upperAmount]⟩ a.region := by decide +kernel
  have hreread : Reread threeLabels ⟨1, [totalLabel, upperAmount]⟩
      ⟨1, [upperAmount, totalLabel]⟩ :=
    ⟨rfl, .swap _ _ _, by decide +kernel, fun r _ a ha _ => hties a ha⟩
  have hpages : Reordered threeLabels [⟨1, [totalLabel, upperAmount]⟩, ⟨2, [upperAmount]⟩]
      [⟨2, [upperAmount]⟩, ⟨1, [upperAmount, totalLabel]⟩] :=
    ⟨_, .swap _ _ _, .cons (.inl rfl) (.cons (.inr hreread) .nil)⟩
  exact (resolve_reordered threeLabels hpages [] (List.reverse_perm _).symm).1

theorem tie_reach_and_tin_fields :
    (resolve threeLabels [⟨1, [totalLabel, upperAmount, lowerAmount]⟩] ⟨[], tier1Rules threeLabels⟩ ≠
        resolve threeLabels [⟨1, [totalLabel, lowerAmount, upperAmount]⟩]
          ⟨[], tier1Rules threeLabels⟩ ∧
      (∀ t ∈ [totalLabel, upperAmount, lowerAmount],
        partyHeading threeLabels (labelView threeLabels t.text) = .unknown) ∧
      [totalLabel, upperAmount, lowerAmount].Perm [totalLabel, lowerAmount, upperAmount] ∧
      ([totalLabel, upperAmount, lowerAmount].map Token.region).Nodup) ∧
    ∃ a ∈ resolve threeLabels [⟨1, [⟨"TIN: 12345678-0001", ⟨1, 0, 0, 0, 0⟩⟩,
        ⟨"Buyer", ⟨1, 0, 1, 0, 1⟩⟩, ⟨"TIN: 12345678-0001", ⟨1, 1, 1, 1, 1⟩⟩]⟩]
        ⟨[], tier1Rules threeLabels⟩,
      ∃ b ∈ resolve threeLabels [⟨1, [⟨"TIN: 12345678-0001", ⟨1, 0, 0, 0, 0⟩⟩,
        ⟨"Buyer", ⟨1, 0, 1, 0, 1⟩⟩, ⟨"TIN: 12345678-0001", ⟨1, 1, 1, 1, 1⟩⟩]⟩]
        ⟨[], tier1Rules threeLabels⟩,
        compareCandidates a b = .eq ∧ a.field ≠ b.field := by
  refine ⟨⟨?_, ?_, ?_, ?_⟩, ?_⟩
  · decide +kernel
  · decide +kernel
  · exact (List.Perm.swap lowerAmount upperAmount []).cons totalLabel
  · decide +kernel
  · decide +kernel

end InvoiceOs.Extraction
