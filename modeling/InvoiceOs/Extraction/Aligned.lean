import InvoiceOs.Extraction.MonotoneMatch
import InvoiceOs.Lib.OrderBy

/-! What the three passes leave: one increasing row of pairs, the first pass a largest matching
under the strong anchor, each later pass in the gaps of the passes before it. -/

namespace InvoiceOs.Extraction

open Lib

/-! ### Positions -/

theorem mem_aliSeq {lo hi x : ℕ} : x ∈ aliSeq lo hi ↔ lo ≤ x ∧ x ≤ hi := by
  rw [aliSeq, List.mem_range'_1]
  omega

theorem aliSeq_increasing (lo hi : ℕ) : (aliSeq lo hi).Pairwise (· < ·) :=
  List.pairwise_lt_range'

theorem getElem?_aliSeq {lo hi i x : ℕ} (h : (aliSeq lo hi)[i]? = some x) :
    x = lo + i ∧ x ≤ hi := by
  obtain ⟨hi', hx⟩ := List.getElem?_eq_some_iff.mp h
  rw [aliSeq, List.length_range'] at hi'
  have hval : x = lo + i := by
    rw [← hx]
    simp [aliSeq]
  exact ⟨hval, by omega⟩

namespace AliPair

def pos (p : AliPair) : ℕ × ℕ := (p.answer, p.key)

end AliPair

def boxOf (lo hi : ℕ × ℕ) : List ℕ × List ℕ :=
  (aliSeq (lo.1 + 1) (hi.1 - 1), aliSeq (lo.2 + 1) (hi.2 - 1))

theorem mem_boxOf {lo hi p : ℕ × ℕ} :
    p.1 ∈ (boxOf lo hi).1 ∧ p.2 ∈ (boxOf lo hi).2 ↔ Before lo p ∧ Before p hi := by
  simp only [boxOf, mem_aliSeq, Before]
  omega

theorem aliGapsFrom_eq (nAnswer nKey : ℕ) (lo : ℕ × ℕ) (pairs : List AliPair) :
    aliGapsFrom nAnswer nKey lo.1 lo.2 pairs =
      (gapsOf AliPair.pos (nAnswer + 1, nKey + 1) lo pairs).map fun x => boxOf x.1 x.2 := by
  induction pairs generalizing lo with
  | nil => rfl
  | cons p pairs ih => exact congrArg (List.cons _) (ih p.pos)

theorem aliGaps_eq (pairs : List AliPair) (nAnswer nKey : ℕ) :
    aliGaps pairs nAnswer nKey =
      (gapsOf AliPair.pos (nAnswer + 1, nKey + 1) (0, 0) pairs).map fun x => boxOf x.1 x.2 :=
  aliGapsFrom_eq nAnswer nKey (0, 0) pairs

/-! ### One range -/

section
variable {answer key : List DocLine} {lo hi : ℕ × ℕ} {pass : AliPass}
  {compatible : DocLine → DocLine → Bool}

theorem aliMatchRange_eq (answer key : List DocLine) (gap : List ℕ × List ℕ) (pass : AliPass)
    (compatible : DocLine → DocLine → Bool) :
    aliMatchRange answer key gap pass compatible =
      (aliMonotoneMatch (atRows compatible answer key) gap.1 gap.2).map fun lp =>
        { answer := gap.1.getD lp.1 0, key := gap.2.getD lp.2 0, pass } := by
  unfold aliMatchRange
  split
  · rename_i hempty
    have hnone : aliMonotoneMatch (atRows compatible answer key) gap.1 gap.2 = [] := by
      rw [aliMonotoneMatch, aliTrace, dif_neg]
      rintro ⟨ha, hk⟩
      rcases hempty with h | h
      · rw [h] at ha
        cases ha
      · rw [h] at hk
        cases hk
    rw [hnone, List.map_nil]
  · rfl

theorem mem_aliMatchRange {gap : List ℕ × List ℕ} {p : AliPair}
    (h : p ∈ aliMatchRange answer key gap pass compatible) :
    (p.answer ∈ gap.1 ∧ p.key ∈ gap.2) ∧ p.pass = pass ∧ p.outcome = none ∧
      atRows compatible answer key p.answer p.key = true := by
  rw [aliMatchRange_eq, List.mem_map] at h
  obtain ⟨lp, hlp, rfl⟩ := h
  obtain ⟨a, k, ha, hk, hak⟩ :=
    (aliMonotoneMatch_maximum (atRows compatible answer key) gap.1 gap.2).1.compatible lp hlp
  have ha' : gap.1.getD lp.1 0 = a := by rw [List.getD_eq_getElem?_getD, ha, Option.getD_some]
  have hk' : gap.2.getD lp.2 0 = k := by rw [List.getD_eq_getElem?_getD, hk, Option.getD_some]
  simp only [ha', hk']
  exact ⟨⟨List.mem_of_getElem? ha, List.mem_of_getElem? hk⟩, trivial, trivial, hak⟩

theorem aliMatchRange_chain (answer key : List DocLine) (lo hi : ℕ × ℕ) (pass : AliPass)
    (compatible : DocLine → DocLine → Bool) :
    ChainIn Before AliPair.pos lo hi (aliMatchRange answer key (boxOf lo hi) pass compatible) := by
  have hbox : ∀ p ∈ aliMatchRange answer key (boxOf lo hi) pass compatible,
      Before lo p.pos ∧ Before p.pos hi := fun p hp => mem_boxOf.mp (mem_aliMatchRange hp).1
  refine ⟨?_, fun p hp => (hbox p hp).1, fun p hp => (hbox p hp).2⟩
  obtain ⟨hincreasing, hcompatible⟩ :=
    (aliMonotoneMatch_maximum (atRows compatible answer key) (boxOf lo hi).1 (boxOf lo hi).2).1
  rw [aliMatchRange_eq, List.pairwise_map]
  refine hincreasing.imp_of_mem fun {p q} hp hq hpq => ?_
  obtain ⟨a, k, ha, hk, _⟩ := hcompatible p hp
  obtain ⟨a', k', ha', hk', _⟩ := hcompatible q hq
  simp only [AliPair.pos, Before, List.getD_eq_getElem?_getD, ha, hk, ha', hk', Option.getD_some]
  have h₁ := getElem?_aliSeq ha
  have h₂ := getElem?_aliSeq hk
  have h₃ := getElem?_aliSeq ha'
  have h₄ := getElem?_aliSeq hk'
  have h₅ := hpq.1
  have h₆ := hpq.2
  omega

theorem mem_positionalFill {gap : List ℕ × List ℕ} {p : AliPair} (h : p ∈ positionalFill gap) :
    (p.answer ∈ gap.1 ∧ p.key ∈ gap.2) ∧ p.pass = .positional ∧ p.outcome = none := by
  obtain ⟨i, hi, rfl⟩ := List.mem_iff_getElem.mp h
  simp only [positionalFill, List.getElem_zipWith]
  exact ⟨⟨List.getElem_mem _, List.getElem_mem _⟩, trivial, trivial⟩

theorem positionalFill_chain (lo hi : ℕ × ℕ) :
    ChainIn Before AliPair.pos lo hi (positionalFill (boxOf lo hi)) := by
  have hbox : ∀ p ∈ positionalFill (boxOf lo hi), Before lo p.pos ∧ Before p.pos hi :=
    fun p hp => mem_boxOf.mp (mem_positionalFill hp).1
  refine ⟨?_, fun p hp => (hbox p hp).1, fun p hp => (hbox p hp).2⟩
  rw [List.pairwise_iff_getElem]
  intro i j _ _ hij
  simp only [positionalFill, List.getElem_zipWith, boxOf, aliSeq, List.getElem_range',
    AliPair.pos, Before]
  omega

end

/-! ### The passes -/

theorem aliSortPairs_eq {lo hi : ℕ × ℕ} {pairs chain : List AliPair} (hperm : pairs.Perm chain)
    (h : ChainIn Before AliPair.pos lo hi chain) : aliSortPairs pairs = chain := by
  have hsorted : (aliSortPairs pairs).Pairwise fun p q => p.answer ≤ q.answer := by
    have horder : IsOrder fun p q : AliPair => decide (p.answer ≤ q.answer) :=
      isOrder_le.comparing AliPair.answer
    exact (List.pairwise_mergeSort horder.trans horder.total pairs).imp of_decide_eq_true
  have hchain : chain.Pairwise fun p q => p.answer ≤ q.answer :=
    h.increasing.imp fun hpq => hpq.1.le
  have hsame : (aliSortPairs pairs).Perm chain := (List.mergeSort_perm pairs _).trans hperm
  have hnodup : (chain.map AliPair.answer).Nodup :=
    List.pairwise_map.mpr (h.increasing.imp fun hpq => hpq.1.ne)
  refine hsame.eq_of_pairwise (fun p q hp hq hpq hqp => ?_) hsorted hchain
  exact List.inj_on_of_nodup_map hnodup (hsame.mem_iff.mp hp) hq (le_antisymm hpq hqp)

section
variable (toLower : Char → Char) (answer key : List DocLine)

def corner : ℕ × ℕ := (answer.length + 1, key.length + 1)

theorem strongPass_eq :
    strongPass toLower answer key =
      aliMatchRange answer key (boxOf (0, 0) (corner answer key)) .strong
        (aliStrongAnchor toLower) := rfl

theorem strongPass_chain :
    ChainIn Before AliPair.pos (0, 0) (corner answer key) (strongPass toLower answer key) := by
  rw [strongPass_eq]
  exact aliMatchRange_chain ..

theorem fill_eq {pairs : List AliPair}
    (h : ChainIn Before AliPair.pos (0, 0) (corner answer key) pairs)
    (fill : List ℕ × List ℕ → List AliPair)
    (hfill : ∀ lo hi, ChainIn Before AliPair.pos lo hi (fill (boxOf lo hi))) :
    aliSortPairs (pairs ++ (aliGaps pairs answer.length key.length).flatMap fill) =
      weave AliPair.pos (corner answer key) (fun lo hi => fill (boxOf lo hi)) id (0, 0) pairs := by
  have htrans : ∀ p q r, Before p q → Before q r → Before p r := fun p q r => Before.trans
  refine aliSortPairs_eq ?_ (h.weave htrans _ hfill)
  have hperm : (weave AliPair.pos (corner answer key) (fun lo hi => fill (boxOf lo hi)) id (0, 0)
      pairs).Perm _ := weave_perm _ id (0, 0) pairs
  rw [List.map_id] at hperm
  rw [aliGaps_eq, List.flatMap_map]
  exact hperm.symm

theorem fill_chain {pairs : List AliPair}
    (h : ChainIn Before AliPair.pos (0, 0) (corner answer key) pairs)
    (fill : List ℕ × List ℕ → List AliPair)
    (hfill : ∀ lo hi, ChainIn Before AliPair.pos lo hi (fill (boxOf lo hi))) :
    ChainIn Before AliPair.pos (0, 0) (corner answer key)
      (aliSortPairs (pairs ++ (aliGaps pairs answer.length key.length).flatMap fill)) := by
  have htrans : ∀ p q r, Before p q → Before q r → Before p r := fun p q r => Before.trans
  rw [fill_eq answer key h fill hfill]
  exact h.weave htrans _ hfill

theorem mem_fill {pairs : List AliPair} {fill : List ℕ × List ℕ → List AliPair} {p : AliPair} :
    p ∈ aliSortPairs (pairs ++ (aliGaps pairs answer.length key.length).flatMap fill) ↔
      p ∈ pairs ∨ ∃ gap ∈ aliGaps pairs answer.length key.length, p ∈ fill gap := by
  rw [aliSortPairs, List.mem_mergeSort, List.mem_append, List.mem_flatMap]

theorem filter_fill {pairs : List AliPair}
    (h : ChainIn Before AliPair.pos (0, 0) (corner answer key) pairs)
    (fill : List ℕ × List ℕ → List AliPair)
    (hfill : ∀ lo hi, ChainIn Before AliPair.pos lo hi (fill (boxOf lo hi)))
    (keep : AliPair → Bool) (hkeep : ∀ gap, ∀ p ∈ fill gap, keep p = false) :
    (aliSortPairs (pairs ++ (aliGaps pairs answer.length key.length).flatMap fill)).filter keep =
      pairs.filter keep := by
  rw [fill_eq answer key h fill hfill]
  exact filter_weave (fun lo hi => hkeep (boxOf lo hi)) (0, 0) pairs

theorem strongPass_pass : ∀ p ∈ strongPass toLower answer key, p.pass = .strong :=
  fun _ hp => (mem_aliMatchRange hp).2.1

theorem amountPass_chain :
    ChainIn Before AliPair.pos (0, 0) (corner answer key)
      (amountPass toLower answer key (strongPass toLower answer key)) :=
  fill_chain answer key (strongPass_chain toLower answer key) _ fun lo hi =>
    aliMatchRange_chain answer key lo hi .amount (aliAmountAnchor toLower)

theorem positionalPass_chain {pairs : List AliPair}
    (h : ChainIn Before AliPair.pos (0, 0) (corner answer key) pairs) :
    ChainIn Before AliPair.pos (0, 0) (corner answer key) (positionalPass answer key pairs) :=
  fill_chain answer key h _ positionalFill_chain

theorem amountPass_pass :
    ∀ p ∈ amountPass toLower answer key (strongPass toLower answer key), p.pass ≠ .positional := by
  intro p hp hpass
  rcases (mem_fill answer key).mp hp with hp | ⟨gap, _, hp⟩
  · rw [strongPass_pass toLower answer key p hp] at hpass
    cases hpass
  · rw [(mem_aliMatchRange hp).2.1] at hpass
    cases hpass

/-! ### The alignment -/

def AliAlignment.ofPass (a : AliAlignment) (keep : AliPass → Bool) : List AliPair :=
  a.pairs.filter fun p => keep p.pass

def isStrong (pass : AliPass) : Bool := pass = .strong

def isAnchored (pass : AliPass) : Bool := pass ≠ .positional

theorem aliAlign_pairs :
    (aliAlign toLower answer key).pairs =
      (positionalPass answer key
        (amountPass toLower answer key (strongPass toLower answer key))).map
          (withOutcome toLower answer key) := rfl

theorem aliGaps_withOutcome (pairs : List AliPair) (nAnswer nKey : ℕ) :
    aliGaps (pairs.map (withOutcome toLower answer key)) nAnswer nKey =
      aliGaps pairs nAnswer nKey := by
  have hfrom : ∀ (prevA prevK : ℕ),
      aliGapsFrom nAnswer nKey prevA prevK (pairs.map (withOutcome toLower answer key)) =
        aliGapsFrom nAnswer nKey prevA prevK pairs := by
    induction pairs with
    | nil => exact fun _ _ => rfl
    | cons p pairs ih => exact fun _ _ => congrArg (List.cons _) (ih p.answer p.key)
  exact hfrom 0 0

theorem aliAlign_chain :
    ChainIn Before AliPair.pos (0, 0) (corner answer key) (aliAlign toLower answer key).pairs := by
  have h := positionalPass_chain answer key (amountPass_chain toLower answer key)
  rw [aliAlign_pairs]
  refine ⟨List.pairwise_map.mpr h.increasing, ?_, ?_⟩
  · intro p hp
    obtain ⟨q, hq, rfl⟩ := List.mem_map.mp hp
    exact h.after q hq
  · intro p hp
    obtain ⟨q, hq, rfl⟩ := List.mem_map.mp hp
    exact h.before q hq

theorem aliAlign_anchored :
    (aliAlign toLower answer key).ofPass isAnchored =
      (amountPass toLower answer key (strongPass toLower answer key)).map
        (withOutcome toLower answer key) := by
  have hfilled := filter_fill answer key (amountPass_chain toLower answer key) positionalFill
    positionalFill_chain (fun p => isAnchored p.pass) fun gap p hp => by
      rw [(mem_positionalFill hp).2.1]
      rfl
  have hall : (amountPass toLower answer key (strongPass toLower answer key)).filter
      (fun p => isAnchored p.pass) = amountPass toLower answer key (strongPass toLower answer key) :=
    List.filter_eq_self.mpr fun p hp =>
      decide_eq_true (amountPass_pass toLower answer key p hp)
  rw [AliAlignment.ofPass, aliAlign_pairs, List.filter_map]
  exact congrArg (List.map _) (hfilled.trans hall)

theorem aliAlign_strong :
    (aliAlign toLower answer key).ofPass isStrong =
      (strongPass toLower answer key).map (withOutcome toLower answer key) := by
  have hpositional := filter_fill answer key (amountPass_chain toLower answer key) positionalFill
    positionalFill_chain (fun p => isStrong p.pass) fun gap p hp => by
      rw [(mem_positionalFill hp).2.1]
      rfl
  have hamount := filter_fill answer key (strongPass_chain toLower answer key)
    (fun gap => aliMatchRange answer key gap .amount (aliAmountAnchor toLower))
    (fun lo hi => aliMatchRange_chain answer key lo hi .amount (aliAmountAnchor toLower))
    (fun p => isStrong p.pass) fun gap p hp => by
      have hpass : p.pass = .amount := (mem_aliMatchRange hp).2.1
      rw [hpass]
      rfl
  have hall : (strongPass toLower answer key).filter (fun p => isStrong p.pass) =
      strongPass toLower answer key :=
    List.filter_eq_self.mpr fun p hp => decide_eq_true (strongPass_pass toLower answer key p hp)
  rw [AliAlignment.ofPass, aliAlign_pairs, List.filter_map]
  exact congrArg (List.map _) (hpositional.trans (hamount.trans hall))

def rowsOf (pairs : List AliPair) : List (ℕ × ℕ) := pairs.map fun p => (p.answer - 1, p.key - 1)

def InGap (gaps : List (List ℕ × List ℕ)) (p : AliPair) : Prop :=
  ∃ gap ∈ gaps, p.answer ∈ gap.1 ∧ p.key ∈ gap.2

structure AlignsRows (a : AliAlignment) : Prop where
  increasing : a.pairs.Pairwise fun p q => p.answer < q.answer ∧ p.key < q.key
  inRange : ∀ p ∈ a.pairs,
    (1 ≤ p.answer ∧ p.answer ≤ answer.length) ∧ 1 ≤ p.key ∧ p.key ≤ key.length
  once : (a.pairs.map AliPair.answer).Nodup ∧ (a.pairs.map AliPair.key).Nodup
  invented : a.invented.Pairwise (· < ·) ∧ ∀ i, i ∈ a.invented ↔
    (1 ≤ i ∧ i ≤ answer.length) ∧ ∀ p ∈ a.pairs, p.answer ≠ i
  dropped : a.dropped.Pairwise (· < ·) ∧ ∀ i, i ∈ a.dropped ↔
    (1 ≤ i ∧ i ≤ key.length) ∧ ∀ p ∈ a.pairs, p.key ≠ i
  strong : IsMatching (aliStrongAnchor toLower) answer key (rowsOf (a.ofPass isStrong))
  strong_maximum : ∀ m, IsMatching (aliStrongAnchor toLower) answer key m →
    m.length ≤ (a.ofPass isStrong).length
  amount_fills : ∀ p ∈ a.pairs, p.pass = .amount →
    InGap (aliGaps (a.ofPass isStrong) answer.length key.length) p ∧
      atRows (aliAmountAnchor toLower) answer key p.answer p.key = true
  positional_fills : ∀ p ∈ a.pairs, p.pass = .positional →
    InGap (aliGaps (a.ofPass isAnchored) answer.length key.length) p

theorem aliLeftover_spec (pairs : List AliPair) (n : ℕ) (pos : AliPair → ℕ) :
    (aliLeftover pairs n pos).Pairwise (· < ·) ∧ ∀ i, i ∈ aliLeftover pairs n pos ↔
      (1 ≤ i ∧ i ≤ n) ∧ ∀ p ∈ pairs, pos p ≠ i := by
  refine ⟨(aliSeq_increasing 1 n).filter _, fun i => ?_⟩
  rw [aliLeftover, List.mem_filter, mem_aliSeq, Bool.not_eq_true', List.any_eq_false]
  simp only [decide_eq_true_eq]

theorem atRows_eq_true {compatible : DocLine → DocLine → Bool} {a k : ℕ} :
    atRows compatible answer key a k = true ↔
      ∃ x y, answer[a - 1]? = some x ∧ key[k - 1]? = some y ∧ compatible x y = true := by
  unfold atRows
  constructor
  · intro h
    split at h
    · exact ⟨_, _, ‹_›, ‹_›, h⟩
    · cases h
  · rintro ⟨x, y, hx, hy, h⟩
    rw [hx, hy]
    exact h

theorem strong_isMatching {toLower : Char → Char} {answer key : List DocLine}
    {pairs : List AliPair} (hchain : ChainIn Before AliPair.pos (0, 0) (corner answer key) pairs)
    (hanchor : ∀ p ∈ pairs, atRows (aliStrongAnchor toLower) answer key p.answer p.key = true) :
    IsMatching (aliStrongAnchor toLower) answer key (rowsOf pairs) := by
  refine ⟨?_, ?_⟩
  · rw [rowsOf, List.pairwise_map]
    refine hchain.increasing.imp_of_mem fun {p q} hp _ hpq => ?_
    have hpos := hchain.after p hp
    simp only [AliPair.pos, Before] at hpos hpq ⊢
    omega
  · intro r hr
    obtain ⟨p, hp, rfl⟩ := List.mem_map.mp hr
    exact (atRows_eq_true answer key).mp (hanchor p hp)

theorem IsMatching.positions {compatible : DocLine → DocLine → Bool} {answer key : List DocLine}
    {m : List (ℕ × ℕ)} (h : IsMatching compatible answer key m) :
    IsMatching (atRows compatible answer key) (aliSeq 1 answer.length) (aliSeq 1 key.length) m := by
  have hseq : ∀ {n i : ℕ}, i < n → (aliSeq 1 n)[i]? = some (i + 1) := by
    intro n i hi
    rw [List.getElem?_eq_getElem (by rw [aliSeq, List.length_range']; omega)]
    simp only [aliSeq, List.getElem_range', Option.some.injEq]
    omega
  refine ⟨h.increasing, fun p hp => ?_⟩
  obtain ⟨x, y, hx, hy, hxy⟩ := h.compatible p hp
  refine ⟨p.1 + 1, p.2 + 1, hseq (List.getElem?_eq_some_iff.mp hx).1,
    hseq (List.getElem?_eq_some_iff.mp hy).1, ?_⟩
  exact (atRows_eq_true answer key).mpr ⟨x, y, hx, hy, hxy⟩

theorem positional_of_pass {p : AliPair}
    (h : p ∈ positionalPass answer key
      (amountPass toLower answer key (strongPass toLower answer key)))
    (hpass : p.pass = .positional) :
    ∃ gap ∈ aliGaps (amountPass toLower answer key (strongPass toLower answer key))
      answer.length key.length, p ∈ positionalFill gap := by
  rcases (mem_fill answer key).mp h with h | h
  · exact absurd hpass (amountPass_pass toLower answer key p h)
  · exact h

theorem amount_of_pass {p : AliPair}
    (h : p ∈ positionalPass answer key
      (amountPass toLower answer key (strongPass toLower answer key)))
    (hpass : p.pass = .amount) :
    ∃ gap ∈ aliGaps (strongPass toLower answer key) answer.length key.length,
      p ∈ aliMatchRange answer key gap .amount (aliAmountAnchor toLower) := by
  rcases (mem_fill answer key).mp h with h | ⟨_, _, h⟩
  · rcases (mem_fill answer key).mp h with h | h
    · rw [strongPass_pass toLower answer key p h] at hpass
      cases hpass
    · exact h
  · rw [(mem_positionalFill h).2.1] at hpass
    cases hpass

theorem aliAlign_alignsRows : AlignsRows toLower answer key (aliAlign toLower answer key) := by
  have hchain := aliAlign_chain toLower answer key
  have hstrong := aliAlign_strong toLower answer key
  have hanchored := aliAlign_anchored toLower answer key
  exact {
    increasing := hchain.increasing
    inRange := by
      intro p hp
      have hafter := hchain.after p hp
      have hbefore := hchain.before p hp
      simp only [AliPair.pos, Before, corner] at hafter hbefore
      omega
    once := ⟨List.pairwise_map.mpr (hchain.increasing.imp fun h => h.1.ne),
      List.pairwise_map.mpr (hchain.increasing.imp fun h => h.2.ne)⟩
    invented := aliLeftover_spec (aliAlign toLower answer key).pairs answer.length AliPair.answer
    dropped := aliLeftover_spec (aliAlign toLower answer key).pairs key.length AliPair.key
    strong := by
      rw [hstrong, rowsOf, List.map_map]
      exact strong_isMatching (strongPass_chain toLower answer key)
        fun p hp => (mem_aliMatchRange hp).2.2.2
    strong_maximum := by
      intro m hm
      rw [hstrong, List.length_map, strongPass, aliMatchRange_eq, List.length_map]
      exact (aliMonotoneMatch_maximum _ _ _).2 m (IsMatching.positions hm)
    amount_fills := by
      intro p hp hpass
      obtain ⟨q, hq, rfl⟩ := List.mem_map.mp hp
      obtain ⟨gap, hgap, hq⟩ := amount_of_pass toLower answer key hq hpass
      obtain ⟨hin, _, _, hanchor⟩ := mem_aliMatchRange hq
      rw [hstrong, aliGaps_withOutcome]
      exact ⟨⟨gap, hgap, hin⟩, hanchor⟩
    positional_fills := by
      intro p hp hpass
      obtain ⟨q, hq, rfl⟩ := List.mem_map.mp hp
      obtain ⟨gap, hgap, hq⟩ := positional_of_pass toLower answer key hq hpass
      rw [hanchored, aliGaps_withOutcome]
      exact ⟨gap, hgap, (mem_positionalFill hq).1⟩ }

end

end InvoiceOs.Extraction
