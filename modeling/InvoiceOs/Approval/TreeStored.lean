import InvoiceOs.Approval.StepRows
import InvoiceOs.Lib.Each

/-! A tree is what its rows nest to: from the rows of a version, in whatever order of the lanes
they are read, the same tree comes back. -/

namespace InvoiceOs.Approval

open Lib

variable {Amount Person : Type}

/-! ### Lanes -/

mutual

theorem step_lanes {P : List (StepOf Amount Person) → Prop} (hnil : P [])
    (hcons : ∀ s lane, P s.thenLane → P s.elseLane → P lane → P (s :: lane)) :
    ∀ s : StepOf Amount Person, P s.thenLane ∧ P s.elseLane
  | ⟨_, _, _, _, _, _, _, _, _, thenLane, elseLane⟩ =>
    ⟨lane_induction hnil hcons thenLane, lane_induction hnil hcons elseLane⟩

theorem lane_induction {P : List (StepOf Amount Person) → Prop} (hnil : P [])
    (hcons : ∀ s lane, P s.thenLane → P s.elseLane → P lane → P (s :: lane)) :
    ∀ lane : List (StepOf Amount Person), P lane
  | [] => hnil
  | s :: lane =>
    hcons s lane (step_lanes hnil hcons s).1 (step_lanes hnil hcons s).2
      (lane_induction hnil hcons lane)

end

/-! ### The fields of a tree -/

mutual

def stepFields : StepOf Amount Person → List (StepFields Amount Person)
  | ⟨kind, roleKey, sla, op, amount, target, channel, allow, delegate, thenLane, elseLane⟩ =>
    ⟨kind, roleKey, sla, op, amount, target, channel, allow, delegate⟩ ::
      (laneFields thenLane ++ laneFields elseLane)

def laneFields : List (StepOf Amount Person) → List (StepFields Amount Person)
  | [] => []
  | s :: lane => stepFields s ++ laneFields lane

end

theorem laneFields_cons (s : StepOf Amount Person) (lane : List (StepOf Amount Person)) :
    laneFields (s :: lane) =
      s.fields :: (laneFields s.thenLane ++ laneFields s.elseLane) ++ laneFields lane := by
  cases s
  rfl

section
variable (mint : ℕ → Uuid)

def stepRow (n : ℕ) (parent : Option Uuid) (branch : Option Branch) (i : ℕ) (s : StepOf Amount Person) :
    StepRow Amount Person where
  id := mint n
  parentStepID := parent
  branch := branch
  ord := i
  fields := s.fields

def thenRows (n : ℕ) (s : StepOf Amount Person) : List (StepRow Amount Person) × ℕ :=
  flattenLane mint (n + 1) (some (mint n)) (some .thenLane) 0 s.thenLane

def elseRows (n : ℕ) (s : StepOf Amount Person) : List (StepRow Amount Person) × ℕ :=
  flattenLane mint (thenRows mint n s).2 (some (mint n)) (some .elseLane) 0 s.elseLane

theorem flattenLane_cons (n : ℕ) (parent : Option Uuid) (branch : Option Branch) (i : ℕ)
    (s : StepOf Amount Person)
    (lane : List (StepOf Amount Person)) :
    flattenLane mint n parent branch i (s :: lane) =
      (stepRow mint n parent branch i s :: ((thenRows mint n s).1 ++ (elseRows mint n s).1) ++
        (flattenLane mint (elseRows mint n s).2 parent branch (i + 1) lane).1,
      (flattenLane mint (elseRows mint n s).2 parent branch (i + 1) lane).2) := by
  cases s
  rfl

def laneTops (n : ℕ) (parent : Option Uuid) (branch : Option Branch) (i : ℕ) :
    List (StepOf Amount Person) → List (StepRow Amount Person)
  | [] => []
  | s :: lane =>
    stepRow mint n parent branch i s ::
      laneTops (elseRows mint n s).2 parent branch (i + 1) lane

/-- What a row of a lane can be, the lane's ids running from `n` up to `m`: one of its steps,
from position `i` on, or a row below one of them. -/
structure Within (n m : ℕ) (parent : Option Uuid) (branch : Option Branch) (i : ℕ)
    (r : StepRow Amount Person) :
    Prop where
  id : ∃ k, n ≤ k ∧ k < m ∧ r.id = mint k
  place : r.parentStepID = parent ∧ r.branch = branch ∧ i ≤ r.ord ∨
    ∃ k b, n ≤ k ∧ k < m ∧ r.parentStepID = some (mint k) ∧ r.branch = some b

variable {mint}

theorem Within.mono {n m n' m' i i' : ℕ} {parent : Option Uuid} {branch : Option Branch}
    {r : StepRow Amount Person} (h : Within mint n m parent branch i r) (hn : n' ≤ n) (hm : m ≤ m')
    (hi : i' ≤ i) : Within mint n' m' parent branch i' r := by
  obtain ⟨⟨k, hk, hk', hid⟩, hplace⟩ := h
  refine ⟨⟨k, hn.trans hk, hk'.trans_le hm, hid⟩, hplace.imp ?_ ?_⟩
  · rintro ⟨hpar, hb, hord⟩
    exact ⟨hpar, hb, hi.trans hord⟩
  · rintro ⟨j, b, hj, hj', hpar, hb⟩
    exact ⟨j, b, hn.trans hj, hj'.trans_le hm, hpar, hb⟩

theorem Within.below {n m k i : ℕ} {b : Branch} {r : StepRow Amount Person}
    (h : Within mint n m (some (mint k)) (some b) i r) (hn : k < n) (hm : n ≤ m) :
    ∃ j b', k ≤ j ∧ j < m ∧ r.parentStepID = some (mint j) ∧ r.branch = some b' := by
  rcases h.place with ⟨hpar, hb, -⟩ | ⟨l, b', hl, hl', hpar, hb⟩
  · exact ⟨k, b, le_rfl, hn.trans_le hm, hpar, hb⟩
  · exact ⟨l, b', hn.le.trans hl, hl', hpar, hb⟩

theorem Within.inside {n m k lo hi i i' : ℕ} {parent : Option Uuid} {branch : Option Branch}
    {b : Branch} {r : StepRow Amount Person} (h : Within mint n m (some (mint k)) (some b) i r)
    (hn : k < n)
    (hm : n ≤ m) (hlo : lo ≤ k) (hhi : m ≤ hi) : Within mint lo hi parent branch i' r := by
  obtain ⟨j, b', hj, hj', hpar, hb⟩ := h.below hn hm
  obtain ⟨l, hl, hl', hid⟩ := h.id
  exact ⟨⟨l, by omega, by omega, hid⟩, .inr ⟨j, b', by omega, by omega, hpar, hb⟩⟩

variable (mint) in
theorem flattenLane_within (lane : List (StepOf Amount Person)) (n : ℕ) (parent : Option Uuid)
    (branch : Option Branch) (i : ℕ) :
    n ≤ (flattenLane mint n parent branch i lane).2 ∧
      ∀ r ∈ (flattenLane mint n parent branch i lane).1,
        Within mint n (flattenLane mint n parent branch i lane).2 parent branch i r := by
  induction lane using lane_induction generalizing n parent branch i with
  | hnil => exact ⟨le_rfl, fun r hr => absurd hr List.not_mem_nil⟩
  | hcons s lane hthen helse hlane =>
    obtain ⟨ht, hthenRows⟩ := hthen (n + 1) (some (mint n)) (some .thenLane) 0
    obtain ⟨he, helseRows⟩ := helse (thenRows mint n s).2 (some (mint n)) (some .elseLane) 0
    obtain ⟨hl, hrest⟩ := hlane (elseRows mint n s).2 parent branch (i + 1)
    change n + 1 ≤ (thenRows mint n s).2 at ht
    change (thenRows mint n s).2 ≤ (elseRows mint n s).2 at he
    rw [flattenLane_cons]
    refine ⟨by omega, ?_⟩
    intro r hr
    rcases List.mem_append.mp hr with hr | hr
    · obtain rfl | hr := List.mem_cons.mp hr
      · exact ⟨⟨n, le_rfl, by omega, rfl⟩, .inl ⟨rfl, rfl, le_rfl⟩⟩
      · rcases List.mem_append.mp hr with hr | hr
        · exact (hthenRows r hr).inside (Nat.lt_succ_self n) ht le_rfl (he.trans hl)
        · exact (helseRows r hr).inside (by omega) he le_rfl hl
    · exact (hrest r hr).mono (by omega) le_rfl (Nat.le_succ i)

variable (mint) in
theorem thenRows_within (n : ℕ) (s : StepOf Amount Person) : n + 1 ≤ (thenRows mint n s).2 ∧
    ∀ r ∈ (thenRows mint n s).1,
      Within mint (n + 1) (thenRows mint n s).2 (some (mint n)) (some .thenLane) 0 r :=
  flattenLane_within mint s.thenLane _ _ _ _

variable (mint) in
theorem elseRows_within (n : ℕ) (s : StepOf Amount Person) :
    (thenRows mint n s).2 ≤ (elseRows mint n s).2 ∧
    ∀ r ∈ (elseRows mint n s).1,
      Within mint (thenRows mint n s).2 (elseRows mint n s).2 (some (mint n)) (some .elseLane) 0 r :=
  flattenLane_within mint s.elseLane _ _ _ _

theorem map_id_flattenLane (lane : List (StepOf Amount Person)) (n : ℕ) (parent : Option Uuid)
    (branch : Option Branch) (i : ℕ) :
    (flattenLane mint n parent branch i lane).1.map StepRow.id =
      (List.range' n ((flattenLane mint n parent branch i lane).2 - n)).map mint := by
  induction lane using lane_induction generalizing n parent branch i with
  | hnil =>
    rw [flattenLane, Nat.sub_self]
    rfl
  | hcons s lane hthen helse hlane =>
    have ht := (thenRows_within mint n s).1
    have he := (elseRows_within mint n s).1
    have hl := (flattenLane_within mint lane (elseRows mint n s).2 parent branch (i + 1)).1
    have hthenIds : (thenRows mint n s).1.map StepRow.id =
        (List.range' (n + 1) ((thenRows mint n s).2 - (n + 1))).map mint := hthen _ _ _ _
    have helseIds : (elseRows mint n s).1.map StepRow.id =
        (List.range' (thenRows mint n s).2
          ((elseRows mint n s).2 - (thenRows mint n s).2)).map mint := helse _ _ _ _
    have hcount : ∀ {t e m : ℕ}, n + 1 ≤ t → t ≤ e → e ≤ m →
        n :: (List.range' (n + 1) (t - (n + 1)) ++ List.range' t (e - t)) ++
          List.range' e (m - e) = List.range' n (m - n) := by
      intro t e m ht he hm
      obtain ⟨a, rfl⟩ := Nat.exists_eq_add_of_le ht
      obtain ⟨b, rfl⟩ := Nat.exists_eq_add_of_le he
      obtain ⟨c, rfl⟩ := Nat.exists_eq_add_of_le hm
      have hall : n + 1 + a + b + c - n = (a + b + c) + 1 := by omega
      rw [hall, List.range'_succ, Nat.add_sub_cancel_left, Nat.add_sub_cancel_left,
        Nat.add_sub_cancel_left, List.range'_append_1, List.cons_append, Nat.add_assoc (n + 1) a b,
        List.range'_append_1]
    rw [flattenLane_cons, ← hcount ht he hl, List.map_append, List.map_cons, List.map_append,
      hthenIds, helseIds, hlane]
    simp only [List.map_append, List.map_cons, stepRow]

end

/-! ### Distinct ids -/

theorem laneRows_cons {mint : ℕ → Uuid} (s : StepOf Amount Person)
    (lane : List (StepOf Amount Person)) {n i k : ℕ} {parent : Option Uuid}
    {branch : Option Branch} (b : Branch) (hpar : parent ≠ some (mint k)) :
    laneRows (flattenLane mint n parent branch i (s :: lane)).1 (mint k) b =
      laneRows (thenRows mint n s).1 (mint k) b ++ laneRows (elseRows mint n s).1 (mint k) b ++
        laneRows (flattenLane mint (elseRows mint n s).2 parent branch (i + 1) lane).1
          (mint k) b := by
  rw [flattenLane_cons]
  unfold laneRows
  rw [List.filter_append, List.filter_cons_of_neg, List.filter_append]
  intro h
  exact hpar (of_decide_eq_true h).1

section
variable {mint : ℕ → Uuid} {N : ℕ} (hinj : ∀ j < N, ∀ k < N, mint j = mint k → j = k)
include hinj

theorem laneRows_outside {n m i k : ℕ} {parent : Option Uuid} {branch : Option Branch}
    {b : Branch} {rows : List (StepRow Amount Person)}
    (hrows : ∀ r ∈ rows, Within mint n m parent branch i r)
    (hm : m ≤ N) (hk : k < N) (hout : k < n ∨ m ≤ k)
    (hne : ¬ (parent = some (mint k) ∧ branch = some b)) : laneRows rows (mint k) b = [] := by
  refine List.filter_eq_nil_iff.mpr fun r hr hlane => ?_
  obtain ⟨hpar, hb⟩ := of_decide_eq_true hlane
  rcases (hrows r hr).place with ⟨hp, hbr, -⟩ | ⟨j, b', hj, hj', hp, -⟩
  · exact hne ⟨hp.symm.trans hpar, hbr.symm.trans hb⟩
  · have hjk := hinj j (hj'.trans_le hm) k hk (Option.some.inj (hp.symm.trans hpar))
    omega

theorem laneRows_own (lane : List (StepOf Amount Person)) {n i k : ℕ} {b : Branch} (hk : k < n)
    (hm : (flattenLane mint n (some (mint k)) (some b) i lane).2 ≤ N) :
    laneRows (flattenLane mint n (some (mint k)) (some b) i lane).1 (mint k) b =
      laneTops mint n (some (mint k)) (some b) i lane := by
  induction lane generalizing n i with
  | nil => rfl
  | cons s lane ih =>
    rw [flattenLane_cons] at hm ⊢
    obtain ⟨ht, hthen⟩ := thenRows_within mint n s
    obtain ⟨he, helse⟩ := elseRows_within mint n s
    have hl := (flattenLane_within mint lane (elseRows mint n s).2 (some (mint k))
      (some b) (i + 1)).1
    have hnk : mint n ≠ mint k := fun heq => by
      have hsame := hinj n (by omega) k (by omega) heq
      omega
    have hnone : ∀ b' : Branch, ¬ (some (mint n) = some (mint k) ∧ some b' = some b) :=
      fun b' h => hnk (Option.some.inj h.1)
    have hthenNone := laneRows_outside hinj hthen (k := k) (b := b) (by omega) (by omega)
      (.inl (by omega)) (hnone _)
    have helseNone := laneRows_outside hinj helse (k := k) (b := b) (by omega) (by omega)
      (.inl (by omega)) (hnone _)
    have hrest := ih (n := (elseRows mint n s).2) (i := i + 1) (by omega) hm
    unfold laneRows at hthenNone helseNone hrest ⊢
    rw [List.filter_append, List.filter_cons_of_pos, List.filter_append, hthenNone, helseNone,
      hrest]
    · rfl
    · exact decide_eq_true ⟨rfl, rfl⟩

theorem nodup_places (lane : List (StepOf Amount Person)) (n : ℕ) (parent : Option Uuid)
    (branch : Option Branch)
    (i : ℕ)
    (hm : (flattenLane mint n parent branch i lane).2 ≤ N)
    (hout : ∀ k, n ≤ k → k < (flattenLane mint n parent branch i lane).2 →
      parent ≠ some (mint k)) :
    ((flattenLane mint n parent branch i lane).1.map fun r =>
      (r.parentStepID, r.branch, r.ord)).Nodup := by
  induction lane using lane_induction generalizing n parent branch i with
  | hnil => exact List.nodup_nil
  | hcons s lane hthen helse hlane =>
    obtain ⟨ht, hthenIn⟩ := thenRows_within mint n s
    obtain ⟨he, helseIn⟩ := elseRows_within mint n s
    obtain ⟨hl, hrestIn⟩ :=
      flattenLane_within mint lane (elseRows mint n s).2 parent branch (i + 1)
    rw [flattenLane_cons] at hm hout ⊢
    have hdiff : ∀ {j k : ℕ}, j < k → k < N → some (mint j) ≠ some (mint k) := by
      intro j k hjk hk heq
      have hsame := hinj j (hjk.trans hk) k hk (Option.some.inj heq)
      omega
    have hthenNodup := hthen (n + 1) (some (mint n)) (some .thenLane) 0
      (he.trans hl |>.trans hm) (fun k hk hk' => by
        change k < (thenRows mint n s).2 at hk'
        exact hdiff (by omega) (by omega))
    have helseNodup := helse (thenRows mint n s).2 (some (mint n))
      (some .elseLane) 0 (hl.trans hm) (fun k hk hk' => by
        change k < (elseRows mint n s).2 at hk'
        exact hdiff (by omega) (by omega))
    have hrestNodup := hlane _ _ _ (i + 1) hm fun k hk hk' => hout k (by omega) hk'
    -- the parents of the rows below the step are among its ids
    have hbelow : ∀ r ∈ (thenRows mint n s).1 ++ (elseRows mint n s).1,
        ∃ k, n ≤ k ∧ k < (elseRows mint n s).2 ∧ r.parentStepID = some (mint k) := by
      intro r hr
      rcases List.mem_append.mp hr with hr | hr
      · obtain ⟨k, b, hk, hk', hp, -⟩ := (hthenIn r hr).below (Nat.lt_succ_self n) ht
        exact ⟨k, hk, by omega, hp⟩
      · obtain ⟨k, b, hk, hk', hp, -⟩ := (helseIn r hr).below (by omega) he
        exact ⟨k, hk, hk', hp⟩
    rw [List.map_append, List.map_cons, List.map_append]
    have hlanes : ((thenRows mint n s).1.map (fun r => (r.parentStepID, r.branch, r.ord)) ++
        (elseRows mint n s).1.map fun r => (r.parentStepID, r.branch, r.ord)).Nodup := by
      refine hthenNodup.append helseNodup ?_
      intro x hx hx'
      obtain ⟨r, hr, rfl⟩ := List.mem_map.mp hx
      obtain ⟨r', hr', heq⟩ := List.mem_map.mp hx'
      simp only [Prod.mk.injEq] at heq
      obtain ⟨hp, hb, -⟩ := heq
      rcases (hthenIn r hr).place with ⟨hq, hc, -⟩ | ⟨j, b, hj, hj', hq, -⟩ <;>
        rcases (helseIn r' hr').place with ⟨hq', hc', -⟩ | ⟨j', b', hk, hk', hq', -⟩
      · rw [hc, hc'] at hb
        cases hb
      · rw [hq, hq'] at hp
        exact hdiff (by omega) (by omega) hp.symm
      · rw [hq, hq'] at hp
        exact hdiff (by omega) (by omega) hp
      · rw [hq, hq'] at hp
        exact hdiff (by omega) (by omega) hp.symm
    refine (List.nodup_cons.mpr ⟨?_, hlanes⟩).append hrestNodup ?_
    · rw [← List.map_append]
      intro hmem
      obtain ⟨r, hr, heq⟩ := List.mem_map.mp hmem
      obtain ⟨k, hk, hk', hp⟩ := hbelow r hr
      exact hout k hk (by omega) ((Prod.mk.inj heq).1.symm.trans hp)
    · rw [← List.map_append]
      intro x hx hx'
      obtain ⟨r', hr', rfl⟩ := List.mem_map.mp hx'
      obtain heq | hx := List.mem_cons.mp hx
      · simp only [Prod.mk.injEq, stepRow] at heq
        obtain ⟨hp, -, hord⟩ := heq
        rcases (hrestIn r' hr').place with ⟨-, -, hi⟩ | ⟨k, b, hk, hk', hq, -⟩
        · omega
        · exact hout k (by omega) hk' (hp.symm.trans hq)
      · obtain ⟨r, hr, heq⟩ := List.mem_map.mp hx
        obtain ⟨k, hk, hk', hp⟩ := hbelow r hr
        have hpar : r.parentStepID = r'.parentStepID := (Prod.mk.inj heq).1
        rcases (hrestIn r' hr').place with ⟨hq, -, -⟩ | ⟨j, b, hj, hj', hq, -⟩
        · exact hout k hk (by omega) (hq.symm.trans (hpar.symm.trans hp))
        · exact hdiff (by omega) (by omega) (hp.symm.trans (hpar.trans hq))

end

theorem laneTops_sorted (mint : ℕ → Uuid) (lane : List (StepOf Amount Person)) (n i : ℕ)
    (parent : Option Uuid)
    (branch : Option Branch) :
    (∀ r ∈ laneTops mint n parent branch i lane, i ≤ r.ord) ∧
      (laneTops mint n parent branch i lane).Pairwise fun a b => a.ord < b.ord := by
  induction lane generalizing n i with
  | nil => exact ⟨fun r hr => absurd hr List.not_mem_nil, .nil⟩
  | cons s lane ih =>
    obtain ⟨hfrom, hsorted⟩ := ih (elseRows mint n s).2 (i + 1)
    refine ⟨List.forall_mem_cons.mpr ⟨le_rfl, fun r hr => ?_⟩, List.pairwise_cons.mpr ⟨?_, hsorted⟩⟩
    · exact (Nat.le_succ i).trans (hfrom r hr)
    · exact fun r hr => hfrom r hr

theorem byOrd_laneTops (mint : ℕ → Uuid) (lane : List (StepOf Amount Person)) (n i : ℕ)
    (parent : Option Uuid)
    (branch : Option Branch) :
    byOrd (laneTops mint n parent branch i lane) = laneTops mint n parent branch i lane :=
  ((laneTops_sorted mint lane n i parent branch).2.imp fun h => h.le).insertionSort_eq

def nestNode (rows : List (StepRow Amount Person)) (fuel : ℕ) (r : StepRow Amount Person) :
    Option (ReadStep Amount Person) := do
  let thenLane ← nestLane rows fuel (laneRows rows r.id .thenLane)
  let elseLane ← nestLane rows fuel (laneRows rows r.id .elseLane)
  return { id := r.id, fields := r.fields, thenLane := thenLane, elseLane := elseLane }

theorem nestLane_succ (rows : List (StepRow Amount Person)) (fuel : ℕ)
    (lane : List (StepRow Amount Person)) :
    nestLane rows (fuel + 1) lane = (byOrd lane).mapM (nestNode rows fuel) := rfl

theorem fields_step (s : StepOf Amount Person) : s.fields.step s.thenLane s.elseLane = s := by
  cases s
  rfl

section
variable {mint : ℕ → Uuid} {N : ℕ} (hinj : ∀ j < N, ∀ k < N, mint j = mint k → j = k)
include hinj

theorem nest_lane (rows : List (StepRow Amount Person)) (lane : List (StepOf Amount Person)) (n : ℕ)
    (parent : Option Uuid)
    (branch : Option Branch) (i : ℕ) (hm : (flattenLane mint n parent branch i lane).2 ≤ N)
    (hout : ∀ k, n ≤ k → k < (flattenLane mint n parent branch i lane).2 →
      parent ≠ some (mint k))
    (hrows : ∀ k b, n ≤ k → k < (flattenLane mint n parent branch i lane).2 →
      laneRows rows (mint k) b =
        laneRows (flattenLane mint n parent branch i lane).1 (mint k) b) :
    ∃ depth, ∀ fuel, depth ≤ fuel → ∃ views,
      (laneTops mint n parent branch i lane).mapM (nestNode rows fuel) = some views ∧
        readLane views = lane := by
  induction lane using lane_induction generalizing n parent branch i with
  | hnil => exact ⟨0, fun fuel _ => ⟨[], rfl, rfl⟩⟩
  | hcons s lane hthen helse hlane =>
    obtain ⟨ht, hthenIn⟩ := thenRows_within mint n s
    obtain ⟨he, helseIn⟩ := elseRows_within mint n s
    obtain ⟨hl, hrestIn⟩ :=
      flattenLane_within mint lane (elseRows mint n s).2 parent branch (i + 1)
    have hend : (flattenLane mint n parent branch i (s :: lane)).2 =
        (flattenLane mint (elseRows mint n s).2 parent branch (i + 1) lane).2 := by
      rw [flattenLane_cons]
    rw [hend] at hm hout hrows
    have hdiff : ∀ {j k : ℕ}, j < N → k < N → j ≠ k → some (mint j) ≠ some (mint k) :=
      fun hj hk hjk heq => hjk (hinj _ hj _ hk (Option.some.inj heq))
    have hsplit : ∀ k b, n ≤ k →
        k < (flattenLane mint (elseRows mint n s).2 parent branch (i + 1) lane).2 →
        laneRows rows (mint k) b =
          laneRows (thenRows mint n s).1 (mint k) b ++ laneRows (elseRows mint n s).1 (mint k) b ++
            laneRows (flattenLane mint (elseRows mint n s).2 parent branch (i + 1) lane).1
              (mint k) b := by
      intro k b hk hk'
      rw [hrows k b hk hk', laneRows_cons s lane b (hout k hk hk')]
    -- a lane holds nothing of the ids of another
    have hthenNone : ∀ k b, k < N → (k < n + 1 ∨ (thenRows mint n s).2 ≤ k) →
        ¬ (k = n ∧ b = .thenLane) → laneRows (thenRows mint n s).1 (mint k) b = [] := by
      intro k b hk hrange hne
      refine laneRows_outside hinj hthenIn (by omega) hk hrange ?_
      rintro ⟨hp, hb⟩
      by_cases hkn : k = n
      · exact hne ⟨hkn, (Option.some.inj hb).symm⟩
      · exact hdiff (by omega) hk (Ne.symm hkn) hp
    have helseNone : ∀ k b, k < N → (k < (thenRows mint n s).2 ∨ (elseRows mint n s).2 ≤ k) →
        ¬ (k = n ∧ b = .elseLane) → laneRows (elseRows mint n s).1 (mint k) b = [] := by
      intro k b hk hrange hne
      refine laneRows_outside hinj helseIn (by omega) hk hrange ?_
      rintro ⟨hp, hb⟩
      by_cases hkn : k = n
      · exact hne ⟨hkn, (Option.some.inj hb).symm⟩
      · exact hdiff (by omega) hk (Ne.symm hkn) hp
    have hrestNone : ∀ k b, n ≤ k → k < (elseRows mint n s).2 →
        laneRows (flattenLane mint (elseRows mint n s).2 parent branch (i + 1) lane).1 (mint k) b
          = [] := by
      intro k b hk hk'
      exact laneRows_outside hinj hrestIn hm (by omega) (.inl hk')
        fun h => hout k hk (by omega) h.1
    obtain ⟨d₁, hthenNest⟩ := hthen (n + 1) (some (mint n)) (some .thenLane) 0 (by
        change (thenRows mint n s).2 ≤ N
        omega)
      (fun k hk hk' => by
        change k < (thenRows mint n s).2 at hk'
        exact hdiff (by omega) (by omega) (by omega))
      (fun k b hk hk' => by
        change k < (thenRows mint n s).2 at hk'
        change laneRows rows (mint k) b = laneRows (thenRows mint n s).1 (mint k) b
        rw [hsplit k b (by omega) (by omega), helseNone k b (by omega) (.inl (by omega)) (by omega),
          hrestNone k b (by omega) (by omega), List.append_nil, List.append_nil])
    obtain ⟨d₂, helseNest⟩ := helse (thenRows mint n s).2 (some (mint n))
      (some .elseLane) 0 (by
        change (elseRows mint n s).2 ≤ N
        omega)
      (fun k hk hk' => by
        change k < (elseRows mint n s).2 at hk'
        exact hdiff (by omega) (by omega) (by omega))
      (fun k b hk hk' => by
        change k < (elseRows mint n s).2 at hk'
        change laneRows rows (mint k) b = laneRows (elseRows mint n s).1 (mint k) b
        rw [hsplit k b (by omega) (by omega), hthenNone k b (by omega) (.inr (by omega)) (by omega),
          hrestNone k b (by omega) (by omega), List.append_nil, List.nil_append])
    obtain ⟨d₃, hrestNest⟩ := hlane (elseRows mint n s).2 parent branch (i + 1) hm
      (fun k hk hk' => hout k (by omega) hk')
      (fun k b hk hk' => by
        rw [hsplit k b (by omega) hk', hthenNone k b (by omega) (.inr (by omega)) (by omega),
          helseNone k b (by omega) (.inr (by omega)) (by omega), List.nil_append, List.nil_append])
    refine ⟨max (max d₁ d₂ + 1) d₃, fun fuel hfuel => ?_⟩
    obtain ⟨fuel, rfl⟩ := Nat.exists_eq_add_of_le' (show 1 ≤ fuel by omega)
    obtain ⟨tv, htv, htread⟩ := hthenNest fuel (by omega)
    obtain ⟨ev, hev, heread⟩ := helseNest fuel (by omega)
    obtain ⟨rv, hrv, hrread⟩ := hrestNest (fuel + 1) (by omega)
    have hthenLane : laneRows rows (mint n) .thenLane =
        laneTops mint (n + 1) (some (mint n)) (some .thenLane) 0 s.thenLane := by
      rw [hsplit n .thenLane le_rfl (by omega),
        helseNone n .thenLane (by omega) (.inl (by omega)) (by simp),
        hrestNone n .thenLane le_rfl (by omega), List.append_nil, List.append_nil]
      exact laneRows_own hinj s.thenLane (Nat.lt_succ_self n) (by
        change (thenRows mint n s).2 ≤ N
        omega)
    have helseLane : laneRows rows (mint n) .elseLane =
        laneTops mint (thenRows mint n s).2 (some (mint n)) (some .elseLane) 0 s.elseLane := by
      rw [hsplit n .elseLane le_rfl (by omega),
        hthenNone n .elseLane (by omega) (.inl (by omega)) (by simp),
        hrestNone n .elseLane le_rfl (by omega), List.append_nil, List.nil_append]
      exact laneRows_own hinj s.elseLane (by omega) (by
        change (elseRows mint n s).2 ≤ N
        omega)
    refine ⟨{ id := mint n, fields := s.fields, thenLane := tv, elseLane := ev } :: rv, ?_, ?_⟩
    · have hnode : nestNode rows (fuel + 1) (stepRow mint n parent branch i s) =
          some { id := mint n, fields := s.fields, thenLane := tv, elseLane := ev } := by
        have hid : (stepRow mint n parent branch i s).id = mint n := rfl
        rw [nestNode, hid, hthenLane, helseLane, nestLane_succ, nestLane_succ, byOrd_laneTops,
          byOrd_laneTops, htv, hev]
        rfl
      rw [laneTops, List.mapM_cons, hnode, hrv]
      rfl
    · rw [readLane, ReadStep.step, htread, heread, hrread, fields_step]

end
/-! ### Any order of the rows -/

def place (r : StepRow Amount Person) : Option Uuid × Option Branch × ℕ :=
  (r.parentStepID, r.branch, r.ord)

theorem byOrd_perm {l l' : List (StepRow Amount Person)} (h : l.Perm l')
    (hdistinct : (l.map StepRow.ord).Nodup) :
    byOrd l = byOrd l' := by
  have htotal : Std.Total fun a b : StepRow Amount Person => a.ord ≤ b.ord :=
    ⟨fun a b => le_total a.ord b.ord⟩
  have htrans : IsTrans (StepRow Amount Person) fun a b => a.ord ≤ b.ord := ⟨fun _ _ _ => le_trans⟩
  refine List.Perm.eq_of_pairwise ?_ (List.pairwise_insertionSort _ l)
    (List.pairwise_insertionSort _ l') ?_
  · intro a b ha hb hab hba
    have ha' : a ∈ l := (List.mem_insertionSort _).mp ha
    have hb' : b ∈ l := h.mem_iff.mpr ((List.mem_insertionSort _).mp hb)
    exact List.inj_on_of_nodup_map hdistinct ha' hb' (le_antisymm hab hba)
  · exact (List.perm_insertionSort _ l).trans (h.trans (List.perm_insertionSort _ l').symm)

theorem nodup_ord_laneRows {rows : List (StepRow Amount Person)} (h : (rows.map place).Nodup) (p : Uuid)
    (b : Branch) : ((laneRows rows p b).map StepRow.ord).Nodup := by
  have hsub : ((laneRows rows p b).map place).Nodup := h.sublist (List.filter_sublist.map _)
  have hlane : (laneRows rows p b).map place =
      ((laneRows rows p b).map StepRow.ord).map fun i => (some p, some b, i) := by
    rw [List.map_map]
    refine List.map_congr_left fun r hr => ?_
    obtain ⟨hp, hb⟩ := of_decide_eq_true (List.mem_filter.mp hr).2
    simp only [place, hp, hb, Function.comp_apply]
  rw [hlane] at hsub
  exact List.Nodup.of_map _ hsub

theorem nestLane_perm {rows rows' : List (StepRow Amount Person)} (h : rows.Perm rows')
    (hplaces : (rows.map place).Nodup) (fuel : ℕ) {l l' : List (StepRow Amount Person)} (hl : l.Perm l')
    (hords : (l.map StepRow.ord).Nodup) : nestLane rows fuel l = nestLane rows' fuel l' := by
  induction fuel generalizing l l' with
  | zero => rfl
  | succ fuel ih =>
    have hnode : nestNode rows fuel = nestNode rows' fuel := by
      funext r
      have hlane : ∀ b, nestLane rows fuel (laneRows rows r.id b) =
          nestLane rows' fuel (laneRows rows' r.id b) := fun b =>
        ih (h.filter _) (nodup_ord_laneRows hplaces r.id b)
      rw [nestNode, nestNode, hlane, hlane]
    rw [nestLane_succ, nestLane_succ, byOrd_perm hl hords, hnode]

/-! ### The flattened tree -/

section
variable {mint : ℕ → Uuid} {tree : List (StepOf Amount Person)}

theorem mint_inj (h : ((flattenSteps mint tree).map StepRow.id).Nodup) :
    ∀ j < (flattenLane mint 0 none none 0 tree).2, ∀ k < (flattenLane mint 0 none none 0 tree).2,
      mint j = mint k → j = k := by
  intro j hj k hk hjk
  rw [flattenSteps, map_id_flattenLane, Nat.sub_zero, ← List.range_eq_range'] at h
  exact List.inj_on_of_nodup_map h (List.mem_range.mpr hj) (List.mem_range.mpr hk) hjk

theorem nodup_place_flattenSteps (h : ((flattenSteps mint tree).map StepRow.id).Nodup) :
    ((flattenSteps mint tree).map place).Nodup :=
  nodup_places (mint_inj h) tree 0 none none 0 le_rfl fun _ _ _ => nofun

theorem flattenSteps_links {r : StepRow Amount Person} (hr : r ∈ flattenSteps mint tree) :
    r.parentStepID = none ∧ r.branch = none ∨
      ∃ p b, r.parentStepID = some p ∧ r.branch = some b ∧
        p ∈ (flattenSteps mint tree).map StepRow.id := by
  rcases ((flattenLane_within mint tree 0 none none 0).2 r hr).place with
    ⟨hp, hb, -⟩ | ⟨k, b, hk, hk', hp, hb⟩
  · exact .inl ⟨hp, hb⟩
  · refine .inr ⟨mint k, b, hp, hb, ?_⟩
    rw [flattenSteps, map_id_flattenLane]
    refine List.mem_map_of_mem (List.mem_range'_1.mpr ⟨hk, ?_⟩)
    omega

theorem rootRows_flattenSteps :
    rootRows (flattenSteps mint tree) = laneTops mint 0 none none 0 tree := by
  have hlane : ∀ (lane : List (StepOf Amount Person)) (n i : ℕ),
      rootRows (flattenLane mint n none none i lane).1 = laneTops mint n none none i lane := by
    intro lane
    induction lane with
    | nil => exact fun n i => rfl
    | cons s lane ih =>
      intro n i
      have hnone : ∀ r ∈ (thenRows mint n s).1 ++ (elseRows mint n s).1,
          ¬ (r.parentStepID.isNone || r.branch.isNone) = true := by
        intro r hr
        have hchild : ∃ j b, r.parentStepID = some (mint j) ∧ r.branch = some b := by
          rcases List.mem_append.mp hr with hr | hr
          · obtain ⟨j, b, -, -, hp, hb⟩ := ((thenRows_within mint n s).2 r hr).below
              (Nat.lt_succ_self n) (thenRows_within mint n s).1
            exact ⟨j, b, hp, hb⟩
          · have ht := (thenRows_within mint n s).1
            obtain ⟨j, b, -, -, hp, hb⟩ := ((elseRows_within mint n s).2 r hr).below
              (by omega) (elseRows_within mint n s).1
            exact ⟨j, b, hp, hb⟩
        obtain ⟨j, b, hp, hb⟩ := hchild
        rw [hp, hb]
        exact Bool.false_ne_true
      rw [flattenLane_cons, rootRows, List.filter_append, List.filter_cons_of_pos rfl,
        List.filter_eq_nil_iff.mpr hnone]
      exact congrArg _ (ih (elseRows mint n s).2 (i + 1))
  exact hlane tree 0 0

theorem nestSteps_flattenSteps (h : ((flattenSteps mint tree).map StepRow.id).Nodup) :
    ∃ depth, ∀ fuel rows, depth ≤ fuel → rows.Perm (flattenSteps mint tree) →
      ∃ views, nestSteps fuel rows = some views ∧ readLane views = tree := by
  obtain ⟨depth, hnest⟩ := nest_lane (mint_inj h) (flattenSteps mint tree) tree 0 none none
    0 le_rfl (fun _ _ _ => nofun)
    (fun _ _ _ _ => rfl)
  refine ⟨depth + 1, fun fuel rows hfuel hperm => ?_⟩
  obtain ⟨fuel, rfl⟩ := Nat.exists_eq_add_of_le' (show 1 ≤ fuel by omega)
  obtain ⟨views, hviews, hread⟩ := hnest fuel (by omega)
  have hords : ((rootRows (flattenSteps mint tree)).map StepRow.ord).Nodup := by
    rw [rootRows_flattenSteps]
    exact (List.pairwise_map.mpr (laneTops_sorted mint tree 0 0 none none).2).imp
      fun hlt => Nat.ne_of_lt hlt
  refine ⟨views, ?_, hread⟩
  have hsame : nestSteps (fuel + 1) rows = nestSteps (fuel + 1) (flattenSteps mint tree) :=
    (nestLane_perm hperm.symm (nodup_place_flattenSteps h) _ (hperm.symm.filter _) hords).symm
  rw [hsame, nestSteps, rootRows_flattenSteps, nestLane_succ, byOrd_laneTops, hviews]

end
/-! ### The insert -/

theorem checkLane_eq_ok {checkFields : StepOf Amount Person → Except Err Unit} {nested : Bool}
    {s : StepOf Amount Person} {lane : List (StepOf Amount Person)} :
    checkLane checkFields nested (s :: lane) = .ok () ↔
      ¬ (s.kind = .condition ∧ nested = true) ∧
      ¬ (s.kind ≠ .condition ∧ (s.thenLane.isEmpty = false ∨ s.elseLane.isEmpty = false)) ∧
      checkFields s = .ok () ∧ checkLane checkFields true s.thenLane = .ok () ∧
      checkLane checkFields true s.elseLane = .ok () ∧ checkLane checkFields nested lane = .ok () := by
  cases s
  simp only [checkLane, checkStep, bind_eq_ok, refuse_eq_ok]
  constructor
  · rintro ⟨⟨⟩, ⟨hdepth, hlanes, ⟨⟩, hfields, ⟨⟩, hthen, helse⟩, hlane⟩
    exact ⟨hdepth, hlanes, hfields, hthen, helse, hlane⟩
  · rintro ⟨hdepth, hlanes, hfields, hthen, helse, hlane⟩
    exact ⟨(), ⟨hdepth, hlanes, (), hfields, (), hthen, helse⟩, hlane⟩

theorem delegation_checks {s : Step} (h : validateStepFields s = .ok ()) :
    (s.allowDelegation = true → s.kind = .approval) ∧
      (s.delegateUserID.isSome = true → s.allowDelegation = true) := by
  simp only [validateStepFields, checkStepFields, refuse_eq_ok] at h
  obtain ⟨-, hkind, hallow, -⟩ := h
  constructor
  · intro hd
    by_contra hno
    exact hkind ⟨hno, .inl hd⟩
  · intro hs
    obtain ⟨u, hu⟩ := Option.isSome_iff_exists.mp hs
    rw [hu, Option.any_some, Bool.not_true, Bool.or_false, Bool.not_eq_true', Bool.not_eq_false]
      at hallow
    exact hallow

theorem rowChecks_flattenLane (mint : ℕ → Uuid) (lane : List Step) {nested : Bool}
    (hvalid : checkLane validateStepFields nested lane = .ok ()) (n i : ℕ) (parent : Option Uuid)
    (branch : Option Branch) (hnested : parent.isSome = true → nested = true) :
    ∀ r ∈ (flattenLane mint n parent branch i lane).1, rowChecks r = true := by
  induction lane using lane_induction generalizing nested n parent branch i with
  | hnil => exact fun r hr => absurd hr List.not_mem_nil
  | hcons s lane hthen helse hlane =>
    obtain ⟨hdepth, -, hfields, hvthen, hvelse, hvlane⟩ := checkLane_eq_ok.mp hvalid
    obtain ⟨hkind, hallow⟩ := delegation_checks hfields
    rw [flattenLane_cons]
    intro r hr
    rcases List.mem_append.mp hr with hr | hr
    · obtain rfl | hr := List.mem_cons.mp hr
      · simp only [rowChecks, stepRow, StepOf.fields, Bool.and_eq_true, Bool.or_eq_true,
          Bool.not_eq_true', Option.isNone_iff_eq_none]
        refine ⟨⟨?_, ?_⟩, ?_⟩
        · cases parent with
          | none => exact .inl rfl
          | some p => exact .inr (decide_eq_true fun hcond => hdepth ⟨hcond, hnested rfl⟩)
        · cases hd : s.allowDelegation with
          | false => exact .inl rfl
          | true => exact .inr (decide_eq_true (hkind hd))
        · cases hd : s.delegateUserID with
          | none => exact .inl rfl
          | some u => exact .inr (hallow (by rw [hd]; rfl))
      · rcases List.mem_append.mp hr with hr | hr
        · exact hthen hvthen _ _ _ _ (fun _ => rfl) r hr
        · exact helse hvelse _ _ _ _ (fun _ => rfl) r hr
    · exact hlane hvlane _ _ _ _ hnested r hr

theorem insertRows_eq {d : Directory} {table new : StepTable}
    (hchecks : ∀ r ∈ new, rowChecks r.2 = true)
    (hids : ((table ++ new).map fun r => r.2.id).Nodup)
    (hslots : ((table ++ new).map slot).Nodup)
    (hparents : ∀ r ∈ new, ∀ p, r.2.parentStepID = some p →
      p ∈ (table ++ new).map fun r => r.2.id) :
    insertRows d table new =
      if new.all fun r => delegateMember d r.2.fields then .ok (table ++ new)
      else .error .policyDelegateNotMember := by
  have hall : new.all (fun r => rowChecks r.2) = true := List.all_eq_true.mpr hchecks
  have hlinks : new.all (fun r => r.2.parentStepID.all fun p =>
      p ∈ (table ++ new).map fun r => r.2.id) = true := by
    refine List.all_eq_true.mpr fun r hr => ?_
    cases hp : r.2.parentStepID with
    | none => rfl
    | some p => exact decide_eq_true (hparents r hr p hp)
  rw [insertRows, if_neg (not_not.mpr hall), if_neg (not_or.mpr ⟨not_not.mpr hids, not_not.mpr hslots⟩),
    if_neg (not_not.mpr hlinks)]
  cases new.all fun r => delegateMember d r.2.fields <;> rfl

section
variable {mint : ℕ → Uuid} {d : Directory} {table : StepTable} {versionID : Uuid}
  {tree : List Step}

def treeRows (mint : ℕ → Uuid) (versionID : Uuid) (tree : List Step) : StepTable :=
  ((flattenSteps mint tree).filter fun r => r.parentStepID.isNone).map (fun r => (versionID, r)) ++
    ((flattenSteps mint tree).filter fun r => !r.parentStepID.isNone).map fun r => (versionID, r)

theorem treeRows_perm (mint : ℕ → Uuid) (versionID : Uuid) (tree : List Step) :
    ((treeRows mint versionID tree).map Prod.snd).Perm (flattenSteps mint tree) := by
  rw [treeRows, List.map_append, List.map_map, List.map_map]
  have hsnd : Prod.snd ∘ (fun r : StepRow Numeric Uuid => (versionID, r)) = id := rfl
  rw [hsnd, List.map_id, List.map_id]
  exact List.filter_append_perm _ _

theorem fst_treeRows {r : Uuid × StepRow Numeric Uuid} (h : r ∈ treeRows mint versionID tree) :
    r.1 = versionID := by
  rcases List.mem_append.mp h with h | h
  · obtain ⟨_, -, rfl⟩ := List.mem_map.mp h
    rfl
  · obtain ⟨_, -, rfl⟩ := List.mem_map.mp h
    rfl

theorem map_id_treeRows : ((treeRows mint versionID tree).map fun r => r.2.id).Perm
    ((flattenSteps mint tree).map StepRow.id) := by
  have hmapped := (treeRows_perm mint versionID tree).map StepRow.id
  rwa [List.map_map] at hmapped

theorem map_fields_flattenLane (lane : List (StepOf Amount Person)) (n : ℕ) (parent : Option Uuid)
    (branch : Option Branch) (i : ℕ) :
    (flattenLane mint n parent branch i lane).1.map StepRow.fields = laneFields lane := by
  induction lane using lane_induction generalizing n parent branch i with
  | hnil => rfl
  | hcons s lane hthen helse hlane =>
    have hthenFields : (thenRows mint n s).1.map StepRow.fields = laneFields s.thenLane :=
      hthen _ _ _ _
    have helseFields : (elseRows mint n s).1.map StepRow.fields = laneFields s.elseLane :=
      helse _ _ _ _
    rw [flattenLane_cons, laneFields_cons, List.map_append, List.map_cons, List.map_append,
      hthenFields, helseFields, hlane]
    rfl

theorem map_fields_flattenSteps (mint : ℕ → Uuid) (tree : List (StepOf Amount Person)) :
    (flattenSteps mint tree).map StepRow.fields = laneFields tree :=
  map_fields_flattenLane tree 0 none none 0

theorem asRoot_eq {input : List (StepOf Amount Person)} {r : StepRow Amount Person}
    (hr : r ∈ flattenSteps mint input) (hroot : r.parentStepID.isNone = true) : r.asRoot = r := by
  rcases flattenSteps_links hr with ⟨hp, hb⟩ | ⟨p, b, hp, -, -⟩
  · cases r
    simp only [StepRow.asRoot] at hp hb ⊢
    rw [hp, hb]
  · rw [hp] at hroot
    cases hroot

theorem insertPolicySteps_bind {cast : StepRow Amount Person → Except Err (StepRow Numeric Uuid)}
    {stored : StepRow Amount Person → StepRow Numeric Uuid} {input : List (StepOf Amount Person)}
    (hcast : ∀ r ∈ flattenSteps mint input, cast r = .ok (stored r))
    (hparent : ∀ r, (stored r).parentStepID = r.parentStepID)
    (hrows : (flattenSteps mint input).map stored = flattenSteps mint tree) :
    insertPolicySteps cast d table versionID (flattenSteps mint input) =
      (insertRows d table (((flattenSteps mint tree).filter fun r => r.parentStepID.isNone).map
          fun r => (versionID, r)) >>= fun table =>
        insertRows d table (((flattenSteps mint tree).filter fun r => !r.parentStepID.isNone).map
          fun r => (versionID, r))) := by
  have hroots : ((flattenSteps mint input).filter fun r => r.parentStepID.isNone).mapM
      (fun r => cast r.asRoot) =
        .ok ((flattenSteps mint tree).filter fun r => r.parentStepID.isNone) := by
    rw [← hrows, List.filter_map]
    have hsame : (fun r : StepRow Numeric Uuid => r.parentStepID.isNone) ∘ stored =
        fun r => r.parentStepID.isNone := by
      funext r
      exact congrArg Option.isNone (hparent r)
    rw [hsame]
    refine mapM_eq_map fun r hr => ?_
    obtain ⟨hmem, hroot⟩ := List.mem_filter.mp hr
    rw [asRoot_eq hmem hroot, hcast r hmem]
  have hchildren : ((flattenSteps mint input).filter fun r => !r.parentStepID.isNone).mapM cast =
      .ok ((flattenSteps mint tree).filter fun r => !r.parentStepID.isNone) := by
    rw [← hrows, List.filter_map]
    have hsame : (fun r : StepRow Numeric Uuid => !r.parentStepID.isNone) ∘ stored =
        fun r => !r.parentStepID.isNone := by
      funext r
      exact congrArg (fun p : Option Uuid => !p.isNone) (hparent r)
    rw [hsame]
    exact mapM_eq_map fun r hr => hcast r (List.mem_filter.mp hr).1
  simp only [insertPolicySteps, hroots, hchildren]
  rfl

theorem slots_treeRows (hminted : ((flattenSteps mint tree).map StepRow.id).Nodup)
    (hslots : (table.map slot).Nodup) (hcleared : ∀ r ∈ table, r.1 ≠ versionID) :
    ((table ++ treeRows mint versionID tree).map slot).Nodup := by
  have hnew : ((treeRows mint versionID tree).map slot).Nodup := by
    have hplaces : ((treeRows mint versionID tree).map fun r => place r.2).Nodup := by
      have hmapped := (treeRows_perm mint versionID tree).map place
      rw [List.map_map] at hmapped
      exact hmapped.nodup_iff.mpr (nodup_place_flattenSteps hminted)
    have hsnd : (treeRows mint versionID tree).map (fun r => place r.2) =
        ((treeRows mint versionID tree).map slot).map Prod.snd := by
      rw [List.map_map]
      rfl
    rw [hsnd] at hplaces
    exact hplaces.of_map _
  rw [List.map_append]
  refine hslots.append hnew ?_
  intro x hx hx'
  obtain ⟨r, hr, rfl⟩ := List.mem_map.mp hx
  obtain ⟨r', hr', heq⟩ := List.mem_map.mp hx'
  exact hcleared r hr ((Prod.mk.inj heq).1.symm.trans (fst_treeRows hr'))

theorem members_flattenSteps (mint : ℕ → Uuid) : (laneFields tree).all (delegateMember d) =
    (((flattenSteps mint tree).filter (fun r => r.parentStepID.isNone)).all
        (fun r => delegateMember d r.fields) &&
      ((flattenSteps mint tree).filter (fun r => !r.parentStepID.isNone)).all
        (fun r => delegateMember d r.fields)) := by
  rw [← List.all_append, ← map_fields_flattenSteps mint, List.all_map]
  exact ((List.filter_append_perm _ _).all_eq).symm

theorem insertRows_roots (hvalid : validateTree tree = .ok ())
    (hids : ((table ++ treeRows mint versionID tree).map fun r => r.2.id).Nodup)
    (hslots : ((table ++ treeRows mint versionID tree).map slot).Nodup) :
    insertRows d table (((flattenSteps mint tree).filter fun r => r.parentStepID.isNone).map
        fun r => (versionID, r)) =
      if ((flattenSteps mint tree).filter (fun r => r.parentStepID.isNone)).all
        (fun r => delegateMember d r.fields)
      then .ok (table ++ ((flattenSteps mint tree).filter fun r => r.parentStepID.isNone).map
        fun r => (versionID, r))
      else .error .policyDelegateNotMember := by
  rw [treeRows, ← List.append_assoc] at hids hslots
  refine (insertRows_eq (fun r hr => ?_)
    (List.Nodup.of_append_left (by rwa [List.map_append] at hids))
    (List.Nodup.of_append_left (by rwa [List.map_append] at hslots)) fun r hr p hp => ?_).trans ?_
  · obtain ⟨r', hr', rfl⟩ := List.mem_map.mp hr
    exact rowChecks_flattenLane mint tree hvalid 0 0 none none (fun h => by cases h) r'
      (List.mem_filter.mp hr').1
  · obtain ⟨r', hr', rfl⟩ := List.mem_map.mp hr
    have hnone : r'.parentStepID.isNone = true := (List.mem_filter.mp hr').2
    have hsome : r'.parentStepID = some p := hp
    rw [hsome] at hnone
    cases hnone
  · rw [List.all_map]
    rfl

theorem insertRows_children (hvalid : validateTree tree = .ok ())
    (hids : ((table ++ treeRows mint versionID tree).map fun r => r.2.id).Nodup)
    (hslots : ((table ++ treeRows mint versionID tree).map slot).Nodup) :
    insertRows d (table ++ ((flattenSteps mint tree).filter fun r => r.parentStepID.isNone).map
        fun r => (versionID, r))
      (((flattenSteps mint tree).filter fun r => !r.parentStepID.isNone).map
        fun r => (versionID, r)) =
      if ((flattenSteps mint tree).filter (fun r => !r.parentStepID.isNone)).all
        (fun r => delegateMember d r.fields)
      then .ok (table ++ treeRows mint versionID tree)
      else .error .policyDelegateNotMember := by
  rw [treeRows, ← List.append_assoc] at hids hslots ⊢
  refine (insertRows_eq (fun r hr => ?_) hids hslots fun r hr p hp => ?_).trans ?_
  · obtain ⟨r', hr', rfl⟩ := List.mem_map.mp hr
    exact rowChecks_flattenLane mint tree hvalid 0 0 none none (fun h => by cases h) r'
      (List.mem_filter.mp hr').1
  · obtain ⟨r', hr', rfl⟩ := List.mem_map.mp hr
    rcases flattenSteps_links (List.mem_filter.mp hr').1 with ⟨hnone, -⟩ | ⟨p', b, hp', -, hmem⟩
    · rw [hnone] at hp
      cases hp
    · rw [hp'] at hp
      cases hp
      rw [List.append_assoc, List.map_append]
      exact List.mem_append_right _ (map_id_treeRows.mem_iff.mpr hmem)
  · rw [List.all_map]
    rfl

theorem insertPolicySteps_eq {cast : StepRow Amount Person → Except Err (StepRow Numeric Uuid)}
    {stored : StepRow Amount Person → StepRow Numeric Uuid} {input : List (StepOf Amount Person)}
    (hcast : ∀ r ∈ flattenSteps mint input, cast r = .ok (stored r))
    (hparent : ∀ r, (stored r).parentStepID = r.parentStepID)
    (hrows : (flattenSteps mint input).map stored = flattenSteps mint tree)
    (hvalid : validateTree tree = .ok ())
    (hids : (table.map (fun r => r.2.id) ++ (flattenSteps mint tree).map StepRow.id).Nodup)
    (hslots : (table.map slot).Nodup) (hcleared : ∀ r ∈ table, r.1 ≠ versionID) :
    insertPolicySteps cast d table versionID (flattenSteps mint input) =
        (if (laneFields tree).all (delegateMember d) then .ok (table ++ treeRows mint versionID tree)
        else .error .policyDelegateNotMember) ∧
      ((table ++ treeRows mint versionID tree).map slot).Nodup := by
  have hallIds : ((table ++ treeRows mint versionID tree).map fun r => r.2.id).Nodup := by
    rw [List.map_append]
    exact (map_id_treeRows.symm.append_left _).nodup_iff.mp hids
  have hallSlots := slots_treeRows hids.of_append_right hslots hcleared
  refine ⟨?_, hallSlots⟩
  rw [insertPolicySteps_bind hcast hparent hrows, insertRows_roots hvalid hallIds hallSlots,
    members_flattenSteps mint]
  cases ((flattenSteps mint tree).filter (fun r => r.parentStepID.isNone)).all
      (fun r => delegateMember d r.fields) with
  | false => rfl
  | true => exact insertRows_children hvalid hallIds hallSlots

end

section
variable {mint : ℕ → Uuid} {table : StepTable} {versionID : Uuid} {tree : List Step}

theorem read_perm (hcleared : ∀ r ∈ table, r.1 ≠ versionID) {versionIDs : List Uuid}
    {result : StepTable} (hmem : versionID ∈ versionIDs)
    (hresult : ReadAs (table ++ treeRows mint versionID tree) versionIDs result) :
    ((result.filter fun r => r.1 = versionID).map Prod.snd).Perm (flattenSteps mint tree) := by
  have hfiltered := (hresult.rows.filter fun r => r.1 = versionID).map Prod.snd
  have hown : ((table ++ treeRows mint versionID tree).filter fun r => r.1 ∈ versionIDs).filter
      (fun r => r.1 = versionID) = treeRows mint versionID tree := by
    rw [List.filter_filter, List.filter_append, List.filter_eq_nil_iff.mpr, List.nil_append,
      List.filter_eq_self.mpr]
    · intro r hr
      rw [fst_treeRows hr]
      simp only [hmem, decide_true, Bool.and_self]
    · intro r hr
      simp only [hcleared r hr, decide_false, Bool.false_and, Bool.false_eq_true, not_false_eq_true]
  rw [hown] at hfiltered
  exact hfiltered.trans (treeRows_perm _ _ _)

theorem stored_reads_back (hminted : ((flattenSteps mint tree).map StepRow.id).Nodup)
    (hcleared : ∀ r ∈ table, r.1 ≠ versionID) :
    ∃ depth, ∀ fuel versionIDs result, depth ≤ fuel → versionID ∈ versionIDs →
      ReadAs (table ++ treeRows mint versionID tree) versionIDs result →
      ∃ views, (versionID, some views) ∈ readPolicyTrees fuel versionIDs result ∧
        readLane views = tree := by
  obtain ⟨depth, hnest⟩ := nestSteps_flattenSteps hminted
  refine ⟨depth, fun fuel versionIDs result hfuel hmem hresult => ?_⟩
  obtain ⟨views, hviews, hsame⟩ := hnest fuel _ hfuel (read_perm hcleared hmem hresult)
  refine ⟨views, ?_, hsame⟩
  rw [readPolicyTrees, ← hviews]
  exact List.mem_map_of_mem hmem

end

def oneMember : Directory where
  isFirm := false
  members := [{ userID := 10, role := .reviewer, active := true }]
  roles := []

def twoLanes : List Step :=
  [{ kind := .approval, workflowRoleKey := some "checker", allowDelegation := true,
     delegateUserID := some 10 },
   { kind := .condition, condOp := some .gt, condAmount := some (.hundredths 10000),
     thenLane := [{ kind := .approval }, { kind := .autoapprove }],
     elseLane := [{ kind := .autoapprove }] }]

end InvoiceOs.Approval
