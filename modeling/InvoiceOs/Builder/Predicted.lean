import InvoiceOs.Approval.Engine
import InvoiceOs.Approval.TreeStored
import InvoiceOs.Builder.UuidText

/-! The simulator predicts the run: over a valid tree read back from storage it lists the steps the
engine materialises, each by what its kind shows, and saving the nodes unedited changes neither. -/

namespace InvoiceOs.Builder

open Lib Approval

/-- What a step of its kind shows. An absent text reads as the empty one, a deadline of zero hours
as none. -/
inductive Listed where
  | approval (role : String) (hours : Option ℤ) (delegate : Bool) (delegateTo : String)
  | notify (target channel : String)
  | autoapprove
  | condition
  deriving DecidableEq

def Listed.isApproval : Listed → Bool
  | .approval _ _ _ _ => true
  | _ => false

def deadline (hours : Option ℤ) : Option ℤ := hours.filter (· ≠ 0)

def showStep (f : StepFields Numeric Uuid) : Listed :=
  match f.kind with
  | .approval => .approval (f.workflowRoleKey.getD "") (deadline f.slaHours) f.allowDelegation
      ((f.delegateUserID.map Uuid.text).getD "")
  | .notify => .notify (f.notifyTarget.getD "") (f.notifyChannel.getD "")
  | .autoapprove => .autoapprove
  | .condition => .condition

def showRun (s : RunStep) : Listed :=
  showStep { s with condOp := none, condAmount := none }

def showNode : WfNode → Listed
  | .branch (.approval _ role sla delegate delegateTo) =>
    .approval role (hoursFromSla sla) delegate (delegateTo.getD "")
  | .branch (.notify _ target channel) => .notify target channel
  | .branch (.autoapprove _) => .autoapprove
  | .condition _ _ _ _ _ _ => .condition

/-! ### What one root step adds -/

def laneShown (lane : List Step) : List Listed :=
  (lane.filter fun s => s.kind ≠ .condition).map fun s => showStep s.fields

def stepShown (total : Option Decimal) (s : Step) : List Listed :=
  if s.kind = .condition then
    laneShown (if Approval.evalCondition s.condOp s.condAmount total then s.thenLane else s.elseLane)
  else [showStep s.fields]

def nodeShown (amount : ℚ) : WfNode → List Listed
  | .condition _ _ op value thenLane elseLane =>
    (if evalCondition op value amount then thenLane else elseLane).map showNode
  | .branch n => [showNode (.branch n)]

theorem showRun_emit (w : Walk) (s : Step) : (w.emit s).steps.map showRun =
    w.steps.map showRun ++ [showStep s.fields] := by
  rw [Walk.emit, List.map_append]
  cases s
  rfl

theorem kind_auto (s : Step) : (s.kind == .autoapprove) = (showStep s.fields == .autoapprove) := by
  unfold showStep StepOf.fields
  cases s.kind <;> rfl

theorem take_shown (w : Walk) (lane : List Step) :
    (Approval.take w lane).steps.map showRun = w.steps.map showRun ++ laneShown lane ∧
      (Approval.take w lane).auto = (w.auto || (laneShown lane).any (· == .autoapprove)) := by
  induction lane generalizing w with
  | nil => exact ⟨(List.append_nil _).symm, (Bool.or_false _).symm⟩
  | cons s lane ih =>
    unfold Approval.take laneShown
    split
    · rename_i hcond
      rw [List.filter_cons_of_neg (by simp [hcond])]
      exact ih w
    · rename_i hcond
      obtain ⟨hsteps, hauto⟩ := ih (w.emit s)
      rw [List.filter_cons_of_pos (by simp [hcond]), List.map_cons, List.any_cons, ← kind_auto,
        ← Bool.or_assoc, hsteps, hauto, showRun_emit, List.append_assoc]
      exact ⟨rfl, rfl⟩

theorem laneShown_single {s : Step} (h : s.kind ≠ .condition) :
    laneShown [s] = [showStep s.fields] := by
  unfold laneShown
  rw [List.filter_cons_of_pos (by simp [h])]
  rfl

theorem materialise_shown (tree : List Step) (total : Option Decimal) :
    (materialise tree total).steps.map showRun = tree.flatMap (stepShown total) ∧
      (materialise tree total).auto = (tree.flatMap (stepShown total)).any (· == .autoapprove) := by
  have hwalk : ∀ (tree : List Step) (w : Walk),
      (materialiseFrom total w tree).steps.map showRun =
        w.steps.map showRun ++ tree.flatMap (stepShown total) ∧
      (materialiseFrom total w tree).auto =
        (w.auto || (tree.flatMap (stepShown total)).any (· == .autoapprove)) := by
    intro tree
    induction tree with
    | nil => exact fun w => ⟨(List.append_nil _).symm, (Bool.or_false _).symm⟩
    | cons s tree ih =>
      intro w
      have hstep : materialiseFrom total w (s :: tree) = materialiseFrom total (Approval.take w
          (if s.kind = .condition then
            (if Approval.evalCondition s.condOp s.condAmount total then s.thenLane else s.elseLane)
          else [s])) tree := by
        rw [materialiseFrom]
        by_cases hcond : s.kind = .condition
        · rw [if_neg (not_not.mpr hcond), if_pos hcond]
          split
          · rfl
          · rfl
        · rw [if_pos hcond, if_neg hcond]
      have hshown : stepShown total s = laneShown
          (if s.kind = .condition then
            (if Approval.evalCondition s.condOp s.condAmount total then s.thenLane else s.elseLane)
          else [s]) := by
        unfold stepShown
        by_cases hcond : s.kind = .condition
        · rw [if_pos hcond, if_pos hcond]
        · rw [if_neg hcond, if_neg hcond, laneShown_single hcond]
      rw [hstep, List.flatMap_cons, hshown]
      obtain ⟨hsteps, hauto⟩ := ih (Approval.take w (if s.kind = .condition then
        (if Approval.evalCondition s.condOp s.condAmount total then s.thenLane else s.elseLane)
        else [s]))
      obtain ⟨htaken, htakenAuto⟩ := take_shown w (if s.kind = .condition then
        (if Approval.evalCondition s.condOp s.condAmount total then s.thenLane else s.elseLane)
        else [s])
      rw [hsteps, hauto, htaken, htakenAuto, List.append_assoc, List.any_append, Bool.or_assoc]
      exact ⟨rfl, rfl⟩
  have hall := hwalk tree ⟨[], false⟩
  exact ⟨hall.1.trans (List.nil_append _), hall.2.trans (Bool.false_or _)⟩

theorem isAuto_shown (n : WfNode) : n.isAuto = (showNode n == .autoapprove) := by
  cases n with
  | branch n => cases n <;> rfl
  | condition => rfl

theorem takeNodes_shown (r : SimResult) (list : List WfNode) (via : Bool) :
    (r.take list via).steps.map (fun s => showNode s.node) =
        r.steps.map (fun s => showNode s.node) ++ list.map showNode ∧
      (r.take list via).auto = (r.auto || (list.map showNode).any (· == .autoapprove)) := by
  unfold SimResult.take
  induction list generalizing r with
  | nil => exact ⟨(List.append_nil _).symm, (Bool.or_false _).symm⟩
  | cons n list ih =>
    rw [List.foldl_cons]
    obtain ⟨hsteps, hauto⟩ := ih { steps := r.steps ++ [{ node := n, viaCondition := via }]
                                   auto := r.auto || n.isAuto }
    rw [hsteps, hauto, List.map_append, List.append_assoc, isAuto_shown, Bool.or_assoc]
    exact ⟨rfl, rfl⟩

theorem simulate_shown (nodes : List WfNode) (amount : ℚ) :
    (simulate ⟨nodes⟩ amount).steps.map (fun s => showNode s.node) =
        nodes.flatMap (nodeShown amount) ∧
      (simulate ⟨nodes⟩ amount).auto = (nodes.flatMap (nodeShown amount)).any (· == .autoapprove) := by
  have hwalk : ∀ (r : SimResult), (nodes.foldl (fun r n =>
        match n with
        | .condition _ _ op value thenLane elseLane =>
          r.take (if evalCondition op value amount then thenLane else elseLane) true
        | .branch b => r.take [.branch b] false) r).steps.map (fun s => showNode s.node) =
        r.steps.map (fun s => showNode s.node) ++ nodes.flatMap (nodeShown amount) ∧
      (nodes.foldl (fun r n =>
        match n with
        | .condition _ _ op value thenLane elseLane =>
          r.take (if evalCondition op value amount then thenLane else elseLane) true
        | .branch b => r.take [.branch b] false) r).auto =
        (r.auto || (nodes.flatMap (nodeShown amount)).any (· == .autoapprove)) := by
    induction nodes with
    | nil => exact fun r => ⟨(List.append_nil _).symm, (Bool.or_false _).symm⟩
    | cons n nodes ih =>
      intro r
      rw [List.foldl_cons, List.flatMap_cons, List.any_append, ← Bool.or_assoc, ← List.append_assoc]
      cases n with
      | condition id field op value thenLane elseLane =>
        obtain ⟨hsteps, hauto⟩ := takeNodes_shown r
          (if evalCondition op value amount then thenLane else elseLane) true
        obtain ⟨hrest, hrestAuto⟩ := ih (r.take
          (if evalCondition op value amount then thenLane else elseLane) true)
        exact ⟨hrest.trans (by rw [hsteps]; rfl), hrestAuto.trans (by rw [hauto]; rfl)⟩
      | branch b =>
        obtain ⟨hsteps, hauto⟩ := takeNodes_shown r [.branch b] false
        obtain ⟨hrest, hrestAuto⟩ := ih (r.take [.branch b] false)
        exact ⟨hrest.trans (by rw [hsteps]; rfl), hrestAuto.trans (by rw [hauto]; rfl)⟩
  have hall := hwalk {}
  exact ⟨hall.1.trans (List.nil_append _), hall.2.trans (Bool.false_or _)⟩

/-! ### A valid step as a node -/

theorem readWhole_wholeText (n : ℤ) : readWhole (wholeText n) = some n := by
  have hall : (Lib.digits n.natAbs).all Char.isDigit = true :=
    List.all_eq_true.mpr fun _ hc => isDigit_of_mem_digits hc
  have hread : Nat.ofDigitChars 10 (Lib.digits n.natAbs) 0 = n.natAbs := by
    rw [digits_eq]
    exact Nat.ofDigitChars_ten_toDigits
  unfold readWhole wholeText
  rw [String.toList_ofList]
  by_cases hneg : n < 0
  · rw [if_pos hneg]
    change (if (Lib.digits n.natAbs).all Char.isDigit = true then
      some (-(Nat.ofDigitChars 10 (Lib.digits n.natAbs) 0 : ℤ)) else none) = _
    rw [hall, if_pos rfl, hread]
    congr 1
    omega
  · rw [if_neg hneg, List.nil_append]
    split
    · rename_i ds hds
      have hminus := isDigit_of_mem_digits (hds ▸ List.mem_cons_self : '-' ∈ Lib.digits n.natAbs)
      cases hminus
    · rw [hall, if_pos rfl, hread]
      congr 1
      omega

theorem deadline_slaFromHours (hours : Option ℤ) :
    hoursFromSla (slaFromHours hours) = deadline hours := by
  cases hours with
  | none => rfl
  | some h =>
    unfold hoursFromSla slaFromHours deadline
    have hread := readWhole_wholeText h
    by_cases hzero : h = 0
    · subst hzero
      rfl
    · have htext : wholeText h ≠ "0" := by
        intro heq
        rw [heq] at hread
        exact hzero (Option.some.inj (hread.symm.trans (by rfl)))
      rw [if_neg htext, hread, Option.filter_some, if_pos (decide_eq_true hzero)]

structure ValidFields (s : Step) : Prop where
  delegation : s.allowDelegation = false → s.delegateUserID = none
  kinds : s.kind ≠ .approval → s.allowDelegation = false
  texts : optionHasNUL s.workflowRoleKey = false ∧ optionHasNUL s.notifyTarget = false ∧
    optionHasNUL s.notifyChannel = false
  hours : (s.slaHours.any fun h => h < 0 || h > 2147483647) = false
  amount : ∀ a, s.condAmount = some a → validateCondAmount a = .ok ()
  condition : s.kind = .condition → s.condOp.isSome = true ∧ s.condAmount.isSome = true
  notify : s.kind = .notify → blank s.notifyTarget = false ∧ blank s.notifyChannel = false

theorem validKind_iff (s : Step) :
    (match s.kind with
      | .condition =>
        if (s.condOp.isNone || s.condAmount.isNone) = true then throw Err.validation else pure ()
      | .notify =>
        if (blank s.notifyTarget || blank s.notifyChannel) = true then throw Err.validation
        else pure ()
      | .approval => pure ()
      | .autoapprove => pure () : Except Err Unit) = .ok () ↔
      (s.kind = .condition → s.condOp.isSome = true ∧ s.condAmount.isSome = true) ∧
        (s.kind = .notify → blank s.notifyTarget = false ∧ blank s.notifyChannel = false) := by
  cases s.kind with
  | approval => simp
  | autoapprove => simp
  | condition =>
    simp only [check_eq_ok, Bool.or_eq_true, not_or, Bool.not_eq_true, Option.isNone_eq_false_iff,
      pure_eq_ok, and_true, forall_const, reduceCtorEq, false_implies]
  | notify =>
    simp only [check_eq_ok, Bool.or_eq_true, not_or, Bool.not_eq_true, pure_eq_ok, and_true,
      forall_const, reduceCtorEq, false_implies, true_and]

theorem validFields_iff (s : Step) : validateStepFields s = .ok () ↔ ValidFields s := by
  unfold validateStepFields checkStepFields
  simp only [refuse_eq_ok]
  have hkind := validKind_iff s
  constructor
  · rintro ⟨htexts, hkinds, hdelegate, hhours, hrest⟩
    simp only [Bool.or_eq_true, not_or, Bool.not_eq_true] at htexts
    have hrest' : (∀ a, s.condAmount = some a → validateCondAmount a = .ok ()) ∧
        (match s.kind with
          | .condition =>
            if (s.condOp.isNone || s.condAmount.isNone) = true then throw Err.validation
            else pure ()
          | .notify =>
            if (blank s.notifyTarget || blank s.notifyChannel) = true then throw Err.validation
            else pure ()
          | .approval => pure ()
          | .autoapprove => pure () : Except Err Unit) = .ok () := by
      cases ha : s.condAmount with
      | none =>
        rw [ha] at hrest
        exact ⟨by rintro _ ⟨⟩, hrest⟩
      | some a =>
        rw [ha] at hrest
        obtain ⟨⟨⟩, hvalid, hkind⟩ := bind_eq_ok.mp hrest
        exact ⟨fun a' ha' => Option.some.inj ha' ▸ hvalid, hkind⟩
    obtain ⟨hcondition, hnotify⟩ := hkind.mp hrest'.2
    refine ⟨fun hallow => ?_, fun hne => ?_, ⟨htexts.1.1, htexts.1.2, htexts.2⟩,
      Bool.not_eq_true _ ▸ hhours, hrest'.1, hcondition, hnotify⟩
    · cases hd : s.delegateUserID with
      | none => rfl
      | some u =>
        refine absurd ?_ hdelegate
        rw [hd, hallow]
        rfl
    · by_contra hallow
      exact hkinds ⟨hne, .inl (Bool.not_eq_false _ ▸ hallow)⟩
  · intro h
    refine ⟨?_, ?_, ?_, ?_, ?_⟩
    · simp only [h.texts.1, h.texts.2.1, h.texts.2.2, Bool.or_self, Bool.false_eq_true,
        not_false_eq_true]
    · rintro ⟨hne, hd⟩
      have hallow := h.kinds hne
      rw [hallow, h.delegation hallow] at hd
      obtain hd | hd := hd
      · cases hd
      · cases hd
    · intro hd
      obtain ⟨u, hu, hallow⟩ := (Option.any_eq_true _ _).mp hd
      rw [Bool.not_true, Bool.or_false, Bool.not_eq_true'] at hallow
      rw [h.delegation hallow] at hu
      cases hu
    · rw [h.hours]
      rintro ⟨⟩
    · have hmatch := hkind.mpr ⟨h.condition, h.notify⟩
      cases ha : s.condAmount with
      | none =>
        rw [ha] at hmatch
        exact hmatch
      | some a =>
        rw [ha] at hmatch
        exact bind_eq_ok.mpr ⟨(), h.amount a ha, hmatch⟩

theorem validLane_iff {nested : Bool} {s : Step} {lane : List Step} :
    checkLane validateStepFields nested (s :: lane) = .ok () ↔
      ¬ (s.kind = .condition ∧ nested = true) ∧
      ¬ (s.kind ≠ .condition ∧ (s.thenLane.isEmpty = false ∨ s.elseLane.isEmpty = false)) ∧
      ValidFields s ∧ checkLane validateStepFields true s.thenLane = .ok () ∧
      checkLane validateStepFields true s.elseLane = .ok () ∧
      checkLane validateStepFields nested lane = .ok () := by
  rw [← validFields_iff, checkLane_eq_ok]

theorem readLane_eq (lane : List (ReadStep Numeric Uuid)) : readLane lane = lane.map ReadStep.step := by
  induction lane with
  | nil => rfl
  | cons s lane ih =>
    rw [readLane, ih]
    rfl

structure Leaf (s : Step) : Prop where
  kind : s.kind ≠ .condition
  fields : ValidFields s
  thenLane : s.thenLane = []
  elseLane : s.elseLane = []

structure Root (s : Step) : Prop where
  fields : ValidFields s
  lanes : ∀ m ∈ s.thenLane ++ s.elseLane, Leaf m
  leaf : s.kind ≠ .condition → Leaf s

theorem leaf_of_lane {lane : List Step} (h : checkLane validateStepFields true lane = .ok ()) :
    ∀ s ∈ lane, Leaf s := by
  induction lane with
  | nil => exact nofun
  | cons s lane ih =>
    obtain ⟨hdepth, hlanes, hfields, -, -, hlane⟩ := validLane_iff.mp h
    intro m hm
    obtain rfl | hm := List.mem_cons.mp hm
    · have hkind : m.kind ≠ .condition := fun hk => hdepth ⟨hk, rfl⟩
      have hempty : ¬ (m.thenLane.isEmpty = false ∨ m.elseLane.isEmpty = false) :=
        fun hor => hlanes ⟨hkind, hor⟩
      simp only [not_or, Bool.not_eq_false, List.isEmpty_iff] at hempty
      exact ⟨hkind, hfields, hempty.1, hempty.2⟩
    · exact ih hlane m hm

theorem validTree_iff {tree : List Step} : validateTree tree = .ok () ↔ ∀ s ∈ tree, Root s := by
  unfold validateTree
  constructor
  · intro h
    induction tree with
    | nil => exact nofun
    | cons s tree ih =>
      obtain ⟨-, hlanes, hfields, hthen, helse, hlane⟩ := validLane_iff.mp h
      intro m hm
      obtain rfl | hm := List.mem_cons.mp hm
      · refine ⟨hfields, fun m hm => ?_, fun hkind => ?_⟩
        · obtain hm | hm := List.mem_append.mp hm
          · exact leaf_of_lane hthen m hm
          · exact leaf_of_lane helse m hm
        · have hempty : ¬ (m.thenLane.isEmpty = false ∨ m.elseLane.isEmpty = false) :=
            fun hor => hlanes ⟨hkind, hor⟩
          simp only [not_or, Bool.not_eq_false, List.isEmpty_iff] at hempty
          exact ⟨hkind, hfields, hempty.1, hempty.2⟩
      · exact ih hlane m hm
  · have hleaves : ∀ lane : List Step, (∀ s ∈ lane, Leaf s) →
        checkLane validateStepFields true lane = .ok () := by
      intro lane
      induction lane with
      | nil => exact fun _ => rfl
      | cons s lane ih =>
        intro hall
        have hleaf := hall s List.mem_cons_self
        refine validLane_iff.mpr ⟨fun hc => hleaf.kind hc.1, ?_, hleaf.fields, ?_, ?_,
          ih fun m hm => hall m (List.mem_cons_of_mem _ hm)⟩
        · rw [hleaf.thenLane, hleaf.elseLane]
          rintro ⟨-, h | h⟩ <;> cases h
        · rw [hleaf.thenLane]
          rfl
        · rw [hleaf.elseLane]
          rfl
    intro hall
    induction tree with
    | nil => rfl
    | cons s tree ih =>
      have hroot := hall s List.mem_cons_self
      refine validLane_iff.mpr ⟨fun hc => Bool.false_ne_true hc.2, ?_, hroot.fields,
        hleaves _ fun m hm => hroot.lanes m (List.mem_append_left _ hm),
        hleaves _ fun m hm => hroot.lanes m (List.mem_append_right _ hm),
        ih fun m hm => hall m (List.mem_cons_of_mem _ hm)⟩
      rintro ⟨hkind, hor⟩
      rw [(hroot.leaf hkind).thenLane, (hroot.leaf hkind).elseLane] at hor
      obtain h | h := hor <;> cases h

theorem branchNode_shown {s : ReadStep Numeric Uuid} (h : Leaf s.step) :
    ∃ b, branchNode s = some b ∧ showNode (.branch b) = showStep s.fields ∧
      nodeFromStep s = some (.branch b) := by
  obtain ⟨id, f, thenLane, elseLane⟩ := s
  have hkind : f.kind ≠ .condition := h.kind
  have hdelegation : f.allowDelegation = false → f.delegateUserID = none := h.fields.delegation
  unfold branchNode nodeFromStep showStep branchNode
  dsimp only
  cases hk : f.kind with
  | approval =>
    refine ⟨_, rfl, ?_, rfl⟩
    unfold showNode
    dsimp only
    rw [deadline_slaFromHours]
    cases ha : f.allowDelegation with
    | false =>
      rw [hdelegation ha]
      rfl
    | true => rfl
  | notify => exact ⟨_, rfl, rfl, rfl⟩
  | autoapprove => exact ⟨_, rfl, rfl, rfl⟩
  | condition => exact absurd hk hkind

theorem branchNodes_shown {lane : List (ReadStep Numeric Uuid)} (h : ∀ s ∈ lane, Leaf s.step) :
    (branchNodes lane).map showNode = laneShown (readLane lane) := by
  unfold branchNodes laneShown
  rw [readLane_eq]
  induction lane with
  | nil => rfl
  | cons s lane ih =>
    have hleaf := h s List.mem_cons_self
    obtain ⟨b, hb, hshown, -⟩ := branchNode_shown hleaf
    have hrest := ih fun m hm => h m (List.mem_cons_of_mem _ hm)
    rw [List.filterMap_cons_some hb, List.map_cons, List.map_cons, List.map_cons,
      List.filter_cons_of_pos (by simp [hleaf.kind]), List.map_cons, hshown, hrest]
    cases s
    rfl

theorem number_eq (a : Option Numeric) : number a = (((parseTotal a).getD 0 : ℤ) : ℚ) / 100 := by
  cases a with
  | none => norm_num [number, parseTotal]
  | some v =>
    cases v with
    | nan => norm_num [number, parseTotal, Numeric.newFromString]
    | hundredths n => rfl

theorem evalCondition_eq {op : Option CondOp} (hop : op.isSome = true) (a t : Option Numeric) :
    Approval.evalCondition op a (parseTotal t) = evalCondition op (number a) (number t) := by
  obtain ⟨op, rfl⟩ := Option.isSome_iff_exists.mp hop
  have hlt : ∀ x y : ℤ, ((x : ℚ) / 100 < (y : ℚ) / 100) ↔ x < y := by
    intro x y
    rw [div_lt_div_iff_of_pos_right (by norm_num), Int.cast_lt]
  have hle : ∀ x y : ℤ, ((x : ℚ) / 100 ≤ (y : ℚ) / 100) ↔ x ≤ y := by
    intro x y
    rw [div_le_div_iff_of_pos_right (by norm_num), Int.cast_le]
  rw [number_eq, number_eq, Bool.eq_iff_iff]
  unfold Approval.evalCondition evalCondition
  cases op with
  | gt =>
    rw [if_pos rfl, decide_eq_true_iff, decide_eq_true_iff]
    exact (hlt _ _).symm
  | ge =>
    rw [if_neg nofun, if_pos rfl, decide_eq_true_iff, decide_eq_true_iff]
    exact (hle _ _).symm
  | lt =>
    rw [if_neg nofun, if_neg nofun, if_pos rfl, decide_eq_true_iff, decide_eq_true_iff]
    exact (hlt _ _).symm
  | le =>
    rw [if_neg nofun, if_neg nofun, if_neg nofun, decide_eq_true_iff, decide_eq_true_iff]
    exact (hle _ _).symm

theorem nodeFromStep_shown {s : ReadStep Numeric Uuid} (h : Root s.step) (t : Option Numeric) :
    ∃ n, nodeFromStep s = some n ∧ nodeShown (number t) n = stepShown (parseTotal t) s.step := by
  unfold stepShown
  by_cases hkind : s.step.kind = .condition
  · rw [if_pos hkind]
    have heval := evalCondition_eq (h.fields.condition hkind).1 s.step.condAmount t
    rw [heval]
    have hthen : s.step.thenLane = readLane s.thenLane := by cases s; rfl
    have helse : s.step.elseLane = readLane s.elseLane := by cases s; rfl
    have hlanes := h.lanes
    rw [hthen, helse, readLane_eq, readLane_eq] at hlanes
    have hleaf : ∀ m ∈ s.thenLane ++ s.elseLane, Leaf m.step := by
      intro m hm
      refine hlanes m.step ?_
      rw [← List.map_append]
      exact List.mem_map_of_mem hm
    obtain ⟨id, f, thenLane, elseLane⟩ := s
    have hkind' : f.kind = .condition := hkind
    unfold nodeFromStep
    dsimp only
    rw [hkind']
    refine ⟨_, rfl, ?_⟩
    unfold nodeShown
    dsimp only
    have hsame : ((ReadStep.mk id f thenLane elseLane).step.condOp,
        (ReadStep.mk id f thenLane elseLane).step.condAmount) = (f.condOp, f.condAmount) := rfl
    obtain ⟨hcondOp, hcondAmount⟩ := Prod.mk.inj hsame
    rw [hcondOp, hcondAmount]
    split
    · exact (branchNodes_shown fun m hm => hleaf m (List.mem_append_left _ hm)).trans
        (congrArg laneShown hthen.symm)
    · exact (branchNodes_shown fun m hm => hleaf m (List.mem_append_right _ hm)).trans
        (congrArg laneShown helse.symm)
  · rw [if_neg hkind]
    obtain ⟨b, -, hshown, hnode⟩ := branchNode_shown (h.leaf hkind)
    refine ⟨_, hnode, ?_⟩
    unfold nodeShown
    dsimp only
    rw [hshown]
    cases s
    rfl

theorem nodesFromSteps_shown {views : List (ReadStep Numeric Uuid)} (h : ∀ s ∈ readLane views, Root s)
    (t : Option Numeric) : (nodesFromSteps views).flatMap (nodeShown (number t)) =
      (readLane views).flatMap (stepShown (parseTotal t)) := by
  rw [readLane_eq] at h ⊢
  unfold nodesFromSteps
  induction views with
  | nil => rfl
  | cons s views ih =>
    obtain ⟨n, hn, hshown⟩ := nodeFromStep_shown (h s.step List.mem_cons_self) t
    rw [List.filterMap_cons_some hn, List.map_cons, List.flatMap_cons, List.flatMap_cons, hshown,
      ih fun m hm => h m (List.mem_cons_of_mem _ hm)]

/-! ### Saving the nodes back -/

theorem deadline_deadline (hours : Option ℤ) : deadline (deadline hours) = deadline hours := by
  unfold deadline
  rw [Option.filter_filter]
  simp only [Bool.and_self]

theorem any_deadline {hours : Option ℤ} {p : ℤ → Bool} (h : hours.any p = false) :
    (deadline hours).any p = false := by
  unfold deadline
  cases hours with
  | none => rfl
  | some n =>
    rw [Option.filter_some]
    split
    · exact h
    · rfl

theorem text_ne_empty (u : Uuid) : u.text ≠ "" := by
  intro heq
  have hread := parseUuid_text u
  have hempty : parseUuid "" = none := by rfl
  rw [heq, hempty] at hread
  cases hread

theorem optionHasNUL_getD {s : Option String} (h : optionHasNUL s = false) :
    optionHasNUL (some (s.getD "")) = false := by
  cases s with
  | none => rfl
  | some s => exact h

theorem blank_getD {s : Option String} (h : blank s = false) : blank (some (s.getD "")) = false := by
  cases s with
  | none => exact absurd h (by decide)
  | some s => exact h

theorem delegate_saved {allow : Bool} {u : Option Uuid} (h : allow = false → u = none) :
    readOptional readDelegate
      (if allow then (if allow then some ((u.map Uuid.text).getD "") else none).filter (· != "")
      else none) = .ok u := by
  cases allow with
  | false =>
    rw [h rfl]
    rfl
  | true =>
    rw [if_pos rfl, if_pos rfl]
    cases u with
    | none => rfl
    | some u =>
      have hkept : (some u.text).filter (· != "") = some u.text := by
        rw [Option.filter_some, if_pos (bne_iff_ne.mpr (text_ne_empty u))]
      have hread : readDelegate u.text = .ok u := by
        rw [readDelegate, parseUuid_text]
        rfl
      rw [Option.map_some, Option.getD_some, hkept, readOptional, hread]
      rfl

theorem branchInput_saved {s : ReadStep Numeric Uuid} (h : Leaf s.step) {b : BranchNode}
    (hb : branchNode s = some b) :
    ∃ m, readStep (branchInput b) = .ok m ∧ Leaf m ∧ showStep m.fields = showStep s.fields := by
  obtain ⟨id, f, thenLane, elseLane⟩ := s
  have hkind : f.kind ≠ .condition := h.kind
  have htexts := h.fields.texts
  unfold branchNode at hb
  dsimp only at hb
  cases hk : f.kind with
  | approval =>
    rw [hk] at hb
    obtain rfl := Option.some.inj hb
    have hdelegate := delegate_saved h.fields.delegation
    refine ⟨{ kind := .approval, workflowRoleKey := some (f.workflowRoleKey.getD ""),
              slaHours := deadline f.slaHours, allowDelegation := f.allowDelegation,
              delegateUserID := f.delegateUserID }, ?_, ⟨nofun, ?_, rfl, rfl⟩, ?_⟩
    · unfold branchInput
      dsimp only
      rw [readStep, deadline_slaFromHours]
      refine bind_eq_ok.mpr ⟨_, hdelegate, ?_⟩
      rfl
    · exact
        { delegation := h.fields.delegation
          kinds := fun hne => absurd rfl hne
          texts := ⟨optionHasNUL_getD htexts.1, rfl, rfl⟩
          hours := any_deadline h.fields.hours
          amount := nofun
          condition := nofun
          notify := nofun }
    · unfold showStep
      dsimp only [StepOf.fields]
      rw [hk, deadline_deadline]
      rfl
  | notify =>
    rw [hk] at hb
    obtain rfl := Option.some.inj hb
    obtain ⟨htarget, hchannel⟩ := h.fields.notify hk
    refine ⟨{ kind := .notify, notifyTarget := some (f.notifyTarget.getD ""),
              notifyChannel := some (f.notifyChannel.getD "") }, rfl, ⟨nofun, ?_, rfl, rfl⟩, ?_⟩
    · exact
        { delegation := fun _ => rfl
          kinds := fun _ => rfl
          texts := ⟨rfl, optionHasNUL_getD htexts.2.1, optionHasNUL_getD htexts.2.2⟩
          hours := rfl
          amount := nofun
          condition := nofun
          notify := fun _ => ⟨blank_getD htarget, blank_getD hchannel⟩ }
    · unfold showStep
      dsimp only [StepOf.fields]
      rw [hk]
      rfl
  | autoapprove =>
    rw [hk] at hb
    obtain rfl := Option.some.inj hb
    refine ⟨{ kind := .autoapprove }, rfl, ⟨nofun, ?_, rfl, rfl⟩, ?_⟩
    · exact
        { delegation := fun _ => rfl
          kinds := fun _ => rfl
          texts := ⟨rfl, rfl, rfl⟩
          hours := rfl
          amount := nofun
          condition := nofun
          notify := nofun }
    · unfold showStep
      dsimp only [StepOf.fields]
      rw [hk]
  | condition => exact absurd hk hkind

theorem branchNodes_saved {lane : List (ReadStep Numeric Uuid)} (h : ∀ s ∈ lane, Leaf s.step) :
    ∃ saved, readSteps (stepInputsFromNodes (branchNodes lane)) = .ok saved ∧
      (∀ m ∈ saved, Leaf m) ∧ laneShown saved = laneShown (readLane lane) := by
  unfold branchNodes
  rw [readLane_eq]
  induction lane with
  | nil => exact ⟨[], rfl, nofun, rfl⟩
  | cons s lane ih =>
    have hleaf := h s List.mem_cons_self
    obtain ⟨b, hb, -, -⟩ := branchNode_shown hleaf
    obtain ⟨m, hm, hmLeaf, hshown⟩ := branchInput_saved hleaf hb
    obtain ⟨saved, hsaved, hleaves, hlane⟩ := ih fun m hm => h m (List.mem_cons_of_mem _ hm)
    refine ⟨m :: saved, ?_, ?_, ?_⟩
    · rw [List.filterMap_cons_some hb, List.map_cons, stepInputsFromNodes, stepInput, readSteps, hm,
        hsaved]
      rfl
    · intro m' hm'
      obtain rfl | hm' := List.mem_cons.mp hm'
      · exact hmLeaf
      · exact hleaves m' hm'
    · unfold laneShown at hlane ⊢
      rw [List.map_cons, List.filter_cons_of_pos (by simp [hmLeaf.kind]),
        List.filter_cons_of_pos (by simp [hleaf.kind]), List.map_cons, List.map_cons, hlane, hshown]
      cases s
      rfl

theorem readAmount_number {a : Option Numeric} (hsome : a.isSome = true)
    (hvalid : ∀ v, a = some v → validateCondAmount v = .ok ()) :
    readOptional readAmount (some (number a)) = .ok a := by
  obtain ⟨v, rfl⟩ := Option.isSome_iff_exists.mp hsome
  cases v with
  | nan => cases hvalid _ rfl
  | hundredths n =>
    have hscaled : (n : ℚ) / 100 * 100 = n := div_mul_cancel₀ _ (by norm_num)
    have hread : readAmount ((n : ℚ) / 100) = .ok (.hundredths n) := by
      rw [readAmount, hscaled, if_pos (Rat.den_intCast n), Rat.num_intCast]
      rfl
    rw [number, readOptional, hread]
    rfl

theorem nodeFromStep_saved {s : ReadStep Numeric Uuid} (h : Root s.step) {n : WfNode}
    (hn : nodeFromStep s = some n) :
    ∃ m, readStep (stepInput n) = .ok m ∧ Root m ∧
      ∀ total, stepShown total m = stepShown total s.step := by
  by_cases hkind : s.step.kind = .condition
  · obtain ⟨hop, hamount⟩ := h.fields.condition hkind
    have hlanes := h.lanes
    have hread := readAmount_number hamount h.fields.amount
    have htexts := h.fields.texts
    have hvalid := h.fields.amount
    obtain ⟨id, f, thenLane, elseLane⟩ := s
    have hkind' : f.kind = .condition := hkind
    have hsame : (ReadStep.mk id f thenLane elseLane).step = f.step (readLane thenLane)
        (readLane elseLane) := rfl
    rw [hsame] at hlanes
    have hleaf : ∀ m ∈ thenLane ++ elseLane, Leaf m.step := by
      intro m hm
      refine hlanes m.step ?_
      change m.step ∈ readLane thenLane ++ readLane elseLane
      rw [readLane_eq, readLane_eq, ← List.map_append]
      exact List.mem_map_of_mem hm
    obtain ⟨thenSaved, hthen, hthenLeaf, hthenShown⟩ :=
      branchNodes_saved fun m hm => hleaf m (List.mem_append_left elseLane hm)
    obtain ⟨elseSaved, helse, helseLeaf, helseShown⟩ :=
      branchNodes_saved fun m hm => hleaf m (List.mem_append_right thenLane hm)
    unfold nodeFromStep at hn
    dsimp only at hn
    rw [hkind'] at hn
    obtain rfl := Option.some.inj hn
    refine ⟨{ kind := .condition, condOp := f.condOp, condAmount := f.condAmount,
              thenLane := thenSaved, elseLane := elseSaved }, ?_, ⟨?_, ?_, nofun⟩, ?_⟩
    · rw [stepInput, readStep]
      refine bind_eq_ok.mpr ⟨none, rfl, bind_eq_ok.mpr ⟨f.condAmount, hread, ?_⟩⟩
      exact bind_eq_ok.mpr ⟨_, hthen, bind_eq_ok.mpr ⟨_, helse, rfl⟩⟩
    · exact
        { delegation := fun _ => rfl
          kinds := fun _ => rfl
          texts := ⟨rfl, rfl, rfl⟩
          hours := rfl
          amount := hvalid
          condition := fun _ => ⟨hop, hamount⟩
          notify := nofun }
    · intro m hm
      obtain hm | hm := List.mem_append.mp hm
      · exact hthenLeaf m hm
      · exact helseLeaf m hm
    · intro total
      unfold stepShown
      rw [if_pos rfl, if_pos hkind]
      change laneShown (if Approval.evalCondition f.condOp f.condAmount total then thenSaved
        else elseSaved) = laneShown (if Approval.evalCondition f.condOp f.condAmount total then
          readLane thenLane else readLane elseLane)
      split
      · exact hthenShown
      · exact helseShown
  · obtain ⟨b, hb, -, hnode⟩ := branchNode_shown (h.leaf hkind)
    obtain rfl := Option.some.inj (hn.symm.trans hnode)
    obtain ⟨m, hm, hleaf, hshown⟩ := branchInput_saved (h.leaf hkind) hb
    have hempty : m.thenLane ++ m.elseLane = [] := by rw [hleaf.thenLane, hleaf.elseLane]; rfl
    refine ⟨m, hm, ⟨hleaf.fields, ?_, fun _ => hleaf⟩, fun total => ?_⟩
    · rw [hempty]
      exact nofun
    · unfold stepShown
      rw [if_neg hleaf.kind, if_neg hkind, hshown]
      cases s
      rfl

theorem nodesFromSteps_saved {views : List (ReadStep Numeric Uuid)} (h : ∀ s ∈ readLane views, Root s) :
    ∃ tree, savedTree (nodesFromSteps views) = .ok tree ∧ validateTree tree = .ok () ∧
      ∀ total, tree.flatMap (stepShown total) = (readLane views).flatMap (stepShown total) := by
  have hread : ∃ tree, readSteps (stepInputsFromNodes (nodesFromSteps views)) = .ok tree ∧
      (∀ m ∈ tree, Root m) ∧
      ∀ total, tree.flatMap (stepShown total) = (readLane views).flatMap (stepShown total) := by
    rw [readLane_eq] at h ⊢
    unfold nodesFromSteps
    induction views with
    | nil => exact ⟨[], rfl, nofun, fun _ => rfl⟩
    | cons s views ih =>
      have hroot := h s.step List.mem_cons_self
      obtain ⟨n, hn, -⟩ := nodeFromStep_shown hroot none
      obtain ⟨m, hm, hmRoot, hshown⟩ := nodeFromStep_saved hroot hn
      obtain ⟨tree, htree, hroots, hrest⟩ := ih fun m hm => h m (List.mem_cons_of_mem _ hm)
      refine ⟨m :: tree, ?_, ?_, fun total => ?_⟩
      · rw [List.filterMap_cons_some hn, stepInputsFromNodes, readSteps, hm, htree]
        rfl
      · intro m' hm'
        obtain rfl | hm' := List.mem_cons.mp hm'
        · exact hmRoot
        · exact hroots m' hm'
      · rw [List.map_cons, List.flatMap_cons, List.flatMap_cons, hshown, hrest]
  obtain ⟨tree, htree, hroots, hshown⟩ := hread
  have hvalid := validTree_iff.mpr hroots
  refine ⟨tree, ?_, hvalid, hshown⟩
  unfold savedTree
  exact bind_eq_ok.mpr ⟨tree, htree, bind_eq_ok.mpr ⟨(), hvalid, rfl⟩⟩

/-! ### The run -/

theorem pending_armed (tree : List Step) (total : Option Decimal) :
    (armedSteps tree total).any StoredStep.pendingApproval =
      (!(materialise tree total).auto &&
        ((materialise tree total).steps.map showRun).any Listed.isApproval) := by
  have hstep : ∀ (auto : Bool) (s : RunStep), (armStep auto s).pendingApproval =
      (!auto && (showRun s).isApproval) := by
    intro auto s
    unfold armStep StoredStep.pendingApproval armState showRun showStep
    cases hk : s.kind <;> cases auto <;> rfl
  have hall : ∀ (auto : Bool) (steps : List RunStep),
      (steps.map (armStep auto)).any StoredStep.pendingApproval =
        (!auto && (steps.map showRun).any Listed.isApproval) := by
    intro auto steps
    induction steps with
    | nil => exact (Bool.and_false _).symm
    | cons s steps ih =>
      rw [List.map_cons, List.map_cons, List.any_cons, List.any_cons, ih, hstep, Bool.and_or_distrib_left]
  exact hall _ _

/-- At the total, the simulator lists what the engine materialises, and a run armed with it is
closed where nothing is left to approve. -/
structure Predicts (nodes : List WfNode) (tree : List Step) (t : Option Numeric) : Prop where
  steps : (simulate ⟨nodes⟩ (number t)).steps.map (fun s => showNode s.node) =
    (materialise tree (parseTotal t)).steps.map showRun
  auto : (simulate ⟨nodes⟩ (number t)).auto = (materialise tree (parseTotal t)).auto
  closed : ∀ versions trees f i fp now r, armRun versions trees f i fp now = some r →
    trees r.policyVersionID = tree → f.total = t →
      (r.state = .approved ↔ (simulate ⟨nodes⟩ (number t)).auto = true ∨
        ∀ s ∈ (simulate ⟨nodes⟩ (number t)).steps, (showNode s.node).isApproval = false)

theorem predicts {views : List (ReadStep Numeric Uuid)} (h : ∀ s ∈ readLane views, Root s)
    (t : Option Numeric) :
    Predicts (nodesFromSteps views) (readLane views) t := by
  obtain ⟨hsim, hsimAuto⟩ := simulate_shown (nodesFromSteps views) (number t)
  obtain ⟨hrun, hrunAuto⟩ := materialise_shown (readLane views) (parseTotal t)
  rw [nodesFromSteps_shown h t] at hsim hsimAuto
  have hsteps := hsim.trans hrun.symm
  have hauto := hsimAuto.trans hrunAuto.symm
  refine ⟨hsteps, hauto, fun versions trees f i fp now r hr htree htotal => ?_⟩
  obtain ⟨-, -, -, -, v, -, hversion, harmed, hstate⟩ := armRun_eq_some hr
  rw [hversion] at htree
  rw [htree, htotal] at harmed
  have hpending := pending_armed (readLane views) (parseTotal t)
  rw [← harmed, ← hsteps, ← hauto] at hpending
  rw [hstate, hpending]
  have hnone : (((simulate ⟨nodesFromSteps views⟩ (number t)).steps.map
      (fun s => showNode s.node)).any Listed.isApproval = false ↔
      ∀ s ∈ (simulate ⟨nodesFromSteps views⟩ (number t)).steps, (showNode s.node).isApproval = false) := by
    simp only [List.any_map, List.any_eq_false, Function.comp_apply, Bool.not_eq_true]
  rw [← hnone]
  cases (simulate ⟨nodesFromSteps views⟩ (number t)).auto with
  | true => simp
  | false =>
    cases ((simulate ⟨nodesFromSteps views⟩ (number t)).steps.map
      (fun s => showNode s.node)).any Listed.isApproval with
    | true => simp
    | false => simp

/-- The simulator predicts the run of a valid tree that was stored and read back, and saving its
nodes as they are keeps both results at every total. -/
theorem simulation_predicts_run (mint : ℕ → Uuid) (d : Directory) (table : StepTable)
    (versionID : Uuid) (tree : List Step) (hvalid : validateTree tree = .ok ())
    (hmembers : ∀ f ∈ laneFields tree, delegateMember d f = true)
    (hids : (table.map (fun r => r.2.id) ++ (flattenSteps mint tree).map StepRow.id).Nodup)
    (hslots : (table.map slot).Nodup) (hcleared : ∀ r ∈ table, r.1 ≠ versionID) :
    ∃ stored, insertPolicySteps .ok d table versionID (flattenSteps mint tree) = .ok stored ∧
      ∃ depth, ∀ fuel versionIDs result, depth ≤ fuel → versionID ∈ versionIDs →
        ReadAs stored versionIDs result →
        ∃ views, (versionID, some views) ∈ readPolicyTrees fuel versionIDs result ∧
          (∀ t, Predicts (nodesFromSteps views) tree t) ∧
          ∃ saved, savedTree (nodesFromSteps views) = .ok saved ∧ validateTree saved = .ok () ∧
            ∀ t, ((materialise saved (parseTotal t)).steps.map showRun =
                (materialise tree (parseTotal t)).steps.map showRun ∧
              (materialise saved (parseTotal t)).auto = (materialise tree (parseTotal t)).auto) ∧
              ∀ views', readLane views' = saved → Predicts (nodesFromSteps views') saved t := by
  have hinsert : insertPolicySteps .ok d table versionID (flattenSteps mint tree) = _ :=
    (insertPolicySteps_eq (fun _ _ => rfl) (fun _ => rfl) (List.map_id _) hvalid hids hslots
      hcleared).1
  rw [List.all_eq_true.mpr hmembers] at hinsert
  obtain ⟨depth, hread⟩ := stored_reads_back hids.of_append_right hcleared
  refine ⟨_, hinsert, depth, fun fuel versionIDs result hfuel hmem hresult => ?_⟩
  obtain ⟨views, hviews, rfl⟩ := hread fuel versionIDs result hfuel hmem hresult
  have hroots := validTree_iff.mp hvalid
  obtain ⟨saved, hsaved, hsavedValid, hshown⟩ := nodesFromSteps_saved hroots
  refine ⟨views, hviews, predicts hroots, saved, hsaved, hsavedValid, fun t => ⟨⟨?_, ?_⟩, ?_⟩⟩
  · rw [(materialise_shown saved _).1, (materialise_shown (readLane views) _).1, hshown]
  · rw [(materialise_shown saved _).2, (materialise_shown (readLane views) _).2, hshown]
  · rintro views' rfl
    exact predicts (validTree_iff.mp hsavedValid) t

theorem simulation_predicts_run_sample :
    ∃ stored, insertPolicySteps .ok oneMember [] 7
        (flattenSteps (BitVec.ofNat 128) Approval.twoLanes) = .ok stored ∧
      ∃ depth, ∀ fuel versionIDs result, depth ≤ fuel → (7 : Uuid) ∈ versionIDs →
        ReadAs stored versionIDs result →
        ∃ views, (7, some views) ∈ readPolicyTrees fuel versionIDs result ∧
          (∀ t, Predicts (nodesFromSteps views) Approval.twoLanes t) ∧
          ∃ saved, savedTree (nodesFromSteps views) = .ok saved ∧ validateTree saved = .ok () ∧
            ∀ t, ((materialise saved (parseTotal t)).steps.map showRun =
                (materialise Approval.twoLanes (parseTotal t)).steps.map showRun ∧
              (materialise saved (parseTotal t)).auto =
                (materialise Approval.twoLanes (parseTotal t)).auto) ∧
              ∀ views', readLane views' = saved → Predicts (nodesFromSteps views') saved t :=
  simulation_predicts_run (BitVec.ofNat 128) oneMember [] 7 Approval.twoLanes (by decide +kernel)
    (by decide +kernel) (by decide +kernel) List.nodup_nil (fun _ h => absurd h List.not_mem_nil)

def roleOf : WfNode → Option String
  | .branch (.approval _ role _ _ _) => some role
  | _ => none

def strayRole : List Step :=
  [{ kind := .notify, workflowRoleKey := some "cfo", notifyTarget := some "Finance",
     notifyChannel := some "email" }]

theorem stray_role_not_shown : validateTree strayRole = .ok () ∧
    ∃ stored views saved,
      insertPolicySteps .ok oneMember [] 7 (flattenSteps (BitVec.ofNat 128) strayRole) = .ok stored ∧
      readPolicyTrees 2 [7] stored = [(7, some views)] ∧
      (materialise (readLane views) none).steps.map RunStep.workflowRoleKey = [some "cfo"] ∧
      (simulate ⟨nodesFromSteps views⟩ 0).steps.map (fun s => roleOf s.node) = [none] ∧
      savedTree (nodesFromSteps views) = .ok saved ∧
      (materialise saved none).steps.map RunStep.workflowRoleKey = [none] :=
  ⟨by decide +kernel, _, _, _, rfl, rfl, rfl, rfl, rfl, rfl⟩

end InvoiceOs.Builder
