import InvoiceOs.Approval.StepRows
import InvoiceOs.Builder.Nodes
import InvoiceOs.Lib.Framing
import Mathlib.Data.Rat.Lemmas

/-! The policy wire and the scenario simulator: a stored tree as the builder's nodes, the walk that
simulates a scenario over them, and the nodes sent back to the server. Amounts are exact. -/

namespace InvoiceOs.Builder

open Approval (StepKind CondOp Step ReadStep validateTree)

/-! ### The simulator -/

/-- A missing operator falls through to `<=`. -/
def evalCondition (op : Option CondOp) (value amount : ℚ) : Bool :=
  if op = some .gt then decide (amount > value)
  else if op = some .ge then decide (amount ≥ value)
  else if op = some .lt then decide (amount < value)
  else decide (amount ≤ value)

structure SimStep where
  node : WfNode
  viaCondition : Bool

structure SimResult where
  steps : List SimStep := []
  auto : Bool := false

def WfNode.isAuto : WfNode → Bool
  | .branch (.autoapprove _) => true
  | _ => false

/-- `auto` is sticky; the walk goes on. -/
def SimResult.take (r : SimResult) (list : List WfNode) (viaCondition : Bool) : SimResult :=
  list.foldl (fun r n =>
    { steps := r.steps ++ [{ node := n, viaCondition := viaCondition }]
      auto := r.auto || n.isAuto }) r

def simulate (policy : Policy) (amount : ℚ) : SimResult :=
  policy.nodes.foldl (fun r n =>
    match n with
    | .condition _ _ op value thenLane elseLane =>
      r.take (if evalCondition op value amount then thenLane else elseLane) true
    | .branch b => r.take [.branch b] false) {}

/-! ### From the wire -/

/-- `Number` of a column's text; the `NaN` that a condition reads as zero is zero here. -/
def number : Option Numeric → ℚ
  | some (.hundredths n) => n / 100
  | some .nan => 0
  | none => 0

def wholeText (n : ℤ) : String :=
  String.ofList ((if n < 0 then ['-'] else []) ++ Lib.digits n.natAbs)

def readWhole (s : String) : Option ℤ :=
  match s.toList with
  | '-' :: ds => if ds.all Char.isDigit then some (-(Nat.ofDigitChars 10 ds 0)) else none
  | ds => if ds.all Char.isDigit then some (Nat.ofDigitChars 10 ds 0) else none

def slaFromHours : Option ℤ → String
  | none => "0"
  | some hours => wholeText hours

def hoursFromSla (sla : String) : Option ℤ := if sla = "0" then none else readWhole sla

def branchNode (s : ReadStep Numeric Uuid) : Option BranchNode :=
  match s.fields.kind with
  | .approval =>
    some (.approval s.id.text (s.fields.workflowRoleKey.getD "") (slaFromHours s.fields.slaHours)
      s.fields.allowDelegation
      (if s.fields.allowDelegation then some ((s.fields.delegateUserID.map Uuid.text).getD "")
      else none))
  | .notify =>
    some (.notify s.id.text (s.fields.notifyTarget.getD "") (s.fields.notifyChannel.getD ""))
  | .autoapprove => some (.autoapprove s.id.text)
  | .condition => none

def branchNodes (steps : List (ReadStep Numeric Uuid)) : List WfNode :=
  (steps.filterMap branchNode).map .branch

def nodeFromStep (s : ReadStep Numeric Uuid) : Option WfNode :=
  match s.fields.kind with
  | .condition =>
    some (.condition s.id.text .amount s.fields.condOp (number s.fields.condAmount)
      (branchNodes s.thenLane) (branchNodes s.elseLane))
  | _ => (branchNode s).map .branch

def nodesFromSteps (steps : List (ReadStep Numeric Uuid)) : List WfNode := steps.filterMap nodeFromStep

/-! ### Back to the wire -/

/-- One step of a PUT. `condAmount` is the number whose text is sent. -/
structure StepInput where
  kind : StepKind
  workflowRoleKey : Option String := none
  slaHours : Option ℤ := none
  allowDelegation : Bool := false
  delegateUserID : Option String := none
  condOp : Option CondOp := none
  condAmount : Option ℚ := none
  notifyTarget : Option String := none
  notifyChannel : Option String := none
  thenLane : List StepInput := []
  elseLane : List StepInput := []

def branchInput : BranchNode → StepInput
  | .approval _ role sla delegate delegateTo =>
    { kind := .approval
      workflowRoleKey := some role
      slaHours := hoursFromSla sla
      allowDelegation := delegate
      delegateUserID := if delegate then delegateTo.filter (· != "") else none }
  | .notify _ target channel =>
    { kind := .notify, notifyTarget := some target, notifyChannel := some channel }
  | .autoapprove _ => { kind := .autoapprove }

mutual

def stepInput : WfNode → StepInput
  | .branch n => branchInput n
  | .condition _ _ op value thenLane elseLane =>
    { kind := .condition
      condOp := op
      condAmount := some value
      thenLane := stepInputsFromNodes thenLane
      elseLane := stepInputsFromNodes elseLane }

def stepInputsFromNodes : List WfNode → List StepInput
  | [] => []
  | n :: nodes => stepInput n :: stepInputsFromNodes nodes

end

/-! ### The server's reading of a PUT -/

def hexValue (c : Char) : Option ℕ :=
  if c.isDigit then some (c.toNat - 48)
  else if 'a' ≤ c ∧ c ≤ 'f' then some (c.toNat - 87)
  else if 'A' ≤ c ∧ c ≤ 'F' then some (c.toNat - 55)
  else none

def readHex : ℕ → ℕ → List Char → Option (ℕ × List Char)
  | 0, v, rest => some (v, rest)
  | _ + 1, _, [] => none
  | n + 1, v, c :: rest => (hexValue c).bind fun d => readHex n (v * 16 + d) rest

def readDash : List Char → Option (List Char)
  | '-' :: rest => some rest
  | _ => none

def parseUuid (s : String) : Option Uuid := do
  let (v, rest) ← readHex 8 0 s.toList
  let rest ← readDash rest
  let (v, rest) ← readHex 4 v rest
  let rest ← readDash rest
  let (v, rest) ← readHex 4 v rest
  let rest ← readDash rest
  let (v, rest) ← readHex 4 v rest
  let rest ← readDash rest
  let (v, rest) ← readHex 12 v rest
  if rest = [] then some (BitVec.ofNat 128 v) else none

def readAmount (q : ℚ) : Except Err Numeric :=
  if (q * 100).den = 1 then pure (.hundredths (q * 100).num) else throw .validation

def readOptional {α β : Type} (read : α → Except Err β) : Option α → Except Err (Option β)
  | none => pure none
  | some a => do
    let b ← read a
    pure (some b)

def readDelegate (s : String) : Except Err Uuid :=
  match parseUuid s with
  | some u => pure u
  | none => throw .validation

mutual

/-- The typed values of a step, or the refusal `validateStepFields` gives its texts. -/
def readStep : StepInput → Except Err Step
  | ⟨kind, roleKey, sla, allow, delegate, op, amount, target, channel, thenLane, elseLane⟩ => do
    let delegate ← readOptional readDelegate delegate
    let amount ← readOptional readAmount amount
    let thenLane ← readSteps thenLane
    let elseLane ← readSteps elseLane
    pure {
      kind := kind
      workflowRoleKey := roleKey
      slaHours := sla
      condOp := op
      condAmount := amount
      notifyTarget := target
      notifyChannel := channel
      allowDelegation := allow
      delegateUserID := delegate
      thenLane := thenLane
      elseLane := elseLane }

def readSteps : List StepInput → Except Err (List Step)
  | [] => pure []
  | s :: lane => do
    let s ← readStep s
    let lane ← readSteps lane
    pure (s :: lane)

end

def savedTree (nodes : List WfNode) : Except Err (List Step) := do
  let tree ← readSteps (stepInputsFromNodes nodes)
  validateTree tree
  pure tree

end InvoiceOs.Builder
