import InvoiceOs.Approval.Policy
import Mathlib.Data.List.Basic
import Mathlib.Data.Rat.Defs

/-! The workflow builder's policy: its nodes in their lanes, and the reducers that edit them. A
policy's other fields ride along untouched. -/

namespace InvoiceOs.Builder

open Approval (CondOp)

inductive CondField where
  | amount
  deriving DecidableEq

/-- A node that stands in any lane. `sla` is whole hours as text, `"0"` for no deadline; a
`delegateTo` of `none` is an absent key. -/
inductive BranchNode where
  | approval (id role sla : String) (delegate : Bool) (delegateTo : Option String)
  | notify (id target channel : String)
  | autoapprove (id : String)
  deriving DecidableEq

/-- The reducers cast what they put in a branch lane, so the lanes hold any node here; an operator
of `none` is a null that was cast. -/
inductive WfNode where
  | branch (n : BranchNode)
  | condition (id : String) (field : CondField) (op : Option CondOp) (value : ℚ)
      (thenLane elseLane : List WfNode)

structure Policy where
  nodes : List WfNode

def BranchNode.id : BranchNode → String
  | .approval id _ _ _ _ => id
  | .notify id _ _ => id
  | .autoapprove id => id

def WfNode.id : WfNode → String
  | .branch n => n.id
  | .condition id _ _ _ _ _ => id

def WfNode.isCondition : WfNode → Bool
  | .branch _ => false
  | .condition _ _ _ _ _ _ => true

def WfNode.lane (otherwise : Bool) : WfNode → List WfNode
  | .branch _ => []
  | .condition _ _ _ _ thenLane elseLane => if otherwise then elseLane else thenLane

def WfNode.setLane (otherwise : Bool) (next : List WfNode) : WfNode → WfNode
  | .branch n => .branch n
  | .condition id field op value thenLane elseLane =>
    if otherwise then .condition id field op value thenLane next
    else .condition id field op value next elseLane

/-! ### Lanes -/

def branchKey (id : String) (otherwise : Bool) : String :=
  id ++ if otherwise then ":else" else ":then"

/-- The first two parts of `laneKey.split(':')`, an absent one empty. -/
def laneParts (laneKey : String) : String × String :=
  let rest := (laneKey.toList.dropWhile (· != ':')).drop 1
  (String.ofList (laneKey.toList.takeWhile (· != ':')), String.ofList (rest.takeWhile (· != ':')))

/-- A key whose node is missing, or no condition, falls back to the root lane. -/
def getLane (policy : Policy) (laneKey : String) : List WfNode :=
  if laneKey = "root" then policy.nodes
  else
    match policy.nodes.find? fun n => n.id == (laneParts laneKey).1 with
    | none => policy.nodes
    | some n =>
      if n.isCondition then n.lane ((laneParts laneKey).2 == "else") else policy.nodes

structure Found where
  node : WfNode
  laneKey : String
  index : ℕ

def findIn (laneKey : String) (arr : List WfNode) (id : String) : Option Found :=
  (arr.findIdx? fun n => n.id == id).bind fun i =>
    arr[i]?.map fun n => { node := n, laneKey := laneKey, index := i }

def findNode (policy : Policy) (id : String) : Option Found :=
  (findIn "root" policy.nodes id).or (policy.nodes.findSome? fun n =>
    if n.isCondition then
      (findIn (branchKey n.id false) (n.lane false) id).or
        (findIn (branchKey n.id true) (n.lane true) id)
    else none)

def canDrop (n : WfNode) (laneKey : String) : Bool := !(n.isCondition && laneKey != "root")

def withLane (policy : Policy) (laneKey : String) (next : List WfNode) : Policy :=
  if laneKey = "root" then { nodes := next }
  else { nodes := policy.nodes.map fun n =>
    if n.id != (laneParts laneKey).1 || !n.isCondition then n
    else n.setLane ((laneParts laneKey).2 == "else") next }

/-- `arr.splice(index, remove, insert)` on a copy. -/
def spliced (arr : List WfNode) (index remove : ℕ) (insert : Option WfNode) : List WfNode :=
  arr.take index ++ insert.toList ++ arr.drop (index + remove)

/-! ### Reducers -/

def insertNode (policy : Policy) (laneKey : String) (index : ℕ) (node : WfNode) : Policy :=
  if !canDrop node laneKey then policy
  else withLane policy laneKey (spliced (getLane policy laneKey) index 0 (some node))

def deleteNode (policy : Policy) (id : String) : Policy :=
  match findNode policy id with
  | none => policy
  | some found =>
    withLane policy found.laneKey (spliced (getLane policy found.laneKey) found.index 1 none)

def moveNode (policy : Policy) (id laneKey : String) (index : ℕ) : Policy :=
  match findNode policy id with
  | none => policy
  | some found =>
    if !canDrop found.node laneKey then policy
    else
      let removed :=
        withLane policy found.laneKey (spliced (getLane policy found.laneKey) found.index 1 none)
      let t := if laneKey = found.laneKey ∧ found.index < index then index - 1 else index
      withLane removed laneKey (spliced (getLane removed laneKey) t 0 (some found.node))

structure NodePatch where
  role : Option String := none
  sla : Option String := none
  delegate : Option Bool := none
  delegateTo : Option (Option String) := none
  target : Option String := none
  channel : Option String := none
  field : Option CondField := none
  op : Option (Option CondOp) := none
  value : Option ℚ := none
  thenLane : Option (List BranchNode) := none
  elseLane : Option (List BranchNode) := none

def WfNode.merge (patch : NodePatch) : WfNode → WfNode
  | .branch (.approval id role sla delegate delegateTo) =>
    .branch (.approval id (patch.role.getD role) (patch.sla.getD sla)
      (patch.delegate.getD delegate) (patch.delegateTo.getD delegateTo))
  | .branch (.notify id target channel) =>
    .branch (.notify id (patch.target.getD target) (patch.channel.getD channel))
  | .branch (.autoapprove id) => .branch (.autoapprove id)
  | .condition id field op value thenLane elseLane =>
    .condition id (patch.field.getD field) (patch.op.getD op) (patch.value.getD value)
      ((patch.thenLane.map (·.map .branch)).getD thenLane)
      ((patch.elseLane.map (·.map .branch)).getD elseLane)

/-- Past the end of the lane that is written the patch alone goes in, and that is no node: the
result is no policy. -/
def updateNode (policy : Policy) (id : String) (patch : NodePatch) : Option Policy :=
  match findNode policy id with
  | none => some policy
  | some found =>
    let lane := getLane policy found.laneKey
    match lane[found.index]? with
    | some node =>
      some (withLane policy found.laneKey (spliced lane found.index 1 (some (node.merge patch))))
    | none =>
      if policy.nodes.any fun n => n.id == (laneParts found.laneKey).1 && n.isCondition then none
      else some policy

end InvoiceOs.Builder
