import InvoiceOs.Numeric
import InvoiceOs.Errors

/-! Approval policies as the engine reads them: step trees and scopes. -/

namespace InvoiceOs

inductive DocumentType where
  | commercialInvoice
  | creditNote
  | debitNote
  deriving DecidableEq, Repr

namespace Approval

inductive StepKind where
  | approval
  | condition
  | notify
  | autoapprove
  deriving DecidableEq, Repr

inductive CondOp where
  | gt
  | ge
  | lt
  | le
  deriving DecidableEq, Repr

/-- One node of a version's tree, over the forms an amount and a person's id take. Only a condition
has lanes. -/
structure StepOf (Amount Person : Type) where
  kind : StepKind
  workflowRoleKey : Option String := none
  slaHours : Option ℤ := none
  condOp : Option CondOp := none
  condAmount : Option Amount := none
  notifyTarget : Option String := none
  notifyChannel : Option String := none
  allowDelegation : Bool := false
  delegateUserID : Option Person := none
  thenLane : List (StepOf Amount Person) := []
  elseLane : List (StepOf Amount Person) := []

abbrev Step := StepOf Numeric Uuid

/-- A version's scope columns. An empty list or a NULL currency is an unset scope. -/
structure Scopes where
  documentTypes : List DocumentType := []
  entityIDs : List Uuid := []
  roleIDs : List Uuid := []
  bandLower : Option Numeric := none
  bandUpper : Option Numeric := none
  bandCurrency : Option String := none
  deriving DecidableEq

end Approval
end InvoiceOs
