import InvoiceOs.Approval.StepRows

/-! A tree as a request sends it and as a read shows it: the amount and the delegate are texts, which
the columns of `approval_policy_steps` read and print. -/

namespace InvoiceOs.Approval

abbrev StepInput := StepOf String String

/-- What reads the texts: the two packages, then the casts to the columns' types. -/
structure TextReaders where
  newFromString : String → Option ParsedDecimal
  uuidParse : String → Option Uuid
  numericIn : String → Option Numeric
  uuidIn : String → Option Uuid

/-- Two readers of a numeral read one number, and the cast takes a uuid's canonical text in either
case. -/
structure TextReaders.Agree (x : TextReaders) : Prop where
  amount : ∀ s d v, x.newFromString s = some d → -2 ≤ d.exponent → x.numericIn s = some v →
    v = .hundredths d.hundredths
  person : ∀ s u, x.uuidParse s = some u → u.text = toLower s → x.uuidIn s = some u

namespace StepInput

section
variable (x : TextReaders)

/-- The column takes neither U+2212 for a minus sign nor an exponent out of proportion. -/
def validateCondAmount (amount : String) : Except Err Unit :=
  match x.newFromString amount with
  | none => throw .validation
  | some d => do
    if (Char.ofNat 0x2212) ∈ amount.toList then
      throw .validation
    if d.exponent < -2 then
      throw .validation
    if d.exponent > 12 ∨ d.hundredths.natAbs ≥ 10 ^ 14 then
      throw .validation

def delegateSpelled (id : String) : Bool :=
  !hasNUL id && (x.uuidParse id).any fun u => u.text == toLower id

def validateStepFields (s : StepInput) : Except Err Unit :=
  checkStepFields (validateCondAmount x) (delegateSpelled x) s

def validateTree (tree : List StepInput) : Except Err Unit :=
  checkLane (validateStepFields x) false tree

def castColumn {α : Type} (read : String → Option α) : Option String → Except Err (Option α)
  | none => pure none
  | some s =>
    match read s with
    | none => throw .invalidText
    | some v => pure (some v)

/-- `s.cond_amount::numeric` and `s.delegate::uuid`. -/
def castRow (r : StepRow String String) : Except Err (StepRow Numeric Uuid) := do
  let condAmount ← castColumn x.numericIn r.fields.condAmount
  let delegateUserID ← castColumn x.uuidIn r.fields.delegateUserID
  return {
    id := r.id
    parentStepID := r.parentStepID
    branch := r.branch
    ord := r.ord
    fields := {
      kind := r.fields.kind
      workflowRoleKey := r.fields.workflowRoleKey
      slaHours := r.fields.slaHours
      condOp := r.fields.condOp
      condAmount := condAmount
      notifyTarget := r.fields.notifyTarget
      notifyChannel := r.fields.notifyChannel
      allowDelegation := r.fields.allowDelegation
      delegateUserID := delegateUserID } }

end

end StepInput

/-! ### The texts a read shows -/

section
variable {Amount Person Amount' Person' : Type} (amount : Amount → Amount')
  (person : Person → Person')

def StepFields.map (f : StepFields Amount Person) : StepFields Amount' Person' where
  kind := f.kind
  workflowRoleKey := f.workflowRoleKey
  slaHours := f.slaHours
  condOp := f.condOp
  condAmount := f.condAmount.map amount
  notifyTarget := f.notifyTarget
  notifyChannel := f.notifyChannel
  allowDelegation := f.allowDelegation
  delegateUserID := f.delegateUserID.map person

def StepRow.map (r : StepRow Amount Person) : StepRow Amount' Person' where
  id := r.id
  parentStepID := r.parentStepID
  branch := r.branch
  ord := r.ord
  fields := r.fields.map amount person

mutual

def StepOf.map : StepOf Amount Person → StepOf Amount' Person'
  | ⟨kind, roleKey, sla, op, a, target, channel, allow, delegate, thenLane, elseLane⟩ =>
    ⟨kind, roleKey, sla, op, a.map amount, target, channel, allow, delegate.map person,
      mapLane thenLane, mapLane elseLane⟩

def mapLane : List (StepOf Amount Person) → List (StepOf Amount' Person')
  | [] => []
  | s :: lane => s.map :: mapLane lane

end

end

/-- The query's columns: `cond_amount::text` and `delegate_user_id::text`. -/
def showRows (result : StepTable) : List (Uuid × StepRow String String) :=
  result.map fun r => (r.1, r.2.map Numeric.text Uuid.text)

def columnAmount (x : TextReaders) (amount : String) : String :=
  match x.newFromString amount with
  | some d => (Numeric.hundredths d.hundredths).text
  | none => amount

end InvoiceOs.Approval
