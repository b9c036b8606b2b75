import InvoiceOs.Lib.Least
import InvoiceOs.Lib.Table
import InvoiceOs.Validation.Engine

/-! The versions of the rule set, the one in force on a date, and the loading of it. -/

namespace InvoiceOs.RuleDesk

open Lib Validation

structure RuleRow where
  type : RuleType
  target : String
  params : Json
  severity : Severity
  guard : Option String
  message : String
  scope : String
  enabled : Bool

def RuleRow.rule (key : String) (r : RuleRow) : Rule :=
  { key, type := r.type, target := r.target, params := some r.params, severity := r.severity,
    guard := r.guard, message := r.message, scope := r.scope, enabled := r.enabled }

inductive Standing where
  | draft
  | sealed (effectiveFrom : Option ℤ)
  deriving DecidableEq

structure Version where
  number : ℤ
  standing : Standing
  rules : Table String RuleRow
  notes : String

abbrev Versions := Table String Version

/-- What the desk rests on that is not this package's: the collation, JSON, CEL's compiler and
what the rules are evaluated with. -/
structure Externals where
  keyLe : String → String → Bool
  unmarshal : String → Option Json
  compileCEL : String → Bool
  backend : Backend

/-! ### The version in force -/

structure Dated where
  id : String
  effectiveFrom : ℤ
  version : ℤ
  deriving DecidableEq

def datedRow (e : String × Version) : Option Dated :=
  match e.2.standing with
  | .sealed (some start) => some ⟨e.1, start, e.2.number⟩
  | _ => none

def dated (vs : Versions) : List Dated := vs.rows.filterMap datedRow

def started (d : ℤ) (v : Dated) : Option ℤ := if v.effectiveFrom ≤ d then some v.effectiveFrom else none

def forOrder (d : ℤ) : Dated → Dated → Bool :=
  thenBy (descending (comparing (fun v => decide (v.effectiveFrom ≤ d)) fun k l => k ≤ l)) <|
  thenBy (descending (comparing (started d) (nullsLast fun k l => k ≤ l))) <|
  thenBy (comparing Dated.effectiveFrom fun k l => k ≤ l) <|
  descending (comparing Dated.version fun k l => k ≤ l)

def ruleSetVersionFor (vs : Versions) (d : ℤ) : Option String :=
  (leastBy (forOrder d) (dated vs)).map Dated.id

def versionFor (vs : Versions) (d : ℤ) : Option (String × Version) :=
  (ruleSetVersionFor vs d).bind fun id => (vs.get? id).map fun v => (id, v)

/-! ### Loading -/

inductive LoadError where
  | noActiveRuleSet
  | emptyRuleSet (version : ℤ) (id : String)
  | codeListMissing (list : String)
  deriving DecidableEq

def LoadError.text : LoadError → String
  | .noActiveRuleSet => "validation: no active rule-set"
  | .emptyRuleSet version id =>
    "validation: no active rule-set: version in force carries no readable rules (version "
      ++ version.repr ++ ", id " ++ id ++ ")"
  | .codeListMissing list => "validation: no active rule-set: code list missing: " ++ list

def listName (r : Rule) : Option String :=
  if r.type ≠ .enum || !r.enabled || r.scope ≠ "document" then none
  else
    match decodeParams r.params >>= fun entries => stringPtr entries "list" with
    | .ok (some list) => if list = "" then none else some list
    | _ => none

section
variable (lists : String → Option (List String))

def attachCodeList (r : Rule) : Except LoadError Rule :=
  match listName r with
  | none => .ok r
  | some list =>
    match lists list with
    | none => .error (.codeListMissing list)
    | some codes => .ok { r with codes }

def attachCodeLists (rules : List Rule) : Except LoadError (List Rule) :=
  rules.mapM (attachCodeList lists)

variable (x : Externals) (vs : Versions)

def rulesByKey (v : Version) : List Rule :=
  (v.rules.rows.map fun e => e.2.rule e.1).mergeSort (comparing Rule.key x.keyLe)

def loadRuleSetByID (id : String) : Except LoadError RuleSet :=
  match vs.get? id with
  | none => .error .noActiveRuleSet
  | some v =>
    if rulesByKey x v = [] then .error (.emptyRuleSet v.number id)
    else (attachCodeLists lists (rulesByKey x v)).map fun rules => ⟨id, v.number, rules⟩

def idForDate (d : ℤ) : Except LoadError String :=
  match ruleSetVersionFor vs d with
  | none => .error .noActiveRuleSet
  | some id => .ok id

/-- The set of each date, in their order. -/
def loadForDates (dates : List ℤ) : Except LoadError (List RuleSet) := do
  let ids ← dates.mapM (idForDate vs)
  ids.mapM (loadRuleSetByID lists x vs)

end

/-! ### The list of versions -/

inductive State where
  | draft
  | scheduled
  | inForce
  | superseded
  | retired
  deriving DecidableEq, Repr

def stateOf (vs : Versions) (today : ℤ) (id : String) (v : Version) : State :=
  match v.standing with
  | .draft => .draft
  | .sealed start =>
    if ruleSetVersionFor vs today = some id then .inForce
    else
      match start with
      | none => .retired
      | some start => if today < start then .scheduled else .superseded

structure StaffVersion where
  ruleSetVersionID : String
  version : ℤ
  state : State
  effectiveFrom : Option ℤ
  ruleCount : ℕ
  notes : String

def staffVersion (vs : Versions) (today : ℤ) (e : String × Version) : StaffVersion :=
  { ruleSetVersionID := e.1, version := e.2.number, state := stateOf vs today e.1 e.2,
    effectiveFrom := match e.2.standing with
      | .draft => none
      | .sealed start => start
    ruleCount := e.2.rules.rows.length, notes := e.2.notes }

def staffVersions (vs : Versions) (today : ℤ) : List StaffVersion :=
  (vs.rows.map (staffVersion vs today)).mergeSort
    (descending (comparing StaffVersion.version fun k l => k ≤ l))

end InvoiceOs.RuleDesk
