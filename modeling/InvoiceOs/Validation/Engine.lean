import Mathlib.Data.String.Basic
import InvoiceOs.Lib.OrderBy
import InvoiceOs.Validation.Evaluators

/-! One payload against a rule set, and against the custom rules its caller names. -/

namespace InvoiceOs.Validation

open Lib

structure RuleSet where
  id : String
  version : ℤ
  rules : List Rule

structure Result where
  ruleSetVersion : ℤ
  violations : List Violation
  deriving DecidableEq, Repr

def violationLe : Violation → Violation → Bool :=
  thenBy (comparing Violation.ruleKey fun k l => k ≤ l) (comparing Violation.path fun k l => k ≤ l)

def sortViolations (vs : List Violation) : List Violation := vs.mergeSort violationLe

section
variable (b : Backend) (p : Payload)

def selected (r : Rule) : Except String Bool :=
  if !r.enabled || r.scope ≠ "document" then .ok false
  else
    match r.guard with
    | none => .ok true
    | some expr => b.evalCELBool expr p.invoice

def ruleViolations (r : Rule) : Except String (List Violation) := do
  if ← selected b p r then evalRule b p r else .ok []

def evaluate (rs : RuleSet) : Except String Result := do
  let found ← rs.rules.mapM (ruleViolations b p)
  .ok { ruleSetVersion := rs.version, violations := sortViolations found.flatten }

end

/-! ### Custom rules -/

def customKeyPrefix : String := "custom:"

def customFaultMessage : String := "This custom rule could not be evaluated on this invoice."

structure CustomRuleWire where
  id : String
  key : String
  type : RuleType
  target : String
  params : Option Json
  severity : String
  guard : Option String
  message : String

/-- The flattened rules of a batch, each under its set's name with its revision. -/
structure CustomRule where
  set : String
  revision : String
  rule : Rule

def customSeverity : String → Option Severity
  | "error" => some .error
  | "warning" => some .warning
  | _ => none

def isKnown : RuleType → Bool
  | .other _ => false
  | _ => true

def hasCustomPrefix (key : String) : Bool := customKeyPrefix.toList.isPrefixOf key.toList

section
variable (b : Backend)

def checkCustomRule (w : CustomRuleWire) : Except String Rule := do
  if w.id = "" then .error "rule id must not be empty"
  else if !hasCustomPrefix w.key || w.key = customKeyPrefix then
    .error ("rule " ++ b.quote w.id ++ " key must start with " ++ b.quote customKeyPrefix)
  else if !isKnown w.type then .error ("rule " ++ b.quote w.id ++ " has an unknown type")
  else
    match customSeverity w.severity with
    | none => .error ("rule " ++ b.quote w.id ++ " severity must be error or warning")
    | some severity =>
      if w.message = "" then .error ("rule " ++ b.quote w.id ++ " message must not be empty")
      else .ok { key := w.key, type := w.type, target := w.target, params := w.params,
                 severity, guard := w.guard, message := w.message }

def inSet (name what : String) : String := "custom_rule_sets[" ++ b.quote name ++ "]" ++ what

def addCustomRule (name : String) (seen : List CustomRule) (w : CustomRuleWire) :
    Except String (List CustomRule) := do
  let rule ← (checkCustomRule b w).mapError fun err => inSet b name (": " ++ err)
  if seen.any fun c => c.revision = w.id then
    .error ("custom_rule_sets: rule id " ++ b.quote w.id ++ " appears more than once")
  else if seen.any fun c => c.rule.key = w.key then
    .error (inSet b name (": duplicate key " ++ b.quote w.key))
  else .ok (seen ++ [⟨name, w.id, rule⟩])

def addCustomSet (seen : List CustomRule) (set : String × List CustomRuleWire) :
    Except String (List CustomRule) :=
  if set.2 = [] then .error (inSet b set.1 " must not be empty")
  else set.2.foldlM (addCustomRule b set.1) seen

/-- One name of item `i` behind those read so far. -/
def checkName (sets : List (String × List CustomRuleWire)) (i : ℕ) (seen : List String)
    (name : String) : Except String (List String) :=
  if (sets.map Prod.fst).all (· ≠ name) then
    .error ("invoices[" ++ toString i ++ "] names unknown custom rule set " ++ b.quote name)
  else if name ∈ seen then
    .error ("invoices[" ++ toString i ++ "] names custom rule set " ++ b.quote name ++ " twice")
  else .ok (seen ++ [name])

def checkNames (sets : List (String × List CustomRuleWire)) (item : List String × ℕ) :
    Except String (List String) :=
  item.1.foldlM (checkName b sets item.2) []

/-- The rules of the sets, by name; `sets` is a map, so no two have one. -/
def newCustomSets (sets : List (String × List CustomRuleWire)) (items : List (List String)) :
    Except String (List CustomRule) := do
  let rules ← (sets.mergeSort fun a b => a.1 ≤ b.1).foldlM (addCustomSet b) []
  let _ ← items.zipIdx.mapM (checkNames b sets)
  .ok rules

end

/-- The loader fills the code lists of the custom rules in place. -/
def attachCodes (codes : Rule → List String) (rules : List CustomRule) : List CustomRule :=
  rules.map fun c => { c with rule := { c.rule with codes := codes c.rule } }

section
variable (b : Backend) (p : Payload)

/-- One custom rule on its own; a fault is its one violation. -/
def evaluateCustom (rs : RuleSet) (r : Rule) : List Violation :=
  match evaluate b p { rs with rules := [r] } with
  | .ok res => res.violations
  | .error _ =>
    [{ ruleKey := r.key, severity := r.severity, message := customFaultMessage, path := r.target }]

def namedRules (rules : List CustomRule) (names : List String) : List CustomRule :=
  names.flatMap fun name => rules.filter fun c => c.set = name

/-- What one item of a batch is answered: the golden violations and the custom ones, and the
revisions evaluated. -/
def evaluateItem (rs : RuleSet) (rules : List CustomRule) (names : List String) :
    Except String (List Violation × List String) := do
  let res ← evaluate b p rs
  let named := namedRules rules names
  let custom := named.flatMap fun c => evaluateCustom b p rs c.rule
  let violations :=
    if custom = [] then res.violations else sortViolations (res.violations ++ custom)
  .ok (violations, named.map CustomRule.revision)

end

end InvoiceOs.Validation
