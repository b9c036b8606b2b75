import Mathlib.Algebra.Order.Ring.Rat
import InvoiceOs.Validation.Payload

/-! The rule types: what each finds wrong with a payload, or why its rule cannot be evaluated. -/

namespace InvoiceOs.Validation

inductive RuleType where
  | required
  | format
  | enum
  | range
  | taxMath
  | crossField
  | conditional
  | date
  | cel
  | lineSum
  | other (name : String)
  deriving DecidableEq, Repr

inductive Severity where
  | error
  | warning
  | info
  deriving DecidableEq, Repr

/-- A rule of a version, or a custom one; `params` is nothing where its text is no JSON, and an
empty object where it is empty. -/
structure Rule where
  key : String
  type : RuleType
  target : String
  params : Option Json
  severity : Severity
  guard : Option String := none
  message : String
  scope : String := "document"
  enabled : Bool := true
  codes : List String := []

structure Violation where
  ruleKey : String
  severity : Severity
  message : String
  path : String
  field : String := ""
  expected : Option String := none
  actual : Option String := none
  deriving DecidableEq, Repr

/-- What the rules are evaluated with that is not this package's: the regular expressions, the
dates, the texts of values, and the CEL programs. -/
structure Backend where
  compileRegexp : String → Except String (String → Bool)
  /-- The day a text is under a layout. -/
  parseDay : String → String → Except String ℤ
  today : ℤ
  formatValue : Json → String
  quote : String → String
  decimalText : ℚ → String
  evalCELBool : String → Option Json → Except String Bool
  /-- The body an element-wise expression over a target has, and the one field it judges. -/
  elementBody : String → String → Option ((Json → Option Bool) × String)

def violation (r : Rule) : Violation :=
  { ruleKey := r.key, severity := r.severity, message := r.message, path := r.target }

def linePath (list : String) (n : ℕ) (field : String) : String :=
  let p := list ++ "[" ++ n.repr ++ "]"
  if field = "" then p else p ++ "." ++ field

def perLine (list : String) (els : List Json) (judge : Json → Option (String × Violation)) :
    List Violation :=
  (els.mapIdx fun i el =>
    (judge el).map fun (field, v) => { v with path := linePath list (i + 1) field }).filterMap id

def fault (b : Backend) (kind : String) (r : Rule) (what : String) : String :=
  "validation: " ++ kind ++ " rule " ++ b.quote r.key ++ " " ++ what

variable (b : Backend) (p : Payload) (r : Rule)

def stringify : Json → String
  | .str s => s
  | v => b.formatValue v

def presentValue (path : String) : Option Json :=
  match resolvePath p path with
  | none | some .null => none
  | some v => some v

def isBlank : Json → Bool
  | .str s => trimSpace s = ""
  | _ => false

def requiredEval : Except String (Option Violation) := do
  let params ← decodeParams r.params
  let allowBlank ← boolField params "allow_blank"
  match presentValue p r.target with
  | none => .ok (some (violation r))
  | some v => if !allowBlank && isBlank v then .ok (some (violation r)) else .ok none

def formatEval : Except String (Option Violation) := do
  let params ← decodeParams r.params
  match ← stringPtr params "pattern" with
  | none => .error (fault b "format" r "missing pattern")
  | some pattern =>
    let re ← b.compileRegexp pattern
    match presentValue p r.target with
    | none => .ok none
    | some v =>
      if re (stringify b v) then .ok none
      else .ok (some { violation r with expected := some pattern })

/-! ### Enumerations -/

def inList : Json → Bool
  | .str s => r.codes.contains s
  | _ => false

def badCode (list : String) (v : Json) : Violation :=
  { violation r with expected := some ("NRS list: " ++ list), actual := some (stringify b v) }

def judgeCode (list : String) : Json → Option (String × Violation)
  | el@(.obj _) =>
    match presentValue ⟨some el⟩ r.target with
    | none => none
    | some v => if inList r v then none else some (r.target, badCode b r list v)
  | el => some ("", badCode b r list el)

def evalList (list : String) : Option String → List Violation
  | none =>
    match presentValue p r.target with
    | none => []
    | some v => if inList r v then [] else [badCode b r list v]
  | some items =>
    match resolvePath p items with
    | some (.arr els) => perLine items els (judgeCode b r list)
    | _ => []

def enumEval : Except String (List Violation) := do
  let params ← decodeParams r.params
  let values ← valuesPtr params "values"
  let list ← stringPtr params "list"
  let items ← stringPtr params "items"
  match values, list with
  | some _, some _ => .error (fault b "enum" r "has both values and list")
  | none, some list =>
    if list = "" then .error (fault b "enum" r "has a blank list")
    else if items = some "" then .error (fault b "enum" r "has blank items")
    else if r.codes = [] then .error (fault b "enum" r "code list not loaded")
    else .ok (evalList b p r list items)
  | none, none => .error (fault b "enum" r "missing values")
  | some values, none =>
    if items ≠ none then .error (fault b "enum" r "has items without list")
    else
      match presentValue p r.target with
      | none => .ok []
      | some v =>
        if values.any fun want => deepEqual want v then .ok []
        else .ok [{ violation r with
          expected := some (" · ".intercalate (values.map (stringify b)))
          actual := some (stringify b v) }]

/-! ### Ranges and dates -/

def rangeBoundLabel (min exclusiveMin max exclusiveMax : Option ℚ) : String :=
  let part := fun (op : String) (bound : Option ℚ) =>
    (bound.map fun q => op ++ b.decimalText q).toList
  " · ".intercalate
    (part ">= " min ++ part "> " exclusiveMin ++ part "<= " max ++ part "< " exclusiveMax)

def rangeEval : Except String (Option Violation) := do
  let params ← decodeParams r.params
  let min ← floatPtr params "min"
  let max ← floatPtr params "max"
  let exclusiveMin ← floatPtr params "exclusive_min"
  let exclusiveMax ← floatPtr params "exclusive_max"
  match presentValue p r.target with
  | none => .ok none
  | some v =>
    match toFloat v with
    | none => .ok (some (violation r))
    | some f =>
      let outside := (min.any fun m => f < m) || (max.any fun m => m < f) ||
        (exclusiveMin.any fun m => f ≤ m) || (exclusiveMax.any fun m => m ≤ f)
      if outside then
        .ok (some { violation r with
          expected := some (rangeBoundLabel b min exclusiveMin max exclusiveMax)
          actual := some (b.decimalText f) })
      else .ok none

def resolveDateBound (layout s : String) : Except String (Option ℤ) :=
  if s = "" then .ok none
  else if s = "today" then .ok (some b.today)
  else (b.parseDay layout s).map some

def dateEval : Except String (Option Violation) := do
  let params ← decodeParams r.params
  let format ← stringField params "format"
  let notBefore ← stringField params "not_before"
  let notAfter ← stringField params "not_after"
  let _ ← stringField params "relative_to"
  let layout := if format = "" then "2006-01-02" else format
  let notBefore ← resolveDateBound b layout notBefore
  let notAfter ← resolveDateBound b layout notAfter
  match presentValue p r.target with
  | none => .ok none
  | some (.str s) =>
    match b.parseDay layout s with
    | .error _ => .ok (some (violation r))
    | .ok day =>
      if (notBefore.any fun bound => day < bound) || (notAfter.any fun bound => bound < day)
        then .ok (some (violation r)) else .ok none
  | some _ => .ok (some (violation r))

/-! ### Amounts -/

def resolveNumericOperand (p : Payload) : Json → Option ℚ
  | .str path => (resolvePath p path).bind toFloat
  | v => toFloat v

def operandField : Json → String
  | .str path => path
  | _ => ""

def mismatch (computed stated tolerance : ℚ) : Bool := tolerance < |stated - computed|

def stated (computed found : ℚ) : Violation :=
  { violation r with
    expected := some (b.decimalText computed), actual := some (b.decimalText found) }

def taxHeader (params : List (String × Json)) : Except String (Option Violation) := do
  let rate ← floatPtr params "rate"
  let tolerance ← floatField params "tolerance"
  match rate, field "base" params, field "expected" params with
  | none, _, _ => .error (fault b "tax_math" r "missing rate")
  | _, none, _ => .error (fault b "tax_math" r "missing base")
  | _, _, none => .error (fault b "tax_math" r "missing expected")
  | some rate, some base, some expected =>
    if tolerance < 0 then .error (fault b "tax_math" r "tolerance must be non-negative")
    else
      match resolveNumericOperand p base, resolveNumericOperand p expected with
      | some base, some expected =>
        if mismatch (base * rate) expected tolerance
          then .ok (some (stated b r (base * rate) expected)) else .ok none
      | _, _ => .ok (some (violation r))

def elementRate (rate : Option ℚ) (rateBy : Option String) (rates : Option (List (String × ℚ)))
    (el : Json) : Option ℚ :=
  match rates with
  | none => rate
  | some rates =>
    let category := match el with
      | .obj entries =>
        match lookup (rateBy.getD "") entries with
        | some (.str s) => s
        | _ => ""
      | _ => ""
    (rates.find? fun e => e.1 = category).map Prod.snd

/-- One element; one without a rate of its own is not judged. -/
def judgeTax (rateOf : Json → Option ℚ) (base expected : Json) (tolerance : ℚ) :
    Json → Option (String × Violation)
  | el@(.obj _) =>
    match rateOf el with
    | none => none
    | some rate =>
      match resolveNumericOperand ⟨some el⟩ base with
      | none => some (operandField base, violation r)
      | some baseQ =>
        match resolveNumericOperand ⟨some el⟩ expected with
        | none => some (operandField expected, violation r)
        | some found =>
          if mismatch (baseQ * rate) found tolerance
            then some ("", stated b r (baseQ * rate) found) else none
  | _ => some ("", violation r)

def elementsAt (path : String) : List Json :=
  match resolvePath p path with
  | some (.arr els) => els
  | _ => []

def taxMathEval : Except String (List Violation) := do
  let params ← decodeParams r.params
  let items ← stringPtr params "items"
  let rateBy ← stringPtr params "rate_by"
  let rates ← ratesField params "rates"
  let rate ← floatPtr params "rate"
  let tolerance ← floatField params "tolerance"
  if items = none ∧ rateBy = none ∧ rates = none then
    (taxHeader b p r params).map Option.toList
  else if rate ≠ none ∧ rates ≠ none then .error (fault b "tax_math" r "has both rate and rates")
  else if rate = none ∧ rates = none then .error (fault b "tax_math" r "missing rate or rates")
  else if rates = some [] then .error (fault b "tax_math" r "has empty rates")
  else if rates ≠ none ∧ rateBy.getD "" = "" then
    .error (fault b "tax_math" r "rates needs rate_by")
  else if rates = none ∧ rateBy ≠ none then .error (fault b "tax_math" r "rate_by needs rates")
  else
    match items, field "base" params, field "expected" params with
    | none, _, _ => .error (fault b "tax_math" r "has rates or rate_by without items")
    | some "", _, _ => .error (fault b "tax_math" r "has blank items")
    | _, none, _ => .error (fault b "tax_math" r "missing base")
    | _, _, none => .error (fault b "tax_math" r "missing expected")
    | some items, some base, some expected =>
      if tolerance < 0 then .error (fault b "tax_math" r "tolerance must be non-negative")
      else .ok (perLine items (elementsAt p items)
        (judgeTax b r (elementRate rate rateBy rates) base expected tolerance))

def lineAmount (amount quantity : String) : Json → Except String ℚ
  | .obj entries =>
    match (lookup amount entries).bind toFloat with
    | none => .error amount
    | some q =>
      if quantity = "" then .ok q
      else
        match lookup quantity entries with
        | none => .ok q
        | some w =>
          match toFloat w with
          | none => .error quantity
          | some w => .ok (q * w)
  | _ => .error ""

def judgeLine (amount quantity : String) (el : Json) : Option (String × Violation) :=
  match lineAmount amount quantity el with
  | .error field => some (field, violation r)
  | .ok _ => none

def lineTotal (amount quantity : String) (els : List Json) : ℚ :=
  (els.filterMap fun el => (lineAmount amount quantity el).toOption).sum

def lineSumEval : Except String (List Violation) := do
  let params ← decodeParams r.params
  let items ← stringField params "items"
  let amount ← stringField params "amount"
  let quantity ← stringField params "quantity"
  let expected ← stringField params "expected"
  let tolerance ← floatField params "tolerance"
  if items = "" then .error (fault b "line_sum" r "missing items")
  else if amount = "" then .error (fault b "line_sum" r "missing amount")
  else if expected = "" then .error (fault b "line_sum" r "missing expected")
  else if tolerance < 0 then .error (fault b "line_sum" r "tolerance must be non-negative")
  else
    let els := elementsAt p items
    let bad := perLine items els (judgeLine r amount quantity)
    if els = [] then .ok []
    else if bad ≠ [] then .ok bad
    else
      match (resolvePath p expected).bind toFloat with
      | none => .ok [violation r]
      | some declared =>
        let sum := lineTotal amount quantity els
        if mismatch declared sum tolerance then .ok [stated b r sum declared] else .ok []

/-! ### Relations -/

def valuesEqual : Option Json → Option Json → Bool
  | none, none => true
  | some v, some w =>
    match toFloat v, toFloat w with
    | some f, some g => f = g
    | _, _ => deepEqual v w
  | some .null, none | none, some .null => true
  | _, _ => false

def compareOp (op : String) (left right : Option Json) : Except String Bool :=
  if op = "eq" then .ok (valuesEqual left right)
  else if op = "ne" then .ok !(valuesEqual left right)
  else if op = "lt" ∨ op = "le" ∨ op = "gt" ∨ op = "ge" then
    match left.bind toFloat, right.bind toFloat with
    | some f, some g =>
      .ok (if op = "lt" then f < g else if op = "le" then f ≤ g
        else if op = "gt" then g < f else g ≤ f)
    | _, _ => .ok false
  else .error ("unknown op " ++ b.quote op)

def crossFieldEval : Except String (Option Violation) := do
  let params ← decodeParams r.params
  let left ← stringField params "left"
  let op ← stringField params "op"
  let right ← stringField params "right"
  if ← compareOp b op (resolvePath p left) (resolvePath p right) then .ok none
  else .ok (some (violation r))

structure Predicate where
  field : String
  op : String
  value : Option Json
  required : Option Bool

def decodePredicate (name : String) (params : List (String × Json)) : Except String Predicate := do
  let entries ← decodeStruct (fieldValues name params)
  let path ← stringField entries "field"
  let op ← stringField entries "op"
  let required ← boolPtr entries "required"
  .ok { field := path, op, value := field "value" entries, required }

def evalPredicate (pred : Predicate) : Except String Bool :=
  match pred.required with
  | some false => .ok true
  | some true =>
    match presentValue p pred.field with
    | none => .ok false
    | some v => .ok !(isBlank v)
  | none => compareOp b pred.op (resolvePath p pred.field) pred.value

def conditionalEval : Except String (Option Violation) := do
  let params ← decodeParams r.params
  let given ← decodePredicate "if" params
  let wanted ← decodePredicate "then" params
  if ← evalPredicate b p given then
    if ← evalPredicate b p wanted then .ok none else .ok (some (violation r))
  else .ok none

/-! ### Expressions -/

/-- One element of an element-wise expression; one whose body fails is not blamed. -/
def judgeElement (program : Json → Option Bool) (judged : String) (el : Json) :
    Option (String × Violation) :=
  if program el = some false then some ("", { violation r with field := judged }) else none

def celLineViolations (expr : String) : List Violation :=
  if r.target = "" then []
  else
    match b.elementBody expr r.target with
    | none => []
    | some (program, judged) =>
      perLine r.target (elementsAt p r.target) (judgeElement r program judged)

def celEval : Except String (List Violation) := do
  let params ← decodeParams r.params
  let expr ← stringField params "expr"
  if expr = "" then .error (fault b "cel" r "empty expr")
  else if ← b.evalCELBool expr p.invoice then .ok []
  else
    let lines := celLineViolations b p r expr
    .ok (if lines = [] then [violation r] else lines)

def evalRule : Except String (List Violation) :=
  match r.type with
  | .required => (requiredEval p r).map Option.toList
  | .format => (formatEval b p r).map Option.toList
  | .enum => enumEval b p r
  | .range => (rangeEval b p r).map Option.toList
  | .taxMath => taxMathEval b p r
  | .crossField => (crossFieldEval b p r).map Option.toList
  | .conditional => (conditionalEval b p r).map Option.toList
  | .date => (dateEval b p r).map Option.toList
  | .cel => celEval b p r
  | .lineSum => lineSumEval b p r
  | .other name => .error ("validation: unknown rule type " ++ b.quote name)

end InvoiceOs.Validation
