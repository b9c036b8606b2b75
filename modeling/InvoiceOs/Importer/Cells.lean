import InvoiceOs.Text

/-! How an import reads one cell: the normalised text its field's type gives, and the two tests
that quarantine a numeric one. -/

namespace InvoiceOs.Importer

inductive FieldType where
  | text
  | date
  | money
  | quantity
  | code
  | time
  | percent
  deriving DecidableEq

def isNumericType : FieldType → Bool
  | .money | .quantity | .percent => true
  | _ => false

def normalizeNumeric (s : String) : String := trimSpace (replaceAll s ',' "")

/-- `^([0-9]{1,2}):([0-9]{2})(?::([0-9]{2}))?$`; the seconds are empty where the text has none. -/
def issueTimeShortRe (s : List Char) : Option (List Char × List Char × List Char) :=
  let hour := s.takeWhile Char.isDigit
  if hour.length = 1 || hour.length = 2 then
    match s.dropWhile Char.isDigit with
    | [':', a, b] => if a.isDigit && b.isDigit then some (hour, [a, b], []) else none
    | [':', a, b, ':', c, d] =>
      if a.isDigit && b.isDigit && c.isDigit && d.isDigit then some (hour, [a, b], [c, d]) else none
    | _ => none
  else none

def padIssueTime (s : String) : String :=
  match issueTimeShortRe s.toList with
  | none => s
  | some (hour, minute, second) =>
    let second := if second = [] then ['0', '0'] else second
    String.ofList (List.replicate (2 - hour.length) '0' ++ hour ++ ':' :: minute ++ ':' :: second)

def normalizeCell (type : FieldType) (raw : String) : String :=
  match type with
  | .money | .quantity => normalizeNumeric raw
  | .percent => normalizeNumeric (trimSuffix (trimSpace raw) '%')
  | .code | .date => trimSpace raw
  | .time => padIssueTime (trimSpace raw)
  | .text => raw

def unsigned : List Char → List Char
  | '-' :: s => s
  | s => s

/-- `^-?[0-9]{1,3}$` -/
def leadGroupRe (s : List Char) : Bool :=
  let digits := unsigned s
  1 ≤ digits.length && digits.length ≤ 3 && digits.all Char.isDigit

/-- `^(\.[0-9]+)?$` -/
def fractionRe : List Char → Bool
  | [] => true
  | c :: digits => c = '.' && !digits.isEmpty && digits.all Char.isDigit

/-- `^-?[0-9]+(\.[0-9]+)?$` -/
def decimalNumberRe (s : List Char) : Bool :=
  let digits := unsigned s
  !(digits.takeWhile Char.isDigit).isEmpty && fractionRe (digits.dropWhile Char.isDigit)

def strayComma : List Char → Bool
  | [] => false
  | c :: s => (c = ',' && (s.takeWhile Char.isDigit).length ≠ 3) || strayComma s

def isCommaDecimal (raw : String) : Bool :=
  let s := (trimSpace raw).toList
  if ',' ∉ s then false
  else !leadGroupRe (s.takeWhile (· ≠ ',')) || strayComma s

/-- The classify step keeps a numeric cell: neither `isCommaDecimal` nor "is not a valid number". -/
def accepts (type : FieldType) (raw : String) : Bool :=
  !isCommaDecimal raw && decimalNumberRe (normalizeCell type raw).toList

end InvoiceOs.Importer
