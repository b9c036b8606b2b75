import InvoiceOs.Extraction.Worker
import InvoiceOs.Text

/-! Positioned words of a page, and the normalisers of one value that the readers share. -/

namespace InvoiceOs.Extraction

structure Token where
  text : String
  region : Region
  deriving DecidableEq

structure TokenPage where
  number : ℤ
  tokens : List Token
  deriving DecidableEq

def fields (s : String) : List String :=
  ((s.toList.splitOnP isSpace).filter fun w => !w.isEmpty).map String.ofList

def collapse (s : String) : String := " ".intercalate (fields s)

/-! ### Amounts -/

def reSpace (c : Char) : Bool :=
  c = '\t' || c = '\n' || c = '\x0c' || c = '\r' || c = ' '

/-- `^(?:,[0-9]{3})*$` -/
def groupsRe : List Char → Bool
  | [] => true
  | ',' :: a :: b :: c :: s => a.isDigit && b.isDigit && c.isDigit && groupsRe s
  | _ => false

/-- `^([0-9]{1,3}(?:,[0-9]{3})+|[0-9]+)$` -/
def wholeRe (s : List Char) : Bool :=
  let lead := s.takeWhile Char.isDigit
  let groups := s.dropWhile Char.isDigit
  !lead.isEmpty && (groups.isEmpty || (lead.length ≤ 3 && groupsRe groups))

/-- `^(-?)([0-9]{1,3}(?:,[0-9]{3})+|[0-9]+)(?:\.([0-9]{1,n}))?$`, its three submatches. -/
def numberRe (n : ℕ) (s : List Char) : Option (List Char × List Char × List Char) :=
  let minus := s.takeWhile (· = '-')
  let whole := (s.dropWhile (· = '-')).takeWhile (· ≠ '.')
  let point := (s.dropWhile (· = '-')).dropWhile (· ≠ '.')
  let fraction := point.tail
  if minus.length ≤ 1 && wholeRe whole &&
      (point.isEmpty || (!fraction.isEmpty && fraction.length ≤ n && fraction.all Char.isDigit))
    then some (minus, whole, fraction) else none

def ungrouped (m : List Char × List Char × List Char) : String :=
  let (minus, whole, fraction) := m
  String.ofList (minus ++ whole.filter (· ≠ ',') ++
    if fraction.isEmpty then [] else '.' :: fraction)

/-- `(?:NGN|₦|N)?` at the start, taken off. -/
def dropCurrency : List Char → List Char
  | 'N' :: 'G' :: 'N' :: s => s
  | '₦' :: s => s
  | 'N' :: s => s
  | s => s

def normalizeAmount (raw : String) : List String :=
  let trimmed := Lib.trim reSpace raw.toList
  ((numberRe 2 ((dropCurrency trimmed).dropWhile reSpace)).map ungrouped).toList

def liNormalizeQuantity (raw : String) : Option String :=
  (numberRe 3 (Lib.trim reSpace raw.toList)).map ungrouped

def liNormalizeDescription (raw : String) : Option String :=
  let out := trimSpace raw
  if out = "" then none else some out

example : normalizeAmount " ₦ -1,234.50 " = ["-1234.50"] := by decide +kernel

example : liNormalizeQuantity "1,50.00" = none := by decide +kernel

end InvoiceOs.Extraction
