import Mathlib.Data.Rat.Defs
import InvoiceOs.Text

/-! The invoice a rule judges, as decoded, and the decoding of a rule's own parameters. -/

namespace InvoiceOs.Validation

/-- A decoded JSON value; a number is the decimal its float prints as, an object has one value a
key. -/
inductive Json where
  | null
  | bool (b : Bool)
  | num (q : ℚ)
  | str (s : String)
  | arr (els : List Json)
  | obj (entries : List (String × Json))

def lookup (key : String) : List (String × Json) → Option Json
  | [] => none
  | (k, v) :: entries => if k = key then some v else lookup key entries

mutual

def deepEqual : Json → Json → Bool
  | .null, .null => true
  | .bool a, .bool b => a = b
  | .num a, .num b => a = b
  | .str a, .str b => a = b
  | .arr as, .arr bs => deepEqualList as bs
  | .obj as, .obj bs => as.length = bs.length && deepEqualEntries as bs
  | _, _ => false

def deepEqualList : List Json → List Json → Bool
  | [], [] => true
  | a :: as, b :: bs => deepEqual a b && deepEqualList as bs
  | _, _ => false

def deepEqualEntries : List (String × Json) → List (String × Json) → Bool
  | [], _ => true
  | (k, a) :: as, bs =>
    (match lookup k bs with
      | some b => deepEqual a b
      | none => false) && deepEqualEntries as bs

end

/-- The request body; only its `invoice` is read. -/
structure Payload where
  invoice : Option Json

def resolveIn (current : Json) : List String → Option Json
  | [] => some current
  | seg :: segs =>
    match current with
    | .obj entries => (lookup seg entries).bind fun v => resolveIn v segs
    | _ => none

def resolvePath (p : Payload) (dotted : String) : Option Json :=
  p.invoice.bind fun current =>
    if dotted = "" then some current
    else resolveIn current ((dotted.toList.splitOn '.').map String.ofList)

def toFloat : Json → Option ℚ
  | .num q => some q
  | _ => none

/-! ### Parameters -/

/-- The letters Go's decoder takes for a key's. -/
def foldKey (s : String) : List Char :=
  s.toList.map fun c => if c = 'ſ' then 's' else if c = 'K' then 'k' else c.toLower

/-- What a struct's field is given, in order: the values under every key that folds to its name. -/
def fieldValues (name : String) (entries : List (String × Json)) : List Json :=
  (entries.filter fun e => foldKey e.1 = name.toList).map Prod.snd

/-- A `json.RawMessage`, which keeps a null too. -/
def field (name : String) (entries : List (String × Json)) : Option Json :=
  (fieldValues name entries).getLast?

def toText : Json → Option String
  | .str s => some s
  | _ => none

def toBool : Json → Option Bool
  | .bool b => some b
  | _ => none

def toArray : Json → Option (List Json)
  | .arr els => some els
  | _ => none

/-- The object a struct is decoded from; null leaves every field alone. -/
def decodeParams : Option Json → Except String (List (String × Json))
  | some (.obj entries) => .ok entries
  | some .null => .ok []
  | _ => .error "json: cannot unmarshal"

/-- A struct inside a struct: a second object is read over the first. -/
def decodeStruct (values : List Json) : Except String (List (String × Json)) :=
  values.foldlM (fun read v =>
    match v with
    | .null => .ok read
    | .obj entries => .ok (read ++ entries)
    | _ => .error "json: cannot unmarshal") []

def decodeValue {α : Type} (read : Json → Option α) (onNull : α) : Json → Except String α
  | .null => .ok onNull
  | v =>
    match read v with
    | some a => .ok a
    | none => .error "json: cannot unmarshal"

section
variable (entries : List (String × Json)) (name : String)

/-- A pointer field: a null makes it nil again. -/
def pointer {α : Type} (read : Json → Option α) : Except String (Option α) :=
  (fieldValues name entries).foldlM
    (fun _ => decodeValue (fun v => (read v).map some) none) none

/-- Any other field: a null leaves the value before it. -/
def plain {α : Type} (read : Json → Option α) (zero : α) : Except String α :=
  (fieldValues name entries).foldlM (fun old => decodeValue read old) zero

def stringPtr : Except String (Option String) := pointer entries name toText

def stringField : Except String String := plain entries name toText ""

def boolPtr : Except String (Option Bool) := pointer entries name toBool

def boolField : Except String Bool := plain entries name toBool false

def floatPtr : Except String (Option ℚ) := pointer entries name toFloat

def floatField : Except String ℚ := plain entries name toFloat 0

def valuesPtr : Except String (Option (List Json)) := pointer entries name toArray

def ratesField : Except String (Option (List (String × ℚ))) :=
  (fieldValues name entries).foldlM (fun old v =>
    match v with
    | .null => .ok none
    | .obj rates => do
      let rates ← rates.mapM fun e => (decodeValue toFloat 0 e.2).map fun q => (e.1, q)
      .ok (some (rates.reverse ++ old.getD []))
    | _ => .error "json: cannot unmarshal") none

end

end InvoiceOs.Validation
