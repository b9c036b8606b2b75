import InvoiceOs.Extraction.Dates
import InvoiceOs.Extraction.Tokens

/-! The anchor lexicon, and the shapes a value is normalised by. -/

namespace InvoiceOs.Extraction

/-- `FindStringIndex` of a compiled pattern: where its leftmost match starts and ends. -/
abbrev Regexp := String → Option (ℕ × ℕ)

/-- What the engine takes from Go: `regexp.MustCompile`, `unicode.IsLetter`, and the float64 a
number is rounded to. -/
structure Runtime where
  mustCompile : String → Regexp
  isLetter : Char → Bool
  round : ℚ → ℚ

def alSuffix : String := "(?:ed|ing|s|d)?"

def anchorLexicon : List (String × String) :=
  [("invoice_no", "(?i)\\b(invoice|inv|bill|doc(ument)?)\\.?\\s*((no|num(ber)?)\\b|#)"),
    ("due_date", "(?i)\\bdue\\s*date\\b"),
    ("issue_date", "(?i)\\b(invoice\\s*date|date\\s*of\\s*issue|issue\\s*date|issued|date)\\b"),
    ("supplier_tin",
      "(?i)\\b(supplier|seller|vendor)\\s*\\.?\\s*" ++
        "(tin|t\\.i\\.n\\.?|tax\\s*id(entification)?(\\s*(no|number))?)\\b"),
    ("buyer_tin",
      "(?i)\\b((buyer|customer|client|bill" ++ alSuffix ++ "\\s*to|sold" ++ alSuffix ++
        "\\s*to|invoice" ++ alSuffix ++ "\\s*to|deliver" ++ alSuffix ++
        "\\s*to)\\s*\\.?\\s*(tin|tax\\s*id)|invoice" ++ alSuffix ++ "\\s*to|deliver" ++
        alSuffix ++ "\\s*to)\\b"),
    ("bare_tin",
      "(?i)\\b\\s*\\.?\\s*(tin|t\\.i\\.n\\.?|tax\\s*id(entification)?(\\s*(no|number))?)\\b"),
    -- the owning phrases carry no rule of their own
    ("party_ref",
      "(?i)\\b(customer|client|buyer|account|supplier|vendor)\\s*\\.?\\s*" ++
        "(no|num(ber)?|ref(erence)?|code)\\b\\.?"),
    ("signature",
      "(?i)\\b(buyer|customer|client|supplier|seller|vendor)([\x27’]s)?\\s+signature\\b"),
    ("supplier_name", "(?i)(\\b(supplier|seller|vendor)\\b|^\\s*from\\b\\s*(?:[:.\\-–—]|$))"),
    ("buyer_name",
      "(?i)\\b(buyer|customer|client|bill" ++ alSuffix ++ "\\s*to|sold" ++ alSuffix ++
        "\\s*to|invoice" ++ alSuffix ++ "\\s*to|deliver" ++ alSuffix ++ "\\s*to)\\b"),
    ("currency", "(?i)\\b(currency|ccy)\\b"),
    ("subtotal",
      "(?i)\\b(sub[\\s-]*total|net\\s*(amount|total)|goods\\s*value|taxable\\s*amount)\\b"),
    ("reg_identifier",
      "(?i)\\b(vat|v\\.a\\.t\\.?|tax)\\s*\\.?\\s*(reg(istration|\\.)?\\s*)?" ++
        "(no|num(ber)?|id(entification)?(\\s*(no|num(ber)?))?)\\b"),
    ("rc_number", "(?i)\\b(rc|cac)\\s*\\.?\\s*(no|num(ber)?)\\b"),
    ("doc_title", "(?i)\\b(tax|vat)\\s*invoice\\b"),
    ("withholding_tax", "(?i)\\bwith[\\s-]*hold(?:ing)?\\s*tax\\b"),
    ("vat", "(?i)\\b(vat|v\\.a\\.t\\.?|tax)\\b"),
    ("total", "(?i)\\b(grand\\s*total|amount\\s*(due|payable)|balance\\s*due|total)\\b")]

def anchorPattern (id : String) : String :=
  ((anchorLexicon.find? fun entry => entry.1 = id).map Prod.snd).getD ""

inductive Shape where
  | invoiceNumber
  | date
  | amount
  | tin
  | currency
  | name
  | email
  | phone
  deriving DecidableEq, Repr

/-! ### The shapes that read no label -/

def allDigits (n : ℕ) (s : List Char) : Bool := s.length = n && s.all Char.isDigit

/-- `^\s*([0-9]{8})\s*-\s*([0-9]{4})\s*$` -/
def normalizeTIN (raw : String) : List String :=
  let trimmed := Lib.trim reSpace raw.toList
  let first := trimmed.take 8
  match (trimmed.drop 8).dropWhile reSpace with
  | '-' :: rest =>
    let last := rest.dropWhile reSpace
    if allDigits 8 first && allDigits 4 last then [String.ofList (first ++ '-' :: last)] else []
  | _ => []

/-- One `₦`, at most 24 runes of decoration either side. -/
def nairaTokenPattern : String := "^[^₦]\x7b0,24\x7d₦[^₦]\x7b0,24\x7d$"

def reNaira (s : List Char) : Bool :=
  let before := s.takeWhile (· ≠ '₦')
  match s.dropWhile (· ≠ '₦') with
  | [] => false
  | _ :: after => before.length ≤ 24 && after.length ≤ 24 && !after.contains '₦'

def normalizeCurrency (raw : String) : List String :=
  let code := Lib.trim reSpace raw.toList
  if code.length = 3 && code.all Char.isAlpha then [String.ofList (code.map Char.toUpper)]
  else if reNaira raw.toList then ["NGN"]
  else []

def maxNameRunes : ℕ := 256

def maxEmailRunes : ℕ := 254

def normalizeEmail (raw : String) : List String :=
  let trimmed := trimSpace raw
  let whole := trimmed.toList
  let domain := (whole.dropWhile (· ≠ '@')).tail
  if whole.length > maxEmailRunes || whole.any isSpace then []
  else if !whole.contains '@' || whole.head? = some '@' || domain.contains '@' then []
  else if !domain.contains '.' || domain.head? = some '.' || domain.getLast? = some '.' then []
  else [trimmed]

def maxPhoneRunes : ℕ := 32

def minPhoneDigits : ℕ := 7

def maxPhoneDigits : ℕ := 15

def normalizePhone (raw : String) : List String :=
  let trimmed := trimSpace raw
  let whole := trimmed.toList
  let digits := whole.countP Char.isDigit
  let accepted c := Char.isDigit c || c = ' ' || c = '(' || c = ')' || c = '-' || c = '.'
  if whole.length > maxPhoneRunes then []
  else if !(whole.head?.all fun c => c = '+' || accepted c) || !whole.tail.all accepted then []
  else if digits < minPhoneDigits || digits > maxPhoneDigits then []
  else [trimmed]

/-! ### Labels -/

section
variable (R : Runtime)

def anchorLabelMatchers : List (String × Regexp) :=
  anchorLexicon.map fun entry => (entry.1, R.mustCompile entry.2)

/-- A text of single letters spaced apart reads as those letters joined. -/
def labelView (text : String) : String :=
  let units := fields text
  let single (u : String) : Bool := match u.toList with
    | [r] => R.isLetter r
    | _ => false
  if units.length < 2 then text else if units.all single then "".intercalate units else text

/-- Some entry of the lexicon matches the value whole. -/
def isBareAnchorLabel (value : String) : Bool :=
  let view := labelView R value
  (anchorLabelMatchers R).any fun m => m.2 view = some (0, view.length)

/-- `^[A-Za-z0-9][A-Za-z0-9/_.-]{0,63}$` -/
def reInvNum (s : List Char) : Bool :=
  let later c := Char.isAlphanum c || c = '/' || c = '_' || c = '.' || c = '-'
  (s.head?.any Char.isAlphanum) && s.tail.length ≤ 63 && s.tail.all later

def normalizeInvoiceNumber (raw : String) : List String :=
  let trimmed := trimSpace raw
  if !reInvNum trimmed.toList then []
  else if !(normalizeDate trimmed).isEmpty || !(normalizeAmount trimmed).isEmpty ||
      isBareAnchorLabel R trimmed then []
  else [trimmed]

def normalizeName (raw : String) : List String :=
  let trimmed := trimSpace raw
  if trimmed = "" || trimmed.length > maxNameRunes then []
  else if isBareAnchorLabel R trimmed then []
  else [trimmed]

def Shape.normalize (s : Shape) (raw : String) : List String :=
  match s with
  | .invoiceNumber => normalizeInvoiceNumber R raw
  | .date => normalizeDate raw
  | .amount => normalizeAmount raw
  | .tin => normalizeTIN raw
  | .currency => normalizeCurrency raw
  | .name => normalizeName R raw
  | .email => normalizeEmail raw
  | .phone => normalizePhone raw

end
end InvoiceOs.Extraction
