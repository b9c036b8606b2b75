import InvoiceOs.Errors
import InvoiceOs.Lib.Trim
import Mathlib.Algebra.Group.Nat.Defs

/-! The text helpers of Go's `strings` the stores call. -/

namespace InvoiceOs

def isSpace (c : Char) : Bool :=
  let n := c.toNat
  (9 ≤ n && n ≤ 13) || n == 0x20 || n == 0x85 || n == 0xA0 || n == 0x1680 ||
    (0x2000 ≤ n && n ≤ 0x200A) || n == 0x2028 || n == 0x2029 || n == 0x202F || n == 0x205F ||
    n == 0x3000

def trimSpace (s : String) : String :=
  String.ofList (((s.toList.dropWhile isSpace).reverse.dropWhile isSpace).reverse)

theorem toList_trimSpace (s : String) : (trimSpace s).toList = Lib.trim isSpace s.toList :=
  String.toList_ofList

def replaceAll (s : String) (old : Char) (new : String) : String :=
  String.ofList (s.toList.flatMap fun c => if c = old then new.toList else [c])

def trimSuffix (s : String) (c : Char) : String :=
  if s.toList.getLast? = some c then String.ofList s.toList.dropLast else s

/-- `strings.ToLower`, as far as it meets a uuid's text: no rune but `A` to `F` lowers to a
letter of one. -/
def toLower (s : String) : String := String.ofList (s.toList.map Char.toLower)

def hexGroup (n v : ℕ) : List Char :=
  (List.range n).reverse.map fun i => Nat.digitChar (v / 16 ^ i % 16)

def Uuid.text (u : Uuid) : String :=
  let v := u.toNat
  String.ofList (hexGroup 8 (v / 16 ^ 24) ++ '-' :: hexGroup 4 (v / 16 ^ 20) ++
    '-' :: hexGroup 4 (v / 16 ^ 16) ++ '-' :: hexGroup 4 (v / 16 ^ 12) ++ '-' :: hexGroup 12 v)

def hasNUL (s : String) : Bool := s.toList.contains (Char.ofNat 0)

/-- Trim, then refuse an empty name or one the text column cannot hold. -/
def normalizeName (name : String) : Except Err String :=
  let trimmed := trimSpace name
  if trimmed = "" || hasNUL trimmed then throw .validation else pure trimmed

end InvoiceOs
