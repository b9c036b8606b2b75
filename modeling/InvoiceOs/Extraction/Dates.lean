import InvoiceOs.Text
import InvoiceOs.Invoice.Content

/-! The date shape: the layouts a printed date is read by, each giving an ISO date. -/

namespace InvoiceOs.Extraction

open Invoice (padLeft)

def twoDigits : List Char → Option (ℕ × List Char)
  | a :: b :: rest =>
    if a.isDigit && b.isDigit then some (10 * (a.toNat - 48) + (b.toNat - 48), rest) else none
  | _ => none

def fourDigits (cs : List Char) : Option (ℕ × List Char) := do
  let (high, rest) ← twoDigits cs
  let (low, rest) ← twoDigits rest
  return (100 * high + low, rest)

def skipChar (c : Char) : List Char → Option (List Char)
  | a :: rest => if a = c then some rest else none
  | [] => none

/-- `skip` of a blank in a layout: one blank or more, or the end of the text. -/
def skipBlank : List Char → Option (List Char)
  | [] => some []
  | a :: rest => if a = ' ' then some (rest.dropWhile (· = ' ')) else none

def shortMonthNames : List (List Char) :=
  ["jan", "feb", "mar", "apr", "may", "jun", "jul", "aug", "sep", "oct", "nov", "dec"].map
    String.toList

def monthName : List Char → Option (ℕ × List Char)
  | a :: b :: c :: rest =>
    let i := shortMonthNames.idxOf [a.toLower, b.toLower, c.toLower]
    if i < 12 then some (i + 1, rest) else none
  | _ => none

def isLeap (year : ℕ) : Bool := year % 4 == 0 && (year % 100 != 0 || year % 400 == 0)

def daysIn (month year : ℕ) : ℕ :=
  match month with
  | 2 => if isLeap year then 29 else 28
  | 4 => 30
  | 6 => 30
  | 9 => 30
  | 11 => 30
  | _ => 31

def isoOf (year month day : ℕ) (rest : List Char) : Option String :=
  if rest = [] ∧ 1 ≤ month ∧ month ≤ 12 ∧ 1 ≤ day ∧ day ≤ daysIn month year then
    some (padLeft 4 year ++ "-" ++ padLeft 2 month ++ "-" ++ padLeft 2 day)
  else none

/-- The `2006-01-02` layout. -/
def parseISO (cs : List Char) : Option String := do
  let (year, cs) ← fourDigits cs
  let cs ← skipChar '-' cs
  let (month, cs) ← twoDigits cs
  let cs ← skipChar '-' cs
  let (day, cs) ← twoDigits cs
  isoOf year month day cs

def parseDayMonth (cs : List Char) : Option String := do
  let (day, cs) ← twoDigits cs
  let cs ← skipBlank cs
  let (month, cs) ← monthName cs
  let cs ← skipBlank cs
  let (year, cs) ← fourDigits cs
  isoOf year month day cs

def parseMonthDay (cs : List Char) : Option String := do
  let (month, cs) ← monthName cs
  let cs ← skipBlank cs
  let (day, cs) ← twoDigits cs
  let cs ← skipChar ',' cs
  let cs ← skipBlank cs
  let (year, cs) ← fourDigits cs
  isoOf year month day cs

/-- One or two digits, as the numeric patterns and `pad2` read them. -/
def shortNumber : List Char → Option (ℕ × List Char)
  | [] => none
  | [a] => if a.isDigit then some (a.toNat - 48, []) else none
  | a :: b :: rest =>
    if a.isDigit then
      if b.isDigit then some (10 * (a.toNat - 48) + (b.toNat - 48), rest)
      else some (a.toNat - 48, b :: rest)
    else none

def numericDate (sep : Char) (cs : List Char) : Option (ℕ × ℕ × ℕ) := do
  let (a, cs) ← shortNumber cs
  let cs ← skipChar sep cs
  let (b, cs) ← shortNumber cs
  let cs ← skipChar sep cs
  let (year, cs) ← fourDigits cs
  if cs = [] then some (a, b, year) else none

def numericDateReadings (a b year : ℕ) : List String :=
  let dayFirst := (isoOf year b a []).toList
  let monthFirst := (isoOf year a b []).toList
  dayFirst ++ monthFirst.filter fun iso => dayFirst ≠ [iso]

/-- The first numeric pattern that matches claims the text, whatever its readings. -/
def normalizeDate (raw : String) : List String :=
  let cs := (trimSpace raw).toList
  match parseISO cs with
  | some iso => [iso]
  | none =>
    match numericDate '/' cs <|> numericDate '-' cs <|> numericDate '.' cs with
    | some (a, b, year) => numericDateReadings a b year
    | none => (parseDayMonth cs <|> parseMonthDay cs).toList

example : normalizeDate "03/04/2026" = ["2026-04-03", "2026-03-04"] := by decide +kernel

end InvoiceOs.Extraction
