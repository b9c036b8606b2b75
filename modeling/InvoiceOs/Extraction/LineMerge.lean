import Mathlib.Logic.Function.Basic
import InvoiceOs.Extraction.Alignment

/-! The engine's line rows and the answer's lines, put together in printed order and numbered
anew. -/

namespace InvoiceOs.Extraction

open Lib

/-! ### Printed order -/

/-- A row by its 1-based position on either side, 0 on the side it is absent from. -/
structure AliLineUnit where
  keyPos : ℕ := 0
  answerPos : ℕ := 0
  deriving DecidableEq, Repr

def aliUnitsForGap (gap : List ℕ × List ℕ) : List AliLineUnit :=
  (gap.2.map fun k => { keyPos := k }) ++ gap.1.map fun a => { answerPos := a }

def aliPrintedOrder (a : AliAlignment) (nAnswer nKey : ℕ) : List AliLineUnit :=
  let gaps := aliGaps a.pairs nAnswer nKey
  ((a.pairs.zip gaps).flatMap fun (p, gap) =>
      aliUnitsForGap gap ++ [{ keyPos := p.key, answerPos := p.answer }]) ++
    (gaps.getLast?.map aliUnitsForGap).getD []

/-! ### The rows of the engine -/

structure EngineRows where
  nonLine : List FieldResult := []
  engineByIndex : ℕ → Option (String → Option FieldResult) := fun _ => none
  engineIndexes : List ℕ := []
  insertAt : Option ℕ := none

def EngineRows.read (s : EngineRows) (r : FieldResult) : EngineRows :=
  match parseLineFieldName r.name with
  | none => { s with nonLine := s.nonLine ++ [r] }
  | some (idx, role) =>
    let cells := (s.engineByIndex idx).getD fun _ => none
    { s with
      insertAt := some (s.insertAt.getD s.nonLine.length)
      engineIndexes :=
        if s.engineByIndex idx = none then s.engineIndexes ++ [idx] else s.engineIndexes
      engineByIndex :=
        Function.update s.engineByIndex idx (some (Function.update cells role (some r))) }

def engineRows (rows : List FieldResult) : EngineRows := rows.foldl EngineRows.read {}

def liSortInts (a : List ℕ) : List ℕ := a.mergeSort fun x y => x ≤ y

/-! ### The merge -/

section
variable (toLower : Char → Char)

/-- One role's cell of a merged row: the engine's cell stands, with the answer beside it where the
two disagree and the page has what the answer says. -/
def aliMergeCell (role : String) (engine : Option FieldResult) (aiRaw : Option String)
    (pages : List TokenPage) : Option FieldResult :=
  let answered := aiRaw.filter fun raw => trimSpace raw ≠ ""
  match engine, answered with
  | some row, none => some row
  | some row, some raw =>
    let readings := aliRoleReadings toLower role raw
    if hasCommonReading (aliRoleReadings toLower role (row.value.getD "")) readings then some row
    else if readings = [] then some row
    else if !aliLinePresent toLower role raw pages then some row
    else some { row with
      reason := some .ambiguous
      alternatives := [{ name := row.name, value := some raw }] }
  | none, none => none
  | none, some raw =>
    if aliRoleReadings toLower role raw = [] then none
    else if !aliLinePresent toLower role raw pages then none
    else (aliWriteValue role raw).map fun written => { name := "", value := some written }

def unitCells (pages : List TokenPage) (engineCells : String → Option FieldResult)
    (aiCell : String → Option String) : List (String × FieldResult) :=
  lineRoles.filterMap fun role =>
    (aliMergeCell toLower role (engineCells role) (aiCell role) pages).map fun row => (role, row)

def renumber (n : ℕ) (cell : String × FieldResult) : FieldResult :=
  let name := lineFieldName n cell.1
  { cell.2 with name, alternatives := cell.2.alternatives.map fun alt => { alt with name } }

def cellsAt (s : EngineRows) (indexes : List ℕ) (keyPos : ℕ) : String → Option FieldResult :=
  if keyPos = 0 then fun _ => none
  else ((indexes[keyPos - 1]?).bind s.engineByIndex).getD fun _ => none

def answerAt (ai : List AILine) (answerPos : ℕ) : String → Option String :=
  if answerPos = 0 then fun _ => none else ((ai[answerPos - 1]?).getD {}).cell

def mergedUnits (s : EngineRows) (indexes : List ℕ) (ai : List AILine) (pages : List TokenPage)
    (units : List AliLineUnit) : List (List (String × FieldResult)) :=
  (units.map fun u =>
    unitCells toLower pages (cellsAt s indexes u.keyPos) (answerAt ai u.answerPos)).filter
      fun cells => !cells.isEmpty

def lineRows (mergedRows : List (List (String × FieldResult))) : List FieldResult :=
  (mergedRows.mapIdx fun i cells => cells.map (renumber (i + 1))).flatten

/-- Nothing where an engine's cell has no value: reading it panics. -/
def mergeAILines (rows : List FieldResult) (ai : List AILine) (pages : List TokenPage) :
    Option (List FieldResult) :=
  if ai = [] then some rows
  else do
    let s := engineRows rows
    let indexes := liSortInts s.engineIndexes
    let engineLines ← indexes.mapM fun idx =>
      aliEngineDocLine idx ((s.engineByIndex idx).getD fun _ => none)
    let aiLines := ai.mapIdx fun i l => aliAIDocLine (i + 1) l
    let alignment := aliAlign toLower aiLines engineLines
    let units := aliPrintedOrder alignment aiLines.length engineLines.length
    let mergedRows := mergedUnits toLower s indexes ai pages units
    let insertAt := s.insertAt.getD s.nonLine.length
    some (s.nonLine.take insertAt ++ lineRows mergedRows ++ s.nonLine.drop insertAt)

end

end InvoiceOs.Extraction
