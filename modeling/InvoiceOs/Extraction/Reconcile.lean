import InvoiceOs.Extraction.Lines
import InvoiceOs.Extraction.Resolve

/-! The decision stage between Resolve's candidates and the store: which reading to trust, which
to flag, and why. -/

namespace InvoiceOs.Extraction

open Lib

/-- The decimal package: `NewFromString`, and the spellings the stage rests on. -/
structure Decimals where
  newFromString : String → Option ℚ
  cent : newFromString "0.01" = some (1 / 100)
  zero : newFromString "0" = some 0
  one : newFromString "1" = some 1

structure Entity where
  tin : String := ""
  name : String := ""

structure Input where
  candidates : List Candidate
  lines : List DocLine
  entity : Entity
  pages : List TokenPage

def reconcileTolerance : String := "0.01"

def totalField : String := "total"

/-! ### One field -/

def doubtfulFields : List String := ["buyer_tin", "buyer_name", "vat", "total"]

def uncorroborated (head : Candidate) : Bool :=
  head.adjacent && head.tier = .generic && doubtfulFields.contains head.field

def peersOf (cands : List Candidate) (field : String) : List Candidate :=
  sortCandidates (cands.filter fun c => c.field = field)

def standing (peers : List Candidate) : List Candidate :=
  match peers with
  | [] => []
  | head :: _ =>
    if uncorroborated head then peers
    else peers.filter fun c => c.tier = head.tier && c.distance = head.distance

def decideField (cands : List Candidate) (field : String) : FieldResult :=
  match firstsBy Candidate.value (standing (peersOf cands field)) with
  | [] => { name := field, reason := some .missing }
  | head :: others => {
    name := field
    value := some head.value
    region := head.region
    reason := if others.isEmpty then none else some .ambiguous
    alternatives := others.map fun c => { name := field, value := some c.value, region := c.region } }

/-! ### Arithmetic -/

variable (D : Decimals)

/-- An unparseable tolerance fails closed. -/
def exceedsTolerance (diff : ℚ) : Bool :=
  match D.newFromString reconcileTolerance with
  | none => true
  | some tol => tol < diff

def parseMoney (s : Option String) : Option ℚ := s.bind D.newFromString

/-- The row's flag, where its three numbers are printed and do not multiply up. -/
def rowFlag (line : DocLine) : Option FieldResult := do
  let qty ← parseMoney D line.quantity
  let price ← parseMoney D line.unitPrice
  let printed ← parseMoney D line.lineTotal
  if exceedsTolerance D |qty * price - printed| then
    some {
      name := lineFieldName line.index "line_total"
      value := line.lineTotal
      region := line.region
      reason := some .inconsistent }
  else none

def lineTotals (lines : List DocLine) : List ℚ := lines.filterMap fun l => parseMoney D l.lineTotal

/-- The `line_items` block: missing unless a line total was read. -/
def lineItemsBlock (lines : List DocLine) : FieldResult :=
  { name := lineItemsField
    reason := if (lineTotals D lines).isEmpty then some .missing else none }

def updateFirst (p : FieldResult → Bool) (f : FieldResult → FieldResult) :
    List FieldResult → List FieldResult
  | [] => []
  | r :: rest => if p r then f r :: rest else r :: updateFirst p f rest

def checkSubtotal (lines : List DocLine) (out : List FieldResult) : List FieldResult :=
  if (lineTotals D lines).isEmpty then out
  else updateFirst (fun r => r.name = "subtotal" && r.reason = none) (fun r =>
    match parseMoney D r.value with
    | some printed =>
      if exceedsTolerance D |(lineTotals D lines).sum - printed| then
        { r with reason := some .inconsistent }
      else r
    | none => r) out

def decidedMoney (decided : List FieldResult) (name : String) : Option ℚ :=
  (decided.find? fun r => r.name = name).bind fun r =>
    if r.reason = none then parseMoney D r.value else none

def wantedTotal (decided : List FieldResult) : Option ℚ := do
  let sub ← decidedMoney D decided "subtotal"
  let vat ← decidedMoney D decided "vat"
  some (sub + vat)

def balancesWith (want : ℚ) (value : Option String) : Bool :=
  (parseMoney D value).any fun v => !exceedsTolerance D |want - v|

def corroborateTotal (res : FieldResult) (decided : List FieldResult) : FieldResult :=
  if res.alternatives.isEmpty then res
  else match wantedTotal D decided with
    | none => res
    | some want =>
      match (res.toField :: res.alternatives).filter fun f => balancesWith D want f.value with
      | [winner] => { name := res.name, value := winner.value, region := winner.region }
      | _ => res

def lastBoxOf (decided : List FieldResult) (name : String) : Option Region :=
  ((decided.filter fun r => r.name = name).getLast?).bind fun r => r.region

def balancingToken (want : ℚ) (subBox vatBox : Option Region) (tok : Token) : Bool :=
  usableBox tok.region && subBox ≠ some tok.region && vatBox ≠ some tok.region &&
    match normalizeAmount tok.text with
    | [text] => balancesWith D want (some text)
    | _ => false

def rivalsOf (res : FieldResult) : List Field :=
  (if res.value.isNone then [] else [{ name := res.name, value := res.value, region := res.region }]) ++
    res.alternatives.map fun a => { name := res.name, value := a.value, region := a.region }

def settlesTotal (want : ℚ) (c : Candidate) : Bool :=
  c.field = totalField && (c.tier = .learned || balancesWith D want (some c.value))

def findTotal (res : FieldResult) (decided : List FieldResult) (cands : List Candidate)
    (pages : List TokenPage) : FieldResult :=
  if (rivalsOf res).isEmpty then res
  else match wantedTotal D decided with
    | none => res
    | some want =>
      if cands.any (settlesTotal D want) then res
      else
        let subBox := lastBoxOf decided "subtotal"
        let vatBox := lastBoxOf decided "vat"
        match (pages.flatMap TokenPage.tokens).filter (balancingToken D want subBox vatBox) with
        | [tok] => {
          name := res.name
          value := (normalizeAmount tok.text).head?
          region := usableRegion tok.region
          reason := some .ambiguous
          alternatives := rivalsOf res }
        | _ => res

/-! ### The whole stage -/

variable (toLower : Char → Char)

def liNormalizeHeaderText (s : String) : String :=
  collapse (String.ofList (s.toList.map toLower))

def flagIfInconsistent (name : String) (agrees : String → Bool) (out : List FieldResult) :
    List FieldResult :=
  updateFirst (fun r => r.name = name && r.reason = none) (fun r =>
    if r.value.any fun v => !agrees v then { r with reason := some .inconsistent } else r) out

def supplierCheck (entity : Entity) (out : List FieldResult) : List FieldResult :=
  let out := if entity.tin = "" then out
    else flagIfInconsistent "supplier_tin" (fun v => v = entity.tin) out
  if entity.name = "" then out
  else flagIfInconsistent "supplier_name"
    (fun v => liNormalizeHeaderText toLower v = liNormalizeHeaderText toLower entity.name) out

def lineItemResults (lines : List DocLine) : List FieldResult :=
  lines.flatMap fun line => lineRoles.filterMap fun role => (line.cell role).map fun v =>
    { name := lineFieldName line.index role, value := some v, region := line.regions role }

/-- The value row of each name, or the flag raised for it; no flag is dropped. -/
def composeLineRows (values flags : List FieldResult) : List FieldResult :=
  (values.map fun v => (flags.find? fun f => f.name = v.name).getD v) ++
    flags.filter fun f => !values.any fun v => v.name = f.name

def headerRows (input : Input) : List FieldResult :=
  let out := checkSubtotal D input.lines (headerFields.map (decideField input.candidates))
  let out := updateFirst (fun r => r.name = totalField) (fun r => corroborateTotal D r out) out
  updateFirst (fun r => r.name = totalField)
    (fun r => findTotal D r out input.candidates input.pages) out

def reconcile (input : Input) : List FieldResult :=
  supplierCheck toLower input.entity (headerRows D input) ++ lineItemsBlock D input.lines ::
    composeLineRows (lineItemResults input.lines) (input.lines.filterMap (rowFlag D))

end InvoiceOs.Extraction
