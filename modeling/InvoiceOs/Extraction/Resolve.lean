import InvoiceOs.Extraction.Rules
import InvoiceOs.Lib.Firsts

/-! Rule application: every candidate every rule produces, grouped by field and ranked within
it. -/

namespace InvoiceOs.Extraction

open Lib

variable (R : Runtime)

/-! ### Boxes -/

def usableBox (r : Region) : Bool :=
  1 ≤ r.page && 0 ≤ r.x0 && r.x0 < r.x1 && r.x1 ≤ 1 && 0 ≤ r.y0 && r.y0 < r.y1 && r.y1 ≤ 1

def usableRegion (r : Region) : Option Region := if usableBox r then some r else none

def overlap1D (a0 a1 b0 b1 : ℚ) : ℚ := R.round (min a1 b1 - max a0 b0)

def spansApart (a0 a1 b0 b1 : ℚ) : Bool :=
  let ov := overlap1D R a0 a1 b0 b1
  let span := min (R.round (a1 - a0)) (R.round (b1 - b0))
  ov ≤ 0 || ov < R.round (span / 2)

/-- The conjuncts that reject a value for an anchor, the gap between them, and whether the drop
band alone admits the pair. -/
structure Clauses where
  gap : ℚ
  dropped : Bool
  order : Bool
  distance : Bool
  overlap : Bool

def beyond (maxDistance : Option ℚ) (gap : ℚ) : Bool := maxDistance.any fun m => m < gap

def relationClauses (anchor value : Region) (rel : Relation) (drop : ℚ) : Clauses :=
  match rel.kind with
  | .right =>
    let gap := R.round (value.x0 - anchor.x1)
    let lineFails := spansApart R anchor.y0 anchor.y1 value.y0 value.y1
    let dropped := lineFails && anchor.y0 < value.y0 &&
      R.round (value.y0 - anchor.y0) < R.round (drop * R.round (anchor.y1 - anchor.y0))
    { gap, dropped
      order := value.x0 < anchor.x1
      distance := beyond rel.maxDistance gap
      overlap := lineFails && !dropped }
  | .below =>
    let gap := R.round (value.y0 - anchor.y1)
    { gap
      dropped := false
      order := value.y0 < anchor.y1
      distance := beyond rel.maxDistance gap
      overlap := spansApart R anchor.x0 anchor.x1 value.x0 value.x1 }
  | .sameToken => { gap := 0, dropped := false, order := true, distance := true, overlap := true }

structure RelatedToken where
  value : Token
  distance : ℚ
  dropped : Bool

def related (anchor : Region) (rel : Relation) (drop : ℚ) (tok : Token) : Option RelatedToken :=
  let clauses := relationClauses R anchor tok.region rel drop
  if !usableBox tok.region || clauses.order || clauses.distance || clauses.overlap then none
  else some { value := tok, distance := clauses.gap, dropped := clauses.dropped }

def relatedTokens (page : TokenPage) (anchor : Region) (rel : Relation) (drop : ℚ) :
    List RelatedToken :=
  if usableBox anchor then page.tokens.filterMap (related R anchor rel drop) else []

def pageBandSplit : ℚ := 1 / 2

def inBand (band : PageBand) (page : ℤ) (r : Region) : Bool :=
  match band with
  | .anywhere => true
  | .page1Top => page = 1 && usableBox r && r.y1 ≤ pageBandSplit
  | .page1Bottom => page = 1 && usableBox r && pageBandSplit ≤ r.y0

/-! ### Parties -/

inductive Party where
  | unknown
  | supplier
  | buyer
  deriving DecidableEq, Repr

def partyField : Party → String
  | .buyer => "buyer_tin"
  | .unknown | .supplier => "supplier_tin"

def partyHeadings : List (String × Party) := [("supplier_name", .supplier), ("buyer_name", .buyer)]

/-- A text both vocabularies match heads neither. -/
def partyHeading (text : String) : Party :=
  let matched := (anchorLabelMatchers R).filterMap fun m =>
    if (m.2 text).isSome then partyHeadings.lookup m.1 else none
  match matched with
  | [p] => p
  | _ => .unknown

def partiesFrom : Party → List Token → List Party
  | _, [] => []
  | current, tok :: rest =>
    let next := match partyHeading R (labelView R tok.text) with
      | .unknown => current
      | p => p
    next :: partiesFrom next rest

def partyOrder (page : TokenPage) : List Party := partiesFrom R .unknown page.tokens

/-! ### Labels -/

def anchorOutranked (text : String) (loc : ℕ × ℕ) : Bool :=
  (anchorLabelMatchers R).any fun m => (m.2 text).any fun other =>
    other.1 ≤ loc.1 && loc.2 ≤ other.2 && loc.2 - loc.1 < other.2 - other.1

def carriesLabel (tok : Token) : Bool :=
  (anchorLabelMatchers R).any fun m => (m.2 (labelView R tok.text)).isSome

def labelTokens (page : TokenPage) : List Bool := page.tokens.map (carriesLabel R)

def crossesALabel (page : TokenPage) (labels : List Bool) (anchor value : Region) : Bool :=
  (page.tokens.zip labels).any fun (tok, label) =>
    let b := tok.region
    label && usableBox b && !(b.x0 < anchor.x1 || value.x0 ≤ b.x0) &&
      !spansApart R anchor.y0 anchor.y1 b.y0 b.y1

def bareLabel (text : String) (loc : ℕ × ℕ) : Bool :=
  !(text.toList.take loc.1).any R.isLetter && !(text.toList.drop loc.2).any R.isLetter

/-- The token stands on the anchor's line, to its right; a bare `₦` is passed over. -/
def onLine (anchor : Region) (tok : Token) : Bool :=
  let clauses := relationClauses R anchor tok.region { kind := .right, maxDistance := none } 0
  usableBox tok.region && trimSpace tok.text ≠ "₦" && !clauses.order && !clauses.overlap

def lineTokens (page : TokenPage) (anchor : Region) : List Token :=
  page.tokens.filter (onLine R anchor)

def rowReachToken (page : TokenPage) (anchor : Region) (rel : Relation) : Option (Token × ℚ) :=
  if !usableBox anchor then none
  else match (lineTokens R page anchor).argmin fun t => t.region.x0 with
    | none => none
    | some tok =>
      let gap := R.round (tok.region.x0 - anchor.x1)
      if beyond rel.maxDistance gap then some (tok, gap) else none

def ownedBelow (page : TokenPage) (labels : List Bool) (value : Region) : Bool :=
  let below : Relation := { kind := .below, maxDistance := some (R.round tier1MaxDistanceBelow) }
  (page.tokens.zip labels).any fun (tok, label) =>
    let clauses := relationClauses R tok.region value below 0
    label && usableBox tok.region && !clauses.order && !clauses.distance && !clauses.overlap

def isLabelSep (r : Char) : Bool := r = ':' || r = '-' || r = '–' || r = '—' || isSpace r

def sameTokenValue (text : String) (loc : ℕ × ℕ) : String :=
  if loc = (0, text.length) then text
  else String.ofList ((text.toList.drop loc.2).dropWhile isLabelSep)

/-! ### Candidates -/

structure RuleCall where
  rule : Rule
  band : PageBand
  partyScoped : Bool
  field : String
  ruleID : String
  tier : Tier
  drop : ℚ
  rowReach : Bool

def AnchorRule.call (r : AnchorRule) : RuleCall where
  rule := r.rule
  band := .anywhere
  partyScoped := false
  field := r.field
  ruleID := r.id
  tier := .learned
  drop := 0
  rowReach := false

def Tier1Rule.call (r : Tier1Rule) : RuleCall where
  rule := r.rule
  band := r.band
  partyScoped := r.partyScoped
  field := r.field
  ruleID := r.key
  tier := if r.fallback then .fallback else .generic
  drop := r.drop
  rowReach := r.rowReach

def RuleCall.outField (call : RuleCall) (party : Party) : String :=
  if call.partyScoped then partyField party else call.field

def appendReadings (call : RuleCall) (raw : String) (region : Region) (party : Party)
    (distance : ℚ) (adjacent : Bool) : List Candidate :=
  (call.rule.shape.normalize R raw).map fun value => {
    value, distance, adjacent
    field := call.outField party
    region := usableRegion region
    reason := none
    ruleID := call.ruleID
    tier := call.tier }

/-- The rightward reads of a shipped rule stop at a label. -/
def RuleCall.bounded (call : RuleCall) : Bool :=
  call.tier ≠ .learned && call.rule.relation.kind = .right

/-- A label on the anchor's band, or on the value's own when the drop band admits it. -/
def blocked (call : RuleCall) (page : TokenPage) (anchor : Region) (rel : RelatedToken) : Bool :=
  let value := rel.value.region
  call.bounded && (crossesALabel R page (labelTokens R page) anchor value ||
    rel.dropped && crossesALabel R page (labelTokens R page)
      { anchor with y0 := value.y0, y1 := value.y1 } value)

def relatedReadings (call : RuleCall) (page : TokenPage) (anchor : Region) (party : Party)
    (rel : RelatedToken) : List Candidate :=
  if blocked R call page anchor rel then []
  else appendReadings R call rel.value.text rel.value.region party rel.distance true

def reachReadings (call : RuleCall) (page : TokenPage) (party : Party) (reach : Token × ℚ) :
    List Candidate :=
  if ownedBelow R page (labelTokens R page) reach.1.region then []
  else appendReadings R call reach.1.text reach.1.region party reach.2 true

def rowReachCandidates (call : RuleCall) (page : TokenPage) (anchor : Region) (party : Party)
    (text : String) (loc : ℕ × ℕ) : List Candidate :=
  if call.rowReach && call.bounded && bareLabel R text loc then
    match rowReachToken R page anchor call.rule.relation with
    | none => []
    | some reach => reachReadings R call page party reach
  else []

def anchorCandidates (call : RuleCall) (re : Regexp) (page : TokenPage) :
    Token × Party → List Candidate
  | (tok, party) =>
    let text := labelView R tok.text
    match re text with
    | none => []
    | some loc =>
      if call.tier ≠ .learned && anchorOutranked R text loc then []
      else if !inBand call.band page.number tok.region then []
      else match call.rule.relation.kind with
        | .sameToken =>
          appendReadings R call (sameTokenValue text loc) tok.region party 0 false
        | .right | .below =>
          (relatedTokens R page tok.region call.rule.relation call.drop).flatMap
              (relatedReadings R call page tok.region party) ++
            rowReachCandidates R call page tok.region party text loc

def pageCandidates (call : RuleCall) (re : Regexp) (page : TokenPage) : List Candidate :=
  (page.tokens.zip (partyOrder R page)).flatMap (anchorCandidates R call re page)

/-- A rule with no compiled matcher yields nothing. -/
def appendRuleCandidates (pages : List TokenPage) (call : RuleCall) : List Candidate :=
  match call.rule.re with
  | none => []
  | some re => pages.flatMap (pageCandidates R call re)

/-- The first learned rule that produces anything for a field supersedes the rest. -/
def learnedCandidates (pages : List TokenPage) : List String → List AnchorRule → List Candidate
  | _, [] => []
  | claimed, r :: rest =>
    if r.field ∈ claimed then learnedCandidates pages claimed rest
    else
      let got := appendRuleCandidates R pages r.call
      got ++ learnedCandidates pages (if got.isEmpty then claimed else claimed ++ [r.field]) rest

def allCandidates (pages : List TokenPage) (rules : RuleSet) : List Candidate :=
  learnedCandidates R pages [] rules.learned ++
    rules.tier1.flatMap fun r => appendRuleCandidates R pages r.call

def ranked (pages : List TokenPage) (rules : RuleSet) (field : String) : List Candidate :=
  sortCandidates ((allCandidates R pages rules).filter fun c => c.field = field)

def maxCandidatesPerField : ℕ := 8

def resolve (pages : List TokenPage) (rules : RuleSet) : List Candidate :=
  headerFields.flatMap fun field => (ranked R pages rules field).take maxCandidatesPerField

end InvoiceOs.Extraction
