import InvoiceOs.Extraction.Candidates
import InvoiceOs.Extraction.Shapes

/-! Anchor rules: a label to find, where the value sits relative to it, and the shape it must
take. The learned ones are stored per layout; the shipped ones are built from the lexicon. -/

namespace InvoiceOs.Extraction

inductive RelationKind where
  | sameToken
  | right
  | below
  deriving DecidableEq, Repr

/-- No distance is an infinite one. -/
structure Relation where
  kind : RelationKind
  maxDistance : Option ℚ

/-- `re` is the compiled label; a rule that was not parsed has none. -/
structure Rule where
  label : String
  relation : Relation
  shape : Shape
  re : Option Regexp

structure AnchorRule where
  id : String
  field : String
  rule : Rule

inductive PageBand where
  | anywhere
  | page1Top
  | page1Bottom
  deriving DecidableEq, Repr

structure Tier1Rule where
  key : String
  field : String
  rule : Rule
  band : PageBand := .anywhere
  partyScoped : Bool := false
  fallback : Bool := false
  drop : ℚ := 0
  rowReach : Bool := false

structure RuleSet where
  learned : List AnchorRule
  tier1 : List Tier1Rule

/-! ### The shipped set -/

def tier1MaxDistanceRight : ℚ := 35 / 100

def tier1MaxDistanceBelow : ℚ := 6 / 100

def tier1DropRight : ℚ := 97 / 100

def tier1TINSweepLabel : String := "^\\s*[0-9]\x7b8\x7d-[0-9]\x7b4\x7d\\s*$"

def tier1Specs : List (String × String × Shape) :=
  [("invoice_no", "invoice_number", .invoiceNumber),
    ("issue_date", "issue_date", .date),
    ("supplier_tin", "supplier_tin", .tin),
    ("buyer_tin", "buyer_tin", .tin),
    ("supplier_name", "supplier_name", .name),
    ("buyer_name", "buyer_name", .name),
    ("currency", "currency", .currency),
    ("subtotal", "subtotal", .amount),
    ("vat", "vat", .amount),
    ("total", "total", .amount),
    -- filled by the AI alone: no label, so no rule
    ("", "due_date", .date),
    ("", "buyer_email", .email),
    ("", "buyer_telephone", .phone),
    ("", "buyer_street", .name),
    ("", "buyer_city", .name),
    ("", "buyer_postal_zone", .name),
    ("", "buyer_country", .name),
    ("", "buyer_state", .name),
    ("", "buyer_lga", .name),
    ("", "original_invoice_number", .invoiceNumber)]

section
variable (R : Runtime)

def mustTier1Rule (key field label : String) (kind : RelationKind) (maxDistance : ℚ)
    (shape : Shape) : Tier1Rule where
  key
  field
  rule := {
    label, shape
    relation := { kind, maxDistance := some (R.round maxDistance) }
    re := some (R.mustCompile label) }

def mustTier1PartyRule (key label : String) (kind : RelationKind) (maxDistance : ℚ) :
    Tier1Rule :=
  { mustTier1Rule R key "supplier_tin" label kind maxDistance .tin with partyScoped := true }

def specRules : String × String × Shape → List Tier1Rule
  | (labelID, field, shape) =>
    let label := anchorPattern labelID
    let bare := anchorPattern "bare_tin"
    if labelID = "" then [] else
    [mustTier1Rule R ("t1." ++ field ++ ".same_token") field label .sameToken 0 shape,
      mustTier1Rule R ("t1." ++ field ++ ".right") field label .right tier1MaxDistanceRight shape,
      mustTier1Rule R ("t1." ++ field ++ ".below") field label .below tier1MaxDistanceBelow shape] ++
    if labelID = "buyer_tin" then
      [mustTier1PartyRule R "t1.tin.same_token" bare .sameToken 0,
        mustTier1PartyRule R "t1.tin.right" bare .right tier1MaxDistanceRight,
        mustTier1PartyRule R "t1.tin.below" bare .below tier1MaxDistanceBelow]
    else []

def withReach (r : Tier1Rule) : Tier1Rule :=
  match r.rule.relation.kind with
  | .right => { r with drop := R.round tier1DropRight, rowReach := r.rule.shape = .amount }
  | .sameToken | .below => r

def tier1Rules : List Tier1Rule :=
  (tier1Specs.flatMap (specRules R)).map (withReach R) ++
    [mustTier1PartyRule R "t1.tin.sweep" tier1TINSweepLabel .sameToken 0,
      { mustTier1Rule R "t1.currency.sweep" "currency" nairaTokenPattern .sameToken 0 .currency
        with fallback := true }]

end

@[simp] theorem withReach_key (R : Runtime) (r : Tier1Rule) : (withReach R r).key = r.key := by
  unfold withReach
  split <;> rfl

def specKeys : String × String × Shape → List String
  | (labelID, field, _) =>
    if labelID = "" then [] else
    ["t1." ++ field ++ ".same_token", "t1." ++ field ++ ".right", "t1." ++ field ++ ".below"] ++
    if labelID = "buyer_tin" then ["t1.tin.same_token", "t1.tin.right", "t1.tin.below"] else []

theorem map_key_specRules (R : Runtime) (spec : String × String × Shape) :
    (specRules R spec).map Tier1Rule.key = specKeys spec := by
  obtain ⟨labelID, field, shape⟩ := spec
  by_cases hnone : labelID = ""
  · simp only [specRules, specKeys, if_pos hnone, List.map_nil]
  · simp only [specRules, specKeys, if_neg hnone, List.map_append]
    by_cases hbuyer : labelID = "buyer_tin"
    · simp only [if_pos hbuyer]
      rfl
    · simp only [if_neg hbuyer]
      rfl

theorem nodup_tier1_keys (R : Runtime) : ((tier1Rules R).map Tier1Rule.key).Nodup := by
  have hkeys : (tier1Rules R).map Tier1Rule.key =
      tier1Specs.flatMap specKeys ++ ["t1.tin.sweep", "t1.currency.sweep"] := by
    have hreach : (Tier1Rule.key ∘ withReach R) = Tier1Rule.key := funext (withReach_key R)
    rw [tier1Rules, List.map_append, List.map_map, hreach, List.map_flatMap]
    simp only [map_key_specRules]
    rfl
  rw [hkeys]
  decide +kernel

end InvoiceOs.Extraction
