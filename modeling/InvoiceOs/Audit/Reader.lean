import InvoiceOs.Audit.Filter

/-! One read of the audit log: the page, the three facets, the labels, the count, and the probe
of an empty log, each statement over the same predicates. -/

namespace InvoiceOs.Audit

open Lib

/-! ### Statements -/

/-- A statement with the clause; it fails as its parameters are bound or as it is parsed, before
it reads a row. -/
def clause (x : Externals) (where_ : Text) : Except ReadErr (Row → Bool) :=
  if where_.isEmpty then pure fun _ => true
  else if where_.all fun t =>
      match t with
      | .cond a => a.uuids.all fun id => (x.uuidIn id).isSome
      | _ => true
  then
    match condition (where_.map (Token.map fun a r => a.holds x r)) with
    | none => throw .malformed
    | some p => pure p
  else throw .cast

def select (x : Externals) (v : View) (where_ : Text) : Except ReadErr (List Row) :=
  (clause x where_).map v.log.rows.filter

/-! ### Labels -/

inductive LabelKind where
  | system
  | person
  | raw
  deriving DecidableEq

structure Label where
  text : String
  kind : LabelKind
  deriving DecidableEq

def nonblank (s : Option String) : Option String := s.filter (· ≠ "")

def labelName (displayName email : Option String) (subject : String) : Label :=
  match nonblank displayName with
  | some name => { text := name, kind := .person }
  | none =>
    match nonblank email with
    | some address => { text := address, kind := .person }
    | none => { text := subject, kind := .raw }

def removedName (displayName : Option String) : Label :=
  match nonblank displayName with
  | some name => { text := name ++ " (deleted)", kind := .person }
  | none => { text := "Deleted member", kind := .person }

def isHexDigit (c : Char) : Bool := c.isDigit || ('a' ≤ c && c ≤ 'f')

/-- The `uuidShape` of a text: eight groups of four hex digits, a hyphen between any two or not. -/
def uuidShape : ℕ → List Char → Bool
  | 0, cs => cs = []
  | n + 1, a :: b :: c :: d :: rest =>
    isHexDigit a && isHexDigit b && isHexDigit c && isHexDigit d &&
      match n, rest with
      | _ + 1, '-' :: rest => uuidShape n rest
      | _, rest => uuidShape n rest
  | _, _ => false

def dropHyphens (s : List Char) : List Char := s.filter (· ≠ '-')

def normalizeUUID (subject : String) : Option (List Char) :=
  let lower := subject.toLower.toList
  let inner := (inBraces lower).getD lower
  if uuidShape 8 inner then some (dropHyphens inner) else none

/-- The last row that names the subject wins. -/
def resolve (memberships : List Membership) (subject : String) : Label :=
  if subject = "system" then { text := "System", kind := .system }
  else
    match normalizeUUID subject with
    | none => { text := subject, kind := .raw }
    | some norm =>
      memberships.foldl (fun label m =>
        if dropHyphens m.userID.text.toList = norm then
          if m.removed then removedName m.displayName else labelName m.displayName m.email subject
        else label) { text := subject, kind := .raw }

/-! ### The response -/

inductive CompanyScope where
  | company
  | workspace
  | unattributed
  deriving DecidableEq

def firmWideEvents : List String :=
  ["approval_policy.created", "approval_policy.updated", "approval_policy.published",
    "approval_policy.deleted", "approval_policy.reordered", "workflow_role.created",
    "workflow_role.updated", "workflow_role.deleted", "workflow_role.staffed",
    "membership.suspended", "membership.reactivated", "membership.removed", "account.signed_in",
    "account.sign_in_failed", "account.sign_in_blocked", "account.signed_out",
    "account.password_reset_requested", "account.password_reset_completed",
    "workspace.deletion_scheduled", "workspace.deletion_cancelled", "workspace.purge_started",
    "workspace.exported", "workspace.export_failed", "membership.account_deleted",
    "membership.admin_handed_on", "membership.client_access_set", "membership.role_changed",
    "workspace.provisioned", "invitation.sent", "invitation.resent", "invitation.accepted",
    "invitation.revoked", "validation.rule.enabled", "validation.rule.disabled",
    "customers.customer.updated", "customers.customer.created", "customers.customer.archived",
    "customers.customer.restored", "custom_rule.created", "custom_rule.updated",
    "custom_rule.deleted"]

def scopeOf (event : String) (entityID : Option Uuid) : CompanyScope :=
  if entityID.isSome then .company
  else if firmWideEvents.contains event then .workspace
  else .unattributed

structure Event where
  id : String
  createdAt : ℕ
  event : String
  actor : String
  actorName : String := ""
  actorKind : Option LabelKind := none
  entityID : Option Uuid
  companyName : Option String
  companyScope : CompanyScope
  payload : Payload
  deriving DecidableEq

structure PageInfo where
  limit : ℤ
  hasMore : Bool := false
  nextCursor : Option Cursor := none
  deriving DecidableEq

structure Facet where
  value : Option String
  name : Option String := none
  kind : Option LabelKind := none
  count : ℕ
  deriving DecidableEq

structure Facets where
  event : List Facet := []
  actor : List Facet := []
  company : List Facet := []
  deriving DecidableEq

structure Response where
  events : List Event
  page : PageInfo
  total : ℕ := 0
  logIsEmpty : Bool := false
  facets : Facets := {}
  deriving DecidableEq

def companyName (v : View) (id : Option Uuid) : Option String :=
  id.bind fun id => (v.entities.find? fun e => e.id == id).map Entity.name

def eventOf (v : View) (r : Row) : Event where
  id := toString r.id
  createdAt := r.createdAt
  event := r.event
  actor := r.actor
  entityID := r.entityID
  companyName := companyName v r.entityID
  companyScope := scopeOf r.event r.entityID
  payload := r.payload

/-! ### Facets -/

def buckets {κ : Type} [DecidableEq κ] (key : Row → κ) (rows : List Row) : List (κ × ℕ) :=
  (rows.map key).dedup.map fun k => (k, rows.countP fun r => key r == k)

def countOrder {κ : Type} : κ × ℕ → κ × ℕ → Bool :=
  descending (comparing Prod.snd fun a b => decide (a ≤ b))

def columnOrder (x : Externals) : String × ℕ → String × ℕ → Bool :=
  thenBy countOrder (comparing Prod.fst x.collation.le)

def companyOrder (x : Externals) :
    (Option Uuid × Option String) × ℕ → (Option Uuid × Option String) × ℕ → Bool :=
  thenBy countOrder (thenBy (comparing (fun b => b.1.2) (nullsLast x.collation.le))
    (comparing (fun b => b.1.1) (nullsLast (comparing BitVec.toNat fun a b => decide (a ≤ b)))))

def facetColumn (x : Externals) (v : View) (f : Filter) (s : SearchTargets) (column : Row → String) :
    Except ReadErr (List Facet) := do
  let where_ ← filterPredicates f s
  let rows ← select x v where_
  pure (((buckets column rows).mergeSort (columnOrder x)).map fun b =>
    { value := some b.1, count := b.2 })

def facetCompany (x : Externals) (v : View) (f : Filter) (s : SearchTargets) :
    Except ReadErr (List Facet) := do
  let where_ ← filterPredicates f s
  let rows ← select x v where_
  let groups := buckets (fun r => (r.entityID, companyName v r.entityID)) rows
  pure ((groups.mergeSort (companyOrder x)).map fun b =>
    { value := b.1.1.map Uuid.text, name := b.1.2, count := b.2 })

/-- Each facet clears its own dimension and keeps the rest. -/
def facetCounts (x : Externals) (v : View) (f : Filter) (s : SearchTargets) :
    Except ReadErr Facets := do
  let event ← facetColumn x v { f with events := [] } s Row.event
  let actor ← facetColumn x v { f with actors := [] } s Row.actor
  let company ← facetCompany x v { f with company := .allCompanies } s
  pure { event := event, actor := actor, company := company }

/-! ### The read -/

def pageOrder : Row → Row → Bool :=
  thenBy (descending (comparing Row.createdAt fun a b => decide (a ≤ b)))
    (descending (comparing Row.id fun a b => decide (a ≤ b)))

def pageWhere (where_ : Text) : Option Cursor → Text
  | none => where_
  | some c =>
    if where_.isEmpty then [.cond (.before c)] else where_ ++ [.and, .cond (.before c)]

def pageOf (limit : ℤ) (rows : List Row) : List Row × PageInfo :=
  if limit.toNat < rows.length then
    let page := rows.take limit.toNat
    (page, { limit := limit, hasMore := true
             nextCursor := page.getLast?.map fun r => { createdAt := r.createdAt, id := r.id } })
  else (rows, { limit := limit })

def labelEvent (v : View) (e : Event) : Event :=
  let l := resolve v.memberships e.actor
  { e with actorName := l.text, actorKind := some l.kind }

def labelFacet (v : View) (b : Facet) : Facet :=
  match b.value with
  | none => b
  | some value =>
    let l := resolve v.memberships value
    { b with name := some l.text, kind := some l.kind }

def query (x : Externals) (v : View) (f : Filter) : Except ReadErr Response :=
  if f.limit ≤ 0 then throw (.limit f.limit)
  else do
    let targets := resolveSearchTargets x v f.q
    let where_ ← filterPredicates f targets
    let rows ← select x v (pageWhere where_ f.cursor)
    let page := pageOf f.limit ((rows.mergeSort pageOrder).take (f.limit.toNat + 1))
    let facets ← facetCounts x v f targets
    let counted ← select x v where_
    pure {
      events := page.1.map fun r => labelEvent v (eventOf v r)
      page := page.2
      total := counted.length
      facets := { facets with actor := facets.actor.map (labelFacet v) } }

def logIsEmpty (x : Externals) (v : View) (scope : CallerScope) : Except ReadErr Bool :=
  if scope.restricts then do
    let where_ ← filterPredicates { limit := 0, scope := scope } {}
    let rows ← select x v where_
    pure rows.isEmpty
  else pure v.log.rows.isEmpty

/-- The scope as the request's transaction reads it: a subject that is no uuid is in process. -/
def callerScope (x : Externals) (v : View) (subject guc : String) : Except ReadErr CallerScope :=
  let scope := scopeFromGUC x guc
  if x.uuidParse subject then
    match x.uuidIn subject with
    | none => throw .cast
    | some u =>
      let admin := (v.memberships.find? fun m => m.userID == u).any Membership.admin
      pure { scope with admin := admin, self := subject }
  else pure { scope with admin := true, self := subject }

def list (x : Externals) (v : View) (subject guc : String) (f : Filter) :
    Except ReadErr Response := do
  let scope ← callerScope x v subject guc
  let out ← query x v { f with scope := scope }
  if out.total = 0 then
    let empty ← logIsEmpty x v scope
    pure { out with logIsEmpty := empty }
  else pure out

end InvoiceOs.Audit
