import InvoiceOs.Lib.Condition
import InvoiceOs.Lib.OrderBy
import InvoiceOs.Lib.Refusal
import InvoiceOs.Text
import Mathlib.Data.String.Basic
import Mathlib.Order.Defs.LinearOrder

/-! The audit reader's filter: the caller's scope, the search lookups, and the one set of
predicates every statement of a request is built from. -/

namespace InvoiceOs.Audit

open Lib

/-! ### What the caller's transaction can see -/

/-- A payload as `jsonb_each_text` lists it, beside its text. -/
structure Payload where
  text : String
  each : List (String × Option String) := []
  deriving DecidableEq

structure Row where
  id : ℕ
  createdAt : ℕ
  event : String
  actor : String
  entityID : Option Uuid := none
  invoiceID : Option Uuid := none
  payload : Payload := { text := "\x7b\x7d" }
  deriving DecidableEq

structure Membership where
  userID : Uuid
  admin : Bool := false
  displayName : Option String := none
  email : Option String := none
  removed : Bool := false

structure Entity where
  id : Uuid
  name : String

structure Invoice where
  id : Uuid
  number : String

structure Log where
  rows : List Row
  unique : (rows.map Row.id).Nodup

/-- What row security leaves of the tables. -/
structure View where
  memberships : List Membership := []
  entities : List Entity := []
  invoices : List Invoice := []
  log : Log

structure Collation where
  le : String → String → Bool
  order : IsOrder le
  anti : ∀ a b, le a b = true → le b a = true → a = b

theorem le_anti (a b : String) (hab : decide (a ≤ b) = true) (hba : decide (b ≤ a) = true) : a = b :=
  le_antisymm (of_decide_eq_true hab) (of_decide_eq_true hba)

/-- The uuid library, and the database's uuid input, ILIKE with `ESCAPE '\'` and collation. -/
structure Externals where
  uuidParse : String → Bool
  uuidIn : String → Option Uuid
  ilike : String → String → Bool
  collation : Collation

/-! ### Scope -/

def accountEvents : List String :=
  ["account.signed_in", "account.sign_in_failed", "account.sign_in_blocked", "account.signed_out",
    "account.password_reset_requested", "account.password_reset_completed"]

structure CallerScope where
  set : Bool := false
  ids : List String := []
  admin : Bool := false
  self : String := ""
  deriving DecidableEq

def CallerScope.restricts (s : CallerScope) : Bool := s.set || !s.admin

/-- An element of the array literal, as the seam writes it. -/
def scopeID (x : Externals) (id : String) : Bool := x.uuidParse id && id.utf8ByteSize == 36

def inBraces : List Char → Option (List Char)
  | '\x7b' :: rest => if rest.getLast? = some '\x7d' then some rest.dropLast else none
  | _ => none

def scopeFromGUC (x : Externals) (v : String) : CallerScope :=
  if v = "" || v = "*" then {}
  else
    match inBraces v.toList with
    | none => { set := true }
    | some inner =>
      if inner = [] then { set := true }
      else
        let ids := (inner.splitOn ',').map String.ofList
        if ids.all (scopeID x) then { set := true, ids := ids } else { set := true }

/-! ### Filter -/

inductive CompanyFilter where
  | allCompanies
  | namedCompany (id : String)
  | workspaceOnly
  deriving DecidableEq

structure Cursor where
  createdAt : ℕ
  id : ℕ
  deriving DecidableEq

/-- `From` and `To` are unfiltered at the zero time. -/
structure Filter where
  limit : ℤ
  cursor : Option Cursor := none
  «from» : Option ℕ := none
  «to» : Option ℕ := none
  events : List String := []
  actors : List String := []
  actorKind : String := ""
  company : CompanyFilter := .allCompanies
  q : String := ""
  invoiceID : String := ""
  scope : CallerScope := {}

inductive ReadErr where
  | limit (got : ℤ)
  | actorKind (kind : String)
  | malformed
  | cast
  deriving DecidableEq

/-! ### Search -/

structure SearchTargets where
  subjects : List String := []
  companies : List String := []
  invoices : List String := []

def escapeChar (c : Char) : List Char :=
  if c = '\\' || c = '%' || c = '_' then ['\\', c] else [c]

/-- The backslash goes first, so none that is put in is escaped again. -/
def escapeLike (s : String) : String := String.ofList (s.toList.flatMap escapeChar)

def contains (q : String) : String := "%" ++ escapeLike q ++ "%"

def resolveSearchTargets (x : Externals) (v : View) (q : String) : SearchTargets :=
  if q = "" then {}
  else {
    subjects := (v.memberships.filter fun m => m.displayName.any (x.ilike · (contains q))).map
      fun m => m.userID.text
    companies := (v.entities.filter fun e => x.ilike e.name (contains q)).map fun e => e.id.text
    invoices := (v.invoices.filter fun i => x.ilike i.number (contains q)).map fun i => i.id.text }

/-! ### Predicates -/

inductive Atom where
  | entityAny (ids : List String)
  | eventAny (names : List String)
  | eventNone (names : List String)
  | actorIs (subject : String)
  | actorIsNot (subject : String)
  | actorAny (subjects : List String)
  | createdFrom (t : ℕ)
  | createdTo (t : ℕ)
  | entityIs (id : String)
  | entityNull
  | invoiceIs (id : String)
  | invoiceAny (ids : List String)
  | eventLike (pattern : String)
  | payloadLike (pattern : String)
  | before (c : Cursor)

/-- The texts cast to uuid as the parameters are bound. -/
def Atom.uuids : Atom → List String
  | .entityAny ids => ids
  | .entityIs id => [id]
  | .invoiceIs id => [id]
  | .invoiceAny ids => ids
  | _ => []

def uuidAny (x : Externals) (value : Option Uuid) (ids : List String) : Bool :=
  value.any fun u => ids.any fun id => x.uuidIn id == some u

/-- The comparison is true of the row; NULL is not. -/
def Atom.holds (x : Externals) (r : Row) : Atom → Bool
  | .entityAny ids => uuidAny x r.entityID ids
  | .eventAny names => names.contains r.event
  | .eventNone names => !names.contains r.event
  | .actorIs subject => r.actor == subject
  | .actorIsNot subject => r.actor != subject
  | .actorAny subjects => subjects.contains r.actor
  | .createdFrom t => decide (t ≤ r.createdAt)
  | .createdTo t => decide (r.createdAt ≤ t)
  | .entityIs id => uuidAny x r.entityID [id]
  | .entityNull => r.entityID.isNone
  | .invoiceIs id => uuidAny x r.invoiceID [id]
  | .invoiceAny ids => uuidAny x r.invoiceID ids
  | .eventLike pattern => x.ilike r.event pattern
  | .payloadLike pattern => r.payload.each.any fun kv =>
      kv.1 != "invoice_number" && kv.2.any (x.ilike · pattern)
  | .before c => decide (r.createdAt < c.createdAt ∨ r.createdAt = c.createdAt ∧ r.id < c.id)

abbrev Text := List (Token Atom)

def join (sep : Token Atom) (parts : List Text) : Text := [sep].intercalate parts

def group (sep : Token Atom) (parts : List Text) : Text :=
  .opening :: (join sep parts ++ [.closing])

/-- The two text arms stand always, each lookup arm where it found something. -/
def searchArms (q : String) (s : SearchTargets) : List Text :=
  [[.cond (.eventLike (contains q))], [.cond (.payloadLike (contains q))]] ++
    (if s.subjects = [] then [] else [[.cond (.actorAny s.subjects)]]) ++
    (if s.companies = [] then [] else [[.cond (.entityAny s.companies)]]) ++
    if s.invoices = [] then [] else [[.cond (.invoiceAny s.invoices)]]

def searchFragment (q : String) (s : SearchTargets) : Text := group .or (searchArms q s)

def scopeConditions (s : CallerScope) : List Text :=
  if s.set then
    [group .or [[.cond (.entityAny s.ids)],
      group .and [[.cond (.eventAny accountEvents)], [.cond (.actorIs s.self)]]]]
  else if !s.admin then
    [group .or [[.cond (.eventNone accountEvents)], [.cond (.actorIs s.self)]]]
  else []

def actorKindConditions (kind : String) : Except ReadErr (List Text) :=
  if kind = "" then pure []
  else if kind = "system" then pure [[.cond (.actorIs "system")]]
  else if kind = "people" then pure [[.cond (.actorIsNot "system")]]
  else throw (.actorKind kind)

def companyConditions : CompanyFilter → List Text
  | .allCompanies => []
  | .namedCompany id => [[.cond (.entityIs id)]]
  | .workspaceOnly => [[.cond .entityNull]]

def optional {α : Type} (value : Option α) (atom : α → Atom) : List Text :=
  match value with
  | none => []
  | some a => [[.cond (atom a)]]

/-- An empty list or text applies no filter. -/
def nonempty (values : List String) : Option (List String) :=
  if values = [] then none else some values

def predicates (f : Filter) (s : SearchTargets) : Except ReadErr (List Text) := do
  let kind ← actorKindConditions f.actorKind
  pure (scopeConditions f.scope ++ optional f.«from» .createdFrom ++ optional f.«to» .createdTo ++
    optional (nonempty f.events) .eventAny ++ optional (nonempty f.actors) .actorAny ++ kind ++
    companyConditions f.company ++
    (if f.invoiceID = "" then [] else [[.cond (.invoiceIs f.invoiceID)]]) ++
    if f.q = "" then [] else [searchFragment f.q s])

def filterPredicates (f : Filter) (s : SearchTargets) : Except ReadErr Text := do
  let conditions ← predicates f s
  pure (join .and conditions)

end InvoiceOs.Audit
