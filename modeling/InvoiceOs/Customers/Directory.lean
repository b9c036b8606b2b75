import InvoiceOs.Lib.OrderBy
import InvoiceOs.Lib.Refusal
import InvoiceOs.Lib.Table
import InvoiceOs.Text

/-! The buyer directory of one workspace: filled from invoices one at a time or all at once, and
written by members. -/

namespace InvoiceOs.Customers

open Lib

inductive Column where
  | name
  | contactPerson
  | buyerType
  | email
  | telephone
  | street
  | city
  | postalZone
  | country
  | state
  | lga
  deriving DecidableEq

def Column.sorted : List Column :=
  [.buyerType, .city, .contactPerson, .country, .email, .lga, .name, .postalZone, .state, .street,
    .telephone]

theorem Column.mem_sorted (c : Column) : c ∈ sorted := by
  cases c <;> decide

abbrev Values := Column → Option String

inductive CustomerStatus where
  | active
  | archived
  deriving DecidableEq

structure Customer where
  id : Uuid
  values : Values
  editedFields : List Column := []
  status : CustomerStatus := .active

structure InvoiceRow where
  id : Uuid
  createdAt : ℕ
  invoiceNumber : String
  buyerTIN : Option String := none
  buyerName : Option String := none
  invoiceKind : Option String := none
  buyerEmail : Option String := none
  buyerTelephone : Option String := none
  buyerStreet : Option String := none
  buyerCity : Option String := none
  buyerPostalZone : Option String := none
  buyerCountry : Option String := none
  buyerState : Option String := none
  buyerLGA : Option String := none
  deriving DecidableEq

/-- What became of a record, for the statements about runs; nothing reads it. -/
inductive Entry where
  | wrote (tin : String) (sent : Column → Option (Option String))
  | filled (tin : String) (values : Values)

/-- A customer is found by its TIN, which is unique; the journal is newest first. -/
structure Db where
  invoices : List InvoiceRow
  unique : (invoices.map InvoiceRow.id).Nodup
  customers : Table String Customer := ∅
  journal : List Entry := []

inductive Err where
  | noFields
  | notFound
  | buyerType
  | tinRequired
  | tinFormat
  | duplicateTIN
  | privilegedRole
  | indexRowSize
  deriving DecidableEq

/-- The order of texts in the database, and whether the unique index has room for a TIN. -/
structure Externals where
  collate : String → String → Bool
  indexable : String → Bool

/-! ### Text -/

/-- `btrim` takes spaces off, and nothing else. -/
def btrim (s : String) : String := String.ofList (trim (· = ' ') s.toList)

def nullIfBlank (v : Option String) : Option String := (v.map btrim).filter (· ≠ "")

def isBuyerType (s : String) : Bool := s = "B2B" || s = "B2G" || s = "B2C"

def kindOf (v : Option String) : Option String := (v.map btrim).filter isBuyerType

/-- `^([0-9]{8}-[0-9]{4}|RN-[0-9]+)$`. -/
def fileableTIN (s : String) : Bool :=
  let cs := s.toList
  (cs.length == 13 && (cs.take 8).all Char.isDigit && cs[8]? == some '-' &&
      (cs.drop 9).all Char.isDigit) ||
    (cs.take 3 == ['R', 'N', '-'] && !(cs.drop 3).isEmpty && (cs.drop 3).all Char.isDigit)

namespace InvoiceRow

def tin (i : InvoiceRow) : Option String := (i.buyerTIN.map btrim).filter fileableTIN

def buyer (i : InvoiceRow) : Values
  | .name => nullIfBlank i.buyerName
  | .contactPerson => none
  | .buyerType => kindOf i.invoiceKind
  | .email => nullIfBlank i.buyerEmail
  | .telephone => nullIfBlank i.buyerTelephone
  | .street => nullIfBlank i.buyerStreet
  | .city => nullIfBlank i.buyerCity
  | .postalZone => nullIfBlank i.buyerPostalZone
  | .country => nullIfBlank i.buyerCountry
  | .state => nullIfBlank i.buyerState
  | .lga => nullIfBlank i.buyerLGA

end InvoiceRow

/-! ### The fill -/

/-- A corrected field is not written, and no blank value clears one. -/
def Customer.fill (c : Customer) (values : Values) : Customer :=
  { c with values := fun col =>
      if col ∈ c.editedFields then c.values col else (values col).or (c.values col) }

def Db.filed (db : Db) (tin : String) (values : Values) (c : Customer) : Db :=
  { db with customers := db.customers.set tin c, journal := .filled tin values :: db.journal }

section
variable (x : Externals)

def upsert (db : Db) (tin : String) (values : Values) (newID : Uuid) : Except Err Db :=
  match db.customers.get? tin with
  | some c => pure (db.filed tin values (c.fill values))
  | none =>
    if ¬ x.indexable tin then throw .indexRowSize
    else pure (db.filed tin values { id := newID, values := values })

def fillFromInvoice (db : Db) (invoiceID newID : Uuid) : Except Err Db :=
  match db.invoices.find? fun i => i.id == invoiceID with
  | none => pure db
  | some i =>
    match i.tin with
    | none => pure db
    | some tin => upsert x db tin i.buyer newID

/-! ### Members -/

/-- `nil` leaves a column unchanged. -/
abbrev UpdateInput := Column → Option String

def UpdateInput.sent (input : UpdateInput) (col : Column) : Option (Option String) :=
  (input col).map fun v => if trimSpace v = "" then none else some (trimSpace v)

/-- The columns of a new record: a blank one is neither stored nor marked. -/
def UpdateInput.stored (input : UpdateInput) (col : Column) : Option (Option String) :=
  (input.sent col).filter Option.isSome

def markEdited (edited : List Column) (sent : Column → Option (Option String)) : List Column :=
  Column.sorted.filter fun col => decide (col ∈ edited) || (sent col).isSome

def checkBuyerType (values : Values) : Bool := (values .buyerType).all isBuyerType

def write (values : Values) (sent : Column → Option (Option String)) : Values :=
  fun col => (sent col).getD (values col)

def update (db : Db) (id : Uuid) (input : UpdateInput) : Except Err Db :=
  if ¬ Column.sorted.any fun col => (input.sent col).isSome then throw .noFields
  else
    match db.customers.rows.find? fun e => e.2.id == id with
    | none => throw .notFound
    | some (tin, c) =>
      let values := write c.values input.sent
      if ¬ checkBuyerType values then throw .buyerType
      else pure { db with
        customers := db.customers.set tin { c with
          values := values
          editedFields := markEdited c.editedFields input.sent }
        journal := .wrote tin input.sent :: db.journal }

def create (db : Db) (tin : Option String) (input : UpdateInput) (newID : Uuid) : Except Err Db :=
  match tin.map trimSpace with
  | none => throw .tinRequired
  | some tin =>
    if tin = "" then throw .tinRequired
    else if ¬ fileableTIN tin then throw .tinFormat
    else
      let values := write (fun _ => none) input.stored
      if ¬ checkBuyerType values then throw .buyerType
      else if ¬ x.indexable tin then throw .tinFormat
      else if (db.customers.get? tin).isSome then throw .duplicateTIN
      else pure { db with
        customers := db.customers.set tin {
          id := newID
          values := values
          editedFields := markEdited [] input.stored }
        journal := .wrote tin input.stored :: db.journal }

/-! ### The backfill -/

/-- `ORDER BY created_at DESC, id DESC`. -/
def newestFirst : InvoiceRow → InvoiceRow → Bool :=
  thenBy (descending (comparing InvoiceRow.createdAt fun a b => decide (a ≤ b)))
    (descending (comparing (fun i => i.id.toNat) fun a b => decide (a ≤ b)))

def Db.ofTIN (db : Db) (tin : String) : List InvoiceRow :=
  db.invoices.filter fun i => i.tin == some tin

def newest (rows : List InvoiceRow) (col : Column) : Option String :=
  ((rows.mergeSort newestFirst).filterMap fun i => i.buyer col).head?

structure BackfillRow where
  tin : String
  vals : Values
  names : List String
  exists_ : Bool
  existing : Option String

structure SkippedInvoice where
  invoiceNumber : String
  tin : String
  deriving DecidableEq

structure Collision where
  tin : String
  names : List String
  chosen : String := ""
  existing : Bool
  deriving DecidableEq

structure BackfillResult where
  invoicesRead : ℕ := 0
  tins : ℕ := 0
  created : ℕ := 0
  existing : ℕ := 0
  noTIN : ℕ := 0
  skipped : List SkippedInvoice := []
  collisions : List Collision := []
  deriving DecidableEq

def aggregate (db : Db) (tin : String) : BackfillRow where
  tin := tin
  vals := newest (db.ofTIN tin)
  names := ((db.ofTIN tin).filterMap fun i => i.buyer .name).dedup
  exists_ := (db.customers.get? tin).isSome
  existing := (db.customers.get? tin).bind fun c => c.values .name

def backfillAgg (db : Db) : List BackfillRow :=
  ((db.invoices.filterMap InvoiceRow.tin).dedup.mergeSort x.collate).map (aggregate db)

def countNoTIN (db : Db) : ℕ := db.invoices.countP fun i => (nullIfBlank i.buyerTIN).isNone

def skippedInvoices (db : Db) : List SkippedInvoice :=
  ((db.invoices.filter fun i => (nullIfBlank i.buyerTIN).isSome && i.tin.isNone).mergeSort
    (thenBy (comparing InvoiceRow.invoiceNumber x.collate)
      (comparing (fun i => i.id.toNat) fun a b => decide (a ≤ b)))).map fun i =>
        { invoiceNumber := i.invoiceNumber, tin := i.buyerTIN.getD "" }

def sortStrings (names : List String) : List String := names.mergeSort fun a b => decide (a ≤ b)

def collisionOf (r : BackfillRow) : List Collision :=
  if 1 < r.names.length then
    [{ tin := r.tin
       names := sortStrings r.names
       chosen := if r.exists_ then r.existing.getD "" else (r.vals .name).getD ""
       existing := r.exists_ }]
  else []

/-- `ON CONFLICT DO NOTHING`, and the rows affected. -/
def backfillInsert (db : Db) (r : BackfillRow) (newID : Uuid) : Except Err (Db × ℕ) :=
  match db.customers.get? r.tin with
  | some _ => pure (db, 0)
  | none =>
    if ¬ x.indexable r.tin then throw .indexRowSize
    else pure (db.filed r.tin r.vals { id := newID, values := r.vals }, 1)

def backfillStep (dryRun : Bool) (ids : String → Uuid) (s : Db × BackfillResult)
    (r : BackfillRow) : Except Err (Db × BackfillResult) :=
  let res := { s.2 with collisions := s.2.collisions ++ collisionOf r }
  if r.exists_ then pure (s.1, res)
  else if dryRun then pure (s.1, { res with created := res.created + 1 })
  else do
    let (db, affected) ← backfillInsert x s.1 r (ids r.tin)
    return (db, { res with created := res.created + affected })

def backfill (privileged : Bool) (ids : String → Uuid) (db : Db) (dryRun : Bool) :
    Except Err (Db × BackfillResult) :=
  if privileged then throw .privilegedRole
  else do
    let found := backfillAgg x db
    let (db', res) ← found.foldlM (backfillStep x dryRun ids) (db, {
      invoicesRead := db.invoices.length
      noTIN := countNoTIN db
      skipped := skippedInvoices x db
      tins := found.length })
    return (db', { res with existing := res.tins - res.created })

end

end InvoiceOs.Customers
