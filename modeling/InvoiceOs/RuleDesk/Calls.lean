import InvoiceOs.RuleDesk.Versions

/-! What staff do at the rules desk: each call one transaction, with its row in the staff journal. -/

namespace InvoiceOs.RuleDesk

open Lib Validation

def maxDraftParamsBytes : ℕ := 16384
def maxDraftKeyLen : ℕ := 64
def maxDraftTargetRunes : ℕ := 200
def maxDraftWhenRunes : ℕ := 2000
def maxDraftMessageRunes : ℕ := 500

inductive DeskError where
  | badRequest (message : String)
  | notStaff
  | noActiveRuleSet
  | draftExists
  | noDraft
  | ruleInDraft
  | ruleNotInDraft
  | startDateInPast
  | draftInvalid (text : String)
  | ruleNotInForce
  | ruleAlreadyInState
  | uniqueViolation
  deriving DecidableEq

/-! ### The rule of a request -/

structure DraftRuleRequest where
  type : RuleType
  target : String
  params : String
  severity : String
  guard : Option String
  message : String
  enabled : Option Bool

/-- A rule body that passed `validateDraftRule`. -/
structure Validated where
  type : RuleType
  target : String
  severity : Severity
  message : String
  params : Json
  guard : Option String
  enabled : Bool

def isKeyChar (c : Char) : Bool := ('a' ≤ c && c ≤ 'z') || ('0' ≤ c && c ≤ '9')

/-- `^[a-z0-9]+(-[a-z0-9]+)*$` -/
def draftKeyPattern (key : String) : Bool :=
  (key.toList.splitOn '-').all fun part => part ≠ [] && part.all isKeyChar

def draftSeverity : String → Option Severity
  | "error" => some .error
  | "warning" => some .warning
  | "info" => some .info
  | _ => none

section
variable (x : Externals)

def draftParams (params : String) : Except String (List (String × Json)) :=
  let raw := trimSpace params
  if raw = "" ∨ raw = "null" then .ok []
  else if maxDraftParamsBytes < raw.utf8ByteSize then
    .error ("params must be at most " ++ maxDraftParamsBytes.repr ++ " bytes")
  else
    match x.unmarshal raw with
    | some (.obj entries) => .ok entries
    | _ => .error "params must be a JSON object"

def draftGuard : Option String → Except String Unit
  | none => .ok ()
  | some w =>
    if trimSpace w = "" ∨ maxDraftWhenRunes < w.length then
      .error ("when must be 1 to " ++ maxDraftWhenRunes.repr ++ " characters")
    else if !x.compileCEL w then .error "when must compile to a boolean expression"
    else .ok ()

def draftTypeParams (type : RuleType) (params : List (String × Json)) : Except String Unit :=
  match type with
  | .cel =>
    let expr := match lookup "expr" params with
      | some (.str s) => s
      | _ => ""
    if trimSpace expr = "" then .error "a cel rule needs params.expr"
    else if !x.compileCEL expr then .error "params.expr must compile to a boolean expression"
    else .ok ()
  | .format =>
    match lookup "pattern" params with
    | some (.str pattern) =>
      match x.backend.compileRegexp pattern with
      | .error _ => .error "params.pattern does not compile"
      | .ok _ => .ok ()
    | _ => .error "a format/regex rule needs params.pattern"
  | _ => .ok ()

def validateDraftRule (key : String) (req : DraftRuleRequest) : Except String Validated := do
  if maxDraftKeyLen < key.utf8ByteSize ∨ draftKeyPattern key = false then
    .error ("key must be kebab-case, 1 to " ++ maxDraftKeyLen.repr ++ " characters")
  else if isKnown req.type = false then .error "unknown rule type"
  else
    match draftSeverity req.severity with
    | none => .error "severity must be error, warning or info"
    | some severity =>
      if maxDraftTargetRunes < req.target.length then
        .error ("target must be at most " ++ maxDraftTargetRunes.repr ++ " characters")
      else
        let params ← draftParams x req.params
        let _ ← draftGuard x req.guard
        let _ ← draftTypeParams x req.type params
        let message := trimSpace req.message
        if message.length < 1 ∨ maxDraftMessageRunes < message.length then
          .error ("message must be 1 to " ++ maxDraftMessageRunes.repr ++ " characters")
        else
          match req.enabled with
          | none => .error "enabled is required"
          | some enabled =>
            .ok { type := req.type, target := req.target, severity, message,
                  params := .obj params, guard := req.guard, enabled }

end

/-! ### The journal -/

inductive StaffEvent where
  | draftOpened (version fromVersion : ℤ)
  | ruleAdded (version : ℤ) (key : String) (rule : Validated)
  | ruleChanged (version : ℤ) (key : String) (rule : Validated)
  | ruleRemoved (version : ℤ) (key : String)
  | published (version : ℤ) (effectiveFrom : ℤ) (ruleCount : ℕ)
  | ruleSwitched (key : String) (enabled : Bool) (version : ℤ) (reason : String)

structure StaffRow where
  actor : String
  event : StaffEvent
  ruleSetVersionID : String

structure Desk where
  versions : Versions
  journal : List StaffRow

def Desk.record (s : Desk) (versions : Versions) (row : StaffRow) : Desk :=
  { versions, journal := s.journal ++ [row] }

@[simp] theorem Desk.record_versions (s : Desk) (vs : Versions) (row : StaffRow) :
    (s.record vs row).versions = vs := rfl

@[simp] theorem Desk.record_journal (s : Desk) (vs : Versions) (row : StaffRow) :
    (s.record vs row).journal = s.journal ++ [row] := rfl

/-- What the database answers a call with: its date, the house's members, the code lists, and
the id it draws for a new row. -/
structure Env where
  today : ℤ
  isHouseMember : String → Bool
  lists : String → Option (List String)
  newID : String

/-! ### The draft -/

def Version.isDraft (v : Version) : Bool := v.standing = .draft

def draftOf (vs : Versions) : Option (String × Version) := vs.rows.find? fun e => e.2.isDraft

def maxNumber (vs : Versions) : ℤ := ((vs.rows.map fun e => e.2.number).max?).getD 0

def draftNotes (fromVersion : ℤ) : String := "Rules desk: from v" ++ fromVersion.repr

def opened (number : ℤ) (src : Version) : Version :=
  { number, standing := .draft, rules := src.rules, notes := draftNotes src.number }

/-- The insert leaves the scope of a rule to be the document. -/
def Validated.row (r : Validated) (scope : String) : RuleRow :=
  { type := r.type, target := r.target, params := r.params, severity := r.severity,
    guard := r.guard, message := r.message, scope, enabled := r.enabled }

/-- `IS NOT DISTINCT FROM`, column by column. -/
def sameRule (old : RuleRow) (r : Validated) : Bool :=
  old.type = r.type && old.target = r.target && deepEqual old.params r.params &&
    old.severity = r.severity && old.guard = r.guard && old.message = r.message &&
    old.enabled = r.enabled

def Version.setRule (v : Version) (key : String) (row : RuleRow) : Version :=
  { v with rules := v.rules.set key row }

def Version.removeRule (v : Version) (key : String) : Version :=
  { v with rules := v.rules.deleteWhere fun k _ => k = key }

def Version.switch (v : Version) (key : String) (enabled : Bool) : Version :=
  { v with rules := v.rules.modify key fun row => { row with enabled } }

def Version.seal (v : Version) (effectiveFrom : ℤ) : Version :=
  { v with standing := .sealed (some effectiveFrom) }

section
variable (x : Externals) (e : Env) (actor : String) (s : Desk)

def openDraft : Except DeskError Desk :=
  if e.isHouseMember actor = false then .error .notStaff
  else
    match versionFor s.versions e.today with
    | none => .error .noActiveRuleSet
    | some (_, src) =>
      if (draftOf s.versions).isSome then .error .draftExists
      else if (s.versions.get? e.newID).isSome then .error .uniqueViolation
      else
        let number := maxNumber s.versions + 1
        .ok (s.record (s.versions.set e.newID (opened number src))
          ⟨actor, .draftOpened number src.number, e.newID⟩)

def addDraftRule (key : String) (req : DraftRuleRequest) : Except DeskError Desk := do
  let rule ← (validateDraftRule x key req).mapError .badRequest
  if e.isHouseMember actor = false then .error .notStaff
  else
    match draftOf s.versions with
    | none => .error .noDraft
    | some (id, v) =>
      if (v.rules.get? key).isSome then .error .ruleInDraft
      else .ok (s.record (s.versions.modify id fun v => v.setRule key (rule.row "document"))
        ⟨actor, .ruleAdded v.number key rule, id⟩)

/-- A rule that is there as it is asked for is not written, and the journal says nothing. -/
def editDraftRule (key : String) (req : DraftRuleRequest) : Except DeskError Desk := do
  let rule ← (validateDraftRule x key req).mapError .badRequest
  if e.isHouseMember actor = false then .error .notStaff
  else
    match draftOf s.versions with
    | none => .error .noDraft
    | some (id, v) =>
      match v.rules.get? key with
      | none => .error .ruleNotInDraft
      | some old =>
        if sameRule old rule then .ok s
        else .ok (s.record (s.versions.modify id fun v => v.setRule key (rule.row old.scope))
          ⟨actor, .ruleChanged v.number key rule, id⟩)

def removeDraftRule (key : String) : Except DeskError Desk :=
  if e.isHouseMember actor = false then .error .notStaff
  else
    match draftOf s.versions with
    | none => .error .noDraft
    | some (id, v) =>
      if (v.rules.get? key).isSome then
        .ok (s.record (s.versions.modify id fun v => v.removeRule key)
          ⟨actor, .ruleRemoved v.number key, id⟩)
      else .error .ruleNotInDraft

/-! ### Publishing -/

def sampleInvoice : Payload where
  invoice := some (.obj [("invoice_number", .str "INV-2026-000123"),
    ("issue_date", .str "2026-07-11"), ("currency", .str "NGN"),
    ("supplier", .obj [("tin", .str "12345678-0001"), ("name", .str "Acme Nigeria Ltd")]),
    ("buyer", .obj [("tin", .str "87654321-0002"), ("name", .str "Buyer Ltd")]),
    ("subtotal", .num 1000), ("vat", .num 75), ("total", .num 1075),
    ("line_items", .arr [.obj [("id", .str "1"), ("description", .str "Widget"),
      ("quantity", .num 10), ("unit_price", .num 100), ("line_total", .num 1000)]])])

def probes : List Payload := [⟨some (.obj [])⟩, sampleInvoice]

def Externals.on (today : ℤ) : Backend := { x.backend with today }

/-- One rule as if switched on, on each probe. -/
def probeRule (rs : RuleSet) (r : Rule) : Except DeskError Unit :=
  let on := { r with enabled := true }
  match attachCodeList e.lists on with
  | .error err => .error (.draftInvalid ("rule " ++ r.key ++ ": " ++ err.text))
  | .ok one =>
    probes.forM fun p =>
      match evaluate (x.on e.today) p { rs with rules := [one] } with
      | .error err => .error (.draftInvalid
          ("the draft does not evaluate: rule " ++ r.key ++ ": " ++ err))
      | .ok _ => .ok ()

def loadDraft (id : String) : Except DeskError RuleSet :=
  match loadRuleSetByID e.lists x s.versions id with
  | .ok rs => .ok rs
  | .error (.emptyRuleSet _ _) => .error (.draftInvalid "the draft has no rules")
  | .error (.codeListMissing list) => .error (.draftInvalid (LoadError.codeListMissing list).text)
  | .error .noActiveRuleSet => .error .noActiveRuleSet

def publishDraft (effectiveFrom : ℤ) : Except DeskError Desk := do
  match draftOf s.versions with
  | none => .error .noDraft
  | some (id, v) =>
    let rs ← loadDraft x e s id
    let _ ← rs.rules.forM (probeRule x e rs)
    if e.isHouseMember actor = false then .error .notStaff
    else if effectiveFrom < e.today then .error .startDateInPast
    else if v.rules.rows = [] then .error (.draftInvalid "the draft has no rules")
    else .ok (s.record (s.versions.modify id fun v => v.seal effectiveFrom)
      ⟨actor, .published v.number effectiveFrom v.rules.rows.length, id⟩)

/-! ### The kill switch -/

def switchRule (key : String) (enabled : Bool) (reason : String) : Except DeskError Desk :=
  if e.isHouseMember actor = false then .error .notStaff
  else
    match versionFor s.versions e.today with
    | none => .error .ruleNotInForce
    | some (id, v) =>
      match v.rules.get? key with
      | none => .error .ruleNotInForce
      | some row =>
        if row.enabled = enabled then .error .ruleAlreadyInState
        else .ok (s.record (s.versions.modify id fun v => v.switch key enabled)
          ⟨actor, .ruleSwitched key enabled v.number reason, id⟩)

end

/-! ### Runs -/

inductive Call where
  | openDraft
  | addDraftRule (key : String) (req : DraftRuleRequest)
  | editDraftRule (key : String) (req : DraftRuleRequest)
  | removeDraftRule (key : String)
  | publishDraft (effectiveFrom : ℤ)
  | switchRule (key : String) (enabled : Bool) (reason : String)

structure Act where
  env : Env
  actor : String
  call : Call

variable (x : Externals)

def serve (s : Desk) (a : Act) : Except DeskError Desk :=
  match a.call with
  | .openDraft => openDraft a.env a.actor s
  | .addDraftRule key req => addDraftRule x a.env a.actor s key req
  | .editDraftRule key req => editDraftRule x a.env a.actor s key req
  | .removeDraftRule key => removeDraftRule a.env a.actor s key
  | .publishDraft start => publishDraft x a.env a.actor s start
  | .switchRule key enabled reason => switchRule a.env a.actor s key enabled reason

def step (s : Desk) (a : Act) : Desk :=
  match serve x s a with
  | .ok s' => s'
  | .error _ => s

def run (s : Desk) (acts : List Act) : Desk := acts.foldl (step x) s

end InvoiceOs.RuleDesk
