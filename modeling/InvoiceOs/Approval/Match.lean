import InvoiceOs.Approval.Policy

/-! Which version in force an invoice is held to: the first one whose every set scope
matches the document. -/

namespace InvoiceOs.Approval

structure InForceVersion where
  versionID : Uuid
  policyID : Uuid
  position : ℕ
  scopes : Scopes
  deriving DecidableEq

structure MatchDoc where
  documentType : DocumentType
  entityID : Uuid
  total : Option Decimal
  currency : Option String
  creatorRoles : List Uuid

inductive ScopeName where
  | documentType
  | client
  | amountBand
  | creatorRole
  deriving DecidableEq, Repr

/-- The amount arm of `matchScopes`, entered when the band has a currency. -/
def bandMatches (doc : MatchDoc) (s : Scopes) (currency : String) : Bool :=
  match doc.total with
  | none => false
  | some total =>
    doc.currency == some currency &&
    (match s.bandLower.bind Numeric.newFromString with
      | none => true
      | some lower => !decide (total < lower)) &&
    (match s.bandUpper.bind Numeric.newFromString with
      | none => true
      | some upper => !decide (total > upper))

def matchScopes (doc : MatchDoc) (v : InForceVersion) : Option (List ScopeName) := do
  let s := v.scopes
  let mut found : List ScopeName := []
  if s.documentTypes ≠ [] then
    if doc.documentType ∉ s.documentTypes then
      failure
    found := found ++ [.documentType]
  if s.entityIDs ≠ [] then
    if doc.entityID ∉ s.entityIDs then
      failure
    found := found ++ [.client]
  if let some currency := s.bandCurrency then
    if !bandMatches doc s currency then
      failure
    found := found ++ [.amountBand]
  if s.roleIDs ≠ [] then
    if !s.roleIDs.any (· ∈ doc.creatorRoles) then
      failure
    found := found ++ [.creatorRole]
  return found

def firstMatch (doc : MatchDoc) : List InForceVersion → Option (InForceVersion × List ScopeName)
  | [] => none
  | c :: versions =>
    match matchScopes doc c with
    | some m => some (c, m)
    | none => firstMatch doc versions

def InForceVersion.unscoped (v : InForceVersion) : Prop :=
  v.scopes.documentTypes = [] ∧ v.scopes.entityIDs = [] ∧ v.scopes.bandCurrency = none ∧
    v.scopes.roleIDs = []

instance (v : InForceVersion) : Decidable v.unscoped := by
  unfold InForceVersion.unscoped
  infer_instance

theorem matchScopes_of_unscoped (doc : MatchDoc) {v : InForceVersion} (h : v.unscoped) :
    matchScopes doc v = some [] := by
  obtain ⟨ht, he, hb, hr⟩ := h
  simp [matchScopes, ht, he, hb, hr]

theorem firstMatch_mem {doc : MatchDoc} {versions : List InForceVersion} {v : InForceVersion}
    {m : List ScopeName} (h : firstMatch doc versions = some (v, m)) :
    v ∈ versions ∧ matchScopes doc v = some m := by
  induction versions with
  | nil => cases h
  | cons c versions ih =>
    simp only [firstMatch] at h
    split at h
    · rename_i found hm
      cases h
      exact ⟨List.mem_cons_self, hm⟩
    · obtain ⟨hv, hm⟩ := ih h
      exact ⟨List.mem_cons_of_mem _ hv, hm⟩

theorem firstMatch_isSome {doc : MatchDoc} {versions : List InForceVersion} {v : InForceVersion}
    (hv : v ∈ versions) (hm : (matchScopes doc v).isSome) : (firstMatch doc versions).isSome := by
  induction versions with
  | nil => cases hv
  | cons c versions ih =>
    simp only [firstMatch]
    split
    · rfl
    · rename_i hnone
      rcases List.mem_cons.mp hv with rfl | hv
      · rw [hnone] at hm
        cases hm
      · exact ih hv

theorem firstMatch_isSome_of_unscoped (doc : MatchDoc) {versions : List InForceVersion}
    {v : InForceVersion} (hv : v ∈ versions) (hu : v.unscoped) :
    (firstMatch doc versions).isSome :=
  firstMatch_isSome hv (by rw [matchScopes_of_unscoped doc hu]; rfl)

end InvoiceOs.Approval
