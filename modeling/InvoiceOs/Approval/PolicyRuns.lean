import InvoiceOs.Approval.Runs
import InvoiceOs.Lib.Run

/-! Every run of the five policy calls, refused ones rolled back, from an empty list: as
long as some version is in force, no document is left without one. -/

namespace InvoiceOs.Approval

open Lib

/-- One of the five policy calls, or anything requests do to the other tables between two. -/
inductive PolicyCall where
  | edit (e : PolicyEdit)
  | publish (caller id : Uuid) (runIDs : Uuid → Uuid) (now : ℕ)
  | elsewhere (db : Db)

section
variable (sha256 : String → String)

def policyStep (db : Db) : PolicyCall → Option Db
  | .edit e =>
    match e.call db.directory db.policies with
    | .ok ps => some { db with policies := ps }
    | .error _ => some db
  | .publish caller id runIDs now =>
    match publishPolicy sha256 db caller id runIDs now with
    | .ok db' => some db'
    | .error _ => some db
  | .elsewhere db' => some { db' with policies := db.policies }

end

section
variable {sha256 : String → String}

theorem CatchAllLast.publishPolicy {db db' : Db} {caller id : Uuid} {runIDs : Uuid → Uuid} {now : ℕ}
    (h : CatchAllLast db.policies) (hok : publishPolicy sha256 db caller id runIDs now = .ok db') :
    CatchAllLast db'.policies := by
  simp only [Approval.publishPolicy, bind_eq_ok] at hok
  obtain ⟨ps, hps, hsweep⟩ := hok
  simp only [sweepLocked, check_eq_ok] at hsweep
  rw [(sweep_frame hsweep.2).2.policies]
  exact h.publishVersion hps

theorem CatchAllLast.policyStep {db db' : Db} {c : PolicyCall} (h : CatchAllLast db.policies)
    (hstep : policyStep sha256 db c = some db') : CatchAllLast db'.policies := by
  cases c with
  | edit e =>
    simp only [Approval.policyStep] at hstep
    split at hstep
    · rename_i ps hok
      cases hstep
      exact h.policyEdit hok
    · cases hstep
      exact h
  | publish caller id runIDs now =>
    simp only [Approval.policyStep] at hstep
    split at hstep
    · rename_i db'' hok
      cases hstep
      exact h.publishPolicy hok
    · cases hstep
      exact h
  | elsewhere db'' =>
    cases hstep
    exact h

end

theorem readInForceVersionsTx_ne_nil {ps : Policies} {id : Uuid} {p : PolicyRow} {v : Version}
    (hp : ps.get? id = some p) (hlive : p.deleted = false) (hv : v ∈ p.versions)
    (hactive : v.isActive = true) : readInForceVersionsTx ps ≠ [] := by
  have hact : v ∈ p.active := List.mem_filter.mpr ⟨hv, hactive⟩
  have hmem := mem_activeRows.mpr ⟨id, p, hp, hlive, v, hact, rfl⟩
  exact List.ne_nil_of_mem (mem_readInForceVersionsTx.mpr hmem)

/-- After any run of the policy calls, a live policy with an active version means that every
document finds a version, and that the last version in force has no scope at all. -/
theorem every_document_matches {sha256 : String → String} {db db' : Db} {calls : List PolicyCall}
    (hempty : db.policies = ∅) (hrun : runFrom (policyStep sha256) db calls = some db')
    {id : Uuid} {p : PolicyRow} {v : Version} (hp : db'.policies.get? id = some p)
    (hlive : p.deleted = false) (hv : v ∈ p.versions) (hactive : v.isActive = true) :
    (∀ doc, (firstMatch doc (readInForceVersionsTx db'.policies)).isSome) ∧
      ∃ last, (readInForceVersionsTx db'.policies).getLast? = some last ∧ last.unscoped ∧
        last.scopes.scoped = false ∧
        ∀ w ∈ readInForceVersionsTx db'.policies, w.position ≤ last.position := by
  have hinv : CatchAllLast db'.policies :=
    invariant_run (I := fun db : Db => CatchAllLast db.policies)
      (fun _ _ _ => CatchAllLast.policyStep) (hempty ▸ CatchAllLast.empty) hrun
  have hne := readInForceVersionsTx_ne_nil hp hlive hv hactive
  refine ⟨hinv.firstMatch_isSome hne, _, List.getLast?_eq_some_getLast hne, ?_, ?_, ?_⟩
  · exact hinv.last _ (List.getLast?_eq_some_getLast hne)
  · exact (scoped_eq_false_iff _).mpr (hinv.last _ (List.getLast?_eq_some_getLast hne))
  · intro w hw
    exact position_le_last (List.getLast?_eq_some_getLast hne) (mem_readInForceVersionsTx.mp hw)

def unconfiguredDb : Db where
  directory := { isFirm := false, members := [⟨1, .admin, true, true, []⟩], roles := [] }

def firstPolicies : List PolicyCall :=
  [.edit (.create 1 30 20 "Default" none),
    .edit (.putDraft 1 30 21 none none [{ kind := .autoapprove }]),
    .publish 1 30 id 0,
    .edit (.create 1 31 22 "Notes" (some { documentTypes := [.creditNote] }))]

theorem every_document_matches_firstPolicies :
    ∃ db', runFrom (policyStep id) unconfiguredDb firstPolicies = some db' ∧
      (readInForceVersionsTx db'.policies).length = 1 ∧
      (∀ doc, (firstMatch doc (readInForceVersionsTx db'.policies)).isSome) ∧
      ∃ last, (readInForceVersionsTx db'.policies).getLast? = some last ∧ last.unscoped ∧
        last.scopes.scoped = false ∧
        ∀ w ∈ readInForceVersionsTx db'.policies, w.position ≤ last.position := by
  refine ⟨_, rfl, rfl, ?_⟩
  exact @every_document_matches id unconfiguredDb _ firstPolicies rfl rfl 30 _
    { id := 20, version := 1, sealed := true, isActive := true, publishedBy := some 1,
      steps := [{ kind := .autoapprove }] } rfl rfl List.mem_cons_self rfl

end InvoiceOs.Approval
