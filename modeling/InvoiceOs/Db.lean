import InvoiceOs.Approval.PolicyStore
import InvoiceOs.CustomRule.Revision
import InvoiceOs.Invoice.Row

/-! One workspace's tables. Row security makes every statement of a request read and
write these rows only, so the tenant id is not a column here. -/

namespace InvoiceOs

open Lib Approval CustomRule

structure SubmitArgs where
  invoiceID : Uuid
  idempotencyKey : String
  deriving DecidableEq

structure Db where
  directory : Directory
  policies : Policies := ∅
  invoices : Table Uuid Invoice.Row := ∅
  runs : Table Uuid Run := ∅
  revisions : List Revision := []
  outboxKeys : List String := []
  submitJobs : List SubmitArgs := []

namespace Db

def getInvoice (db : Db) (id : Uuid) : Except Err Invoice.Row :=
  match db.invoices.get? id with
  | some r => pure r
  | none => throw .notFound

def setInvoice (db : Db) (id : Uuid) (r : Invoice.Row) : Db :=
  { db with invoices := db.invoices.set id r }

def setRun (db : Db) (id : Uuid) (r : Run) : Db := { db with runs := db.runs.set id r }

def hasLiveRun (db : Db) (invoiceID : Uuid) : Bool :=
  db.runs.rows.any fun e => e.2.invoiceID == invoiceID && e.2.live

def hasOpenRun (db : Db) (invoiceID : Uuid) : Bool :=
  db.runs.rows.any fun e => e.2.invoiceID == invoiceID && e.2.state == .open

def hasApprovedRun (db : Db) (invoiceID : Uuid) : Bool :=
  db.runs.rows.any fun e => e.2.invoiceID == invoiceID && e.2.state == .approved

def readInForce (db : Db) : List InForceVersion := readInForceVersionsTx db.policies

structure SameRules (db db' : Db) : Prop where
  policies : db'.policies = db.policies
  revisions : db'.revisions = db.revisions

theorem SameRules.refl (db : Db) : db.SameRules db := ⟨rfl, rfl⟩

theorem getInvoice_eq_ok {db : Db} {id : Uuid} {r : Invoice.Row} :
    db.getInvoice id = .ok r ↔ db.invoices.get? id = some r := by
  unfold getInvoice
  split
  · rename_i q hq
    simp only [pure_eq_ok, hq, Option.some.injEq]
  · rename_i hq
    simp [hq]

section
variable (db : Db) (i : Uuid) (r : Invoice.Row) (run : Run)

@[simp] theorem setInvoice_invoices : (db.setInvoice i r).invoices = db.invoices.set i r := rfl
@[simp] theorem setInvoice_runs : (db.setInvoice i r).runs = db.runs := rfl
@[simp] theorem setInvoice_policies : (db.setInvoice i r).policies = db.policies := rfl
@[simp] theorem setInvoice_revisions : (db.setInvoice i r).revisions = db.revisions := rfl
@[simp] theorem setInvoice_readInForce : (db.setInvoice i r).readInForce = db.readInForce := rfl
@[simp] theorem setRun_invoices : (db.setRun i run).invoices = db.invoices := rfl
@[simp] theorem setRun_runs : (db.setRun i run).runs = db.runs.set i run := rfl
@[simp] theorem setRun_policies : (db.setRun i run).policies = db.policies := rfl
@[simp] theorem setRun_revisions : (db.setRun i run).revisions = db.revisions := rfl
@[simp] theorem setRun_readInForce : (db.setRun i run).readInForce = db.readInForce := rfl

end

theorem hasLiveRun_iff {db : Db} {i : Uuid} :
    db.hasLiveRun i = true ↔ ∃ k r, db.runs.get? k = some r ∧ r.invoiceID = i ∧ r.live = true := by
  simp only [hasLiveRun, List.any_eq_true, Prod.exists, Table.mem_rows, Bool.and_eq_true,
    beq_iff_eq]

theorem hasApprovedRun_iff {db : Db} {i : Uuid} :
    db.hasApprovedRun i = true ↔
      ∃ k r, db.runs.get? k = some r ∧ r.invoiceID = i ∧ r.state = .approved := by
  simp only [hasApprovedRun, List.any_eq_true, Prod.exists, Table.mem_rows, Bool.and_eq_true,
    beq_iff_eq]

end Db
end InvoiceOs
