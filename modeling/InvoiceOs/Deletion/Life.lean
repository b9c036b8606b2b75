import Mathlib.Data.List.Nodup
import InvoiceOs.Errors

/-! What the calls on a workspace's deletion leave behind, in the order they may: scheduled, then
cancelled, or purged step by step until the workspace is gone. -/

namespace InvoiceOs.Deletion

structure IssuedDeletionLink where
  recipient : Uuid
  email : String
  token : String
  deriving DecidableEq

structure ScheduledDeletion where
  dueAt : ℕ
  workspace : String
  requester : String
  links : List IssuedDeletionLink
  deriving DecidableEq

structure IssuedCancelMail where
  recipient : Uuid
  email : String
  deriving DecidableEq

structure CancelledDeletion where
  dueAt : ℕ
  workspace : String
  canceller : String
  mails : List IssuedCancelMail
  deriving DecidableEq

inductive Erasure where
  | byEmail (user : Uuid) (email : String)
  | byID (user : Uuid)
  deriving DecidableEq

structure StaffRow where
  dueAt : ℕ
  members : ℕ
  objects : ℕ
  deriving DecidableEq

inductive Entry where
  | scheduled (out : ScheduledDeletion)
  | cancelled (out : CancelledDeletion) (token : Option String)
  | unscheduled
  | started (due : ℕ)
  | queued (due : ℕ) (job : Erasure)
  | deleted (due : ℕ) (key : String)
  | removed (row : StaffRow)
  | returned (purged : Bool)
  deriving DecidableEq

/-- The schedule a purge acts on: an erasure queued, an object deleted, the rows removed. -/
def Entry.purgeOf : Entry → Option ℕ
  | .queued due _ => some due
  | .deleted due _ => some due
  | .removed row => some row.dueAt
  | _ => none

def Entry.isCancel : Entry → Bool
  | .cancelled _ _ => true
  | .unscheduled => true
  | _ => false

def dues (js : List Entry) : List ℕ :=
  js.filterMap fun
    | .scheduled out => some out.dueAt
    | _ => none

def removals (js : List Entry) : List StaffRow :=
  js.filterMap fun
    | .removed row => some row
    | _ => none

inductive Stage where
  | live
  | scheduled (due : ℕ)
  | underway (due : ℕ)
  | gone (due : ℕ)
  deriving DecidableEq

def Stage.due : Stage → Option ℕ
  | .live => none
  | .scheduled d => some d
  | .underway d => some d
  | .gone d => some d

def Stage.Begun (g : Stage) (d : ℕ) : Prop := g = .underway d ∨ g = .gone d

/-- A file can go after the rows: a run that lost its session lock. -/
inductive Follows : Stage → Entry → Stage → Prop
  | scheduled {out} : Follows .live (.scheduled out) (.scheduled out.dueAt)
  | cancelled {out token} : Follows (.scheduled out.dueAt) (.cancelled out token) .live
  | unscheduled : Follows .live .unscheduled .live
  | started {d} : Follows (.scheduled d) (.started d) (.underway d)
  | again {d} : Follows (.underway d) (.started d) (.underway d)
  | queued {d job} : Follows (.underway d) (.queued d job) (.underway d)
  | deleted {g d key} (h : g.Begun d) : Follows g (.deleted d key) g
  | removed {row} : Follows (.underway row.dueAt) (.removed row) (.gone row.dueAt)
  | returned {g purged} (h : ∀ d, g ≠ .underway d) : Follows g (.returned purged) g

inductive History : List Entry → Stage → Prop
  | nil : History [] .live
  | cons {js g e g'} (older : History js g) (h : Follows g e g') : History (e :: js) g'

section
variable {js : List Entry} {g : Stage}

theorem History.started (h : History js g) {d : ℕ} (hd : .started d ∈ js) : g.Begun d := by
  induction h with
  | nil => cases hd
  | @cons js g e g' older hstep ih =>
    cases hstep with
    | started =>
      obtain heq | hd := List.mem_cons.mp hd
      · cases heq
        exact .inl rfl
      · obtain hg | hg := ih hd <;> cases hg
    | again =>
      obtain heq | hd := List.mem_cons.mp hd
      · cases heq
        exact .inl rfl
      · exact ih hd
    | removed =>
      obtain heq | hd := List.mem_cons.mp hd
      · cases heq
      · obtain hg | hg := ih hd <;> cases hg
        exact .inr rfl
    | deleted | returned | queued =>
      obtain heq | hd := List.mem_cons.mp hd
      · cases heq
      · exact ih hd
    | scheduled | cancelled | unscheduled =>
      obtain heq | hd := List.mem_cons.mp hd
      · cases heq
      · obtain hg | hg := ih hd <;> cases hg

theorem History.begun (h : History js g) {d : ℕ} (hg : g.Begun d) : .started d ∈ js := by
  induction h with
  | nil => obtain hg | hg := hg <;> cases hg
  | @cons js g e g' older hstep ih =>
    cases hstep with
    | started =>
      obtain hg | hg := hg <;> cases hg
      exact List.mem_cons_self
    | removed =>
      obtain hg | hg := hg <;> cases hg
      exact List.mem_cons_of_mem _ (ih (.inl rfl))
    | again | queued | deleted | returned => exact List.mem_cons_of_mem _ (ih hg)
    | scheduled | cancelled | unscheduled => obtain hg | hg := hg <;> cases hg

theorem History.caused (h : History js g) {e : Entry} {d : ℕ} (he : e ∈ js)
    (hd : e.purgeOf = some d) : .started d ∈ js := by
  induction h with
  | nil => cases he
  | @cons js g e' g' older hstep ih =>
    obtain rfl | he := List.mem_cons.mp he
    · cases hstep with
      | queued | removed =>
        cases hd
        exact List.mem_cons_of_mem _ (older.begun (.inl rfl))
      | deleted hbegun =>
        cases hd
        exact List.mem_cons_of_mem _ (older.begun hbegun)
      | _ => cases hd
    · exact List.mem_cons_of_mem _ (ih he)

theorem History.due (h : History js g) {d : ℕ} (hd : g.due = some d) : d ∈ dues js := by
  induction h with
  | nil => cases hd
  | @cons js g e g' older hstep ih =>
    cases hstep with
    | scheduled =>
      cases hd
      exact List.mem_cons_self
    | cancelled => cases hd
    | _ => exact ih hd

theorem History.cancelled (h : History js g) (hdues : (dues js).Nodup) {out : CancelledDeletion}
    {token : Option String} (hout : .cancelled out token ∈ js) :
    out.dueAt ∈ dues js ∧ g.due ≠ some out.dueAt := by
  induction h with
  | nil => cases hout
  | @cons js g e g' older hstep ih =>
    cases hstep with
    | @scheduled sched =>
      obtain heq | hout := List.mem_cons.mp hout
      · cases heq
      · obtain ⟨hnew, hrest⟩ := List.nodup_cons.mp hdues
        obtain ⟨hmem, -⟩ := ih hrest hout
        refine ⟨List.mem_cons_of_mem _ hmem, fun hsame => hnew ?_⟩
        have hdue : sched.dueAt = out.dueAt := Option.some.inj hsame
        rw [hdue]
        exact hmem
    | cancelled =>
      obtain heq | hout := List.mem_cons.mp hout
      · cases heq
        exact ⟨older.due rfl, fun hsame => by cases hsame⟩
      · exact ⟨(ih hdues hout).1, fun hsame => by cases hsame⟩
    | _ =>
      obtain heq | hout := List.mem_cons.mp hout
      · cases heq
      · exact ih hdues hout

theorem History.exclusive (h : History js g) (hdues : (dues js).Nodup) {out : CancelledDeletion}
    {token : Option String} (hout : .cancelled out token ∈ js) {e : Entry} (he : e ∈ js) :
    e ≠ .started out.dueAt ∧ e.purgeOf ≠ some out.dueAt := by
  have hnot : .started out.dueAt ∉ js := by
    intro hstarted
    refine (h.cancelled hdues hout).2 ?_
    obtain hg | hg := h.started hstarted <;> rw [hg, Stage.due]
  constructor
  · rintro rfl
    exact hnot he
  · exact fun hpurge => hnot (h.caused he hpurge)

theorem History.after {newer older : List Entry} {d : ℕ}
    (h : History (newer ++ .started d :: older) g) :
    (∀ e ∈ newer, e.isCancel = false) ∧ ∀ purged, .returned purged ∈ newer → g = .gone d := by
  induction newer generalizing g with
  | nil =>
    constructor
    · intro e he
      cases he
    · intro purged hmem
      cases hmem
  | cons e newer ih =>
    rw [List.cons_append] at h
    cases h with
    | @cons _ g _ _ hrest hstep =>
      obtain ⟨hcancels, hreturns⟩ := ih hrest
      have hbegun : g.Begun d := hrest.started (List.mem_append_right _ List.mem_cons_self)
      refine ⟨fun e' he' => ?_, fun purged hmem => ?_⟩
      · obtain rfl | he' := List.mem_cons.mp he'
        · cases hstep with
          | cancelled | unscheduled => obtain hg | hg := hbegun <;> cases hg
          | _ => rfl
        · exact hcancels e' he'
      · obtain rfl | hmem := List.mem_cons.mp hmem
        · cases hstep with
          | returned hnot =>
            obtain hg | hg := hbegun
            · exact absurd hg (hnot d)
            · exact hg
        · -- the workspace stays gone
          have hgone := hreturns purged hmem
          subst hgone
          cases hstep with
          | deleted | returned => rfl

theorem History.removals (h : History js g) :
    removals js = [] ∨ ∃ row, removals js = [row] ∧ g = .gone row.dueAt := by
  induction h with
  | nil => exact .inl rfl
  | @cons js g e g' older hstep ih =>
    cases hstep with
    | @removed row =>
      obtain hnone | ⟨row', -, hg⟩ := ih
      · refine .inr ⟨row, ?_, rfl⟩
        rw [Deletion.removals, List.filterMap_cons]
        exact congrArg (row :: ·) hnone
      · cases hg
    | deleted | returned => exact ih
    | scheduled | cancelled | unscheduled | started | again | queued =>
      obtain hnone | ⟨row', -, hg⟩ := ih
      · exact .inl hnone
      · cases hg

end

end InvoiceOs.Deletion
