import InvoiceOs.Notifications.Erase

/-! A finished erasure leaves no copy. A delivery reaches a vendor only while its job is running,
and a job's row outlives its run until a sweep or River's cleaner deletes it; so where the cleaner
leaves a row to count, a vendor stamp stands beside a copy only while some job of the address has a
row, and the last sweep finishes on none. -/

namespace InvoiceOs.Notifications

open Lib
open Submission (RiverState)

def Erasure.stamped (r : Erasure) : Dest → Bool
  | .hubspot => r.hubspotErased
  | .resend => r.resendErased

namespace Store

structure Clean (st : Store) : Prop where
  contact : st.contact = none
  copies : st.copies = {}
  jobs : ∀ id, st.jobs.get? id = none
  vendors : ∀ dest, st.vendorEmpty dest = true

structure Sound (st : Store) : Prop where
  order : ∀ r dest, st.erasure = some r → r.stamped dest = true → r.localErased = true
  stamped : ∀ r dest, st.erasure = some r → r.stamped dest = true →
    st.vendorEmpty dest = true ∨ ∃ id j, st.jobs.get? id = some j
  finished : ∀ r, st.erasure = some r → r.finished = true → st.Clean

def Runs (st : Store) (job : ℕ) : Prop :=
  ∃ j, st.jobs.get? job = some j ∧ j.state = .running

def AllFinal (st : Store) : Prop := ∀ id j, st.jobs.get? id = some j → j.state.live = false

end Store

/-- The cleaner takes the last job's row of the address only where no stamped vendor holds a copy. -/
def leavesRow (st : Store) (t : Task) (act : Act) : Bool :=
  match t, act with
  | .idle, .clean job => [Dest.hubspot, .resend].all fun dest =>
    !(st.erasure.any fun r => r.stamped dest) || st.vendorEmpty dest ||
      st.jobs.rows.any fun e => e.1 != job
  | _, _ => true

def Attempt.Order (a : Attempt) : Prop :=
  match a.step with
  | .sweep => a.localErased = false
  | .account => a.localErased = true
  | .hubspot => a.localErased = true
  | .resend => a.localErased = true ∧ (a.failed = true ∨ a.hubspotErased = true)
  | .final => a.localErased = true ∧ a.hubspotErased = true ∧ a.resendErased = true

def Attempt.Reads (a : Attempt) (st : Store) : Prop :=
  ∃ r, st.erasure = some r ∧ a.generation ≤ r.generation ∧
    (r.generation = a.generation → r.finished = false ∧ r.localErased = a.localErased ∧
      (a.hubspotErased = true → r.hubspotErased = true) ∧
      (a.resendErased = true → r.resendErased = true))

structure Attempt.Found (a : Attempt) (st : Store) : Prop where
  none : a.phase = .found [] → st.AllFinal
  erased : ∀ dest, a.step.dest? = some dest → a.phase = .erased → st.vendorEmpty dest = true

def Task.Ok (st : Store) : Task → Prop
  | idle => True
  | erasing a => a.Order ∧ a.Reads st ∧ a.Found st
  | delivering job _ _ _ => st.Runs job
  | dealing job _ => st.Runs job

/-! ### What each write leaves -/

section
variable {st : Store} {dest : Dest} {cut : Option ℕ}

theorem eraseContact_frame (st : Store) (dest : Dest) (cut : Option ℕ) :
    (st.eraseContact dest cut).1.erasure = st.erasure ∧
      (st.eraseContact dest cut).1.jobs = st.jobs ∧
      (st.eraseContact dest cut).1.contact = st.contact ∧
      (st.eraseContact dest cut).1.copies = st.copies := by
  cases dest <;> exact ⟨rfl, rfl, rfl, rfl⟩

theorem eraseContact_ok (h : (st.eraseContact dest cut).2 = true) :
    (st.eraseContact dest cut).1.vendorEmpty dest = true := by
  cases cut with
  | some k => cases dest <;> cases h
  | none =>
    cases dest with
    | resend => rfl
    | hubspot =>
      simp only [Store.eraseContact, vendorCall, Store.vendorEmpty, eraseHubSpot]
      cases st.hubspot with
      | none => rfl
      | some deals => simp

theorem eraseContact_empty {dest' : Dest} (h : st.vendorEmpty dest' = true) :
    (st.eraseContact dest cut).1.vendorEmpty dest' = true := by
  cases dest with
  | hubspot =>
    cases dest' with
    | resend => exact h
    | hubspot =>
      simp only [Store.vendorEmpty, Option.isNone_iff_eq_none] at h
      simp only [Store.eraseContact, Store.vendorEmpty, h, eraseHubSpot, vendorCall]
      cases cut with
      | none => rfl
      | some k => cases k <;> rfl
  | resend =>
    cases dest' with
    | hubspot => exact h
    | resend =>
      simp only [Store.vendorEmpty, Bool.not_eq_true'] at h
      simp only [Store.eraseContact, Store.vendorEmpty, h, eraseResend, vendorCall]
      cases cut with
      | none => rfl
      | some k => rcases k with _ | _ | k <;> rfl

theorem deliver_frame (st : Store) (dest : Dest) (version : ℕ) (cut : Option ℕ) :
    (st.deliver dest version cut).1.erasure = st.erasure ∧
      (st.deliver dest version cut).1.jobs = st.jobs ∧
      ∀ dest', dest' ≠ dest →
        (st.deliver dest version cut).1.vendorEmpty dest' = st.vendorEmpty dest' := by
  unfold Store.deliver
  split
  · exact ⟨rfl, rfl, fun _ _ => rfl⟩
  · split
    · exact ⟨rfl, rfl, fun _ _ => rfl⟩
    · cases dest with
      | hubspot =>
        refine ⟨rfl, rfl, fun dest' hne => ?_⟩
        cases dest' with
        | hubspot => exact absurd rfl hne
        | resend => rfl
      | resend =>
        dsimp only
        split
        · exact ⟨rfl, rfl, fun _ _ => rfl⟩
        · refine ⟨rfl, rfl, fun dest' hne => ?_⟩
          cases dest' with
          | hubspot => rfl
          | resend => exact absurd rfl hne

theorem openDeal_frame (st : Store) (cut : Option ℕ) :
    (st.openDeal cut).1.erasure = st.erasure ∧ (st.openDeal cut).1.jobs = st.jobs ∧
      ∀ dest', dest' ≠ .hubspot →
        (st.openDeal cut).1.vendorEmpty dest' = st.vendorEmpty dest' := by
  refine ⟨rfl, rfl, fun dest' hne => ?_⟩
  cases dest' with
  | hubspot => exact absurd rfl hne
  | resend => rfl

theorem setJobState_get? (st : Store) (job id : ℕ) (state : RiverState) :
    (st.setJobState job state).jobs.get? id =
      if id = job then (st.jobs.get? job).map fun j => { j with state := state }
      else st.jobs.get? id :=
  Table.get?_modify _ _ _ _

theorem removeJob_get? {job id : ℕ} {j : Job} :
    (st.removeJob job).jobs.get? id = some j ↔ st.jobs.get? id = some j ∧ id ≠ job :=
  Table.get?_deleteWhere.trans (and_congr_right fun _ => decide_eq_false_iff_not)

theorem row_left {job : ℕ} {r : Erasure} (h : leavesRow st .idle (.clean job) = true)
    (hr : st.erasure = some r) (hstamp : r.stamped dest = true) :
    st.vendorEmpty dest = true ∨ ∃ id j, (st.removeJob job).jobs.get? id = some j := by
  have hdest := List.all_eq_true.mp h dest (by cases dest <;> decide)
  rw [hr, Option.any_some, hstamp, Bool.not_true, Bool.false_or, Bool.or_eq_true] at hdest
  refine hdest.imp_right fun hrow => ?_
  obtain ⟨⟨id, j⟩, hmem, hne⟩ := List.any_eq_true.mp hrow
  exact ⟨id, j, removeJob_get?.mpr ⟨Table.mem_rows.mp hmem, bne_iff_ne.mp hne⟩⟩

theorem Store.Clean.leavesRow (h : st.Clean) (t : Task) (act : Act) :
    Notifications.leavesRow st t act = true := by
  unfold Notifications.leavesRow
  split
  · refine List.all_eq_true.mpr fun dest _ => ?_
    rw [h.vendors dest, Bool.or_true, Bool.true_or]
  · rfl

theorem sweep_jobs {found : List ℕ} {id : ℕ} {j : Job} :
    (st.sweep found).jobs.get? id = some j ↔
      ∃ j₀, st.jobs.get? id = some j₀ ∧ Store.cancelJob found id j₀ = j ∧ j.state.live = true := by
  have hdelete := Table.get?_deleteWhere (t := st.cancelJobs found)
    (p := fun _ j => !j.state.live) (k := id) (r := j)
  have hcancel : (st.cancelJobs found).get? id =
      (st.jobs.get? id).map (Store.cancelJob found id) := Table.get?_mapRows _ _ _
  rw [hcancel, Option.map_eq_some_iff, Bool.not_eq_false'] at hdelete
  constructor
  · intro h
    obtain ⟨⟨j₀, hj₀, hj⟩, hlive⟩ := hdelete.mp h
    exact ⟨j₀, hj₀, hj, hlive⟩
  · rintro ⟨j₀, hj₀, hj, hlive⟩
    exact hdelete.mpr ⟨⟨j₀, hj₀, hj⟩, hlive⟩

theorem sweep_runs {found : List ℕ} {job : ℕ} (h : st.Runs job) : (st.sweep found).Runs job := by
  obtain ⟨j, hj, hrunning⟩ := h
  have hkept : Store.cancelJob found job j = j := by
    unfold Store.cancelJob
    rw [if_neg]
    rintro ⟨-, hwaiting⟩
    rw [hrunning] at hwaiting
    cases hwaiting
  have hlive : j.state.live = true := by
    rw [hrunning]
    rfl
  exact ⟨j, sweep_jobs.mpr ⟨j, hj, hkept, hlive⟩, hrunning⟩

theorem sweep_final {found : List ℕ} (h : st.AllFinal) : (st.sweep found).AllFinal := by
  intro id j hj
  obtain ⟨j₀, hj₀, hcancel, hlive⟩ := sweep_jobs.mp hj
  have hfinal := h id j₀ hj₀
  unfold Store.cancelJob at hcancel
  split at hcancel
  · rename_i hwaiting
    rw [hwaiting.2] at hfinal
    cases hfinal
  · rw [hcancel, hlive] at hfinal
    cases hfinal

theorem liveJobs_nil (h : st.liveJobs = []) : st.AllFinal := by
  intro id j hj
  rw [← Bool.not_eq_true]
  intro hlive
  have hmem : id ∈ st.liveJobs :=
    List.mem_map.mpr ⟨(id, j), List.mem_filter.mpr ⟨Table.mem_rows.mpr hj, hlive⟩, rfl⟩
  rw [h] at hmem
  cases hmem

theorem copies_eq_empty {c : Copies} (h : c.count = 0) : c = {} := by
  cases c with
  | mk handoffs devices events subscribers requests =>
    simp only [Copies.count, Nat.add_eq_zero_iff] at h
    obtain ⟨⟨⟨⟨rfl, rfl⟩, rfl⟩, rfl⟩, rfl⟩ := h
    rfl

theorem sweepCount_zero {found : List ℕ} (h : st.sweepCount found = 0)
    (hfound : found = [] → st.AllFinal) :
    st.contact = none ∧ st.copies = {} ∧ ∀ id, st.jobs.get? id = none := by
  unfold Store.sweepCount at h
  obtain ⟨⟨⟨hnone, hfinal⟩, hcontact⟩, hcopies⟩ :
      ((found.length = 0 ∧ _ = 0) ∧ _ = 0) ∧ st.copies.count = 0 := by
    simpa only [Nat.add_eq_zero_iff] using h
  refine ⟨by simpa using hcontact, copies_eq_empty hcopies, fun id => ?_⟩
  · rw [Option.eq_none_iff_forall_ne_some]
    intro j hj
    obtain rfl := List.length_eq_zero_iff.mp hnone
    have hlive := hfound rfl id j hj
    have hrow : (st.cancelJobs []).get? id = some j := by
      have hmap : (st.cancelJobs []).get? id = (st.jobs.get? id).map (Store.cancelJob [] id) :=
        Table.get?_mapRows _ _ _
      rw [hmap, hj, Option.map_some]
      simp [Store.cancelJob]
    have hmem : (id, j) ∈ (st.cancelJobs []).rows.filter fun e => !e.2.state.live :=
      List.mem_filter.mpr ⟨Table.mem_rows.mpr hrow, by rw [hlive]; rfl⟩
    rw [List.length_eq_zero_iff.mp hfinal] at hmem
    cases hmem

end

/-! ### The attempt -/

theorem enter_eq {a b : Attempt} {steps : List EraseStep} (h : a.enter steps = some b) :
    ∃ step, b = { a with step := step, phase := .ready } := by
  induction steps with
  | nil =>
    simp only [Attempt.enter] at h
    split at h
    · cases h
    · cases h
      exact ⟨_, rfl⟩
  | cons s steps ih =>
    simp only [Attempt.enter] at h
    split at h
    · exact ih h
    · cases h
      exact ⟨_, rfl⟩

section
variable {a b : Attempt}

theorem enter_final (hlocal : a.localErased = true) (hresend : a.failed = true ∨
    a.hubspotErased = true ∧ a.resendErased = true) (h : a.enter [] = some b) : b.Order := by
  simp only [Attempt.enter] at h
  split at h
  · cases h
  · rename_i hfailed
    cases h
    exact ⟨hlocal, hresend.resolve_left hfailed⟩

theorem enter_resend (hlocal : a.localErased = true)
    (hhubspot : a.failed = true ∨ a.hubspotErased = true) (h : a.enter [.resend] = some b) :
    b.Order := by
  rw [Attempt.enter] at h
  split at h
  · rename_i hdone
    exact enter_final hlocal (hhubspot.imp_right fun hh => ⟨hh, hdone⟩) h
  · cases h
    exact ⟨hlocal, hhubspot⟩

theorem enter_hubspot (hlocal : a.localErased = true) (h : a.enter [.hubspot, .resend] = some b) :
    b.Order := by
  rw [Attempt.enter] at h
  split at h
  · rename_i hdone
    exact enter_resend hlocal (.inr hdone) h
  · cases h
    exact hlocal

theorem enter_account (hlocal : a.localErased = true)
    (h : a.enter [.account, .hubspot, .resend] = some b) : b.Order := by
  rw [Attempt.enter] at h
  split at h
  · exact enter_hubspot hlocal h
  · cases h
    exact hlocal

theorem enter_sweep (h : a.enter [.sweep, .account, .hubspot, .resend] = some b) : b.Order := by
  rw [Attempt.enter] at h
  split at h
  · rename_i hdone
    exact enter_account hdone h
  · rename_i hdone
    cases h
    exact Bool.eq_false_iff.mpr hdone

end
end InvoiceOs.Notifications
