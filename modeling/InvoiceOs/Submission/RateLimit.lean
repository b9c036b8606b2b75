import InvoiceOs.Lib.FixedWindow
import InvoiceOs.Lib.Table

/-! The in-memory limiter the submission worker asks before a wire attempt: one window of a
minute for each tenant, which starts again at the first call after it ran out. -/

namespace InvoiceOs.Submission

open Lib Lib.FixedWindow

def minute : ℤ := 60 * 10 ^ 9

structure RateLimiter where
  windows : Table String Window

def newRateLimiter : RateLimiter := ⟨∅⟩

namespace RateLimiter

def window (l : RateLimiter) (tenantID : String) (now : ℤ) : Window :=
  match l.windows.get? tenantID with
  | none => { start := now }
  | some w => if minute ≤ now - w.start then { start := now } else w

def allow (l : RateLimiter) (tenantID : String) (limit now : ℤ) : RateLimiter × Bool × ℤ :=
  let w := l.window tenantID now
  if w.n < limit then (⟨l.windows.set tenantID { w with n := w.n + 1 }⟩, true, 0)
  else (⟨l.windows.set tenantID w⟩, false, w.start + minute - now)

end RateLimiter

structure AllowCall where
  tenantID : String
  limit : ℤ
  now : ℤ

structure Answered where
  call : AllowCall
  ok : Bool
  retryAfter : ℤ
  start : ℤ

def Answered.visit (a : Answered) : Visit := ⟨a.call.now, a.start, a.ok⟩

def RateLimiter.run (l : RateLimiter) : List AllowCall → List Answered
  | [] => []
  | c :: cs =>
    let (l', ok, retryAfter) := l.allow c.tenantID c.limit c.now
    ⟨c, ok, retryAfter, (l.window c.tenantID c.now).start⟩ :: l'.run cs

def ofTenant (tenantID : String) (answers : List Answered) : List Answered :=
  answers.filter (·.call.tenantID = tenantID)

def callsOf (tenantID : String) (calls : List AllowCall) : List AllowCall :=
  calls.filter (·.tenantID = tenantID)

theorem ofTenant_cons (tenantID : String) (a : Answered) (answers : List Answered) :
    ofTenant tenantID (a :: answers) =
      if a.call.tenantID = tenantID then a :: ofTenant tenantID answers
      else ofTenant tenantID answers := by
  simp only [ofTenant, List.filter_cons, decide_eq_true_eq]

theorem callsOf_cons (tenantID : String) (c : AllowCall) (calls : List AllowCall) :
    callsOf tenantID (c :: calls) =
      if c.tenantID = tenantID then c :: callsOf tenantID calls else callsOf tenantID calls := by
  simp only [callsOf, List.filter_cons, decide_eq_true_eq]

namespace RateLimiter

theorem run_cons (l : RateLimiter) (c : AllowCall) (cs : List AllowCall) :
    l.run (c :: cs) = ⟨c, (l.allow c.tenantID c.limit c.now).2.1,
      (l.allow c.tenantID c.limit c.now).2.2, (l.window c.tenantID c.now).start⟩ ::
        (l.allow c.tenantID c.limit c.now).1.run cs := rfl

theorem allow_windows (l : RateLimiter) (c : AllowCall) (tenantID : String) :
    (l.allow c.tenantID c.limit c.now).1.windows.get? tenantID =
      if tenantID = c.tenantID then some ((l.window c.tenantID c.now).serve c.limit).1
      else l.windows.get? tenantID := by
  unfold allow Window.serve
  dsimp only
  split
  · rw [Table.get?_set]
  · rw [Table.get?_set]

theorem allow_ok (l : RateLimiter) (c : AllowCall) :
    (l.allow c.tenantID c.limit c.now).2.1 = ((l.window c.tenantID c.now).serve c.limit).2 := by
  unfold allow Window.serve
  dsimp only
  split
  · rfl
  · rfl

theorem window_eq (l : RateLimiter) (tenantID : String) (now : ℤ) :
    l.window tenantID now = opened minute (l.windows.get? tenantID) now := rfl

theorem run_ofTenant {tenantID : String} {l l' : RateLimiter}
    (h : l.windows.get? tenantID = l'.windows.get? tenantID) (calls : List AllowCall) :
    ofTenant tenantID (l.run calls) = l'.run (callsOf tenantID calls) := by
  induction calls generalizing l l' with
  | nil => rfl
  | cons c cs ih =>
    by_cases hc : c.tenantID = tenantID
    · subst hc
      have hwindow : l.window c.tenantID c.now = l'.window c.tenantID c.now := by
        rw [window_eq, window_eq, h]
      have hanswer : (l.allow c.tenantID c.limit c.now).2 =
          (l'.allow c.tenantID c.limit c.now).2 := by
        unfold allow
        rw [hwindow]
        dsimp only
        split
        · rfl
        · rfl
      have hnext : (l.allow c.tenantID c.limit c.now).1.windows.get? c.tenantID =
          (l'.allow c.tenantID c.limit c.now).1.windows.get? c.tenantID := by
        rw [allow_windows, allow_windows, if_pos rfl, if_pos rfl, hwindow]
      rw [callsOf_cons, if_pos rfl, run_cons, run_cons, ofTenant_cons, if_pos rfl, hanswer, hwindow,
        ih hnext]
    · have hnext : (l.allow c.tenantID c.limit c.now).1.windows.get? tenantID =
          l'.windows.get? tenantID := by
        rw [allow_windows, if_neg (Ne.symm hc), h]
      rw [callsOf_cons, if_neg hc, run_cons, ofTenant_cons, if_neg hc, ih hnext]

theorem run_visits {tenantID : String} {limit : ℤ} {calls : List AllowCall}
    (hcalls : ∀ c ∈ calls, c.tenantID = tenantID ∧ c.limit = limit) (l : RateLimiter)
    (before : List Visit) :
    before ++ (l.run calls).map Answered.visit =
      ((calls.map AllowCall.now).foldl (Tally.visit minute limit)
        ⟨l.windows.get? tenantID, before⟩).visits := by
  induction calls generalizing l before with
  | nil => exact List.append_nil _
  | cons c cs ih =>
    obtain ⟨rfl, rfl⟩ := hcalls c List.mem_cons_self
    have hrest := ih (fun c' hc' => hcalls c' (List.mem_cons_of_mem _ hc'))
      (l.allow c.tenantID c.limit c.now).1
      (before ++ [⟨c.now, (l.window c.tenantID c.now).start,
        (l.allow c.tenantID c.limit c.now).2.1⟩])
    rw [allow_windows, if_pos rfl, List.append_assoc] at hrest
    rw [List.singleton_append] at hrest
    rw [List.map_cons, List.foldl_cons, run_cons]
    refine hrest.trans ?_
    rw [allow_ok]
    rfl

theorem run_retryAfter (l : RateLimiter) (calls : List AllowCall) :
    ∀ a ∈ l.run calls, a.ok = false → a.retryAfter = a.start + minute - a.call.now := by
  induction calls generalizing l with
  | nil => exact nofun
  | cons c cs ih =>
    intro a ha hdenied
    obtain rfl | ha := List.mem_cons.mp ha
    · change (l.allow c.tenantID c.limit c.now).2.1 = false at hdenied
      change (l.allow c.tenantID c.limit c.now).2.2 = (l.window c.tenantID c.now).start + minute - c.now
      unfold allow at hdenied ⊢
      dsimp only at hdenied ⊢
      split at hdenied
      · cases hdenied
      · rename_i hfull
        rw [if_neg hfull]
    · exact ih _ a ha hdenied

end RateLimiter

/-- However the calls of all tenants interleave: a tenant's window admits at most its limit and
any minute twice that; a denied caller waits a minute at most, and the first call after its wait
goes on; and no tenant's answers depend on another's calls. -/
theorem rate_limit_bounds {limit : String → ℤ} {calls : List AllowCall}
    (hpos : ∀ tenantID, 0 < limit tenantID)
    (hlimit : ∀ c ∈ calls, c.limit = limit c.tenantID)
    (hclock : ∀ tenantID, ((callsOf tenantID calls).map AllowCall.now).Pairwise (· ≤ ·))
    (tenantID : String) :
    (∀ a ∈ ofTenant tenantID (newRateLimiter.run calls),
      ((ofTenant tenantID (newRateLimiter.run calls)).countP fun a' =>
        a'.ok && a.start ≤ a'.call.now && a'.call.now < a.start + minute : ℤ) ≤ limit tenantID) ∧
    (∀ x, ((ofTenant tenantID (newRateLimiter.run calls)).countP fun a =>
        a.ok && x ≤ a.call.now && a.call.now ≤ x + minute : ℤ) ≤ 2 * limit tenantID) ∧
    (∀ a ∈ ofTenant tenantID (newRateLimiter.run calls), a.ok = false →
      0 < a.retryAfter ∧ a.retryAfter ≤ minute) ∧
    (∀ before a between a' after, ofTenant tenantID (newRateLimiter.run calls) =
        before ++ a :: (between ++ a' :: after) → a.ok = false →
      (∀ b ∈ between, b.call.now < a.call.now + a.retryAfter) →
      a.call.now + a.retryAfter ≤ a'.call.now → a'.ok = true) ∧
    ∀ calls', callsOf tenantID calls' = callsOf tenantID calls →
      ofTenant tenantID (newRateLimiter.run calls') =
        ofTenant tenantID (newRateLimiter.run calls) := by
  have hminute : 0 < minute := by decide
  have hown : ∀ c ∈ callsOf tenantID calls, c.tenantID = tenantID ∧ c.limit = limit tenantID := by
    intro c hc
    obtain ⟨hc, htenant⟩ := List.mem_filter.mp hc
    have htenant := of_decide_eq_true htenant
    exact ⟨htenant, htenant ▸ hlimit c hc⟩
  have hanswers : ofTenant tenantID (newRateLimiter.run calls) =
      newRateLimiter.run (callsOf tenantID calls) := RateLimiter.run_ofTenant rfl calls
  have hindependent : ∀ calls', callsOf tenantID calls' = callsOf tenantID calls →
      ofTenant tenantID (newRateLimiter.run calls') =
        ofTenant tenantID (newRateLimiter.run calls) := by
    intro calls' hsame
    rw [hanswers, ← hsame]
    exact RateLimiter.run_ofTenant rfl calls'
  -- the tenant's answers are the visits of a counter that started empty
  obtain ⟨t, ht⟩ : ∃ t, t = ((callsOf tenantID calls).map AllowCall.now).foldl
      (Tally.visit minute (limit tenantID)) {} := ⟨_, rfl⟩
  have hsound : t.Sound minute (limit tenantID) := by
    rw [ht]
    exact (Tally.Sound.start (hpos tenantID)).visits hminute (hclock tenantID)
  have hvisits : (ofTenant tenantID (newRateLimiter.run calls)).map Answered.visit = t.visits := by
    rw [hanswers, ht]
    exact RateLimiter.run_visits hown newRateLimiter []
  have hsorted : (t.visits.map Visit.now).Pairwise (· ≤ ·) := by
    rw [ht, visits_now]
    exact hclock tenantID
  have hretry : ∀ a ∈ ofTenant tenantID (newRateLimiter.run calls), a.ok = false →
      a.retryAfter = a.start + minute - a.call.now := fun a ha =>
    RateLimiter.run_retryAfter _ _ a (List.mem_of_mem_filter ha)
  generalize ofTenant tenantID (newRateLimiter.run calls) = answers at *
  have hmem : ∀ {a}, a ∈ answers → a.visit ∈ t.visits := fun ha =>
    hvisits ▸ List.mem_map_of_mem ha
  refine ⟨fun a ha => ?_, fun x => ?_, fun a ha hdenied => ?_, ?_, hindependent⟩
  · have h := hsound.in_window (hmem ha)
    rw [← hvisits, List.countP_map] at h
    exact h
  · have h := hsound.in_interval (hpos tenantID) x
    rw [← hvisits, List.countP_map] at h
    exact h
  · obtain ⟨hfrom, hto⟩ := hsound.within _ (hmem ha)
    have hwait := hretry a ha hdenied
    change a.start ≤ a.call.now at hfrom
    change a.call.now < a.start + minute at hto
    omega
  · intro before a between a' after hsplit hdenied hbetween hlate
    have hwait := hretry a (hsplit ▸ List.mem_append_right _ List.mem_cons_self) hdenied
    have hend : a.call.now + a.retryAfter = a.start + minute := by omega
    rw [hsplit] at hvisits
    simp only [List.map_append, List.map_cons] at hvisits
    refine hsound.admitted_after (hpos tenantID) hsorted hvisits.symm (hend ▸ hlate) fun u hu => ?_
    obtain ⟨b, hb, rfl⟩ := List.mem_map.mp hu
    exact hend ▸ hbetween b hb

def twoTenants : List AllowCall :=
  [⟨"eze", 1, 0⟩, ⟨"obi", 1, 5⟩, ⟨"eze", 1, minute - 1⟩, ⟨"eze", 1, minute⟩]

theorem rate_limit_bounds_sample :
    (newRateLimiter.run twoTenants).map (fun a => (a.ok, a.retryAfter)) =
        [(true, 0), (true, 0), (false, 1), (true, 0)] ∧
      ∀ x, ((ofTenant "eze" (newRateLimiter.run twoTenants)).countP fun a =>
        a.ok && x ≤ a.call.now && a.call.now ≤ x + minute : ℤ) ≤ 2 * 1 := by
  have hclock : ∀ tenantID, ((callsOf tenantID twoTenants).map AllowCall.now).Pairwise (· ≤ ·) := by
    intro tenantID
    have hall : (twoTenants.map AllowCall.now).Pairwise (· ≤ ·) := by decide
    exact hall.sublist (List.filter_sublist.map _)
  exact ⟨by decide +kernel,
    (@rate_limit_bounds (fun _ => 1) twoTenants (fun _ => by decide) (by decide) hclock "eze").2.1⟩

end InvoiceOs.Submission
