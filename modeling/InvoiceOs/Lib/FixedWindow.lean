import Mathlib.Data.List.Basic
import Mathlib.Order.Basic
import Mathlib.Tactic.Linarith

/-! A counter over a window of fixed length that opens again at the first visit after it ran
out. However the visits fall, a window admits no more than the limit and any two windows lie a
window's length apart. -/

namespace InvoiceOs.Lib.FixedWindow

structure Window where
  start : ℤ
  n : ℕ := 0

structure Visit where
  now : ℤ
  start : ℤ
  admitted : Bool
  deriving DecidableEq

def opened (length : ℤ) (w : Option Window) (now : ℤ) : Window :=
  match w with
  | none => { start := now }
  | some w => if length ≤ now - w.start then { start := now } else w

def Window.serve (w : Window) (limit : ℤ) : Window × Bool :=
  if w.n < limit then ({ w with n := w.n + 1 }, true) else (w, false)

structure Tally where
  window : Option Window := none
  visits : List Visit := []

def Tally.visit (length limit : ℤ) (t : Tally) (now : ℤ) : Tally :=
  let w := opened length t.window now
  { window := some (w.serve limit).1
    visits := t.visits ++ [{ now := now, start := w.start, admitted := (w.serve limit).2 }] }

def admittedIn (visits : List Visit) (start : ℤ) : ℕ :=
  visits.countP fun v => v.admitted && v.start = start

structure Tally.Sound (length limit : ℤ) (t : Tally) : Prop where
  within : ∀ v ∈ t.visits, v.start ≤ v.now ∧ v.now < v.start + length
  apart : ∀ v ∈ t.visits, ∀ v' ∈ t.visits,
    v.start = v'.start ∨ v.start + length ≤ v'.start ∨ v'.start + length ≤ v.start
  bounded : ∀ start, (admittedIn t.visits start : ℤ) ≤ limit
  /-- A denial finds its window full. -/
  full : ∀ before v after, t.visits = before ++ v :: after → v.admitted = false →
    limit ≤ admittedIn before v.start
  closed : t.window = none → t.visits = []
  counted : ∀ w, t.window = some w → w.n = admittedIn t.visits w.start ∧
    (∃ v ∈ t.visits, v.start = w.start) ∧ ∀ v ∈ t.visits, v.start ≤ w.start

section
variable {length limit : ℤ} {t : Tally}

@[simp] theorem admittedIn_nil (start : ℤ) : admittedIn [] start = 0 := rfl

theorem admittedIn_append (visits visits' : List Visit) (start : ℤ) :
    admittedIn (visits ++ visits') start = admittedIn visits start + admittedIn visits' start :=
  List.countP_append

theorem admittedIn_single (v : Visit) (start : ℤ) :
    admittedIn [v] start = if v.admitted = true ∧ v.start = start then 1 else 0 := by
  unfold admittedIn
  rw [List.countP_singleton]
  simp only [Bool.and_eq_true, decide_eq_true_eq]

theorem append_single_eq {α : Type*} {l before after : List α} {a b : α}
    (h : l ++ [a] = before ++ b :: after) :
    (l = before ∧ a = b ∧ after = []) ∨ ∃ rest, l = before ++ b :: rest ∧ after = rest ++ [a] := by
  obtain rfl | ⟨rest, last, rfl⟩ := List.eq_nil_or_concat after
  · obtain ⟨rfl, hlast⟩ := List.append_inj' h rfl
    exact .inl ⟨rfl, (List.cons.inj hlast).1, rfl⟩
  · rw [List.concat_eq_append, ← List.cons_append, ← List.append_assoc] at h
    obtain ⟨rfl, hlast⟩ := List.append_inj' h rfl
    obtain rfl := (List.cons.inj hlast).1
    exact .inr ⟨rest, rfl, List.concat_eq_append⟩

theorem Tally.Sound.start (hlimit : 0 < limit) : ({} : Tally).Sound length limit where
  within := nofun
  apart := nofun
  bounded _ := hlimit.le
  full before v after h := by
    cases before with
    | nil => cases h
    | cons _ _ => cases h
  closed _ := rfl
  counted := nofun

theorem Tally.Sound.opened (h : t.Sound length limit) (hlength : 0 < length) {now : ℤ}
    (hnow : ∀ v ∈ t.visits, v.now ≤ now) :
    (opened length t.window now).start ≤ now ∧ now < (opened length t.window now).start + length ∧
      (opened length t.window now).n = admittedIn t.visits (opened length t.window now).start ∧
      ∀ v ∈ t.visits, v.start = (opened length t.window now).start ∨
        v.start + length ≤ (opened length t.window now).start := by
  have hfresh : (∀ v ∈ t.visits, v.start + length ≤ now) → admittedIn t.visits now = 0 := by
    intro hbefore
    rw [admittedIn, List.countP_eq_zero]
    intro v hv
    have := hbefore v hv
    simp only [Bool.and_eq_true, decide_eq_true_eq, not_and]
    omega
  unfold FixedWindow.opened
  cases hw : t.window with
  | none =>
    have hempty : ∀ v ∈ t.visits, v.start + length ≤ now := by
      rw [h.closed hw]
      exact nofun
    exact ⟨le_rfl, by dsimp only; omega, (hfresh hempty).symm, fun v hv => .inr (hempty v hv)⟩
  | some w =>
    obtain ⟨hn, ⟨v₀, hv₀, hstart⟩, hlast⟩ := h.counted w hw
    dsimp only
    split
    · rename_i hover
      have hbefore : ∀ v ∈ t.visits, v.start + length ≤ now := by
        intro v hv
        have := hlast v hv
        omega
      exact ⟨le_rfl, by dsimp only; omega, (hfresh hbefore).symm, fun v hv => .inr (hbefore v hv)⟩
    · have hopen := (h.within v₀ hv₀).1.trans (hnow v₀ hv₀)
      refine ⟨by omega, by omega, hn, fun v hv => ?_⟩
      have hle := hlast v hv
      obtain heq | hbefore | hafter := h.apart v hv v₀ hv₀
      · exact .inl (heq.trans hstart)
      · exact .inr (hstart ▸ hbefore)
      · omega

theorem Tally.Sound.visit (h : t.Sound length limit) (hlength : 0 < length) {now : ℤ}
    (hnow : ∀ v ∈ t.visits, v.now ≤ now) : (t.visit length limit now).Sound length limit := by
  obtain ⟨hopen, hwithin, hn, hbefore⟩ := h.opened hlength hnow
  unfold Tally.visit
  generalize FixedWindow.opened length t.window now = w at hopen hwithin hn hbefore
  let v₁ : Visit := { now := now, start := w.start, admitted := (w.serve limit).2 }
  have hmem : ∀ {v}, v ∈ t.visits ++ [v₁] → v ∈ t.visits ∨ v = v₁ := fun hv =>
    (List.mem_append.mp hv).imp_right List.mem_singleton.mp
  have hstart : (w.serve limit).1.start = w.start := by
    unfold Window.serve
    split
    · rfl
    · rfl
  have hcount : (w.serve limit).1.n = admittedIn (t.visits ++ [v₁]) w.start := by
    rw [admittedIn_append, admittedIn_single, ← hn]
    change _ = w.n + if (w.serve limit).2 = true ∧ w.start = w.start then 1 else 0
    unfold Window.serve
    split
    · rw [if_pos ⟨rfl, rfl⟩]
    · rfl
  have hnew : ∀ start, start ≠ w.start →
      admittedIn (t.visits ++ [v₁]) start = admittedIn t.visits start := by
    intro start hne
    rw [admittedIn_append, admittedIn_single, if_neg fun heq => hne heq.2.symm, Nat.add_zero]
  constructor
  · intro v hv
    obtain hv | rfl := hmem hv
    · exact h.within v hv
    · exact ⟨hopen, hwithin⟩
  · intro v hv v' hv'
    obtain hv | rfl := hmem hv
    · obtain hv' | rfl := hmem hv'
      · exact h.apart v hv v' hv'
      · exact (hbefore v hv).imp_right .inl
    · obtain hv' | rfl := hmem hv'
      · exact (hbefore v' hv').imp Eq.symm .inr
      · exact .inl rfl
  · intro start
    by_cases hs : start = w.start
    · rw [hs, ← hcount]
      have hold := h.bounded w.start
      rw [← hn] at hold
      unfold Window.serve
      split
      · rename_i hroom
        push_cast
        omega
      · exact hold
    · rw [hnew start hs]
      exact h.bounded start
  · intro before v after hsplit hdenied
    obtain ⟨rfl, rfl, -⟩ | ⟨rest, hvisits, -⟩ := append_single_eq hsplit
    · change limit ≤ (admittedIn t.visits w.start : ℤ)
      rw [← hn]
      change (w.serve limit).2 = false at hdenied
      unfold Window.serve at hdenied
      split at hdenied
      · cases hdenied
      · omega
    · exact h.full before v rest hvisits hdenied
  · intro hnone
    cases hnone
  · intro w' hw'
    obtain rfl := Option.some.inj hw'
    rw [hstart]
    refine ⟨hcount, ⟨v₁, List.mem_append_right _ (List.mem_singleton_self _), rfl⟩, fun v hv => ?_⟩
    obtain hv | rfl := hmem hv
    · obtain heq | hle := hbefore v hv
      · exact heq.le
      · omega
    · exact le_rfl

theorem visits_now (t : Tally) (nows : List ℤ) :
    (nows.foldl (Tally.visit length limit) t).visits.map Visit.now = t.visits.map Visit.now ++ nows := by
  induction nows generalizing t with
  | nil => exact (List.append_nil _).symm
  | cons now nows ih =>
    rw [List.foldl_cons, ih]
    simp only [Tally.visit, List.map_append, List.map_cons, List.map_nil, List.append_assoc,
      List.singleton_append]

theorem Tally.Sound.visits (hlength : 0 < length) {nows : List ℤ} (h : t.Sound length limit)
    (hsorted : (t.visits.map Visit.now ++ nows).Pairwise (· ≤ ·)) :
    (nows.foldl (Tally.visit length limit) t).Sound length limit := by
  induction nows generalizing t with
  | nil => exact h
  | cons now nows ih =>
    rw [List.foldl_cons]
    refine ih (h.visit hlength fun v hv => ?_) ?_
    · exact (List.pairwise_append.mp hsorted).2.2 _ (List.mem_map_of_mem hv) now
        List.mem_cons_self
    · simpa only [Tally.visit, List.map_append, List.map_cons, List.map_nil, List.append_assoc,
        List.singleton_append] using hsorted

theorem Tally.Sound.in_window (h : t.Sound length limit) {v : Visit} (hv : v ∈ t.visits) :
    (t.visits.countP fun v' => v'.admitted && v.start ≤ v'.now && v'.now < v.start + length : ℤ) ≤
      limit := by
  refine le_trans ?_ (h.bounded v.start)
  refine Int.ofNat_le.mpr (List.countP_mono_left fun v' hv' hin => ?_)
  simp only [Bool.and_eq_true, decide_eq_true_eq] at hin ⊢
  obtain ⟨⟨hadmitted, hfrom⟩, hto⟩ := hin
  have hwithin := h.within v' hv'
  refine ⟨hadmitted, ?_⟩
  obtain heq | hlt | hlt := h.apart v hv v' hv'
  · exact heq.symm
  · omega
  · omega

theorem Tally.Sound.in_interval (h : t.Sound length limit) (hlimit : 0 < limit) (x : ℤ) :
    (t.visits.countP fun v => v.admitted && x ≤ v.now && v.now ≤ x + length : ℤ) ≤ 2 * limit := by
  by_cases hfirst : ∃ v ∈ t.visits, x ≤ v.now ∧ v.now ≤ x + length
  · obtain ⟨v, hv, hfrom, hto⟩ := hfirst
    -- every window met opens where v's did, or where one other did
    obtain ⟨other, hother⟩ : ∃ other, ∀ v' ∈ t.visits, x ≤ v'.now → v'.now ≤ x + length →
        v'.start = v.start ∨ v'.start = other := by
      by_cases hsecond : ∃ v' ∈ t.visits, x ≤ v'.now ∧ v'.now ≤ x + length ∧ v'.start ≠ v.start
      · obtain ⟨v₂, hv₂, hfrom₂, hto₂, hne⟩ := hsecond
        refine ⟨v₂.start, fun v' hv' hfrom' hto' => ?_⟩
        have hv₀ := h.within v hv
        have hv₁ := h.within v₂ hv₂
        have hv₃ := h.within v' hv'
        have happart := h.apart v hv v₂ hv₂
        have happart' := h.apart v' hv' v hv
        have happart₂ := h.apart v' hv' v₂ hv₂
        omega
      · refine ⟨v.start, fun v' hv' hfrom' hto' => ?_⟩
        by_contra hne
        exact hsecond ⟨v', hv', hfrom', hto', fun heq => hne (.inl heq)⟩
    have hcover : t.visits.countP (fun v => v.admitted && x ≤ v.now && v.now ≤ x + length) ≤
        admittedIn t.visits v.start + admittedIn t.visits other := by
      have hsplit : ∀ {l : List Visit}, (∀ v' ∈ l, v' ∈ t.visits) →
          l.countP (fun v => v.admitted && x ≤ v.now && v.now ≤ x + length) ≤
            admittedIn l v.start + admittedIn l other := by
        intro l hl
        induction l with
        | nil => exact le_rfl
        | cons v' l ih =>
          have hrest := ih fun v₀ hv₀ => hl v₀ (List.mem_cons_of_mem _ hv₀)
          have hwhere := hother v' (hl v' List.mem_cons_self)
          unfold admittedIn at hrest ⊢
          simp only [List.countP_cons, Bool.and_eq_true, decide_eq_true_eq]
          split_ifs <;> grind
      exact hsplit fun _ hv' => hv'
    have hown := h.bounded v.start
    have hothers := h.bounded other
    omega
  · have hnone : t.visits.countP (fun v => v.admitted && x ≤ v.now && v.now ≤ x + length) = 0 := by
      rw [List.countP_eq_zero]
      intro v hv hin
      simp only [Bool.and_eq_true, decide_eq_true_eq] at hin
      exact hfirst ⟨v, hv, hin.1.2, hin.2⟩
    rw [hnone]
    push_cast
    omega

theorem Tally.Sound.admitted_after (h : t.Sound length limit) (hlimit : 0 < limit)
    (hsorted : (t.visits.map Visit.now).Pairwise (· ≤ ·)) {before between after : List Visit}
    {v v' : Visit} (hvisits : t.visits = before ++ v :: (between ++ v' :: after))
    (hlate : v.start + length ≤ v'.now) (hfirst : ∀ u ∈ between, u.now < v.start + length) :
    v'.admitted = true := by
  by_contra hdenied
  have hsplit : t.visits = (before ++ v :: between) ++ v' :: after := by
    rw [hvisits, List.append_assoc, List.cons_append]
  have hfull := h.full _ _ _ hsplit (Bool.not_eq_true _ ▸ hdenied)
  have hmem : ∀ {u}, u ∈ before ++ v :: between → u ∈ t.visits := fun hu =>
    hsplit ▸ List.mem_append_left _ hu
  have hv' : v' ∈ t.visits := hsplit ▸ List.mem_append_right _ List.mem_cons_self
  have hv : v ∈ t.visits := hvisits ▸ List.mem_append_right _ List.mem_cons_self
  -- a full window has a visit, and it comes after the denied one's window
  obtain ⟨u, hu, hadmitted⟩ : ∃ u ∈ before ++ v :: between, u.admitted && u.start = v'.start := by
    have hpos : 0 < admittedIn (before ++ v :: between) v'.start := by omega
    exact List.countP_pos_iff.mp hpos
  simp only [Bool.and_eq_true, decide_eq_true_eq] at hadmitted
  have hwithin := h.within v hv
  have hwithin' := h.within v' hv'
  have hwithinu := h.within u (hmem hu)
  have happart := h.apart v hv v' hv'
  have hlater : v.start + length ≤ u.now := by omega
  rw [hvisits, List.map_append, List.pairwise_append] at hsorted
  obtain hu | hu := List.mem_append.mp hu
  · have hle := hsorted.2.2 _ (List.mem_map_of_mem hu) v.now (List.mem_map_of_mem List.mem_cons_self)
    omega
  · obtain rfl | hu := List.mem_cons.mp hu
    · omega
    · exact absurd (hfirst u hu) (not_lt.mpr hlater)

end
end InvoiceOs.Lib.FixedWindow
