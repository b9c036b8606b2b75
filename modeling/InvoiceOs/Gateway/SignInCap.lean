import InvoiceOs.Gateway.SignInThrottle
import InvoiceOs.Lib.Run

/-! A window of the throttle admits no more attempts than it allows, as long as a refund returns
an attempt of the window its key is in. The map keeps to its size and its earliest expiry, and a
key hears of the others only when the map is full. -/

namespace InvoiceOs.Gateway

open Lib

/-! ### Windows -/

theorem windows_concat (length : ℕ) (made : List ℕ) (now : ℕ) :
    windows length (made ++ [now]) =
      match windows length made with
      | [] => [now]
      | start :: rest => if now < start + length then start :: rest else now :: start :: rest := by
  unfold windows
  rw [List.foldl_append, List.foldl_cons, List.foldl_nil]
  cases List.foldl _ [] made with
  | nil => rfl
  | cons start rest => rfl

theorem windows_apart (length : ℕ) (made : List ℕ) :
    (windows length made).Pairwise fun start before => before + length ≤ start := by
  induction made using List.reverseRecOn with
  | nil => exact List.Pairwise.nil
  | append_singleton made now ih =>
    rw [windows_concat]
    cases hw : windows length made with
    | nil => exact List.pairwise_singleton _ _
    | cons start rest =>
      rw [hw] at ih
      dsimp only
      split
      · exact ih
      · rename_i hover
        refine List.pairwise_cons.mpr ⟨fun before hbefore => ?_, ih⟩
        obtain rfl | hrest := List.mem_cons.mp hbefore
        · omega
        · have happart := (List.pairwise_cons.mp ih).1 before hrest
          omega

theorem standing_concat (length start : ℕ) (attempts : List Attempt) (a : Attempt) :
    standing length start (attempts ++ [a]) = standing length start attempts +
      if start ≤ a.made ∧ a.made < start + length ∧ a.refunded = false then 1 else 0 := by
  unfold standing
  rw [List.countP_append, List.countP_singleton]
  simp only [Bool.and_eq_true, decide_eq_true_eq, Bool.not_eq_true', and_assoc]

/-! ### The map -/

theorem foldl_earlier {l : List ℕ} (hl : ∀ x ∈ l, 0 < x) (m : ℕ) :
    (0 < m → 0 < l.foldl SignInThrottle.earlier m ∧ l.foldl SignInThrottle.earlier m ≤ m) ∧
      ∀ x ∈ l, l.foldl SignInThrottle.earlier m ≤ x := by
  induction l generalizing m with
  | nil => exact ⟨fun hm => ⟨hm, le_rfl⟩, nofun⟩
  | cons x l ih =>
    have hx := hl x List.mem_cons_self
    have hstep : 0 < SignInThrottle.earlier m x ∧ SignInThrottle.earlier m x ≤ x ∧
        (0 < m → SignInThrottle.earlier m x ≤ m) := by
      unfold SignInThrottle.earlier
      split
      · exact ⟨hx, le_rfl, fun hm => by omega⟩
      · exact ⟨by omega, by omega, fun _ => le_rfl⟩
    obtain ⟨hpos, hle, hm⟩ := hstep
    obtain ⟨hkept, hrest⟩ := ih (fun y hy => hl y (List.mem_cons_of_mem _ hy))
      (SignInThrottle.earlier m x)
    have hfold := hkept hpos
    rw [List.foldl_cons]
    refine ⟨fun h0 => ⟨hfold.1, hfold.2.trans (hm h0)⟩, fun y hy => ?_⟩
    obtain rfl | hy := List.mem_cons.mp hy
    · exact hfold.2.trans hle
    · exact hrest y hy

structure SignInThrottle.Timely (cfg : ThrottleConfig) (t : SignInThrottle) (clock : ℕ) : Prop where
  started : ∀ key c, t.counts.get? key = some c → c.start ≤ clock
  bounded : ∀ key c, t.counts.get? key = some c → c.n ≤ cfg.max
  earliest : ∀ key c, t.counts.get? key = some c → t.nextExpiry ≤ c.expiry cfg
  horizon : t.nextExpiry ≤ clock + cfg.window
  size : t.counts.rows.length ≤ cfg.maxKeys

namespace SignInThrottle

def Kept (cfg : ThrottleConfig) (now : ℕ) (t t' : SignInThrottle) : Prop :=
  ∀ key, t'.counts.get? key = t.counts.get? key ∨
    t'.counts.get? key = none ∧ ∀ c, t.counts.get? key = some c → c.expired cfg now = true

section
variable {cfg : ThrottleConfig} {t t' t'' : SignInThrottle} {key : String} {clock now : ℕ}

theorem Kept.refl (cfg : ThrottleConfig) (now : ℕ) (t : SignInThrottle) : Kept cfg now t t :=
  fun _ => .inl rfl

theorem Kept.trans (h : Kept cfg now t t') (h' : Kept cfg now t' t'') : Kept cfg now t t'' := by
  intro key
  obtain hsame' | ⟨hnone', hold'⟩ := h' key
  · rw [hsame']
    exact h key
  · refine .inr ⟨hnone', fun c hc => ?_⟩
    obtain hsame | ⟨-, hold⟩ := h key
    · exact hold' c (hsame.trans hc)
    · exact hold c hc

theorem Timely.mono (h : t.Timely cfg clock) (hnow : clock ≤ now) : t.Timely cfg now where
  started key c hc := (h.started key c hc).trans hnow
  bounded := h.bounded
  earliest := h.earliest
  horizon := h.horizon.trans (Nat.add_le_add_right hnow _)
  size := h.size

theorem sweep_get? {c : SignInCount} : (t.sweep cfg now).counts.get? key = some c ↔
    t.counts.get? key = some c ∧ c.expired cfg now = false := Table.get?_deleteWhere

theorem sweep_fresh {c : SignInCount} (hc : (t.sweep cfg now).counts.get? key = some c) :
    now < c.expiry cfg := by
  have hfresh := (sweep_get?.mp hc).2
  exact not_le.mp (of_decide_eq_false hfresh)

theorem kept_sweep (cfg : ThrottleConfig) (now : ℕ) (t : SignInThrottle) :
    Kept cfg now t (t.sweep cfg now) := by
  intro key
  cases hc : (t.sweep cfg now).counts.get? key with
  | some c => exact .inl (sweep_get?.mp hc).1.symm
  | none =>
    refine .inr ⟨rfl, fun c hheld => ?_⟩
    by_contra hfresh
    have hsome := sweep_get?.mpr ⟨hheld, Bool.not_eq_true _ ▸ hfresh⟩
    rw [hc] at hsome
    cases hsome

theorem sweep_nextExpiry_le {c : SignInCount} (hc : (t.sweep cfg now).counts.get? key = some c) :
    (t.sweep cfg now).nextExpiry ≤ c.expiry cfg := by
  refine (foldl_earlier ?_ 0).2 _ ?_
  · intro x hx
    obtain ⟨⟨key', c'⟩, he, rfl⟩ := List.mem_map.mp hx
    have hfresh := sweep_fresh (Table.mem_rows.mp he)
    exact Nat.zero_lt_of_lt hfresh
  · exact List.mem_map.mpr ⟨(key, c), Table.mem_rows.mpr hc, rfl⟩

theorem Timely.sweep (h : t.Timely cfg clock) (hnow : clock ≤ now) :
    (t.sweep cfg now).Timely cfg now where
  started key c hc := (h.started key c (sweep_get?.mp hc).1).trans hnow
  bounded key c hc := h.bounded key c (sweep_get?.mp hc).1
  earliest key c hc := sweep_nextExpiry_le hc
  horizon := by
    cases hrows : (t.sweep cfg now).counts.rows with
    | nil =>
      have hzero : (t.sweep cfg now).nextExpiry = 0 := by
        change ((t.sweep cfg now).counts.rows.map _).foldl _ _ = 0
        rw [hrows]
        rfl
      rw [hzero]
      exact Nat.zero_le _
    | cons e rest =>
      have he : (t.sweep cfg now).counts.get? e.1 = some e.2 :=
        Table.mem_rows.mp (hrows ▸ List.mem_cons_self)
      have hstart := h.started e.1 e.2 (sweep_get?.mp he).1
      have hle := sweep_nextExpiry_le he
      unfold SignInCount.expiry at hle
      omega
  size := (Table.length_deleteWhere_le _ _).trans h.size

theorem Timely.sweepDue (h : t.Timely cfg clock) (hnow : clock ≤ now) :
    (t.sweepDue cfg now).Timely cfg now ∧ Kept cfg now t (t.sweepDue cfg now) := by
  unfold SignInThrottle.sweepDue
  split
  · exact ⟨h.sweep hnow, kept_sweep cfg now t⟩
  · exact ⟨h.mono hnow, Kept.refl cfg now t⟩

theorem Timely.sweepFull (h : t.Timely cfg now) (key : String) :
    (t.sweepFull cfg key now).Timely cfg now ∧ Kept cfg now t (t.sweepFull cfg key now) := by
  unfold SignInThrottle.sweepFull
  split
  · exact ⟨h.sweep le_rfl, kept_sweep cfg now t⟩
  · exact ⟨h, Kept.refl cfg now t⟩

theorem Timely.crowded (h : t.Timely cfg now) {key : String}
    (hcrowded : (t.sweepFull cfg key now).crowded cfg key = true) {key' : String} {c : SignInCount}
    (hc : (t.sweepFull cfg key now).counts.get? key' = some c) : now < c.expiry cfg := by
  unfold SignInThrottle.sweepFull at hcrowded hc
  split at hc
  · exact sweep_fresh hc
  · rename_i hearly
    rw [if_neg hearly] at hcrowded
    have hlater : ¬ t.nextExpiry ≤ now := by
      intro hle
      exact hearly (Bool.and_eq_true_iff.mpr ⟨hcrowded, decide_eq_true hle⟩)
    have hle := h.earliest key' c hc
    omega

theorem Timely.admitKey (h : t.Timely cfg clock) (hnow : clock ≤ now) (key : String) :
    ∃ s, s.Timely cfg now ∧ Kept cfg now t s ∧
      ((t.admitKey cfg key now = (s.warn now, .full) ∧ s.crowded cfg key = true ∧
          ∀ key' c, s.counts.get? key' = some c → now < c.expiry cfg) ∨
        (t.admitKey cfg key now = s.count cfg key now ∧ s.crowded cfg key = false)) := by
  obtain ⟨hdue, hkept⟩ := h.sweepDue hnow
  obtain ⟨hfull, hkept'⟩ := hdue.sweepFull key
  refine ⟨_, hfull, hkept.trans hkept', ?_⟩
  unfold SignInThrottle.admitKey
  dsimp only
  split
  · rename_i hcrowded
    exact .inl ⟨rfl, hcrowded, fun key' c hc => hdue.crowded hcrowded hc⟩
  · rename_i hroom
    exact .inr ⟨rfl, Bool.not_eq_true _ ▸ hroom⟩

theorem warn_rest (t : SignInThrottle) (now : ℕ) :
    (t.warn now).counts = t.counts ∧ (t.warn now).nextExpiry = t.nextExpiry := by
  unfold SignInThrottle.warn
  split
  · exact ⟨rfl, rfl⟩
  · exact ⟨rfl, rfl⟩

theorem Timely.warn (h : t.Timely cfg clock) (now : ℕ) : (t.warn now).Timely cfg clock := by
  obtain ⟨hcounts, hnext⟩ := warn_rest t now
  constructor
  · rw [hcounts]
    exact h.started
  · rw [hcounts]
    exact h.bounded
  · rw [hcounts, hnext]
    exact h.earliest
  · rw [hnext]
    exact h.horizon
  · rw [hcounts]
    exact h.size

theorem current_cases (cfg : ThrottleConfig) (t : SignInThrottle) (key : String) (now : ℕ) :
    (t.counts.get? key = some (t.current cfg key now) ∧
        now < (t.current cfg key now).expiry cfg) ∨
      t.current cfg key now = { start := now } ∧
        ∀ c, t.counts.get? key = some c → c.expiry cfg ≤ now := by
  unfold SignInThrottle.current
  split
  · rename_i hnone
    exact .inr ⟨rfl, fun c hc => by rw [hnone] at hc; cases hc⟩
  · rename_i c hc
    split
    · rename_i hover
      refine .inr ⟨rfl, fun c' hc' => ?_⟩
      obtain rfl := Option.some.inj (hc.symm.trans hc')
      exact of_decide_eq_true hover
    · rename_i hopen
      exact .inl ⟨hc, not_le.mp fun hle => hopen (decide_eq_true hle)⟩

theorem Timely.count (h : t.Timely cfg now) (hroom : t.crowded cfg key = false) :
    (t.count cfg key now).1.Timely cfg now := by
  unfold SignInThrottle.count
  dsimp only
  split
  · exact h
  · rename_i hbelow
    have hstart : (t.current cfg key now).start ≤ now := by
      obtain ⟨hheld, -⟩ | ⟨hnew, -⟩ := current_cases cfg t key now
      · exact h.started key _ hheld
      · rw [hnew]
    have hexpiry : t.nextExpiry ≤ (t.current cfg key now).expiry cfg := by
      obtain ⟨hheld, -⟩ | ⟨hnew, -⟩ := current_cases cfg t key now
      · exact h.earliest key _ hheld
      · rw [hnew]
        exact h.horizon
    constructor
    · intro key' c hc
      rw [Table.get?_set] at hc
      split at hc
      · obtain rfl := Option.some.inj hc
        exact hstart
      · exact h.started key' c hc
    · intro key' c hc
      rw [Table.get?_set] at hc
      split at hc
      · obtain rfl := Option.some.inj hc
        exact not_le.mp hbelow
      · exact h.bounded key' c hc
    · intro key' c hc
      rw [Table.get?_set] at hc
      split at hc
      · obtain rfl := Option.some.inj hc
        exact hexpiry
      · exact h.earliest key' c hc
    · exact h.horizon
    · cases hheld : t.counts.get? key with
      | some c =>
        rw [Table.length_set_of_get? hheld]
        exact h.size
      | none =>
        have hshort : t.counts.rows.length < cfg.maxKeys := by
          unfold SignInThrottle.crowded at hroom
          rw [hheld, Option.isNone_none, Bool.true_and] at hroom
          exact not_le.mp (of_decide_eq_false hroom)
        exact (Table.length_set_le _ _ _).trans hshort

theorem refund_get? {key' : String} {c' : SignInCount}
    (hc' : (t.refund key).counts.get? key' = some c') :
    ∃ c, t.counts.get? key' = some c ∧ c'.start = c.start ∧
      c'.n = if key' = key then c.n - 1 else c.n := by
  unfold SignInThrottle.refund at hc'
  dsimp only at hc'
  rw [Table.get?_modify] at hc'
  split at hc'
  · rename_i hkey
    obtain ⟨c, hc, rfl⟩ := Option.map_eq_some_iff.mp hc'
    refine ⟨c, hkey ▸ hc, ?_⟩
    rw [if_pos hkey]
    split
    · exact ⟨rfl, rfl⟩
    · exact ⟨rfl, by omega⟩
  · rename_i hkey
    exact ⟨c', hc', rfl, (if_neg hkey).symm⟩

theorem Timely.refund (h : t.Timely cfg clock) (key : String) : (t.refund key).Timely cfg clock where
  started key' c' hc' := by
    obtain ⟨c, hc, hstart, -⟩ := refund_get? hc'
    rw [hstart]
    exact h.started key' c hc
  bounded key' c' hc' := by
    obtain ⟨c, hc, -, hn⟩ := refund_get? hc'
    have hbound := h.bounded key' c hc
    split at hn
    · omega
    · omega
  earliest key' c' hc' := by
    obtain ⟨c, hc, hstart, -⟩ := refund_get? hc'
    have hle := h.earliest key' c hc
    unfold SignInCount.expiry at hle ⊢
    rw [hstart]
    exact hle
  horizon := h.horizon
  size := by
    unfold SignInThrottle.refund Table.modify
    dsimp only
    split
    · rename_i c hc
      rw [Table.length_set_of_get? hc]
      exact h.size
    · exact h.size

theorem reset_get? {key' : String} {c : SignInCount} :
    (t.reset key).counts.get? key' = some c ↔ t.counts.get? key' = some c ∧ key' ≠ key := by
  unfold SignInThrottle.reset
  rw [Table.get?_deleteWhere, beq_eq_false_iff_ne]

theorem Timely.reset (h : t.Timely cfg clock) (key : String) : (t.reset key).Timely cfg clock where
  started key' c hc := h.started key' c (reset_get?.mp hc).1
  bounded key' c hc := h.bounded key' c (reset_get?.mp hc).1
  earliest key' c hc := h.earliest key' c (reset_get?.mp hc).1
  horizon := h.horizon
  size := (Table.length_deleteWhere_le _ _).trans h.size

end
end SignInThrottle

/-! ### The cap -/

namespace Signing

def times (w : Signing) (key : String) (era : ℕ) : List ℕ := (w.own key era).map Attempt.made

structure Capped (cfg : ThrottleConfig) (w : Signing) : Prop where
  made : ∀ a ∈ w.attempts, a.made ≤ w.clock ∧ a.era ≤ w.era a.key
  inside : 0 < cfg.window → ∀ a ∈ w.attempts, ∃ start ∈ windows cfg.window (w.times a.key a.era),
    start ≤ a.made ∧ a.made < start + cfg.window
  cap : ∀ key era, ∀ start ∈ windows cfg.window (w.times key era),
    standing cfg.window start (w.own key era) ≤ cfg.max
  held : ∀ key c, w.throttle.counts.get? key = some c →
    (windows cfg.window (w.times key (w.era key))).head? = some c.start ∧
      standing cfg.window c.start (w.own key (w.era key)) ≤ c.n
  free : ∀ key, w.throttle.counts.get? key = none →
    ∀ start ∈ windows cfg.window (w.times key (w.era key)), start + cfg.window ≤ w.clock

/-- A refund returns an attempt of the window its key's count stands for, or finds no count to
return it to. -/
def returns (cfg : ThrottleConfig) (toLower : String → String) (w : Signing) : ThrottleCall → Bool
  | .refund email attempt =>
    match w.attempts[attempt]?, w.throttle.counts.get? (signInKey toLower email) with
    | some a, some c => c.n == 0 || (a.era == w.era a.key && decide (c.start ≤ a.made) &&
        decide (a.made < c.start + cfg.window))
    | _, _ => true
  | _ => true

section
variable {cfg : ThrottleConfig} {toLower : String → String} {w w' : Signing} {key : String}

theorem mem_own {era : ℕ} {a : Attempt} :
    a ∈ w.own key era ↔ a ∈ w.attempts ∧ a.key = key ∧ a.era = era := by
  unfold own
  rw [List.mem_filter, Bool.and_eq_true, decide_eq_true_eq, decide_eq_true_eq]

theorem Capped.start (cfg : ThrottleConfig) : Capped cfg {} where
  made := nofun
  inside _ := nofun
  cap := nofun
  held := nofun
  free := nofun

theorem windows_over {length start now : ℕ} {made : List ℕ}
    (hhead : (windows length made).head? = some start) (hover : start + length ≤ now)
    {before : ℕ} (hbefore : before ∈ windows length made) : before + length ≤ now := by
  have happart := windows_apart length made
  cases hw : windows length made with
  | nil =>
    rw [hw] at hbefore
    cases hbefore
  | cons start' rest =>
    rw [hw] at hhead hbefore happart
    obtain rfl := Option.some.inj hhead
    obtain rfl | hrest := List.mem_cons.mp hbefore
    · exact hover
    · have hle := (List.pairwise_cons.mp happart).1 before hrest
      omega

theorem Capped.kept (h : Capped cfg w) {now : ℕ} (hnow : w.clock ≤ now) {s : SignInThrottle}
    (hkept : SignInThrottle.Kept cfg now w.throttle s) :
    Capped cfg { w with throttle := s, clock := now } where
  made a ha := ⟨(h.made a ha).1.trans hnow, (h.made a ha).2⟩
  inside := h.inside
  cap := h.cap
  held key c hc := by
    change s.counts.get? key = some c at hc
    obtain hsame | ⟨hnone, -⟩ := hkept key
    · exact h.held key c (hsame.symm.trans hc)
    · rw [hnone] at hc
      cases hc
  free key hnone start hstart := by
    change s.counts.get? key = none at hnone
    obtain hsame | ⟨-, hold⟩ := hkept key
    · exact (h.free key (hsame.symm.trans hnone) start hstart).trans hnow
    · cases hc : w.throttle.counts.get? key with
      | none => exact (h.free key hc start hstart).trans hnow
      | some c =>
        have hover : c.start + cfg.window ≤ now := of_decide_eq_true (hold c hc)
        exact windows_over (h.held key c hc).1 hover hstart

theorem Capped.next (h : Capped cfg w) (ht : w.throttle.Timely cfg w.clock) (key : String) :
    ∃ rest, windows cfg.window (w.times key (w.era key) ++ [w.clock]) =
        (w.throttle.current cfg key w.clock).start :: rest ∧
      (∀ start ∈ rest, start ∈ windows cfg.window (w.times key (w.era key)) ∧
        start + cfg.window ≤ w.clock) ∧
      (∀ start ∈ windows cfg.window (w.times key (w.era key)),
        start ∈ (w.throttle.current cfg key w.clock).start :: rest) ∧
      (w.throttle.current cfg key w.clock).start ≤ w.clock ∧
      (0 < cfg.window → w.clock < (w.throttle.current cfg key w.clock).start + cfg.window) ∧
      standing cfg.window (w.throttle.current cfg key w.clock).start (w.own key (w.era key)) ≤
        (w.throttle.current cfg key w.clock).n := by
  have happart := windows_apart cfg.window (w.times key (w.era key))
  obtain ⟨hheld, hopen⟩ | ⟨hnew, hover⟩ :=
    SignInThrottle.current_cases cfg w.throttle key w.clock
  · generalize w.throttle.current cfg key w.clock = c at hheld hopen ⊢
    obtain ⟨hhead, hstanding⟩ := h.held key c hheld
    obtain ⟨rest, hw⟩ : ∃ rest, windows cfg.window (w.times key (w.era key)) = c.start :: rest :=
      List.head?_eq_some_iff.mp hhead
    have hle := ht.started key c hheld
    rw [hw] at happart
    refine ⟨rest, ?_, fun start hstart => ?_, fun start hstart => hw ▸ hstart, hle,
      fun _ => hopen, hstanding⟩
    · rw [windows_concat, hw]
      exact if_pos hopen
    · have hbefore := (List.pairwise_cons.mp happart).1 start hstart
      exact ⟨hw ▸ List.mem_cons_of_mem _ hstart, hbefore.trans hle⟩
  · rw [hnew]
    have hover' : ∀ start ∈ windows cfg.window (w.times key (w.era key)),
        start + cfg.window ≤ w.clock := by
      intro start hstart
      cases hc : w.throttle.counts.get? key with
      | none => exact h.free key hc start hstart
      | some c => exact windows_over (h.held key c hc).1 (hover c hc) hstart
    refine ⟨windows cfg.window (w.times key (w.era key)), ?_,
      fun start hstart => ⟨hstart, hover' start hstart⟩,
      fun start hstart => List.mem_cons_of_mem _ hstart, le_rfl,
      fun hlength => Nat.lt_add_of_pos_right hlength, ?_⟩
    · rw [windows_concat]
      cases hw : windows cfg.window (w.times key (w.era key)) with
      | nil => rfl
      | cons start rest =>
        have hlast := hover' start (hw ▸ List.mem_cons_self)
        exact if_neg (not_lt.mpr hlast)
    · refine (List.countP_eq_zero.mpr fun a ha hin => ?_).le
      simp only [Bool.and_eq_true, decide_eq_true_eq] at hin
      obtain ⟨hmem, rfl, hera⟩ := mem_own.mp ha
      obtain ⟨start, hstart, -, hreach⟩ := h.inside (by omega) a hmem
      have hend := hover' start (hera ▸ hstart)
      omega

theorem own_admitted (w : Signing) (a : Attempt) (key : String) (era : ℕ) :
    own { w with attempts := w.attempts ++ [a] } key era =
      w.own key era ++ if a.key = key ∧ a.era = era then [a] else [] := by
  unfold own
  rw [List.filter_append]
  congr 1
  by_cases h : a.key = key ∧ a.era = era
  · rw [if_pos h, List.filter_cons_of_pos (by simp [h]), List.filter_nil]
  · rw [if_neg h, List.filter_cons_of_neg (by simpa using h), List.filter_nil]

theorem Capped.counted (h : Capped cfg w) (ht : w.throttle.Timely cfg w.clock) (key : String)
    {t : SignInThrottle} (hcount : w.throttle.count cfg key w.clock = (t, .admitted)) :
    Capped cfg { w with
      throttle := t
      attempts := w.attempts ++ [{ key := key, made := w.clock, era := w.era key }] } := by
  obtain ⟨rest, hwindows, hrest, hold, hstart, hend, hstanding⟩ := h.next ht key
  generalize hc : w.throttle.current cfg key w.clock = c at hwindows hrest hold hstart hend hstanding
  have hcount' : ¬ cfg.max ≤ c.n ∧
      { w.throttle with counts := w.throttle.counts.set key { c with n := c.n + 1 } } = t := by
    unfold SignInThrottle.count at hcount
    dsimp only at hcount
    rw [hc] at hcount
    split at hcount
    · cases hcount
    · rename_i hroom
      exact ⟨hroom, (Prod.mk.inj hcount).1⟩
  obtain ⟨hroom, rfl⟩ := hcount'
  generalize ha : ({ key := key, made := w.clock, era := w.era key } : Attempt) = a
  have hkey : a.key = key ∧ a.era = w.era key ∧ a.made = w.clock ∧ a.refunded = false := by
    subst ha
    exact ⟨rfl, rfl, rfl, rfl⟩
  obtain ⟨hakey, haera, hamade, hrefunded⟩ := hkey
  generalize hw' : ({ w with
    throttle := { w.throttle with counts := w.throttle.counts.set key { c with n := c.n + 1 } }
    attempts := w.attempts ++ [a] } : Signing) = w'
  have hera : ∀ key', w'.era key' = w.era key' := by
    subst hw'
    exact fun _ => rfl
  have hclock : w'.clock = w.clock := by
    subst hw'
    rfl
  have hattempts : w'.attempts = w.attempts ++ [a] := by
    subst hw'
    rfl
  have hcounts : w'.throttle.counts = w.throttle.counts.set key { c with n := c.n + 1 } := by
    subst hw'
    rfl
  have hmine : w'.own key (w.era key) = w.own key (w.era key) ++ [a] := by
    subst hw'
    exact (own_admitted _ a key _).trans (by rw [if_pos ⟨hakey, haera⟩])
  have hother : ∀ key' era, ¬ (key = key' ∧ w.era key = era) → w'.own key' era = w.own key' era := by
    intro key' era hne
    subst hw'
    have hne' : ¬ (a.key = key' ∧ a.era = era) := by rwa [hakey, haera]
    exact (own_admitted _ a key' era).trans (by rw [if_neg hne', List.append_nil])
  have hmineTimes : windows cfg.window (w'.times key (w.era key)) = c.start :: rest := by
    rw [times, hmine, List.map_append, List.map_singleton, hamade]
    exact hwindows
  have hotherTimes : ∀ key' era, ¬ (key = key' ∧ w.era key = era) →
      w'.times key' era = w.times key' era := by
    intro key' era hne
    rw [times, hother key' era hne]
    rfl
  have hnow : standing cfg.window c.start (w'.own key (w.era key)) ≤ c.n + 1 := by
    rw [hmine, standing_concat]
    split
    · omega
    · omega
  constructor
  · intro a' ha'
    rw [hattempts] at ha'
    rw [hera, hclock]
    obtain ha' | rfl := (List.mem_append.mp ha').imp_right List.mem_singleton.mp
    · exact h.made a' ha'
    · exact ⟨hamade.le, by rw [haera, hakey]⟩
  · intro hlength a' ha'
    rw [hattempts] at ha'
    obtain ha' | rfl := (List.mem_append.mp ha').imp_right List.mem_singleton.mp
    · obtain ⟨start, hmem, hin⟩ := h.inside hlength a' ha'
      refine ⟨start, ?_, hin⟩
      by_cases hsame : key = a'.key ∧ w.era key = a'.era
      · rw [← hsame.1, ← hsame.2, hmineTimes]
        exact hold start (by rw [hsame.2, hsame.1]; exact hmem)
      · rw [hotherTimes _ _ hsame]
        exact hmem
    · refine ⟨c.start, ?_, hamade ▸ hstart, hamade ▸ hend hlength⟩
      rw [hakey, haera, hmineTimes]
      exact List.mem_cons_self
  · intro key' era start hmem
    by_cases hsame : key = key' ∧ w.era key = era
    · obtain ⟨rfl, rfl⟩ := hsame
      rw [hmineTimes] at hmem
      obtain rfl | hmem := List.mem_cons.mp hmem
      · exact hnow.trans (not_le.mp hroom)
      · obtain ⟨hbefore, hover⟩ := hrest start hmem
        have hcap := h.cap key _ start hbefore
        rw [hmine, standing_concat, if_neg (by omega)]
        exact hcap
    · rw [hotherTimes _ _ hsame] at hmem
      rw [hother _ _ hsame]
      exact h.cap key' era start hmem
  · intro key' c' hc'
    rw [hcounts, Table.get?_set] at hc'
    rw [hera]
    split at hc'
    · rename_i hsame
      obtain rfl := Option.some.inj hc'
      rw [hsame, hmineTimes]
      exact ⟨rfl, hnow⟩
    · rename_i hne
      have hne' : ¬ (key = key' ∧ w.era key = w.era key') := fun hsame => hne hsame.1.symm
      rw [hotherTimes _ _ hne', hother _ _ hne']
      exact h.held key' c' hc'
  · intro key' hnone start hmem
    rw [hcounts, Table.get?_set] at hnone
    split at hnone
    · cases hnone
    · rename_i hne
      have hne' : ¬ (key = key' ∧ w.era key = w.era key') := fun hsame => hne hsame.1.symm
      rw [hera, hotherTimes _ _ hne'] at hmem
      rw [hclock]
      exact h.free key' hnone start hmem

theorem map_filter_modify {α β : Type*} {f : α → α} {p : α → Bool} {g : α → β}
    (hp : ∀ a, p (f a) = p a) (hg : ∀ a, g (f a) = g a) (l : List α) (i : ℕ) :
    ((l.modify i f).filter p).map g = (l.filter p).map g := by
  induction l generalizing i with
  | nil => rw [List.modify_nil]
  | cons a l ih =>
    cases i with
    | zero =>
      rw [List.modify_zero_cons, List.filter_cons, List.filter_cons, hp]
      split
      · rw [List.map_cons, List.map_cons, hg]
      · rfl
    | succ i =>
      rw [List.modify_succ_cons, List.filter_cons, List.filter_cons]
      split
      · rw [List.map_cons, List.map_cons, ih]
      · exact ih i

theorem countP_modify {α : Type*} {f : α → α} {p : α → Bool} {l : List α} {i : ℕ} {a : α}
    (ha : l[i]? = some a) (hf : p (f a) = false) :
    (l.modify i f).countP p + (if p a = true then 1 else 0) = l.countP p := by
  induction l generalizing i with
  | nil => cases ha
  | cons b l ih =>
    cases i with
    | zero =>
      obtain rfl := Option.some.inj ha
      rw [List.modify_zero_cons, List.countP_cons, List.countP_cons, hf]
      simp
    | succ i =>
      rw [List.modify_succ_cons, List.countP_cons, List.countP_cons, ← ih ha]
      omega

variable (cfg) in
theorem standing_refund {attempt : ℕ} {a : Attempt} (ha : w.attempts[attempt]? = some a)
    (key' : String) (start : ℕ) (key : String) (era : ℕ) :
    standing cfg.window start ((w.refund key' attempt).own key era) +
      (if start ≤ a.made ∧ a.made < start + cfg.window ∧ a.refunded = false ∧ a.key = key ∧
        a.era = era then 1 else 0) = standing cfg.window start (w.own key era) := by
  unfold standing own refund
  rw [List.countP_filter, List.countP_filter]
  have hcount := countP_modify (f := fun a => { a with refunded := true })
    (p := fun a => (start ≤ a.made && a.made < start + cfg.window && !a.refunded) &&
      (a.key = key && a.era = era)) ha (by simp)
  simpa only [Bool.and_eq_true, decide_eq_true_eq, Bool.not_eq_true', and_assoc] using hcount

theorem Capped.refund (h : Capped cfg w) {email : String} {attempt : ℕ} {a : Attempt}
    (ha : w.attempts[attempt]? = some a) (hkey : a.key = signInKey toLower email)
    (hrefunded : a.refunded = false) (hreturns : w.returns cfg toLower (.refund email attempt) = true) :
    Capped cfg (w.refund (signInKey toLower email) attempt) := by
  have hstanding := standing_refund cfg ha (signInKey toLower email)
  have htimes : ∀ key era, (w.refund (signInKey toLower email) attempt).times key era =
      w.times key era := fun key era =>
    map_filter_modify (f := fun a : Attempt => { a with refunded := true })
      (fun _ => rfl) (fun _ => rfl) w.attempts attempt
  have hmem : ∀ a' ∈ w.attempts.modify attempt (fun a => { a with refunded := true }),
      ∃ b ∈ w.attempts, a'.key = b.key ∧ a'.made = b.made ∧ a'.era = b.era := by
    intro a' ha'
    obtain ⟨i, hi⟩ := List.mem_iff_getElem?.mp ha'
    rw [List.getElem?_modify] at hi
    obtain ⟨b, hb, rfl⟩ := Option.map_eq_some_iff.mp hi
    refine ⟨b, List.mem_of_getElem? hb, ?_⟩
    split
    · exact ⟨rfl, rfl, rfl⟩
    · exact ⟨rfl, rfl, rfl⟩
  constructor
  · intro a' ha'
    obtain ⟨b, hb, hk, hm, he⟩ := hmem a' ha'
    rw [hk, hm, he]
    exact h.made b hb
  · intro hlength a' ha'
    obtain ⟨b, hb, hk, hm, he⟩ := hmem a' ha'
    rw [hk, hm, he, htimes]
    exact h.inside hlength b hb
  · intro key era start hstart
    rw [htimes] at hstart
    exact (Nat.le.intro (hstanding start key era)).trans (h.cap key era start hstart)
  · intro key' c' hc'
    obtain ⟨c, hc, hstart, hn⟩ := SignInThrottle.refund_get? hc'
    obtain ⟨hhead, hheld⟩ := h.held key' c hc
    rw [htimes, hstart]
    refine ⟨hhead, ?_⟩
    have hless := hstanding c.start key' (w.era key')
    rw [hn]
    split
    · rename_i hsame
      subst hsame
      unfold returns at hreturns
      dsimp only at hreturns
      rw [ha, hc] at hreturns
      simp only [Bool.or_eq_true, Bool.and_eq_true, decide_eq_true_eq, beq_iff_eq] at hreturns
      change standing cfg.window c.start (own (w.refund _ attempt) _ (w.era _)) ≤ _
      obtain hzero | ⟨⟨hera, hfrom⟩, hto⟩ := hreturns
      · omega
      · rw [if_pos ⟨hfrom, hto, hrefunded, hkey, hkey ▸ hera⟩] at hless
        omega
    · exact (Nat.le.intro hless).trans hheld
  · intro key' hnone start hstart
    rw [htimes] at hstart
    refine h.free key' ?_ start hstart
    cases hc : w.throttle.counts.get? key' with
    | none => rfl
    | some c =>
      change (w.throttle.counts.modify _ _).get? key' = none at hnone
      rw [Table.get?_modify] at hnone
      split at hnone
      · rename_i hsame
        rw [← hsame, hc] at hnone
        cases hnone
      · rw [hc] at hnone
        cases hnone

theorem era_reset (w : Signing) (key key' : String) :
    (w.reset key).era key' = w.era key' + if key = key' then 1 else 0 := by
  unfold era reset
  rw [List.count_cons]
  simp only [beq_iff_eq]

theorem Capped.reset (h : Capped cfg w) (key : String) :
    Capped cfg (w.reset key) := by
  have hera := era_reset w key
  constructor
  · intro a ha
    refine ⟨(h.made a ha).1, (h.made a ha).2.trans ?_⟩
    rw [hera]
    exact Nat.le_add_right _ _
  · exact h.inside
  · exact h.cap
  · intro key' c hc
    obtain ⟨hc, hne⟩ := SignInThrottle.reset_get?.mp hc
    rw [hera, if_neg (Ne.symm hne)]
    exact h.held key' c hc
  · intro key' hnone start hstart
    rw [hera] at hstart
    by_cases hsame : key = key'
    · subst hsame
      have hempty : w.own key (w.era key + 1) = [] := by
        refine List.filter_eq_nil_iff.mpr fun a ha => ?_
        have hle := (h.made a ha).2
        simp only [Bool.and_eq_true, decide_eq_true_eq, not_and]
        rintro rfl
        omega
      rw [if_pos rfl] at hstart
      change start ∈ windows cfg.window ((w.own key (w.era key + 1)).map Attempt.made) at hstart
      rw [hempty] at hstart
      cases hstart
    · rw [if_neg hsame] at hstart
      refine h.free key' ?_ start hstart
      cases hc : w.throttle.counts.get? key' with
      | none => rfl
      | some c =>
        have hkept := SignInThrottle.reset_get?.mpr ⟨hc, Ne.symm hsame⟩
        cases hnone.symm.trans hkept

/-! ### Steps -/

theorem step_cases {call : ThrottleCall} (hstep : w.step cfg toLower call = some w') :
    (∃ email now, call = .admitEmail email now ∧ w.clock ≤ now ∧
      w' = w.admitKey cfg (signInKey toLower email) now) ∨
    (∃ email attempt a, call = .refund email attempt ∧ w.attempts[attempt]? = some a ∧
      a.key = signInKey toLower email ∧ a.refunded = false ∧
      w' = w.refund (signInKey toLower email) attempt) ∨
    ∃ email, call = .reset email ∧ w' = w.reset (signInKey toLower email) := by
  cases call with
  | admitEmail email now =>
    unfold step at hstep
    dsimp only at hstep
    split at hstep
    · cases hstep
    · rename_i hnow
      exact .inl ⟨email, now, rfl, not_lt.mp hnow, (Option.some.inj hstep).symm⟩
  | refund email attempt =>
    unfold step at hstep
    dsimp only at hstep
    cases ha : w.attempts[attempt]? with
    | none =>
      rw [ha] at hstep
      cases hstep
    | some a =>
      rw [ha] at hstep
      dsimp only at hstep
      split at hstep
      · rename_i hmine
        exact .inr (.inl ⟨email, attempt, a, rfl, ha, hmine.1, hmine.2,
          (Option.some.inj hstep).symm⟩)
      · cases hstep
  | reset email => exact .inr (.inr ⟨email, rfl, (Option.some.inj hstep).symm⟩)

theorem step_throttle {call : ThrottleCall} (hstep : w.step cfg toLower call = some w') :
    w'.throttle = (w.throttle.call cfg toLower call).1 ∧ w.clock ≤ w'.clock ∧
      ∀ email now, call = .admitEmail email now → w'.clock = now := by
  obtain ⟨email, now, rfl, hnow, rfl⟩ | ⟨email, attempt, a, rfl, -, -, -, rfl⟩ | ⟨email, rfl, rfl⟩ :=
    step_cases hstep
  · exact ⟨rfl, hnow, fun email' now' hcall => (ThrottleCall.admitEmail.inj hcall).2⟩
  · exact ⟨rfl, le_rfl, nofun⟩
  · exact ⟨rfl, le_rfl, nofun⟩

theorem call_admits (t : SignInThrottle) (email : String) (now : ℕ) :
    t.call cfg toLower (.admitEmail email now) = ((t.admitKey cfg (signInKey toLower email) now).1,
      some (t.admitKey cfg (signInKey toLower email) now).2) := rfl

theorem step_timely {call : ThrottleCall} (ht : w.throttle.Timely cfg w.clock)
    (hstep : w.step cfg toLower call = some w') : w'.throttle.Timely cfg w'.clock := by
  obtain ⟨hthrottle, hclock, hnow⟩ := step_throttle hstep
  rw [hthrottle]
  cases call with
  | admitEmail email now =>
    rw [hnow email now rfl] at hclock ⊢
    rw [call_admits]
    obtain ⟨s, hs, -, ⟨hfull, -, -⟩ | ⟨hcount, hroom⟩⟩ := ht.admitKey hclock (signInKey toLower email)
    · rw [hfull]
      exact hs.warn now
    · rw [hcount]
      exact hs.count hroom
  | refund email attempt => exact (ht.refund _).mono hclock
  | reset email => exact (ht.reset _).mono hclock

theorem count_cases {t s : SignInThrottle} {now : ℕ} {answer : Answer}
    (h : s.count cfg key now = (t, answer)) : answer = .admitted ∨ answer = .capped ∧ t = s := by
  unfold SignInThrottle.count at h
  dsimp only at h
  split at h
  · obtain ⟨rfl, rfl⟩ := Prod.mk.inj h
    exact .inr ⟨rfl, rfl⟩
  · obtain ⟨-, rfl⟩ := Prod.mk.inj h
    exact .inl rfl

theorem count_not_full (s : SignInThrottle) (key : String) (now : ℕ) :
    (s.count cfg key now).2 ≠ .full := by
  obtain ⟨⟨t, answer⟩, hcount⟩ : ∃ r, s.count cfg key now = r := ⟨_, rfl⟩
  rw [hcount]
  obtain rfl | ⟨rfl, -⟩ := count_cases hcount
  · exact nofun
  · exact nofun

theorem Capped.admitKey (h : Capped cfg w) (ht : w.throttle.Timely cfg w.clock) {now : ℕ}
    (hnow : w.clock ≤ now) (key : String) : Capped cfg (w.admitKey cfg key now) := by
  obtain ⟨s, hs, hkept, ⟨hfull, -, -⟩ | ⟨hcount, hroom⟩⟩ := ht.admitKey hnow key
  · have hwarned : SignInThrottle.Kept cfg now w.throttle (s.warn now) := fun key => by
      rw [(SignInThrottle.warn_rest s now).1]
      exact hkept key
    unfold Signing.admitKey
    rw [hfull]
    exact h.kept hnow hwarned
  · have hkept' := h.kept hnow hkept
    obtain ⟨⟨t, answer⟩, hanswer⟩ : ∃ r, s.count cfg key now = r := ⟨_, rfl⟩
    unfold Signing.admitKey
    rw [hcount, hanswer]
    obtain rfl | ⟨rfl, rfl⟩ := count_cases hanswer
    · exact hkept'.counted hs key hanswer
    · exact hkept'

theorem step_capped {call : ThrottleCall} (ht : w.throttle.Timely cfg w.clock) (h : Capped cfg w)
    (hreturns : w.returns cfg toLower call = true) (hstep : w.step cfg toLower call = some w') :
    Capped cfg w' := by
  obtain ⟨email, now, rfl, hnow, rfl⟩ | ⟨email, attempt, a, rfl, ha, hkey, hkept, rfl⟩ |
    ⟨email, rfl, rfl⟩ := step_cases hstep
  · exact h.admitKey ht hnow _
  · exact h.refund ha hkey hkept hreturns
  · exact h.reset _

end
end Signing

/-! ### One key alone -/

namespace SignInThrottle

def live (cfg : ThrottleConfig) (t : SignInThrottle) (key : String) (now : ℕ) : Option SignInCount :=
  (t.counts.get? key).filter fun c => !c.expired cfg now

structure Alone (cfg : ThrottleConfig) (key : String) (clock : ℕ) (t u : SignInThrottle) : Prop where
  first : t.Timely cfg clock
  second : u.Timely cfg clock
  same : t.live cfg key clock = u.live cfg key clock
  only : ∀ key', key' ≠ key → u.counts.get? key' = none

section
variable {cfg : ThrottleConfig} {t u s : SignInThrottle} {key key' : String} {clock now : ℕ}

theorem live_of_get? (h : t.counts.get? key = u.counts.get? key) :
    t.live cfg key now = u.live cfg key now := by
  unfold live
  rw [h]

theorem live_kept (h : Kept cfg now t s) : s.live cfg key now = t.live cfg key now := by
  obtain hsame | ⟨hnone, hold⟩ := h key
  · exact live_of_get? hsame
  · unfold live
    rw [hnone, Option.filter_none]
    cases hc : t.counts.get? key with
    | none => rfl
    | some c =>
      rw [Option.filter_some, hold c hc]
      rfl

theorem live_later (hnow : clock ≤ now) (t : SignInThrottle) (key : String) :
    t.live cfg key now = (t.live cfg key clock).filter fun c => !c.expired cfg now := by
  unfold live
  rw [Option.filter_filter]
  congr 1
  funext c
  unfold SignInCount.expired
  by_cases hover : c.expiry cfg ≤ clock
  · have hlater := hover.trans hnow
    simp only [hover, hlater, decide_true, Bool.not_true, Bool.and_self]
  · simp only [hover, decide_false, Bool.not_false, Bool.true_and]

theorem Alone.later (h : Alone cfg key clock t u) (hnow : clock ≤ now) : Alone cfg key now t u where
  first := h.first.mono hnow
  second := h.second.mono hnow
  same := by rw [live_later hnow, h.same, ← live_later hnow]
  only := h.only

theorem current_live (cfg : ThrottleConfig) (t : SignInThrottle) (key : String) (now : ℕ) :
    t.current cfg key now = (t.live cfg key now).getD { start := now } := by
  unfold current live
  cases t.counts.get? key with
  | none => rfl
  | some c =>
    dsimp only
    rw [Option.filter_some]
    cases c.expired cfg now with
    | true => rfl
    | false => rfl

theorem count_other (hne : key ≠ key') :
    (t.count cfg key' now).1.counts.get? key = t.counts.get? key := by
  unfold count
  dsimp only
  split
  · rfl
  · exact Table.get?_set_of_ne _ _ hne

theorem Alone.count (h : Alone cfg key now t u) (hroom : t.crowded cfg key = false)
    (hroom' : u.crowded cfg key = false) :
    (u.count cfg key now).2 = (t.count cfg key now).2 ∧
      Alone cfg key now (t.count cfg key now).1 (u.count cfg key now).1 := by
  have hcurrent : u.current cfg key now = t.current cfg key now := by
    rw [current_live, current_live, h.same]
  have hfirst := h.first.count hroom
  have hsecond := h.second.count hroom'
  have honly : ∀ key', key' ≠ key → (u.count cfg key now).1.counts.get? key' = none :=
    fun key' hne => (count_other hne).trans (h.only key' hne)
  refine ⟨?_, hfirst, hsecond, ?_, honly⟩
  · unfold SignInThrottle.count
    dsimp only
    rw [hcurrent]
    split
    · rfl
    · rfl
  · unfold SignInThrottle.count
    dsimp only
    rw [hcurrent]
    split
    · exact h.same
    · refine live_of_get? ?_
      rw [Table.get?_set_self, Table.get?_set_self]

theorem Alone.room (h : Alone cfg key now t u) (hkeys : 0 < cfg.maxKeys) :
    u.crowded cfg key = false := by
  unfold crowded
  cases hc : u.counts.get? key with
  | some c => rfl
  | none =>
    have hempty : u.counts.rows = [] := by
      refine List.eq_nil_iff_forall_not_mem.mpr fun e he => ?_
      have hheld := Table.mem_rows.mp he
      by_cases hkey : e.1 = key
      · rw [hkey, hc] at hheld
        cases hheld
      · rw [h.only e.1 hkey] at hheld
        cases hheld
    rw [hempty, List.length_nil, Option.isNone_none, Bool.true_and]
    exact decide_eq_false (not_le.mpr hkeys)

theorem Timely.keys (h : t.Timely cfg now) (hroom : t.crowded cfg key = false) :
    0 < cfg.maxKeys := by
  unfold SignInThrottle.crowded at hroom
  cases hc : t.counts.get? key with
  | some c =>
    have hmem := Table.mem_rows.mpr hc
    exact (List.length_pos_of_mem hmem).trans_le h.size
  | none =>
    rw [hc, Option.isNone_none, Bool.true_and] at hroom
    exact Nat.zero_lt_of_lt (not_le.mp (of_decide_eq_false hroom))

theorem Alone.kept (h : Alone cfg key now t u) {s s' : SignInThrottle} (hs : s.Timely cfg now)
    (hs' : s'.Timely cfg now) (hkept : Kept cfg now t s) (hkept' : Kept cfg now u s') :
    Alone cfg key now s s' where
  first := hs
  second := hs'
  same := by rw [live_kept hkept, live_kept hkept', h.same]
  only key' hne := by
    obtain hsame | ⟨hnone, -⟩ := hkept' key'
    · exact hsame.trans (h.only key' hne)
    · exact hnone

theorem Alone.warn (h : Alone cfg key now t u) (at' : ℕ) : Alone cfg key now (t.warn at') u where
  first := h.first.warn at'
  second := h.second
  same := (live_of_get? (by rw [(warn_rest t at').1])).trans h.same
  only := h.only

theorem Alone.admitKey (h : Alone cfg key clock t u) (hnow : clock ≤ now)
    (hadmits : (t.admitKey cfg key now).2 ≠ .full) :
    (u.admitKey cfg key now).2 = (t.admitKey cfg key now).2 ∧
      Alone cfg key now (t.admitKey cfg key now).1 (u.admitKey cfg key now).1 := by
  have hlater := h.later hnow
  obtain ⟨s, hs, hkept, ⟨hfull, -, -⟩ | ⟨hcount, hroom⟩⟩ := h.first.admitKey hnow key
  · rw [hfull] at hadmits
    exact absurd rfl hadmits
  · obtain ⟨s', hs', hkept', hcase⟩ := h.second.admitKey hnow key
    have hrest := hlater.kept hs hs' hkept hkept'
    have hroom' := hrest.room (hs.keys hroom)
    obtain ⟨-, hcrowded, -⟩ | ⟨hcount', -⟩ := hcase
    · rw [hroom'] at hcrowded
      cases hcrowded
    · rw [hcount, hcount']
      exact hrest.count hroom hroom'

theorem Alone.admit_other (h : Alone cfg key clock t u) (hnow : clock ≤ now)
    (hother : key' ≠ key ∨ (t.admitKey cfg key' now).2 = .full) :
    Alone cfg key now (t.admitKey cfg key' now).1 u := by
  have hlater := h.later hnow
  obtain ⟨s, hs, hkept, ⟨hfull, -, -⟩ | ⟨hcount, hroom⟩⟩ := h.first.admitKey hnow key'
  · rw [hfull]
    exact (hlater.kept hs hlater.second hkept (Kept.refl cfg now u)).warn now
  · rw [hcount] at hother ⊢
    have hrest := hlater.kept hs hlater.second hkept (Kept.refl cfg now u)
    have hne : key ≠ key' := by
      rintro rfl
      obtain hne | hfull := hother
      · exact hne rfl
      · exact absurd hfull (Signing.count_not_full s key now)
    exact ⟨hrest.first.count hroom, hrest.second,
      (live_of_get? (count_other hne)).trans hrest.same, hrest.only⟩

theorem live_refund (t : SignInThrottle) (key : String) :
    (t.refund key).live cfg key now = (t.live cfg key now).map
      fun c => if 0 < c.n then { c with n := c.n - 1 } else c := by
  unfold live refund
  rw [Table.get?_modify_self]
  cases t.counts.get? key with
  | none => rfl
  | some c =>
    have hexpired : (if 0 < c.n then { c with n := c.n - 1 } else c).expired cfg now =
        c.expired cfg now := by
      split
      · rfl
      · rfl
    rw [Option.map_some, Option.filter_some, Option.filter_some, hexpired]
    split
    · rfl
    · rfl

theorem get?_reset (t : SignInThrottle) (key key' : String) :
    (t.reset key).counts.get? key' = if key' = key then none else t.counts.get? key' := by
  refine Option.ext fun c => ?_
  rw [reset_get?]
  split
  · rename_i hkey
    simp [hkey]
  · rename_i hkey
    simp [hkey]

theorem Alone.refund (h : Alone cfg key clock t u) :
    Alone cfg key clock (t.refund key) (u.refund key) where
  first := h.first.refund key
  second := h.second.refund key
  same := by rw [live_refund, live_refund, h.same]
  only key' hne := (Table.get?_modify_of_ne _ _ hne).trans (h.only key' hne)

theorem Alone.refund_other (h : Alone cfg key clock t u) (hne : key ≠ key') :
    Alone cfg key clock (t.refund key') u where
  first := h.first.refund key'
  second := h.second
  same := (live_of_get? (Table.get?_modify_of_ne _ _ hne)).trans h.same
  only := h.only

theorem Alone.reset (h : Alone cfg key clock t u) :
    Alone cfg key clock (t.reset key) (u.reset key) where
  first := h.first.reset key
  second := h.second.reset key
  same := live_of_get? (by rw [get?_reset, get?_reset, if_pos rfl, if_pos rfl])
  only key' hne := by rw [get?_reset, if_neg hne, h.only key' hne]

theorem Alone.reset_other (h : Alone cfg key clock t u) (hne : key ≠ key') :
    Alone cfg key clock (t.reset key') u where
  first := h.first.reset key'
  second := h.second
  same := (live_of_get? (by rw [get?_reset, if_neg hne])).trans h.same
  only := h.only

theorem Alone.start (cfg : ThrottleConfig) (key : String) : Alone cfg key 0 {} {} := by
  have htimely : ({} : SignInThrottle).Timely cfg 0 :=
    ⟨nofun, nofun, nofun, Nat.zero_le _, Nat.zero_le _⟩
  exact ⟨htimely, htimely, rfl, fun _ _ => rfl⟩

end
end SignInThrottle

def heard (toLower : String → String) (key : String) (e : ThrottleCall × Option Answer) : Bool :=
  signInKey toLower e.1.email = key && e.2 ≠ some .full

namespace Signing

variable {cfg : ThrottleConfig} {toLower : String → String} {w w' : Signing} {key : String}

theorem heard_step {call : ThrottleCall} {u : SignInThrottle}
    (h : SignInThrottle.Alone cfg key w.clock w.throttle u)
    (hstep : w.step cfg toLower call = some w')
    (hheard : heard toLower key (call, (w.throttle.call cfg toLower call).2) = true) :
    (u.call cfg toLower call).2 = (w.throttle.call cfg toLower call).2 ∧
      SignInThrottle.Alone cfg key w'.clock w'.throttle (u.call cfg toLower call).1 := by
  obtain ⟨hkey, hfull⟩ := Bool.and_eq_true_iff.mp hheard
  have hkey := of_decide_eq_true hkey
  have hfull := of_decide_eq_true hfull
  obtain ⟨email, now, rfl, hnow, rfl⟩ | ⟨email, attempt, a, rfl, -, -, -, rfl⟩ | ⟨email, rfl, rfl⟩ :=
    step_cases hstep
  · obtain rfl : signInKey toLower email = key := hkey
    rw [call_admits] at hfull ⊢
    rw [call_admits]
    dsimp only at hfull ⊢
    have hadmitted : (w.throttle.admitKey cfg (signInKey toLower email) now).2 ≠ .full := by
      intro heq
      rw [heq] at hfull
      exact hfull rfl
    obtain ⟨hsame, hnext⟩ := h.admitKey hnow hadmitted
    rw [hsame]
    exact ⟨rfl, hnext⟩
  · obtain rfl : signInKey toLower email = key := hkey
    exact ⟨rfl, h.refund⟩
  · obtain rfl : signInKey toLower email = key := hkey
    exact ⟨rfl, h.reset⟩

theorem unheard_step {call : ThrottleCall} {u : SignInThrottle}
    (h : SignInThrottle.Alone cfg key w.clock w.throttle u)
    (hstep : w.step cfg toLower call = some w')
    (hunheard : heard toLower key (call, (w.throttle.call cfg toLower call).2) = false) :
    SignInThrottle.Alone cfg key w'.clock w'.throttle u := by
  have hother : key ≠ signInKey toLower call.email ∨
      (w.throttle.call cfg toLower call).2 = some .full := by
    by_contra hboth
    obtain ⟨hkey, hfull⟩ := not_or.mp hboth
    have hheard : heard toLower key (call, (w.throttle.call cfg toLower call).2) = true :=
      Bool.and_eq_true_iff.mpr ⟨decide_eq_true (not_not.mp hkey).symm, decide_eq_true hfull⟩
    rw [hunheard] at hheard
    cases hheard
  obtain ⟨email, now, rfl, hnow, rfl⟩ | ⟨email, attempt, a, rfl, -, -, -, rfl⟩ | ⟨email, rfl, rfl⟩ :=
    step_cases hstep
  · rw [call_admits] at hother
    dsimp only [ThrottleCall.email] at hother
    exact h.admit_other hnow (hother.imp Ne.symm Option.some.inj)
  · exact h.refund_other (hother.resolve_right nofun)
  · exact h.reset_other (hother.resolve_right nofun)

theorem answers_alone {calls : List ThrottleCall} {u : SignInThrottle}
    (h : SignInThrottle.Alone cfg key w.clock w.throttle u)
    (hrun : runFrom (step cfg toLower) w calls = some w') :
    u.answers cfg toLower
        (((w.throttle.answers cfg toLower calls).filter (heard toLower key)).map Prod.fst) =
      (w.throttle.answers cfg toLower calls).filter (heard toLower key) := by
  induction calls generalizing w u with
  | nil => rfl
  | cons call calls ih =>
    obtain ⟨w₁, hstep, hrest⟩ := runFrom_cons.mp hrun
    obtain ⟨hthrottle, -⟩ := step_throttle hstep
    rw [SignInThrottle.answers, List.filter_cons, ← hthrottle]
    split
    · rename_i hheard
      obtain ⟨hsame, hnext⟩ := heard_step h hstep hheard
      rw [List.map_cons, SignInThrottle.answers, hsame, ih hnext hrest]
    · rename_i hunheard
      exact ih (unheard_step h hstep (Bool.not_eq_true _ ▸ hunheard)) hrest

def Within (cfg : ThrottleConfig) (w : Signing) : Prop :=
  ∀ key era, ∀ start ∈ windows cfg.window (w.times key era),
    standing cfg.window start (w.own key era) ≤ cfg.max

structure Bounded (cfg : ThrottleConfig) (w : Signing) : Prop where
  size : w.throttle.counts.rows.length ≤ cfg.maxKeys
  earliest : ∀ key c, w.throttle.counts.get? key = some c → w.throttle.nextExpiry ≤ c.expiry cfg
  full : ∀ key now, w.clock ≤ now → (w.throttle.admitKey cfg key now).2 = .full →
    (w.throttle.admitKey cfg key now).1.counts.rows.length = cfg.maxKeys ∧
      ∀ key' c, (w.throttle.admitKey cfg key now).1.counts.get? key' = some c → now < c.expiry cfg

theorem Bounded.of_timely (ht : w.throttle.Timely cfg w.clock) : Bounded cfg w where
  size := ht.size
  earliest := ht.earliest
  full key now hnow hfull := by
    obtain ⟨s, hs, -, ⟨hadmits, hcrowded, hfresh⟩ | ⟨hcount, -⟩⟩ := ht.admitKey hnow key
    · rw [hadmits]
      dsimp only
      rw [(SignInThrottle.warn_rest s now).1]
      have hroom := of_decide_eq_true (Bool.and_eq_true_iff.mp hcrowded).2
      exact ⟨le_antisymm hs.size hroom, hfresh⟩
    · rw [hcount] at hfull
      exact absurd hfull (count_not_full s key now)

/-- The map keeps its bounds and no key hears of the others but by a full map, in every run;
the cap holds where every refund goes back to the window it came from. -/
theorem throttle_run {calls : List ThrottleCall}
    (hrun : runFrom (step cfg toLower) {} calls = some w) :
    (Along (step cfg toLower) (fun w call => w.returns cfg toLower call = true) {} calls →
      Within cfg w) ∧ Bounded cfg w ∧
    ∀ key, ({} : SignInThrottle).answers cfg toLower
        (((({} : SignInThrottle).answers cfg toLower calls).filter (heard toLower key)).map
          Prod.fst) =
      (({} : SignInThrottle).answers cfg toLower calls).filter (heard toLower key) := by
  have hstart : ({} : SignInThrottle).Timely cfg 0 := (SignInThrottle.Alone.start cfg "").first
  have htimely : w.throttle.Timely cfg w.clock :=
    invariant_run (I := fun w => w.throttle.Timely cfg w.clock)
      (fun _ _ _ ht hstep => step_timely ht hstep) hstart hrun
  refine ⟨fun hreturns => ?_, .of_timely htimely,
    fun key => answers_alone (SignInThrottle.Alone.start cfg key) hrun⟩
  have hcapped := invariant_along (I := fun w => w.throttle.Timely cfg w.clock ∧ Capped cfg w)
    (fun _ _ _ hw hreturned hstep =>
      ⟨step_timely hw.1 hstep, step_capped hw.1 hw.2 hreturned hstep⟩)
    ⟨hstart, Capped.start cfg⟩ hreturns hrun
  exact hcapped.2.cap

def burst : List ThrottleCall :=
  (List.replicate 11 (.admitEmail " ada@eze.ng" (10 ^ 12))) ++
    [.refund "ada@eze.ng" 3, .admitEmail "ada@eze.ng" (2 * 10 ^ 12), .reset "ada@eze.ng",
      .admitEmail "ada@eze.ng" (2 * 10 ^ 12)]

theorem throttle_run_burst : ∃ w, runFrom (step signIn id) {} burst = some w ∧
    Within signIn w ∧ Bounded signIn w ∧ w.times "ada@eze.ng" 1 = [2 * 10 ^ 12] := by
  have htest : (runFrom (step signIn id) {} burst).any
      (fun w => w.times "ada@eze.ng" 1 == [2 * 10 ^ 12]) = true := by decide +kernel
  have hreturns : Along (step signIn id) (fun w call => w.returns signIn id call = true) {} burst := by
    decide +kernel
  obtain ⟨w, hrun, hw⟩ := (Option.any_eq_true _ _).mp htest
  obtain ⟨hwithin, hbounded, -⟩ := throttle_run hrun
  exact ⟨w, hrun, hwithin hreturns, hbounded, eq_of_beq hw⟩

def lateRefund : List ThrottleCall :=
  [.admitEmail "ada@eze.ng" (10 ^ 12)] ++
    List.replicate 10 (.admitEmail "ada@eze.ng" (10 ^ 12 + signInWindow)) ++
    [.refund "ada@eze.ng" 0, .admitEmail "ada@eze.ng" (10 ^ 12 + signInWindow + 10 ^ 9)]

theorem late_refund_over_cap : ¬ ∀ calls w, runFrom (step signIn id) {} calls = some w →
    Within signIn w := by
  intro h
  have htest : (runFrom (step signIn id) {} lateRefund).any (fun w =>
      decide (10 ^ 12 + signInWindow ∈ windows signIn.window (w.times "ada@eze.ng" 0)) &&
        decide (standing signIn.window (10 ^ 12 + signInWindow) (w.own "ada@eze.ng" 0) = 11)) =
      true := by
    decide +kernel
  obtain ⟨w, hrun, hw⟩ := (Option.any_eq_true _ _).mp htest
  obtain ⟨hwindow, hstanding⟩ := Bool.and_eq_true_iff.mp hw
  have hcap := h lateRefund w hrun "ada@eze.ng" 0 _ (of_decide_eq_true hwindow)
  rw [of_decide_eq_true hstanding] at hcap
  exact absurd hcap (by decide)

end Signing
end InvoiceOs.Gateway
