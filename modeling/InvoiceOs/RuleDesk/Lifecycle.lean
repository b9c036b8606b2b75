import InvoiceOs.RuleDesk.InForce

/-! A version moves one way, from draft to scheduled to in force to superseded, and what an invoice
of the past was judged by stays as it was. -/

namespace InvoiceOs.RuleDesk

open Lib Validation

/-! ### What a call keeps of a version -/

def RuleRow.content (r : RuleRow) : RuleRow := { r with enabled := true }

structure Kept (v v' : Version) : Prop where
  number : v'.number = v.number
  notes : v'.notes = v.notes
  made : v.standing = .draft → v'.standing ≠ .sealed none
  standing : v.standing ≠ .draft → v'.standing = v.standing
  keys : v.standing ≠ .draft → v'.rules.rows.length = v.rules.rows.length
  content : v.standing ≠ .draft → ∀ key,
    (v'.rules.get? key).map RuleRow.content = (v.rules.get? key).map RuleRow.content

theorem Kept.refl (v : Version) : Kept v v := by
  refine ⟨rfl, rfl, fun h => ?_, fun _ => rfl, fun _ => rfl, fun _ _ => rfl⟩
  rw [h]
  nofun

theorem Kept.trans {u v w : Version} (huv : Kept u v) (hvw : Kept v w) : Kept u w := by
  have hsealed : u.standing ≠ .draft → v.standing ≠ .draft := by
    intro hu
    rw [huv.standing hu]
    exact hu
  refine ⟨hvw.number.trans huv.number, hvw.notes.trans huv.notes, fun hu => ?_, fun hu => ?_,
    fun hu => ?_, fun hu key => ?_⟩
  · by_cases hv : v.standing = .draft
    · exact hvw.made hv
    · rw [hvw.standing hv]
      exact huv.made hu
  · exact (hvw.standing (hsealed hu)).trans (huv.standing hu)
  · exact (hvw.keys (hsealed hu)).trans (huv.keys hu)
  · exact (hvw.content (hsealed hu) key).trans (huv.content hu key)

theorem Kept.of_draft {v v' : Version} (hv : v.standing = .draft) (hnumber : v'.number = v.number)
    (hnotes : v'.notes = v.notes) (hmade : v'.standing ≠ .sealed none) : Kept v v' :=
  ⟨hnumber, hnotes, fun _ => hmade, fun h => absurd hv h, fun h => absurd hv h,
    fun h => absurd hv h⟩

theorem Kept.switch (v : Version) (key : String) (enabled : Bool) :
    Kept v (v.switch key enabled) := by
  refine ⟨rfl, rfl, fun h => ?_, fun _ => rfl, fun _ => ?_, fun _ k => ?_⟩
  · exact (Kept.refl v).made h
  · unfold Version.switch
    dsimp only
    cases hrow : v.rules.get? key with
    | none =>
      unfold Table.modify
      rw [hrow]
    | some row =>
      rw [modify_of_get? hrow]
      exact Table.length_set_of_get? hrow _
  · unfold Version.switch
    dsimp only
    rw [Table.get?_modify]
    split
    · rename_i hk
      rw [hk, Option.map_map]
      rfl
    · rfl

theorem kept_set {vs : Versions} {id₀ : String} {w w' : Version} (hw : vs.get? id₀ = some w)
    (hkept : Kept w w') {id : String} {v : Version} (hv : vs.get? id = some v) :
    ∃ v', (vs.set id₀ w').get? id = some v' ∧ Kept v v' ∧ (id ≠ id₀ → v' = v) := by
  rw [Table.get?_set]
  split
  · rename_i hid
    rw [hid, hw] at hv
    cases hv
    exact ⟨w', rfl, hkept, fun hne => absurd hid hne⟩
  · exact ⟨v, hv, Kept.refl v, fun _ => rfl⟩

section
variable {x : Externals} {e : Env} {actor : String} {s s' : Desk}

theorem Move.kept (h : Move x e actor s s') {id : String} {v : Version}
    (hv : s.versions.get? id = some v) : ∃ v', s'.versions.get? id = some v' ∧ Kept v v' ∧
      (v.standing ≠ .draft → ruleSetVersionFor s.versions e.today ≠ some id → v' = v) := by
  -- the one row a call on the draft rewrites is the draft's
  have hdrafted : ∀ id₀ w w', draftOf s.versions = some (id₀, w) → w'.number = w.number →
      w'.notes = w.notes → w'.standing ≠ .sealed none →
      ∃ v', (s.versions.set id₀ w').get? id = some v' ∧ Kept v v' ∧
        (v.standing ≠ .draft → ruleSetVersionFor s.versions e.today ≠ some id → v' = v) := by
    intro id₀ w w' hdraft hnumber hnotes hmade
    obtain ⟨hw, hstanding⟩ := draftOf_eq_some hdraft
    obtain ⟨v', hv', hkept, hother⟩ :=
      kept_set hw (Kept.of_draft hstanding hnumber hnotes hmade) hv
    refine ⟨v', hv', hkept, fun hsealed _ => hother fun hid => hsealed ?_⟩
    rw [hid, hw] at hv
    cases hv
    exact hstanding
  cases h with
  | unchanged => exact ⟨v, hv, Kept.refl v, fun _ _ => rfl⟩
  | opened src w hsrc hno hnew =>
    have hne : id ≠ e.newID := by
      rintro rfl
      rw [hnew] at hv
      cases hv
    refine ⟨v, ?_, Kept.refl v, fun _ _ => rfl⟩
    rw [Desk.record_versions, Table.get?_set_of_ne _ _ hne]
    exact hv
  | added id₀ w key rule hdraft hnew =>
    exact hdrafted id₀ w _ hdraft rfl rfl ((Kept.refl w).made (draftOf_eq_some hdraft).2)
  | edited id₀ w key rule old hdraft hold =>
    exact hdrafted id₀ w _ hdraft rfl rfl ((Kept.refl w).made (draftOf_eq_some hdraft).2)
  | removed id₀ w key hdraft =>
    exact hdrafted id₀ w _ hdraft rfl rfl ((Kept.refl w).made (draftOf_eq_some hdraft).2)
  | published id₀ w start rs hdraft hstart hrules hload hprobe =>
    exact hdrafted id₀ w _ hdraft rfl rfl nofun
  | switched id₀ w key enabled reason hforce =>
    obtain ⟨hid₀, hw⟩ := versionFor_eq_some.mp hforce
    obtain ⟨v', hv', hkept, hother⟩ := kept_set hw (Kept.switch w key enabled) hv
    exact ⟨v', hv', hkept, fun _ hout => hother fun hid => hout (hid ▸ hid₀)⟩

theorem dated_of_kept {vs vs' : Versions} (hkept : ∀ id v, vs.get? id = some v →
    ∃ v', vs'.get? id = some v' ∧ Kept v v') : ∀ v ∈ dated vs, v ∈ dated vs' := by
  intro v hv
  obtain ⟨row, hrow, hstanding, hnumber⟩ := mem_dated.mp hv
  obtain ⟨row', hrow', hk⟩ := hkept _ _ hrow
  have hsealed : row.standing ≠ .draft := by
    rw [hstanding]
    nofun
  exact mem_dated.mpr ⟨row', hrow', (hk.standing hsealed).trans hstanding, hk.number.trans hnumber⟩

theorem mem_dated_set {vs : Versions} {id : String} {v : Version} {w : Dated}
    (h : w ∈ dated (vs.set id v)) :
    (w.id = id ∧ v.standing = .sealed (some w.effectiveFrom) ∧ v.number = w.version) ∨
      w ∈ dated vs := by
  obtain ⟨row, hrow, hstanding, hnumber⟩ := mem_dated.mp h
  rw [Table.get?_set] at hrow
  split at hrow
  · rename_i hid
    cases hrow
    exact .inl ⟨hid, hstanding, hnumber⟩
  · exact .inr (mem_dated.mpr ⟨row, hrow, hstanding, hnumber⟩)

theorem Move.dated (h : Move x e actor s s') {w : Dated} (hw : w ∈ dated s'.versions) :
    w ∈ RuleDesk.dated s.versions ∨ e.today ≤ w.effectiveFrom := by
  have hdrafted : ∀ id₀ v v', draftOf s.versions = some (id₀, v) → v'.standing = v.standing →
      w ∈ RuleDesk.dated (s.versions.set id₀ v') →
      w ∈ RuleDesk.dated s.versions ∨ e.today ≤ w.effectiveFrom := by
    intro id₀ v v' hdraft hsame hw
    obtain ⟨-, hstanding, -⟩ | hold := mem_dated_set hw
    · rw [hsame, (draftOf_eq_some hdraft).2] at hstanding
      cases hstanding
    · exact .inl hold
  cases h with
  | unchanged => exact .inl hw
  | opened src v hsrc hno hnew =>
    obtain ⟨-, hstanding, -⟩ | hold := mem_dated_set hw
    · cases hstanding
    · exact .inl hold
  | added id₀ v key rule hdraft hnew => exact hdrafted id₀ v _ hdraft rfl hw
  | edited id₀ v key rule old hdraft hold => exact hdrafted id₀ v _ hdraft rfl hw
  | removed id₀ v key hdraft => exact hdrafted id₀ v _ hdraft rfl hw
  | published id₀ v start rs hdraft hstart hrules hload hprobe =>
    obtain ⟨-, hstanding, -⟩ | hold := mem_dated_set hw
    · cases hstanding
      exact .inr hstart
    · exact .inl hold
  | switched id₀ v key enabled reason hforce =>
    obtain ⟨hid, hstanding, hnumber⟩ | hold := mem_dated_set hw
    · refine .inl (mem_dated.mpr ⟨v, ?_, hstanding, hnumber⟩)
      rw [hid]
      exact (versionFor_eq_some.mp hforce).2
    · exact .inl hold

end

/-! ### Runs under a clock -/

def Forward : ℤ → List Act → ℤ → Prop
  | t, [], t' => t ≤ t'
  | t, a :: acts, t' => t ≤ a.env.today ∧ Forward a.env.today acts t'

instance decidableForward : ∀ t acts t', Decidable (Forward t acts t')
  | t, [], t' => inferInstanceAs (Decidable (t ≤ t'))
  | t, a :: acts, t' =>
    have := decidableForward a.env.today acts t'
    inferInstanceAs (Decidable (t ≤ a.env.today ∧ Forward a.env.today acts t'))

theorem Forward.le {t t' : ℤ} {acts : List Act} (h : Forward t acts t') : t ≤ t' := by
  induction acts generalizing t with
  | nil => exact h
  | cons a acts ih => exact h.1.trans (ih h.2)

variable {x : Externals} {s : Desk} {t t' : ℤ} {acts : List Act}

theorem run_kept (x : Externals) (s : Desk) (acts : List Act) {id : String} {v : Version}
    (hv : s.versions.get? id = some v) :
    ∃ v', (run x s acts).versions.get? id = some v' ∧ Kept v v' := by
  induction acts generalizing s v with
  | nil => exact ⟨v, hv, Kept.refl v⟩
  | cons a acts ih =>
    obtain ⟨v₁, hv₁, hkept, -⟩ := (step_move x s a).kept hv
    obtain ⟨v', hv', hrest⟩ := ih (step x s a) hv₁
    exact ⟨v', hv', hkept.trans hrest⟩

theorem run_dated (x : Externals) (s : Desk) (acts : List Act) :
    ∀ v ∈ dated s.versions, v ∈ dated (run x s acts).versions :=
  dated_of_kept fun _ _ hv => run_kept x s acts hv

theorem run_dated_later (hclock : Forward t acts t') {w : Dated}
    (hw : w ∈ dated (run x s acts).versions) :
    w ∈ dated s.versions ∨ t ≤ w.effectiveFrom := by
  induction acts generalizing s t with
  | nil => exact .inl hw
  | cons a acts ih =>
    obtain hstep | hlate := ih (s := step x s a) hclock.2 hw
    · obtain hold | hlate := (step_move x s a).dated hstep
      · exact .inl hold
      · exact .inr (hclock.1.trans hlate)
    · exact .inr (hclock.1.trans hlate)

/-! ### States -/

def Started (vs : Versions) (t : ℤ) : Prop := ∃ w ∈ dated vs, w.effectiveFrom ≤ t

def Superseded (vs : Versions) (t : ℤ) (v : Dated) : Prop :=
  v.effectiveFrom ≤ t ∧ ∃ w ∈ dated vs, w.effectiveFrom ≤ t ∧ Beats w v

theorem Started.run (h : Started s.versions t) (ht : t ≤ t') :
    Started (run x s acts).versions t' := by
  obtain ⟨w, hw, hstart⟩ := h
  exact ⟨w, run_dated x s acts w hw, hstart.trans ht⟩

theorem Superseded.run {v : Dated} (h : Superseded s.versions t v) (ht : t ≤ t') :
    Superseded (run x s acts).versions t' v := by
  obtain ⟨hstart, w, hw, hle, hbeats⟩ := h
  exact ⟨hstart.trans ht, w, run_dated x s acts w hw, hle.trans ht, hbeats⟩

section
variable {vs : Versions} {id : String} {v : Version} {start : ℤ}

theorem stateOf_dated (hs : Sound vs) (hstarted : Started vs t) (hv : vs.get? id = some v)
    (hstanding : v.standing = .sealed (some start)) :
    (t < start ∧ stateOf vs t id v = .scheduled) ∨
    (Superseded vs t ⟨id, start, v.number⟩ ∧ stateOf vs t id v = .superseded) ∨
    (start ≤ t ∧ stateOf vs t id v = .inForce) := by
  have hmem : ⟨id, start, v.number⟩ ∈ dated vs := mem_dated.mpr ⟨v, hv, hstanding, rfl⟩
  unfold stateOf
  rw [hstanding]
  dsimp only
  by_cases hin : ruleSetVersionFor vs t = some id
  · rw [if_pos hin]
    obtain ⟨u, hu, hid, hle⟩ := started_of_versionFor hin hstarted
    obtain rfl := dated_inj hu hmem hid
    exact .inr (.inr ⟨hle, rfl⟩)
  · rw [if_neg hin]
    by_cases hlate : t < start
    · rw [if_pos hlate]
      exact .inl ⟨hlate, rfl⟩
    · rw [if_neg hlate]
      have hle : start ≤ t := not_lt.mp hlate
      refine .inr (.inl ⟨⟨hle, ?_⟩, rfl⟩)
      by_contra hno
      push Not at hno
      exact hin ((versionFor_started hs hmem hle).mpr hno)

theorem Superseded.notInForce (hs : Sound vs) (hv : vs.get? id = some v)
    (hstanding : v.standing = .sealed (some start))
    (h : Superseded vs t ⟨id, start, v.number⟩) : ruleSetVersionFor vs t ≠ some id := by
  have hmem : ⟨id, start, v.number⟩ ∈ dated vs := mem_dated.mpr ⟨v, hv, hstanding, rfl⟩
  obtain ⟨hle, w, hw, hstart, hbeats⟩ := h
  intro hin
  exact (versionFor_started hs hmem hle).mp hin w hw hstart hbeats

theorem stateOf_superseded (hs : Sound vs) (hv : vs.get? id = some v)
    (hstanding : v.standing = .sealed (some start))
    (h : Superseded vs t ⟨id, start, v.number⟩) : stateOf vs t id v = .superseded := by
  have hnot : ¬ t < start := not_lt.mpr h.1
  unfold stateOf
  rw [hstanding]
  dsimp only
  rw [if_neg (h.notInForce hs hv hstanding), if_neg hnot]

theorem stateOf_draft (h : v.standing = .draft) : stateOf vs t id v = .draft := by
  unfold stateOf
  rw [h]

theorem stateOf_retired (hv : vs.get? id = some v) (h : v.standing = .sealed none) :
    stateOf vs t id v = .retired := by
  unfold stateOf
  rw [h]
  dsimp only
  rw [if_neg]
  intro hin
  obtain ⟨u, hu, hid, -⟩ := exists_of_versionFor hin
  obtain ⟨row, hrow, hstanding, -⟩ := mem_dated.mp hu
  rw [hid, hv] at hrow
  cases hrow
  rw [h] at hstanding
  cases hstanding

end

def State.rank : State → ℕ
  | .draft => 0
  | .scheduled => 1
  | .inForce => 2
  | .superseded => 3
  | .retired => 4

theorem stateOf_forward {vs vs' : Versions} (hs : Sound vs) (hs' : Sound vs') (ht : t ≤ t')
    (hstarted : Started vs t) (hdated : ∀ u ∈ dated vs, u ∈ dated vs') {id : String}
    {v v' : Version} (hv : vs.get? id = some v) (hv' : vs'.get? id = some v')
    (hkept : Kept v v') :
    (stateOf vs t id v).rank ≤ (stateOf vs' t' id v').rank ∧
      (stateOf vs t id v = .retired ↔ stateOf vs' t' id v' = .retired) := by
  have hstarted' : Started vs' t' := by
    obtain ⟨w, hw, hle⟩ := hstarted
    exact ⟨w, hdated w hw, hle.trans ht⟩
  -- once a version is dated it is never retired
  have hnever : ∀ start, v'.standing = .sealed (some start) →
      stateOf vs' t' id v' ≠ .retired := by
    intro start hstanding hretired
    obtain ⟨-, h⟩ | ⟨-, h⟩ | ⟨-, h⟩ := stateOf_dated hs' hstarted' hv' hstanding
    all_goals
      rw [h] at hretired
      cases hretired
  cases hstanding : v.standing with
  | draft =>
    rw [stateOf_draft hstanding]
    refine ⟨Nat.zero_le _, nofun, fun hretired => ?_⟩
    cases hstanding' : v'.standing with
    | draft =>
      rw [stateOf_draft hstanding'] at hretired
      cases hretired
    | «sealed» start =>
      cases start with
      | none => exact absurd hstanding' (hkept.made hstanding)
      | some start => exact absurd hretired (hnever start hstanding')
  | «sealed» start =>
    have hsealed : v.standing ≠ .draft := by
      rw [hstanding]
      nofun
    have hstanding' : v'.standing = .sealed start := (hkept.standing hsealed).trans hstanding
    cases start with
    | none =>
      rw [stateOf_retired hv hstanding, stateOf_retired hv' hstanding']
      exact ⟨le_refl _, Iff.rfl⟩
    | some start =>
      obtain ⟨hlate, h⟩ | ⟨hsuper, h⟩ | ⟨hle, h⟩ := stateOf_dated hs hstarted hv hstanding
      · rw [h]
        refine ⟨?_, nofun, fun hretired => absurd hretired (hnever start hstanding')⟩
        obtain ⟨-, h'⟩ | ⟨-, h'⟩ | ⟨-, h'⟩ := stateOf_dated hs' hstarted' hv' hstanding'
        · rw [h']
        · rw [h']
          decide
        · rw [h']
          decide
      · obtain ⟨hle, w, hw, hstart, hbeats⟩ := hsuper
        have hsuper' : Superseded vs' t' ⟨id, start, v'.number⟩ := by
          rw [hkept.number]
          exact ⟨hle.trans ht, w, hdated w hw, hstart.trans ht, hbeats⟩
        rw [h, stateOf_superseded hs' hv' hstanding' hsuper']
        exact ⟨le_refl _, nofun, nofun⟩
      · rw [h]
        refine ⟨?_, nofun, fun hretired => absurd hretired (hnever start hstanding')⟩
        obtain ⟨hlate, -⟩ | ⟨-, h'⟩ | ⟨-, h'⟩ := stateOf_dated hs' hstarted' hv' hstanding'
        · omega
        · rw [h']
          decide
        · rw [h']

end InvoiceOs.RuleDesk
