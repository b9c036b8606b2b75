import InvoiceOs.RuleDesk.Lifecycle

/-! What the list of versions says over a run, and the invoices of the past: the version of a past
date is fixed, and a superseded one is loaded as it always was. -/

namespace InvoiceOs.RuleDesk

open Lib Validation

variable {x : Externals} {s : Desk} {t t' : ℤ} {acts : List Act}

/-! ### The list -/

theorem mem_staffVersions {vs : Versions} {v : StaffVersion} : v ∈ staffVersions vs t ↔
    ∃ id row, vs.get? id = some row ∧ staffVersion vs t (id, row) = v := by
  unfold staffVersions
  rw [(List.mergeSort_perm _ _).mem_iff, List.mem_map]
  constructor
  · rintro ⟨⟨id, row⟩, hmem, rfl⟩
    exact ⟨id, row, Table.mem_rows.mp hmem, rfl⟩
  · rintro ⟨id, row, hrow, rfl⟩
    exact ⟨(id, row), Table.mem_rows.mpr hrow, rfl⟩

theorem draft_of_state {vs : Versions} {id : String} {v : Version}
    (h : stateOf vs t id v = .draft) : v.standing = .draft := by
  unfold stateOf at h
  split at h
  · assumption
  · split at h
    · cases h
    · split at h
      · cases h
      · split at h
        · cases h
        · cases h

theorem inForce_of_state {vs : Versions} {id : String} {v : Version}
    (h : stateOf vs t id v = .inForce) : ruleSetVersionFor vs t = some id := by
  unfold stateOf at h
  split at h
  · cases h
  · split at h
    · assumption
    · split at h
      · cases h
      · split at h
        · cases h
        · cases h

theorem state_inForce {vs : Versions} {id : String}
    (h : ruleSetVersionFor vs t = some id) :
    ∃ v, vs.get? id = some v ∧ stateOf vs t id v = .inForce := by
  obtain ⟨u, hu, rfl, -⟩ := exists_of_versionFor h
  obtain ⟨v, hv, hstanding, -⟩ := mem_dated.mp hu
  refine ⟨v, hv, ?_⟩
  unfold stateOf
  rw [hstanding]
  dsimp only
  rw [if_pos h]

theorem Kept.forward {vs vs' : Versions} {id : String} {v v' : Version} (hkept : Kept v v')
    (h : stateOf vs t id v ≠ .draft) :
    (staffVersion vs' t' (id, v')).effectiveFrom = (staffVersion vs t (id, v)).effectiveFrom ∧
      (staffVersion vs' t' (id, v')).ruleCount = (staffVersion vs t (id, v)).ruleCount := by
  have hsealed : v.standing ≠ .draft := fun hdraft => h (stateOf_draft hdraft)
  refine ⟨?_, hkept.keys hsealed⟩
  unfold staffVersion
  dsimp only
  rw [hkept.standing hsealed]

/-- Whatever staff do, no version leaves the list, none goes back to an earlier state, and what is
no longer a draft keeps its start and its rules' number; at every date one version is in force, and
one at most is a draft. -/
theorem versions_forward (hs : Sound s.versions) (hstarted : Started s.versions t)
    (hclock : Forward t acts t') :
    (∀ v ∈ staffVersions s.versions t, ∃ v' ∈ staffVersions (run x s acts).versions t',
      v'.ruleSetVersionID = v.ruleSetVersionID ∧ v'.version = v.version ∧ v'.notes = v.notes ∧
      v.state.rank ≤ v'.state.rank ∧ (v.state = .retired ↔ v'.state = .retired) ∧
      (v.state ≠ .draft → v'.effectiveFrom = v.effectiveFrom ∧ v'.ruleCount = v.ruleCount)) ∧
    (∃! v, v ∈ staffVersions (run x s acts).versions t' ∧ v.state = .inForce) ∧
    ∀ v ∈ staffVersions (run x s acts).versions t',
      ∀ w ∈ staffVersions (run x s acts).versions t',
        v.state = .draft → w.state = .draft → v = w := by
  have hs' : Sound (run x s acts).versions := run_sound x acts hs
  have hstarted' : Started (run x s acts).versions t' := hstarted.run hclock.le
  refine ⟨?_, ?_, ?_⟩
  · intro v hv
    obtain ⟨id, row, hrow, rfl⟩ := mem_staffVersions.mp hv
    obtain ⟨row', hrow', hkept⟩ := run_kept x s acts hrow
    obtain ⟨hrank, hretired⟩ := stateOf_forward hs hs' hclock.le hstarted (run_dated x s acts)
      hrow hrow' hkept
    exact ⟨_, mem_staffVersions.mpr ⟨id, row', hrow', rfl⟩, rfl, hkept.number, hkept.notes, hrank,
      hretired, fun hsealed => hkept.forward hsealed⟩
  · cases hin : ruleSetVersionFor (run x s acts).versions t' with
    | none =>
      obtain ⟨w, hw, -⟩ := hstarted'
      rw [versionFor_eq_none.mp hin] at hw
      cases hw
    | some id =>
      obtain ⟨v, hv, hstate⟩ := state_inForce hin
      refine ⟨_, ⟨mem_staffVersions.mpr ⟨id, v, hv, rfl⟩, hstate⟩, ?_⟩
      rintro w ⟨hw, hwstate⟩
      obtain ⟨id', v', hv', rfl⟩ := mem_staffVersions.mp hw
      have hid := inForce_of_state hwstate
      rw [hin] at hid
      cases hid
      rw [hv] at hv'
      cases hv'
      rfl
  · intro v hv w hw hvdraft hwdraft
    obtain ⟨i, row, hrow, rfl⟩ := mem_staffVersions.mp hv
    obtain ⟨j, row', hrow', rfl⟩ := mem_staffVersions.mp hw
    obtain rfl := hs'.oneDraft i j row row' hrow hrow' (draft_of_state hvdraft)
      (draft_of_state hwdraft)
    rw [hrow] at hrow'
    cases hrow'
    rfl

theorem migrated_started : Started migrated.versions 10 :=
  ⟨⟨"five", 0, 5⟩, mem_dated.mpr ⟨fifth, rfl, rfl, rfl⟩, by decide⟩

theorem versions_forward_migrated :
    (∃ v' ∈ staffVersions (run bareExternals migrated deskDay).versions 11,
      v'.ruleSetVersionID = "five" ∧ v'.version = 5 ∧ State.superseded.rank ≤ v'.state.rank ∧
        v'.state ≠ .retired ∧ v'.effectiveFrom = some 0 ∧ v'.ruleCount = 1) ∧
    (∃! v, v ∈ staffVersions (run bareExternals migrated deskDay).versions 11 ∧
      v.state = .inForce) ∧
    ∀ v ∈ staffVersions (run bareExternals migrated deskDay).versions 11,
      ∀ w ∈ staffVersions (run bareExternals migrated deskDay).versions 11,
        v.state = .draft → w.state = .draft → v = w := by
  obtain ⟨hlist, hforce, hdraft⟩ := versions_forward (x := bareExternals) migrated_sound
    migrated_started (show Forward 10 deskDay 11 by decide)
  have hstate : (staffVersion migrated.versions 10 ("five", fifth)).state = .superseded := by
    decide +kernel
  obtain ⟨v', hv', hid, hversion, -, hrank, hretired, hkept⟩ :=
    hlist _ (mem_staffVersions.mpr ⟨"five", fifth, rfl, rfl⟩)
  rw [hstate] at hrank hretired hkept
  obtain ⟨hstart, hcount⟩ := hkept nofun
  have hlast : v'.state ≠ .retired := by
    intro h
    have hno := hretired.mpr h
    cases hno
  exact ⟨⟨v', hv', hid, hversion, hrank, hlast, hstart, hcount⟩, hforce, hdraft⟩

/-! ### The past -/

theorem Superseded.later {vs : Versions} {v : Dated} (h : Superseded vs t v) (ht : t ≤ t') :
    Superseded vs t' v := by
  obtain ⟨hstart, w, hw, hle, hbeats⟩ := h
  exact ⟨hstart.trans ht, w, hw, hle.trans ht, hbeats⟩

theorem run_frozen (hs : Sound s.versions) (hclock : Forward t acts t') {id : String}
    {v : Version} {start : ℤ} (hv : s.versions.get? id = some v)
    (hstanding : v.standing = .sealed (some start))
    (hsuper : Superseded s.versions t ⟨id, start, v.number⟩) :
    (run x s acts).versions.get? id = some v := by
  induction acts generalizing s t with
  | nil => exact hv
  | cons a acts ih =>
    have hnow := hsuper.later hclock.1
    have hmove := step_move x s a
    obtain ⟨v', hv', -, hsame⟩ := hmove.kept hv
    have hsealed : v.standing ≠ .draft := by
      rw [hstanding]
      nofun
    obtain rfl := hsame hsealed (hnow.notInForce hs hv hstanding)
    have hnext : Superseded (run x s [a]).versions a.env.today ⟨id, start, v'.number⟩ :=
      hnow.run (le_refl _)
    exact ih (hmove.sound hs) hclock.2 hv' hnext

theorem superseded_of_past {vs : Versions} (hs : Sound vs)
    (hearly : ∃ v ∈ dated vs, v.effectiveFrom < t) {d : ℤ} (hd : d < t) {id : String}
    (hin : ruleSetVersionFor vs d = some id) (hout : ruleSetVersionFor vs t ≠ some id) :
    ∃ v start, vs.get? id = some v ∧ v.standing = .sealed (some start) ∧
      Superseded vs t ⟨id, start, v.number⟩ := by
  obtain ⟨u, hu, rfl, hleast⟩ := exists_of_versionFor hin
  obtain ⟨v₀, hv₀, hbefore⟩ := hearly
  obtain ⟨v, hv, hstanding, hnumber⟩ := mem_dated.mp hu
  have hle : u.effectiveFrom ≤ t := by
    have hfirst := forOrder_iff.mp (hleast v₀ hv₀)
    split at hfirst
    · omega
    · omega
  refine ⟨v, u.effectiveFrom, hv, hstanding, hle, ?_⟩
  have hbeaten : ∃ w ∈ dated vs, w.effectiveFrom ≤ t ∧ Beats w u := by
    by_contra hno
    push Not at hno
    exact hout ((versionFor_started hs hu hle).mpr hno)
  rwa [hnumber]

theorem loadRuleSetByID_congr {vs vs' : Versions} {id : String} (h : vs'.get? id = vs.get? id)
    (lists : String → Option (List String)) :
    loadRuleSetByID lists x vs' id = loadRuleSetByID lists x vs id := by
  unfold loadRuleSetByID
  rw [h]

theorem idForDate_eq_ok {vs : Versions} {d : ℤ} {id : String} (h : idForDate vs d = .ok id) :
    ruleSetVersionFor vs d = some id := by
  unfold idForDate at h
  split at h
  · cases h
  · cases h
    assumption

theorem loadForDates_congr {vs vs' : Versions} {dates : List ℤ}
    (h : ∀ d ∈ dates, ruleSetVersionFor vs' d = ruleSetVersionFor vs d ∧
      ∀ id, ruleSetVersionFor vs d = some id → vs'.get? id = vs.get? id)
    (lists : String → Option (List String)) :
    loadForDates lists x vs' dates = loadForDates lists x vs dates := by
  have hids : dates.mapM (idForDate vs') = dates.mapM (idForDate vs) := by
    refine mapM_congr fun d hd => ?_
    unfold idForDate
    rw [(h d hd).1]
  have hload : ∀ ids, dates.mapM (idForDate vs) = .ok ids →
      ids.mapM (loadRuleSetByID lists x vs') = ids.mapM (loadRuleSetByID lists x vs) := by
    intro ids hok
    refine mapM_congr fun id hid => ?_
    obtain ⟨d, hd, heq⟩ := exists_of_mapM hok hid
    exact loadRuleSetByID_congr ((h d hd).2 id (idForDate_eq_ok heq)) lists
  unfold loadForDates
  rw [hids]
  cases hok : dates.mapM (idForDate vs) with
  | error err => rfl
  | ok ids => exact hload ids hok

/-- Once a version has started before today, nothing staff do from today on changes which version
judges an invoice dated before today; and where that version is not today's, what it judges it by
is loaded as it was, its switches with it. -/
theorem past_fixed (hs : Sound s.versions) (hearly : ∃ v ∈ dated s.versions, v.effectiveFrom < t)
    (hclock : Forward t acts t') :
    (∀ d < t, ruleSetVersionFor (run x s acts).versions d = ruleSetVersionFor s.versions d) ∧
    ∀ lists dates,
      (∀ d ∈ dates, d < t ∧ ruleSetVersionFor s.versions d ≠ ruleSetVersionFor s.versions t) →
      loadForDates lists x (run x s acts).versions dates =
        loadForDates lists x s.versions dates := by
  have hs' : Sound (run x s acts).versions := run_sound x acts hs
  have hsame : ∀ d < t,
      ruleSetVersionFor (run x s acts).versions d = ruleSetVersionFor s.versions d :=
    fun d hd => versionFor_past hs' (run_dated x s acts) (fun w hw => run_dated_later hclock hw)
      hearly hd
  refine ⟨hsame, fun lists dates hdates => loadForDates_congr (fun d hd => ?_) lists⟩
  obtain ⟨hlt, hother⟩ := hdates d hd
  refine ⟨hsame d hlt, fun id hid => ?_⟩
  have hout : ruleSetVersionFor s.versions t ≠ some id := by
    rw [← hid]
    exact Ne.symm hother
  obtain ⟨v, start, hv, hstanding, hsuper⟩ := superseded_of_past hs hearly hlt hid hout
  rw [hv]
  exact run_frozen hs hclock hv hstanding hsuper

theorem fifth_rules : rulesByKey bareExternals fifth = [currencyRule.rule "currency-required"] := by
  unfold rulesByKey
  exact List.mergeSort_singleton _

theorem fifth_loads (lists : String → Option (List String)) :
    loadForDates lists bareExternals migrated.versions [3] =
      .ok [⟨"five", 5, [currencyRule.rule "currency-required"]⟩] := by
  have hid : idForDate migrated.versions 3 = .ok "five" := by decide +kernel
  have hids : [3].mapM (idForDate migrated.versions) = .ok ["five"] :=
    mapM_eq_ok.mpr (.cons hid .nil)
  have hrow : migrated.versions.get? "five" = some fifth := rfl
  have hload : loadRuleSetByID lists bareExternals migrated.versions "five" =
      .ok ⟨"five", 5, [currencyRule.rule "currency-required"]⟩ := by
    unfold loadRuleSetByID
    rw [hrow]
    dsimp only
    rw [fifth_rules]
    rfl
  unfold loadForDates
  rw [hids]
  exact mapM_eq_ok.mpr (.cons hload .nil)

theorem past_fixed_migrated :
    ruleSetVersionFor (run bareExternals migrated deskDay).versions 9 = some "six" ∧
    ∀ lists, loadForDates lists bareExternals (run bareExternals migrated deskDay).versions [3] =
      .ok [⟨"five", 5, [currencyRule.rule "currency-required"]⟩] := by
  obtain ⟨hsame, hloads⟩ := past_fixed (x := bareExternals) migrated_sound
    ⟨⟨"five", 0, 5⟩, mem_dated.mpr ⟨fifth, rfl, rfl, rfl⟩, by decide⟩
    (show Forward 10 deskDay 11 by decide)
  refine ⟨(hsame 9 (by decide)).trans (by decide +kernel), fun lists => ?_⟩
  rw [hloads lists [3] (by decide +kernel), fifth_loads]

end InvoiceOs.RuleDesk
