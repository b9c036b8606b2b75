import InvoiceOs.Lib.Each
import InvoiceOs.RuleDesk.Calls
import InvoiceOs.Validation.CollectAll

/-! What a call can do to the versions, and what every call keeps true of them. -/

namespace InvoiceOs.RuleDesk

open Lib Validation

structure Sound (vs : Versions) : Prop where
  numbers : ∀ i j v w, vs.get? i = some v → vs.get? j = some w → v.number = w.number → i = j
  oneDraft : ∀ i j v w, vs.get? i = some v → vs.get? j = some w →
    v.standing = .draft → w.standing = .draft → i = j

/-! ### Reading the tables -/

theorem modify_of_get? {κ ρ : Type*} [DecidableEq κ] {t : Table κ ρ} {k : κ} {r : ρ}
    (h : t.get? k = some r) (f : ρ → ρ) : t.modify k f = t.set k (f r) := by
  unfold Table.modify
  rw [h]

theorem isDraft_iff {v : Version} : v.isDraft = true ↔ v.standing = .draft := by
  unfold Version.isDraft
  rw [decide_eq_true_eq]

theorem draftOf_eq_some {vs : Versions} {id : String} {v : Version}
    (h : draftOf vs = some (id, v)) : vs.get? id = some v ∧ v.standing = .draft := by
  have hmem := Table.mem_rows.mp (List.mem_of_find?_eq_some h)
  have hdraft := List.find?_some (p := fun e : String × Version => e.2.isDraft) h
  exact ⟨hmem, isDraft_iff.mp hdraft⟩

theorem draftOf_eq_none {vs : Versions} (h : draftOf vs = none) {id : String} {v : Version}
    (hv : vs.get? id = some v) : v.standing ≠ .draft := by
  intro hdraft
  have hno := List.find?_eq_none.mp h (id, v) (Table.mem_rows.mpr hv)
  exact hno (isDraft_iff.mpr hdraft)

theorem versionFor_eq_some {vs : Versions} {d : ℤ} {id : String} {v : Version} :
    versionFor vs d = some (id, v) ↔ ruleSetVersionFor vs d = some id ∧ vs.get? id = some v := by
  unfold versionFor
  rw [Option.bind_eq_some_iff]
  constructor
  · rintro ⟨i, hi, hmap⟩
    obtain ⟨w, hw, heq⟩ := Option.map_eq_some_iff.mp hmap
    cases heq
    exact ⟨hi, hw⟩
  · rintro ⟨hid, hv⟩
    refine ⟨id, hid, ?_⟩
    rw [hv]
    rfl

theorem number_le_max {vs : Versions} {id : String} {v : Version} (h : vs.get? id = some v) :
    v.number ≤ maxNumber vs := by
  have hmem : v.number ∈ vs.rows.map fun e => e.2.number :=
    List.mem_map.mpr ⟨(id, v), Table.mem_rows.mpr h, rfl⟩
  unfold maxNumber
  cases hmax : (vs.rows.map fun e => e.2.number).max? with
  | none =>
    rw [List.max?_eq_none_iff.mp hmax] at hmem
    cases hmem
  | some m => exact (List.max?_eq_some_iff.mp hmax).2 _ hmem

/-! ### One call -/

inductive Move (x : Externals) (e : Env) (actor : String) (s : Desk) : Desk → Prop where
  | unchanged : Move x e actor s s
  | opened (src : String) (v : Version) (hsrc : versionFor s.versions e.today = some (src, v))
      (hno : draftOf s.versions = none) (hnew : s.versions.get? e.newID = none) :
      Move x e actor s (s.record
        (s.versions.set e.newID (opened (maxNumber s.versions + 1) v))
        ⟨actor, .draftOpened (maxNumber s.versions + 1) v.number, e.newID⟩)
  | added (id : String) (v : Version) (key : String) (rule : Validated)
      (hdraft : draftOf s.versions = some (id, v)) (hnew : v.rules.get? key = none) :
      Move x e actor s (s.record (s.versions.set id (v.setRule key (rule.row "document")))
        ⟨actor, .ruleAdded v.number key rule, id⟩)
  | edited (id : String) (v : Version) (key : String) (rule : Validated) (old : RuleRow)
      (hdraft : draftOf s.versions = some (id, v)) (hold : v.rules.get? key = some old) :
      Move x e actor s (s.record (s.versions.set id (v.setRule key (rule.row old.scope)))
        ⟨actor, .ruleChanged v.number key rule, id⟩)
  | removed (id : String) (v : Version) (key : String)
      (hdraft : draftOf s.versions = some (id, v)) :
      Move x e actor s (s.record (s.versions.set id (v.removeRule key))
        ⟨actor, .ruleRemoved v.number key, id⟩)
  | published (id : String) (v : Version) (start : ℤ) (rs : RuleSet)
      (hdraft : draftOf s.versions = some (id, v)) (hstart : e.today ≤ start)
      (hrules : v.rules.rows ≠ [])
      (hload : loadRuleSetByID e.lists x s.versions id = .ok rs)
      (hprobe : ∀ r ∈ rs.rules, probeRule x e rs r = .ok ()) :
      Move x e actor s (s.record (s.versions.set id (v.seal start))
        ⟨actor, .published v.number start v.rules.rows.length, id⟩)
  | switched (id : String) (v : Version) (key : String) (enabled : Bool) (reason : String)
      (hforce : versionFor s.versions e.today = some (id, v)) :
      Move x e actor s (s.record (s.versions.set id (v.switch key enabled))
        ⟨actor, .ruleSwitched key enabled v.number reason, id⟩)

section
variable {x : Externals} {e : Env} {actor : String} {s s' : Desk}

theorem openDraft_ok (h : openDraft e actor s = .ok s') : Move x e actor s s' := by
  unfold openDraft at h
  split at h
  · cases h
  · split at h
    · cases h
    · rename_i src v hsrc
      split at h
      · cases h
      · rename_i hdraft
        split at h
        · cases h
        · rename_i hnew
          cases h
          exact .opened src v hsrc (Option.not_isSome_iff_eq_none.mp hdraft)
            (Option.not_isSome_iff_eq_none.mp hnew)

theorem addDraftRule_ok {key : String} {req : DraftRuleRequest}
    (h : addDraftRule x e actor s key req = .ok s') : Move x e actor s s' := by
  unfold addDraftRule at h
  obtain ⟨rule, -, h⟩ := bind_eq_ok.mp h
  split at h
  · cases h
  · split at h
    · cases h
    · rename_i id v hdraft
      split at h
      · cases h
      · rename_i hkey
        cases h
        rw [modify_of_get? (draftOf_eq_some hdraft).1]
        exact .added id v key rule hdraft (Option.not_isSome_iff_eq_none.mp hkey)

theorem editDraftRule_ok {key : String} {req : DraftRuleRequest}
    (h : editDraftRule x e actor s key req = .ok s') : Move x e actor s s' := by
  unfold editDraftRule at h
  obtain ⟨rule, -, h⟩ := bind_eq_ok.mp h
  split at h
  · cases h
  · split at h
    · cases h
    · rename_i id v hdraft
      split at h
      · cases h
      · rename_i old hold
        split at h
        · cases h
          exact .unchanged
        · cases h
          rw [modify_of_get? (draftOf_eq_some hdraft).1]
          exact .edited id v key rule old hdraft hold

theorem removeDraftRule_ok {key : String} (h : removeDraftRule e actor s key = .ok s') :
    Move x e actor s s' := by
  unfold removeDraftRule at h
  split at h
  · cases h
  · split at h
    · cases h
    · rename_i id v hdraft
      split at h
      · cases h
        rw [modify_of_get? (draftOf_eq_some hdraft).1]
        exact .removed id v key hdraft
      · cases h

theorem loadDraft_ok {id : String} {rs : RuleSet} (h : loadDraft x e s id = .ok rs) :
    loadRuleSetByID e.lists x s.versions id = .ok rs := by
  unfold loadDraft at h
  cases hload : loadRuleSetByID e.lists x s.versions id with
  | ok loaded =>
    rw [hload] at h
    cases h
    rfl
  | error err =>
    rw [hload] at h
    cases err with
    | noActiveRuleSet => cases h
    | emptyRuleSet version id => cases h
    | codeListMissing list => cases h

theorem publishDraft_eq {start : ℤ} (h : publishDraft x e actor s start = .ok s') {id : String}
    {v : Version} (hdraft : draftOf s.versions = some (id, v)) :
    ∃ rs, e.today ≤ start ∧ v.rules.rows ≠ [] ∧
      loadRuleSetByID e.lists x s.versions id = .ok rs ∧
      (∀ r ∈ rs.rules, probeRule x e rs r = .ok ()) ∧
      s.record (s.versions.set id (v.seal start))
        ⟨actor, .published v.number start v.rules.rows.length, id⟩ = s' := by
  unfold publishDraft at h
  rw [hdraft] at h
  obtain ⟨rs, hload, h⟩ := bind_eq_ok.mp h
  obtain ⟨⟨⟩, hprobe, h⟩ := bind_eq_ok.mp h
  split at h
  · cases h
  · split at h
    · cases h
    · rename_i hstart
      split at h
      · cases h
      · rename_i hrules
        cases h
        refine ⟨rs, not_lt.mp hstart, hrules, loadDraft_ok hload, forM_ok hprobe, ?_⟩
        rw [modify_of_get? (draftOf_eq_some hdraft).1]

theorem publishDraft_of {start : ℤ} {id : String} {v : Version} {rs : RuleSet}
    (hdraft : draftOf s.versions = some (id, v))
    (hload : loadRuleSetByID e.lists x s.versions id = .ok rs)
    (hprobe : ∀ r ∈ rs.rules, probeRule x e rs r = .ok ()) (hmember : e.isHouseMember actor = true)
    (hstart : e.today ≤ start) (hrules : v.rules.rows ≠ []) :
    publishDraft x e actor s start = .ok (s.record (s.versions.modify id fun v => v.seal start)
      ⟨actor, .published v.number start v.rules.rows.length, id⟩) := by
  have hloaded : loadDraft x e s id = .ok rs := by
    unfold loadDraft
    rw [hload]
  unfold publishDraft
  rw [hdraft]
  refine bind_eq_ok.mpr ⟨rs, hloaded, bind_eq_ok.mpr ⟨(), ok_of_forM hprobe, ?_⟩⟩
  rw [if_neg (by rw [hmember]; decide), if_neg (not_lt.mpr hstart), if_neg hrules]

theorem publishDraft_ok {start : ℤ} (h : publishDraft x e actor s start = .ok s') :
    Move x e actor s s' := by
  cases hdraft : draftOf s.versions with
  | none =>
    unfold publishDraft at h
    rw [hdraft] at h
    cases h
  | some found =>
    obtain ⟨id, v⟩ := found
    obtain ⟨rs, hstart, hrules, hload, hprobe, rfl⟩ := publishDraft_eq h hdraft
    exact .published id v start rs hdraft hstart hrules hload hprobe

theorem switchRule_ok {key reason : String} {enabled : Bool}
    (h : switchRule e actor s key enabled reason = .ok s') : Move x e actor s s' := by
  unfold switchRule at h
  split at h
  · cases h
  · split at h
    · cases h
    · rename_i id v hforce
      split at h
      · cases h
      · split at h
        · cases h
        · cases h
          rw [modify_of_get? (versionFor_eq_some.mp hforce).2]
          exact .switched id v key enabled reason hforce

theorem serve_ok {a : Act} (h : serve x s a = .ok s') : Move x a.env a.actor s s' := by
  unfold serve at h
  split at h
  · exact openDraft_ok h
  · exact addDraftRule_ok h
  · exact editDraftRule_ok h
  · exact removeDraftRule_ok h
  · exact publishDraft_ok h
  · exact switchRule_ok h

theorem step_move (x : Externals) (s : Desk) (a : Act) : Move x a.env a.actor s (step x s a) := by
  unfold step
  cases h : serve x s a with
  | ok s' => exact serve_ok h
  | error err => exact .unchanged

end

/-! ### What every call keeps -/

theorem Sound.set {vs : Versions} (h : Sound vs) {id : String} {v v' : Version}
    (hv : vs.get? id = some v) (hnumber : v'.number = v.number)
    (hdraft : v'.standing = .draft → v.standing = .draft) : Sound (vs.set id v') := by
  -- every row of the new table is a row of the old one with this number, and no draft of its own
  have hback : ∀ i w, (vs.set id v').get? i = some w →
      ∃ w₀, vs.get? i = some w₀ ∧ w.number = w₀.number ∧
        (w.standing = .draft → w₀.standing = .draft) := by
    intro i w hw
    rw [Table.get?_set] at hw
    split at hw
    · rename_i hi
      cases hw
      exact ⟨v, hi ▸ hv, hnumber, hdraft⟩
    · exact ⟨w, hw, rfl, fun hd => hd⟩
  constructor
  · intro i j w w' hw hw' heq
    obtain ⟨w₀, hw₀, hn, -⟩ := hback i w hw
    obtain ⟨w₁, hw₁, hn', -⟩ := hback j w' hw'
    exact h.numbers i j w₀ w₁ hw₀ hw₁ (by rw [← hn, ← hn', heq])
  · intro i j w w' hw hw' hd hd'
    obtain ⟨w₀, hw₀, -, hdr⟩ := hback i w hw
    obtain ⟨w₁, hw₁, -, hdr'⟩ := hback j w' hw'
    exact h.oneDraft i j w₀ w₁ hw₀ hw₁ (hdr hd) (hdr' hd')

theorem Sound.opened {vs : Versions} (h : Sound vs) {newID : String} (v : Version)
    (hno : draftOf vs = none) :
    Sound (vs.set newID (opened (maxNumber vs + 1) v)) := by
  have hlow : ∀ i w, vs.get? i = some w → w.number < maxNumber vs + 1 := by
    intro i w hw
    have hle := number_le_max hw
    omega
  have hnumber : (RuleDesk.opened (maxNumber vs + 1) v).number = maxNumber vs + 1 := rfl
  constructor
  · intro i j w w' hw hw' heq
    rw [Table.get?_set] at hw hw'
    split at hw
    · split at hw'
      · rename_i hi hj
        rw [hi, hj]
      · cases hw
        have hlt := hlow j w' hw'
        omega
    · split at hw'
      · cases hw'
        have hlt := hlow i w hw
        omega
      · exact h.numbers i j w w' hw hw' heq
  · intro i j w w' hw hw' hd hd'
    rw [Table.get?_set] at hw hw'
    split at hw
    · split at hw'
      · rename_i hi hj
        rw [hi, hj]
      · exact absurd hd' (draftOf_eq_none hno hw')
    · exact absurd hd (draftOf_eq_none hno hw)

theorem Move.sound {x : Externals} {e : Env} {actor : String} {s s' : Desk}
    (h : Move x e actor s s') (hs : Sound s.versions) : Sound s'.versions := by
  cases h with
  | unchanged => exact hs
  | opened src v hsrc hno hnew => exact hs.opened v hno
  | added id v key rule hdraft hnew => exact hs.set (draftOf_eq_some hdraft).1 rfl fun h => h
  | edited id v key rule old hdraft hold => exact hs.set (draftOf_eq_some hdraft).1 rfl fun h => h
  | removed id v key hdraft => exact hs.set (draftOf_eq_some hdraft).1 rfl fun h => h
  | published id v start rs hdraft hstart hrules hload hprobe =>
    refine hs.set (draftOf_eq_some hdraft).1 rfl fun h => ?_
    cases h
  | switched id v key enabled reason hforce =>
    exact hs.set (versionFor_eq_some.mp hforce).2 rfl fun h => h

theorem run_sound (x : Externals) {s : Desk} (acts : List Act) (hs : Sound s.versions) :
    Sound (run x s acts).versions := by
  induction acts generalizing s with
  | nil => exact hs
  | cons a acts ih => exact ih ((step_move x s a).sound hs)

/-! ### A desk -/

def currencyRule : RuleRow where
  type := .required
  target := "currency"
  params := .obj []
  severity := .error
  guard := none
  message := "Give the currency."
  scope := "document"
  enabled := true

def listedRule : RuleRow where
  type := .enum
  target := "currency"
  params := .obj [("list", .str "currencies")]
  severity := .error
  guard := none
  message := "Give a currency of the list."
  scope := "document"
  enabled := false

def fifth : Version where
  number := 5
  standing := .sealed (some 0)
  rules := Table.set ∅ "currency-required" currencyRule
  notes := ""

def sixth : Version where
  number := 6
  standing := .sealed (some 5)
  rules := Table.set (Table.set ∅ "currency-required" currencyRule) "currency-listed" listedRule
  notes := ""

def migrated : Desk where
  versions := Table.set (Table.set ∅ "five" fifth) "six" sixth
  journal := []

theorem migrated_get? {id : String} {v : Version} (h : migrated.versions.get? id = some v) :
    id = "six" ∧ v = sixth ∨ id = "five" ∧ v = fifth := by
  have hrow : (Table.set (Table.set (∅ : Versions) "five" fifth) "six" sixth).get? id = some v := h
  rw [Table.get?_set, Table.get?_set, Table.get?_empty] at hrow
  split at hrow
  · rename_i hid
    cases hrow
    exact .inl ⟨hid, rfl⟩
  · split at hrow
    · rename_i hid
      cases hrow
      exact .inr ⟨hid, rfl⟩
    · cases hrow

theorem migrated_sound : Sound migrated.versions := by
  constructor
  · intro i j v w hv hw heq
    obtain ⟨rfl, rfl⟩ | ⟨rfl, rfl⟩ := migrated_get? hv
    · obtain ⟨rfl, rfl⟩ | ⟨rfl, rfl⟩ := migrated_get? hw
      · rfl
      · cases heq
    · obtain ⟨rfl, rfl⟩ | ⟨rfl, rfl⟩ := migrated_get? hw
      · cases heq
      · rfl
  · intro i j v w hv hw hd _
    obtain ⟨-, rfl⟩ | ⟨-, rfl⟩ := migrated_get? hv
    · cases hd
    · cases hd

def bareExternals : Externals where
  keyLe a b := a ≤ b
  unmarshal _ := none
  compileCEL _ := false
  backend := bareBackend

def currencies (list : String) : Option (List String) :=
  if list = "currencies" then some ["NGN"] else none

def adaAt (today : ℤ) (call : Call) : Act where
  env := { today, isHouseMember := fun member => member = "ada", lists := currencies,
           newID := "seven" }
  actor := "ada"
  call

def deskDay : List Act :=
  [adaAt 10 .openDraft, adaAt 10 (.publishDraft 11),
    adaAt 11 (.switchRule "currency-listed" true "The list is agreed.")]

end InvoiceOs.RuleDesk
