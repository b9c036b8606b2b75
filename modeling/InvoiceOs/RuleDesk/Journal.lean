import InvoiceOs.Lib.Journal
import InvoiceOs.RuleDesk.Moves

/-! The staff journal tells the whole of what became of the rules: read from the versions it began
with, row by row, it gives every version and every rule there is. -/

namespace InvoiceOs.RuleDesk

open Lib Validation

def replayRow (vs : Versions) (row : StaffRow) : Versions :=
  match row.event with
  | .draftOpened version fromVersion =>
    match vs.rows.find? fun e => e.2.number = fromVersion with
    | some (_, src) => vs.set row.ruleSetVersionID (opened version src)
    | none => vs
  | .ruleAdded _ key rule =>
    vs.modify row.ruleSetVersionID fun v => v.setRule key (rule.row "document")
  | .ruleChanged _ key rule =>
    vs.modify row.ruleSetVersionID fun v =>
      match v.rules.get? key with
      | some old => v.setRule key (rule.row old.scope)
      | none => v
  | .ruleRemoved _ key => vs.modify row.ruleSetVersionID fun v => v.removeRule key
  | .published _ effectiveFrom _ => vs.modify row.ruleSetVersionID fun v => v.seal effectiveFrom
  | .ruleSwitched key enabled _ _ =>
    vs.modify row.ruleSetVersionID fun v => v.switch key enabled

abbrev Retold (may : String → Prop) : Desk → Desk → Prop :=
  Told Desk.versions Desk.journal replayRow fun row => may row.actor

variable {x : Externals} {e : Env} {actor : String} {s s' : Desk} {acts : List Act}

theorem find_number {vs : Versions} (hs : Sound vs) {id : String} {v : Version}
    (hv : vs.get? id = some v) :
    vs.rows.find? (fun e => e.2.number = v.number) = some (id, v) := by
  cases hfind : vs.rows.find? (fun e => e.2.number = v.number) with
  | none =>
    have hno := List.find?_eq_none.mp hfind (id, v) (Table.mem_rows.mpr hv)
    exact absurd (decide_eq_true rfl) hno
  | some found =>
    obtain ⟨j, w⟩ := found
    have hw := Table.mem_rows.mp (List.mem_of_find?_eq_some hfind)
    have hnumber := List.find?_some (p := fun e : String × Version => e.2.number = v.number) hfind
    obtain rfl := hs.numbers j id w v hw hv (of_decide_eq_true hnumber)
    rw [hv] at hw
    cases hw
    rfl

theorem Move.told {may : String → Prop} (h : Move x e actor s s') (hs : Sound s.versions)
    (hactor : may actor) : Retold may s s' := by
  cases h with
  | unchanged => exact Told.refl s
  | opened src v hsrc hno hnew =>
    refine Told.row hactor rfl ?_
    have hfind := find_number hs (versionFor_eq_some.mp hsrc).2
    unfold replayRow
    dsimp only
    rw [hfind]
    rfl
  | added id v key rule hdraft hnew =>
    exact Told.row hactor rfl (modify_of_get? (draftOf_eq_some hdraft).1 _)
  | edited id v key rule old hdraft hold =>
    refine Told.row hactor rfl ?_
    unfold replayRow
    dsimp only
    rw [modify_of_get? (draftOf_eq_some hdraft).1, hold]
    rfl
  | removed id v key hdraft =>
    exact Told.row hactor rfl (modify_of_get? (draftOf_eq_some hdraft).1 _)
  | published id v start rs hdraft hstart hrules hload hprobe =>
    exact Told.row hactor rfl (modify_of_get? (draftOf_eq_some hdraft).1 _)
  | switched id v key enabled reason hforce =>
    exact Told.row hactor rfl (modify_of_get? (versionFor_eq_some.mp hforce).2 _)

/-! ### Who the rows name -/

theorem serve_member {a : Act} (h : serve x s a = .ok s') :
    a.env.isHouseMember a.actor = true := by
  by_contra hno
  have hnot : a.env.isHouseMember a.actor = false := Bool.eq_false_iff.mpr hno
  unfold serve at h
  split at h
  · unfold openDraft at h
    rw [if_pos hnot] at h
    cases h
  · unfold addDraftRule at h
    obtain ⟨rule, -, h⟩ := bind_eq_ok.mp h
    rw [if_pos hnot] at h
    cases h
  · unfold editDraftRule at h
    obtain ⟨rule, -, h⟩ := bind_eq_ok.mp h
    rw [if_pos hnot] at h
    cases h
  · unfold removeDraftRule at h
    rw [if_pos hnot] at h
    cases h
  · unfold publishDraft at h
    split at h
    · cases h
    · obtain ⟨rs, -, h⟩ := bind_eq_ok.mp h
      obtain ⟨⟨⟩, -, h⟩ := bind_eq_ok.mp h
      rw [if_pos hnot] at h
      cases h
  · unfold switchRule at h
    rw [if_pos hnot] at h
    cases h

theorem step_told (may : String → Prop) (a : Act) (hs : Sound s.versions)
    (hactor : a.env.isHouseMember a.actor = true → may a.actor) :
    Retold may s (step x s a) := by
  unfold step
  cases h : serve x s a with
  | error err => exact Told.refl s
  | ok s' => exact (serve_ok h).told hs (hactor (serve_member h))

/-- Whatever is asked of the desk, what its journal has gained, read row by row from the versions
as they were, gives the versions as they are; and each of those rows names a house member who
asked. -/
theorem journal_replays (x : Externals) (acts : List Act) (hs : Sound s.versions) :
    ∃ rows, (run x s acts).journal = s.journal ++ rows ∧
      rows.foldl replayRow s.versions = (run x s acts).versions ∧
      ∀ row ∈ rows, ∃ a ∈ acts, row.actor = a.actor ∧ a.env.isHouseMember a.actor = true :=
  told_foldl (I := fun s => Sound s.versions) (fun s a hs => (step_move x s a).sound hs)
    (fun _ a ha hs => step_told
      (fun actor => ∃ a ∈ acts, actor = a.actor ∧ a.env.isHouseMember a.actor = true) a hs
      fun hmember => ⟨a, ha, rfl, hmember⟩) hs

theorem journal_replays_migrated : ∃ rows,
    (run bareExternals migrated deskDay).journal = rows ∧
      rows.foldl replayRow migrated.versions = (run bareExternals migrated deskDay).versions ∧
      ∀ row ∈ rows, ∃ a ∈ deskDay, row.actor = a.actor ∧ a.env.isHouseMember a.actor = true :=
  journal_replays bareExternals deskDay migrated_sound

end InvoiceOs.RuleDesk
