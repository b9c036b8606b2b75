import InvoiceOs.Tenancy.Signers

/-! Roles that a run waits on keep a signer. The admin calls check so after their own write,
under the tenant lock, which keeps each other's staffing still. The account deletions write
under row locks alone and check nothing, so what they take is the condition of the result. -/

namespace InvoiceOs.Tenancy

open Lib Approval

namespace Workspace

def signed (ws : Workspace) (key : String) : Bool := (ws.staff key).any ws.approves

theorem signed_iff {ws : Workspace} {key : String} :
    ws.signed key = true ↔ ∃ u, ws.signs key u = true := by
  simp only [signed, List.any_eq_true, signs_iff]

def liveKeys (ws : Workspace) : List String := ws.db.directory.liveRoleKeys

theorem mem_liveKeys {ws : Workspace} {key : String} :
    key ∈ ws.liveKeys ↔ ws.hasLiveRole key = true := by
  simp only [liveKeys, hasLiveRole, List.contains_iff_mem]

end Workspace

namespace Call

def named (call : Call) : Option Uuid := call.asked.bind Prod.snd

/-- The call leaves the role a signer whom the deletion beside it does not take, or makes one. -/
def keepsSignerBeside (call deletion : Call) (ws : Workspace) (key : String) : Bool :=
  (call.leavesStaff ws key).any fun u => deletion.member != some u &&
    (call.leavesApprover ws u || deletion.named == some u)

end Call

/-- An account deletion commits only if it leaves every signed role that a run waits on a
signer. -/
def spares (ws : Workspace) (t : Task) (a : Act) : Bool :=
  match t, a with
  | .writing call _ [], .commit => call.asked.isNone ||
    ws.liveKeys.all fun key => !(ws.waits key && ws.signed key) || call.keepsSigner ws key
  | _, _ => true

def sparesBeside (ws : Workspace) (t : Task) (a : Act) (u : Task) : Bool :=
  match t, a, u with
  | .writing deletion _ [], .commit, .writing call _ keys =>
    deletion.asked.isNone || call.asked.isSome ||
      ws.liveKeys.all fun key => keys.contains key || !(ws.waits key && deletion.keepsSigner ws key) ||
        call.keepsSignerBeside deletion ws key
  | _, _, _ => true

def Task.Checked (ws : Workspace) : Task → Prop
  | writing call _ keys => call.asked = none →
      (∀ caller key, call = .deleteRole caller key → keys = []) ∧
      ∀ key, key ∉ keys → ws.waits key = true → ws.signed key = true →
        call.keepsSigner ws key = true
  | _ => True

section
variable {ws ws' : Workspace} {t t' u : Task} {a : Act} {call : Call} {locked : Rows}
  {key : String}

theorem live_of_waits (h : ws.waits key = true) : ws.hasLiveRole key = true :=
  (Workspace.waits_iff.mp h).1

theorem live_of_signed (h : ws.signed key = true) : ws.hasLiveRole key = true := by
  obtain ⟨u, hu⟩ := Workspace.signed_iff.mp h
  exact Workspace.live_of_signs hu

theorem not_mem_staff_of_not_staffed {user : Uuid}
    (h : key ∉ staffedRoleKeysTx ws.db.directory user) : user ∉ ws.staff key := by
  intro hu
  obtain ⟨wr, hwr, hkey, hlive, hmem⟩ := Workspace.mem_staff.mp hu
  refine h (List.mem_map.mpr ⟨wr, List.mem_filter.mpr ⟨hwr, ?_⟩, hkey⟩)
  rw [hlive, List.contains_iff_mem.mpr hmem]
  rfl

theorem roleKeys_rest (hsound : call.Sound) {keys : List String}
    (h : call.roleKeys ws = .ok keys) (hkey : key ∉ keys) (hwaits : ws.waits key = true)
    (hsigned : ws.signed key = true) (hasked : call.asked = none) :
    call.keepsSigner ws key = true := by
  obtain ⟨u, hu⟩ := Workspace.signed_iff.mp hsigned
  obtain ⟨hstaff, happroves⟩ := Workspace.signs_iff.mp hu
  refine Call.keepsSigner_iff.mpr ⟨u, ?_⟩
  cases call with
  | setMembershipStatus caller target status =>
    refine ⟨hstaff, ?_⟩
    obtain rfl | rfl := hsound
    · by_cases hut : u = target
      · obtain ⟨m, hm, -, happrover⟩ := Workspace.approves_iff.mp happroves
        rw [Call.leavesApprover, if_pos hut, hm]
        exact happrover
      · rw [Call.leavesApprover, if_neg hut]
        exact happroves
    · cases h
      have hut : u ≠ target := fun hut => not_mem_staff_of_not_staffed hkey (hut ▸ hstaff)
      rw [Call.leavesApprover, if_neg hut]
      exact happroves
  | removeMember caller target =>
    cases h
    have hut : u ≠ target := fun hut => not_mem_staff_of_not_staffed hkey (hut ▸ hstaff)
    refine ⟨List.mem_filter.mpr ⟨hstaff, bne_iff_ne.mpr hut⟩, ?_⟩
    rw [Call.leavesApprover, bne_iff_ne.mpr hut]
    exact happroves
  | setMemberRole caller target role =>
    refine ⟨hstaff, ?_⟩
    by_cases hut : u = target
    · obtain ⟨m, hm, hactive, -⟩ := Workspace.approves_iff.mp happroves
      rw [Call.leavesApprover, if_pos hut, hm, Option.any_some, hactive]
      cases role with
      | preparer =>
        cases h
        exact absurd (hut ▸ hstaff) (not_mem_staff_of_not_staffed hkey)
      | admin => rfl
      | reviewer => rfl
    · rw [Call.leavesApprover, if_neg hut]
      exact happroves
  | deleteMyAccount caller email want heir => cases hasked
  | staffDeleteAccount actor target want heir => cases hasked
  | setRoleMembers caller key' members =>
    simp only [Call.roleKeys, check_eq_ok, pure_eq_ok] at h
    obtain ⟨-, rfl⟩ := h
    have hne : key' ≠ key := fun hk => hkey (List.mem_singleton.mpr hk.symm)
    refine ⟨?_, happroves⟩
    rw [Call.leavesStaff, if_neg hne]
    exact hstaff
  | deleteRole caller key' =>
    simp only [Call.roleKeys, check_eq_ok, pure_eq_ok, not_or, not_not] at h
    obtain ⟨⟨-, hidle⟩, -, -⟩ := h
    have hne : key' ≠ key := by
      rintro rfl
      have hnone : openRunsOnRoleTx ws.view key' = [] := hidle
      rw [Workspace.waits, hnone] at hwaits
      cases hwaits
    refine ⟨?_, happroves⟩
    rw [Call.leavesStaff, if_neg hne]
    exact hstaff

theorem deleteRole_keys {keys : List String} (h : call.roleKeys ws = .ok keys) :
    ∀ caller key, call = .deleteRole caller key → keys = [] := by
  rintro caller key rfl
  simp only [Call.roleKeys, check_eq_ok, pure_eq_ok] at h
  exact h.2.2.symm

theorem Task.Checked.own (hready : t.Ready ws) (hchecked : t.Checked ws)
    (h : Move ws t a ws' t') : t'.Checked ws' := by
  cases h with
  | judged hjudge =>
    obtain ⟨-, -, hkeys⟩ := judge_write hjudge
    intro hasked
    exact ⟨deleteRole_keys hkeys, fun key hkey hwaits hsigned =>
      roleKeys_rest hready.1 hkeys hkey hwaits hsigned hasked⟩
  | @signed call locked key' keys hsigned =>
    obtain ⟨hsound, hrows, hguard⟩ := hready
    intro hasked
    obtain ⟨hdrop, hrest⟩ := hchecked hasked
    have hcall : ∀ caller key, call ≠ .deleteRole caller key := fun caller key hc =>
      nomatch hdrop caller key hc
    refine ⟨fun caller key hc => absurd hc (hcall caller key), fun key hkey hwaits hs => ?_⟩
    by_cases hk : key = key'
    · subst hk
      refine Call.keepsSigner_of_write hsound hrows.selected selected_selects hguard ?_
      exact Workspace.unsignedWaiting_eq_false hsigned ((Call.write_waits hcall).trans hwaits)
    · exact hrest key (fun hmem => (List.mem_cons.mp hmem).elim hk hkey) hwaits hs
  | begin => trivial
  | decide => trivial
  | cancelRun => trivial
  | lockTenant => trivial
  | select => trivial
  | lockRow => trivial
  | refused => trivial
  | unsigned => trivial
  | commit => trivial
  | abort => trivial

theorem takesTenant_of_asked (h : call.asked = none) : call.takesTenant = true := by
  cases call with
  | deleteMyAccount caller email want heir => cases h
  | staffDeleteAccount actor target want heir => cases h
  | _ => rfl

theorem leavesApprover_congr {v : Uuid} (h : ws'.members.get? v = ws.members.get? v) :
    call.leavesApprover ws' v = call.leavesApprover ws v := by
  have happroves := Call.approves_of_get? h
  cases call with
  | setMembershipStatus caller target status => simp only [Call.leavesApprover, h, happroves]
  | setMemberRole caller target role => simp only [Call.leavesApprover, h, happroves]
  | removeMember caller target => simp only [Call.leavesApprover, happroves]
  | deleteMyAccount caller email want heir => simp only [Call.leavesApprover, happroves]
  | staffDeleteAccount actor target want heir => simp only [Call.leavesApprover, happroves]
  | setRoleMembers caller key' members => exact happroves
  | deleteRole caller key' => exact happroves

theorem checked_congr {call : Call} {keys : List String}
    (hdirectory : ws'.db.directory = ws.db.directory) (hmembers : ws'.members = ws.members)
    (hwaits : ∀ key, ws'.waits key = true → ws.waits key = true)
    (h : (Task.writing call locked keys).Checked ws) :
    (Task.writing call locked keys).Checked ws' := by
  have hget : ∀ v, ws'.members.get? v = ws.members.get? v := fun v => by rw [hmembers]
  have hstaff : ∀ key, ws'.staff key = ws.staff key := fun key => by
    unfold Workspace.staff
    rw [hdirectory]
  have hleaves : ∀ key, call.leavesStaff ws' key = call.leavesStaff ws key := fun key => by
    cases call <;> simp only [Call.leavesStaff, hstaff]
  have hsigned : ∀ key, ws'.signed key = ws.signed key := fun key => by
    unfold Workspace.signed
    rw [hstaff]
    exact congrArg _ (funext fun v => Call.approves_of_get? (hget v))
  have hkeeps : ∀ key, call.keepsSigner ws' key = call.keepsSigner ws key := fun key => by
    unfold Call.keepsSigner
    rw [hleaves]
    exact congrArg _ (funext fun v => leavesApprover_congr (hget v))
  intro hasked
  obtain ⟨hdrop, hrest⟩ := h hasked
  refine ⟨hdrop, fun key hkey hw hs => ?_⟩
  rw [hkeeps]
  exact hrest key hkey (hwaits key hw) ((hsigned key).symm.trans hs)

end

section
variable {ws : Workspace} {rows : Rows} {deletion call : Call} {key : String}

theorem mem_staff_deletion (hasked : deletion.asked ≠ none) {u : Uuid}
    (hne : deletion.member ≠ some u) (hu : u ∈ ws.staff key) :
    u ∈ (deletion.write rows ws).staff key := by
  cases deletion with
  | deleteMyAccount caller email want heir =>
    refine Call.mem_staff_deleteAccount.mpr (List.mem_filter.mpr ⟨hu, bne_iff_ne.mpr ?_⟩)
    exact fun hc => hne (congrArg some hc.symm)
  | staffDeleteAccount actor target want heir =>
    refine Call.mem_staff_deleteAccount.mpr (List.mem_filter.mpr ⟨hu, bne_iff_ne.mpr ?_⟩)
    exact fun hc => hne (congrArg some hc.symm)
  | _ => exact absurd rfl hasked

theorem leavesStaff_deletion (hasked : deletion.asked ≠ none) {u : Uuid}
    (hne : deletion.member ≠ some u) (hu : u ∈ call.leavesStaff ws key) :
    u ∈ call.leavesStaff (deletion.write rows ws) key := by
  have hstaff : u ∈ ws.staff key → u ∈ (deletion.write rows ws).staff key :=
    mem_staff_deletion hasked hne
  have hfilter : ∀ target, u ∈ (ws.staff key).filter (fun v => v != target) →
      u ∈ ((deletion.write rows ws).staff key).filter fun v => v != target := by
    intro target hmem
    obtain ⟨hmem, htarget⟩ := List.mem_filter.mp hmem
    exact List.mem_filter.mpr ⟨hstaff hmem, htarget⟩
  cases call with
  | setMembershipStatus caller target status => exact hstaff hu
  | removeMember caller target => exact hfilter target hu
  | setMemberRole caller target role => exact hstaff hu
  | deleteMyAccount caller email want heir => exact hfilter caller hu
  | staffDeleteAccount actor target want heir => exact hfilter target hu
  | setRoleMembers caller key' members =>
    simp only [Call.leavesStaff] at hu ⊢
    split at hu
    · rename_i h
      rw [if_pos h]
      exact hu
    · rename_i h
      rw [if_neg h]
      exact hstaff hu
  | deleteRole caller key' =>
    simp only [Call.leavesStaff] at hu ⊢
    split at hu
    · cases hu
    · rename_i h
      rw [if_neg h]
      exact hstaff hu

theorem keepsSigner_after (hdeletion : deletion.asked ≠ none) (hsound : deletion.Sound)
    (hrows : ws.Current rows) (hselect : ∀ e ∈ rows, deletion.selects e = true)
    (hguard : deletion.guard rows = .ok .write) (hasked : call.asked = none)
    (hheir : ∀ heir, deletion.decision rows = (.handOn, some heir) → call.member ≠ some heir.1)
    (h : call.keepsSignerBeside deletion ws key = true) :
    call.keepsSigner (deletion.write rows ws) key = true := by
  obtain ⟨u, hu, hleft⟩ := List.any_eq_true.mp h
  rw [Bool.and_eq_true, bne_iff_ne, Bool.or_eq_true, beq_iff_eq] at hleft
  obtain ⟨hne, happrover⟩ := hleft
  refine Call.keepsSigner_iff.mpr ⟨u, leavesStaff_deletion hdeletion hne hu, ?_⟩
  obtain ⟨⟨want, named⟩, hwant⟩ := Option.ne_none_iff_exists'.mp hdeletion
  have hbody : deleteBodyHeir want named = true := by
    cases deletion with
    | deleteMyAccount caller email want' heir =>
      cases hwant
      exact hsound
    | staffDeleteAccount actor target want' heir =>
      cases hwant
      exact hsound
    | _ => cases hwant
  have hnamed := Call.named_iff_heir (u := u) hbody hwant hguard
  have heq : deletion.named = named := by
    rw [Call.named, hwant, Option.bind_some]
  by_cases hpromoted : named = some u
  · obtain ⟨heir, hdecision, rfl⟩ := hnamed.mp hpromoted
    obtain ⟨hmem, hactive, -⟩ := Call.guard_heir hselect hguard hdecision
    rw [Call.leavesApprover_of_ne (hheir heir hdecision) hasked,
      Call.approves_write hsound hrows hselect hguard]
    cases deletion with
    | deleteMyAccount caller email want' heir' =>
      cases hwant
      have hleaver : heir.1 ≠ caller := fun hc => hne (congrArg some hc.symm)
      rw [Call.leavesApprover, hpromoted, beq_self_eq_true, Bool.or_true, Bool.and_true]
      exact bne_iff_ne.mpr hleaver
    | staffDeleteAccount actor target want' heir' =>
      cases hwant
      have hleaver : heir.1 ≠ target := fun hc => hne (congrArg some hc.symm)
      rw [Call.leavesApprover, hpromoted, beq_self_eq_true, Bool.or_true, Bool.and_true]
      exact bne_iff_ne.mpr hleaver
    | _ => cases hwant
  · have hget : (deletion.write rows ws).members.get? u = ws.members.get? u := by
      refine Call.get?_write_of_ne hne fun heir hdecision huh => hpromoted ?_
      exact hnamed.mpr ⟨heir, hdecision, huh.symm⟩
    rw [leavesApprover_congr hget]
    rw [heq] at happrover
    exact happrover.resolve_right hpromoted

end

/-! ### Runs -/

section
variable {ws ws' : Workspace} {t t' u : Task} {a : Act} {call deletion : Call}
  {locked locked' : Rows} {key : String}

theorem spares_iff : spares ws (.writing call locked []) .commit = true ↔
    (call.asked ≠ none → ∀ key, ws.waits key = true → ws.signed key = true →
      call.keepsSigner ws key = true) := by
  simp only [spares, Bool.or_eq_true, Option.isNone_iff_eq_none, List.all_eq_true,
    Workspace.mem_liveKeys, Bool.not_eq_true', Bool.and_eq_false_iff]
  constructor
  · intro h hasked key hwaits hsigned
    obtain hnot | hkeeps := (h.resolve_left hasked) key (live_of_waits hwaits)
    · rw [hwaits, hsigned] at hnot
      exact absurd hnot (by simp)
    · exact hkeeps
  · intro h
    by_cases hasked : call.asked = none
    · exact .inl hasked
    · refine .inr fun key _ => ?_
      cases hwaits : ws.waits key with
      | false => exact .inl (.inl rfl)
      | true =>
        cases hsigned : ws.signed key with
        | false => exact .inl (.inr rfl)
        | true => exact .inr (h hasked key hwaits hsigned)

theorem keepsSignerBeside_of_spares {keys : List String}
    (h : sparesBeside ws (.writing deletion locked []) .commit (.writing call locked' keys) = true)
    (hdeletion : deletion.asked ≠ none) (hasked : call.asked = none) (hkey : key ∉ keys)
    (hwaits : ws.waits key = true) (hkeeps : deletion.keepsSigner ws key = true) :
    call.keepsSignerBeside deletion ws key = true := by
  have hisSome : call.asked.isSome = false := by rw [hasked]; rfl
  have hisNone : deletion.asked.isNone = false := Option.isNone_eq_false_iff.mpr
    (Option.isSome_iff_ne_none.mpr hdeletion)
  simp only [sparesBeside, hisSome, hisNone, Bool.false_or, List.all_eq_true,
    Workspace.mem_liveKeys] at h
  have hrest := h key (live_of_waits hwaits)
  have hcontains : keys.contains key = false := by
    rw [Bool.eq_false_iff, ne_eq, List.contains_iff_mem]
    exact hkey
  rwa [hcontains, hwaits, hkeeps, Bool.false_or, Bool.and_true, Bool.not_true, Bool.false_or] at hrest

theorem Task.Checked.other (hready : t.Ready ws) (h : Move ws t a ws' t') (hu : u.Ready ws)
    (hchecked : u.Checked ws) (hspares : sparesBeside ws t a u = true)
    (hapart : protocol.Apart (t.holds ++ t.needs a) u.holds) : u.Checked ws' := by
  cases u with
  | idle => trivial
  | begun call => trivial
  | inTenant call => trivial
  | locking call todo locked => trivial
  | writing call locked keys =>
    cases h with
    | decide hdecide =>
      refine checked_congr ?_ ?_ (fun _ => Workspace.waits_of_decide hdecide) hchecked
      · rfl
      · rfl
    | cancelRun =>
      refine checked_congr ?_ ?_ (fun _ => Workspace.waits_of_cancelRun) hchecked
      · rfl
      · rfl
    | @commit deletion locked' =>
      intro hasked
      obtain ⟨hdrop, hrest⟩ := hchecked hasked
      obtain ⟨hsound, hrows, hguard⟩ := hready
      by_cases hdeletion : deletion.asked = none
      · have hmine : Lock.tenant ∈ Task.held deletion locked' :=
          mem_held.mpr (.inl ⟨takesTenant_of_asked hdeletion, rfl⟩)
        have htheirs : Lock.tenant ∈ Task.held call locked :=
          mem_held.mpr (.inl ⟨takesTenant_of_asked hasked, rfl⟩)
        exact absurd (hapart _ (List.mem_append_left _ hmine) _ htheirs) (by simp [protocol,
          Lock.conflicts])
      · have hcall : ∀ caller key, deletion ≠ .deleteRole caller key := by
          rintro caller key rfl
          exact hdeletion rfl
        refine ⟨hdrop, fun key hkey hwaits hsigned => ?_⟩
        rw [Call.write_waits hcall] at hwaits
        have hkeeps := Call.keepsSigner_of_write hsound hrows.selected selected_selects hguard
          (Workspace.signed_iff.mp hsigned)
        refine keepsSigner_after hdeletion hsound hrows.selected selected_selects hguard hasked ?_
          (keepsSignerBeside_of_spares hspares hdeletion hasked hkey hwaits hkeeps)
        intro heir hdecision hmember
        obtain ⟨hmem, -, -, -, hshared, -⟩ := Call.guard_heir selected_selects hguard hdecision
        obtain ⟨m, hm⟩ := Call.guard_member hu.2.2 hmember
        have hmine : Lock.row heir.1 deletion.shared ∈ Task.held deletion locked' :=
          mem_held.mpr (.inr ⟨_, (List.mem_filter.mp hmem).1, rfl⟩)
        have htheirs : Lock.row heir.1 call.shared ∈ Task.held call locked :=
          mem_held.mpr (.inr ⟨_, (List.mem_filter.mp (targetRow_mem hm)).1, rfl⟩)
        have hconflict := hapart _ (List.mem_append_left _ hmine) _ htheirs
        simp [protocol, Lock.conflicts, hshared] at hconflict
    | _ => exact hchecked

theorem move_signed (hready : t.Ready ws) (hchecked : t.Checked ws) (hspares : spares ws t a = true)
    (h : Move ws t a ws' t') (hwaits : ws.waits key = true) (hsigned : ws.signed key = true) :
    ws'.signed key = true := by
  cases h with
  | @commit call locked =>
    obtain ⟨hsound, hrows, hguard⟩ := hready
    have hkeeps : call.keepsSigner ws key = true := by
      by_cases hasked : call.asked = none
      · exact (hchecked hasked).2 key List.not_mem_nil hwaits hsigned
      · exact spares_iff.mp hspares hasked key hwaits hsigned
    exact Workspace.signed_iff.mpr ((Call.write_signs hsound hrows.selected selected_selects hguard
      (live_of_waits hwaits)).mpr hkeeps)
  | _ => exact hsigned

end

theorem signer_outline : protocol.Outline (fun ws t a => spares ws t a = true)
    (fun ws t a u => sparesBeside ws t a u = true) (fun _ => True)
    (fun ws t => t.Ready ws ∧ t.Checked ws) (fun _ _ => True) where
  store _ _ _ _ := trivial
  own _ ht _ h := ⟨ht.1.own (next_move h), ht.2.own ht.1 (next_move h)⟩
  other _ ht _ h hu _ hspares hapart :=
    ⟨ht.1.other (next_move h) hu.1 hapart, hu.2.other ht.1 (next_move h) hu.1 hspares hapart⟩
  pair _ _ _ _ _ _ _ _ := ⟨trivial, trivial⟩

theorem spares_of_no_commit {ws : Workspace} {t : Task} {a : Act}
    (hcommit : ∀ call locked, t = .writing call locked [] → a ≠ .commit) :
    spares ws t a = true := by
  unfold spares
  split
  · exact absurd rfl (hcommit _ _ rfl)
  · rfl

/-- After a run whose account deletions took no last signer of a role that a run waits on, a step
leaves every such role live and signed exactly if it is no such deletion either. -/
theorem waiting_roles_stay_signed {ws : Workspace} {steps : List (ℕ × Act)} {n : ℕ} {a : Act}
    {w w' : World Workspace Task}
    (hspares : Along protocol.step (protocol.Meets (fun ws t a => spares ws t a = true)
      fun ws t a u => sparesBeside ws t a u = true) { store := ws } steps)
    (hrun : runFrom protocol.step { store := ws } steps = some w)
    (hstep : protocol.step w (n, a) = some w') :
    (∀ key, w.store.waits key = true → (∃ u, w.store.signs key u = true) →
      w'.store.hasLiveRole key = true ∧ ∃ u, w'.store.signs key u = true) ↔
    spares w.store (protocol.task w n) a = true := by
  have hholds := (Protocol.Holds.start (p := protocol) (R := fun _ _ => True) trivial
    ⟨trivial, trivial⟩ trivial).run signer_outline hspares hrun
  obtain ⟨-, ws', t', hnext, rfl⟩ := Protocol.step_eq_some.mp hstep
  obtain ⟨hready, hchecked⟩ := hholds.each n
  have hmove := next_move hnext
  constructor
  · intro hkept
    by_cases hcommit : ∃ call locked, protocol.task w n = .writing call locked [] ∧ a = .commit
    · obtain ⟨call, locked, htask, rfl⟩ := hcommit
      rw [htask] at hready hmove ⊢
      cases hmove
      obtain ⟨hsound, hrows, hguard⟩ := hready
      refine spares_iff.mpr fun _ key hwaits hsigned => ?_
      exact Call.keepsSigner_of_write hsound hrows.selected selected_selects hguard
        (hkept key hwaits (Workspace.signed_iff.mp hsigned)).2
    · exact spares_of_no_commit fun call locked ht ha => hcommit ⟨call, locked, ht, ha⟩
  · intro hown key hwaits hsigned
    have hsigned' := move_signed hready hchecked hown hmove hwaits
      (Workspace.signed_iff.mpr hsigned)
    exact ⟨live_of_signed hsigned', Workspace.signed_iff.mp hsigned'⟩

def waitingRun : Run where
  invoiceID := 40
  policyVersionID := 20
  contentFingerprint := "fp"
  state := .open
  openedAt := 7
  closedBy := none
  steps := [{ ord := 0, kind := .approval, workflowRoleKey := some "checker", state := .pending }]
  decisions := []

def waitingTeam (signers : List Uuid) : Workspace where
  db := {
    directory := {
      isFirm := false
      members := []
      roles := [⟨10, "checker", "Checker", false, signers⟩] }
    invoices := Table.set ∅ 40 {
      entityID := 5
      status := .validated
      header := { invoiceNumber := "INV-1", total := some (.hundredths 12500) }
      history := [⟨none, .draft, .system, {}⟩, ⟨some .draft, .validated, .system, {}⟩] }
    runs := Table.set ∅ 50 waitingRun }
  members := ((Table.set ∅ 1 { role := .admin, createdAt := 1 }).set 2
    { role := .reviewer, createdAt := 2, email := some "b@c" }).set 3
      { role := .reviewer, createdAt := 3 }

def leaveSteps : List (ℕ × Act) :=
  (0, .begin (.deleteMyAccount 2 "" .leave none)) ::
    [.select, .lockRow, .lockRow, .lockRow, .judge].map fun a => (0, a)

theorem deletion_strands_waiting_run :
    ∃ w w', runFrom protocol.step { store := waitingTeam [2] } leaveSteps = some w ∧
      protocol.step w (0, .commit) = some w' ∧ w.store.waits "checker" = true ∧
      w.store.signs "checker" 2 = true ∧ w'.store.waits "checker" = true ∧
      ¬ ∃ u, w'.store.signs "checker" u = true := by
  have htest : (runFrom protocol.step { store := waitingTeam [2] } leaveSteps).any (fun w =>
      w.store.waits "checker" && w.store.signs "checker" 2 &&
        (protocol.step w (0, .commit)).any fun w' =>
          w'.store.waits "checker" && !w'.store.signed "checker") = true := by
    decide +kernel
  obtain ⟨w, hrun, hw⟩ := (Option.any_eq_true _ _).mp htest
  simp only [Bool.and_eq_true] at hw
  obtain ⟨⟨hwaits, hsigns⟩, hnext⟩ := hw
  obtain ⟨w', hstep, hw'⟩ := (Option.any_eq_true _ _).mp hnext
  simp only [Bool.and_eq_true, Bool.not_eq_true'] at hw'
  refine ⟨w, w', hrun, hstep, hwaits, hsigns, hw'.1, fun hsome => ?_⟩
  rw [Workspace.signed_iff.mpr hsome] at hw'
  cases hw'.2

theorem waiting_roles_stay_signed_sample :
    ∃ w w', runFrom protocol.step { store := waitingTeam [2, 3] } leaveSteps = some w ∧
      protocol.step w (0, .commit) = some w' ∧ w.store.waits "checker" = true ∧
      w'.store.signs "checker" 2 = false ∧ ∃ u, w'.store.signs "checker" u = true := by
  have htest : (runFrom protocol.step { store := waitingTeam [2, 3] } leaveSteps).any (fun w =>
      w.store.waits "checker" && w.store.signs "checker" 2 &&
        spares w.store (protocol.task w 0) .commit &&
        (protocol.step w (0, .commit)).any fun w' => !w'.store.signs "checker" 2) = true := by
    decide +kernel
  obtain ⟨w, hrun, hw⟩ := (Option.any_eq_true _ _).mp htest
  simp only [Bool.and_eq_true] at hw
  obtain ⟨⟨⟨hwaits, hsigns⟩, hspares⟩, hnext⟩ := hw
  obtain ⟨w', hstep, hw'⟩ := (Option.any_eq_true _ _).mp hnext
  have hkept := (waiting_roles_stay_signed (by decide +kernel) hrun hstep).mpr hspares "checker"
    hwaits ⟨2, hsigns⟩
  exact ⟨w, w', hrun, hstep, hwaits, by simpa using hw', hkept.2⟩

end InvoiceOs.Tenancy
