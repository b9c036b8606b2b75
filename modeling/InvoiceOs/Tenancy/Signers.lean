import InvoiceOs.Tenancy.LastAdmin

/-! Who signs a role, what each call leaves of its signers, and which roles open runs wait on. -/

namespace InvoiceOs.Tenancy

open Lib Approval

namespace Workspace

def signs (ws : Workspace) (key : String) (user : Uuid) : Bool :=
  ws.directory.holdsRoleKey key user

def waits (ws : Workspace) (key : String) : Bool := !(openRunsOnRoleTx ws.view key).isEmpty

def approves (ws : Workspace) (user : Uuid) : Bool :=
  (ws.members.get? user).any fun m => m.isActive && isApprover m.role

def staff (ws : Workspace) (key : String) : List Uuid := staffing ws.db.directory key

theorem mem_staff {ws : Workspace} {key : String} {u : Uuid} : u ∈ ws.staff key ↔
    ∃ wr ∈ ws.db.directory.roles, wr.key = key ∧ wr.deleted = false ∧ u ∈ wr.members := by
  simp only [staff, staffing, List.mem_flatMap, List.mem_filter, Bool.and_eq_true, beq_iff_eq,
    Bool.not_eq_true', and_assoc]

theorem hasLiveRole_iff {ws : Workspace} {key : String} : ws.hasLiveRole key = true ↔
    ∃ wr ∈ ws.db.directory.roles, wr.key = key ∧ wr.deleted = false := by
  simp only [hasLiveRole, Directory.liveRoleKeys, List.contains_iff_mem, List.mem_map,
    List.mem_filter, Bool.not_eq_true', and_assoc]
  exact exists_congr fun wr => and_congr_right fun _ => and_comm

theorem approves_iff {ws : Workspace} {u : Uuid} : ws.approves u = true ↔
    ∃ m, ws.members.get? u = some m ∧ m.isActive = true ∧ isApprover m.role = true := by
  simp only [approves, Option.any_eq_true, Bool.and_eq_true]

theorem signs_iff {ws : Workspace} {key : String} {u : Uuid} :
    ws.signs key u = true ↔ u ∈ ws.staff key ∧ ws.approves u = true := by
  have hmember : (ws.directory.members.any fun m => m.userID == u && m.active &&
      isApprover m.role) = true ↔ ws.approves u = true := by
    simp only [directory, List.any_map, List.any_eq_true, Function.comp_apply, Bool.and_eq_true,
      beq_iff_eq, approves_iff, Prod.exists, Table.mem_rows]
    constructor
    · rintro ⟨v, m, hm, ⟨rfl, hactive⟩, happrover⟩
      exact ⟨m, hm, hactive, happrover⟩
    · rintro ⟨m, hm, hactive, happrover⟩
      exact ⟨u, m, hm, ⟨rfl, hactive⟩, happrover⟩
  have hroles : ws.directory.roles = ws.db.directory.roles := rfl
  simp only [signs, Directory.holdsRoleKey, hroles, List.any_eq_true, Bool.and_eq_true, beq_iff_eq,
    Bool.not_eq_true', List.contains_iff_mem, mem_staff]
  constructor
  · rintro ⟨wr, hwr, ⟨⟨hkey, hlive⟩, hu⟩, hm⟩
    exact ⟨⟨wr, hwr, hkey, hlive, hu⟩, hmember.mp (List.any_eq_true.mpr (by simpa using hm))⟩
  · rintro ⟨⟨wr, hwr, hkey, hlive, hu⟩, happroves⟩
    exact ⟨wr, hwr, ⟨⟨hkey, hlive⟩, hu⟩, by simpa using List.any_eq_true.mp (hmember.mpr happroves)⟩

theorem waits_iff {ws : Workspace} {key : String} : ws.waits key = true ↔
    ws.hasLiveRole key = true ∧ ∃ id run, ws.db.runs.get? id = some run ∧ run.state = .open ∧
      (ws.db.invoices.get? run.invoiceID).any (fun r => r.status == .validated) = true ∧
      run.steps.any (fun s => s.pendingApproval && s.workflowRoleKey == some key) = true := by
  have hroles : ws.directory.liveRoleKeys = ws.db.directory.liveRoleKeys := rfl
  unfold waits openRunsOnRoleTx hasLiveRole
  rw [Bool.not_eq_true', Bool.eq_false_iff, ne_eq, List.isEmpty_iff, List.map_eq_nil_iff,
    List.filter_eq_nil_iff]
  simp only [view, hroles, Prod.forall, Table.mem_rows, Bool.and_eq_true, beq_iff_eq, not_forall,
    not_not, exists_prop]
  constructor
  · rintro ⟨id, run, hrun, ⟨⟨hopen, hstatus⟩, hlive⟩, hstep⟩
    exact ⟨hlive, id, run, hrun, hopen, hstatus, hstep⟩
  · rintro ⟨hlive, id, run, hrun, hopen, hstatus, hstep⟩
    exact ⟨id, run, hrun, ⟨⟨hopen, hstatus⟩, hlive⟩, hstep⟩

theorem live_of_signs {ws : Workspace} {key : String} {u : Uuid} (h : ws.signs key u = true) :
    ws.hasLiveRole key = true := by
  obtain ⟨wr, hwr, hkey, hlive, -⟩ := mem_staff.mp (signs_iff.mp h).1
  exact hasLiveRole_iff.mpr ⟨wr, hwr, hkey, hlive⟩

theorem unsignedWaiting_eq_false {ws : Workspace} {key : String}
    (h : unsignedWaiting ws.view key = false) (hwaits : ws.waits key = true) :
    ∃ u, ws.signs key u = true := by
  unfold unsignedWaiting unsignedWaitingInvoicesTx at h
  split at h
  · rename_i hsome
    obtain ⟨u, -, hu⟩ := List.any_eq_true.mp hsome
    exact ⟨u, hu⟩
  · unfold waits at hwaits
    rw [h] at hwaits
    cases hwaits

end Workspace

/-! ### Who is left to sign -/

namespace Call

def leavesStaff (call : Call) (ws : Workspace) (key : String) : List Uuid :=
  match call with
  | setMembershipStatus .. => ws.staff key
  | removeMember _ target => (ws.staff key).filter fun u => u != target
  | setMemberRole .. => ws.staff key
  | deleteMyAccount caller _ _ _ => (ws.staff key).filter fun u => u != caller
  | staffDeleteAccount _ target _ _ => (ws.staff key).filter fun u => u != target
  | setRoleMembers _ key' members => if key' = key then members else ws.staff key
  | deleteRole _ key' => if key' = key then [] else ws.staff key

def leavesApprover (call : Call) (ws : Workspace) (user : Uuid) : Bool :=
  match call with
  | setMembershipStatus _ target status =>
    if user = target then
      (ws.members.get? user).any fun m => status == .active && isApprover m.role
    else ws.approves user
  | removeMember _ target => user != target && ws.approves user
  | setMemberRole _ target role =>
    if user = target then (ws.members.get? user).any fun m => m.isActive && isApprover role
    else ws.approves user
  | deleteMyAccount caller _ _ heir => user != caller && (ws.approves user || heir == some user)
  | staffDeleteAccount _ target _ heir => user != target && (ws.approves user || heir == some user)
  | setRoleMembers .. => ws.approves user
  | deleteRole .. => ws.approves user

def keepsSigner (call : Call) (ws : Workspace) (key : String) : Bool :=
  (call.leavesStaff ws key).any (call.leavesApprover ws)

variable {call : Call} {rows : Rows} {ws : Workspace} {key : String} {u : Uuid}

theorem keepsSigner_iff : call.keepsSigner ws key = true ↔
    ∃ u, u ∈ call.leavesStaff ws key ∧ call.leavesApprover ws u = true := by
  simp only [keepsSigner, List.any_eq_true]

theorem mem_staff_withRoles {f : WorkflowRole → WorkflowRole} : u ∈ (ws.withRoles f).staff key ↔
    ∃ wr ∈ ws.db.directory.roles, (f wr).key = key ∧ (f wr).deleted = false ∧
      u ∈ (f wr).members := by
  rw [Workspace.mem_staff]
  constructor
  · rintro ⟨wr', hwr', h⟩
    obtain ⟨wr, hwr, rfl⟩ := List.mem_map.mp hwr'
    exact ⟨wr, hwr, h⟩
  · rintro ⟨wr, hwr, h⟩
    exact ⟨f wr, List.mem_map_of_mem hwr, h⟩

theorem mem_staff_endMembership {leaver : Uuid} :
    u ∈ (ws.endMembership leaver).staff key ↔ u ∈ (ws.staff key).filter fun v => v != leaver := by
  unfold Workspace.endMembership
  rw [mem_staff_withRoles, List.mem_filter, Workspace.mem_staff]
  constructor
  · rintro ⟨wr, hwr, hkey, hlive, hu⟩
    obtain ⟨hu, hne⟩ := List.mem_filter.mp hu
    exact ⟨⟨wr, hwr, hkey, hlive, hu⟩, hne⟩
  · rintro ⟨⟨wr, hwr, hkey, hlive, hu⟩, hne⟩
    exact ⟨wr, hwr, hkey, hlive, List.mem_filter.mpr ⟨hu, hne⟩⟩

theorem staff_handOn (got : Outcome × Option (Uuid × Membership)) :
    (handOn ws got).staff key = ws.staff key := by
  unfold handOn
  split <;> rfl

theorem mem_staff_deleteAccount {leaver : Uuid} {got : Outcome × Option (Uuid × Membership)} :
    u ∈ (deleteAccount ws leaver got).staff key ↔
      u ∈ (ws.staff key).filter fun v => v != leaver := by
  unfold deleteAccount
  rw [mem_staff_endMembership, staff_handOn]

theorem mem_staff_staffRole {key' : String} {members : List Uuid} :
    u ∈ (ws.withRoles (staffRole key' members)).staff key ↔
      ∃ wr ∈ ws.db.directory.roles, wr.key = key ∧ wr.deleted = false ∧
        u ∈ if key' = key then members else wr.members := by
  have hkey : ∀ wr, (staffRole key' members wr).key = wr.key := by
    intro wr
    unfold staffRole
    split <;> rfl
  have hdeleted : ∀ wr, (staffRole key' members wr).deleted = wr.deleted := by
    intro wr
    unfold staffRole
    split <;> rfl
  simp only [mem_staff_withRoles, hkey, hdeleted]
  refine exists_congr fun wr => and_congr_right fun _ => and_congr_right fun hk =>
    and_congr_right fun hlive => ?_
  subst hk
  unfold staffRole
  by_cases h : key' = wr.key
  · rw [if_pos ⟨h.symm, by rw [hlive]; rfl⟩, if_pos h]
  · rw [if_neg fun hc => h hc.1.symm, if_neg h]

theorem mem_staff_dropRole {key' : String} : u ∈ (ws.withRoles (dropRole key')).staff key ↔
    u ∈ if key' = key then [] else ws.staff key := by
  rw [mem_staff_withRoles]
  by_cases h : key' = key
  · subst h
    simp only [if_true, List.not_mem_nil, iff_false]
    rintro ⟨wr, -, hkey, hlive, -⟩
    by_cases hdrop : wr.key = key' ∧ !wr.deleted
    · rw [dropRole, if_pos hdrop] at hlive
      cases hlive
    · rw [dropRole, if_neg hdrop] at hkey hlive
      exact hdrop ⟨hkey, by rw [hlive]; rfl⟩
  · rw [if_neg h, Workspace.mem_staff]
    refine exists_congr fun wr => and_congr_right fun _ => ?_
    by_cases hdrop : wr.key = key' ∧ !wr.deleted
    · rw [dropRole, if_pos hdrop]
      constructor
      · rintro ⟨hkey, -, -⟩
        exact absurd (hdrop.1.symm.trans hkey) h
      · rintro ⟨hkey, -, -⟩
        exact absurd (hdrop.1.symm.trans hkey) h
    · rw [dropRole, if_neg hdrop]

theorem mem_staff_write_of_live (hlive : ws.hasLiveRole key = true)
    (hu : u ∈ call.leavesStaff ws key) : u ∈ (call.write rows ws).staff key := by
  cases call with
  | setMembershipStatus caller target status => exact hu
  | removeMember caller target => exact mem_staff_endMembership.mpr hu
  | setMemberRole caller target role => exact hu
  | deleteMyAccount caller email want heir => exact mem_staff_deleteAccount.mpr hu
  | staffDeleteAccount actor target want heir => exact mem_staff_deleteAccount.mpr hu
  | setRoleMembers caller key' members =>
    refine mem_staff_staffRole.mpr ?_
    unfold leavesStaff at hu
    by_cases h : key' = key
    · obtain ⟨wr, hwr, hkey, hdeleted⟩ := Workspace.hasLiveRole_iff.mp hlive
      simp only [if_pos h] at hu ⊢
      exact ⟨wr, hwr, hkey, hdeleted, hu⟩
    · simp only [if_neg h] at hu ⊢
      exact Workspace.mem_staff.mp hu
  | deleteRole caller key' => exact mem_staff_dropRole.mpr hu

theorem leavesStaff_of_write (hu : u ∈ (call.write rows ws).staff key) :
    u ∈ call.leavesStaff ws key := by
  cases call with
  | setMembershipStatus caller target status => exact hu
  | removeMember caller target => exact mem_staff_endMembership.mp hu
  | setMemberRole caller target role => exact hu
  | deleteMyAccount caller email want heir => exact mem_staff_deleteAccount.mp hu
  | staffDeleteAccount actor target want heir => exact mem_staff_deleteAccount.mp hu
  | setRoleMembers caller key' members =>
    obtain ⟨wr, hwr, hkey, hdeleted, hmem⟩ := mem_staff_staffRole.mp hu
    simp only [leavesStaff]
    split at hmem
    · rename_i h
      rw [if_pos h]
      exact hmem
    · rename_i h
      rw [if_neg h]
      exact Workspace.mem_staff.mpr ⟨wr, hwr, hkey, hdeleted, hmem⟩
  | deleteRole caller key' => exact mem_staff_dropRole.mp hu

theorem approves_of_get? {ws' : Workspace} (h : ws'.members.get? u = ws.members.get? u) :
    ws'.approves u = ws.approves u := by
  unfold Workspace.approves
  rw [h]

theorem leavesApprover_of_ne (hmember : call.member ≠ some u) (hasked : call.asked = none) :
    call.leavesApprover ws u = ws.approves u := by
  cases call with
  | setMembershipStatus caller target status =>
    exact if_neg fun hu => hmember (congrArg some hu.symm)
  | removeMember caller target =>
    have hne : (u != target) = true := bne_iff_ne.mpr fun hu => hmember (congrArg some hu.symm)
    rw [leavesApprover, hne, Bool.true_and]
  | setMemberRole caller target role => exact if_neg fun hu => hmember (congrArg some hu.symm)
  | deleteMyAccount caller email want heir => cases hasked
  | staffDeleteAccount actor target want heir => cases hasked
  | setRoleMembers caller key' members => rfl
  | deleteRole caller key' => rfl

theorem named_iff_heir {want : Outcome} {named : Option Uuid} (hsound : deleteBodyHeir want named)
    (hasked : call.asked = some (want, named)) (hguard : call.guard rows = .ok .write) :
    named = some u ↔ ∃ heir, call.decision rows = (.handOn, some heir) ∧ heir.1 = u := by
  have hout := guard_asked hguard hasked
  unfold outcomeHolds at hout
  rw [Bool.and_eq_true, beq_iff_eq] at hout
  obtain ⟨hwant, hheir⟩ := hout
  have hcases : call.decision rows = (.deleteWorkspace, none) ∨
      call.decision rows = (.leave, none) ∨ ∃ heir, call.decision rows = (.handOn, some heir) := by
    cases call with
    | deleteMyAccount caller email want' heir => exact decideAccountDeletion_cases _ _
    | staffDeleteAccount actor target want' heir => exact decideAccountDeletion_cases _ _
    | _ => cases hasked
  obtain hdecision | hdecision | ⟨heir, hdecision⟩ := hcases
  · rw [hdecision] at hwant
    subst hwant
    cases hsound
  · rw [hdecision] at hwant
    subst hwant
    simp only [deleteBodyHeir, Option.isNone_iff_eq_none] at hsound
    subst hsound
    simp [hdecision]
  · rw [hdecision] at hheir
    simp only [bne_self_eq_false, Bool.false_or, Option.map_some, beq_iff_eq] at hheir
    rw [← hheir, hdecision, Option.some.injEq]
    constructor
    · intro hu
      exact ⟨heir, rfl, hu⟩
    · rintro ⟨heir', hh, hu⟩
      cases hh
      exact hu

theorem approves_deleteAccount {want : Outcome} {named : Option Uuid} {leaver : Uuid}
    (hsound : deleteBodyHeir want named) (hasked : call.asked = some (want, named))
    (hleaver : call.member = some leaver) (hrows : ws.Current rows)
    (hselect : ∀ e ∈ rows, call.selects e = true) (hguard : call.guard rows = .ok .write) :
    (deleteAccount ws leaver (call.decision rows)).approves u =
      (u != leaver && (ws.approves u || named == some u)) := by
  by_cases hu : u = leaver
  · subst hu
    have hended : ∀ m, (deleteAccount ws u (call.decision rows)).members.get? u = some m →
        m.isActive = false := by
      intro m hm
      rw [deleteAccount, Workspace.endMembership, Workspace.withRoles_members,
        Table.get?_modify_self] at hm
      obtain ⟨q, -, rfl⟩ := Option.map_eq_some_iff.mp hm
      rfl
    rw [bne_self_eq_false, Bool.false_and, Bool.eq_false_iff, ne_eq, Workspace.approves_iff]
    rintro ⟨m, hm, hactive, -⟩
    rw [hended m hm] at hactive
    cases hactive
  · have hkept : (deleteAccount ws leaver (call.decision rows)).members.get? u =
        (handOn ws (call.decision rows)).members.get? u :=
      Workspace.get?_endMembership_of_ne _ hu
    rw [bne_iff_ne.mpr hu, Bool.true_and, approves_of_get? hkept]
    by_cases hnamed : named = some u
    · obtain ⟨heir, hdecision, rfl⟩ := (named_iff_heir hsound hasked hguard).mp hnamed
      obtain ⟨hmem, hactive, -⟩ := guard_heir hselect hguard hdecision
      rw [hnamed, beq_self_eq_true, Bool.or_true, Workspace.approves_iff]
      refine ⟨{ heir.2 with role := .admin }, ?_, hactive, rfl⟩
      rw [hdecision, get?_handOn, hrows _ hmem, Option.map_some]
    · rw [beq_eq_false_iff_ne.mpr hnamed, Bool.or_false]
      refine approves_of_get? (get?_handOn_of_ne ws fun heir hheir hu => ?_)
      exact hnamed ((named_iff_heir hsound hasked hguard).mpr ⟨heir, hheir, hu.symm⟩)

theorem approves_write (hsound : call.Sound) (hrows : ws.Current rows)
    (hselect : ∀ e ∈ rows, call.selects e = true) (hguard : call.guard rows = .ok .write) :
    (call.write rows ws).approves u = call.leavesApprover ws u := by
  cases call with
  | setMembershipStatus caller target status =>
    by_cases hu : u = target
    · subst hu
      rw [leavesApprover, if_pos rfl, Workspace.approves, write, Table.get?_modify_self,
        Option.any_map]
      rfl
    · rw [leavesApprover, if_neg hu]
      exact approves_of_get? (Table.get?_modify_of_ne _ _ hu)
  | removeMember caller target =>
    by_cases hu : u = target
    · subst hu
      rw [leavesApprover, bne_self_eq_false, Bool.false_and, Workspace.approves, write,
        Workspace.endMembership, Workspace.withRoles_members, Table.get?_modify_self,
        Option.any_map]
      cases ws.members.get? u <;> rfl
    · rw [leavesApprover, bne_iff_ne.mpr hu, Bool.true_and]
      exact approves_of_get? (Workspace.get?_endMembership_of_ne _ hu)
  | setMemberRole caller target role =>
    by_cases hu : u = target
    · subst hu
      have hrole : ∀ m : Membership, (changeRole ws.db.directory.isFirm role m).isActive =
          m.isActive ∧ (changeRole ws.db.directory.isFirm role m).role = role := by
        intro m
        unfold changeRole
        split <;> exact ⟨rfl, rfl⟩
      rw [leavesApprover, if_pos rfl, Workspace.approves, write, Table.get?_modify_self,
        Option.any_map]
      congr 1
      funext m
      rw [(hrole m).1, (hrole m).2]
    · rw [leavesApprover, if_neg hu]
      exact approves_of_get? (Table.get?_modify_of_ne _ _ hu)
  | deleteMyAccount caller email want heir =>
    exact approves_deleteAccount hsound rfl rfl hrows hselect hguard
  | staffDeleteAccount actor target want heir =>
    exact approves_deleteAccount hsound rfl rfl hrows hselect hguard
  | setRoleMembers caller key' members => rfl
  | deleteRole caller key' => rfl

section
variable (hsound : call.Sound) (hrows : ws.Current rows)
  (hselect : ∀ e ∈ rows, call.selects e = true) (hguard : call.guard rows = .ok .write)
include hsound hrows hselect hguard

theorem keepsSigner_of_write (h : ∃ u, (call.write rows ws).signs key u = true) :
    call.keepsSigner ws key = true := by
  obtain ⟨u, hu⟩ := h
  obtain ⟨hstaff, happroves⟩ := Workspace.signs_iff.mp hu
  rw [approves_write hsound hrows hselect hguard] at happroves
  exact keepsSigner_iff.mpr ⟨u, leavesStaff_of_write hstaff, happroves⟩

theorem write_signs (hlive : ws.hasLiveRole key = true) :
    (∃ u, (call.write rows ws).signs key u = true) ↔ call.keepsSigner ws key = true := by
  constructor
  · exact keepsSigner_of_write hsound hrows hselect hguard
  · intro h
    obtain ⟨u, hstaff, happroves⟩ := keepsSigner_iff.mp h
    refine ⟨u, Workspace.signs_iff.mpr ⟨mem_staff_write_of_live hlive hstaff, ?_⟩⟩
    rw [approves_write hsound hrows hselect hguard]
    exact happroves

end
/-! ### What waits, before and after -/

theorem write_tables : (call.write rows ws).db.runs = ws.db.runs ∧
    (call.write rows ws).db.invoices = ws.db.invoices := by
  have hdelete : ∀ leaver got, (deleteAccount ws leaver got).db.runs = ws.db.runs ∧
      (deleteAccount ws leaver got).db.invoices = ws.db.invoices := by
    intro leaver got
    unfold deleteAccount handOn
    split <;> exact ⟨rfl, rfl⟩
  cases call with
  | deleteMyAccount caller email want heir => exact hdelete _ _
  | staffDeleteAccount actor target want heir => exact hdelete _ _
  | _ => exact ⟨rfl, rfl⟩

theorem hasLiveRole_withRoles {f : WorkflowRole → WorkflowRole}
    (hf : ∀ wr, (f wr).key = wr.key ∧ (f wr).deleted = wr.deleted) :
    (ws.withRoles f).hasLiveRole key = ws.hasLiveRole key := by
  rw [Bool.eq_iff_iff, Workspace.hasLiveRole_iff, Workspace.hasLiveRole_iff]
  constructor
  · rintro ⟨wr', hwr', hkey, hlive⟩
    obtain ⟨wr, hwr, rfl⟩ := List.mem_map.mp hwr'
    rw [(hf wr).1] at hkey
    rw [(hf wr).2] at hlive
    exact ⟨wr, hwr, hkey, hlive⟩
  · rintro ⟨wr, hwr, hkey, hlive⟩
    exact ⟨f wr, List.mem_map_of_mem hwr, (hf wr).1.trans hkey, (hf wr).2.trans hlive⟩

theorem write_hasLiveRole (hcall : ∀ caller key', call ≠ .deleteRole caller key') :
    (call.write rows ws).hasLiveRole key = ws.hasLiveRole key := by
  have hdelete : ∀ leaver got,
      (deleteAccount ws leaver got).hasLiveRole key = ws.hasLiveRole key := by
    intro leaver got
    unfold deleteAccount Workspace.endMembership
    refine Eq.trans (hasLiveRole_withRoles ?_) ?_
    · intro wr
      exact ⟨rfl, rfl⟩
    · unfold handOn
      split <;> rfl
  cases call with
  | setMembershipStatus caller target status => rfl
  | removeMember caller target => exact hasLiveRole_withRoles fun _ => ⟨rfl, rfl⟩
  | setMemberRole caller target role => rfl
  | deleteMyAccount caller email want heir => exact hdelete _ _
  | staffDeleteAccount actor target want heir => exact hdelete _ _
  | setRoleMembers caller key' members =>
    refine hasLiveRole_withRoles fun wr => ?_
    unfold staffRole
    split <;> exact ⟨rfl, rfl⟩
  | deleteRole caller key' => exact absurd rfl (hcall caller key')

theorem write_waits (hcall : ∀ caller key', call ≠ .deleteRole caller key') :
    (call.write rows ws).waits key = ws.waits key := by
  rw [Bool.eq_iff_iff, Workspace.waits_iff, Workspace.waits_iff, write_hasLiveRole hcall,
    write_tables.1, write_tables.2]

end Call

namespace Workspace

variable {ws : Workspace} {key : String}

theorem waits_of_runs (db : Db)
    (h : ∀ id run, db.runs.get? id = some run → run.state = .open →
      (db.invoices.get? run.invoiceID).any (fun r => r.status == .validated) = true →
      run.steps.any (fun s => s.pendingApproval && s.workflowRoleKey == some key) = true →
      ∃ run', ws.db.runs.get? id = some run' ∧ run'.state = .open ∧
        (ws.db.invoices.get? run'.invoiceID).any (fun r => r.status == .validated) = true ∧
        run'.steps.any (fun s => s.pendingApproval && s.workflowRoleKey == some key) = true)
    (hwaits : ({ ws with db := { ws.db with invoices := db.invoices, runs := db.runs } } :
      Workspace).waits key = true) : ws.waits key = true := by
  obtain ⟨hlive, id, run, hrun, hopen, hstatus, hstep⟩ := waits_iff.mp hwaits
  obtain ⟨run', hrun', h'⟩ := h id run hrun hopen hstatus hstep
  exact waits_iff.mpr ⟨hlive, id, run', hrun', h'⟩

theorem decideStep_pending {decision : Decision} {caller : Uuid} {ord : ℕ} {s : StoredStep}
    (h : (decideStep decision caller ord s).pendingApproval = true) :
    decideStep decision caller ord s = s := by
  unfold decideStep at h ⊢
  split
  · rename_i hturn
    rw [if_pos hturn] at h
    cases decision
    · simp [StoredStep.pendingApproval] at h
    · simp [StoredStep.pendingApproval] at h
  · rfl

theorem waits_of_decide {db : Db} {invoice caller : Uuid} {decision : Decision}
    {reason : Option String} (h : Approval.decide ws.view invoice caller decision reason = .ok db)
    (hwaits : ({ ws with db := { ws.db with invoices := db.invoices, runs := db.runs } } :
      Workspace).waits key = true) : ws.waits key = true := by
  obtain ⟨r, k, run, s, reason, asDelegate, hr, hstatus, hrun, hinv, hopen, -, -, -, heffect⟩ :=
    decide_spec h
  refine waits_of_runs db (fun id run' hrun' hopen' hstatus' hstep' => ?_) hwaits
  obtain ⟨-, rfl⟩ | ⟨-, rfl⟩ := heffect
  · by_cases hid : id = k
    · subst hid
      rw [Db.setRun_runs, Table.get?_set_self] at hrun'
      cases hrun'
      rw [Db.setRun_invoices, Run.decide_invoiceID] at hstatus'
      rw [Run.decide_steps] at hstep'
      refine ⟨run, hrun, hopen, hstatus', ?_⟩
      obtain ⟨s', hs', hpending⟩ := List.any_eq_true.mp hstep'
      obtain ⟨s₀, hs₀, rfl⟩ := List.mem_map.mp hs'
      rw [Bool.and_eq_true] at hpending
      rw [decideStep_pending hpending.1] at hpending
      exact List.any_eq_true.mpr ⟨s₀, hs₀, by rw [hpending.1, hpending.2]; rfl⟩
    · rw [Db.setRun_runs, Table.get?_set_of_ne _ _ hid] at hrun'
      exact ⟨run', hrun', hopen', hstatus', hstep'⟩
  · by_cases hid : id = k
    · subst hid
      rw [Db.setInvoice_runs, Db.setRun_runs, Table.get?_set_self] at hrun'
      cases hrun'
      rw [Run.decide_rejected_state] at hopen'
      cases hopen'
    · rw [Db.setInvoice_runs, Db.setRun_runs, Table.get?_set_of_ne _ _ hid] at hrun'
      refine ⟨run', hrun', hopen', ?_, hstep'⟩
      rw [Db.setInvoice_invoices, Db.setRun_invoices] at hstatus'
      by_cases hi : run'.invoiceID = invoice
      · rw [hi, Table.get?_set_self] at hstatus'
        cases hstatus'
      · rwa [Table.get?_set_of_ne _ _ hi] at hstatus'

theorem waits_of_cancelRun {invoice : Uuid} {actor : Subject}
    (hwaits : (ws.cancelRun invoice actor).waits key = true) : ws.waits key = true := by
  have hruns : ∀ id run, (cancelLiveRunTx ws.db invoice actor).runs.get? id = some run →
      run.state = .open → ws.db.runs.get? id = some run := by
    intro id run hrun hopen
    refine (live_cancelLiveRunTx hrun ?_).1
    rw [Run.live, hopen]
    rfl
  exact waits_of_runs (cancelLiveRunTx ws.db invoice actor)
    (fun id run hrun hopen hstatus hstep => ⟨run, hruns id run hrun hopen, hopen, hstatus, hstep⟩)
    hwaits

end Workspace
end InvoiceOs.Tenancy
