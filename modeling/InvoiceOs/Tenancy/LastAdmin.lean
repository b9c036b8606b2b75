import InvoiceOs.Tenancy.Calls

/-! A workspace keeps an admin. The calls lock different rows, and only some take the tenant
lock; what carries the result is that a locked row is the row of the table until its holder
ends, so a guard that passed over the locked rows still holds when its call commits. -/

namespace InvoiceOs.Tenancy

open Lib Approval

theorem isActive_iff {m : Membership} : m.isActive = true ↔ m.status = .active := by
  simp only [Membership.isActive, beq_iff_eq]

theorem isActiveAdmin_iff {m : Membership} :
    m.isActiveAdmin = true ↔ m.role = .admin ∧ m.isActive = true := by
  simp only [Membership.isActiveAdmin, Bool.and_eq_true, beq_iff_eq]

namespace Workspace

theorem isAdmin_iff {ws : Workspace} {u : Uuid} :
    ws.isAdmin u = true ↔ ∃ m, ws.members.get? u = some m ∧ m.isActiveAdmin = true := by
  simp only [isAdmin, Option.any_eq_true]

def HasAdmin (ws : Workspace) : Prop := ∃ u, ws.isAdmin u = true

def Current (ws : Workspace) (rows : Rows) : Prop := ∀ e ∈ rows, ws.members.get? e.1 = some e.2

@[simp] theorem withRoles_members (ws : Workspace) (f : WorkflowRole → WorkflowRole) :
    (ws.withRoles f).members = ws.members := rfl

theorem get?_endMembership_of_ne (ws : Workspace) {u v : Uuid} (h : v ≠ u) :
    (ws.endMembership u).members.get? v = ws.members.get? v :=
  Table.get?_modify_of_ne _ _ h

end Workspace

theorem get?_handOn_of_ne (ws : Workspace) {got : Outcome × Option (Uuid × Membership)} {v : Uuid}
    (h : ∀ heir, got = (.handOn, some heir) → v ≠ heir.1) :
    (handOn ws got).members.get? v = ws.members.get? v := by
  unfold handOn
  split
  · exact Table.get?_modify_of_ne _ _ (h _ rfl)
  · rfl

theorem get?_handOn (ws : Workspace) (heir : Uuid × Membership) :
    (handOn ws (.handOn, some heir)).members.get? heir.1 =
      (ws.members.get? heir.1).map fun m => { m with role := .admin } :=
  Table.get?_modify_self _ _ _

theorem isAdmin_handOn {ws : Workspace} {got : Outcome × Option (Uuid × Membership)} {v : Uuid}
    (h : ws.isAdmin v = true) : (handOn ws got).isAdmin v = true := by
  unfold handOn
  split
  · rename_i heir
    obtain ⟨m, hm, hadmin⟩ := Workspace.isAdmin_iff.mp h
    refine Workspace.isAdmin_iff.mpr ?_
    by_cases hv : v = heir.1
    · subst hv
      refine ⟨{ m with role := .admin }, ?_, ?_⟩
      · rw [Table.get?_modify_self, hm, Option.map_some]
      · exact isActiveAdmin_iff.mpr ⟨rfl, (isActiveAdmin_iff.mp hadmin).2⟩
    · exact ⟨m, (Table.get?_modify_of_ne _ _ hv).trans hm, hadmin⟩
  · exact h

theorem role_deleteAccount {ws : Workspace} {leaver u : Uuid}
    {got : Outcome × Option (Uuid × Membership)} {m m' : Membership}
    (hheir : ∀ heir, got = (.handOn, some heir) → u ≠ heir.1) (hm : ws.members.get? u = some m)
    (hm' : (deleteAccount ws leaver got).members.get? u = some m') : m'.role = m.role := by
  have hkept : (handOn ws got).members.get? u = some m := (get?_handOn_of_ne ws hheir).trans hm
  by_cases hu : u = leaver
  · subst hu
    rw [deleteAccount, Workspace.endMembership, Workspace.withRoles_members,
      Table.get?_modify_self, hkept] at hm'
    cases hm'
    rfl
  · rw [deleteAccount, Workspace.get?_endMembership_of_ne _ hu, hkept] at hm'
    cases hm'
    rfl

/-! ### The heir -/

theorem earlier_iff {m h : Uuid × Membership} : earlier m h = true ↔
    m.2.createdAt < h.2.createdAt ∨ m.2.createdAt = h.2.createdAt ∧ m.1.toNat < h.1.toNat := by
  simp only [earlier, Bool.or_eq_true, Bool.and_eq_true, decide_eq_true_eq, beq_iff_eq]

theorem earlier_trans {a b c : Uuid × Membership} (hab : earlier a b = true)
    (hbc : earlier b c = true) : earlier a c = true := by
  rw [earlier_iff] at *
  omega

theorem earlier_of_not {a b c : Uuid × Membership} (hba : earlier b a = false)
    (hbc : earlier b c = true) : earlier a c = true := by
  have hnot : ¬ earlier b a = true := by rw [hba]; exact Bool.false_ne_true
  rw [earlier_iff] at *
  omega

section
variable {caller : Uuid} {m : Uuid × Membership}

theorem betterHeir_caller (heir : Option (Uuid × Membership)) (hm : m.1 = caller) :
    betterHeir caller heir m = heir := by
  unfold betterHeir
  exact if_pos hm

theorem betterHeir_first (hm : m.1 ≠ caller) : betterHeir caller none m = some m := by
  unfold betterHeir
  exact if_neg hm

theorem betterHeir_next (heir : Uuid × Membership) (hm : m.1 ≠ caller) :
    betterHeir caller (some heir) m = if earlier m heir then some m else some heir := by
  unfold betterHeir
  exact if_neg hm

end

theorem foldl_betterHeir {caller : Uuid} {active : Rows} {init : Option (Uuid × Membership)}
    {h : Uuid × Membership} (hinit : ∀ i, init = some i → i.1 ≠ caller)
    (hfold : active.foldl (betterHeir caller) init = some h) :
    (h ∈ active ∨ init = some h) ∧ h.1 ≠ caller ∧
      (∀ i, init = some i → earlier i h = false) ∧
      ∀ m ∈ active, m.1 ≠ caller → earlier m h = false := by
  induction active generalizing init with
  | nil =>
    have hh : init = some h := hfold
    have hirrefl : earlier h h = false := by
      rw [Bool.eq_false_iff, ne_eq, earlier_iff]
      omega
    refine ⟨.inr hh, hinit h hh, ?_, fun m hm => nomatch hm⟩
    intro i hi
    rw [hh] at hi
    cases hi
    exact hirrefl
  | cons m active ih =>
    rw [List.foldl_cons] at hfold
    by_cases hm : m.1 = caller
    · rw [betterHeir_caller _ hm] at hfold
      obtain ⟨hmem, hne, hbefore, hall⟩ := ih hinit hfold
      refine ⟨hmem.imp_left (List.mem_cons_of_mem _), hne, hbefore, ?_⟩
      intro e he hec
      obtain rfl | he := List.mem_cons.mp he
      · exact absurd hm hec
      · exact hall e he hec
    · cases init with
      | none =>
        rw [betterHeir_first hm] at hfold
        obtain ⟨hmem, hne, hbefore, hall⟩ :=
          ih (fun i hi => by cases hi; exact hm) hfold
        refine ⟨.inl ?_, hne, (fun i hi => nomatch hi), ?_⟩
        · obtain hmem | hmem := hmem
          · exact List.mem_cons_of_mem _ hmem
          · cases hmem
            exact List.mem_cons_self
        · intro e he hec
          obtain rfl | he := List.mem_cons.mp he
          · exact hbefore _ rfl
          · exact hall e he hec
      | some i =>
        rw [betterHeir_next i hm] at hfold
        by_cases hearlier : earlier m i = true
        · rw [if_pos hearlier] at hfold
          obtain ⟨hmem, hne, hbefore, hall⟩ :=
            ih (fun j hj => by cases hj; exact hm) hfold
          have hmh : earlier m h = false := hbefore m rfl
          refine ⟨.inl ?_, hne, ?_, ?_⟩
          · obtain hmem | hmem := hmem
            · exact List.mem_cons_of_mem _ hmem
            · cases hmem
              exact List.mem_cons_self
          · intro j hj
            cases hj
            rw [Bool.eq_false_iff] at hmh ⊢
            exact fun hih => hmh (earlier_trans hearlier hih)
          · intro e he hec
            obtain rfl | he := List.mem_cons.mp he
            · exact hmh
            · exact hall e he hec
        · rw [if_neg hearlier] at hfold
          obtain ⟨hmem, hne, hbefore, hall⟩ := ih hinit hfold
          refine ⟨hmem.imp_left (List.mem_cons_of_mem _), hne, hbefore, ?_⟩
          intro e he hec
          obtain rfl | he := List.mem_cons.mp he
          · have hih := hbefore i rfl
            rw [Bool.eq_false_iff] at hih ⊢
            exact fun heh => hih (earlier_of_not (Bool.eq_false_iff.mpr hearlier) heh)
          · exact hall e he hec

section
variable {caller : Uuid} {active : Rows}

theorem decideAccountDeletion_handOn {heir : Uuid × Membership}
    (h : decideAccountDeletion caller active = (.handOn, some heir)) :
    heir ∈ active ∧ heir.1 ≠ caller ∧ ∀ m ∈ active, m.1 ≠ caller → earlier m heir = false := by
  unfold decideAccountDeletion at h
  dsimp only at h
  split at h
  · cases h
  · rename_i h' hfold
    split at h
    · cases h
    · cases h
      obtain ⟨hmem, hne, -, hall⟩ := foldl_betterHeir (by simp) hfold
      obtain hmem | hmem := hmem
      · exact ⟨hmem, hne, hall⟩
      · cases hmem

theorem decideAccountDeletion_leave {m : Membership} {heir : Option (Uuid × Membership)}
    (h : decideAccountDeletion caller active = (.leave, heir)) (hm : (caller, m) ∈ active)
    (hadmin : ∀ e ∈ active, e.1 = caller → e.2.role = .admin) :
    ∃ e ∈ active, e.1 ≠ caller ∧ e.2.role = .admin := by
  have hself : (active.find? fun e => e.1 == caller).any (fun e => e.2.role == .admin) = true := by
    obtain ⟨e, he⟩ := Option.isSome_iff_exists.mp
      ((List.find?_isSome (p := fun e => e.1 == caller)).mpr ⟨_, hm, beq_self_eq_true caller⟩)
    have hkey := List.find?_some he
    rw [he, Option.any_some, beq_iff_eq]
    exact hadmin e (List.mem_of_find?_eq_some he) (beq_iff_eq.mp hkey)
  unfold decideAccountDeletion at h
  dsimp only at h
  rw [hself] at h
  split at h
  · cases h
  · split at h
    · rename_i hothers
      simp only [Bool.not_true, Bool.false_or, List.any_eq_true, Bool.and_eq_true, bne_iff_ne,
        beq_iff_eq] at hothers
      obtain ⟨e, he, hne, hrole⟩ := hothers
      exact ⟨e, he, hne, hrole⟩
    · cases h

theorem decideAccountDeletion_cases (caller : Uuid) (active : Rows) :
    decideAccountDeletion caller active = (.deleteWorkspace, none) ∨
      decideAccountDeletion caller active = (.leave, none) ∨
      ∃ heir, decideAccountDeletion caller active = (.handOn, some heir) := by
  unfold decideAccountDeletion
  dsimp only
  split
  · exact .inl rfl
  · split
    · exact .inr (.inl rfl)
    · exact .inr (.inr ⟨_, rfl⟩)

end

/-! ### What a guard that passed knows -/

theorem targetRow_mem {target : Uuid} {rows : Rows} {m : Membership}
    (h : targetRow target rows = some m) : (target, m) ∈ rows := by
  obtain ⟨e, he, rfl⟩ := Option.map_eq_some_iff.mp h
  have hkey := List.find?_some he
  rw [beq_iff_eq] at hkey
  subst hkey
  exact List.mem_of_find?_eq_some he

theorem otherAdmins_iff {target : Uuid} {rows : Rows} : otherAdmins target rows = true ↔
    ∃ e ∈ rows, e.1 ≠ target ∧ e.2.isActiveAdmin = true := by
  simp only [otherAdmins, List.any_eq_true, Bool.and_eq_true, bne_iff_ne]

namespace Call

def member : Call → Option Uuid
  | setMembershipStatus _ target _ => some target
  | removeMember _ target => some target
  | setMemberRole _ target _ => some target
  | deleteMyAccount caller _ _ _ => some caller
  | staffDeleteAccount _ target _ _ => some target
  | setRoleMembers .. => none
  | deleteRole .. => none

def asked : Call → Option (Outcome × Option Uuid)
  | deleteMyAccount _ _ want heir => some (want, heir)
  | staffDeleteAccount _ _ want heir => some (want, heir)
  | _ => none

def Sound : Call → Prop
  | setMembershipStatus _ _ status => status = .active ∨ status = .suspended
  | deleteMyAccount _ _ want heir => deleteBodyHeir want heir = true
  | staffDeleteAccount _ _ want heir => deleteBodyHeir want heir = true
  | _ => True

variable {call : Call} {rows : Rows} {ws : Workspace}

theorem precheck_sound (h : call.precheck ws = .ok ()) : call.Sound := by
  cases call with
  | setMembershipStatus caller target status =>
    simp only [precheck, check_eq_ok, ne_eq, not_and, not_not] at h
    by_cases hactive : status = .active
    · exact .inl hactive
    · exact .inr (h.1 hactive)
  | deleteMyAccount caller email want heir =>
    simp only [precheck, check_eq_ok, Bool.not_eq_true', Bool.not_eq_false] at h
    exact h.1
  | staffDeleteAccount actor target want heir =>
    simp only [precheck, check_eq_ok, Bool.not_eq_true', Bool.not_eq_false] at h
    exact h.1
  | removeMember caller target => trivial
  | setMemberRole caller target role => trivial
  | setRoleMembers caller key members => trivial
  | deleteRole caller key => trivial

theorem guard_member {u : Uuid} (h : call.guard rows = .ok .write) (hu : call.member = some u) :
    ∃ m, targetRow u rows = some m := by
  cases call with
  | setRoleMembers caller key members => cases hu
  | deleteRole caller key => cases hu
  | deleteMyAccount caller email want heir =>
    cases hu
    simp only [guard, check_eq_ok] at h
    obtain ⟨-, h⟩ := h
    split at h
    · cases h
    · exact ⟨_, by assumption⟩
  | setMembershipStatus caller target status =>
    cases hu
    simp only [guard] at h
    split at h
    · cases h
    · exact ⟨_, by assumption⟩
  | removeMember caller target =>
    cases hu
    simp only [guard] at h
    split at h
    · cases h
    · exact ⟨_, by assumption⟩
  | setMemberRole caller target role =>
    cases hu
    simp only [guard] at h
    split at h
    · cases h
    · exact ⟨_, by assumption⟩
  | staffDeleteAccount actor target want heir =>
    cases hu
    simp only [guard] at h
    split at h
    · cases h
    · exact ⟨_, by assumption⟩

theorem guard_asked {want : Outcome} {heir : Option Uuid} (h : call.guard rows = .ok .write)
    (hasked : call.asked = some (want, heir)) :
    outcomeHolds (call.decision rows) want heir = true := by
  cases call with
  | deleteMyAccount caller email want heir =>
    cases hasked
    simp only [guard, check_eq_ok, Bool.not_eq_true', Bool.not_eq_false] at h
    exact h.1
  | staffDeleteAccount actor target want heir =>
    cases hasked
    simp only [guard] at h
    split at h
    · cases h
    · simp only [check_eq_ok, Bool.not_eq_true', Bool.not_eq_false] at h
      exact h.2.2.1
  | setMembershipStatus caller target status => cases hasked
  | removeMember caller target => cases hasked
  | setMemberRole caller target role => cases hasked
  | setRoleMembers caller key members => cases hasked
  | deleteRole caller key => cases hasked

theorem guard_heir {heir : Uuid × Membership} (hselect : ∀ e ∈ rows, call.selects e = true)
    (h : call.guard rows = .ok .write) (hheir : call.decision rows = (.handOn, some heir)) :
    heir ∈ rows ∧ heir.2.isActive = true ∧ call.member ≠ some heir.1 ∧
      call.asked = some (.handOn, some heir.1) ∧ call.shared = false ∧
      ∀ e ∈ rows, e.2.isActive = true → call.member ≠ some e.1 → earlier e heir = false := by
  have hasked : ∀ want named, call.asked = some (want, named) →
      outcomeHolds (call.decision rows) want named = true := fun _ _ => guard_asked h
  rw [hheir] at hasked
  cases call with
  | deleteMyAccount caller email want named =>
    obtain ⟨hmem, hne, hall⟩ := decideAccountDeletion_handOn hheir
    have hout := hasked want named rfl
    simp only [outcomeHolds, Bool.and_eq_true, beq_iff_eq, Option.map_some, bne_self_eq_false,
      Bool.false_or] at hout
    obtain ⟨rfl, rfl⟩ := hout
    refine ⟨hmem, hselect heir hmem, fun hc => hne (Option.some.inj hc).symm, rfl, rfl, ?_⟩
    exact fun e he _ hec => hall e he fun hc => hec (congrArg some hc.symm)
  | staffDeleteAccount actor target want named =>
    obtain ⟨hmem, hne, hall⟩ := decideAccountDeletion_handOn hheir
    obtain ⟨hmem, hactive⟩ := List.mem_filter.mp hmem
    have hout := hasked want named rfl
    simp only [outcomeHolds, Bool.and_eq_true, beq_iff_eq, Option.map_some, bne_self_eq_false,
      Bool.false_or] at hout
    obtain ⟨rfl, rfl⟩ := hout
    refine ⟨hmem, hactive, fun hc => hne (Option.some.inj hc).symm, rfl, rfl, ?_⟩
    exact fun e he hact hec => hall e (List.mem_filter.mpr ⟨he, hact⟩) fun hc =>
      hec (congrArg some hc.symm)
  | setMembershipStatus caller target status => cases hheir
  | removeMember caller target => cases hheir
  | setMemberRole caller target role => cases hheir
  | setRoleMembers caller key members => cases hheir
  | deleteRole caller key => cases hheir

/-! ### What a write changes -/

theorem get?_write_of_ne {u : Uuid} (hmember : call.member ≠ some u)
    (hheir : ∀ heir, call.decision rows = (.handOn, some heir) → u ≠ heir.1) :
    (call.write rows ws).members.get? u = ws.members.get? u := by
  cases call with
  | setMembershipStatus caller target status =>
    exact Table.get?_modify_of_ne _ _ fun hu => hmember (congrArg some hu.symm)
  | removeMember caller target =>
    exact Workspace.get?_endMembership_of_ne _ fun hu => hmember (congrArg some hu.symm)
  | setMemberRole caller target role =>
    exact Table.get?_modify_of_ne _ _ fun hu => hmember (congrArg some hu.symm)
  | deleteMyAccount caller email want heir =>
    exact (Workspace.get?_endMembership_of_ne _ fun hu => hmember (congrArg some hu.symm)).trans
      (get?_handOn_of_ne ws hheir)
  | staffDeleteAccount actor target want heir =>
    exact (Workspace.get?_endMembership_of_ne _ fun hu => hmember (congrArg some hu.symm)).trans
      (get?_handOn_of_ne ws hheir)
  | setRoleMembers caller key members => rfl
  | deleteRole caller key => rfl

theorem get?_write_of_not_row {u : Uuid} (hselect : ∀ e ∈ rows, call.selects e = true)
    (h : call.guard rows = .ok .write) (hu : ∀ m, (u, m) ∈ rows → call.shared = true) :
    (call.write rows ws).members.get? u = ws.members.get? u := by
  apply get?_write_of_ne
  · intro hmember
    obtain ⟨m, hm⟩ := guard_member h hmember
    have hshared := hu m (targetRow_mem hm)
    cases call with
    | setRoleMembers caller key members => cases hmember
    | _ => cases hshared
  · rintro heir hheir rfl
    obtain ⟨hmem, -, -, -, hshared, -⟩ := guard_heir hselect h hheir
    rw [hu heir.2 hmem] at hshared
    cases hshared

theorem isAdmin_write {u : Uuid} (hmember : call.member ≠ some u) (hu : ws.isAdmin u = true) :
    (call.write rows ws).isAdmin u = true := by
  have hkept : ∀ leaver, leaver ≠ u → ∀ got, (deleteAccount ws leaver got).isAdmin u = true := by
    intro leaver hne got
    have hpromoted : (handOn ws got).isAdmin u = true := isAdmin_handOn hu
    unfold Workspace.isAdmin at hpromoted ⊢
    rw [deleteAccount, Workspace.get?_endMembership_of_ne _ hne.symm]
    exact hpromoted
  have hsame : (call.write rows ws).members.get? u = ws.members.get? u →
      (call.write rows ws).isAdmin u = true := by
    intro hget
    unfold Workspace.isAdmin
    rw [hget]
    exact hu
  cases call with
  | deleteMyAccount caller email want heir =>
    exact hkept caller (fun hc => hmember (congrArg some hc)) _
  | staffDeleteAccount actor target want heir =>
    exact hkept target (fun hc => hmember (congrArg some hc)) _
  | setMembershipStatus caller target status =>
    exact hsame (get?_write_of_ne hmember fun heir hheir => nomatch hheir)
  | removeMember caller target =>
    exact hsame (get?_write_of_ne hmember fun heir hheir => nomatch hheir)
  | setMemberRole caller target role =>
    exact hsame (get?_write_of_ne hmember fun heir hheir => nomatch hheir)
  | setRoleMembers caller key members =>
    exact hsame (get?_write_of_ne hmember fun heir hheir => nomatch hheir)
  | deleteRole caller key =>
    exact hsame (get?_write_of_ne hmember fun heir hheir => nomatch hheir)

theorem promoted {want : Outcome} {named : Option Uuid} {u : Uuid} {m m' : Membership}
    (hasked : call.asked = some (want, named)) (hm : ws.members.get? u = some m)
    (hm' : (call.write rows ws).members.get? u = some m') (hrole : m.role ≠ .admin)
    (hrole' : m'.role = .admin) :
    ∃ heir, call.decision rows = (.handOn, some heir) ∧ u = heir.1 := by
  have hdeletion : ∃ leaver, call.write rows ws = deleteAccount ws leaver (call.decision rows) := by
    cases call with
    | deleteMyAccount caller email want heir => exact ⟨caller, rfl⟩
    | staffDeleteAccount actor target want heir => exact ⟨target, rfl⟩
    | _ => cases hasked
  obtain ⟨leaver, hwrite⟩ := hdeletion
  rw [hwrite] at hm'
  by_contra hnone
  refine hrole ((role_deleteAccount ?_ hm hm').symm.trans hrole')
  exact fun heir hheir hu => hnone ⟨heir, hheir, hu⟩

theorem selects_of_asked {want : Outcome} {named : Option Uuid} {e : Uuid × Membership}
    (hasked : call.asked = some (want, named)) (hactive : e.2.isActive = true) :
    call.selects e = true := by
  cases call with
  | deleteMyAccount caller email want heir => exact hactive
  | staffDeleteAccount actor target want heir =>
    simp only [selects, hactive, Bool.true_or]
  | _ => cases hasked

theorem other_admin {target : Uuid} {m : Membership} (hadmin : ws.HasAdmin)
    (hrows : ws.Current rows) (hm : (target, m) ∈ rows)
    (hother : m.isActiveAdmin = true → ∃ e ∈ rows, e.1 ≠ target ∧ e.2.isActiveAdmin = true) :
    ∃ u, u ≠ target ∧ ws.isAdmin u = true := by
  have hget : ws.members.get? target = some m := hrows _ hm
  obtain ⟨u, hu⟩ := hadmin
  by_cases hut : u = target
  · subst hut
    obtain ⟨q, hq, hqadmin⟩ := Workspace.isAdmin_iff.mp hu
    rw [hget] at hq
    cases hq
    obtain ⟨e, he, hne, headmin⟩ := hother hqadmin
    exact ⟨e.1, hne, Workspace.isAdmin_iff.mpr ⟨e.2, hrows e he, headmin⟩⟩
  · exact ⟨u, hut, hu⟩

theorem leaver_other {leaver : Uuid} {m : Membership} {active : Rows}
    {heir : Option (Uuid × Membership)} (hrows : ws.Current rows)
    (hsub : ∀ e ∈ active, e ∈ rows ∧ e.2.isActive = true)
    (hall : ∀ e ∈ rows, e.2.isActive = true → e ∈ active) (hm : (leaver, m) ∈ rows)
    (h : decideAccountDeletion leaver active = (.leave, heir)) (hadmin : m.isActiveAdmin = true) :
    ∃ e ∈ rows, e.1 ≠ leaver ∧ e.2.isActiveAdmin = true := by
  obtain ⟨hrole, hactive⟩ := isActiveAdmin_iff.mp hadmin
  have hunique : ∀ e ∈ active, e.1 = leaver → e.2.role = .admin := by
    rintro ⟨u, q⟩ he rfl
    have hq := hrows _ (hsub _ he).1
    rw [hrows _ hm] at hq
    cases hq
    exact hrole
  obtain ⟨e, he, hne, hadm⟩ := decideAccountDeletion_leave h (hall _ hm hactive) hunique
  obtain ⟨hmem, hact⟩ := hsub e he
  exact ⟨e, hmem, hne, isActiveAdmin_iff.mpr ⟨hadm, hact⟩⟩

theorem write_hasAdmin (hadmin : ws.HasAdmin) (hrows : ws.Current rows)
    (hselect : ∀ e ∈ rows, call.selects e = true) (hsound : call.Sound)
    (h : call.guard rows = .ok .write) : (call.write rows ws).HasAdmin := by
  have hkept : ∀ target, call.member = some target →
      (∃ u, u ≠ target ∧ ws.isAdmin u = true) → (call.write rows ws).HasAdmin := by
    rintro target hmember ⟨u, hne, hu⟩
    refine ⟨u, isAdmin_write ?_ hu⟩
    rw [hmember]
    exact fun hc => hne (Option.some.inj hc).symm
  have hheir : ∀ heir, call.decision rows = (.handOn, some heir) →
      (∀ leaver got, call.member = some leaver → call.decision rows = got →
        call.write rows ws = deleteAccount ws leaver got) → ∀ leaver, call.member = some leaver →
      (call.write rows ws).HasAdmin := by
    intro heir hdecision hwrite leaver hleaver
    obtain ⟨hmem, hactive, hne, -, -, -⟩ := guard_heir hselect h hdecision
    rw [hleaver, ne_eq, Option.some.injEq] at hne
    refine ⟨heir.1, ?_⟩
    rw [hwrite leaver _ hleaver hdecision]
    refine Workspace.isAdmin_iff.mpr ⟨{ heir.2 with role := .admin }, ?_, ?_⟩
    · rw [deleteAccount, Workspace.get?_endMembership_of_ne _ (Ne.symm hne), get?_handOn,
        hrows _ hmem, Option.map_some]
    · exact isActiveAdmin_iff.mpr ⟨rfl, hactive⟩
  cases call with
  | setMembershipStatus caller target status =>
    refine hkept target rfl ?_
    simp only [guard] at h
    split at h
    · cases h
    · rename_i m hm
      refine other_admin hadmin hrows (targetRow_mem hm) fun hm' => ?_
      obtain ⟨hrole, hactive⟩ := isActiveAdmin_iff.mp hm'
      simp only [check_eq_ok] at h
      obtain ⟨-, -, h⟩ := h
      split at h
      · cases h
      · rename_i hstatus
        simp only [check_eq_ok] at h
        have hsuspended : status = .suspended := by
          obtain hs | hs := hsound
          · rw [hs] at hstatus
            exact absurd (isActive_iff.mp hactive) hstatus
          · exact hs
        by_contra hnone
        refine h.1 ⟨hsuspended, hrole, fun hothers => hnone ?_⟩
        exact otherAdmins_iff.mp hothers
  | removeMember caller target =>
    refine hkept target rfl ?_
    simp only [guard] at h
    split at h
    · cases h
    · rename_i m hm
      refine other_admin hadmin hrows (targetRow_mem hm) fun hm' => ?_
      split at h
      · cases h
      · simp only [check_eq_ok] at h
        by_contra hnone
        exact h.1 ⟨hm', fun hothers => hnone (otherAdmins_iff.mp hothers)⟩
  | setMemberRole caller target role =>
    refine hkept target rfl ?_
    simp only [guard] at h
    split at h
    · cases h
    · rename_i m hm
      refine other_admin hadmin hrows (targetRow_mem hm) fun hm' => ?_
      simp only [check_eq_ok] at h
      obtain ⟨-, -, h⟩ := h
      split at h
      · cases h
      · simp only [check_eq_ok] at h
        by_contra hnone
        exact h.1 ⟨hm', fun hothers => hnone (otherAdmins_iff.mp hothers)⟩
  | deleteMyAccount caller email want heir =>
    obtain ⟨m, hm⟩ := guard_member h rfl
    obtain hdecision | hdecision | ⟨heir', hdecision⟩ := decideAccountDeletion_cases caller rows
    · have hout := guard_asked h rfl
      have hbody : deleteBodyHeir want heir = true := hsound
      simp only [decision, hdecision, outcomeHolds, Bool.and_eq_true, beq_iff_eq] at hout
      rw [← hout.1] at hbody
      cases hbody
    · refine hkept caller rfl (other_admin hadmin hrows (targetRow_mem hm) ?_)
      exact leaver_other hrows (fun e he => ⟨he, hselect e he⟩) (fun e he _ => he)
        (targetRow_mem hm) hdecision
    · refine hheir heir' hdecision ?_ caller rfl
      rintro leaver got ⟨⟩ rfl
      rfl
  | staffDeleteAccount actor target want heir =>
    obtain ⟨m, hm⟩ := guard_member h rfl
    obtain hdecision | hdecision | ⟨heir', hdecision⟩ :=
      decideAccountDeletion_cases target (rows.filter fun e => e.2.isActive)
    · have hout := guard_asked h rfl
      have hbody : deleteBodyHeir want heir = true := hsound
      simp only [decision, hdecision, outcomeHolds, Bool.and_eq_true, beq_iff_eq] at hout
      rw [← hout.1] at hbody
      cases hbody
    · refine hkept target rfl (other_admin hadmin hrows (targetRow_mem hm) ?_)
      exact leaver_other hrows (fun e he => List.mem_filter.mp he)
        (fun e he hact => List.mem_filter.mpr ⟨he, hact⟩) (targetRow_mem hm) hdecision
    · refine hheir heir' hdecision ?_ target rfl
      rintro leaver got ⟨⟩ rfl
      rfl
  | setRoleMembers caller key members => exact hadmin
  | deleteRole caller key => exact hadmin

end Call

/-! ### Runs -/

namespace Task

def Ready (ws : Workspace) : Task → Prop
  | idle => True
  | begun call => call.Sound
  | inTenant call => call.Sound
  | locking call _ locked => call.Sound ∧ ws.Current locked
  | writing call locked _ =>
    call.Sound ∧ ws.Current locked ∧ call.guard (call.selected locked) = .ok .write

end Task

section
variable {ws ws' : Workspace} {t t' u : Task} {a : Act} {call : Call} {locked : Rows}

theorem Workspace.Current.selected (h : ws.Current locked) : ws.Current (call.selected locked) :=
  fun e he => h e (List.mem_filter.mp he).1

theorem selected_selects : ∀ e ∈ call.selected locked, call.selects e = true :=
  fun _ he => (List.mem_filter.mp he).2

theorem judge_write {ws : Workspace} {rows : Rows} {keys : List String}
    (h : call.judge ws rows = .ok (some keys)) :
    call.findRole ws = .ok () ∧ call.guard rows = .ok .write ∧ call.roleKeys ws = .ok keys := by
  simp only [Call.judge, bind_eq_ok] at h
  obtain ⟨_, hfind, verdict, hguard, h⟩ := h
  split at h
  · cases h
  · rename_i hwrite
    simp only [bind_eq_ok, pure_eq_ok, Option.some.injEq] at h
    obtain ⟨keys', hkeys, rfl⟩ := h
    have hverdict : verdict = .write := by
      cases verdict with
      | unchanged => exact absurd rfl hwrite
      | write => rfl
    rw [hverdict] at hguard
    exact ⟨hfind, hguard, hkeys⟩

theorem move_members (h : Move ws t a ws' t') : ws'.members = ws.members ∨
    ∃ call locked, t = .writing call locked [] ∧ a = .commit ∧
      ws' = call.write (call.selected locked) ws := by
  cases h with
  | commit => exact .inr ⟨_, _, rfl, rfl, rfl⟩
  | _ => exact .inl rfl

theorem get?_of_apart (hready : t.Ready ws) (h : Move ws t a ws' t') {locked' : Rows}
    (hlocked : ∀ e ∈ locked', .row e.1 call.shared ∈ u.holds)
    (hapart : protocol.Apart (t.holds ++ t.needs a) u.holds) {e : Uuid × Membership}
    (he : e ∈ locked') : ws'.members.get? e.1 = ws.members.get? e.1 := by
  obtain hsame | ⟨call', locked, rfl, rfl, rfl⟩ := move_members h
  · rw [hsame]
  · obtain ⟨-, -, hguard⟩ := hready
    refine Call.get?_write_of_not_row selected_selects hguard fun m hm => ?_
    have hheld : Lock.row e.1 call'.shared ∈ (Task.writing call' locked []).holds :=
      mem_held.mpr (.inr ⟨_, (List.mem_filter.mp hm).1, rfl⟩)
    have hconflict := hapart _ (List.mem_append_left _ hheld) _ (hlocked e he)
    by_contra hexclusive
    simp [protocol, Lock.conflicts, Bool.eq_false_iff.mpr hexclusive] at hconflict

theorem Task.Ready.own (hready : t.Ready ws) (h : Move ws t a ws' t') : t'.Ready ws' := by
  cases h with
  | begin hprecheck => exact Call.precheck_sound hprecheck
  | decide => trivial
  | cancelRun => trivial
  | lockTenant => exact hready
  | select ht =>
    obtain ⟨rfl, -⟩ | rfl := ht
    · exact ⟨hready, fun e he => nomatch he⟩
    · exact ⟨hready, fun e he => nomatch he⟩
  | lockRow =>
    refine ⟨hready.1, fun e he => ?_⟩
    obtain he | he := List.mem_append.mp he
    · exact hready.2 e he
    · obtain ⟨hu, hget⟩ := mem_lockedRow.mp he
      rw [hu]
      exact hget
  | refused => trivial
  | judged hjudge => exact ⟨hready.1, hready.2, (judge_write hjudge).2.1⟩
  | unsigned => trivial
  | signed => exact hready
  | commit => trivial
  | abort => trivial

theorem Task.Ready.other (hready : t.Ready ws) (h : Move ws t a ws' t') (hu : u.Ready ws)
    (hapart : protocol.Apart (t.holds ++ t.needs a) u.holds) : u.Ready ws' := by
  cases u with
  | idle => trivial
  | begun call => exact hu
  | inTenant call => exact hu
  | locking call todo locked =>
    have hheld : ∀ e ∈ locked, Lock.row e.1 call.shared ∈ Task.held call locked :=
      fun e he => mem_held.mpr (.inr ⟨e, he, rfl⟩)
    exact ⟨hu.1, fun e he => (get?_of_apart hready h hheld hapart he).trans (hu.2 e he)⟩
  | writing call locked keys =>
    have hheld : ∀ e ∈ locked, Lock.row e.1 call.shared ∈ Task.held call locked :=
      fun e he => mem_held.mpr (.inr ⟨e, he, rfl⟩)
    exact ⟨hu.1, fun e he => (get?_of_apart hready h hheld hapart he).trans (hu.2.1 e he), hu.2.2⟩

theorem move_hasAdmin (hadmin : ws.HasAdmin) (hready : t.Ready ws) (h : Move ws t a ws' t') :
    ws'.HasAdmin := by
  obtain hsame | ⟨call, locked, rfl, rfl, rfl⟩ := move_members h
  · unfold Workspace.HasAdmin Workspace.isAdmin
    rw [hsame]
    exact hadmin
  · obtain ⟨hsound, hrows, hguard⟩ := hready
    exact Call.write_hasAdmin hadmin hrows.selected selected_selects hsound hguard

end

theorem admin_outline : protocol.Outline (fun _ _ _ => True) (fun _ _ _ _ => True)
    Workspace.HasAdmin Task.Ready (fun _ _ => True) where
  store hadmin hready _ h := move_hasAdmin hadmin hready (next_move h)
  own _ hready _ h := hready.own (next_move h)
  other _ hready _ h hu _ _ hapart := hready.other (next_move h) hu hapart
  pair _ _ _ _ _ _ _ _ := ⟨trivial, trivial⟩

theorem holds_along {ws : Workspace} {steps : List (ℕ × Act)} {w : World Workspace Task}
    (hadmin : ws.HasAdmin) (hrun : runFrom protocol.step { store := ws } steps = some w) :
    protocol.Holds Workspace.HasAdmin Task.Ready (fun _ _ => True) w :=
  (Protocol.Holds.start hadmin trivial trivial).run admin_outline
    (along_of_forall (fun _ _ => ⟨trivial, trivial, fun _ _ _ => trivial⟩) _ _) hrun

/-- In a workspace that starts with an active admin, after any interleaving of the calls one is
left. A step that is no commit leaves every member row alone, so a refused call does. A member
whom the commit of an account deletion makes admin is the heir it was previewed with: active,
not the leaver, and earliest joined among the other active members under the call's locks, whose
rows are those of the table. -/
theorem workspace_keeps_admin {ws : Workspace} {steps : List (ℕ × Act)}
    {w : World Workspace Task} (hadmin : ws.HasAdmin)
    (hrun : runFrom protocol.step { store := ws } steps = some w) :
    (∃ u, w.store.isAdmin u = true) ∧
    ∀ n a w', protocol.step w (n, a) = some w' →
      (∃ u, w'.store.isAdmin u = true) ∧
      (a ≠ .commit → w'.store.members = w.store.members) ∧
      ∀ call locked leaver want named u m m', a = .commit →
        protocol.task w n = .writing call locked [] → call.member = some leaver →
        call.asked = some (want, named) → w.store.members.get? u = some m →
        w'.store.members.get? u = some m' → m.role ≠ .admin → m'.role = .admin →
        want = .handOn ∧ named = some u ∧ m.isActive = true ∧ u ≠ leaver ∧ (u, m) ∈ locked ∧
          w.store.Current locked ∧
          ∀ e ∈ locked, e.2.isActive = true → e.1 ≠ leaver → earlier e (u, m) = false := by
  have hholds := holds_along hadmin hrun
  refine ⟨hholds.store, fun n a w' hstep => ?_⟩
  obtain ⟨-, ws', t', hnext, rfl⟩ := Protocol.step_eq_some.mp hstep
  have hmove := next_move hnext
  have hready := hholds.each n
  refine ⟨move_hasAdmin hholds.store hready hmove, ?_, ?_⟩
  · intro hcommit
    obtain hsame | ⟨-, -, -, ha, -⟩ := move_members hmove
    · exact hsame
    · exact absurd ha hcommit
  · rintro call locked leaver want named u m m' rfl htask hleaver hasked hm hm' hrole hrole'
    rw [htask] at hready hmove
    obtain ⟨-, hrows, hguard⟩ := hready
    cases hmove
    obtain ⟨heir, hheir, rfl⟩ := Call.promoted hasked hm hm' hrole hrole'
    obtain ⟨hmem, hactive, hne, hasked', -, hearliest⟩ :=
      Call.guard_heir selected_selects hguard hheir
    have hlocked := (List.mem_filter.mp hmem).1
    have hrow := hrows heir hlocked
    rw [hm] at hrow
    cases hrow
    rw [hasked] at hasked'
    cases hasked'
    rw [hleaver, ne_eq, Option.some.injEq] at hne
    refine ⟨rfl, rfl, hactive, Ne.symm hne, hlocked, hrows, fun e he hact hel => ?_⟩
    refine hearliest e (List.mem_filter.mpr ⟨he, Call.selects_of_asked hasked hact⟩) hact ?_
    rw [hleaver, ne_eq, Option.some.injEq]
    exact Ne.symm hel

def sampleMembers : Table Uuid Membership :=
  ((Table.set ∅ 1 { role := .admin, createdAt := 1, email := some "a@b" }).set 2
    { role := .preparer, createdAt := 2 }).set 3 { role := .preparer, createdAt := 3 }

def sampleTeam : Workspace where
  db := { directory := { isFirm := true, members := [], roles := [] } }
  members := sampleMembers

def handOnSteps : List (ℕ × Act) :=
  (0, .begin (.deleteMyAccount 1 "" .handOn (some 2))) ::
    [.select, .lockRow, .lockRow, .lockRow, .judge].map fun a => (0, a)

theorem workspace_keeps_admin_sample :
    ∃ w w', runFrom protocol.step { store := sampleTeam } handOnSteps = some w ∧
      protocol.step w (0, .commit) = some w' ∧ w'.store.isAdmin 1 = false ∧
      ∃ u, w'.store.isAdmin u = true := by
  have htest : (runFrom protocol.step { store := sampleTeam } handOnSteps).any (fun w =>
      (protocol.step w (0, .commit)).any fun w' => !w'.store.isAdmin 1) = true := by
    decide +kernel
  obtain ⟨w, hrun, hw⟩ := (Option.any_eq_true _ _).mp htest
  obtain ⟨w', hstep, hw'⟩ := (Option.any_eq_true _ _).mp hw
  have hadmin : sampleTeam.HasAdmin := ⟨1, by decide +kernel⟩
  exact ⟨w, w', hrun, hstep, by simpa using hw',
    ((workspace_keeps_admin hadmin hrun).2 0 .commit w' hstep).1⟩

end InvoiceOs.Tenancy
