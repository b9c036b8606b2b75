import InvoiceOs.Lib.Framing
import InvoiceOs.Invitations.Mails

/-! The daily cap on counted mails, the one pending invite of an address, and what a recorded
delivery can touch, in every interleaving. -/

namespace InvoiceOs.Invitations

open Lib Approval Tenancy

/-! ### What is claimed of a state -/

def sendsIn (mails : List MailRow) (lo : ℕ) : ℕ :=
  mails.countP fun r => decide (lo ≤ r.createdAt ∧ r.createdAt < lo + day) && r.isCounted

def OnePending (invitations : Table Uuid Invitation) : Prop :=
  ∀ i j r q, invitations.get? i = some r → invitations.get? j = some q →
    r.status = .pending → q.status = .pending → r.email = q.email → i = j

def latest (id : Uuid) : List Entry → Option SendStatus
  | [] => none
  | .issued inv _ :: js => if inv.id = id then some .sending else latest id js
  | .recorded i sent :: js =>
    if i = id then some (if sent then .sent else .failed) else latest id js

def lastIssued (id : Uuid) : List Entry → Option IssuedInvite
  | [] => none
  | .issued inv _ :: js => if inv.id = id then some inv else lastIssued id js
  | .recorded _ _ :: js => lastIssued id js

def issuedHashes (js : List Entry) : List String :=
  js.filterMap fun
    | .issued inv _ => some inv.tokenHash
    | .recorded _ _ => none

/-- An uncounted issue follows a delivery that failed. -/
def UncountedAfterFailure : List Entry → Prop
  | [] => True
  | .issued inv counted :: js =>
    (counted = false → latest inv.id js = some .failed) ∧ UncountedAfterFailure js
  | .recorded _ _ :: js => UncountedAfterFailure js

/-! ### Invariants -/

section
variable (mint : ℕ → String × String)

structure Tracked (σ : Store) : Prop where
  onePending : OnePending σ.invitations
  status : ∀ id r, σ.invitations.get? id = some r → latest id σ.journal = some r.sendStatus ∧
    (lastIssued id σ.journal).map IssuedInvite.tokenHash = some r.tokenHash
  nodup : (issuedHashes σ.journal).Nodup
  minted : ∀ h ∈ issuedHashes σ.journal, ∃ n < σ.minted, (mint n).2 = h
  uncounted : UncountedAfterFailure σ.journal

structure Sound (σ : Store) : Prop where
  tracked : Tracked mint σ
  capped : ∀ lo, sendsIn σ.mails lo ≤ maxInviteMailsPerDay

end

def Room (mails : List MailRow) (now k : ℕ) : Prop :=
  countInviteMails mails now + k ≤ maxInviteMailsPerDay

def Target (invitations : Table Uuid Invitation) (id : Uuid) (email : String) : Prop :=
  (∃ r, invitations.get? id = some r ∧ r.status = .pending ∧ r.email = email) ∨
    invitations.get? id = none ∧
      ∀ i r, invitations.get? i = some r → r.status = .pending → r.email ≠ email

def OneRow (done : List (Uuid × String)) : Prop :=
  ∀ e ∈ done, ∀ f ∈ done, e.2 = f.2 ↔ e.1 = f.1

def Knows (σ : Store) : Task → Prop
  | .counted q now _ => Room σ.mails now q.emails.length
  | .upserting q now _ _ todo done => Room σ.mails now q.emails.length ∧
    done.length + todo.length = q.emails.length ∧
    (∀ e ∈ done, Target σ.invitations e.1 e.2) ∧ OneRow done
  | .found q _ inv => σ.invitations.get? q.id = some inv ∧ inv.status = .pending
  | .resending q now inv counted => σ.invitations.get? q.id = some inv ∧ inv.status = .pending ∧
    (counted = false → inv.sendStatus = .failed) ∧ (counted = true → Room σ.mails now 1)
  | _ => True

/-! ### The cap -/

theorem capped_append {mails new : List MailRow} {now k : ℕ}
    (hcapped : ∀ lo, sendsIn mails lo ≤ maxInviteMailsPerDay)
    (hnow : ∀ r ∈ new, r.createdAt = now) (hlen : new.countP MailRow.isCounted ≤ k)
    (hroom : new.countP MailRow.isCounted ≠ 0 → Room mails now k) :
    ∀ lo, sendsIn (new ++ mails) lo ≤ maxInviteMailsPerDay := by
  intro lo
  have hsplit : sendsIn (new ++ mails) lo = sendsIn new lo + sendsIn mails lo := List.countP_append
  have hnew : sendsIn new lo ≤ new.countP MailRow.isCounted := by
    refine List.countP_mono_left fun r _ hr => ?_
    exact (Bool.and_eq_true _ _ ▸ hr).2
  by_cases hin : lo ≤ now ∧ now < lo + day
  · by_cases hzero : new.countP MailRow.isCounted = 0
    · have hrest := hcapped lo
      omega
    · have hwindow : sendsIn mails lo ≤ countInviteMails mails now := by
        refine List.countP_mono_left fun r _ hr => ?_
        simp only [Bool.and_eq_true, decide_eq_true_eq] at hr ⊢
        exact ⟨by omega, hr.2⟩
      have := hroom hzero
      unfold Room at this
      omega
  · have hnone : sendsIn new lo = 0 := by
      refine List.countP_eq_zero.mpr fun r hr hcount => ?_
      simp only [Bool.and_eq_true, decide_eq_true_eq, hnow r hr] at hcount
      exact hin hcount.1
    have hrest := hcapped lo
    omega

/-! ### One issue -/

section
variable {mint : ℕ → String × String} {σ : Store}

theorem issuedHashes_issue {id : Uuid} {inv : Invitation} {workspace inviter : String}
    {mail : MailRow} : issuedHashes (σ.issue mint id inv workspace inviter mail).journal =
      (mint σ.minted).2 :: issuedHashes σ.journal := rfl

theorem Tracked.issue (hmint : Function.Injective fun n => (mint n).2) (h : Tracked mint σ)
    {id : Uuid} {inv : Invitation} {workspace inviter : String} {mail : MailRow}
    (htarget : Target σ.invitations id inv.email)
    (hmail : mail.isCounted = false → latest id σ.journal = some .failed) :
    Tracked mint (σ.issue mint id inv workspace inviter mail) := by
  have hget : ∀ i, (σ.issue mint id inv workspace inviter mail).invitations.get? i =
      if i = id then some { inv with tokenHash := (mint σ.minted).2, sendStatus := .sending }
      else σ.invitations.get? i := fun i => Table.get?_set _ _ _ _
  -- another pending row of the address would be the target itself
  have hother : ∀ i r, i ≠ id → σ.invitations.get? i = some r → r.status = .pending →
      r.email ≠ inv.email := by
    intro i r hne hr hs hemail
    obtain ⟨q, hq, hqs, hqe⟩ | ⟨-, hnone⟩ := htarget
    · exact hne (h.onePending i id r q hr hq hs hqs (hemail.trans hqe.symm))
    · exact hnone i r hr hs hemail
  refine ⟨?_, ?_, ?_, ?_, hmail, h.uncounted⟩
  · intro i j r q hi hj hrs hqs hemail
    rw [hget] at hi hj
    by_cases hiid : i = id
    · by_cases hjid : j = id
      · rw [hiid, hjid]
      · rw [if_pos hiid] at hi
        rw [if_neg hjid] at hj
        obtain rfl := Option.some.inj hi
        exact absurd hemail.symm (hother j q hjid hj hqs)
    · rw [if_neg hiid] at hi
      by_cases hjid : j = id
      · rw [if_pos hjid] at hj
        obtain rfl := Option.some.inj hj
        exact absurd hemail (hother i r hiid hi hrs)
      · rw [if_neg hjid] at hj
        exact h.onePending i j r q hi hj hrs hqs hemail
  · intro i r hi
    rw [hget] at hi
    by_cases hiid : i = id
    · rw [if_pos hiid] at hi
      obtain rfl := Option.some.inj hi
      subst hiid
      simp only [Store.issue, latest, lastIssued, if_pos, Option.map_some, and_self]
    · rw [if_neg hiid] at hi
      have hne : id ≠ i := Ne.symm hiid
      simp only [Store.issue, latest, lastIssued, if_neg hne]
      exact h.status i r hi
  · rw [issuedHashes_issue, List.nodup_cons]
    refine ⟨fun hmem => ?_, h.nodup⟩
    obtain ⟨n, hn, hsame⟩ := h.minted _ hmem
    exact absurd (hmint hsame) hn.ne
  · intro hash hmem
    rw [issuedHashes_issue] at hmem
    obtain rfl | hmem := List.mem_cons.mp hmem
    · exact ⟨σ.minted, Nat.lt_succ_self _, rfl⟩
    · obtain ⟨n, hn, hsame⟩ := h.minted hash hmem
      exact ⟨n, Nat.lt_succ_of_lt hn, hsame⟩

theorem Target.issue {id : Uuid} {inv : Invitation} {workspace inviter : String} {mail : MailRow}
    (hpending : inv.status = .pending) {e : Uuid × String}
    (hrow : e.2 = inv.email ↔ e.1 = id) (h : Target σ.invitations e.1 e.2) :
    Target (σ.issue mint id inv workspace inviter mail).invitations e.1 e.2 := by
  have hget : ∀ i, (σ.issue mint id inv workspace inviter mail).invitations.get? i =
      if i = id then some { inv with tokenHash := (mint σ.minted).2, sendStatus := .sending }
      else σ.invitations.get? i := fun i => Table.get?_set _ _ _ _
  by_cases hid : e.1 = id
  · refine .inl ⟨_, (hget e.1).trans (if_pos hid), hpending, ?_⟩
    exact (hrow.mpr hid).symm
  · obtain ⟨r, hr, hs, he⟩ | ⟨hnone, hno⟩ := h
    · exact .inl ⟨r, (hget e.1).trans ((if_neg hid).trans hr), hs, he⟩
    · refine .inr ⟨(hget e.1).trans ((if_neg hid).trans hnone), fun i r hi hs => ?_⟩
      rw [hget] at hi
      by_cases hiid : i = id
      · rw [if_pos hiid] at hi
        obtain rfl := Option.some.inj hi
        exact fun hemail => hid (hrow.mp hemail.symm)
      · rw [if_neg hiid] at hi
        exact hno i r hi hs

/-! ### The writes -/

variable {q : Create} {now : ℕ} {inviter workspace : String}

theorem Tracked.batch (hmint : Function.Injective fun n => (mint n).2)
    (done : List (Uuid × String)) (h : Tracked mint σ)
    (htargets : ∀ e ∈ done, Target σ.invitations e.1 e.2) (hrows : OneRow done) :
    Tracked mint (done.foldl (issueCreated mint q now inviter workspace) σ) := by
  induction done generalizing σ with
  | nil => exact h
  | cons e done ih =>
    have hissue : Tracked mint (issueCreated mint q now inviter workspace σ e) :=
      h.issue hmint (htargets e List.mem_cons_self) fun hcounted => by cases hcounted
    refine ih hissue (fun f hf => ?_) fun f hf g hg =>
      hrows f (List.mem_cons_of_mem e hf) g (List.mem_cons_of_mem e hg)
    have hrow := hrows f (List.mem_cons_of_mem e hf) e List.mem_cons_self
    have hpending : (q.invitation now e.2).status = .pending := rfl
    exact Target.issue hpending hrow (htargets f (List.mem_cons_of_mem e hf))

def createdMail (q : Create) (now : ℕ) (e : Uuid × String) : MailRow :=
  { event := .sent, createdAt := now, actor := q.caller, invitationID := e.1, role := q.role }

theorem batch_mails (done : List (Uuid × String)) (σ : Store) :
    (done.foldl (issueCreated mint q now inviter workspace) σ).mails =
      (done.map (createdMail q now)).reverse ++ σ.mails := by
  induction done generalizing σ with
  | nil => rfl
  | cons e done ih =>
    rw [List.foldl_cons, ih, List.map_cons, List.reverse_cons, List.append_assoc]
    rfl

theorem Sound.batch (hmint : Function.Injective fun n => (mint n).2) {done : List (Uuid × String)}
    (h : Sound mint σ) (hroom : Room σ.mails now done.length)
    (htargets : ∀ e ∈ done, Target σ.invitations e.1 e.2) (hrows : OneRow done) :
    Sound mint (done.foldl (issueCreated mint q now inviter workspace) σ) := by
  refine ⟨h.tracked.batch hmint done htargets hrows, ?_⟩
  rw [batch_mails]
  refine capped_append h.capped (fun r hr => ?_) ?_ fun _ => hroom
  · obtain ⟨e, -, rfl⟩ := List.mem_map.mp (List.mem_reverse.mp hr)
    rfl
  · calc ((done.map (createdMail q now)).reverse).countP MailRow.isCounted
        ≤ ((done.map (createdMail q now)).reverse).length := List.countP_le_length
      _ = done.length := by rw [List.length_reverse, List.length_map]

def resentMail (q : Resend) (now : ℕ) (inv : Invitation) (counted : Bool) : MailRow :=
  { event := .resent, createdAt := now, actor := q.caller, invitationID := q.id
    role := inv.role, counted := some counted }

theorem Sound.again (hmint : Function.Injective fun n => (mint n).2) (h : Sound mint σ) {q : Resend}
    {inv : Invitation} {counted : Bool} (hinv : σ.invitations.get? q.id = some inv)
    (hpending : inv.status = .pending) (hfailed : counted = false → inv.sendStatus = .failed)
    (hroom : counted = true → Room σ.mails now 1) :
    Sound mint (issueAgain mint q now inv counted σ) := by
  constructor
  · refine h.tracked.issue hmint (.inl ⟨inv, hinv, hpending, rfl⟩) fun hcounted => ?_
    rw [(h.tracked.status q.id inv hinv).1, hfailed hcounted]
  · have hmails : (issueAgain mint q now inv counted σ).mails =
        [resentMail q now inv counted] ++ σ.mails := rfl
    rw [hmails]
    refine @capped_append _ _ now 1 h.capped (fun r hr => ?_) ?_ fun hcount => ?_
    · obtain rfl := List.mem_singleton.mp hr
      rfl
    · exact List.countP_le_length
    · refine hroom ?_
      by_contra hfalse
      refine hcount (List.countP_eq_zero.mpr fun r hr hcounted => hfalse ?_)
      obtain rfl := List.mem_singleton.mp hr
      exact hcounted

theorem recordInviteDelivery_cases (σ : Store) (id : Uuid) (tokenHash : String) (sent : Bool) :
    recordInviteDelivery σ id tokenHash sent = σ ∨
      ∃ r, σ.invitations.get? id = some r ∧ r.tokenHash = tokenHash ∧
        recordInviteDelivery σ id tokenHash sent = { σ with
          invitations := σ.invitations.set id
            { r with sendStatus := if sent then .sent else .failed }
          journal := .recorded id sent :: σ.journal } := by
  unfold recordInviteDelivery
  split
  · exact .inl rfl
  · rename_i r hr
    split
    · rename_i hhash
      exact .inr ⟨r, hr, hhash, rfl⟩
    · exact .inl rfl

theorem OnePending.set {invitations : Table Uuid Invitation} (h : OnePending invitations)
    {id : Uuid} {r r' : Invitation} (hr : invitations.get? id = some r) (hemail : r'.email = r.email)
    (hstatus : r'.status = .pending → r.status = .pending) :
    OnePending (invitations.set id r') := by
  have hback : ∀ i q, (invitations.set id r').get? i = some q → q.status = .pending →
      ∃ q', invitations.get? i = some q' ∧ q'.status = .pending ∧ q'.email = q.email := by
    intro i q hi hs
    rw [Table.get?_set] at hi
    split at hi
    · rename_i hid
      obtain rfl := Option.some.inj hi
      exact ⟨r, hid ▸ hr, hstatus hs, hemail.symm⟩
    · exact ⟨q, hi, hs, rfl⟩
  intro i j r₁ r₂ hi hj hs₁ hs₂ hsame
  obtain ⟨q₁, hq₁, ht₁, he₁⟩ := hback i r₁ hi hs₁
  obtain ⟨q₂, hq₂, ht₂, he₂⟩ := hback j r₂ hj hs₂
  exact h i j q₁ q₂ hq₁ hq₂ ht₁ ht₂ (he₁.trans (hsame.trans he₂.symm))

theorem Sound.record (h : Sound mint σ) (id : Uuid) (tokenHash : String) (sent : Bool) :
    Sound mint (recordInviteDelivery σ id tokenHash sent) := by
  obtain hsame | ⟨r, hr, -, hnew⟩ := recordInviteDelivery_cases σ id tokenHash sent
  · rw [hsame]
    exact h
  · rw [hnew]
    refine ⟨⟨h.tracked.onePending.set hr rfl fun hs => hs, fun i q hi => ?_, h.tracked.nodup,
      h.tracked.minted, h.tracked.uncounted⟩, h.capped⟩
    dsimp only at hi ⊢
    rw [Table.get?_set] at hi
    split at hi
    · rename_i hid
      obtain rfl := Option.some.inj hi
      subst hid
      refine ⟨if_pos rfl, ?_⟩
      exact (h.tracked.status i r hr).2
    · rename_i hid
      rw [latest, if_neg (Ne.symm hid)]
      exact h.tracked.status i q hi

theorem close_spec {id : Uuid} {status : InviteStatus} {σ' : Store} (h : close σ id status = .ok σ') :
    ∃ r, σ.invitations.get? id = some r ∧ r.status = .pending ∧
      σ' = { σ with invitations := σ.invitations.set id { r with status := status } } := by
  unfold close at h
  split at h
  · cases h
  · rename_i r hr
    obtain ⟨hs, h⟩ := check_eq_ok.mp h
    cases h
    exact ⟨r, hr, not_not.mp hs, rfl⟩

theorem Sound.close (h : Sound mint σ) {id : Uuid} {status : InviteStatus} {σ' : Store}
    (hclose : Invitations.close σ id status = .ok σ') : Sound mint σ' := by
  obtain ⟨r, hr, hs, rfl⟩ := close_spec hclose
  refine ⟨⟨h.tracked.onePending.set hr rfl fun _ => hs, fun i q hi => ?_, h.tracked.nodup,
    h.tracked.minted, h.tracked.uncounted⟩, h.capped⟩
  dsimp only at hi
  rw [Table.get?_set] at hi
  split at hi
  · rename_i hid
    obtain rfl := Option.some.inj hi
    exact h.tracked.status i r (hid ▸ hr)
  · exact h.tracked.status i q hi

variable {σ' : Store} {t t' u : Task} {a : Act}

theorem Sound.writes (hmint : Function.Injective fun n => (mint n).2) (h : Sound mint σ)
    (hknows : Knows σ t) (hwrites : Writes mint σ t a σ') : Sound mint σ' := by
  cases hwrites with
  | record => exact h.record _ _ _
  | closed _ _ hclose => exact h.close hclose
  | office => exact ⟨⟨h.tracked.onePending, h.tracked.status, h.tracked.nodup, h.tracked.minted,
      h.tracked.uncounted⟩, h.capped⟩
  | created =>
    obtain ⟨hroom, hlength, htargets, hrows⟩ := hknows
    rw [List.length_nil, Nat.add_zero] at hlength
    rw [← hlength] at hroom
    exact h.batch hmint hroom htargets hrows
  | resent =>
    obtain ⟨hinv, hpending, hfailed, hroom⟩ := hknows
    exact h.again hmint hinv hpending hfailed hroom

/-! ### What a transaction knows -/

theorem pendingFor_some {invitations : Table Uuid Invitation} {email : String} {id : Uuid}
    (h : pendingFor invitations email = some id) :
    ∃ r, invitations.get? id = some r ∧ r.status = .pending ∧ r.email = email := by
  obtain ⟨e, he, rfl⟩ := Option.map_eq_some_iff.mp h
  have hmem := List.mem_of_find?_eq_some he
  have htest := List.find?_some he
  simp only [Bool.and_eq_true, beq_iff_eq] at htest
  exact ⟨e.2, Table.mem_rows.mp hmem, htest.1, htest.2⟩

theorem pendingFor_none {invitations : Table Uuid Invitation} {email : String}
    (h : pendingFor invitations email = none) {i : Uuid} {r : Invitation}
    (hr : invitations.get? i = some r) (hs : r.status = .pending) : r.email ≠ email := by
  intro hemail
  have hnone := List.find?_eq_none.mp (Option.map_eq_none_iff.mp h) (i, r) (Table.mem_rows.mpr hr)
  simp [hs, hemail] at hnone

theorem upsert_target {q : Create} {done done' : List (Uuid × String)} {email : String}
    {newID : Uuid} (h : upsert σ q done email newID = .ok done')
    (htargets : ∀ e ∈ done, Target σ.invitations e.1 e.2) (hrows : OneRow done) :
    (∀ e ∈ done', Target σ.invitations e.1 e.2) ∧ OneRow done' := by
  obtain ⟨rfl, hfresh⟩ := upsert_spec h
  have htarget : Target σ.invitations (upsertTarget σ done email newID) email ∧
      ∀ e ∈ done, e.2 = email ↔ e.1 = upsertTarget σ done email newID := by
    unfold upsertTarget
    split
    · rename_i e he
      have hmem := List.mem_of_find?_eq_some he
      have hemail : e.2 = email := by simpa using List.find?_some he
      exact ⟨hemail ▸ htargets e hmem, fun f hf => hemail ▸ hrows f hf e hmem⟩
    · rename_i hnone
      have hnew : ∀ e ∈ done, e.2 ≠ email := by
        intro e he hemail
        have htest := List.find?_eq_none.mp hnone e he
        simp [hemail] at htest
      cases hpending : pendingFor σ.invitations email with
      | some id =>
        rw [Option.getD_some]
        obtain ⟨r, hr, hs, hemail⟩ := pendingFor_some hpending
        refine ⟨.inl ⟨r, hr, hs, hemail⟩, fun e he => ⟨fun h => absurd h (hnew e he), fun hid => ?_⟩⟩
        obtain ⟨r', hr', -, hemail'⟩ | ⟨hno, -⟩ := htargets e he
        · rw [hid, hr] at hr'
          obtain rfl := Option.some.inj hr'
          exact hemail'.symm.trans hemail
        · rw [hid, hr] at hno
          cases hno
      | none =>
        rw [Option.getD_none]
        obtain ⟨hno, hids⟩ := hfresh hnew hpending
        exact ⟨.inr ⟨hno, fun i r hr hs => pendingFor_none hpending hr hs⟩,
          fun e he => ⟨fun h => absurd h (hnew e he), fun hid => absurd hid (hids e he)⟩⟩
  obtain ⟨htarget, hrow⟩ := htarget
  constructor
  · intro e he
    obtain he | he := List.mem_append.mp he
    · exact htargets e he
    · obtain rfl := List.mem_singleton.mp he
      exact htarget
  · intro e he f hf
    obtain he | he := List.mem_append.mp he
    · obtain hf | hf := List.mem_append.mp hf
      · exact hrows e he f hf
      · obtain rfl := List.mem_singleton.mp hf
        exact hrow e he
    · obtain rfl := List.mem_singleton.mp he
      obtain hf | hf := List.mem_append.mp hf
      · exact eq_comm.trans ((hrow f hf).trans eq_comm)
      · obtain rfl := List.mem_singleton.mp hf
        exact iff_of_true rfl rfl

theorem checkCount_eq_ok {k : ℕ} : checkCount σ now k = .ok () ↔ Room σ.mails now k := by
  unfold checkCount Room
  rw [check_eq_ok, not_lt]
  exact and_iff_left rfl

theorem Knows.reads (h : Knows σ t) (hreads : Reads σ t a t') : Knows σ t' := by
  cases hreads with
  | begun => trivial
  | held => trivial
  | counted hcount => exact checkCount_eq_ok.mp hcount
  | tenant => exact ⟨h, Nat.zero_add _, (by rintro _ ⟨⟩), (by rintro _ ⟨⟩)⟩
  | upserted hupsert =>
    obtain ⟨hroom, hlength, htargets, hrows⟩ := h
    obtain ⟨htargets', hrows'⟩ := upsert_target hupsert htargets hrows
    obtain ⟨rfl, -⟩ := upsert_spec hupsert
    refine ⟨hroom, ?_, htargets', hrows'⟩
    rw [List.length_append, List.length_singleton, ← hlength, List.length_cons]
    omega
  | found hfound =>
    unfold findInvite at hfound
    split at hfound
    · cases hfound
    · rename_i inv hinv
      obtain ⟨hs, hfound⟩ := check_eq_ok.mp hfound
      cases hfound
      exact ⟨hinv, not_not.mp hs⟩
  | checked hchecked =>
    unfold checkResend at hchecked
    split at hchecked
    · obtain ⟨_, hcount, hchecked⟩ := bind_eq_ok.mp hchecked
      cases hchecked
      exact ⟨h.1, h.2, (by rintro ⟨⟩), fun _ => checkCount_eq_ok.mp hcount⟩
    · rename_i hfailed
      cases hchecked
      exact ⟨h.1, h.2, fun _ => not_not.mp hfailed, by rintro ⟨⟩⟩
  | ended => trivial

/-! ### What the others leave -/

theorem Knows.frame (h : Knows σ u) (hmails : σ'.mails = σ.mails)
    (hkeep : ∀ id, .row id ∈ u.holds → σ'.invitations.get? id = σ.invitations.get? id)
    (hpending : ∀ i r', σ'.invitations.get? i = some r' → r'.status = .pending →
      ∃ r, σ.invitations.get? i = some r ∧ r.status = .pending ∧ r.email = r'.email) :
    Knows σ' u := by
  cases u with
  | counted q now inviter =>
    unfold Knows
    rw [hmails]
    exact h
  | upserting q now inviter workspace todo done =>
    obtain ⟨hroom, hlength, htargets, hrows⟩ := h
    refine ⟨hmails ▸ hroom, hlength, fun e he => ?_, hrows⟩
    have hrow := hkeep e.1 (List.mem_cons_of_mem _ (List.mem_map.mpr ⟨e, he, rfl⟩))
    obtain ⟨r, hr, hs, hemail⟩ | ⟨hnone, hno⟩ := htargets e he
    · exact .inl ⟨r, hrow.trans hr, hs, hemail⟩
    · refine .inr ⟨hrow.trans hnone, fun i r' hi hs => ?_⟩
      obtain ⟨r, hr, hs, hemail⟩ := hpending i r' hi hs
      exact hemail ▸ hno i r hr hs
  | found q now inv =>
    have hrow := hkeep q.id (List.mem_cons_of_mem _ List.mem_cons_self)
    exact ⟨hrow.trans h.1, h.2⟩
  | resending q now inv counted =>
    have hrow := hkeep q.id (List.mem_cons_of_mem _ List.mem_cons_self)
    exact ⟨hrow.trans h.1, h.2.1, h.2.2.1, fun hc => hmails ▸ h.2.2.2 hc⟩
  | _ => trivial

theorem Knows.set (h : Knows σ u) {id : Uuid} {r r' : Invitation}
    (hlock : .row id ∉ u.holds) (hr : σ.invitations.get? id = some r) (hemail : r'.email = r.email)
    (hstatus : r'.status = .pending → r.status = .pending) {journal : List Entry} :
    Knows { σ with invitations := σ.invitations.set id r', journal := journal } u := by
  refine h.frame rfl (fun i hi => Table.get?_set_of_ne _ _ ?_) fun i q hi hs => ?_
  · rintro rfl
    exact hlock hi
  · dsimp only at hi
    rw [Table.get?_set] at hi
    split at hi
    · rename_i hid
      obtain rfl := Option.some.inj hi
      exact ⟨r, hid ▸ hr, hstatus hs, hemail.symm⟩
    · exact ⟨q, hi, hs, rfl⟩

theorem not_held {l : Lock} (hapart : (protocol mint).Apart (t.holds ++ needs σ t a) u.holds)
    (hl : l ∈ t.holds ++ needs σ t a) : l ∉ u.holds := by
  intro hu
  have hconflict : Lock.conflicts l l = true := beq_self_eq_true l
  exact Bool.false_ne_true ((hapart l hl l hu).symm.trans hconflict)

theorem knows_without_lock (h : .sends ∉ u.holds) : Knows σ u := by
  cases u with
  | counted => exact absurd List.mem_cons_self h
  | upserting => exact absurd List.mem_cons_self h
  | found => exact absurd List.mem_cons_self h
  | resending => exact absurd List.mem_cons_self h
  | _ => trivial

theorem Knows.others (hu : Knows σ u) (hwrites : Writes mint σ t a σ')
    (hapart : (protocol mint).Apart (t.holds ++ needs σ t a) u.holds) : Knows σ' u := by
  cases hwrites with
  | @record id tokenHash sent =>
    have hlock : .row id ∉ u.holds := not_held hapart List.mem_cons_self
    obtain hsame | ⟨r, hr, -, hnew⟩ := recordInviteDelivery_cases σ id tokenHash sent
    · rw [hsame]
      exact hu
    · rw [hnew]
      refine hu.set hlock hr ?_ ?_
      · rfl
      · exact fun hs => hs
  | @closed id status a σ' ha hstatus hclose =>
    have hlock : .row id ∉ u.holds := by
      obtain rfl | ⟨caller, rfl⟩ := ha
      · exact not_held hapart List.mem_cons_self
      · exact not_held hapart List.mem_cons_self
    obtain ⟨r, hr, hs, rfl⟩ := close_spec hclose
    refine hu.set hlock hr ?_ ?_
    · rfl
    · exact fun _ => hs
  | office => exact hu.frame rfl (fun _ _ => rfl) fun i r hi hs => ⟨r, hi, hs, rfl⟩
  | created => exact knows_without_lock (not_held hapart List.mem_cons_self)
  | resent => exact knows_without_lock (not_held hapart List.mem_cons_self)

theorem outline (hmint : Function.Injective fun n => (mint n).2) :
    (protocol mint).Outline (fun _ _ _ => True) (fun _ _ _ _ => True) (Sound mint) Knows
      fun _ _ => True where
  store := by
    intro σ t a σ' t' hI hL _ hnext
    cases next_move hnext with
    | reads => exact hI
    | writes hwrites => exact hI.writes hmint hL hwrites
  own := by
    intro σ t a σ' t' _ hL _ hnext
    cases next_move hnext with
    | reads hreads => exact hL.reads hreads
    | writes => trivial
  other := by
    intro σ t a σ' t' u _ _ _ hnext hu _ _ hapart
    cases next_move hnext with
    | reads => exact hu
    | writes hwrites => exact hu.others hwrites hapart
  pair := fun _ _ _ _ _ _ _ _ => ⟨trivial, trivial⟩

def start (o : Office) : World Store Task := { store := { office := o } }

theorem sound_run (hmint : Function.Injective fun n => (mint n).2) {o : Office}
    {steps : List (ℕ × Act)} {w : World Store Task}
    (hrun : runFrom (protocol mint).step (start o) steps = some w) : Sound mint w.store := by
  have hempty : ∀ i r, (∅ : Table Uuid Invitation).get? i ≠ some r := by
    intro i r h
    rw [Table.get?_empty] at h
    cases h
  have hstart : Sound mint { office := o } :=
    ⟨⟨fun i _ r _ hi => absurd hi (hempty i r), fun i r hi => absurd hi (hempty i r),
      List.nodup_nil, fun _ h => absurd h List.not_mem_nil, trivial⟩, fun _ => Nat.zero_le _⟩
  exact ((Protocol.Holds.start (p := protocol mint) hstart trivial trivial).run (outline hmint)
    (along_of_forall (fun _ _ => ⟨trivial, trivial, fun _ _ _ => trivial⟩) _ _) hrun).store

/-! ### Deliveries of older tokens -/

theorem UncountedAfterFailure.split {newer older : List Entry} {inv : IssuedInvite}
    (h : UncountedAfterFailure (newer ++ .issued inv false :: older)) :
    latest inv.id older = some .failed := by
  induction newer with
  | nil => exact h.1 rfl
  | cons e newer ih =>
    cases e with
    | issued => exact ih h.2
    | recorded => exact ih h

theorem lastIssued_newer {id : Uuid} {newer : List Entry} (older : List Entry)
    (h : ∃ inv counted, Entry.issued inv counted ∈ newer ∧ inv.id = id) :
    ∃ inv counted, Entry.issued inv counted ∈ newer ∧ lastIssued id (newer ++ older) = some inv := by
  induction newer with
  | nil => simp at h
  | cons e newer ih =>
    have hrest : (∃ inv counted, Entry.issued inv counted ∈ newer ∧ inv.id = id) →
        ∃ inv counted, Entry.issued inv counted ∈ e :: newer ∧
          lastIssued id (newer ++ older) = some inv := by
      intro hnewer
      obtain ⟨inv, counted, hmem, hlast⟩ := ih hnewer
      exact ⟨inv, counted, List.mem_cons_of_mem _ hmem, hlast⟩
    obtain ⟨inv, counted, hmem, hid⟩ := h
    cases e with
    | recorded i sent =>
      obtain hmem | hmem := List.mem_cons.mp hmem
      · cases hmem
      · exact hrest ⟨inv, counted, hmem, hid⟩
    | issued inv' counted' =>
      rw [List.cons_append, lastIssued]
      split
      · exact ⟨inv', counted', List.mem_cons_self, rfl⟩
      · rename_i hne
        obtain hmem | hmem := List.mem_cons.mp hmem
        · cases hmem
          exact absurd hid hne
        · exact hrest ⟨inv, counted, hmem, hid⟩

theorem Tracked.stale (h : Tracked mint σ) {newer older : List Entry} {inv : IssuedInvite}
    {counted : Bool} (hjournal : σ.journal = newer ++ .issued inv counted :: older)
    (hnewer : ∃ inv' counted', Entry.issued inv' counted' ∈ newer ∧ inv'.id = inv.id)
    (sent : Bool) : recordInviteDelivery σ inv.id inv.tokenHash sent = σ := by
  obtain hsame | ⟨r, hr, hhash, -⟩ := recordInviteDelivery_cases σ inv.id inv.tokenHash sent
  · exact hsame
  · obtain ⟨inv', counted', hmem, hlast⟩ :=
      lastIssued_newer (.issued inv counted :: older) hnewer
    have htoken := (h.status inv.id r hr).2
    rw [hjournal, hlast, Option.map_some, Option.some.injEq, hhash] at htoken
    have hnodup := h.nodup
    have hsplit : issuedHashes σ.journal =
        issuedHashes newer ++ inv.tokenHash :: issuedHashes older := by
      rw [hjournal, issuedHashes, List.filterMap_append, List.filterMap_cons]
      rfl
    rw [hsplit, List.nodup_append] at hnodup
    have hin : inv'.tokenHash ∈ issuedHashes newer :=
      List.mem_filterMap.mpr ⟨_, hmem, rfl⟩
    exact absurd htoken (hnodup.2.2 _ hin _ List.mem_cons_self)

end

/-- In every interleaving: at most twenty counted mails in every day's window, an uncounted
resend only where the invite's latest outcome is a failure, one pending invite of an address,
and each send status that of the row's current token. -/
theorem invite_mail_cap (mint : ℕ → String × String)
    (hmint : Function.Injective fun n => (mint n).2) (o : Office) (steps : List (ℕ × Act))
    (w : World Store Task) (hrun : runFrom (protocol mint).step (start o) steps = some w) :
    (∀ lo, sendsIn w.store.mails lo ≤ maxInviteMailsPerDay) ∧
    (∀ newer inv older, w.store.journal = newer ++ .issued inv false :: older →
      latest inv.id older = some .failed) ∧
    OnePending w.store.invitations ∧
    (∀ id r, w.store.invitations.get? id = some r →
      latest id w.store.journal = some r.sendStatus ∧
      (lastIssued id w.store.journal).map IssuedInvite.tokenHash = some r.tokenHash) ∧
    ∀ newer inv counted older, w.store.journal = newer ++ .issued inv counted :: older →
      (∃ inv' counted', Entry.issued inv' counted' ∈ newer ∧ inv'.id = inv.id) →
      ∀ sent, recordInviteDelivery w.store inv.id inv.tokenHash sent = w.store := by
  have hsound := sound_run hmint hrun
  refine ⟨hsound.capped, fun newer inv older hjournal => ?_, hsound.tracked.onePending,
    hsound.tracked.status, fun newer inv counted older hjournal hnewer sent => ?_⟩
  · have huncounted := hsound.tracked.uncounted
    rw [hjournal] at huncounted
    exact huncounted.split
  · exact hsound.tracked.stale hjournal hnewer sent

def numberedTokens (n : ℕ) : String × String := (toString n, toString n)

theorem numberedTokens_injective : Function.Injective fun n => (numberedTokens n).2 := by
  intro m n h
  exact digits_inj (congrArg String.toList h)

def smallOffice : Office where
  members := Table.ofList [(1, { role := .admin, displayName := some "Ada Eze" })]
  name := "Eze & Co"
  isFirm := true

def lateOutcome : List (ℕ × Act) :=
  [(0, .begin (.create ⟨1, ["bo@x"], .reviewer, none⟩) 5), (1, .begin (.create ⟨1, ["al@x", "al@x"],
      .preparer, none⟩) 9), (1, .lockInviteSends), (1, .countInviteMails), (1, .readTenant),
    (1, .upsert 7), (1, .upsert 8), (1, .commit), (0, .lockInviteSends), (0, .countInviteMails),
    (0, .readTenant), (0, .upsert 8), (0, .commit), (2, .record 7 "1" false), (2, .record 7 "0" true),
    (2, .begin (.resend ⟨1, 7⟩) 12), (2, .lockInviteSends), (2, .selectForUpdate),
    (2, .countInviteMails), (2, .commit)]

theorem invite_mail_cap_lateOutcome : ∃ w,
    runFrom (protocol numberedTokens).step (start smallOffice) lateOutcome = some w ∧
      sendsIn w.store.mails 0 ≤ maxInviteMailsPerDay ∧ OnePending w.store.invitations := by
  have hran : (runFrom (protocol numberedTokens).step (start smallOffice) lateOutcome).isSome =
      true := by
    decide +kernel
  obtain ⟨w, hrun⟩ := Option.isSome_iff_exists.mp hran
  obtain ⟨hcapped, -, hpending, -⟩ := invite_mail_cap numberedTokens numberedTokens_injective
    smallOffice lateOutcome w hrun
  exact ⟨w, hrun, hcapped 0, hpending⟩

example : (runFrom (protocol numberedTokens).step (start smallOffice) lateOutcome).map (fun w =>
    (w.store.mails.map MailRow.isCounted, (w.store.invitations.rows.map Prod.fst).length)) =
      some ([false, true, true, true], 2) := by
  decide +kernel

end InvoiceOs.Invitations
