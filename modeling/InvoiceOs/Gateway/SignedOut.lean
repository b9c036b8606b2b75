import InvoiceOs.Gateway.SessionChecker

/-! A request to GoTrue that a sign-out overtook answers whoever already waits on it and nobody
who comes later. -/

namespace InvoiceOs.Gateway

open Lib

/-! ### Steps -/

inductive Step (cfg : Config) (owner : SessionID → String) (st : Checker) :
    Task → Checker → Task → Prop where
  | refused {sid} : Step cfg owner st .idle
      (({ st with checks := st.checks + 1 }.record (.began st.checks sid)).record
        (.answered st.checks sid .unavailable "" none)) .idle
  | began {sid} : Step cfg owner st .idle
      ({ st with checks := st.checks + 1 }.record (.began st.checks sid)) (.checking st.checks sid)
  | evicted {sub} : Step cfg owner st .idle ((st.evictLocal sub).record (.evicted sub)) .idle
  | hit {check sid now e v email} (hfresh : st.fresh sid now = some e) :
      Step cfg owner st (.checking check sid)
        ((st.record (.served sid now e)).record (.answered check sid v email (some e.call))) .idle
  | joined {check sid call} (hcall : st.inflight.get? sid = some call) :
      Step cfg owner st (.checking check sid) st (.waiting check sid call)
  | registered {check sid now} (hnone : st.inflight.get? sid = none) :
      Step cfg owner st (.checking check sid) (st.register sid (owner sid))
        (.running check sid st.made now .registered)
  | received {check sid call} : Step cfg owner st (.waiting check sid call)
      (st.answerOf check sid call) .idle
  | cancelled {check sid call} : Step cfg owner st (.waiting check sid call)
      (st.record (.answered check sid .unavailable "" none)) .idle
  | requested {check sid call start} : Step cfg owner st (.running check sid call start .registered)
      (st.record (.asked call)) (.running check sid call start .asked)
  | replied {check sid call start r} : Step cfg owner st (.running check sid call start .asked)
      { st with calls := st.calls.modify call fun c =>
        { c with verdict := (ask r).1, confirmedEmail := (ask r).2 } }
      (.running check sid call start .answered)
  | panicked {check sid call start phase} (hphase : phase = .registered ∨ phase = .asked) :
      Step cfg owner st (.running check sid call start phase) st
        (.running check sid call start .panicked)
  | cleaned {check sid call start phase now panicking}
      (hphase : phase = .answered ∨ phase = .panicked) :
      Step cfg owner st (.running check sid call start phase)
        (st.cleanup cfg sid call start now) (.running check sid call start (.cleaned panicking))
  | closed {check sid call start panicking} :
      Step cfg owner st (.running check sid call start (.cleaned panicking))
        { st with calls := st.calls.modify call fun c => { c with closes := c.closes + 1 } }
        (if panicking then .idle else .running check sid call start .closed)
  | returned {check sid call start} : Step cfg owner st (.running check sid call start .closed)
      (st.answerOf check sid call) .idle

section
variable {cfg : Config} {owner : SessionID → String} {st st' : Checker} {t t' : Task} {act : Act}

theorem next_step (h : next cfg owner st t act = some (st', t')) : Step cfg owner st t st' t' := by
  cases t with
  | idle =>
    change idleNext cfg st act = _ at h
    unfold idleNext at h
    split at h
    · dsimp only at h
      split at h
      · cases h
        exact .refused
      · cases h
        exact .began
    · cases h
      exact .evicted
    · cases h
  | checking check sid =>
    unfold next at h
    dsimp only at h
    split at h
    · rename_i now
      have hlookup : st.lookup (owner sid) check sid now = (st', t') := Option.some.inj h
      unfold Checker.lookup at hlookup
      split at hlookup
      · rename_i e hfresh
        cases hlookup
        exact .hit hfresh
      · split at hlookup
        · rename_i call hcall
          cases hlookup
          exact .joined hcall
        · rename_i hnone
          cases hlookup
          exact .registered hnone
    · cases h
  | waiting check sid call =>
    change waitNext st check sid call act = _ at h
    unfold waitNext at h
    split at h
    · split at h
      · cases h
        exact .received
      · cases h
    · cases h
      exact .cancelled
    · cases h
  | running check sid call start phase =>
    change runNext cfg st check sid call start phase act = _ at h
    unfold runNext at h
    split at h
    · cases h
      exact .requested
    · cases h
      exact .panicked (.inl rfl)
    · cases h
      exact .replied
    · cases h
      exact .panicked (.inr rfl)
    · cases h
      exact .cleaned (.inl rfl)
    · cases h
      exact .cleaned (.inr rfl)
    · cases h
      exact .closed
    · cases h
      exact .returned
    · cases h

/-! ### The history -/

def After (log : List Event) (sub : String) (call : ℕ) : Prop :=
  ∀ before after, log = before ++ .evicted sub :: after → .asked call ∉ before

def Since (log : List Event) (check : ℕ) (sub : String) (call : ℕ) : Prop :=
  ∀ before after, log = before ++ .evicted sub :: after → (∃ sid, .began check sid ∈ after) →
    .asked call ∉ before

theorem split_concat {log before after : List Event} {x y : Event}
    (h : log ++ [x] = before ++ y :: after) :
    (after = [] ∧ before = log ∧ x = y) ∨ ∃ rest, after = rest ++ [x] ∧ log = before ++ y :: rest := by
  rcases List.eq_nil_or_concat after with rfl | ⟨rest, z, rfl⟩
  · obtain ⟨hlog, hx⟩ := List.append_inj' h rfl
    exact .inl ⟨rfl, hlog.symm, List.head_eq_of_cons_eq hx⟩
  · rw [List.concat_eq_append, ← List.cons_append, ← List.append_assoc] at h
    obtain ⟨hlog, hx⟩ := List.append_inj' h rfl
    obtain rfl := List.head_eq_of_cons_eq hx
    exact .inr ⟨rest, List.concat_eq_append, hlog⟩

theorem After.concat {log : List Event} {sub : String} {call : ℕ} (h : After log sub call) {x : Event}
    (hx : x = .evicted sub → .asked call ∉ log) : After (log ++ [x]) sub call := by
  intro before after hsplit
  obtain ⟨-, rfl, hlast⟩ | ⟨rest, -, hlog⟩ := split_concat hsplit
  · exact hx hlast
  · exact h before rest hlog

theorem Since.concat {log : List Event} {check : ℕ} {sub : String} {call : ℕ}
    (h : Since log check sub call) {x : Event} (hx : ∀ sid, x ≠ .began check sid) :
    Since (log ++ [x]) check sub call := by
  rintro before after hsplit ⟨sid, hbegan⟩
  obtain ⟨rfl, -, -⟩ | ⟨rest, rfl, hlog⟩ := split_concat hsplit
  · cases hbegan
  · refine h before rest hlog ⟨sid, ?_⟩
    rcases List.mem_append.mp hbegan with hbegan | hbegan
    · exact hbegan
    · exact absurd (List.mem_singleton.mp hbegan).symm (hx sid)

theorem Since.answered {log : List Event} {check : ℕ} {sub : String} {call : ℕ}
    (h : Since log check sub call) (m : ℕ) (sid : SessionID) (v : Verdict) (email : String)
    (on : Option ℕ) : Since (log ++ [.answered m sid v email on]) check sub call := h.concat nofun

theorem After.since {log : List Event} {sub : String} {call : ℕ} (h : After log sub call)
    (check : ℕ) : Since log check sub call := fun before after hsplit _ => h before after hsplit

theorem After.of_fresh {log : List Event} {call : ℕ} (h : .asked call ∉ log) (sub : String) :
    After log sub call := by
  rintro before after rfl hasked
  exact h (List.mem_append_left _ hasked)

/-! ### The maps -/

structure Checker.Sound (cfg : Config) (owner : SessionID → String) (st : Checker) : Prop where
  made : ∀ k c, st.calls.get? k = some c → k < st.made
  asked : ∀ k, .asked k ∈ st.log → k < st.made
  closes : ∀ k c, st.calls.get? k = some c → c.closes ≤ 1
  entry : ∀ sid e, st.entries.get? sid = some e → e.subject = owner sid ∧
    After st.log (owner sid) e.call ∧ ∃ c, st.calls.get? e.call = some c ∧
      c.verdict ≠ .unavailable ∧ e.live = (c.verdict == .live)
  inflight : ∀ sid k, st.inflight.get? sid = some k → After st.log (owner sid) k ∧
    ∃ c, st.calls.get? k = some c ∧ c.subject = owner sid ∧ c.evicted = false
  answered : ∀ m sid v email k, .answered m sid v email (some k) ∈ st.log →
    m < st.checks ∧ Since st.log m (owner sid) k
  served : ∀ sid now e, .served sid now e ∈ st.log → now - e.checkedAt < sessionCheckTTL
  size : st.entries.rows.length ≤ cfg.maxEntries

theorem mem_concat {log : List Event} {x y : Event} : y ∈ log ++ [x] ↔ y ∈ log ∨ y = x := by
  rw [List.mem_append, List.mem_singleton]

structure Allowed (owner : SessionID → String) (st : Checker) (x : Event) : Prop where
  asked : ∀ k, x = .asked k → k < st.made
  evicted : ∀ sub, x = .evicted sub → (∀ sid e, st.entries.get? sid = some e → owner sid ≠ sub) ∧
    ∀ sid k, st.inflight.get? sid = some k → owner sid ≠ sub
  began : ∀ m sid, x = .began m sid →
    ∀ m' sid' v email k, .answered m' sid' v email (some k) ∈ st.log → m' ≠ m
  answered : ∀ m sid v email k, x = .answered m sid v email (some k) →
    m < st.checks ∧ Since st.log m (owner sid) k
  served : ∀ sid now e, x = .served sid now e → now - e.checkedAt < sessionCheckTTL

theorem Checker.Sound.record (hs : st.Sound cfg owner) {x : Event} (hx : Allowed owner st x) :
    (st.record x).Sound cfg owner where
  made := hs.made
  asked k hk := (mem_concat.mp hk).elim (hs.asked k) fun heq => hx.asked k heq.symm
  closes := hs.closes
  entry sid e he := by
    obtain ⟨hsubject, hafter, hcall⟩ := hs.entry sid e he
    exact ⟨hsubject, hafter.concat fun heq => absurd rfl ((hx.evicted _ heq).1 sid e he), hcall⟩
  inflight sid k hk := by
    obtain ⟨hafter, hcall⟩ := hs.inflight sid k hk
    exact ⟨hafter.concat fun heq => absurd rfl ((hx.evicted _ heq).2 sid k hk), hcall⟩
  answered m sid v email k hk := by
    rcases mem_concat.mp hk with hold | heq
    · obtain ⟨hm, hsince⟩ := hs.answered m sid v email k hold
      exact ⟨hm, hsince.concat fun sid' heq => hx.began m sid' heq m sid v email k hold rfl⟩
    · obtain ⟨hm, hsince⟩ := hx.answered m sid v email k heq.symm
      refine ⟨hm, hsince.concat fun sid' hbegan => ?_⟩
      rw [← heq] at hbegan
      cases hbegan
  served sid now e hk := (mem_concat.mp hk).elim (hs.served sid now e) fun heq =>
    hx.served sid now e heq.symm
  size := hs.size

theorem allowed_answered {m : ℕ} {sid : SessionID} {v : Verdict} {email : String} {k : ℕ}
    (hm : m < st.checks) (hsince : Since st.log m (owner sid) k) :
    Allowed owner st (.answered m sid v email (some k)) where
  asked _ h := by cases h
  evicted _ h := by cases h
  began _ _ h := by cases h
  answered _ _ _ _ _ h := by
    cases h
    exact ⟨hm, hsince⟩
  served _ _ _ h := by cases h

theorem allowed_unavailable (m : ℕ) (sid : SessionID) (v : Verdict) (email : String) :
    Allowed owner st (.answered m sid v email none) where
  asked _ h := by cases h
  evicted _ h := by cases h
  began _ _ h := by cases h
  answered _ _ _ _ _ h := by cases h
  served _ _ _ h := by cases h

theorem fresh_eq_some {sid : SessionID} {now : ℤ} {e : SessionEntry} (h : st.fresh sid now = some e) :
    st.entries.get? sid = some e ∧ now - e.checkedAt < sessionCheckTTL := by
  obtain ⟨he, hage⟩ := Option.filter_eq_some_iff.mp h
  exact ⟨he, of_decide_eq_true hage⟩

theorem evictLocal_call (sub : String) {k : ℕ} {c : SessionCall} (hc : st.calls.get? k = some c) :
    ∃ c', (st.evictLocal sub).calls.get? k = some c' ∧ c'.subject = c.subject ∧
      c'.verdict = c.verdict ∧ c'.closes = c.closes ∧
      (c'.evicted = false → c.evicted = false ∧
        ∀ sid, st.inflight.get? sid = some k → c.subject ≠ sub) ∧
      (c.subject ≠ sub → c'.evicted = c.evicted) := by
  unfold Checker.evictLocal
  rw [Table.get?_mapRows, hc, Option.map_some]
  refine ⟨_, rfl, ?_⟩
  split
  · rename_i hgone
    rw [Bool.and_eq_true, beq_iff_eq] at hgone
    exact ⟨rfl, rfl, rfl, (by rintro ⟨⟩), fun hne => absurd hgone.1 hne⟩
  · rename_i hkept
    refine ⟨rfl, rfl, rfl, fun hevicted => ⟨hevicted, fun sid hsid hsub => hkept ?_⟩, fun _ => rfl⟩
    rw [Bool.and_eq_true, beq_iff_eq]
    exact ⟨hsub, List.any_eq_true.mpr ⟨(sid, k), Table.mem_rows.mpr hsid, beq_self_eq_true k⟩⟩

theorem evictLocal_call_of {sub : String} {k : ℕ} {c' : SessionCall}
    (h : (st.evictLocal sub).calls.get? k = some c') : ∃ c, st.calls.get? k = some c ∧
      c'.closes = c.closes := by
  unfold Checker.evictLocal at h
  rw [Table.get?_mapRows] at h
  obtain ⟨c, hc, rfl⟩ := Option.map_eq_some_iff.mp h
  refine ⟨c, hc, ?_⟩
  split
  · rfl
  · rfl

theorem evictLocal_entry {sub : String} {sid : SessionID} {e : SessionEntry}
    (h : (st.evictLocal sub).entries.get? sid = some e) :
    st.entries.get? sid = some e ∧ e.subject ≠ sub := by
  obtain ⟨he, hsub⟩ := Table.get?_deleteWhere.mp h
  exact ⟨he, beq_eq_false_iff_ne.mp hsub⟩

theorem evictLocal_inflight {sub : String} {sid : SessionID} {k : ℕ} {c : SessionCall}
    (hc : st.calls.get? k = some c) :
    (st.evictLocal sub).inflight.get? sid = some k ↔
      st.inflight.get? sid = some k ∧ c.subject ≠ sub := by
  refine Table.get?_deleteWhere.trans (and_congr_right fun _ => ?_)
  unfold Checker.callOf
  rw [hc, Option.any_some, beq_eq_false_iff_ne]

/-! ### The sections keep the invariant -/

theorem Checker.Sound.evictLocal (hs : st.Sound cfg owner) (sub : String) :
    (st.evictLocal sub).Sound cfg owner where
  made k c' hc' := by
    obtain ⟨c, hc, -⟩ := evictLocal_call_of hc'
    exact hs.made k c hc
  asked := hs.asked
  closes k c' hc' := by
    obtain ⟨c, hc, hcloses⟩ := evictLocal_call_of hc'
    rw [hcloses]
    exact hs.closes k c hc
  entry sid e he := by
    obtain ⟨hsubject, hafter, c, hc, hknown, hlive⟩ := hs.entry sid e (evictLocal_entry he).1
    obtain ⟨c', hc', -, hverdict, -⟩ := evictLocal_call sub hc
    rw [← hverdict] at hknown hlive
    exact ⟨hsubject, hafter, c', hc', hknown, hlive⟩
  inflight sid k hk := by
    obtain ⟨hold, -⟩ := Table.get?_deleteWhere.mp hk
    obtain ⟨hafter, c, hc, hsubject, hevicted⟩ := hs.inflight sid k hold
    obtain ⟨c', hc', hsame, -, -, -, hkept⟩ := evictLocal_call sub hc
    have hne := ((evictLocal_inflight hc).mp hk).2
    exact ⟨hafter, c', hc', hsame.trans hsubject, (hkept hne).trans hevicted⟩
  answered := hs.answered
  served := hs.served
  size := (Table.length_deleteWhere_le _ _).trans hs.size

theorem allowed_evicted (hs : st.Sound cfg owner) (sub : String) :
    Allowed owner (st.evictLocal sub) (.evicted sub) where
  asked _ h := by cases h
  evicted _ h := by
    cases h
    refine ⟨fun sid e he => ?_, fun sid k hk => ?_⟩
    · obtain ⟨hold, hne⟩ := evictLocal_entry he
      rw [← (hs.entry sid e hold).1]
      exact hne
    · obtain ⟨hold, -⟩ := Table.get?_deleteWhere.mp hk
      obtain ⟨-, c, hc, hsubject, -⟩ := hs.inflight sid k hold
      rw [← hsubject]
      exact ((evictLocal_inflight hc).mp hk).2
  began _ _ h := by cases h
  answered _ _ _ _ _ h := by cases h
  served _ _ _ h := by cases h

theorem Checker.Sound.begin (hs : st.Sound cfg owner) (sid : SessionID) :
    ({ st with checks := st.checks + 1 }.record (.began st.checks sid)).Sound cfg owner := by
  have hcounted : ({ st with checks := st.checks + 1 } : Checker).Sound cfg owner :=
    { hs with answered := fun m sid v email k hk =>
        ⟨(hs.answered m sid v email k hk).1.trans (Nat.lt_succ_self _),
          (hs.answered m sid v email k hk).2⟩ }
  refine hcounted.record ⟨nofun, nofun, fun m sid' h m' sid'' v email k hk => ?_, nofun, nofun⟩
  cases h
  exact (hs.answered m' sid'' v email k hk).1.ne

theorem register_call {sid : SessionID} {subject : String} {k : ℕ} :
    (st.register sid subject).calls.get? k =
      if k = st.made then some { subject := subject } else st.calls.get? k :=
  Table.get?_set _ _ _ _

theorem register_inflight {sid sid' : SessionID} {subject : String} :
    (st.register sid subject).inflight.get? sid' =
      if sid' = sid then some st.made else st.inflight.get? sid' :=
  Table.get?_set _ _ _ _

theorem Checker.Sound.old_call (hs : st.Sound cfg owner) {k : ℕ} {c : SessionCall}
    (hc : st.calls.get? k = some c) (sid : SessionID) (subject : String) :
    (st.register sid subject).calls.get? k = some c := by
  rw [register_call, if_neg (hs.made k c hc).ne, hc]

theorem Checker.Sound.new_call (hs : st.Sound cfg owner) : .asked st.made ∉ st.log :=
  fun h => (hs.asked _ h).ne rfl

theorem Checker.Sound.register (hs : st.Sound cfg owner) (sid : SessionID) :
    (st.register sid (owner sid)).Sound cfg owner where
  made k c hc := by
    rw [register_call] at hc
    split at hc
    · rename_i hk
      rw [hk]
      exact Nat.lt_succ_self _
    · exact (hs.made k c hc).trans (Nat.lt_succ_self _)
  asked k hk := (hs.asked k hk).trans (Nat.lt_succ_self _)
  closes k c hc := by
    rw [register_call] at hc
    split at hc
    · obtain rfl := Option.some.inj hc
      exact Nat.zero_le _
    · exact hs.closes k c hc
  entry sid' e he := by
    obtain ⟨hsubject, hafter, c, hc, hverdict⟩ := hs.entry sid' e he
    exact ⟨hsubject, hafter, c, hs.old_call hc sid _, hverdict⟩
  inflight sid' k hk := by
    rw [register_inflight] at hk
    split at hk
    · rename_i hsid
      obtain rfl := Option.some.inj hk
      refine ⟨.of_fresh hs.new_call _, _, by rw [register_call, if_pos rfl], by rw [hsid], rfl⟩
    · obtain ⟨hafter, c, hc, hcall⟩ := hs.inflight sid' k hk
      exact ⟨hafter, c, hs.old_call hc sid _, hcall⟩
  answered := hs.answered
  served := hs.served
  size := hs.size

theorem store_size (hsize : st.entries.rows.length ≤ cfg.maxEntries) (sid : SessionID)
    (e : SessionEntry) (now : ℤ) :
    (st.store cfg sid e now).entries.rows.length ≤ cfg.maxEntries := by
  unfold Checker.store
  split
  · dsimp only
    split
    · exact (Table.length_deleteWhere_le _ _).trans hsize
    · rename_i hroom
      have hset := Table.length_set_le (st.entries.deleteWhere fun _ old =>
        decide (sessionCheckTTL ≤ now - old.checkedAt)) sid e
      dsimp only at hroom ⊢
      omega
  · rename_i hroom
    simp only [Bool.and_eq_true, decide_eq_true_eq, not_and, not_le, Option.isNone_iff_eq_none] at hroom
    cases hold : st.entries.get? sid with
    | none =>
      have hset := Table.length_set_le st.entries sid e
      have hfull := hroom hold
      dsimp only
      omega
    | some old =>
      dsimp only
      rw [Table.length_set_of_get? hold]
      exact hsize

theorem store_entry {sid sid' : SessionID} {e e' : SessionEntry} {now : ℤ}
    (h : (st.store cfg sid e now).entries.get? sid' = some e') :
    st.entries.get? sid' = some e' ∨ sid' = sid ∧ e' = e := by
  have hset : ∀ table : Table SessionID SessionEntry, (∀ s x, table.get? s = some x →
      st.entries.get? s = some x) → (table.set sid e).get? sid' = some e' →
      st.entries.get? sid' = some e' ∨ sid' = sid ∧ e' = e := by
    intro table hsub htable
    rw [Table.get?_set] at htable
    split at htable
    · rename_i hsid
      exact .inr ⟨hsid, (Option.some.inj htable).symm⟩
    · exact .inl (hsub _ _ htable)
  have hswept := fun s x hx => (@Table.get?_deleteWhere _ _ _ st.entries
    (fun _ old => decide (sessionCheckTTL ≤ now - old.checkedAt)) s x).mp hx |>.1
  unfold Checker.store at h
  split at h
  · dsimp only at h
    split at h
    · exact .inl (hswept _ _ h)
    · exact hset _ hswept h
  · exact hset _ (fun _ _ h => h) h

theorem store_rest (st : Checker) (sid : SessionID) (e : SessionEntry) (now : ℤ) :
    st.store cfg sid e now = { st with entries := (st.store cfg sid e now).entries } := by
  unfold Checker.store
  split
  · dsimp only
    split
    · rfl
    · rfl
  · rfl

/-! ### The deferred section -/

theorem release_rest (st : Checker) (sid : SessionID) (call : ℕ) :
    st.release sid call = { st with inflight := (st.release sid call).inflight } := by
  unfold Checker.release
  split
  · rfl
  · rfl

theorem release_inflight {sid sid' : SessionID} {call call' : ℕ} :
    (st.release sid call).inflight.get? sid' = some call' ↔
      st.inflight.get? sid' = some call' ∧ (sid' = sid → call' ≠ call) := by
  unfold Checker.release
  split
  · rename_i hmine
    refine Table.get?_deleteWhere.trans ?_
    rw [beq_eq_false_iff_ne]
    constructor
    · rintro ⟨hold, hne⟩
      exact ⟨hold, fun heq => absurd heq hne⟩
    · rintro ⟨hold, hother⟩
      refine ⟨hold, fun heq => hother heq ?_⟩
      rw [heq, hmine] at hold
      exact (Option.some.inj hold).symm
  · rename_i hother
    refine ⟨fun hold => ⟨hold, fun heq hcall => hother ?_⟩, fun h => h.1⟩
    rw [← heq, ← hcall]
    exact hold

theorem cleanup_cases {sid : SessionID} {call : ℕ} {c : SessionCall}
    (hc : st.calls.get? call = some c) (start now : ℤ) :
    st.cleanup cfg sid call start now = st.release sid call ∨
      (c.evicted = false ∧ c.verdict ≠ .unavailable ∧ st.cleanup cfg sid call start now =
        (st.release sid call).store cfg sid (Checker.entryOf c start call) now) := by
  unfold Checker.cleanup
  rw [hc]
  dsimp only
  split
  · rename_i hstored
    rw [Bool.and_eq_true, Bool.not_eq_true', bne_iff_ne] at hstored
    exact .inr ⟨hstored.1, hstored.2, rfl⟩
  · exact .inl rfl

theorem cleanup_rest {sid : SessionID} {call : ℕ} {start now : ℤ} :
    (st.cleanup cfg sid call start now).calls = st.calls ∧
      (st.cleanup cfg sid call start now).log = st.log ∧
      (st.cleanup cfg sid call start now).checks = st.checks ∧
      (st.cleanup cfg sid call start now).inflight = (st.release sid call).inflight := by
  unfold Checker.cleanup
  split
  · rw [release_rest]
    exact ⟨rfl, rfl, rfl, rfl⟩
  · split
    · rw [store_rest, release_rest]
      exact ⟨rfl, rfl, rfl, rfl⟩
    · rw [release_rest]
      exact ⟨rfl, rfl, rfl, rfl⟩

theorem Checker.Sound.release (hs : st.Sound cfg owner) (sid : SessionID) (call : ℕ) :
    (st.release sid call).Sound cfg owner := by
  rw [release_rest]
  exact { hs with inflight := fun sid' k hk => hs.inflight sid' k (release_inflight.mp hk).1 }

theorem Checker.Sound.store (hs : st.Sound cfg owner) {sid : SessionID} {call : ℕ} {c : SessionCall}
    (hc : st.calls.get? call = some c) (hsubject : c.subject = owner sid)
    (hafter : After st.log (owner sid) call) (hknown : c.verdict ≠ .unavailable) (start now : ℤ) :
    (st.store cfg sid (Checker.entryOf c start call) now).Sound cfg owner := by
  have hsize := store_size hs.size sid (Checker.entryOf c start call) now
  have hentry := fun sid' e' =>
    @store_entry cfg st sid sid' (Checker.entryOf c start call) e' now
  rw [store_rest] at hsize hentry ⊢
  have hentries : ∀ sid' e', (st.store cfg sid (Checker.entryOf c start call) now).entries.get? sid' =
      some e' → e'.subject = owner sid' ∧ After st.log (owner sid') e'.call ∧
        ∃ c, st.calls.get? e'.call = some c ∧ c.verdict ≠ .unavailable ∧
          e'.live = (c.verdict == .live) := by
    intro sid' e' he
    obtain hold | ⟨rfl, rfl⟩ := hentry sid' e' he
    · exact hs.entry sid' e' hold
    · exact ⟨hsubject, hafter, c, hc, hknown, rfl⟩
  exact { hs with entry := hentries, size := hsize }

end

/-! ### Tasks -/

namespace Phase

def early : Phase → Bool
  | registered => true
  | asked => true
  | panicked => true
  | _ => false

def pending : Phase → Bool
  | cleaned _ => false
  | closed => false
  | _ => true

def closes : Phase → ℕ
  | closed => 1
  | _ => 0

end Phase

def Task.call : Task → Option ℕ
  | .running _ _ call _ _ => some call
  | _ => none

def Task.Ok (owner : SessionID → String) (st : Checker) : Task → Prop
  | .idle => True
  | .checking check _ => check < st.checks
  | .waiting check sid call => check < st.checks ∧ Since st.log check (owner sid) call
  | .running check sid call _ phase => check < st.checks ∧ Since st.log check (owner sid) call ∧
      ∃ c, st.calls.get? call = some c ∧ c.subject = owner sid ∧ c.closes = phase.closes ∧
        (phase.early = true → c.verdict = .unavailable) ∧
        (phase.pending = true → c.evicted = false → st.inflight.get? sid = some call)

section
variable {cfg : Config} {owner : SessionID → String} {st st' : Checker} {t t' u : Task}

theorem answerOf_cases (st : Checker) (m : ℕ) (sid : SessionID) (k : ℕ) : st.answerOf m sid k = st ∨
    ∃ v email, st.answerOf m sid k = st.record (.answered m sid v email (some k)) := by
  unfold Checker.answerOf
  split
  · exact .inl rfl
  · exact .inr ⟨_, _, rfl⟩

theorem modify_call {k k' : ℕ} {f : SessionCall → SessionCall} {c' : SessionCall}
    (h : (st.calls.modify k f).get? k' = some c') :
    ∃ c, st.calls.get? k' = some c ∧ c' = if k' = k then f c else c := by
  rw [Table.get?_modify] at h
  split at h
  · rename_i hk
    obtain ⟨c, hc, rfl⟩ := Option.map_eq_some_iff.mp h
    exact ⟨c, hk ▸ hc, by rw [if_pos hk]⟩
  · rename_i hk
    exact ⟨c', h, by rw [if_neg hk]⟩

theorem Checker.Sound.modify (hs : st.Sound cfg owner) {k : ℕ} {f : SessionCall → SessionCall}
    (hsubject : ∀ c, (f c).subject = c.subject) (hevicted : ∀ c, (f c).evicted = c.evicted)
    (hcloses : ∀ c, st.calls.get? k = some c → (f c).closes ≤ 1)
    (hverdict : ∀ c, st.calls.get? k = some c → c.verdict ≠ .unavailable →
      (f c).verdict = c.verdict) :
    ({ st with calls := st.calls.modify k f } : Checker).Sound cfg owner := by
  have hget : ∀ k' c, st.calls.get? k' = some c → (st.calls.modify k f).get? k' =
      some (if k' = k then f c else c) := by
    intro k' c hc
    rw [Table.get?_modify]
    split
    · rename_i hk
      rw [← hk, hc, Option.map_some]
    · exact hc
  constructor
  · intro k' c hc
    obtain ⟨c₀, hc₀, -⟩ := modify_call hc
    exact hs.made k' c₀ hc₀
  · exact hs.asked
  · intro k' c hc
    obtain ⟨c₀, hc₀, rfl⟩ := modify_call hc
    split
    · rename_i hk
      exact hcloses c₀ (hk ▸ hc₀)
    · exact hs.closes k' c₀ hc₀
  · intro sid e he
    obtain ⟨hsub, hafter, c, hc, hknown, hlive⟩ := hs.entry sid e he
    refine ⟨hsub, hafter, _, hget _ _ hc, ?_⟩
    split
    · rename_i hk
      rw [hverdict c (hk ▸ hc) hknown]
      exact ⟨hknown, hlive⟩
    · exact ⟨hknown, hlive⟩
  · intro sid k' hk
    obtain ⟨hafter, c, hc, hsub, hkept⟩ := hs.inflight sid k' hk
    refine ⟨hafter, _, hget _ _ hc, ?_⟩
    split
    · rw [hsubject, hevicted]
      exact ⟨hsub, hkept⟩
    · exact ⟨hsub, hkept⟩
  · exact hs.answered
  · exact hs.served
  · exact hs.size

theorem Step.sound (hs : st.Sound cfg owner) (ht : t.Ok owner st) (h : Step cfg owner st t st' t') :
    st'.Sound cfg owner := by
  cases h with
  | refused => exact (hs.begin _).record (allowed_unavailable _ _ _ _)
  | began => exact hs.begin _
  | evicted => exact (hs.evictLocal _).record (allowed_evicted hs _)
  | @hit check sid now e v email hfresh =>
    obtain ⟨he, hage⟩ := fresh_eq_some hfresh
    have hserved : (st.record (.served sid now e)).Sound cfg owner := by
      refine hs.record ⟨nofun, nofun, nofun, nofun, fun sid' now' e' heq => ?_⟩
      cases heq
      exact hage
    exact hserved.record (allowed_answered ht ((hserved.entry sid e he).2.1.since check))
  | joined => exact hs
  | registered => exact hs.register _
  | @received check sid call =>
    obtain heq | ⟨v, email, heq⟩ := answerOf_cases st check sid call
    · rw [heq]
      exact hs
    · rw [heq]
      exact hs.record (allowed_answered ht.1 ht.2)
  | cancelled => exact hs.record (allowed_unavailable _ _ _ _)
  | requested =>
    obtain ⟨-, -, c, hc, -⟩ := ht
    refine hs.record ⟨fun k heq => ?_, nofun, nofun, nofun, nofun⟩
    cases heq
    exact hs.made _ c hc
  | replied =>
    obtain ⟨-, -, c, hc, -, hcloses, hverdict, -⟩ := ht
    refine hs.modify (fun _ => rfl) (fun _ => rfl) (fun c' hc' => hs.closes _ c' hc')
      fun c' hc' hknown => ?_
    obtain rfl := Option.some.inj (hc.symm.trans hc')
    exact absurd (hverdict rfl) hknown
  | panicked => exact hs
  | @cleaned check sid call start phase now panicking hphase =>
    obtain ⟨-, -, c, hc, hsubject, -, -, hpending⟩ := ht
    have hphase' : phase.pending = true := by
      obtain rfl | rfl := hphase
      · rfl
      · rfl
    obtain hstored | ⟨hkept, hknown, hstored⟩ := @cleanup_cases cfg st sid call c hc start now
    · rw [hstored]
      exact hs.release sid call
    · have hafter := (hs.inflight sid call (hpending hphase' hkept)).1
      have hreleased := hs.release sid call
      rw [hstored]
      rw [release_rest] at hreleased ⊢
      exact hreleased.store hc hsubject hafter hknown start now
  | closed =>
    obtain ⟨-, -, c, hc, -, hcloses, -⟩ := ht
    refine hs.modify (fun _ => rfl) (fun _ => rfl) (fun c' hc' => ?_) fun _ _ _ => rfl
    obtain rfl := Option.some.inj (hc.symm.trans hc')
    exact (congrArg (· + 1) hcloses).le
  | @returned check sid call start =>
    obtain heq | ⟨v, email, heq⟩ := answerOf_cases st check sid call
    · rw [heq]
      exact hs
    · rw [heq]
      exact hs.record (allowed_answered ht.1 ht.2.1)

theorem Step.own (hs : st.Sound cfg owner) (ht : t.Ok owner st) (h : Step cfg owner st t st' t') :
    t'.Ok owner st' := by
  cases h with
  | refused => trivial
  | began => exact Nat.lt_succ_self _
  | evicted => trivial
  | hit => trivial
  | joined hcall => exact ⟨ht, (hs.inflight _ _ hcall).1.since _⟩
  | registered =>
    refine ⟨ht, (After.of_fresh hs.new_call _).since _, _, by rw [register_call, if_pos rfl], rfl, rfl,
      fun _ => rfl, fun _ _ => ?_⟩
    rw [register_inflight, if_pos rfl]
  | received => trivial
  | cancelled => trivial
  | requested =>
    obtain ⟨hm, hsince, hcall⟩ := ht
    exact ⟨hm, hsince.concat nofun, hcall⟩
  | @replied check sid call start r =>
    obtain ⟨hm, hsince, c, hc, hsubject, hcloses, -, hpending⟩ := ht
    have hsaid := Table.get?_modify_self st.calls call fun c =>
      { c with verdict := (ask r).1, confirmedEmail := (ask r).2 }
    rw [hc, Option.map_some] at hsaid
    exact ⟨hm, hsince, _, hsaid, hsubject, hcloses, nofun, hpending⟩
  | panicked hphase =>
    obtain ⟨hm, hsince, c, hc, hsubject, hcloses, hearly, hpending⟩ := ht
    obtain rfl | rfl := hphase
    · exact ⟨hm, hsince, c, hc, hsubject, hcloses, hearly, hpending⟩
    · exact ⟨hm, hsince, c, hc, hsubject, hcloses, hearly, hpending⟩
  | @cleaned check sid call start phase now panicking hphase =>
    obtain ⟨hm, hsince, c, hc, hsubject, hcloses, -⟩ := ht
    obtain ⟨hcalls, hlog, hchecks, -⟩ := @cleanup_rest cfg st sid call start now
    have hzero : phase.closes = 0 := by
      obtain rfl | rfl := hphase
      · rfl
      · rfl
    refine ⟨?_, ?_, c, ?_, hsubject, hcloses.trans hzero, nofun, nofun⟩
    · rw [hchecks]
      exact hm
    · rw [hlog]
      exact hsince
    · rw [hcalls]
      exact hc
  | @closed check sid call start panicking =>
    obtain ⟨hm, hsince, c, hc, hsubject, hcloses, -⟩ := ht
    cases panicking with
    | true => trivial
    | false =>
      have hclosed := Table.get?_modify_self st.calls call fun c => { c with closes := c.closes + 1 }
      rw [hc, Option.map_some] at hclosed
      exact ⟨hm, hsince, _, hclosed, hsubject, congrArg (· + 1) hcloses, nofun, nofun⟩
  | returned => trivial

/-- What another's step leaves of a call: its flag may go up, and while it is down an inflight row
that points to the call stays. -/
def Spared (st st' : Checker) (k : ℕ) : Prop :=
  ∀ c, st.calls.get? k = some c → ∃ c', st'.calls.get? k = some c' ∧ c'.subject = c.subject ∧
    c'.closes = c.closes ∧ c'.verdict = c.verdict ∧ (c'.evicted = false → c.evicted = false ∧
      ∀ sid, st.inflight.get? sid = some k → st'.inflight.get? sid = some k)

theorem Spared.of_maps {k : ℕ} (hcalls : st'.calls = st.calls)
    (hinflight : ∀ sid, st.inflight.get? sid = some k → st'.inflight.get? sid = some k) :
    Spared st st' k := fun c hc => ⟨c, by rw [hcalls]; exact hc, rfl, rfl, rfl, fun h => ⟨h, hinflight⟩⟩

theorem Spared.of_modify {k k' : ℕ} (hne : k ≠ k') (f : SessionCall → SessionCall) :
    Spared st { st with calls := st.calls.modify k' f } k := by
  intro c hc
  refine ⟨c, ?_, rfl, rfl, rfl, fun h => ⟨h, fun _ h => h⟩⟩
  rw [Table.get?_modify_of_ne _ _ hne]
  exact hc

theorem spared_evictLocal (sub : String) (x : Event) (k : ℕ) :
    Spared st ((st.evictLocal sub).record x) k := by
  intro c hc
  obtain ⟨c', hc', hsubject, hverdict, hcloses, hdown, -⟩ := evictLocal_call sub hc
  refine ⟨c', hc', hsubject, hcloses, hverdict, fun hevicted => ?_⟩
  obtain ⟨hold, hother⟩ := hdown hevicted
  exact ⟨hold, fun sid hsid => (evictLocal_inflight hc).mpr ⟨hsid, hother sid hsid⟩⟩

theorem answerOf_rest (st : Checker) (m : ℕ) (sid : SessionID) (k : ℕ) :
    (st.answerOf m sid k).calls = st.calls ∧ (st.answerOf m sid k).inflight = st.inflight ∧
      (st.answerOf m sid k).checks = st.checks := by
  obtain heq | ⟨v, email, heq⟩ := answerOf_cases st m sid k
  · rw [heq]
    exact ⟨rfl, rfl, rfl⟩
  · rw [heq]
    exact ⟨rfl, rfl, rfl⟩

theorem Step.spared (hs : st.Sound cfg owner) (h : Step cfg owner st t st' t') {k : ℕ}
    (hother : t.call ≠ some k) : Spared st st' k := by
  cases h with
  | refused => exact .of_maps rfl fun _ h => h
  | began => exact .of_maps rfl fun _ h => h
  | evicted => exact spared_evictLocal _ _ k
  | hit => exact .of_maps rfl fun _ h => h
  | joined => exact .of_maps rfl fun _ h => h
  | @registered check sid now hnone =>
    intro c hc
    refine ⟨c, hs.old_call hc sid _, rfl, rfl, rfl, fun hevicted => ⟨hevicted, fun sid' hsid => ?_⟩⟩
    have hne : sid' ≠ sid := by
      rintro rfl
      rw [hnone] at hsid
      cases hsid
    rw [register_inflight, if_neg hne]
    exact hsid
  | received =>
    obtain ⟨hcalls, hinflight, -⟩ := answerOf_rest st _ _ _
    exact .of_maps hcalls fun _ h => hinflight ▸ h
  | cancelled => exact .of_maps rfl fun _ h => h
  | requested => exact .of_maps rfl fun _ h => h
  | replied => exact .of_modify (fun heq => hother (congrArg some heq.symm)) _
  | panicked => exact .of_maps rfl fun _ h => h
  | @cleaned check sid call start phase now =>
    obtain ⟨hcalls, -, -, hinflight⟩ := @cleanup_rest cfg st sid call start now
    refine .of_maps hcalls fun sid' hsid => ?_
    rw [hinflight]
    exact release_inflight.mpr ⟨hsid, fun _ heq => hother (congrArg some heq.symm)⟩
  | closed => exact .of_modify (fun heq => hother (congrArg some heq.symm)) _
  | returned =>
    obtain ⟨hcalls, hinflight, -⟩ := answerOf_rest st _ _ _
    exact .of_maps hcalls fun _ h => hinflight ▸ h

theorem Step.since (h : Step cfg owner st t st' t') : st.checks ≤ st'.checks ∧
    ∀ m sub k, m < st.checks → Since st.log m sub k → Since st'.log m sub k := by
  have hbegan : ∀ m sid, m < st.checks → ∀ sid', Event.began st.checks sid ≠ .began m sid' := by
    intro m sid hm sid' heq
    cases heq
    exact hm.ne rfl
  have hanswer : ∀ m sid k, st.checks ≤ (st.answerOf m sid k).checks ∧
      ∀ m' sub k', m' < st.checks → Since st.log m' sub k' →
        Since (st.answerOf m sid k).log m' sub k' := by
    intro m sid k
    obtain heq | ⟨v, email, heq⟩ := answerOf_cases st m sid k
    · rw [heq]
      exact ⟨le_rfl, fun _ _ _ _ h => h⟩
    · rw [heq]
      exact ⟨le_rfl, fun _ _ _ _ h => h.answered _ _ _ _ _⟩
  cases h with
  | refused => exact ⟨Nat.le_succ _, fun m _ _ hm h => (h.concat (hbegan m _ hm)).answered _ _ _ _ _⟩
  | began => exact ⟨Nat.le_succ _, fun m _ _ hm h => h.concat (hbegan m _ hm)⟩
  | evicted => exact ⟨le_rfl, fun _ _ _ _ h => h.concat nofun⟩
  | @hit m sid now e =>
    exact ⟨le_rfl, fun _ _ _ _ h => (h.concat (x := .served sid now e) nofun).answered _ _ _ _ _⟩
  | joined => exact ⟨le_rfl, fun _ _ _ _ h => h⟩
  | registered => exact ⟨le_rfl, fun _ _ _ _ h => h⟩
  | received => exact hanswer _ _ _
  | cancelled => exact ⟨le_rfl, fun _ _ _ _ h => h.answered _ _ _ _ _⟩
  | requested => exact ⟨le_rfl, fun _ _ _ _ h => h.concat nofun⟩
  | replied => exact ⟨le_rfl, fun _ _ _ _ h => h⟩
  | panicked => exact ⟨le_rfl, fun _ _ _ _ h => h⟩
  | @cleaned check sid call start phase now =>
    obtain ⟨-, hlog, hchecks, -⟩ := @cleanup_rest cfg st sid call start now
    rw [hlog, hchecks]
    exact ⟨le_rfl, fun _ _ _ _ h => h⟩
  | closed => exact ⟨le_rfl, fun _ _ _ _ h => h⟩
  | returned => exact hanswer _ _ _

theorem Step.other (hs : st.Sound cfg owner) (h : Step cfg owner st t st' t') (hu : u.Ok owner st)
    (hother : ∀ k, u.call = some k → t.call ≠ some k) : u.Ok owner st' := by
  obtain ⟨hchecks, hsince⟩ := h.since
  cases u with
  | idle => trivial
  | checking m sid => exact hu.trans_le hchecks
  | waiting m sid k => exact ⟨hu.1.trans_le hchecks, hsince _ _ _ hu.1 hu.2⟩
  | running m sid k start phase =>
    obtain ⟨hm, hmine, c, hc, hsubject, hcloses, hearly, hpending⟩ := hu
    obtain ⟨c', hc', hsub, hclosed, hverdict, hdown⟩ := h.spared hs (hother k rfl) c hc
    refine ⟨hm.trans_le hchecks, hsince _ _ _ hm hmine, c', hc', hsub.trans hsubject,
      hclosed.trans hcloses, fun hphase => hverdict.trans (hearly hphase), fun hphase hevicted => ?_⟩
    obtain ⟨hold, hkept⟩ := hdown hevicted
    exact hkept sid (hpending hphase hold)

def Apart (t u : Task) : Prop := ∀ k, t.call = some k → u.call ≠ some k

theorem Step.call (h : Step cfg owner st t st' t') :
    t'.call = none ∨ t'.call = t.call ∨ t'.call = some st.made := by
  cases h with
  | refused => exact .inl rfl
  | began => exact .inl rfl
  | evicted => exact .inl rfl
  | hit => exact .inl rfl
  | joined => exact .inl rfl
  | registered => exact .inr (.inr rfl)
  | received => exact .inl rfl
  | cancelled => exact .inl rfl
  | requested => exact .inr (.inl rfl)
  | replied => exact .inr (.inl rfl)
  | panicked => exact .inr (.inl rfl)
  | cleaned => exact .inr (.inl rfl)
  | @closed _ _ _ _ panicking =>
    cases panicking with
    | true => exact .inl rfl
    | false => exact .inr (.inl rfl)
  | returned => exact .inl rfl

theorem Task.Ok.made (hs : st.Sound cfg owner) (hu : u.Ok owner st) {k : ℕ} (hk : u.call = some k) :
    k < st.made := by
  cases u with
  | running m sid k' start phase =>
    obtain rfl := Option.some.inj hk
    obtain ⟨-, -, c, hc, -⟩ := hu
    exact hs.made _ c hc
  | _ => cases hk

theorem Step.apart (hs : st.Sound cfg owner) (h : Step cfg owner st t st' t') (hu : u.Ok owner st)
    (htu : Apart t u) : Apart t' u := by
  intro k hk huk
  obtain hnone | hsame | hnew := h.call
  · rw [hnone] at hk
    cases hk
  · exact htu k (hsame.symm.trans hk) huk
  · obtain rfl := Option.some.inj (hnew.symm.trans hk)
    exact (hu.made hs huk).ne rfl

theorem Apart.symm (h : Apart t u) : Apart u t := fun k hu ht => h k ht hu

theorem session_outline : (protocol cfg owner).Outline (fun _ _ _ => True) (fun _ _ _ _ => True)
    (Checker.Sound cfg owner) (fun st t => t.Ok owner st) Apart where
  store hs ht _ h := (next_step h).sound hs ht
  own hs ht _ h := (next_step h).own hs ht
  other hs _ _ h hu htu _ _ := (next_step h).other hs hu htu.symm
  pair hs _ _ h hu htu _ _ :=
    ⟨(next_step h).apart hs hu htu, ((next_step h).apart hs hu htu).symm⟩

end
/-! ### Runs -/

def Task.opens : Task → Option ℕ
  | .running _ _ call _ phase => if phase = .closed then none else some call
  | _ => none

def Task.pending : Task → Option (SessionID × ℕ)
  | .running _ sid call _ phase => if phase.pending then some (sid, call) else none
  | _ => none

structure Attended (cfg : Config) (owner : SessionID → String) (w : World Checker Task) : Prop where
  opened : ∀ k c, w.store.calls.get? k = some c → c.closes = 0 →
    ∃ n, ((protocol cfg owner).task w n).opens = some k
  joined : ∀ sid k, w.store.inflight.get? sid = some k →
    ∃ n, ((protocol cfg owner).task w n).pending = some (sid, k)

section
variable {cfg : Config} {owner : SessionID → String} {st st' : Checker} {t t' : Task}

theorem Step.opened (h : Step cfg owner st t st' t') {k : ℕ} {c' : SessionCall}
    (hc' : st'.calls.get? k = some c') (hzero : c'.closes = 0) :
    t'.opens = some k ∨
      (∃ c, st.calls.get? k = some c ∧ c.closes = 0) ∧ (t.opens = some k → t'.opens = some k) := by
  have hanswer : ∀ m sid call, (st.answerOf m sid call).calls.get? k = some c' →
      ∃ c, st.calls.get? k = some c ∧ c.closes = 0 := by
    intro m sid call hget
    rw [(answerOf_rest st m sid call).1] at hget
    exact ⟨c', hget, hzero⟩
  cases h with
  | refused => exact .inr ⟨⟨c', hc', hzero⟩, by rintro ⟨⟩⟩
  | began => exact .inr ⟨⟨c', hc', hzero⟩, by rintro ⟨⟩⟩
  | evicted =>
    obtain ⟨c, hc, hcloses⟩ := evictLocal_call_of hc'
    exact .inr ⟨⟨c, hc, hcloses.symm.trans hzero⟩, by rintro ⟨⟩⟩
  | hit => exact .inr ⟨⟨c', hc', hzero⟩, by rintro ⟨⟩⟩
  | joined => exact .inr ⟨⟨c', hc', hzero⟩, by rintro ⟨⟩⟩
  | registered =>
    rw [register_call] at hc'
    split at hc'
    · rename_i hk
      rw [hk]
      exact .inl rfl
    · exact .inr ⟨⟨c', hc', hzero⟩, by rintro ⟨⟩⟩
  | received => exact .inr ⟨hanswer _ _ _ hc', by rintro ⟨⟩⟩
  | cancelled => exact .inr ⟨⟨c', hc', hzero⟩, by rintro ⟨⟩⟩
  | requested => exact .inr ⟨⟨c', hc', hzero⟩, id⟩
  | replied =>
    obtain ⟨c, hc, rfl⟩ := modify_call hc'
    refine .inr ⟨⟨c, hc, ?_⟩, id⟩
    split at hzero
    · exact hzero
    · exact hzero
  | panicked hphase =>
    refine .inr ⟨⟨c', hc', hzero⟩, ?_⟩
    obtain rfl | rfl := hphase
    · exact id
    · exact id
  | @cleaned check sid call start phase now panicking hphase =>
    rw [(@cleanup_rest cfg st sid call start now).1] at hc'
    refine .inr ⟨⟨c', hc', hzero⟩, ?_⟩
    obtain rfl | rfl := hphase
    · exact id
    · exact id
  | @closed check sid call start panicking =>
    obtain ⟨c, hc, rfl⟩ := modify_call hc'
    split at hzero
    · cases hzero
    · rename_i hk
      refine .inr ⟨⟨c, hc, hzero⟩, fun hopens => absurd ?_ hk⟩
      exact (Option.some.inj hopens).symm
  | returned => exact .inr ⟨hanswer _ _ _ hc', by rintro ⟨⟩⟩

theorem Step.joinable (h : Step cfg owner st t st' t') {sid : SessionID} {k : ℕ}
    (hk : st'.inflight.get? sid = some k) :
    t'.pending = some (sid, k) ∨
      st.inflight.get? sid = some k ∧ (t.pending = some (sid, k) → t'.pending = some (sid, k)) := by
  cases h with
  | refused => exact .inr ⟨hk, by rintro ⟨⟩⟩
  | began => exact .inr ⟨hk, by rintro ⟨⟩⟩
  | evicted => exact .inr ⟨(Table.get?_deleteWhere.mp hk).1, by rintro ⟨⟩⟩
  | hit => exact .inr ⟨hk, by rintro ⟨⟩⟩
  | joined => exact .inr ⟨hk, by rintro ⟨⟩⟩
  | registered =>
    rw [register_inflight] at hk
    split at hk
    · rename_i hsid
      obtain rfl := Option.some.inj hk
      rw [hsid]
      exact .inl rfl
    · exact .inr ⟨hk, by rintro ⟨⟩⟩
  | @received m sid' call =>
    rw [(answerOf_rest st m sid' call).2.1] at hk
    exact .inr ⟨hk, by rintro ⟨⟩⟩
  | cancelled => exact .inr ⟨hk, by rintro ⟨⟩⟩
  | requested => exact .inr ⟨hk, id⟩
  | replied => exact .inr ⟨hk, id⟩
  | panicked hphase =>
    refine .inr ⟨hk, ?_⟩
    obtain rfl | rfl := hphase
    · exact id
    · exact id
  | @cleaned check sid' call start phase now panicking hphase =>
    rw [(@cleanup_rest cfg st sid' call start now).2.2.2] at hk
    obtain ⟨hold, hother⟩ := release_inflight.mp hk
    refine .inr ⟨hold, fun hpending => ?_⟩
    -- the row its own task gave up is not there any more
    have hmine : (sid', call) = (sid, k) := by
      obtain rfl | rfl := hphase
      · exact Option.some.inj hpending
      · exact Option.some.inj hpending
    cases hmine
    exact absurd rfl (hother rfl)
  | closed => exact .inr ⟨hk, by rintro ⟨⟩⟩
  | @returned m sid' call =>
    rw [(answerOf_rest st m sid' call).2.1] at hk
    exact .inr ⟨hk, by rintro ⟨⟩⟩

theorem Attended.step {w w' : World Checker Task} {na : ℕ × Act} (hw : Attended cfg owner w)
    (hstep : (protocol cfg owner).step w na = some w') : Attended cfg owner w' := by
  obtain ⟨n, act⟩ := na
  obtain ⟨-, d', t', hnext, rfl⟩ := Protocol.step_eq_some.mp hstep
  have h := next_step hnext
  have hself : (protocol cfg owner).task ⟨d', w.tasks.set n t'⟩ n = t' := Protocol.task_set_self _ _ _ _
  have hrest : ∀ m, m ≠ n → (protocol cfg owner).task ⟨d', w.tasks.set n t'⟩ m =
      (protocol cfg owner).task w m := fun m hm => Protocol.task_set_of_ne _ _ _ hm
  constructor
  · intro k c' hc' hzero
    obtain hnew | ⟨⟨c, hc, hold⟩, hkept⟩ := h.opened hc' hzero
    · exact ⟨n, by rw [hself]; exact hnew⟩
    · obtain ⟨m, hm⟩ := hw.opened k c hc hold
      by_cases hmn : m = n
      · subst hmn
        exact ⟨m, by rw [hself]; exact hkept hm⟩
      · exact ⟨m, by rw [hrest m hmn]; exact hm⟩
  · intro sid k hk
    obtain hnew | ⟨hold, hkept⟩ := h.joinable hk
    · exact ⟨n, by rw [hself]; exact hnew⟩
    · obtain ⟨m, hm⟩ := hw.joined sid k hold
      by_cases hmn : m = n
      · subst hmn
        exact ⟨m, by rw [hself]; exact hkept hm⟩
      · exact ⟨m, by rw [hrest m hmn]; exact hm⟩

theorem Checker.Sound.start : ({} : Checker).Sound cfg owner where
  made _ _ h := by cases h
  asked _ h := by cases h
  closes _ _ h := by cases h
  entry _ _ h := by cases h
  inflight _ _ h := by cases h
  answered _ _ _ _ _ h := by cases h
  served _ _ _ h := by cases h
  size := Nat.zero_le _

theorem Attended.start : Attended cfg owner { store := {} } where
  opened _ _ h := by cases h
  joined _ _ h := by cases h

theorem pending_eq_some {t : Task} {sid : SessionID} {k : ℕ} (h : t.pending = some (sid, k)) :
    ∃ m start phase, t = .running m sid k start phase ∧ phase.pending = true := by
  cases t with
  | running m sid' k' start phase =>
    change (if phase.pending then some (sid', k') else none) = _ at h
    split at h
    · rename_i hphase
      cases h
      exact ⟨m, start, phase, rfl, hphase⟩
    · cases h
  | _ => cases h

theorem opens_eq_some {t : Task} {k : ℕ} (h : t.opens = some k) :
    ∃ m sid start phase, t = .running m sid k start phase ∧ phase ≠ .closed := by
  cases t with
  | running m sid k' start phase =>
    cases phase with
    | closed => cases h
    | _ =>
      cases h
      exact ⟨m, sid, start, _, rfl, nofun⟩
  | _ => cases h

/-- A check that begins after a subject is evicted never answers live on a request sent before;
what is cached came from a known verdict; of the requests for one session callers may join one;
every call is closed once, as its task ends; and the cache keeps to its bounds. -/
theorem signed_out_not_live {w : World Checker Task} {steps : List (ℕ × Act)}
    (hrun : runFrom (protocol cfg owner).step { store := {} } steps = some w) :
    (∀ before after m sid email k, w.store.log = before ++ .evicted (owner sid) :: after →
      .began m sid ∈ after → .answered m sid .live email (some k) ∈ w.store.log →
      .asked k ∉ before) ∧
    (∀ sid e, w.store.entries.get? sid = some e → ∃ c, w.store.calls.get? e.call = some c ∧
      c.verdict ≠ .unavailable ∧ e.live = (c.verdict == .live)) ∧
    (∀ sid k, w.store.inflight.get? sid = some k ↔
      ∃ n, ((protocol cfg owner).task w n).pending = some (sid, k) ∧
        ∃ c, w.store.calls.get? k = some c ∧ c.evicted = false) ∧
    (∀ n n' sid k k' c c', ((protocol cfg owner).task w n).pending = some (sid, k) →
      ((protocol cfg owner).task w n').pending = some (sid, k') →
      w.store.calls.get? k = some c → w.store.calls.get? k' = some c' →
      c.evicted = false → c'.evicted = false → n = n') ∧
    (∀ k c, w.store.calls.get? k = some c →
      (c.closes = 0 ∧ ∃ n, ((protocol cfg owner).task w n).opens = some k) ∨
      (c.closes = 1 ∧ ∀ n, ((protocol cfg owner).task w n).opens ≠ some k)) ∧
    w.store.entries.rows.length ≤ cfg.maxEntries ∧
    ∀ sid now e, .served sid now e ∈ w.store.log → now - e.checkedAt < sessionCheckTTL := by
  have hholds := (Protocol.Holds.start .start trivial (fun _ h => by cases h)).run
    session_outline
    (along_of_forall (fun _ _ => ⟨trivial, trivial, fun _ _ _ => trivial⟩) _ _) hrun
  have hattended : Attended cfg owner w :=
    invariant_run (fun _ _ _ hw hstep => hw.step hstep) Attended.start hrun
  have hs := hholds.store
  -- a request others may join is the inflight one
  have hinflight : ∀ n sid k c, ((protocol cfg owner).task w n).pending = some (sid, k) →
      w.store.calls.get? k = some c → c.evicted = false → w.store.inflight.get? sid = some k := by
    intro n sid k c hn hc hkept
    obtain ⟨m, start, phase, ht, hphase⟩ := pending_eq_some hn
    have hok := hholds.each n
    rw [ht] at hok
    obtain ⟨-, -, c₀, hc₀, -, -, -, hpending⟩ := hok
    obtain rfl := Option.some.inj (hc.symm.trans hc₀)
    exact hpending hphase hkept
  refine ⟨fun before after m sid email k hlog hbegan hanswered => ?_, fun sid e he => ?_,
    fun sid k => ⟨fun hk => ?_, ?_⟩, fun n n' sid k k' c c' hn hn' hc hc' hkept hkept' => ?_,
    fun k c hc => ?_, hs.size, hs.served⟩
  · exact (hs.answered m sid .live email k hanswered).2 before after hlog ⟨sid, hbegan⟩
  · exact (hs.entry sid e he).2.2
  · obtain ⟨-, c, hc, -, hkept⟩ := hs.inflight sid k hk
    obtain ⟨n, hn⟩ := hattended.joined sid k hk
    exact ⟨n, hn, c, hc, hkept⟩
  · rintro ⟨n, hn, c, hc, hkept⟩
    exact hinflight n sid k c hn hc hkept
  · have hk := hinflight n sid k c hn hc hkept
    have hk' := hinflight n' sid k' c' hn' hc' hkept'
    obtain rfl := Option.some.inj (hk.symm.trans hk')
    by_contra hne
    obtain ⟨m, start, phase, ht, -⟩ := pending_eq_some hn
    obtain ⟨m', start', phase', ht', -⟩ := pending_eq_some hn'
    have hapart := hholds.pair n n' hne
    rw [ht, ht'] at hapart
    exact hapart k rfl rfl
  · have hrunning : ∀ n, ((protocol cfg owner).task w n).opens = some k → c.closes = 0 := by
      intro n hn
      obtain ⟨m, sid, start, phase, ht, hphase⟩ := opens_eq_some hn
      have hok := hholds.each n
      rw [ht] at hok
      obtain ⟨-, -, c₀, hc₀, -, hcloses, -⟩ := hok
      obtain rfl := Option.some.inj (hc.symm.trans hc₀)
      rw [hcloses]
      cases phase with
      | closed => exact absurd rfl hphase
      | _ => rfl
    obtain hzero | hone := Nat.le_one_iff_eq_zero_or_eq_one.mp (hs.closes k c hc)
    · exact .inl ⟨hzero, hattended.opened k c hc hzero⟩
    · refine .inr ⟨hone, fun n hn => ?_⟩
      rw [hrunning n hn] at hone
      cases hone

end

def signOutSteps : List (ℕ × Act) :=
  let live := Reply.response 200 none (some { email := "ada@eze.ng", emailConfirmedAt := some "2026" })
  let first (acts : List Act) : List (ℕ × Act) := acts.map fun act => (1, act)
  let second (acts : List Act) : List (ℕ × Act) := acts.map fun act => (2, act)
  first [.check "s1", .lookup 5, .request] ++ [(0, .evictSubject "ada")] ++
    second [.check "s1", .lookup 6] ++ first [.reply live, .cleanup 7, .close, .answer] ++
    second [.request, .reply live, .cleanup 8, .close, .answer]

def signOutConfig : Config := { userURL := "/user", maxEntries := 2 }

theorem signed_out_not_live_sample :
    ∃ w, runFrom (protocol signOutConfig fun _ => "ada").step { store := {} } signOutSteps = some w ∧
      .answered 1 "s1" .live "ada@eze.ng" (some 1) ∈ w.store.log ∧ w.store.entries.rows.length ≤ 2 ∧
      ∀ before after, w.store.log = before ++ .evicted "ada" :: after →
        .began 1 "s1" ∈ after → .asked 1 ∉ before := by
  have htest : (runFrom (protocol signOutConfig fun _ => "ada").step { store := {} } signOutSteps).any
      (fun w => decide (.answered 1 "s1" .live "ada@eze.ng" (some 1) ∈ w.store.log)) = true := by
    decide +kernel
  obtain ⟨w, hrun, hw⟩ := (Option.any_eq_true _ _).mp htest
  have hanswered := of_decide_eq_true hw
  obtain ⟨hlive, -, -, -, -, hsize, -⟩ := signed_out_not_live hrun
  exact ⟨w, hrun, hanswered, hsize, fun before after hlog hbegan =>
    hlive before after 1 "s1" _ 1 hlog hbegan hanswered⟩

end InvoiceOs.Gateway
