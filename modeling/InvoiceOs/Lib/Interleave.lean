import InvoiceOs.Lib.Run
import InvoiceOs.Lib.Table

/-! Interleaved tasks over one store, each step atomic and each lock kept to the end of its
task, with the proof rule for invariants: what holds of the store, of each task, and of
every two tasks, is kept by every step of any one of them. -/

namespace InvoiceOs.Lib

universe u

/-- A step takes its locks before it runs, and a task holds only locks it took. -/
structure Protocol (δ τ α Λ : Type u) where
  idle : τ
  holds : τ → List Λ
  needs : δ → τ → α → List Λ
  conflicts : Λ → Λ → Bool
  next : δ → τ → α → Option (δ × τ)
  holds_idle : holds idle = []
  conflicts_symm : ∀ a b, conflicts a b = true → conflicts b a = true
  holds_next : ∀ d t a d' t', next d t a = some (d', t') →
    ∀ l ∈ holds t', l ∈ holds t ∨ l ∈ needs d t a

structure World (δ τ : Type u) where
  store : δ
  tasks : Table ℕ τ := ∅

namespace Protocol

variable {δ τ α Λ : Type u} (p : Protocol δ τ α Λ)

def task (w : World δ τ) (n : ℕ) : τ := (w.tasks.get? n).getD p.idle

def Apart (as bs : List Λ) : Prop := ∀ a ∈ as, ∀ b ∈ bs, p.conflicts a b = false

def blocked (w : World δ τ) (n : ℕ) (a : α) : Bool :=
  w.tasks.rows.any fun e => e.1 != n &&
    (p.needs w.store (p.task w n) a).any fun l => (p.holds e.2).any (p.conflicts l)

def step (w : World δ τ) (na : ℕ × α) : Option (World δ τ) :=
  if p.blocked w na.1 na.2 then none
  else (p.next w.store (p.task w na.1) na.2).map fun e =>
    { store := e.1, tasks := w.tasks.set na.1 e.2 }

def Exclusive (w : World δ τ) : Prop :=
  ∀ m n, m ≠ n → p.Apart (p.holds (p.task w m)) (p.holds (p.task w n))

def Quiet (w : World δ τ) : Prop := ∀ n, p.task w n = p.idle

def Meets (C : δ → τ → α → Prop) (D : δ → τ → α → τ → Prop) (w : World δ τ) (na : ℕ × α) : Prop :=
  C w.store (p.task w na.1) na.2 ∧ D w.store (p.task w na.1) na.2 p.idle ∧
    ∀ e ∈ w.tasks.rows, e.1 ≠ na.1 → D w.store (p.task w na.1) na.2 e.2

instance (C : δ → τ → α → Prop) (D : δ → τ → α → τ → Prop) [∀ d t a, Decidable (C d t a)]
    [∀ d t a u, Decidable (D d t a u)] (w : World δ τ) (na : ℕ × α) :
    Decidable (p.Meets C D w na) := by
  unfold Meets
  infer_instance

/-- An invariant by parts: of the store, of each task over it, and of every two tasks. -/
structure Holds (I : δ → Prop) (L : δ → τ → Prop) (R : τ → τ → Prop) (w : World δ τ) : Prop where
  store : I w.store
  each : ∀ n, L w.store (p.task w n)
  pair : ∀ m n, m ≠ n → R (p.task w m) (p.task w n)
  exclusive : p.Exclusive w

/-- What one step owes: the parts after it, its own task's and every other task's. -/
structure Outline (C : δ → τ → α → Prop) (D : δ → τ → α → τ → Prop) (I : δ → Prop)
    (L : δ → τ → Prop) (R : τ → τ → Prop) : Prop where
  store : ∀ {d t a d' t'}, I d → L d t → C d t a → p.next d t a = some (d', t') → I d'
  own : ∀ {d t a d' t'}, I d → L d t → C d t a → p.next d t a = some (d', t') → L d' t'
  other : ∀ {d t a d' t' u}, I d → L d t → C d t a → p.next d t a = some (d', t') →
    L d u → R t u → D d t a u → p.Apart (p.holds t ++ p.needs d t a) (p.holds u) → L d' u
  pair : ∀ {d t a d' t' u}, I d → L d t → C d t a → p.next d t a = some (d', t') →
    L d u → R t u → D d t a u → p.Apart (p.holds t ++ p.needs d t a) (p.holds u) →
    R t' u ∧ R u t'

variable {p} {C : δ → τ → α → Prop} {D : δ → τ → α → τ → Prop} {I : δ → Prop}
  {L : δ → τ → Prop} {R : τ → τ → Prop} {w w' : World δ τ}

theorem task_cases (w : World δ τ) (m : ℕ) :
    p.task w m = p.idle ∨ (m, p.task w m) ∈ w.tasks.rows := by
  unfold task
  cases hu : w.tasks.get? m with
  | none => exact .inl rfl
  | some u => exact .inr (Table.mem_rows.mpr hu)

theorem Meets.other {n : ℕ} {a : α} (h : p.Meets C D w (n, a)) {m : ℕ} (hm : m ≠ n) :
    D w.store (p.task w n) a (p.task w m) := by
  rcases task_cases (p := p) w m with hidle | hrow
  · rw [hidle]
    exact h.2.1
  · exact h.2.2 _ hrow hm

theorem Quiet.of_rows (h : ∀ e ∈ w.tasks.rows, e.2 = p.idle) : p.Quiet w := by
  intro n
  rcases task_cases (p := p) w n with hidle | hrow
  · exact hidle
  · exact h _ hrow

theorem Apart.symm {as bs : List Λ} (h : p.Apart as bs) : p.Apart bs as := by
  intro b hb a ha
  have hab := h a ha b hb
  rw [Bool.eq_false_iff] at hab ⊢
  exact fun hba => hab (p.conflicts_symm b a hba)

theorem apart_of_not_blocked {n : ℕ} {a : α} (h : p.blocked w n a = false) {m : ℕ}
    (hm : m ≠ n) : p.Apart (p.needs w.store (p.task w n) a) (p.holds (p.task w m)) := by
  intro l hl b hb
  rcases task_cases (p := p) w m with hidle | hrow
  · rw [hidle, p.holds_idle] at hb
    cases hb
  · rw [Bool.eq_false_iff] at h ⊢
    intro hc
    refine h (List.any_eq_true.mpr ⟨_, hrow, ?_⟩)
    rw [Bool.and_eq_true]
    exact ⟨bne_iff_ne.mpr hm, List.any_eq_true.mpr ⟨l, hl, List.any_eq_true.mpr ⟨b, hb, hc⟩⟩⟩

theorem step_eq_some {n : ℕ} {a : α} : p.step w (n, a) = some w' ↔ p.blocked w n a = false ∧
    ∃ d' t', p.next w.store (p.task w n) a = some (d', t') ∧
      w' = { store := d', tasks := w.tasks.set n t' } := by
  unfold step
  split
  · rename_i hb
    simp only [hb, reduceCtorEq, Bool.true_eq_false, false_and]
  · rename_i hb
    simp only [Bool.not_eq_true] at hb
    simp only [hb, true_and, Option.map_eq_some_iff, Prod.exists]
    constructor
    · rintro ⟨d', t', hn, rfl⟩
      exact ⟨d', t', hn, rfl⟩
    · rintro ⟨d', t', hn, rfl⟩
      exact ⟨d', t', hn, rfl⟩

theorem task_set_self (d : δ) (tasks : Table ℕ τ) (n : ℕ) (t : τ) :
    p.task { store := d, tasks := tasks.set n t } n = t := by
  simp only [task, Table.get?_set_self, Option.getD_some]

theorem task_set_of_ne (d : δ) (tasks : Table ℕ τ) {m n : ℕ} (t : τ) (h : m ≠ n) :
    p.task { store := d, tasks := tasks.set n t } m = (tasks.get? m).getD p.idle := by
  simp only [task, Table.get?_set_of_ne _ _ h]

theorem apart_step {n : ℕ} {a : α} (hx : p.Exclusive w) (hb : p.blocked w n a = false) {m : ℕ}
    (hm : m ≠ n) :
    p.Apart (p.holds (p.task w n) ++ p.needs w.store (p.task w n) a) (p.holds (p.task w m)) := by
  intro l hl
  rcases List.mem_append.mp hl with hl | hl
  · exact hx n m hm.symm l hl
  · exact apart_of_not_blocked hb hm l hl

theorem Holds.step (o : p.Outline C D I L R) {na : ℕ × α} (h : p.Holds I L R w)
    (hmeets : p.Meets C D w na) (hstep : p.step w na = some w') : p.Holds I L R w' := by
  obtain ⟨n, a⟩ := na
  obtain ⟨hb, d', t', hn, rfl⟩ := step_eq_some.mp hstep
  have hC := hmeets.1
  have hD := fun m (hm : m ≠ n) => hmeets.other hm
  have hapart := fun m (hm : m ≠ n) => apart_step h.exclusive hb hm
  have hother : ∀ m, m ≠ n → p.task ⟨d', w.tasks.set n t'⟩ m = p.task w m :=
    fun m hm => task_set_of_ne d' w.tasks t' hm
  have hsub : ∀ l ∈ p.holds t', l ∈ p.holds (p.task w n) ++ p.needs w.store (p.task w n) a := by
    intro l hl
    exact List.mem_append.mpr (p.holds_next _ _ _ _ _ hn l hl)
  constructor
  · exact o.store h.store (h.each n) hC hn
  · intro m
    by_cases hm : m = n
    · subst hm
      rw [task_set_self]
      exact o.own h.store (h.each m) hC hn
    · rw [hother m hm]
      exact o.other h.store (h.each n) hC hn (h.each m) (h.pair n m (Ne.symm hm)) (hD m hm)
        (hapart m hm)
  · intro m k hmk
    have hpair : ∀ j, j ≠ n → R t' (p.task w j) ∧ R (p.task w j) t' := fun j hj =>
      o.pair h.store (h.each n) hC hn (h.each j) (h.pair n j (Ne.symm hj)) (hD j hj) (hapart j hj)
    by_cases hm : m = n
    · subst hm
      rw [task_set_self, hother k (Ne.symm hmk)]
      exact (hpair k (Ne.symm hmk)).1
    · rw [hother m hm]
      by_cases hk : k = n
      · subst hk
        rw [task_set_self]
        exact (hpair m hm).2
      · rw [hother k hk]
        exact h.pair m k hmk
  · intro m k hmk
    by_cases hm : m = n
    · subst hm
      rw [task_set_self, hother k (Ne.symm hmk)]
      exact fun l hl => hapart k (Ne.symm hmk) l (hsub l hl)
    · rw [hother m hm]
      by_cases hk : k = n
      · subst hk
        rw [task_set_self]
        exact Apart.symm fun l hl => hapart m hm l (hsub l hl)
      · rw [hother k hk]
        exact h.exclusive m k hmk

theorem Holds.run (o : p.Outline C D I L R) {steps : List (ℕ × α)} (h : p.Holds I L R w)
    (hmeets : Along p.step (p.Meets C D) w steps) (hrun : runFrom p.step w steps = some w') :
    p.Holds I L R w' :=
  invariant_along (fun _ _ _ hw hm hs => hw.step o hm hs) h hmeets hrun

theorem Holds.start {d : δ} (hI : I d) (hL : L d p.idle) (hR : R p.idle p.idle) :
    p.Holds I L R { store := d } where
  store := hI
  each := fun _ => hL
  pair := fun _ _ _ => hR
  exclusive := by
    intro m n _ a ha
    have hidle : p.holds (p.task { store := d } m) = [] := p.holds_idle
    rw [hidle] at ha
    cases ha

/-! ### A task on its own -/

def Solo (w : World δ τ) (n : ℕ) : Prop := ∀ m, m ≠ n → p.task w m = p.idle

def alone (s : δ × τ) (a : α) : Option (δ × τ) := p.next s.1 s.2 a

theorem Solo.not_blocked {n : ℕ} (h : p.Solo w n) (a : α) : p.blocked w n a = false := by
  rw [Bool.eq_false_iff]
  intro hb
  obtain ⟨e, he, hb⟩ := List.any_eq_true.mp hb
  obtain ⟨hne, hneeds⟩ := Bool.and_eq_true _ _ ▸ hb
  have hrow : w.tasks.get? e.1 = some e.2 := Table.mem_rows.mp he
  have hidle := h e.1 (bne_iff_ne.mp hne)
  rw [task, hrow, Option.getD_some] at hidle
  rw [hidle, p.holds_idle] at hneeds
  obtain ⟨l, -, hl⟩ := List.any_eq_true.mp hneeds
  exact Bool.false_ne_true hl

theorem Solo.step {n : ℕ} (h : p.Solo w n) {a : α} {s : δ × τ}
    (hnext : p.alone (w.store, p.task w n) a = some s) :
    ∃ w', p.step w (n, a) = some w' ∧ p.Solo w' n ∧ (w'.store, p.task w' n) = s := by
  refine ⟨⟨s.1, w.tasks.set n s.2⟩, step_eq_some.mpr ⟨h.not_blocked a, s.1, s.2, hnext, rfl⟩,
    fun m hm => ?_, ?_⟩
  · rw [task_set_of_ne _ _ _ hm]
    exact h m hm
  · rw [task_set_self]

theorem Solo.run {n : ℕ} {acts : List α} {s : δ × τ} (h : p.Solo w n)
    (hrun : runFrom p.alone (w.store, p.task w n) acts = some s) :
    ∃ w', runFrom p.step w (acts.map (n, ·)) = some w' ∧ (w'.store, p.task w' n) = s := by
  induction acts generalizing w with
  | nil => exact ⟨w, rfl, Option.some.inj hrun⟩
  | cons a acts ih =>
    obtain ⟨s', hs', hrest⟩ := runFrom_cons.mp hrun
    obtain ⟨w', hw', hsolo, rfl⟩ := h.step hs'
    obtain ⟨v, hv, hs⟩ := ih hsolo hrest
    exact ⟨v, runFrom_cons.mpr ⟨w', hw', hv⟩, hs⟩

end Protocol
end InvoiceOs.Lib
