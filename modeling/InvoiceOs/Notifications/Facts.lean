import InvoiceOs.Notifications.Merge

/-! What a merge and a delivery may do to the row of an address, and what the history says of a
delivery. -/

namespace InvoiceOs.Notifications.Merge

structure Facts where
  registered : Bool
  demo : Bool
  consent : Bool
  deriving DecidableEq

def Row.facts (c : Row) : Facts :=
  ⟨c.registeredAt.isSome, c.demoRequestedAt.isSome, c.marketingConsentedAt.isSome⟩

def Contact.facts (k : Contact) : Facts :=
  ⟨k.tags.contains "registered", k.tags.contains "demo request", k.marketingEligible⟩

theorem contactOf_facts (c : Row) : (contactOf c).facts = c.facts := by
  cases hr : c.registeredAt <;> cases hd : c.demoRequestedAt <;>
    simp [contactOf, Contact.facts, Row.facts, hr, hd]

theorem applies_of_facts {c c' : Row} (h : c'.facts = c.facts) (dest : Dest) :
    c'.applies dest = c.applies dest := by
  simp only [Row.facts, Facts.mk.injEq] at h
  cases dest with
  | hubspot => rfl
  | resend => simp only [Row.applies, h.1, h.2.2]

structure Row.Keeps (c c' : Row) : Prop where
  registered : ∀ t, c.registeredAt = some t → c'.registeredAt = some t
  demo : ∀ t, c.demoRequestedAt = some t → c'.demoRequestedAt = some t
  consent : ∀ t, c.marketingConsentedAt = some t → c'.marketingConsentedAt = some t
  text : c.marketingConsentedAt.isSome = true → c'.marketingConsentText = c.marketingConsentText

def Row.TextOfConsent (c : Row) : Prop :=
  c.marketingConsentText.isSome = c.marketingConsentedAt.isSome

structure Later (c c' : Row) : Prop where
  keeps : c.Keeps c'
  version : c.version ≤ c'.version
  facts : c'.version = c.version → c'.facts = c.facts
  delivered : c'.version = c.version →
    ∀ dest, (c.deliveredAt dest).isSome = true → (c'.deliveredAt dest).isSome = true

theorem Row.Keeps.refl (c : Row) : c.Keeps c :=
  ⟨fun _ h => h, fun _ h => h, fun _ h => h, fun _ => rfl⟩

theorem Row.Keeps.trans {a b c : Row} (hab : a.Keeps b) (hbc : b.Keeps c) : a.Keeps c where
  registered t h := hbc.registered t (hab.registered t h)
  demo t h := hbc.demo t (hab.demo t h)
  consent t h := hbc.consent t (hab.consent t h)
  text h := by
    obtain ⟨t, ht⟩ := Option.isSome_iff_exists.mp h
    have hb : b.marketingConsentedAt.isSome = true := by
      rw [hab.consent t ht]
      rfl
    rw [hbc.text hb, hab.text h]

theorem Later.refl (c : Row) : Later c c :=
  ⟨.refl c, le_rfl, fun _ => rfl, fun _ _ h => h⟩

theorem Later.trans {a b c : Row} (hab : Later a b) (hbc : Later b c) : Later a c := by
  have hmid : c.version = a.version → b.version = a.version ∧ c.version = b.version := by
    have := hab.version
    have := hbc.version
    omega
  constructor
  · exact hab.keeps.trans hbc.keeps
  · exact hab.version.trans hbc.version
  · intro h
    rw [hbc.facts (hmid h).2, hab.facts (hmid h).1]
  · intro h dest hdelivered
    exact hbc.delivered (hmid h).2 dest (hab.delivered (hmid h).1 dest hdelivered)

/-! ### A merge -/

section
variable {c e : Row}

theorem newFact_eq_false : newFact c e = false ↔
    (c.registeredAt.isNone = true → e.registeredAt.isSome = false) ∧
    (c.demoRequestedAt.isNone = true → e.demoRequestedAt.isSome = false) ∧
    (c.marketingConsentedAt.isNone = true → e.marketingConsentedAt.isSome = false) := by
  simp only [newFact, Bool.or_eq_false_iff, Bool.and_eq_false_imp, and_assoc]

theorem or_isSome_of_old {α : Type} {a b : Option α} (h : a.isNone = true → b.isSome = false) :
    (a.or b).isSome = a.isSome := by
  cases a with
  | none => exact h rfl
  | some _ => rfl

theorem update_facts (h : newFact c e = false) : (update c e).facts = c.facts := by
  obtain ⟨hregistered, hdemo, hconsent⟩ := newFact_eq_false.mp h
  simp only [Row.facts, update, or_isSome_of_old hregistered, or_isSome_of_old hdemo,
    or_isSome_of_old hconsent]

theorem update_delivered (dest : Dest) : (update c e).deliveredAt dest =
    if newFact c e then none else c.deliveredAt dest := by
  cases dest with
  | hubspot => rfl
  | resend => rfl

theorem update_version : (update c e).version = c.version ↔ newFact c e = false := by
  unfold update
  cases newFact c e <;> simp

theorem update_later (htext : c.TextOfConsent) (e : Row) : Later c (update c e) := by
  constructor
  · constructor
    · intro t h
      simp only [update, h, Option.some_or]
    · intro t h
      simp only [update, h, Option.some_or]
    · intro t h
      simp only [update, h, Option.some_or]
    · intro h
      obtain ⟨text, ht⟩ := Option.isSome_iff_exists.mp (htext.trans h)
      simp only [update, ht, Option.some_or]
  · exact Nat.le_add_right _ _
  · intro h
    exact update_facts (update_version.mp h)
  · intro h dest hdelivered
    rw [update_delivered, update_version.mp h]
    exact hdelivered

theorem mergeRow_cases {row : Option Row} {merged : Row} {fact : Bool}
    (h : mergeRow row e = (merged, fact)) :
    (row = none ∧ merged = e ∧ fact = true) ∨
      ∃ c, row = some c ∧ merged = update c e ∧ fact = newFact c e := by
  cases row with
  | none =>
    cases h
    exact .inl ⟨rfl, rfl, rfl⟩
  | some c =>
    cases h
    exact .inr ⟨c, rfl, rfl, rfl⟩

theorem update_text (hc : c.TextOfConsent) (he : e.TextOfConsent) : (update c e).TextOfConsent := by
  unfold Row.TextOfConsent at hc he ⊢
  simp only [update, Option.isSome_or, hc, he]

theorem excluded_text (now : ℕ) (i : Intake) : (excluded now i).TextOfConsent := by
  unfold Row.TextOfConsent excluded
  by_cases h : i.consentText = ""
  · simp only [h, if_true, Option.isSome_none]
  · simp only [h, if_false, Option.isSome_some]

theorem excluded_delivered (now : ℕ) (i : Intake) (dest : Dest) :
    (excluded now i).deliveredAt dest = none := by
  cases dest with
  | hubspot => rfl
  | resend => rfl

end

/-! ### A delivery -/

structure Touched (args : DeliverArgs) (optIn : Bool) (c c' : Row) : Prop where
  later : Later c c'
  version : c'.version = c.version
  text : c'.TextOfConsent ↔ c.TextOfConsent
  optedIn : optIn = true →
    args.dest = .resend ∧ c.resendOptInSentAt = none ∧ c'.resendOptInSentAt.isSome = true
  optInKept : optIn = false → c'.resendOptInSentAt = c.resendOptInSentAt
  delivered : ∀ dest, (c'.deliveredAt dest).isSome = true →
    (c.deliveredAt dest).isSome = true ∨ dest = args.dest ∧ c.version = args.version

theorem Touched.refl (args : DeliverArgs) (c : Row) : Touched args false c c where
  later := .refl c
  version := rfl
  text := Iff.rfl
  optedIn := nofun
  optInKept _ := rfl
  delivered _ h := .inl h

theorem markOptIn_touched {args : DeliverArgs} {c : Row} (hdest : args.dest = .resend)
    (hnone : c.resendOptInSentAt = none) (now : ℕ) : Touched args true c (c.markOptIn now) where
  later := ⟨⟨fun _ h => h, fun _ h => h, fun _ h => h, fun _ => rfl⟩, le_rfl, fun _ => rfl,
    fun _ dest h => by cases dest <;> exact h⟩
  version := rfl
  text := Iff.rfl
  optedIn _ := ⟨hdest, hnone, rfl⟩
  optInKept := nofun
  delivered dest h := .inl (by cases dest <;> exact h)

theorem recordDelivered_at (c : Row) (dest : Dest) (now : ℕ) (mode : String) (dest' : Dest) :
    (c.recordDelivered dest now mode).deliveredAt dest' =
      if dest' = dest then some now else c.deliveredAt dest' := by
  cases dest <;> cases dest' <;> rfl

theorem Touched.record {args : DeliverArgs} {optIn : Bool} {c c' : Row}
    (h : Touched args optIn c c') (hversion : c'.version = args.version) (now : ℕ)
    (mode : String) : Touched args optIn c (c'.recordDelivered args.dest now mode) := by
  have hkept : (c'.recordDelivered args.dest now mode).version = c'.version ∧
      (c'.recordDelivered args.dest now mode).facts = c'.facts ∧
      (c'.recordDelivered args.dest now mode).resendOptInSentAt = c'.resendOptInSentAt := by
    cases args.dest <;> exact ⟨rfl, rfl, rfl⟩
  have hkeeps : c'.Keeps (c'.recordDelivered args.dest now mode) := by
    cases args.dest <;> exact ⟨fun _ h => h, fun _ h => h, fun _ h => h, fun _ => rfl⟩
  have htext : (c'.recordDelivered args.dest now mode).TextOfConsent ↔ c'.TextOfConsent := by
    cases args.dest <;> exact Iff.rfl
  obtain ⟨hv, hfacts, hoptIn⟩ := hkept
  constructor
  · refine h.later.trans ⟨hkeeps, hv.ge, fun _ => hfacts, fun _ dest hd => ?_⟩
    rw [recordDelivered_at]
    split
    · rfl
    · exact hd
  · exact hv.trans h.version
  · exact htext.trans h.text
  · rw [hoptIn]
    exact h.optedIn
  · rw [hoptIn]
    exact h.optInKept
  · intro dest hd
    rw [recordDelivered_at] at hd
    split at hd
    · rename_i hdest
      exact .inr ⟨hdest, h.version.symm.trans hversion⟩
    · exact h.delivered dest hd

/-! ### The history -/

def Called (log : List Event) (dest : Dest) (f : Facts) : Prop :=
  ∃ before k after, log = before ++ .call dest k :: after ∧ k.facts = f ∧ Event.fact ∉ after

theorem Called.append {log new : List Event} {dest : Dest} {f : Facts} (h : Called log dest f)
    (hnew : Event.fact ∉ new) : Called (log ++ new) dest f := by
  obtain ⟨before, k, after, rfl, hk, hafter⟩ := h
  refine ⟨before, k, after ++ new, ?_, hk, ?_⟩
  · simp only [List.append_assoc, List.cons_append]
  · simp only [List.mem_append, not_or]
    exact ⟨hafter, hnew⟩

theorem called_now (log : List Event) (dest : Dest) (c : Row) :
    Called (log ++ [.call dest (contactOf c)]) dest c.facts :=
  ⟨log, contactOf c, [], rfl, contactOf_facts c, List.not_mem_nil⟩

end InvoiceOs.Notifications.Merge
