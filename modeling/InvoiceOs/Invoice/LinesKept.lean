import InvoiceOs.Invoice.LineCarry
import InvoiceOs.Invoice.Row

/-! What a line replace keeps of the stored lines' NRS columns. -/

namespace InvoiceOs.Invoice

open Lib

section
variable {D : Type} [DecidableEq D] (newFromString : String → Option D)

def Carried (before : List Line) (l : LineEntry) : LineEntry × Option ℕ → Prop
  | (l', none) => l' = l ∧ l.id = none
  | (l', some j) => ∃ s, before[j]? = some s ∧ l' = fillNRS l s ∧
      (∀ id, l.id = some id → toLower s.id.text = toLower id) ∧
      (l.id = none → hasNRS l = false ∧ sameLegacyContent newFromString l s = true)

def Named (before : List Line) (l : LineEntry) (o : LineEntry × Option ℕ) : Prop :=
  Carried newFromString before l o ∧ (l.id = none → o.2 = none)

@[simp] theorem fillNRS_id (l : LineEntry) (s : Line) : (fillNRS l s).id = l.id := rfl

@[simp] theorem fillNRS_nrsValues (l : LineEntry) (s : Line) :
    (fillNRS l s).nrsValues = List.zipWith Option.or l.nrsValues s.nrsValues := rfl

variable {newFromString} {before : List Line}

theorem byID_eq_some {id : String} {j : ℕ} (h : byID before id = some j) :
    ∃ s, before[j]? = some s ∧ toLower s.id.text = toLower id := by
  obtain ⟨s, hs, hid⟩ := getElem?_of_indexOfKey h
  exact ⟨s, hs, hid⟩

variable (newFromString) in
theorem claimByID_eq_ok {claimed : List ℕ} {ls : List LineEntry}
    {out : List (LineEntry × Option ℕ)} {claimed' : List ℕ}
    (h : claimByID before claimed ls = .ok (out, claimed')) :
    List.Forall₂ (Named newFromString before) ls out ∧
      claimed' = (out.filterMap Prod.snd).reverse ++ claimed ∧
      (claimed.Nodup → claimed'.Nodup) := by
  induction ls generalizing claimed out claimed' with
  | nil =>
    cases h
    exact ⟨.nil, rfl, id⟩
  | cons l ls ih =>
    unfold claimByID at h
    cases hid : l.id with
    | none =>
      simp only [hid, bind_eq_ok, pure_eq_ok, Prod.mk.injEq] at h
      obtain ⟨⟨out', c⟩, hrest, rfl, rfl⟩ := h
      obtain ⟨hcarried, hclaimed, hnodup⟩ := ih hrest
      exact ⟨.cons ⟨⟨rfl, hid⟩, fun _ => rfl⟩ hcarried, hclaimed, hnodup⟩
    | some id =>
      simp only [hid] at h
      cases hj : byID before id with
      | none =>
        simp only [hj, throw_ne_ok] at h
      | some j =>
        simp only [hj, check_eq_ok, bind_eq_ok, pure_eq_ok, Prod.mk.injEq] at h
        obtain ⟨hfree, ⟨out', c⟩, hrest, rfl, rfl⟩ := h
        obtain ⟨hcarried, hclaimed, hnodup⟩ := ih hrest
        obtain ⟨s, hs, hkey⟩ := byID_eq_some hj
        have hsome : l.id ≠ none := by
          rw [hid]
          exact Option.some_ne_none id
        refine ⟨.cons ⟨⟨s, hs, ?_, ?_, ?_⟩, ?_⟩ hcarried, ?_, ?_⟩
        · rw [hs]
          rfl
        · intro id' hid'
          rw [hid] at hid'
          cases hid'
          exact hkey
        · exact fun hnone => absurd hnone hsome
        · exact fun hnone => absurd hnone hsome
        · simp only [hclaimed, List.filterMap_cons, List.reverse_cons, List.append_assoc,
            List.singleton_append]
        · intro hclean
          exact hnodup (List.nodup_cons.mpr ⟨hfree, hclean⟩)

theorem firstUnclaimed_eq_some {claimed : List ℕ} {l : LineEntry} {s : Line} {j : ℕ}
    (h : firstUnclaimed newFromString before claimed l = some (s, j)) :
    before[j]? = some s ∧ j ∉ claimed ∧ sameLegacyContent newFromString l s = true := by
  have hmem := List.mem_of_find?_eq_some h
  have htest := List.find?_some h
  rw [Bool.and_eq_true, decide_eq_true_iff] at htest
  exact ⟨List.mem_zipIdx_iff_getElem?.mp hmem, htest⟩

theorem claimByContent_carried {ls : List LineEntry} {mid : List (LineEntry × Option ℕ)}
    (h : List.Forall₂ (Named newFromString before) ls mid) (claimed : List ℕ) :
    List.Forall₂ (Carried newFromString before) ls
      (claimByContent newFromString before claimed mid) := by
  induction h generalizing claimed with
  | nil => exact .nil
  | @cons l o ls mid hl hmid ih =>
    obtain ⟨l', c⟩ := o
    obtain ⟨hcarried, hfree⟩ := hl
    unfold claimByContent
    split
    · exact .cons hcarried (ih claimed)
    · rename_i hskip
      split
      · exact .cons hcarried (ih claimed)
      · rename_i s j hfirst
        obtain ⟨hs, -, hsame⟩ := firstUnclaimed_eq_some hfirst
        rw [Bool.or_eq_true, not_or, Bool.not_eq_true, Bool.not_eq_true] at hskip
        have hid : l.id = none := by
          cases c with
          | none => exact hcarried.2
          | some j' =>
            obtain ⟨s', -, rfl, -⟩ := hcarried
            exact Option.not_isSome_iff_eq_none.mp (Bool.not_eq_true _ ▸ hskip.1)
        have hkept : l' = l := by
          cases c with
          | none => exact hcarried.1
          | some j' => cases hfree hid
        subst hkept
        refine .cons ⟨s, hs, rfl, ?_, fun _ => ⟨hskip.2, hsame⟩⟩ (ih (j :: claimed))
        intro id' hid'
        rw [hid] at hid'
        cases hid'

theorem claimByContent_claims {claimed : List ℕ} {mid : List (LineEntry × Option ℕ)}
    (hold : ∀ j ∈ mid.filterMap Prod.snd, j ∈ claimed)
    (hnodup : (mid.filterMap Prod.snd).Nodup) :
    (∀ j ∈ (claimByContent newFromString before claimed mid).filterMap Prod.snd,
        j ∈ mid.filterMap Prod.snd ∨ j ∉ claimed) ∧
      ((claimByContent newFromString before claimed mid).filterMap Prod.snd).Nodup := by
  induction mid generalizing claimed with
  | nil => exact ⟨fun j hj => .inl hj, hnodup⟩
  | cons o mid ih =>
    obtain ⟨l, c⟩ := o
    have hsub : ∀ j ∈ mid.filterMap Prod.snd, j ∈ ((l, c) :: mid).filterMap Prod.snd := by
      intro j hj
      cases c with
      | none => exact hj
      | some j' => exact List.mem_cons_of_mem _ hj
    have htail : (mid.filterMap Prod.snd).Nodup := by
      cases c with
      | none => exact hnodup
      | some j' => exact (List.nodup_cons.mp hnodup).2
    have hkeep := ih (fun j hj => hold j (hsub j hj)) htail
    have hunclaimed : (∀ j ∈ ((l, c) :: claimByContent newFromString before claimed mid).filterMap
          Prod.snd, j ∈ ((l, c) :: mid).filterMap Prod.snd ∨ j ∉ claimed) ∧
        (((l, c) :: claimByContent newFromString before claimed mid).filterMap Prod.snd).Nodup := by
      cases c with
      | none => exact hkeep
      | some j' =>
        refine ⟨?_, List.nodup_cons.mpr ⟨?_, hkeep.2⟩⟩
        · intro j hj
          obtain rfl | hj := List.mem_cons.mp hj
          · exact .inl List.mem_cons_self
          · exact (hkeep.1 j hj).imp (hsub j) id
        · intro hj
          have hheld : j' ∈ claimed := hold j' List.mem_cons_self
          rcases hkeep.1 j' hj with hmid | hfree
          · exact (List.nodup_cons.mp hnodup).1 hmid
          · exact hfree hheld
    unfold claimByContent
    split
    · exact hunclaimed
    · split
      · exact hunclaimed
      · rename_i s j hfirst
        obtain ⟨-, hfree, -⟩ := firstUnclaimed_eq_some hfirst
        have hnext := @ih (j :: claimed)
          (fun i hi => List.mem_cons_of_mem _ (hold i (hsub i hi))) htail
        refine ⟨?_, List.nodup_cons.mpr ⟨?_, hnext.2⟩⟩
        · intro i hi
          obtain rfl | hi := List.mem_cons.mp hi
          · exact .inr hfree
          · refine (hnext.1 i hi).imp (hsub i) ?_
            exact fun hno hmem => hno (List.mem_cons_of_mem _ hmem)
        · intro hj
          rcases hnext.1 j hj with hmid | hno
          · exact hfree (hold j (hsub j hmid))
          · exact hno List.mem_cons_self

theorem carryClaims_eq_ok {lines : List LineEntry} {out : List (LineEntry × Option ℕ)}
    (h : carryClaims newFromString before lines = .ok out) :
    List.Forall₂ (Carried newFromString before) lines out ∧ (out.filterMap Prod.snd).Nodup := by
  simp only [carryClaims, bind_eq_ok, pure_eq_ok] at h
  obtain ⟨⟨mid, claimed⟩, hfirst, rfl⟩ := h
  obtain ⟨hnamed, hclaimed, hnodup⟩ := claimByID_eq_ok newFromString hfirst
  have hclean := hnodup List.nodup_nil
  rw [List.append_nil] at hclaimed
  subst hclaimed
  refine ⟨claimByContent_carried hnamed _, (claimByContent_claims ?_ ?_).2⟩
  · exact fun j hj => List.mem_reverse.mpr hj
  · exact List.nodup_reverse.mp hclean

theorem Carried.own_value {l : LineEntry} {o : LineEntry × Option ℕ}
    (h : Carried newFromString before l o) {k : ℕ} {v : String}
    (hv : l.nrsValues[k]? = some (some v)) : o.1.nrsValues[k]? = some (some v) := by
  obtain ⟨l', c⟩ := o
  cases c with
  | none =>
    obtain ⟨rfl, -⟩ := h
    exact hv
  | some j =>
    obtain ⟨s, -, rfl, -⟩ := h
    have hcount : s.nrsValues.length = l.nrsValues.length := rfl
    have hk : k < s.nrsValues.length := by
      rw [hcount]
      exact (List.getElem?_eq_some_iff.mp hv).1
    rw [fillNRS_nrsValues, List.getElem?_zipWith, hv, List.getElem?_eq_getElem hk]
    rfl

theorem Carried.sent {l : LineEntry} {o : LineEntry × Option ℕ}
    (h : Carried newFromString before l o) (hid : l.id = none) (hsent : l.nrsSent = true) :
    o.1 = l := by
  obtain ⟨l', c⟩ := o
  cases c with
  | none => exact h.1
  | some j =>
    obtain ⟨s, -, -, -, hcontent⟩ := h
    have hnrs := (hcontent hid).1
    simp only [hasNRS, hsent, Bool.true_or] at hnrs
    cases hnrs

end

/-! ### Every line sent again -/

def LineItem.input (s : LineItem) : LineItemInput where
  description := s.description
  quantity := s.quantity
  unitPrice := s.unitPrice
  lineTotal := s.lineTotal
  lineTax := s.lineTax
  taxCategory := s.taxCategory
  hsnCode := s.hsnCode
  isicCode := s.isicCode
  productCategory := s.productCategory
  serviceCategory := s.serviceCategory
  sellersItemIdentification := s.sellersItemIdentification
  priceUnit := s.priceUnit
  taxPercent := s.taxPercent
  baseQuantity := s.baseQuantity

def resent (s : Line) : LineEntry where
  description := s.description
  quantity := s.quantity
  unitPrice := s.unitPrice
  lineTotal := s.lineTotal
  lineTax := s.lineTax

def LineItem.legacyValues (s : LineItem) : List (Option String) :=
  [s.description, s.quantity, s.unitPrice, s.lineTotal, s.lineTax]

theorem resent_congr {s p : Line} (h : s.legacyValues = p.legacyValues) : resent s = resent p := by
  simp only [LineItem.legacyValues, List.cons.injEq, and_true] at h
  obtain ⟨hdescription, hquantity, hprice, htotal, htax⟩ := h
  rw [resent, resent, hdescription, hquantity, hprice, htotal, htax]

theorem fillNRS_resent (s : Line) : (fillNRS (resent s) s).toLineItemInput = s.input := rfl

theorem map_input_replaceLines (ls : List LineItemInput) :
    (replaceLines ls).map LineItem.input = ls := by
  refine List.ext_getElem? fun i => ?_
  rw [List.getElem?_map, replaceLines, List.getElem?_mapIdx]
  cases ls[i]? <;> rfl

section
variable {numeric : ℕ → String → Option String}

def Stored (numeric : ℕ → String → Option String) (before : List Line) : Prop :=
  ∃ inputs, insertLines numeric inputs = .ok (before.map Line.toLineItem)

def Held (column : String → Option String) (v : Option String) : Prop := v.bind column = v

theorem held_bind {column : String → Option String}
    (hround : ∀ t u, column t = some u → column u = some u) (v : Option String) :
    Held column (v.bind column) := by
  cases v with
  | none => rfl
  | some t =>
    cases hu : column t with
    | none =>
      simp only [Held, Option.bind_some, hu, Option.bind_none]
    | some u =>
      simp only [Held, Option.bind_some, hu]
      exact hround t u hu

theorem Held.not_refused {column : String → Option String} {v : Option String}
    (h : Held column v) : refused column v = false := by
  rw [refused, h]
  cases v <;> rfl

theorem textColumn_round {t u : String} (h : textColumn t = some u) : textColumn u = some u := by
  unfold textColumn at h
  split at h
  · cases h
  · rename_i hclean
    cases h
    exact if_neg hclean

section
variable (hround : ∀ s t u, numeric s t = some u → numeric s u = some u)
include hround

theorem returned_fixed (l : LineItemInput) :
    insertable numeric (returned numeric l) = true ∧
      returned numeric (returned numeric l) = returned numeric l := by
  have htext : ∀ v : Option String, Held textColumn (v.bind textColumn) :=
    held_bind fun _ _ => textColumn_round
  have hnumeric : ∀ s (v : Option String), Held (numeric s) (v.bind (numeric s)) :=
    fun s => held_bind (hround s)
  constructor
  · simp only [insertable, returned, (htext _).not_refused, (hnumeric _ _).not_refused,
      Bool.or_self, Bool.not_false]
  · have htext' : ∀ v : Option String,
        (v.bind textColumn).bind textColumn = v.bind textColumn := htext
    have hnumeric' : ∀ s (v : Option String),
        (v.bind (numeric s)).bind (numeric s) = v.bind (numeric s) := hnumeric
    simp only [returned, htext', hnumeric']

theorem stored_lines {before : List Line} (h : Stored numeric before) :
    before.map Line.toLineItem = replaceLines (before.map fun b => b.input) ∧
      ∀ b ∈ before, insertable numeric b.input = true ∧ returned numeric b.input = b.input := by
  obtain ⟨inputs, h⟩ := h
  unfold insertLines at h
  split at h
  · rename_i hall
    rw [pure_eq_ok] at h
    have hinputs : (before.map fun b => b.input) = inputs.map (returned numeric) := by
      have hread := congrArg (List.map LineItem.input) h
      rw [map_input_replaceLines, List.map_map] at hread
      exact hread.symm
    refine ⟨?_, ?_⟩
    · rw [hinputs, h]
    · intro b hb
      have hmem : b.input ∈ inputs.map (returned numeric) := by
        rw [← hinputs]
        exact List.mem_map_of_mem hb
      obtain ⟨l, -, hl⟩ := List.mem_map.mp hmem
      rw [← hl]
      exact returned_fixed hround l
  · cases h

end

end

/-! ### Greedy claims -/

section
variable {D : Type} [DecidableEq D] (newFromString : String → Option D) {before : List Line}

def unclaimed (before : List Line) (claimed : List ℕ) : List (Line × ℕ) :=
  before.zipIdx.filter fun b => decide (b.2 ∉ claimed)

theorem firstUnclaimed_eq (claimed : List ℕ) (l : LineEntry) :
    firstUnclaimed newFromString before claimed l =
      (unclaimed before claimed).find? fun b => sameLegacyContent newFromString l b.1 := by
  rw [firstUnclaimed, unclaimed, List.find?_filter]
  simp only [Bool.decide_and, Bool.decide_eq_true]

theorem unclaimed_cons (claimed : List ℕ) (j : ℕ) :
    unclaimed before (j :: claimed) = (unclaimed before claimed).filter fun b => b.2 ≠ j := by
  rw [unclaimed, unclaimed, List.filter_filter]
  refine List.filter_congr fun b _ => ?_
  simp only [List.mem_cons, not_or, ne_eq, Bool.decide_and]

variable (before) in
theorem unclaimed_nodup (claimed : List ℕ) : ((unclaimed before claimed).map Prod.snd).Nodup := by
  have hsub : (unclaimed before claimed).Sublist before.zipIdx := List.filter_sublist
  refine (hsub.map Prod.snd).nodup ?_
  rw [List.zipIdx_map_snd]
  exact List.nodup_range'

theorem unclaimed_perm {claimed : List ℕ} {b : Line × ℕ} (h : b ∈ unclaimed before claimed) :
    (unclaimed before claimed).Perm (b :: unclaimed before (b.2 :: claimed)) := by
  have hnodup := unclaimed_nodup before claimed
  rw [unclaimed_cons]
  generalize unclaimed before claimed = rest at h hnodup ⊢
  have herase : rest.filter (fun c => c.2 ≠ b.2) = rest.erase b := by
    rw [(List.Nodup.of_map _ hnodup).erase_eq_filter]
    refine List.filter_congr fun c hc => ?_
    by_cases hcb : c = b
    · simp [hcb]
    · have hkey : c.2 ≠ b.2 := fun heq => hcb (List.inj_on_of_nodup_map hnodup hc h heq)
      simp [hcb, hkey]
  rw [herase]
  exact List.perm_cons_erase h

def taken (b : Line × ℕ) : LineEntry × Option ℕ := (fillNRS (resent b.1) b.1, some b.2)

theorem claimByContent_resent
    (hsame : ∀ a b, a ∈ before → b ∈ before →
      (sameLegacyContent newFromString (resent a) b = true ↔ a.legacyValues = b.legacyValues))
    (sent : List Line) (claimed : List ℕ) (hmem : ∀ s ∈ sent, s ∈ before)
    (hperm : (sent.map fun s => s.legacyValues).Perm
      ((unclaimed before claimed).map fun b => b.1.legacyValues)) :
    ∃ picks, picks.Perm (unclaimed before claimed) ∧
      (sent = (unclaimed before claimed).map Prod.fst → picks = unclaimed before claimed) ∧
      claimByContent newFromString before claimed (sent.map fun s => (resent s, none)) =
        picks.map taken := by
  induction sent generalizing claimed with
  | nil =>
    have hnone : unclaimed before claimed = [] := List.map_eq_nil_iff.mp hperm.nil_eq.symm
    refine ⟨[], ?_, ?_, rfl⟩
    · rw [hnone]
    · intro _
      exact hnone.symm
  | cons s sent ih =>
    have hline : ∀ b ∈ unclaimed before claimed, b.1 ∈ before := by
      intro b hb
      exact List.mem_of_getElem? (List.mem_zipIdx_iff_getElem?.mp (List.mem_filter.mp hb).1)
    have hs : s ∈ before := hmem s List.mem_cons_self
    obtain ⟨p, hfind⟩ : ∃ p, (unclaimed before claimed).find?
        (fun b => sameLegacyContent newFromString (resent s) b.1) = some p := by
      obtain ⟨b, hb, hkey⟩ := List.mem_map.mp (hperm.mem_iff.mp List.mem_cons_self)
      rw [← Option.isSome_iff_exists, List.find?_isSome]
      exact ⟨b, hb, (hsame s b.1 hs (hline b hb)).mpr hkey.symm⟩
    have hp := List.mem_of_find?_eq_some hfind
    have hcontent : s.legacyValues = p.1.legacyValues :=
      (hsame s p.1 hs (hline p hp)).mp (List.find?_some
        (p := fun b : Line × ℕ => sameLegacyContent newFromString (resent s) b.1) hfind)
    have hsplit := unclaimed_perm hp
    obtain ⟨picks, hpicks, hid, hrun⟩ := ih (p.2 :: claimed)
      (fun x hx => hmem x (List.mem_cons_of_mem _ hx)) (by
        have hkeys := hperm.trans (hsplit.map fun b => b.1.legacyValues)
        rw [List.map_cons, List.map_cons, hcontent] at hkeys
        exact hkeys.cons_inv)
    refine ⟨p :: picks, (hpicks.cons p).trans hsplit.symm, ?_, ?_⟩
    · intro hall
      have hnodup := unclaimed_nodup before claimed
      rw [unclaimed_cons] at hid
      cases hrest : unclaimed before claimed with
      | nil =>
        rw [hrest] at hall
        cases hall
      | cons r rest =>
        rw [hrest] at hall hfind hnodup hid
        rw [List.map_cons, List.cons.injEq] at hall
        obtain ⟨rfl, htail⟩ := hall
        -- its own line is the first free one
        have hown : sameLegacyContent newFromString (resent r.1) r.1 = true :=
          (hsame r.1 r.1 hs hs).mpr rfl
        have hhead : (r :: rest).find?
            (fun b => sameLegacyContent newFromString (resent r.1) b.1) = some r :=
          List.find?_cons_of_pos hown
        rw [hhead] at hfind
        cases hfind
        have hothers : (p :: rest).filter (fun b => b.2 ≠ p.2) = rest := by
          rw [List.filter_cons_of_neg (by simp)]
          refine List.filter_eq_self.mpr fun b hb => ?_
          have hne : b.2 ≠ p.2 := by
            intro heq
            refine (List.nodup_cons.mp hnodup).1 ?_
            rw [← heq]
            exact List.mem_map_of_mem hb
          exact decide_eq_true hne
        rw [hothers] at hid
        rw [hid htail]
    · have hskip : ((resent s).id.isSome || hasNRS (resent s)) = false := rfl
      rw [List.map_cons, claimByContent, hskip, if_neg Bool.false_ne_true, firstUnclaimed_eq, hfind]
      simp only [hrun, List.map_cons, taken, resent_congr hcontent]

end


/-! ### The replace -/

section
variable {D : Type} [DecidableEq D] {newFromString : String → Option D}
  {numeric : ℕ → String → Option String} {before : List Line}

theorem sameDecimal_iff {s : ℕ} {a b : Option String}
    (hone : ∀ t u t' u' d, numeric s t = some u → numeric s t' = some u' →
      newFromString u = some d → newFromString u' = some d → u = u')
    (ha : Held (numeric s) a) (hb : Held (numeric s) b) :
    sameDecimal newFromString a b = true ↔ a = b := by
  cases a with
  | none => cases b <;> simp [sameDecimal]
  | some a =>
    cases b with
    | none => simp [sameDecimal]
    | some b =>
      have ha' : numeric s a = some a := ha
      have hb' : numeric s b = some b := hb
      simp only [sameDecimal]
      split
      · rename_i x y hx hy
        simp only [decide_eq_true_iff, Option.some.injEq]
        constructor
        · rintro rfl
          exact hone a a b b x ha' hb' hx hy
        · rintro rfl
          exact Option.some.inj (hx.symm.trans hy)
      · simp only [decide_eq_true_iff, Option.some.injEq]

theorem sameLegacyContent_iff
    (hone : ∀ s t u t' u' d, numeric s t = some u → numeric s t' = some u' →
      newFromString u = some d → newFromString u' = some d → u = u')
    {a b : Line} (ha : returned numeric a.input = a.input)
    (hb : returned numeric b.input = b.input) :
    sameLegacyContent newFromString (resent a) b = true ↔ a.legacyValues = b.legacyValues := by
  simp only [returned, LineItem.input, LineItemInput.mk.injEq] at ha hb
  have hcolumn : ∀ s {v w : Option String}, Held (numeric s) v → Held (numeric s) w →
      (sameDecimal newFromString v w = true ↔ v = w) :=
    fun s _ _ => sameDecimal_iff (hone s)
  simp only [sameLegacyContent, resent, Bool.and_eq_true,
    hcolumn 3 ha.2.1 hb.2.1, hcolumn 2 ha.2.2.1 hb.2.2.1, hcolumn 2 ha.2.2.2.1 hb.2.2.2.1,
    hcolumn 2 ha.2.2.2.2.1 hb.2.2.2.2.1, LineItem.legacyValues, List.cons.injEq, and_true,
    and_assoc]
  exact and_congr_left fun _ => decide_eq_true_iff

theorem replaceLinesTx_resent
    (hround : ∀ s t u, numeric s t = some u → numeric s u = some u)
    (hone : ∀ s t u t' u' d, numeric s t = some u → numeric s t' = some u' →
      newFromString u = some d → newFromString u' = some d → u = u')
    (hstored : Stored numeric before) {sent : List Line} (hperm : sent.Perm before) :
    ∃ picks : List Line, picks.Perm before ∧ (sent = before → picks = before) ∧
      replaceLinesTx numeric newFromString before (sent.map resent) =
        .ok (replaceLines (picks.map fun b => b.input)) := by
  obtain ⟨-, hlines⟩ := stored_lines hround hstored
  have hsame : ∀ a b, a ∈ before → b ∈ before →
      (sameLegacyContent newFromString (resent a) b = true ↔ a.legacyValues = b.legacyValues) :=
    fun a b ha hb => sameLegacyContent_iff hone (hlines a ha).2 (hlines b hb).2
  have hall : unclaimed before [] = before.zipIdx := by
    refine List.filter_eq_self.mpr fun b _ => ?_
    exact decide_eq_true List.not_mem_nil
  have hfst : before.zipIdx.map Prod.fst = before := List.zipIdx_map_fst 0 before
  have hkeys : (sent.map fun s => s.legacyValues).Perm
      ((unclaimed before []).map fun b => b.1.legacyValues) := by
    have hzip : before.zipIdx.map (fun b => b.1.legacyValues) =
        before.map fun s => s.legacyValues := by
      calc before.zipIdx.map (fun b => b.1.legacyValues) =
          (before.zipIdx.map Prod.fst).map fun s => s.legacyValues := by
            rw [List.map_map]
            rfl
        _ = before.map fun s => s.legacyValues := by rw [hfst]
    rw [hall, hzip]
    exact hperm.map _
  obtain ⟨picks, hpicks, hid, hrun⟩ := claimByContent_resent newFromString hsame sent []
    (fun s hs => hperm.mem_iff.mp hs) hkeys
  rw [hall] at hpicks hid
  have hchosen : (picks.map Prod.fst).Perm before := by
    have hmapped := hpicks.map Prod.fst
    rwa [hfst] at hmapped
  refine ⟨picks.map Prod.fst, hchosen, ?_, ?_⟩
  · intro heq
    rw [hid (heq.trans hfst.symm), hfst]
  · have hfirst : claimByID before [] (sent.map resent) =
        .ok (sent.map fun s => (resent s, none), []) := by
      clear hperm hkeys hid hrun
      induction sent with
      | nil => rfl
      | cons s sent ih =>
        have hnone : (resent s).id = none := rfl
        rw [List.map_cons, claimByID, hnone, ih]
        rfl
    have hcarry : carryNRSLines newFromString before (sent.map resent) =
        .ok ((picks.map taken).map Prod.fst) := by
      simp only [carryNRSLines, carryClaims, bind_eq_ok, pure_eq_ok]
      exact ⟨_, ⟨_, hfirst, rfl⟩, by rw [hrun]⟩
    have hinputs : ((picks.map taken).map Prod.fst).map LineEntry.toLineItemInput =
        (picks.map Prod.fst).map fun b => b.input := by
      rw [List.map_map, List.map_map, List.map_map]
      exact List.map_congr_left fun b _ => fillNRS_resent b.1
    have hfixed : ∀ l ∈ (picks.map Prod.fst).map (fun b => b.input),
        insertable numeric l = true ∧ returned numeric l = l := by
      intro l hl
      obtain ⟨b, hb, rfl⟩ := List.mem_map.mp hl
      exact hlines b (hchosen.mem_iff.mp hb)
    simp only [replaceLinesTx, bind_eq_ok]
    refine ⟨_, hcarry, ?_⟩
    rw [hinputs, insertLines, if_pos (List.all_eq_true.mpr fun l hl => (hfixed l hl).1)]
    have hreturned : ((picks.map Prod.fst).map fun b => b.input).map (returned numeric) =
        (picks.map Prod.fst).map fun b => b.input :=
      (List.map_congr_left fun l hl => (hfixed l hl).2).trans (List.map_id _)
    rw [hreturned]
    rfl

end

/-- A line replace loses no NRS column and gives none out twice. -/
theorem lines_survive_replace {D : Type} [DecidableEq D] (newFromString : String → Option D)
    (numeric : ℕ → String → Option String)
    (hround : ∀ s t u, numeric s t = some u → numeric s u = some u)
    (hone : ∀ s t u t' u' d, numeric s t = some u → numeric s t' = some u' →
      newFromString u = some d → newFromString u' = some d → u = u') :
    (∀ before lines carried, carryNRSLines newFromString before lines = .ok carried →
      ∃ out, carryClaims newFromString before lines = .ok out ∧ carried = out.map Prod.fst ∧
        (out.filterMap Prod.snd).Nodup ∧
        List.Forall₂ (Carried newFromString before) lines out ∧
        List.Forall₂ (fun l l' : LineEntry =>
          (∀ (k : ℕ) (v : String), l.nrsValues[k]? = some (some v) →
            l'.nrsValues[k]? = some (some v)) ∧
          (l.id = none → l.nrsSent = true → l'.nrsValues = l.nrsValues)) lines carried) ∧
    (∀ before sent : List Line, Stored numeric before → sent.Perm before →
      ∃ out, replaceLinesTx numeric newFromString before (sent.map resent) = .ok out ∧
        (out.map LineItem.input).Perm (before.map fun b => b.input)) ∧
    (∀ before, Stored numeric before →
      replaceLinesTx numeric newFromString before (before.map resent) =
          .ok (before.map Line.toLineItem) ∧
        ∀ (sha256 : String → String) (r : Row), r.lines = before.map Line.toLineItem →
          (r.withContent r.header (before.map Line.toLineItem)).fingerprint sha256 =
            r.fingerprint sha256) := by
  refine ⟨?_, ?_, ?_⟩
  · intro before lines carried h
    simp only [carryNRSLines, bind_eq_ok, pure_eq_ok] at h
    obtain ⟨out, hout, rfl⟩ := h
    obtain ⟨hcarried, hnodup⟩ := carryClaims_eq_ok hout
    refine ⟨out, hout, rfl, hnodup, hcarried, ?_⟩
    refine List.forall₂_map_right_iff.mpr (hcarried.imp fun l o hl => ⟨?_, ?_⟩)
    · exact fun k v hv => hl.own_value hv
    · intro hid hsent
      rw [hl.sent hid hsent]
  · intro before sent hstored hperm
    obtain ⟨picks, hpicks, -, hrun⟩ := replaceLinesTx_resent hround hone hstored hperm
    refine ⟨_, hrun, ?_⟩
    rw [map_input_replaceLines]
    exact hpicks.map _
  · intro before hstored
    obtain ⟨picks, -, hid, hrun⟩ :=
      replaceLinesTx_resent hround hone hstored (List.Perm.refl before)
    refine ⟨?_, ?_⟩
    · rw [hrun, hid rfl, (stored_lines hround hstored).1]
    · intro sha256 r hr
      rw [← hr]
      rfl

def sampleNumeric (s : ℕ) (t : String) : Option String :=
  if s = 2 ∧ (t = "100" ∨ t = "100.00") then some "100.00"
  else if s = 3 ∧ (t = "1" ∨ t = "1.000") then some "1.000"
  else none

def sampleDecimal (t : String) : Option ℤ :=
  if t = "100" ∨ t = "100.00" then some 100000
  else if t = "1" ∨ t = "1.000" then some 1000
  else none

theorem sampleNumeric_eq_some {s : ℕ} {t u : String} (h : sampleNumeric s t = some u) :
    s = 2 ∧ u = "100.00" ∨ s = 3 ∧ u = "1.000" := by
  unfold sampleNumeric at h
  split_ifs at h with htwo hthree
  · exact .inl ⟨htwo.1, (Option.some.inj h).symm⟩
  · exact .inr ⟨hthree.1, (Option.some.inj h).symm⟩

def twinLines : List Line :=
  [{ lineNo := 1, description := some "Widget", quantity := some "1.000",
     unitPrice := some "100.00", taxCategory := some "STANDARD_VAT", id := 1 },
   { lineNo := 2, description := some "Widget", quantity := some "1.000",
     unitPrice := some "100.00", taxCategory := some "ZERO_VAT", id := 2 }]

theorem lines_survive_replace_sample :
    (∃ out, replaceLinesTx sampleNumeric sampleDecimal twinLines
        (twinLines.reverse.map resent) = .ok out ∧
      (out.map LineItem.input).Perm (twinLines.map fun b => b.input)) ∧
      replaceLinesTx sampleNumeric sampleDecimal twinLines (twinLines.map resent) =
        .ok (twinLines.map Line.toLineItem) := by
  have hround : ∀ s t u, sampleNumeric s t = some u → sampleNumeric s u = some u := by
    intro s t u h
    obtain ⟨rfl, rfl⟩ | ⟨rfl, rfl⟩ := sampleNumeric_eq_some h <;> decide
  have hone : ∀ s t u t' u' d, sampleNumeric s t = some u → sampleNumeric s t' = some u' →
      sampleDecimal u = some d → sampleDecimal u' = some d → u = u' := by
    intro s t u t' u' d h h' _ _
    obtain ⟨rfl, rfl⟩ | ⟨rfl, rfl⟩ := sampleNumeric_eq_some h <;>
      obtain ⟨hs, rfl⟩ | ⟨hs, rfl⟩ := sampleNumeric_eq_some h' <;> first | rfl | cases hs
  have hstored : Stored sampleNumeric twinLines := ⟨twinLines.map fun b => b.input, rfl⟩
  obtain ⟨-, hperm, hsame⟩ := lines_survive_replace sampleDecimal sampleNumeric hround hone
  exact ⟨hperm twinLines _ hstored (List.reverse_perm _), (hsame twinLines hstored).1⟩

def clearedEntry : LineEntry where
  description := some "Widget"
  id := some (Uuid.text 1)
  nrsSent := true

theorem named_null_refilled :
    ¬ ∀ (newFromString : String → Option ℤ) (before : List Line) (lines carried : List LineEntry),
      (before.map Line.id).Nodup → carryNRSLines newFromString before lines = .ok carried →
      List.Forall₂ (fun l l' : LineEntry => l.nrsSent = true →
        ∀ k : ℕ, l.nrsValues[k]? = some none → l'.nrsValues[k]? = some none) lines carried := by
  intro h
  have hrun : (carryNRSLines sampleDecimal twinLines [clearedEntry]).toOption.any (fun carried =>
      carried.map (fun l => l.nrsValues[0]?) = [some (some "STANDARD_VAT")]) = true := by
    decide +kernel
  obtain ⟨carried, hcarried, hvalue⟩ := (Option.any_eq_true _ _).mp hrun
  have hnulls := h sampleDecimal twinLines [clearedEntry] carried (by decide)
    (toOption_eq_some.mp hcarried)
  cases hnulls with
  | cons hl hnil =>
    cases hnil
    have hnull := hl rfl 0 rfl
    simp [hnull] at hvalue

end InvoiceOs.Invoice
