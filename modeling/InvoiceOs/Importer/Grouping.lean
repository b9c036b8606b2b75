import InvoiceOs.Importer.Amounts

/-! The comma scan and the number test together: the cells they keep are the well-formed amounts
and those with comma groups after the dot. -/

namespace InvoiceOs.Importer

open Lib

/-! ### The comma scan -/

@[simp] theorem groupsText_nil : groupsText [] = [] := rfl

@[simp] theorem groupsText_cons (g : Group) (gs : List Group) :
    groupsText (g :: gs) = ',' :: (digitsText g.digits ++ groupsText gs) := rfl

theorem strayComma_append_of_plain {s : List Char} (hs : ∀ c ∈ s, c ≠ ',') (t : List Char) :
    strayComma (s ++ t) = strayComma t := by
  induction s with
  | nil => rfl
  | cons c s ih =>
    have hc : c ≠ ',' := hs c List.mem_cons_self
    simp only [List.cons_append, strayComma, hc, decide_false, Bool.false_and, Bool.false_or]
    exact ih fun c' hc' => hs c' (List.mem_cons_of_mem _ hc')

theorem strayComma_of_plain {s : List Char} (hs : ∀ c ∈ s, c ≠ ',') : strayComma s = false := by
  have h := strayComma_append_of_plain hs []
  rwa [List.append_nil] at h

theorem digitsText_ne_comma (ds : List Digit) : ∀ c ∈ digitsText ds, c ≠ ',' := fun _ hc =>
  digit_ne (isDigit_of_mem hc) rfl

theorem eq_of_mem_minusText {negative : Bool} {c : Char} (h : c ∈ minusText negative) : c = '-' := by
  cases negative with
  | true => exact List.mem_singleton.mp h
  | false => cases h

theorem minusText_ne_comma (negative : Bool) : ∀ c ∈ minusText negative, c ≠ ',' := by
  intro c hc
  rw [eq_of_mem_minusText hc]
  decide

theorem fractionText_ne_comma (ds : List Digit) : ∀ c ∈ fractionText ds, c ≠ ',' := by
  unfold fractionText
  split
  · exact nofun
  · intro c hc
    obtain rfl | hc := List.mem_cons.mp hc
    · decide
    · exact digitsText_ne_comma ds c hc

def Stops (s : List Char) : Prop := s.takeWhile Char.isDigit = []

theorem stops_groupsText (groups : List Group) {s : List Char} (h : Stops s) :
    Stops (groupsText groups ++ s) := by
  cases groups with
  | nil => exact h
  | cons g gs => rfl

theorem stops_fractionText (ds : List Digit) : Stops (fractionText ds) := by
  unfold fractionText
  split
  · rfl
  · rfl

theorem strayComma_groups (groups : List Group) {s : List Char} (h : Stops s) :
    strayComma (groupsText groups ++ s) = strayComma s := by
  induction groups with
  | nil => rfl
  | cons g gs ih =>
    have hrun : ((digitsText g.digits ++ (groupsText gs ++ s)).takeWhile Char.isDigit).length = 3 := by
      rw [takeWhile_digitsText, stops_groupsText gs h, List.append_nil]
      rfl
    rw [groupsText_cons, List.cons_append, List.append_assoc, strayComma, hrun,
      strayComma_append_of_plain (digitsText_ne_comma _), ih]
    rfl

theorem strayComma_append_comma (s : List Char) : strayComma (s ++ [',']) = true := by
  induction s with
  | nil => rfl
  | cons c s ih =>
    rw [List.cons_append, strayComma, ih, Bool.or_true]

theorem strayComma_append_of_stops (s : List Char) {t : List Char} (ht : ∀ c ∈ t, c ≠ ',')
    (hstops : Stops t) : strayComma (s ++ t) = strayComma s := by
  induction s with
  | nil => exact strayComma_of_plain ht
  | cons c s ih =>
    have hrun : (s ++ t).takeWhile Char.isDigit = s.takeWhile Char.isDigit := by
      rw [List.takeWhile_append]
      split
      · rename_i hall
        rw [hstops, List.append_nil, List.takeWhile_eq_self_iff.mpr]
        intro c' hc'
        have hself := List.IsPrefix.eq_of_length (List.takeWhile_prefix Char.isDigit) hall
        rw [← hself] at hc'
        exact List.mem_takeWhile_imp hc'
      · rfl
    rw [List.cons_append, strayComma, strayComma, hrun, ih]

theorem exists_groups : ∀ (n : ℕ) {s : List Char}, s.length ≤ n → strayComma s = false → Stops s →
    (∀ c ∈ s, c = ',' ∨ c = '.' ∨ c.isDigit = true) →
    ∃ groups rest, s = groupsText groups ++ rest ∧ (rest = [] ∨ ∃ t, rest = '.' :: t)
  | _, [], _, _, _, _ => ⟨[], [], rfl, .inl rfl⟩
  | 0, _ :: _, hn, _, _, _ => absurd hn (Nat.not_succ_le_zero _)
  | n + 1, c :: s, hn, hscan, hstops, hchars => by
    obtain rfl | rfl | hc := hchars c List.mem_cons_self
    · simp only [strayComma, decide_true, Bool.true_and, Bool.or_eq_false_iff, ne_eq,
        decide_eq_false_iff_not, not_not] at hscan
      obtain ⟨hrun, hscan⟩ := hscan
      obtain ⟨digits, hdigits⟩ := exists_digitsText (s := s.takeWhile Char.isDigit)
        fun c hc => List.mem_takeWhile_imp hc
      have hs : s = digitsText digits ++ s.dropWhile Char.isDigit := by
        rw [hdigits, List.takeWhile_append_dropWhile]
      rw [← hdigits, length_digitsText] at hrun
      obtain ⟨a, b, d, rfl⟩ := List.length_eq_three.mp hrun
      have hrest : Stops (s.dropWhile Char.isDigit) := by
        have h := congrArg (List.takeWhile Char.isDigit) hs
        rw [takeWhile_digitsText, ← hdigits] at h
        exact List.self_eq_append_right.mp h
      have hscan' : strayComma (s.dropWhile Char.isDigit) = false := by
        rw [hs, strayComma_append_of_plain (digitsText_ne_comma _)] at hscan
        exact hscan
      have hlength : (s.dropWhile Char.isDigit).length ≤ n :=
        (List.length_dropWhile_le _ s).trans (Nat.le_of_succ_le_succ hn)
      obtain ⟨groups, rest, hgroups, hdot⟩ := exists_groups n hlength hscan' hrest fun c' hc' =>
        hchars c' (List.mem_cons_of_mem _ ((List.dropWhile_suffix _).subset hc'))
      refine ⟨⟨a, b, d⟩ :: groups, rest, ?_, hdot⟩
      rw [groupsText_cons, List.cons_append, List.append_assoc, ← hgroups]
      exact congrArg _ hs
    · exact ⟨[], '.' :: s, rfl, .inr ⟨s, rfl⟩⟩
    · rw [Stops, List.takeWhile_cons_of_pos hc] at hstops
      cases hstops

/-! ### Cells as lists of characters -/

def commaDecimal (s : List Char) : Bool :=
  if ',' ∉ s then false else !leadGroupRe (s.takeWhile (· ≠ ',')) || strayComma s

def uncommaed (s : List Char) : List Char := s.filter (· ≠ ',')

theorem isCommaDecimal_eq (raw : String) :
    isCommaDecimal raw = commaDecimal (trim isSpace raw.toList) := by
  unfold isCommaDecimal
  rw [toList_trimSpace]
  rfl

theorem toList_normalizeNumeric (s : String) :
    (normalizeNumeric s).toList = trim isSpace (uncommaed s.toList) := by
  have hfilter : (replaceAll s ',' "").toList = uncommaed s.toList := by
    unfold replaceAll uncommaed
    rw [String.toList_ofList]
    induction s.toList with
    | nil => rfl
    | cons c cs ih =>
      rw [List.flatMap_cons, ih]
      by_cases hc : c = ','
      · rw [if_pos hc, List.filter_cons_of_neg (by simp [hc])]
        rfl
      · rw [if_neg hc]
        exact (List.filter_cons_of_pos (p := fun x => decide (x ≠ ',')) (decide_eq_true hc)).symm
  rw [normalizeNumeric, toList_trimSpace, hfilter]

theorem trim_uncommaed (s : List Char) :
    trim isSpace (uncommaed s) = trim isSpace (uncommaed (trim isSpace s)) := by
  have hblank : ∀ {c}, isSpace c = true → decide (c ≠ ',') = true := by
    intro c hc
    refine decide_eq_true ?_
    rintro rfl
    cases hc
  obtain ⟨a, b, hs, ha, hb, -⟩ := exists_trim isSpace s
  have hkeep : ∀ {l : List Char}, (∀ c ∈ l, isSpace c = true) → uncommaed l = l := fun hl =>
    List.filter_eq_self.mpr fun c hc => hblank (hl c hc)
  have hparts : uncommaed s = a ++ uncommaed (trim isSpace s) ++ b := by
    conv_lhs => rw [hs]
    unfold uncommaed at hkeep ⊢
    rw [List.filter_append, List.filter_append, hkeep ha, hkeep hb]
  rw [hparts, trim_append _ ha hb]

def reads (s : List Char) : Bool :=
  !commaDecimal s && decimalNumberRe (trim isSpace (uncommaed s))

theorem uncommaed_of_plain {s : List Char} (h : ∀ c ∈ s, c ≠ ',') : uncommaed s = s :=
  List.filter_eq_self.mpr fun c hc => decide_eq_true (h c hc)

theorem uncommaed_append (s t : List Char) : uncommaed (s ++ t) = uncommaed s ++ uncommaed t :=
  List.filter_append s t

theorem uncommaed_groups (groups : List Group) :
    uncommaed (groupsText groups) = digitsText (groups.flatMap Group.digits) := by
  induction groups with
  | nil => rfl
  | cons g gs ih =>
    have hcomma : uncommaed (',' :: (digitsText g.digits ++ groupsText gs)) =
        uncommaed (digitsText g.digits ++ groupsText gs) := rfl
    rw [groupsText_cons, hcomma, uncommaed_append, uncommaed_of_plain (digitsText_ne_comma _), ih,
      List.flatMap_cons, digitsText_append]

theorem leadGroupRe_iff {s : List Char} :
    leadGroupRe s = true ↔ ∃ negative, ∃ lead : Lead,
      s = minusText negative ++ digitsText lead.digits := by
  constructor
  · intro h
    simp only [leadGroupRe, Bool.and_eq_true, decide_eq_true_eq, List.all_eq_true] at h
    obtain ⟨⟨hpos, hshort⟩, hdigits⟩ := h
    obtain ⟨digits, hds⟩ := exists_digitsText hdigits
    rw [← hds, length_digitsText] at hpos hshort
    obtain ⟨negative, hs⟩ := exists_unsigned s
    refine ⟨negative, ⟨digits, List.ne_nil_of_length_pos hpos, hshort⟩, ?_⟩
    rw [hds]
    exact hs
  · rintro ⟨negative, lead, rfl⟩
    have hunsigned := @unsigned_minusText negative _ lead.nonempty []
    rw [List.append_nil, List.append_nil] at hunsigned
    simp only [leadGroupRe, hunsigned, length_digitsText, Bool.and_eq_true, decide_eq_true_eq,
      List.all_eq_true]
    exact ⟨⟨List.length_pos_iff.mpr lead.nonempty, lead.short⟩, fun c hc => isDigit_of_mem hc⟩

theorem commaDecimal_groups (negative : Bool) (lead : Lead) {groups : List Group}
    (hgroups : groups ≠ []) {s : List Char} (hstops : Stops s) :
    commaDecimal (minusText negative ++ digitsText lead.digits ++ (groupsText groups ++ s)) =
      strayComma s := by
  have hlead : ∀ c ∈ minusText negative ++ digitsText lead.digits, c ≠ ',' := by
    intro c hc
    obtain hc | hc := List.mem_append.mp hc
    · exact minusText_ne_comma negative c hc
    · exact digitsText_ne_comma _ c hc
  have hscan : strayComma (minusText negative ++ digitsText lead.digits ++ (groupsText groups ++ s)) =
      strayComma s := by
    rw [strayComma_append_of_plain hlead, strayComma_groups groups hstops]
  obtain ⟨g, gs, rfl⟩ := List.exists_cons_of_ne_nil hgroups
  have hcomma : ',' ∈ minusText negative ++ digitsText lead.digits ++ (groupsText (g :: gs) ++ s) :=
    List.mem_append_right _ List.mem_cons_self
  have htake : (minusText negative ++ digitsText lead.digits ++
      (groupsText (g :: gs) ++ s)).takeWhile (· ≠ ',') =
        minusText negative ++ digitsText lead.digits := by
    rw [List.takeWhile_append_of_pos fun c hc => decide_eq_true (hlead c hc)]
    exact List.append_nil _
  unfold commaDecimal
  rw [if_neg (not_not.mpr hcomma), htake, leadGroupRe_iff.mpr ⟨negative, lead, rfl⟩, hscan]
  rfl

theorem minusText_blank (negative : Bool) : ∀ c ∈ minusText negative, isSpace c = false := by
  intro c hc
  rw [eq_of_mem_minusText hc]
  rfl

theorem digitsText_blank (ds : List Digit) : ∀ c ∈ digitsText ds, isSpace c = false := fun _ hc =>
  isSpace_digit (isDigit_of_mem hc)

theorem fractionText_blank (ds : List Digit) : ∀ c ∈ fractionText ds, isSpace c = false := by
  unfold fractionText
  split
  · exact nofun
  · intro c hc
    obtain rfl | hc := List.mem_cons.mp hc
    · rfl
    · exact digitsText_blank ds c hc

theorem reads_groups (negative : Bool) (lead : Lead) {groups : List Group} (hgroups : groups ≠ [])
    {s : List Char} (hstops : Stops s) (hscan : strayComma s = false)
    (hblank : ∀ c ∈ s, isSpace c = false) :
    trim isSpace (uncommaed (minusText negative ++ digitsText lead.digits ++
        (groupsText groups ++ s))) =
      minusText negative ++ digitsText (lead.digits ++ groups.flatMap Group.digits) ++
        uncommaed s ∧
    reads (minusText negative ++ digitsText lead.digits ++ (groupsText groups ++ s)) =
      fractionRe ((uncommaed s).dropWhile Char.isDigit) := by
  have hne : lead.digits ++ groups.flatMap Group.digits ≠ [] := fun h =>
    lead.nonempty (List.append_eq_nil_iff.mp h).1
  have hun : uncommaed (minusText negative ++ digitsText lead.digits ++ (groupsText groups ++ s)) =
      minusText negative ++ digitsText (lead.digits ++ groups.flatMap Group.digits) ++
        uncommaed s := by
    rw [uncommaed_append, uncommaed_append, uncommaed_append, uncommaed_groups,
      uncommaed_of_plain (minusText_ne_comma _), uncommaed_of_plain (digitsText_ne_comma _),
      digitsText_append]
    simp only [List.append_assoc]
  have hall : ∀ c ∈ minusText negative ++ digitsText (lead.digits ++ groups.flatMap Group.digits) ++
      uncommaed s, isSpace c = false := by
    intro c hc
    simp only [List.mem_append] at hc
    obtain (hc | hc) | hc := hc
    · exact minusText_blank negative c hc
    · exact digitsText_blank _ c hc
    · exact hblank c (List.mem_of_mem_filter hc)
  have htrim := trim_of_tight (Tight.of_forall hall)
  refine ⟨by rw [hun, htrim], ?_⟩
  rw [reads, commaDecimal_groups negative lead hgroups hstops, hscan, hun, htrim,
    decimalNumberRe_append hne]
  rfl

theorem number_groups (lead : List Digit) (groups : List Group) :
    number (lead ++ groups.flatMap Group.digits) =
      groups.foldl (fun n g => 1000 * n + number g.digits) (number lead) := by
  induction groups generalizing lead with
  | nil => rw [List.flatMap_nil, List.append_nil, List.foldl_nil]
  | cons g gs ih =>
    have hlead : number (lead ++ g.digits) = 1000 * number lead + number g.digits := by
      have hlength : g.digits.length = 3 := rfl
      rw [number_append, hlength, mul_comm]
      norm_num
    rw [List.flatMap_cons, ← List.append_assoc, ih, hlead, List.foldl_cons]

theorem plain_read {s : List Char} (hcomma : ∀ c ∈ s, c ≠ ',') (htight : Tight isSpace s) :
    trim isSpace (uncommaed s) = s ∧ reads s = decimalNumberRe s := by
  have htrim : trim isSpace (uncommaed s) = s := by
    rw [uncommaed_of_plain hcomma, trim_of_tight htight]
  have hfree : ',' ∉ s := fun h => hcomma _ h rfl
  refine ⟨htrim, ?_⟩
  rw [reads, htrim, commaDecimal, if_pos hfree]
  rfl

theorem Amount.read (a : Amount) : reads a.text = true ∧
    decimalValue (trim isSpace (uncommaed a.text)) = a.value := by
  obtain ⟨negative, whole, fraction⟩ := a
  cases whole with
  | plain digits nonempty =>
    have hall : ∀ c ∈ minusText negative ++ digitsText digits ++ fractionText fraction,
        c ≠ ',' ∧ isSpace c = false := by
      intro c hc
      simp only [List.mem_append] at hc
      obtain (hc | hc) | hc := hc
      · exact ⟨minusText_ne_comma negative c hc, minusText_blank negative c hc⟩
      · exact ⟨digitsText_ne_comma _ c hc, digitsText_blank _ c hc⟩
      · exact ⟨fractionText_ne_comma _ c hc, fractionText_blank _ c hc⟩
    obtain ⟨htrim, hreads⟩ := plain_read (fun c hc => (hall c hc).1)
      (Tight.of_forall fun c hc => (hall c hc).2)
    change reads (minusText negative ++ digitsText digits ++ fractionText fraction) = true ∧
      decimalValue (trim isSpace
        (uncommaed (minusText negative ++ digitsText digits ++ fractionText fraction))) = _
    rw [hreads, htrim, decimalNumberRe_text nonempty, decimalValue_text nonempty]
    exact ⟨rfl, rfl⟩
  | grouped lead groups nonempty =>
    have htext : (⟨negative, .grouped lead groups nonempty, fraction⟩ : Amount).text =
        minusText negative ++ digitsText lead.digits ++
          (groupsText groups ++ fractionText fraction) := by
      simp only [Amount.text, Whole.text, List.append_assoc]
    have hne : lead.digits ++ groups.flatMap Group.digits ≠ [] := fun h =>
      lead.nonempty (List.append_eq_nil_iff.mp h).1
    obtain ⟨htrim, hreads⟩ := reads_groups negative lead nonempty (stops_fractionText fraction)
      (strayComma_of_plain (fractionText_ne_comma fraction)) (fractionText_blank fraction)
    rw [uncommaed_of_plain (fractionText_ne_comma fraction)] at htrim hreads
    rw [htext, hreads, htrim, dropWhile_fractionText, decimalValue_text hne, number_groups]
    exact ⟨fractionRe_iff.mpr ⟨fraction, rfl⟩, rfl⟩

theorem StrayGroups.read {s : List Char} (h : StrayGroups s) : reads s = true := by
  obtain ⟨negative, lead, groups, fraction, strays, hgroups, hstrays, rfl⟩ := h
  have hscan : strayComma ('.' :: (digitsText fraction ++ groupsText strays)) = false := by
    have hplain : ∀ c ∈ '.' :: digitsText fraction, c ≠ ',' := by
      intro c hc
      obtain rfl | hc := List.mem_cons.mp hc
      · decide
      · exact digitsText_ne_comma _ c hc
    have hrest := strayComma_groups strays (s := []) rfl
    rw [List.append_nil] at hrest
    rw [← List.cons_append, strayComma_append_of_plain hplain, hrest]
    rfl
  have hun : uncommaed ('.' :: (digitsText fraction ++ groupsText strays)) =
      fractionText (fraction ++ strays.flatMap Group.digits) := by
    have hne : fraction ++ strays.flatMap Group.digits ≠ [] := by
      obtain ⟨g, gs, rfl⟩ := List.exists_cons_of_ne_nil hstrays
      intro h
      cases (List.append_eq_nil_iff.mp h).2
    have hdot : uncommaed ('.' :: (digitsText fraction ++ groupsText strays)) =
        '.' :: uncommaed (digitsText fraction ++ groupsText strays) := rfl
    rw [hdot, uncommaed_append, uncommaed_groups, uncommaed_of_plain (digitsText_ne_comma _),
      ← digitsText_append, fractionText, if_neg hne]
  have hblank : ∀ c ∈ '.' :: (digitsText fraction ++ groupsText strays), isSpace c = false := by
    intro c hc
    obtain rfl | hc := List.mem_cons.mp hc
    · rfl
    obtain hc | hc := List.mem_append.mp hc
    · exact digitsText_blank _ c hc
    · obtain ⟨g, -, hg⟩ := List.mem_flatMap.mp hc
      obtain rfl | hg := List.mem_cons.mp hg
      · rfl
      · exact digitsText_blank _ c hg
  have hstops : Stops ('.' :: (digitsText fraction ++ groupsText strays)) := rfl
  obtain ⟨-, hreads⟩ := reads_groups negative lead hgroups hstops hscan hblank
  rw [List.append_assoc, hreads, hun, dropWhile_fractionText]
  exact fractionRe_iff.mpr ⟨_, rfl⟩

theorem minusText_ne_dot (negative : Bool) : ∀ c ∈ minusText negative, decide (c ≠ '.') = true := by
  intro c hc
  rw [eq_of_mem_minusText hc]
  rfl

theorem digitsText_ne_dot (ds : List Digit) : ∀ c ∈ digitsText ds, decide (c ≠ '.') = true :=
  fun _ hc => decide_eq_true (digit_ne (isDigit_of_mem hc) rfl)

theorem groupsText_ne_dot (groups : List Group) :
    ∀ c ∈ groupsText groups, decide (c ≠ '.') = true := by
  intro c hc
  obtain ⟨g, -, hg⟩ := List.mem_flatMap.mp hc
  obtain rfl | hg := List.mem_cons.mp hg
  · rfl
  · exact digitsText_ne_dot _ c hg

theorem Amount.no_comma_after_dot (a : Amount) : ',' ∉ a.text.dropWhile (· ≠ '.') := by
  obtain ⟨negative, whole, fraction⟩ := a
  have hwhole : ∀ c ∈ whole.text, decide (c ≠ '.') = true := by
    cases whole with
    | plain digits _ => exact digitsText_ne_dot digits
    | grouped lead groups _ =>
      intro c hc
      obtain hc | hc := List.mem_append.mp hc
      · exact digitsText_ne_dot _ c hc
      · exact groupsText_ne_dot groups c hc
  rw [Amount.text, List.append_assoc, List.dropWhile_append_of_pos (minusText_ne_dot negative),
    List.dropWhile_append_of_pos hwhole]
  intro hc
  exact fractionText_ne_comma fraction _ ((List.dropWhile_suffix _).subset hc) rfl

theorem StrayGroups.comma_after_dot {s : List Char} (h : StrayGroups s) :
    ',' ∈ s.dropWhile (· ≠ '.') := by
  obtain ⟨negative, lead, groups, fraction, strays, hgroups, hstrays, rfl⟩ := h
  rw [List.append_assoc, List.append_assoc,
    List.dropWhile_append_of_pos (minusText_ne_dot negative),
    List.dropWhile_append_of_pos (digitsText_ne_dot _),
    List.dropWhile_append_of_pos (groupsText_ne_dot groups)]
  obtain ⟨g, gs, rfl⟩ := List.exists_cons_of_ne_nil hstrays
  have hmem : ',' ∈ groupsText (g :: gs) := List.mem_cons_self
  exact List.mem_cons_of_mem _ (List.mem_append_right _ hmem)

theorem tight_uncommaed {negative : Bool} {lead : Lead} {rest : List Char}
    (htight : Tight isSpace (minusText negative ++ digitsText lead.digits ++ rest))
    (hscan : strayComma (minusText negative ++ digitsText lead.digits ++ rest) = false) :
    Tight isSpace (minusText negative ++ digitsText lead.digits ++ uncommaed rest) := by
  have hun : minusText negative ++ digitsText lead.digits ++ uncommaed rest =
      uncommaed (minusText negative ++ digitsText lead.digits ++ rest) := by
    rw [uncommaed_append, uncommaed_append, uncommaed_of_plain (minusText_ne_comma _),
      uncommaed_of_plain (digitsText_ne_comma _)]
  refine ⟨fun c hc => ?_, fun c hc => ?_⟩
  · obtain ⟨d, ds, hlead⟩ := List.exists_cons_of_ne_nil lead.nonempty
    rw [hlead] at hc
    cases negative with
    | true =>
      obtain rfl := Option.some.inj hc
      rfl
    | false =>
      obtain rfl := Option.some.inj hc
      exact isSpace_digit d.isDigit_char
  · rw [hun] at hc
    have hne : minusText negative ++ digitsText lead.digits ++ rest ≠ [] := by
      intro h
      rw [h] at hc
      cases hc
    obtain ⟨front, last, hlast⟩ := List.exists_cons_of_ne_nil (List.reverse_ne_nil_iff.mpr hne)
    have hend : minusText negative ++ digitsText lead.digits ++ rest = last.reverse ++ [front] := by
      rw [← List.reverse_cons, ← hlast, List.reverse_reverse]
    rw [hend] at hc htight hscan
    have hcomma : front ≠ ',' := by
      rintro rfl
      rw [strayComma_append_comma] at hscan
      cases hscan
    rw [uncommaed_append, uncommaed_of_plain (fun c' hc' => List.mem_singleton.mp hc' ▸ hcomma),
      List.getLast?_concat] at hc
    obtain rfl := Option.some.inj hc
    exact htight.2 _ List.getLast?_concat

theorem mem_of_uncommaed {s : List Char} {c : Char} (hc : c ∈ s) : c = ',' ∨ c ∈ uncommaed s := by
  by_cases h : c = ','
  · exact .inl h
  · exact .inr (List.mem_filter.mpr ⟨hc, decide_eq_true h⟩)

theorem mem_of_fractionRe {s : List Char} (h : fractionRe (s.dropWhile Char.isDigit) = true) :
    ∀ c ∈ s, c = '.' ∨ c.isDigit = true := by
  obtain ⟨fraction, hf⟩ := fractionRe_iff.mp h
  intro c hc
  rw [← List.takeWhile_append_dropWhile (p := Char.isDigit) (l := s), hf] at hc
  obtain hc | hc := List.mem_append.mp hc
  · exact .inr (List.mem_takeWhile_imp hc)
  · unfold fractionText at hc
    split at hc
    · cases hc
    · obtain rfl | hc := List.mem_cons.mp hc
      · exact .inl rfl
      · exact .inr (isDigit_of_mem hc)

theorem exists_fraction {t : List Char} (hscan : strayComma t = false)
    (hre : fractionRe ('.' :: uncommaed t) = true) :
    (∃ fraction, fraction ≠ [] ∧ t = digitsText fraction) ∨
      ∃ fraction strays, strays ≠ [] ∧ t = digitsText fraction ++ groupsText strays := by
  simp only [fractionRe, Bool.and_eq_true, Bool.not_eq_true', List.isEmpty_eq_false_iff,
    List.all_eq_true] at hre
  obtain ⟨⟨-, hne⟩, hdigits⟩ := hre
  obtain ⟨fraction, hfraction⟩ := exists_digitsText (s := t.takeWhile Char.isDigit)
    fun c hc => List.mem_takeWhile_imp hc
  have ht : t = digitsText fraction ++ t.dropWhile Char.isDigit := by
    rw [hfraction, List.takeWhile_append_dropWhile]
  have hstops : Stops (t.dropWhile Char.isDigit) := by
    have h := congrArg (List.takeWhile Char.isDigit) ht
    rw [takeWhile_digitsText, ← hfraction] at h
    exact List.self_eq_append_right.mp h
  have hscan' : strayComma (t.dropWhile Char.isDigit) = false := by
    rw [ht, strayComma_append_of_plain (digitsText_ne_comma _)] at hscan
    exact hscan
  have hchars : ∀ c ∈ t.dropWhile Char.isDigit, c = ',' ∨ c.isDigit = true := fun c hc =>
    (mem_of_uncommaed ((List.dropWhile_suffix _).subset hc)).imp_right (hdigits c)
  obtain ⟨strays, rest, hstrays, hrest⟩ := exists_groups _ le_rfl hscan' hstops fun c hc =>
    (hchars c hc).imp_right .inr
  have hnil : rest = [] := by
    obtain hrest | ⟨u, rfl⟩ := hrest
    · exact hrest
    · rw [hstrays] at hchars
      obtain h | h := hchars '.' (List.mem_append_right _ List.mem_cons_self)
      · cases h
      · cases h
  rw [hnil, List.append_nil] at hstrays
  rw [hstrays] at ht
  by_cases hplain : strays = []
  · rw [hplain, groupsText_nil, List.append_nil] at ht
    refine .inl ⟨fraction, ?_, ht⟩
    rintro rfl
    rw [ht] at hne
    exact hne rfl
  · exact .inr ⟨fraction, strays, hplain, ht⟩

theorem of_reads {s : List Char} (htight : Tight isSpace s) (h : reads s = true) :
    (∃ a : Amount, a.text = s) ∨ StrayGroups s := by
  by_cases hcomma : ',' ∈ s
  · simp only [reads, commaDecimal, if_neg (not_not.mpr hcomma), Bool.and_eq_true,
      Bool.not_eq_true', Bool.or_eq_false_iff, Bool.not_eq_false'] at h
    obtain ⟨⟨hlead, hscan⟩, hre⟩ := h
    obtain ⟨negative, lead, hlead⟩ := leadGroupRe_iff.mp hlead
    obtain ⟨rest, hs, hfirst⟩ : ∃ rest, s = minusText negative ++ digitsText lead.digits ++ rest ∧
        rest.head? = some ',' := by
      refine ⟨s.dropWhile (· ≠ ','), ?_, ?_⟩
      · rw [← hlead, List.takeWhile_append_dropWhile]
      · cases hd : s.dropWhile (· ≠ ',') with
        | nil =>
          have := List.dropWhile_eq_nil_iff.mp hd _ hcomma
          simp at this
        | cons c t =>
          have hc := @dropWhile_head _ (decide <| · ≠ ',') s c (by rw [hd]; rfl)
          have : c = ',' := by simpa using hc
          rw [this]
          rfl
    subst hs
    have hun : uncommaed (minusText negative ++ digitsText lead.digits ++ rest) =
        minusText negative ++ digitsText lead.digits ++ uncommaed rest := by
      rw [uncommaed_append, uncommaed_append, uncommaed_of_plain (minusText_ne_comma _),
        uncommaed_of_plain (digitsText_ne_comma _)]
    rw [hun, trim_of_tight (tight_uncommaed htight hscan), decimalNumberRe_append lead.nonempty]
      at hre
    have hplain : ∀ c ∈ minusText negative ++ digitsText lead.digits, c ≠ ',' := by
      intro c hc
      obtain hc | hc := List.mem_append.mp hc
      · exact minusText_ne_comma negative c hc
      · exact digitsText_ne_comma _ c hc
    rw [strayComma_append_of_plain hplain] at hscan
    have hstops : Stops rest := by
      cases rest with
      | nil => rfl
      | cons c t =>
        obtain rfl := Option.some.inj hfirst
        rfl
    obtain ⟨groups, tail, rfl, htail⟩ := exists_groups _ le_rfl hscan hstops fun c hc =>
      (mem_of_uncommaed hc).imp_right (mem_of_fractionRe hre c)
    have hgroups : groups ≠ [] := by
      rintro rfl
      obtain rfl | ⟨t, rfl⟩ := htail
      · cases hfirst
      · cases hfirst
    obtain rfl | ⟨t, rfl⟩ := htail
    · refine .inl ⟨⟨negative, .grouped lead groups hgroups, []⟩, ?_⟩
      simp only [Amount.text, Whole.text, fractionText, if_true, List.append_nil,
        List.append_assoc]
    · have hdot : uncommaed ('.' :: t) = '.' :: uncommaed t := rfl
      rw [uncommaed_append, uncommaed_groups, hdot, dropWhile_digitsText,
        List.dropWhile_cons_of_neg (by decide)] at hre
      have hstop : Stops ('.' :: t) := rfl
      rw [strayComma_groups groups hstop] at hscan
      have hbehind : strayComma t = false := hscan
      obtain ⟨fraction, hfraction, rfl⟩ | ⟨fraction, strays, hstrays, rfl⟩ :=
        exists_fraction hbehind hre
      · refine .inl ⟨⟨negative, .grouped lead groups hgroups, fraction⟩, ?_⟩
        simp only [Amount.text, Whole.text, fractionText, if_neg hfraction, List.append_assoc]
      · refine .inr ⟨negative, lead, groups, fraction, strays, hgroups, hstrays, ?_⟩
        simp only [List.append_assoc]
  · have hplain : ∀ c ∈ s, c ≠ ',' := fun c hc heq => hcomma (heq ▸ hc)
    rw [(plain_read hplain htight).2] at h
    obtain ⟨negative, digits, fraction, hne, rfl⟩ := exists_decimal h
    exact .inl ⟨⟨negative, .plain digits hne, fraction⟩, rfl⟩

theorem reads_iff {s : List Char} (htight : Tight isSpace s) :
    reads s = true ↔ (∃ a : Amount, a.text = s) ∨ StrayGroups s := by
  refine ⟨of_reads htight, ?_⟩
  rintro (⟨a, rfl⟩ | h)
  · exact a.read.1
  · exact h.read

/-! ### Columns -/

theorem commaDecimal_append_of_stops {s t : List Char} (ht : ∀ c ∈ t, c ≠ ',') (hstops : Stops t) :
    commaDecimal (s ++ t) = commaDecimal s := by
  have hmem : ',' ∈ s ++ t ↔ ',' ∈ s :=
    ⟨fun h => (List.mem_append.mp h).elim id fun h => absurd rfl (ht _ h), List.mem_append_left t⟩
  unfold commaDecimal
  by_cases hcomma : ',' ∈ s
  · have htake : (s ++ t).takeWhile (· ≠ ',') = s.takeWhile (· ≠ ',') := by
      rw [List.takeWhile_append, if_neg]
      intro hlength
      have hself := List.IsPrefix.eq_of_length (List.takeWhile_prefix _) hlength
      rw [← hself] at hcomma
      have hne := List.mem_takeWhile_imp hcomma
      simp at hne
    rw [if_neg (not_not.mpr hcomma), if_neg (not_not.mpr (hmem.mpr hcomma)), htake,
      strayComma_append_of_stops s ht hstops]
  · rw [if_pos hcomma, if_pos (fun h => hcomma (hmem.mp h))]

theorem isCommaDecimal_percent (raw : String) :
    isCommaDecimal raw = commaDecimal (cellText .percent raw) := by
  have hcell : cellText .percent raw =
      trim isSpace (trimSuffix (trimSpace raw) '%').toList := toList_trimSpace _
  obtain ⟨-, -, -, -, -, htight⟩ := exists_trim isSpace raw.toList
  rw [isCommaDecimal_eq, hcell]
  unfold trimSuffix
  rw [toList_trimSpace]
  split
  · rename_i hlast
    generalize trim isSpace raw.toList = s at htight hlast ⊢
    obtain ⟨u, hu⟩ : ∃ u, s = u ++ ['%'] := ⟨s.dropLast, (List.dropLast_append_getLast? _ hlast).symm⟩
    have hdrop : s.dropLast = u := by rw [hu, List.dropLast_concat]
    rw [String.toList_ofList, hdrop]
    obtain ⟨a, b, hparts, ha, hb, -⟩ := exists_trim isSpace u
    have hfront : a = [] := by
      cases a with
      | nil => rfl
      | cons c a =>
        have hblank := htight.1 c (by rw [hu, hparts]; rfl)
        rw [ha c List.mem_cons_self] at hblank
        cases hblank
    have hs : s = trim isSpace u ++ (b ++ ['%']) := by
      rw [← List.append_assoc, hu]
      conv_lhs => rw [hparts, hfront, List.nil_append]
    have hplain : ∀ c ∈ b ++ ['%'], c ≠ ',' ∧ c.isDigit = false := by
      intro c hc
      obtain hc | hc := List.mem_append.mp hc
      · have hblank := hb c hc
        refine ⟨?_, ?_⟩
        · rintro rfl
          cases hblank
        · cases hd : c.isDigit with
          | false => rfl
          | true =>
            rw [isSpace_digit hd] at hblank
            cases hblank
      · rw [List.mem_singleton.mp hc]
        decide
    have hstops : Stops (b ++ ['%']) := by
      unfold Stops
      cases hb : b ++ ['%'] with
      | nil => rfl
      | cons c t =>
        have hc := (hplain c (hb ▸ List.mem_cons_self)).2
        rw [List.takeWhile_cons_of_neg (by rw [hc]; nofun)]
    rw [hs]
    exact commaDecimal_append_of_stops (fun c hc => (hplain c hc).1) hstops
  · rw [toList_trimSpace, trim_trim]

theorem cellText_tight (type : FieldType) (raw : String) : Tight isSpace (cellText type raw) := by
  have htrim : ∀ s : String, Tight isSpace (trimSpace s).toList := by
    intro s
    obtain ⟨-, -, -, -, -, htight⟩ := exists_trim isSpace s.toList
    rw [toList_trimSpace]
    exact htight
  unfold cellText
  split
  · exact htrim _
  · exact htrim _

theorem accepts_eq {type : FieldType} (h : isNumericType type = true) (raw : String) :
    accepts type raw = reads (cellText type raw) ∧
      (normalizeCell type raw).toList = trim isSpace (uncommaed (cellText type raw)) := by
  have hplain : ∀ s : String, (normalizeNumeric s).toList =
      trim isSpace (uncommaed (trimSpace s).toList) := by
    intro s
    rw [toList_normalizeNumeric, trim_uncommaed, toList_trimSpace]
  have hcell : (normalizeCell type raw).toList = trim isSpace (uncommaed (cellText type raw)) := by
    cases type with
    | money => exact hplain raw
    | quantity => exact hplain raw
    | percent => exact hplain _
    | _ => cases h
  have hcomma : isCommaDecimal raw = commaDecimal (cellText type raw) := by
    cases type with
    | percent => exact isCommaDecimal_percent raw
    | _ =>
      rw [isCommaDecimal_eq, ← toList_trimSpace]
      rfl
  exact ⟨by rw [accepts, hcomma, hcell, reads], hcell⟩

/-- An imported cell is kept exactly where it is a well-formed amount, and then at its value, unless
the cell is a grouped amount with further groups after its dot. -/
theorem amount_cells_mean_iff (type : FieldType) (h : isNumericType type = true) (raw : String) :
    ((accepts type raw = true ↔ ∃ a : Amount, a.text = cellText type raw) ∧
      ∀ a : Amount, a.text = cellText type raw →
        decimalValue (normalizeCell type raw).toList = a.value) ↔
      ¬ StrayGroups (cellText type raw) := by
  obtain ⟨haccepts, hcell⟩ := accepts_eq h raw
  rw [haccepts, hcell, reads_iff (cellText_tight type raw)]
  constructor
  · rintro ⟨hiff, -⟩ hstray
    obtain ⟨a, ha⟩ := hiff.mp (.inr hstray)
    have hfree := a.no_comma_after_dot
    rw [ha] at hfree
    exact hfree hstray.comma_after_dot
  · intro hstray
    refine ⟨⟨fun hread => hread.resolve_right hstray, .inl⟩, fun a ha => ?_⟩
    rw [← ha]
    exact a.read.2

theorem amount_cells_mean_iff_sample :
    (accepts .money " 1,234.50 " = true ↔ ∃ a : Amount, a.text = cellText .money " 1,234.50 ") ∧
      ∀ a : Amount, a.text = cellText .money " 1,234.50 " →
        decimalValue (normalizeCell .money " 1,234.50 ").toList = a.value := by
  refine (amount_cells_mean_iff .money rfl " 1,234.50 ").mpr ?_
  intro hstray
  have hcomma := hstray.comma_after_dot
  revert hcomma
  decide +kernel

theorem groups_after_dot_accepted :
    accepts .money "1,234.567,890" = true ∧
      ¬ ∃ a : Amount, a.text = cellText .money "1,234.567,890" := by
  refine ⟨by decide +kernel, ?_⟩
  rintro ⟨a, ha⟩
  have h := a.no_comma_after_dot
  rw [ha] at h
  revert h
  decide +kernel

end InvoiceOs.Importer
