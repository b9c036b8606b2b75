import InvoiceOs.Invoice.Fingerprint
import InvoiceOs.Invoice.NoteAmounts
import InvoiceOs.Lib.Refusal

/-! What the note amounts conserve: no kobo of a group's tax is lost or made up, and the header
is the sum of its parts. -/

namespace InvoiceOs.Invoice

open Lib

/-! ### The group's text -/

theorem digits_stop_inj {m n : ℕ} {x y : List Char}
    (hx : ∀ c ∈ x.head?, c.isDigit = false) (hy : ∀ c ∈ y.head?, c.isDigit = false)
    (h : digits m ++ x = digits n ++ y) : m = n ∧ x = y := by
  have hstop : ∀ {z : List Char}, (∀ c ∈ z.head?, c.isDigit = false) →
      z.takeWhile Char.isDigit = [] := by
    intro z hz
    cases z with
    | nil => rfl
    | cons c z => exact List.takeWhile_cons_of_neg (by simp [hz c rfl])
  have hread : ∀ (k : ℕ) {z : List Char}, (∀ c ∈ z.head?, c.isDigit = false) →
      (digits k ++ z).takeWhile Char.isDigit = digits k := by
    intro k z hz
    rw [List.takeWhile_append_of_pos fun c hc => isDigit_of_mem_digits hc, hstop hz,
      List.append_nil]
  have hdigits : digits m = digits n := by
    rw [← hread m hx, h, hread n hy]
  rw [hdigits] at h
  exact ⟨digits_inj hdigits, List.append_cancel_left h⟩

def readFraction (cs : List Char) : ℕ :=
  match cs with
  | [_, a] => 10 * (a.toNat - 48)
  | [_, a, b] => 10 * (a.toNat - 48) + (b.toNat - 48)
  | _ => 0

theorem fractionString_toList (r : ℕ) : (fractionString r).toList =
    if r = 0 then [] else
      '.' :: (digits (r / 10) ++ if r % 10 = 0 then [] else digits (r % 10)) := by
  unfold fractionString
  split
  · rfl
  · split
    · simp only [String.toList_append, List.append_nil, digits]
      rfl
    · simp only [String.toList_append, List.append_assoc, digits]
      rfl

theorem digits_of_lt {d : ℕ} (h : d < 10) : digits d = [d.digitChar] := by
  rw [digits_eq, Nat.toDigits_of_lt_base h]

theorem toNat_digitChar_sub {d : ℕ} (h : d < 10) : d.digitChar.toNat - 48 = d := by
  have hall : ∀ d < 10, d.digitChar.toNat - 48 = d := by decide
  exact hall d h

theorem fractionString_read {r : ℕ} (h : r < 100) :
    readFraction (fractionString r).toList = r ∧
      ∀ c ∈ (fractionString r).toList.head?, c.isDigit = false := by
  rw [fractionString_toList]
  split
  · rename_i hzero
    exact ⟨hzero.symm, fun c hc => by cases hc⟩
  · have htens : r / 10 < 10 := by omega
    have hunits : r % 10 < 10 := Nat.mod_lt _ (by decide)
    refine ⟨?_, fun c hc => by cases hc; rfl⟩
    rw [digits_of_lt htens]
    split
    · rename_i hround
      change 10 * ((r / 10).digitChar.toNat - 48) = r
      rw [toNat_digitChar_sub htens]
      omega
    · rw [digits_of_lt hunits]
      change 10 * ((r / 10).digitChar.toNat - 48) + ((r % 10).digitChar.toNat - 48) = r
      rw [toNat_digitChar_sub htens, toNat_digitChar_sub hunits]
      omega

theorem decimalString_toList (n : ℤ) : (decimalString n).toList =
    (if n < 0 then ['-'] else []) ++
      (digits (n.natAbs / 100) ++ (fractionString (n.natAbs % 100)).toList) := by
  simp only [decimalString, String.toList_append, List.append_assoc, digits]
  split <;> rfl

theorem decimalString_inj {m n : ℤ} (h : decimalString m = decimalString n) : m = n := by
  have hlist := congrArg String.toList h
  rw [decimalString_toList, decimalString_toList] at hlist
  have hmagnitude : ∀ {a b : ℕ}, digits (a / 100) ++ (fractionString (a % 100)).toList =
      digits (b / 100) ++ (fractionString (b % 100)).toList → a = b := by
    intro a b hab
    obtain ⟨hreadA, hheadA⟩ := fractionString_read (Nat.mod_lt a (by decide : 0 < 100))
    obtain ⟨hreadB, hheadB⟩ := fractionString_read (Nat.mod_lt b (by decide : 0 < 100))
    obtain ⟨hwhole, hrest⟩ := digits_stop_inj hheadA hheadB hab
    rw [hrest] at hreadA
    have hcents : a % 100 = b % 100 := hreadA.symm.trans hreadB
    omega
  have hhead : ∀ {k : ℕ} {x rest : List Char}, digits k ++ x ≠ '-' :: rest := by
    intro k x rest heq
    obtain ⟨d, ds, hd⟩ := List.exists_cons_of_ne_nil (digits_ne_nil k)
    have hdigit : d.isDigit = true := isDigit_of_mem_digits (n := k) (by
      rw [hd]
      exact List.mem_cons_self)
    rw [hd] at heq
    cases heq
    cases hdigit
  by_cases hm : m < 0 <;> by_cases hn : n < 0 <;>
    simp only [hm, hn, if_true, if_false, List.nil_append, List.singleton_append,
      List.cons.injEq, true_and] at hlist
  · have habs := hmagnitude hlist
    omega
  · exact absurd hlist.symm hhead
  · exact absurd hlist hhead
  · have habs := hmagnitude hlist
    omega

theorem decimalString_no_bar (n : ℤ) : '|' ∉ (decimalString n).toList := by
  have hdigits : ∀ k, '|' ∉ digits k := fun k hmem => by
    have hbar := isDigit_of_mem_digits hmem
    cases hbar
  have hfraction : ∀ r, '|' ∉ (fractionString r).toList := by
    intro r
    rw [fractionString_toList]
    split
    · exact List.not_mem_nil
    · refine List.not_mem_cons_of_ne_of_not_mem (by decide) fun hmem => ?_
      rcases List.mem_append.mp hmem with htens | hunits
      · exact hdigits _ htens
      · split at hunits
        · cases hunits
        · exact hdigits _ hunits
  rw [decimalString_toList]
  intro hmem
  rcases List.mem_append.mp hmem with hsign | hrest
  · split at hsign
    · rw [List.mem_singleton] at hsign
      cases hsign
    · cases hsign
  · rcases List.mem_append.mp hrest with hdigit | hfrac
    · exact hdigits _ hdigit
    · exact hfraction _ hfrac

theorem groupText_inj : Function.Injective groupText := by
  rintro ⟨c, p⟩ ⟨c', p'⟩ h
  have hlist := congrArg (fun s => s.toList.reverse) h
  simp only [groupText, String.toList_append, List.reverse_append, List.append_assoc] at hlist
  have hsplit : (decimalString p).toList.reverse ++ '|' :: c.toList.reverse =
      (decimalString p').toList.reverse ++ '|' :: c'.toList.reverse := hlist
  have hno : ∀ n, '|' ∉ (decimalString n).toList.reverse := fun n hmem =>
    decimalString_no_bar n (List.mem_reverse.mp hmem)
  obtain ⟨hpercent, hcategory⟩ := append_sep_inj (hno p) (hno p') hsplit
  have hp : p = p' := decimalString_inj (String.toList_inj.mp (List.reverse_inj.mp hpercent))
  have hc : c = c' := String.toList_inj.mp (List.reverse_inj.mp hcategory)
  rw [hp, hc]

/-! ### One group -/

theorem giveKobo_eq (left : ℤ) (js : List ℕ) (fs : List ℤ) :
    giveKobo left js fs = addOne (js.take left.toNat) fs := by
  induction js generalizing left fs with
  | nil =>
    rw [List.take_nil]
    rfl
  | cons j js ih =>
    unfold giveKobo
    split
    · rename_i hnone
      rw [Int.toNat_of_nonpos hnone]
      rfl
    · rename_i hsome
      have hleft : left.toNat = (left - 1).toNat + 1 := by omega
      rw [ih, hleft, List.take_succ_cons]
      rfl

theorem groupTaxes_eq (exact : List ℚ) : groupTaxes exact = apportion exact := by
  have hremainder : ∀ i, exact.getD i 0 - ((exact.map Int.floor).getD i 0 : ℤ) =
      Int.fract (exact.getD i 0) := by
    intro i
    rw [List.getD_eq_getElem?_getD, List.getD_eq_getElem?_getD, List.getElem?_map]
    cases exact[i]? with
    | none => simp
    | some x => exact Int.self_sub_floor x
  simp only [groupTaxes, hremainder, giveKobo_eq]
  rfl

/-! ### The groups of a note -/

theorem mem_members {lines : List NoteMoneyLine} {key : String} {i : ℕ} :
    i ∈ members lines key ↔ lines[i]?.bind groupKey = some key := by
  rw [members, List.mem_filter, List.mem_range, decide_eq_true_iff, and_iff_right_iff_imp]
  intro h
  by_contra hlen
  rw [List.getElem?_eq_none (not_lt.mp hlen)] at h
  cases h

theorem lt_of_mem_members {lines : List NoteMoneyLine} {key : String} {i : ℕ}
    (h : i ∈ members lines key) : i < lines.length :=
  List.mem_range.mp (List.mem_filter.mp h).1

theorem members_sorted (lines : List NoteMoneyLine) (key : String) :
    (members lines key).Pairwise (· < ·) := List.pairwise_lt_range.filter _

theorem groupOrder_eq (keys order : List String) (h : order.Nodup) :
    (keys.foldl (fun order key => if key ∈ order then order else order ++ [key]) order).Nodup ∧
      ∀ k, k ∈ keys.foldl (fun order key => if key ∈ order then order else order ++ [key]) order ↔
        k ∈ order ∨ k ∈ keys := by
  induction keys generalizing order with
  | nil =>
    refine ⟨h, fun k => ?_⟩
    simp only [List.foldl_nil, List.not_mem_nil, or_false]
  | cons key keys ih =>
    rw [List.foldl_cons]
    by_cases hin : key ∈ order
    · rw [if_pos hin]
      obtain ⟨hnodup, hmem⟩ := ih order h
      refine ⟨hnodup, fun k => (hmem k).trans ?_⟩
      rw [List.mem_cons]
      constructor
      · exact fun hk => hk.imp_right .inr
      · rintro (hk | rfl | hk)
        · exact .inl hk
        · exact .inl hin
        · exact .inr hk
    · rw [if_neg hin]
      have hnew : (order ++ [key]).Nodup := by
        rw [List.nodup_append]
        refine ⟨h, List.nodup_singleton key, ?_⟩
        intro a ha b hb hab
        rw [List.mem_singleton] at hb
        subst hb
        subst hab
        exact hin ha
      obtain ⟨hnodup, hmem⟩ := ih (order ++ [key]) hnew
      refine ⟨hnodup, fun k => (hmem k).trans ?_⟩
      rw [List.mem_append, List.mem_singleton, List.mem_cons, or_assoc]

theorem nodup_groupOrder (lines : List NoteMoneyLine) : (groupOrder lines).Nodup :=
  (groupOrder_eq _ [] List.nodup_nil).1

theorem mem_groupOrder {lines : List NoteMoneyLine} {key : String} :
    key ∈ groupOrder lines ↔ ∃ i, i ∈ members lines key := by
  rw [groupOrder, (groupOrder_eq _ [] List.nodup_nil).2, List.mem_filterMap]
  constructor
  · rintro (hnil | ⟨l, hl, hkey⟩)
    · cases hnil
    · obtain ⟨i, hi⟩ := List.mem_iff_getElem?.mp hl
      refine ⟨i, mem_members.mpr ?_⟩
      rw [hi]
      exact hkey
  · rintro ⟨i, hi⟩
    obtain ⟨l, hl, hkey⟩ := Option.bind_eq_some_iff.mp (mem_members.mp hi)
    exact .inr ⟨l, List.mem_of_getElem? hl, hkey⟩

/-! ### What is written -/

@[simp] theorem length_writeTaxes (taxes : List (Option ℤ)) (written : List (ℕ × ℤ)) :
    (writeTaxes taxes written).length = taxes.length := by
  induction written generalizing taxes with
  | nil => rfl
  | cons w written ih => exact (ih _).trans List.length_set

theorem writeTaxes_other {taxes : List (Option ℤ)} {written : List (ℕ × ℤ)} {i : ℕ}
    (h : i ∉ written.map Prod.fst) : (writeTaxes taxes written)[i]? = taxes[i]? := by
  induction written generalizing taxes with
  | nil => rfl
  | cons w written ih =>
    rw [List.map_cons, List.mem_cons, not_or] at h
    exact (ih h.2).trans (List.getElem?_set_ne (Ne.symm h.1))

theorem writeTaxes_written {taxes : List (Option ℤ)} {written : List (ℕ × ℤ)} {i : ℕ} {t : ℤ}
    (hnodup : (written.map Prod.fst).Nodup) (hi : i < taxes.length) (h : (i, t) ∈ written) :
    (writeTaxes taxes written)[i]? = some (some t) := by
  induction written generalizing taxes with
  | nil => cases h
  | cons w written ih =>
    rw [List.map_cons, List.nodup_cons] at hnodup
    obtain rfl | hmem := List.mem_cons.mp h
    · exact (writeTaxes_other hnodup.1).trans (List.getElem?_set_self hi)
    · exact ih hnodup.2 (by rwa [List.length_set]) hmem

theorem written_fst (lines : List NoteMoneyLine) (totals : List ℤ) (key : String) :
    ((members lines key).zip (groupTaxes (exactTaxes lines totals key))).map Prod.fst =
      members lines key := by
  refine List.map_fst_zip ?_
  rw [groupTaxes_eq, length_apportion, exactTaxes, List.length_map]

def writeGroups (lines : List NoteMoneyLine) (totals : List ℤ) (taxes : List (Option ℤ))
    (order : List String) : List (Option ℤ) :=
  order.foldl (fun taxes key =>
    writeTaxes taxes ((members lines key).zip (groupTaxes (exactTaxes lines totals key)))) taxes

section
variable {lines : List NoteMoneyLine} {totals : List ℤ}

@[simp] theorem length_writeGroups (taxes : List (Option ℤ)) (order : List String) :
    (writeGroups lines totals taxes order).length = taxes.length := by
  induction order generalizing taxes with
  | nil => rfl
  | cons key order ih => exact (ih _).trans (length_writeTaxes _ _)

theorem writeGroups_other {taxes : List (Option ℤ)} {order : List String} {i : ℕ}
    (h : ∀ key ∈ order, i ∉ members lines key) :
    (writeGroups lines totals taxes order)[i]? = taxes[i]? := by
  induction order generalizing taxes with
  | nil => rfl
  | cons key order ih =>
    obtain ⟨hkey, horder⟩ := List.forall_mem_cons.mp h
    refine (ih horder).trans (writeTaxes_other ?_)
    rw [written_fst]
    exact hkey

theorem writeGroups_member {taxes : List (Option ℤ)} {order : List String} {key : String}
    {i : ℕ} {t : ℤ} (hnodup : order.Nodup) (hlen : lines.length = taxes.length)
    (hkey : key ∈ order)
    (h : (i, t) ∈ (members lines key).zip (groupTaxes (exactTaxes lines totals key))) :
    (writeGroups lines totals taxes order)[i]? = some (some t) := by
  have hi : i ∈ members lines key := (List.of_mem_zip h).1
  induction order generalizing taxes with
  | nil => cases hkey
  | cons first order ih =>
    obtain ⟨hfirst, horder⟩ := List.nodup_cons.mp hnodup
    obtain rfl | hlater := List.mem_cons.mp hkey
    · -- no later group holds the line
      have hothers : ∀ other ∈ order, i ∉ members lines other := by
        intro other hother hin
        have hsame := (mem_members.mp hi).symm.trans (mem_members.mp hin)
        cases hsame
        exact hfirst hother
      refine (writeGroups_other hothers).trans (writeTaxes_written ?_ ?_ h)
      · rw [written_fst]
        exact (members_sorted lines key).nodup
      · rw [← hlen]
        exact lt_of_mem_members hi
    · exact ih horder (by rwa [length_writeTaxes]) hlater

theorem lineTaxes_member {key : String} {pos i : ℕ} {t : ℤ}
    (hpos : (members lines key)[pos]? = some i)
    (ht : (apportion (exactTaxes lines totals key))[pos]? = some t) :
    (lineTaxes lines totals)[i]? = some (some t) := by
  have hi : i ∈ members lines key := List.mem_of_getElem? hpos
  refine writeGroups_member (nodup_groupOrder lines) ?_ (mem_groupOrder.mpr ⟨i, hi⟩) ?_
  · rw [List.length_replicate]
  · refine List.mem_iff_getElem?.mpr ⟨pos, ?_⟩
    rw [List.getElem?_zip_eq_some, groupTaxes_eq]
    exact ⟨hpos, ht⟩

theorem lineTaxes_other {i : ℕ} (hi : i < lines.length) (h : lines[i]?.bind groupKey = none) :
    (lineTaxes lines totals)[i]? = some none := by
  have hnone : ∀ key ∈ groupOrder lines, i ∉ members lines key := by
    intro key _ hin
    rw [mem_members, h] at hin
    cases hin
  refine (writeGroups_other hnone).trans ?_
  rw [List.getElem?_replicate, if_pos hi]

@[simp] theorem length_lineTaxes : (lineTaxes lines totals).length = lines.length :=
  (length_writeGroups _ _).trans (List.length_replicate)

end

/-! ### The note -/

def groupLines (lines : List NoteMoneyLine) (g : String × ℤ) : List ℕ :=
  (List.range lines.length).filter fun i => lines[i]?.bind taxGroup = some g

theorem bind_groupKey (lines : List NoteMoneyLine) (i : ℕ) :
    lines[i]?.bind groupKey = (lines[i]?.bind taxGroup).map groupText := by
  cases lines[i]? with
  | none => rfl
  | some l => rfl

theorem groupLines_eq (lines : List NoteMoneyLine) (g : String × ℤ) :
    groupLines lines g = members lines (groupText g) := by
  refine List.filter_congr fun i _ => ?_
  refine decide_eq_decide.mpr ?_
  rw [bind_groupKey]
  constructor
  · intro h
    rw [h]
    rfl
  · intro h
    obtain ⟨g', hg', htext⟩ := Option.map_eq_some_iff.mp h
    rw [hg', groupText_inj htext]

def exactAt (totals : List ℤ) (g : String × ℤ) (i : ℕ) : ℚ := exactTax (totals.getD i 0) g.2

/-- One group's taxes: each the floor of its exact tax or one kobo more, their sum the rounded
exact sum, the extra kobo on the largest remainders with ties to the lower line. -/
structure GroupConserved (lines : List NoteMoneyLine) (totals : List ℤ)
    (taxes : List (Option ℤ)) (g : String × ℤ) : Prop where
  near : ∀ i ∈ groupLines lines g, ∃ t, taxes[i]? = some (some t) ∧
    (t = ⌊exactAt totals g i⌋ ∨ t = ⌊exactAt totals g i⌋ + 1)
  sum : ((groupLines lines g).map fun i => (taxes.getD i none).getD 0).sum =
    halfAway ((groupLines lines g).map (exactAt totals g)).sum
  ahead : ∀ i ∈ groupLines lines g, ∀ j ∈ groupLines lines g,
    taxes[i]? = some (some (⌊exactAt totals g i⌋ + 1)) →
    taxes[j]? = some (some ⌊exactAt totals g j⌋) →
    Int.fract (exactAt totals g j) < Int.fract (exactAt totals g i) ∨
      Int.fract (exactAt totals g j) = Int.fract (exactAt totals g i) ∧ i < j

theorem exactTaxes_eq (lines : List NoteMoneyLine) (totals : List ℤ) (g : String × ℤ) :
    exactTaxes lines totals (groupText g) = (groupLines lines g).map (exactAt totals g) := by
  rw [exactTaxes, ← groupLines_eq]
  refine List.map_congr_left fun i hi => ?_
  have hgroup : lines[i]?.bind taxGroup = some g :=
    of_decide_eq_true (List.mem_filter.mp hi).2
  obtain ⟨l, hl, hg⟩ := Option.bind_eq_some_iff.mp hgroup
  obtain ⟨c, -, hpercent⟩ := Option.bind_eq_some_iff.mp hg
  obtain ⟨p, hp, rfl⟩ := Option.map_eq_some_iff.mp hpercent
  rw [percentAt, hl, Option.bind_some, hp, exactAt]
  rfl

theorem lineTaxes_conserved (lines : List NoteMoneyLine) (totals : List ℤ) (g : String × ℤ) :
    GroupConserved lines totals (lineTaxes lines totals) g := by
  have hexact := exactTaxes_eq lines totals g
  have hcount : (apportion (exactTaxes lines totals (groupText g))).length =
      (groupLines lines g).length := by
    rw [length_apportion, hexact, List.length_map]
  -- a line's position in its group gives its exact tax and its share
  have hplace : ∀ {pos i : ℕ}, (groupLines lines g)[pos]? = some i →
      (exactTaxes lines totals (groupText g))[pos]? = some (exactAt totals g i) ∧
        ∃ t, (apportion (exactTaxes lines totals (groupText g)))[pos]? = some t ∧
          (lineTaxes lines totals)[i]? = some (some t) := by
    intro pos i hpos
    have hlt := (List.getElem?_eq_some_iff.mp hpos).1
    refine ⟨?_, ?_⟩
    · rw [hexact, List.getElem?_map, hpos]
      rfl
    · rw [← hcount] at hlt
      have ht := List.getElem?_eq_getElem hlt
      rw [groupLines_eq] at hpos
      exact ⟨_, ht, lineTaxes_member hpos ht⟩
  refine ⟨?_, ?_, ?_⟩
  · intro i hi
    obtain ⟨pos, hpos⟩ := List.mem_iff_getElem?.mp hi
    obtain ⟨hx, t, ht, htax⟩ := hplace hpos
    exact ⟨t, htax, apportion_near hx ht⟩
  · have hshares : ((groupLines lines g).map fun i => ((lineTaxes lines totals).getD i none).getD 0)
        = apportion (exactTaxes lines totals (groupText g)) := by
      refine List.ext_getElem? fun pos => ?_
      rw [List.getElem?_map]
      cases hpos : (groupLines lines g)[pos]? with
      | none =>
        rw [List.getElem?_eq_none_iff, ← hcount, ← List.getElem?_eq_none_iff] at hpos
        rw [hpos]
        rfl
      | some i =>
        obtain ⟨-, t, ht, htax⟩ := hplace hpos
        rw [ht, Option.map_some, List.getD_eq_getElem?_getD, htax]
        rfl
    rw [hshares, sum_apportion, hexact]
  · intro i hi j hj hextra hfloor
    obtain ⟨a, ha⟩ := List.mem_iff_getElem?.mp hi
    obtain ⟨b, hb⟩ := List.mem_iff_getElem?.mp hj
    obtain ⟨hx, t, ht, htax⟩ := hplace ha
    obtain ⟨hy, u, hu, hutax⟩ := hplace hb
    rw [htax, Option.some.injEq, Option.some.injEq] at hextra
    rw [hutax, Option.some.injEq, Option.some.injEq] at hfloor
    subst hextra
    subst hfloor
    refine (apportion_ahead hx hy ht hu).imp_right fun htie => ⟨htie.1, ?_⟩
    have hsorted := members_sorted lines (groupText g)
    rw [← groupLines_eq] at hsorted
    obtain ⟨ha', hga⟩ := List.getElem?_eq_some_iff.mp ha
    obtain ⟨hb', hgb⟩ := List.getElem?_eq_some_iff.mp hb
    have hlt := List.pairwise_iff_getElem.mp hsorted a b ha' hb' htie.2
    rwa [hga, hgb] at hlt

theorem noteTaxes_eq (lines : List NoteMoneyLine) (totals : List ℤ) :
    noteTaxes lines totals = lineTaxes lines totals := by
  unfold noteTaxes
  split
  · rfl
  · rename_i hnone
    rw [Bool.not_eq_true, List.any_eq_false] at hnone
    refine List.ext_getElem? fun i => ?_
    by_cases hi : i < lines.length
    · have hkey : lines[i]?.bind groupKey = none := by
        rw [List.getElem?_eq_getElem hi, Option.bind_some]
        have hcategory := hnone lines[i] (List.getElem_mem hi)
        rw [groupKey, taxGroup, usablePercent, if_neg hcategory]
        cases lines[i].taxCategory <;> rfl
      rw [lineTaxes_other hi hkey, List.getElem?_replicate, if_pos hi]
    · rw [List.getElem?_eq_none (by rw [List.length_replicate]; exact not_lt.mp hi),
        List.getElem?_eq_none (by rw [length_lineTaxes]; exact not_lt.mp hi)]

theorem noteLines_eq_ok {lines : List NoteMoneyLine} {rows : List (ℚ × ℤ)}
    (h : lines.mapM noteLine = .ok rows) :
    List.Forall₂ (fun l r => ∃ q p, noteQuantity l.quantity = .ok q ∧
      noteUnitPrice l.unitPrice = .ok p ∧ r = (q * p, roundTwo (q * p))) lines rows := by
  induction lines generalizing rows with
  | nil =>
    cases h
    exact .nil
  | cons l lines ih =>
    simp only [List.mapM_cons, bind_eq_ok, pure_eq_ok] at h
    obtain ⟨r, hr, rest, hrest, rfl⟩ := h
    refine .cons ?_ (ih hrest)
    simp only [noteLine, bind_eq_ok, refuse_eq_ok, pure_eq_ok] at hr
    obtain ⟨q, hq, p, hp, -, rfl⟩ := hr
    exact ⟨q, p, hq, hp, rfl⟩

theorem subtotal_near {rows : List (ℚ × ℤ)} (h : ∀ r ∈ rows, r.2 = roundTwo r.1) :
    |(roundTwo (rows.map Prod.fst).sum : ℚ) - ((rows.map Prod.snd).sum : ℤ)| ≤
      rows.length / 2 + 1 / 2 := by
  have hparts : |(rows.map Prod.fst).sum * 100 - ((rows.map Prod.snd).sum : ℤ)| ≤
      (rows.length : ℚ) / 2 := by
    induction rows with
    | nil => simp
    | cons r rows ih =>
      obtain ⟨hr, hrows⟩ := List.forall_mem_cons.mp h
      have hhead := halfAway_near (r.1 * 100)
      have htail := ih hrows
      rw [roundTwo] at hr
      rw [← hr, abs_le] at hhead
      rw [abs_le] at htail ⊢
      simp only [List.map_cons, List.sum_cons, List.length_cons, Int.cast_add, Nat.cast_add,
        Nat.cast_one]
      constructor <;> linarith
  have hwhole := halfAway_near ((rows.map Prod.fst).sum * 100)
  rw [abs_le] at hparts hwhole ⊢
  unfold roundTwo
  constructor <;> linarith

/-- The amounts of a note conserve kobo. -/
theorem note_amounts_conserve (lines : List NoteMoneyLine) (out : NoteMoney)
    (h : noteAmounts lines = .ok out) :
    ∃ (totals : List ℤ) (taxes : List (Option ℤ)) (subtotal vat total : ℤ),
      out = ⟨totals.map stringFixedTwo, taxes.map fun t => t.map stringFixedTwo,
        stringFixedTwo subtotal, stringFixedTwo vat, stringFixedTwo total⟩ ∧
      List.Forall₂ (fun l t => ∃ q p, noteQuantity l.quantity = .ok q ∧
        noteUnitPrice l.unitPrice = .ok p ∧ t = roundTwo (q * p)) lines totals ∧
      taxes.length = lines.length ∧
      (∀ i < lines.length, lines[i]?.bind taxGroup = none → taxes[i]? = some none) ∧
      (∀ g, GroupConserved lines totals taxes g) ∧
      (lines.any categorised = true → vat = taxes.reduceOption.sum) ∧
      total = subtotal + vat ∧
      |(subtotal : ℚ) - (totals.sum : ℤ)| ≤ lines.length / 2 + 1 / 2 := by
  simp only [noteAmounts, bind_eq_ok, refuse_eq_ok, pure_eq_ok] at h
  obtain ⟨rows, hrows, -, rfl⟩ := h
  have hlines := noteLines_eq_ok hrows
  rw [noteTaxes_eq]
  refine ⟨rows.map Prod.snd, lineTaxes lines (rows.map Prod.snd), _, _, _, rfl, ?_,
    length_lineTaxes, ?_, lineTaxes_conserved lines _, ?_, rfl, ?_⟩
  · refine List.forall₂_map_right_iff.mpr (hlines.imp ?_)
    rintro l r ⟨q, p, hq, hp, rfl⟩
    exact ⟨q, p, hq, hp, rfl⟩
  · intro i hi hnone
    refine lineTaxes_other hi ?_
    rw [bind_groupKey, hnone]
    rfl
  · intro hany
    rw [noteVAT, if_pos hany]
  · have hcount : lines.length = rows.length := hlines.length_eq
    have hround : ∀ r ∈ rows, r.2 = roundTwo r.1 := by
      clear hrows hcount
      induction hlines with
      | nil => exact fun r hr => absurd hr List.not_mem_nil
      | cons hrow _ ih =>
        obtain ⟨q, p, -, -, rfl⟩ := hrow
        exact List.forall_mem_cons.mpr ⟨rfl, ih⟩
    rw [hcount]
    exact subtotal_near hround

def tieLines : List NoteMoneyLine :=
  List.replicate 3
    { quantity := "1", unitPrice := "10.06", taxCategory := some "STANDARD_VAT",
      taxPercent := some "7.5" }

def tieMoney : NoteMoney where
  lineTotals := ["10.06", "10.06", "10.06"]
  lineTaxes := [some "0.76", some "0.75", some "0.75"]
  subtotal := "30.18"
  vat := "2.26"
  total := "32.44"

theorem note_amounts_conserve_sample :
    ∃ (totals : List ℤ) (taxes : List (Option ℤ)) (subtotal vat total : ℤ),
      tieMoney = ⟨totals.map stringFixedTwo, taxes.map fun t => t.map stringFixedTwo,
        stringFixedTwo subtotal, stringFixedTwo vat, stringFixedTwo total⟩ ∧
      (∀ g, GroupConserved tieLines totals taxes g) ∧ total = subtotal + vat := by
  have hrun : noteAmounts tieLines = .ok tieMoney := by decide +kernel
  obtain ⟨totals, taxes, subtotal, vat, total, hout, -, -, -, hgroups, -, htotal, -⟩ :=
    note_amounts_conserve tieLines tieMoney hrun
  exact ⟨totals, taxes, subtotal, vat, total, hout, hgroups, htotal⟩

end InvoiceOs.Invoice
