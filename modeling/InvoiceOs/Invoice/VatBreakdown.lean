import InvoiceOs.Invoice.SameMoney
import InvoiceOs.Invoice.TaxSubtotals
import InvoiceOs.Ubl.Document

/-! The breakdown of a note's VAT: every categorised line in one group, and the groups' amounts the
VAT of the header and of the document. -/

namespace InvoiceOs.Invoice

open Lib

/-! ### Sums -/

section
variable {newFromString : String → Option ℚ}

theorem foldl_absent (vs : List (Option String)) (t : ℚ) :
    vs.foldl (TaxSum.add newFromString) ⟨t, true⟩ = ⟨t, true⟩ := by
  induction vs with
  | nil => rfl
  | cons v vs ih => exact ih

theorem foldl_add (vs : List (Option String)) (t : ℚ) :
    (vs.foldl (TaxSum.add newFromString) ⟨t, false⟩).absent =
        vs.any (fun v => (v.bind newFromString).isNone) ∧
      ∀ xs : List ℚ, vs.map (fun v => v.bind newFromString) = xs.map some →
        (vs.foldl (TaxSum.add newFromString) ⟨t, false⟩).total = t + xs.sum := by
  induction vs generalizing t with
  | nil =>
    refine ⟨rfl, fun xs hxs => ?_⟩
    obtain rfl := List.map_eq_nil_iff.mp hxs.symm
    rw [List.sum_nil, add_zero]
    rfl
  | cons v vs ih =>
    rw [List.foldl_cons, TaxSum.add, if_neg Bool.false_ne_true]
    cases hv : v.bind newFromString with
    | none =>
      dsimp only
      rw [foldl_absent]
      refine ⟨by simp [hv], fun xs hxs => ?_⟩
      cases xs with
      | nil => cases hxs
      | cons x xs =>
        rw [List.map_cons, hv] at hxs
        cases (List.cons.inj hxs).1
    | some d =>
      dsimp only
      refine ⟨by simp [hv, (ih (t + d)).1], fun xs hxs => ?_⟩
      cases xs with
      | nil => cases hxs
      | cons x xs =>
        rw [List.map_cons, hv] at hxs
        obtain ⟨hx, hrest⟩ := List.cons.inj hxs
        obtain rfl := Option.some.inj hx
        rw [(ih (t + d)).2 xs hrest, List.sum_cons, add_assoc]

/-! ### Groups -/

def subtotalGroup (newFromString : String → Option ℚ) (lines : List LineItem)
    (key : String × Option String) : SubtotalGroup :=
  (lines.filter fun l => lineKey l = some key).foldl (SubtotalGroup.add newFromString)
    { key := key }

theorem key_foldl_add (ls : List LineItem) (g : SubtotalGroup) :
    (ls.foldl (SubtotalGroup.add newFromString) g).key = g.key := by
  induction ls generalizing g with
  | nil => rfl
  | cons l ls ih => exact ih _

@[simp] theorem key_subtotalGroup (ls : List LineItem) (key : String × Option String) :
    (subtotalGroup newFromString ls key).key = key := key_foldl_add _ _

theorem taxes_foldl_add (ls : List LineItem) (g : SubtotalGroup) :
    (ls.foldl (SubtotalGroup.add newFromString) g).taxes =
      (ls.map LineItem.lineTax).foldl (TaxSum.add newFromString) g.taxes := by
  induction ls generalizing g with
  | nil => rfl
  | cons l ls ih => exact ih _

theorem foldl_addSubtotalLine (ls : List LineItem) :
    ls.foldl (addSubtotalLine newFromString) [] =
      (firstKeys (ls.filterMap lineKey)).map (subtotalGroup newFromString ls) := by
  induction ls using List.reverseRecOn with
  | nil => rfl
  | append_singleton ls l ih =>
    have hother : ∀ key, lineKey l ≠ some key →
        subtotalGroup newFromString (ls ++ [l]) key = subtotalGroup newFromString ls key := by
      intro key hkey
      unfold subtotalGroup
      rw [List.filter_append, List.filter_cons_of_neg (by simpa using hkey), List.filter_nil,
        List.append_nil]
    have hown : ∀ key, lineKey l = some key → subtotalGroup newFromString (ls ++ [l]) key =
        (subtotalGroup newFromString ls key).add newFromString l := by
      intro key hkey
      unfold subtotalGroup
      rw [List.filter_append, List.filter_cons_of_pos (by simpa using hkey), List.filter_nil,
        List.foldl_append]
      rfl
    rw [List.foldl_append, ih, List.filterMap_append]
    change addSubtotalLine newFromString _ l = _
    unfold addSubtotalLine
    cases hl : lineKey l with
    | none =>
      rw [List.filterMap_cons_none hl, List.filterMap_nil, List.append_nil]
      refine List.map_congr_left fun key _ => (hother key ?_).symm
      rw [hl]
      exact Option.some_ne_none key |>.symm
    | some key =>
      have hstay : ∀ key', key' ≠ key → subtotalGroup newFromString (ls ++ [l]) key' =
          subtotalGroup newFromString ls key' := fun key' hne =>
        hother key' (by rw [hl]; exact fun h => hne (Option.some.inj h).symm)
      rw [List.filterMap_cons_some hl, List.filterMap_nil, firstKeys_concat]
      dsimp only
      by_cases hin : key ∈ firstKeys (ls.filterMap lineKey)
      · have hany : ((firstKeys (ls.filterMap lineKey)).map (subtotalGroup newFromString ls)).any
            (fun g => decide (g.key = key)) = true :=
          List.any_eq_true.mpr ⟨_, List.mem_map_of_mem hin, by simp⟩
        rw [if_pos hany, if_pos hin, List.map_map]
        refine List.map_congr_left fun key' _ => ?_
        rw [Function.comp_apply, key_subtotalGroup]
        by_cases hkey : key' = key
        · rw [if_pos hkey, hkey, hown key hl]
        · rw [if_neg hkey, hstay key' hkey]
      · have hnone : ¬ ((firstKeys (ls.filterMap lineKey)).map (subtotalGroup newFromString ls)).any
            (fun g => decide (g.key = key)) = true := by
          intro hany
          obtain ⟨g, hg, hkey⟩ := List.any_eq_true.mp hany
          obtain ⟨key', hkey', rfl⟩ := List.mem_map.mp hg
          rw [key_subtotalGroup, decide_eq_true_iff] at hkey
          exact hin (hkey ▸ hkey')
        have hfirst : subtotalGroup newFromString ls key = { key := key } := by
          unfold subtotalGroup
          rw [List.filter_eq_nil_iff.mpr]
          · rfl
          · intro l' hl' hkey
            exact hin (mem_firstKeys.mpr (List.mem_filterMap.mpr
              ⟨l', hl', of_decide_eq_true hkey⟩))
        rw [if_neg hnone, if_neg hin, List.map_append, List.map_singleton, hown key hl, hfirst]
        congr 1
        exact List.map_congr_left fun key' hkey' =>
          (hstay key' fun h => hin (h ▸ hkey')).symm

end

/-! ### Order and permutation -/

theorem nodup_firstKeys {κ : Type} [DecidableEq κ] (keys : List κ) : (firstKeys keys).Nodup := by
  induction keys using List.reverseRecOn with
  | nil => exact List.nodup_nil
  | append_singleton keys key ih =>
    rw [firstKeys_concat]
    split
    · exact ih
    · rename_i hin
      exact List.nodup_append.mpr ⟨ih, List.nodup_singleton key, fun a ha b hb => by
        rw [List.mem_singleton.mp hb]
        exact fun h => hin (h ▸ ha)⟩

def Leads (lines : List LineItem) (key key' : String × Option String) : Prop :=
  ∀ l' ∈ lines, lineKey l' = some key' → ∃ l ∈ lines, lineKey l = some key ∧ l.lineNo < l'.lineNo

theorem firstKeys_leads {ls : List LineItem} (h : ls.Pairwise fun a b => a.lineNo < b.lineNo) :
    (firstKeys (ls.filterMap lineKey)).Pairwise (Leads ls) := by
  induction ls using List.reverseRecOn with
  | nil => exact List.Pairwise.nil
  | append_singleton ls l ih =>
    obtain ⟨hls, -, hlast⟩ := List.pairwise_append.mp h
    have hbefore : ∀ a ∈ ls, a.lineNo < l.lineNo := fun a ha => hlast a ha l List.mem_cons_self
    have hline : ∀ {key}, key ∈ firstKeys (ls.filterMap lineKey) →
        ∃ a ∈ ls, lineKey a = some key := fun hkey =>
      List.mem_filterMap.mp (mem_firstKeys.mp hkey)
    have hold : (firstKeys (ls.filterMap lineKey)).Pairwise (Leads (ls ++ [l])) := by
      refine (List.Pairwise.and_mem.mp (ih hls)).imp ?_
      rintro key key' ⟨hkey, -, hleads⟩ l' hl' hkey'
      obtain hl' | hl' := List.mem_append.mp hl'
      · obtain ⟨a, ha, hak, hlt⟩ := hleads l' hl' hkey'
        exact ⟨a, List.mem_append_left _ ha, hak, hlt⟩
      · obtain rfl := List.mem_singleton.mp hl'
        obtain ⟨a, ha, hak⟩ := hline hkey
        exact ⟨a, List.mem_append_left _ ha, hak, hbefore a ha⟩
    rw [List.filterMap_append]
    cases hl : lineKey l with
    | none =>
      rw [List.filterMap_cons_none hl, List.filterMap_nil, List.append_nil]
      exact hold
    | some key =>
      rw [List.filterMap_cons_some hl, List.filterMap_nil, firstKeys_concat]
      split
      · exact hold
      · rename_i hnew
        refine List.pairwise_append.mpr ⟨hold, List.pairwise_singleton _ _, ?_⟩
        intro earlier hearlier last hlastKey l' hl' hkey'
        obtain rfl := List.mem_singleton.mp hlastKey
        obtain ⟨a, ha, hak⟩ := hline hearlier
        obtain hl' | hl' := List.mem_append.mp hl'
        · exact absurd (mem_firstKeys.mpr (List.mem_filterMap.mpr ⟨l', hl', hkey'⟩)) hnew
        · obtain rfl := List.mem_singleton.mp hl'
          exact ⟨a, List.mem_append_left _ ha, hak, hbefore a ha⟩

theorem mem_sortLines {l : LineItem} {lines : List LineItem} :
    l ∈ sortLines lines ↔ l ∈ lines := by
  rw [sortLines_eq]
  exact (List.perm_insertionSort _ lines).mem_iff

theorem sortLines_ascending {lines : List LineItem} (h : (lines.map LineItem.lineNo).Nodup) :
    (sortLines lines).Pairwise fun a b => a.lineNo < b.lineNo := by
  have htotal : Std.Total fun a b : LineItem => a.lineNo ≤ b.lineNo :=
    ⟨fun a b => le_total a.lineNo b.lineNo⟩
  have htrans : IsTrans LineItem fun a b => a.lineNo ≤ b.lineNo := ⟨fun _ _ _ => le_trans⟩
  rw [sortLines_eq]
  have hsorted := List.pairwise_insertionSort (fun a b : LineItem => a.lineNo ≤ b.lineNo) lines
  have hdistinct : ((lines.insertionSort fun a b => a.lineNo ≤ b.lineNo).map
      LineItem.lineNo).Nodup :=
    (((List.perm_insertionSort _ lines).map LineItem.lineNo).nodup_iff).mpr h
  have hapart := List.pairwise_map.mp hdistinct
  exact (hsorted.and hapart).imp fun hab => lt_of_le_of_ne hab.1 hab.2

theorem taxSubtotals_eq (newFromString : String → Option ℚ) (lines : List LineItem) :
    taxSubtotals newFromString lines =
      (firstKeys ((sortLines lines).filterMap lineKey)).map fun key =>
        (subtotalGroup newFromString (sortLines lines) key).subtotal := by
  rw [taxSubtotals, foldl_addSubtotalLine, List.map_map]
  rfl

/-! ### Partition -/

theorem sum_members {α κ : Type} [DecidableEq κ] (key : α → Option κ) (f : α → ℤ) (keys : List κ)
    (hnodup : keys.Nodup) (xs : List α) (hkeys : ∀ x ∈ xs, ∀ k, key x = some k → k ∈ keys) :
    (keys.map fun k => ((xs.filter fun x => key x = some k).map f).sum).sum =
      ((xs.filter fun x => (key x).isSome).map f).sum := by
  induction xs with
  | nil => simp
  | cons x xs ih =>
    have hrest := ih fun y hy => hkeys y (List.mem_cons_of_mem x hy)
    cases hx : key x with
    | none => simpa [List.filter_cons, hx] using hrest
    | some k =>
      have hmem := hkeys x List.mem_cons_self k hx
      have hsplit : ∀ k', (((x :: xs).filter fun y => key y = some k').map f).sum =
          (if k' = k then f x else 0) + ((xs.filter fun y => key y = some k').map f).sum := by
        intro k'
        by_cases hk : k' = k
        · rw [if_pos hk, List.filter_cons_of_pos (by simp [hx, hk]), List.map_cons, List.sum_cons]
        · rw [if_neg hk, List.filter_cons_of_neg (by simpa [hx] using fun h => hk h.symm), zero_add]
      simp only [hsplit]
      rw [List.sum_map_add, hrest, List.filter_cons_of_pos (by simp [hx]), List.map_cons,
        List.sum_cons, List.sum_map_ite_eq, List.count_eq_one_of_mem hnodup hmem, one_nsmul]
      simp

/-! ### The breakdown of a note -/

def ReadsAmounts (newFromString : String → Option ℚ) : Prop :=
  ∀ n : ℤ, newFromString (stringFixedTwo n) = some (n / 100 : ℚ)

def taxedKey (key : String × Option String) : Bool :=
  (taxGroup { quantity := "", unitPrice := "", taxCategory := some key.1, taxPercent := key.2 }).isSome

theorem taxGroup_isSome (l : NoteMoneyLine) :
    (taxGroup l).isSome = (l.taxCategory.map fun c => (c, l.taxPercent)).any taxedKey := by
  unfold taxGroup usablePercent categorised taxedKey
  cases l.taxCategory with
  | none => rfl
  | some c =>
    cases l.taxPercent <;> simp [taxGroup, usablePercent, categorised]

theorem lineTaxes_isSome {lines : List NoteMoneyLine} {totals : List ℤ} {i : ℕ} {l : NoteMoneyLine}
    (hl : lines[i]? = some l) :
    ((lineTaxes lines totals).getD i none).isSome = (taxGroup l).isSome := by
  have hi : i < lines.length := (List.getElem?_eq_some_iff.mp hl).1
  rw [List.getD_eq_getElem?_getD]
  cases hg : taxGroup l with
  | none =>
    rw [lineTaxes_other hi (by rw [bind_groupKey, hl, Option.bind_some, hg]; rfl)]
    rfl
  | some g =>
    have hmem : i ∈ groupLines lines g :=
      List.mem_filter.mpr ⟨List.mem_range.mpr hi, decide_eq_true (by rw [hl, Option.bind_some, hg])⟩
    obtain ⟨t, ht, -⟩ := (lineTaxes_conserved lines totals g).near i hmem
    rw [ht]
    rfl

theorem sum_getD (taxes : List (Option ℤ)) :
    (taxes.map fun t => t.getD 0).sum = taxes.reduceOption.sum := by
  induction taxes with
  | nil => rfl
  | cons t taxes ih =>
    cases t with
    | none =>
      rw [List.map_cons, List.sum_cons, ih, List.reduceOption_cons_of_none, Option.getD_none,
        zero_add]
    | some t =>
      rw [List.map_cons, List.sum_cons, ih, List.reduceOption_cons_of_some, List.sum_cons,
        Option.getD_some]

theorem storedLines_taxes (rest : ℕ → LineItem) {lines : List NoteMoneyLine} {out : NoteMoney}
    (h : noteAmounts lines = .ok out) (hcategorised : lines.any categorised = true) :
    ∃ (tax : LineItem → Option ℤ) (vat : ℤ), out.vat = stringFixedTwo vat ∧
      (∀ l ∈ storedLines rest lines out, l.lineTax = (tax l).map stringFixedTwo ∧
        (tax l).isSome = (lineKey l).any taxedKey) ∧
      ((storedLines rest lines out).map fun l => (tax l).getD 0).sum = vat := by
  simp only [noteAmounts, bind_eq_ok, refuse_eq_ok, pure_eq_ok] at h
  obtain ⟨rows, -, -, rfl⟩ := h
  rw [noteTaxes_eq]
  generalize htaxes : lineTaxes lines (rows.map Prod.snd) = taxes
  refine ⟨fun l => taxes.getD (l.lineNo - 1).toNat none, taxes.reduceOption.sum, ?_, ?_, ?_⟩
  · rw [noteVAT, if_pos hcategorised, htaxes]
  · intro l hl
    obtain ⟨⟨m, i⟩, hmem, rfl⟩ := List.mem_map.mp hl
    have hm : lines[i]? = some m := List.mem_zipIdx_iff_getElem?.mp hmem
    have hindex : ((i : ℤ) + 1 - 1).toNat = i := by omega
    dsimp only
    rw [hindex]
    constructor
    · rw [List.getD_eq_getElem?_getD, List.getD_eq_getElem?_getD, List.getElem?_map]
      cases taxes[i]? <;> rfl
    · rw [← htaxes, lineTaxes_isSome hm, taxGroup_isSome]
      rfl
  · have hlength : taxes.length = lines.length := by
      rw [← htaxes, length_lineTaxes]
    rw [← sum_getD taxes, storedLines, List.map_map]
    congr 1
    refine List.ext_getElem (by simp [hlength]) fun i hi hi' => ?_
    have hi'' : i < taxes.length := by simpa using hi'
    simp [hi'']

theorem taxAmount_eq {newFromString : String → Option ℚ} (hread : ReadsAmounts newFromString)
    {tax : LineItem → Option ℤ} {ls : List LineItem} {key : String × Option String} {b : Bool}
    (hne : (ls.filter fun l => lineKey l = some key) ≠ [])
    (htax : ∀ l ∈ ls, l.lineTax = (tax l).map stringFixedTwo)
    (hb : ∀ l ∈ ls, lineKey l = some key → (tax l).isSome = b) :
    (subtotalGroup newFromString ls key).subtotal.taxAmount =
      if b then some (stringFixedTwo (((ls.filter fun l => lineKey l = some key).map
        fun l => (tax l).getD 0).sum)) else none := by
  generalize hms : (ls.filter fun l => lineKey l = some key) = ms at hne
  have hmem : ∀ l ∈ ms, l.lineTax = (tax l).map stringFixedTwo ∧ (tax l).isSome = b := by
    intro l hl
    rw [← hms] at hl
    obtain ⟨hl, hkey⟩ := List.mem_filter.mp hl
    exact ⟨htax l hl, hb l hl (of_decide_eq_true hkey)⟩
  have hfold : (subtotalGroup newFromString ls key).taxes =
      (ms.map LineItem.lineTax).foldl (TaxSum.add newFromString) {} := by
    rw [subtotalGroup, hms, taxes_foldl_add]
  obtain ⟨habsent, htotal⟩ := @foldl_add newFromString (ms.map LineItem.lineTax) 0
  rw [SubtotalGroup.subtotal]
  dsimp only
  rw [hfold, TaxSum.text, habsent]
  cases b with
  | false =>
    obtain ⟨l, rest, rfl⟩ := List.exists_cons_of_ne_nil hne
    obtain ⟨hline, hnone⟩ := hmem l List.mem_cons_self
    rw [Option.isSome_eq_false_iff, Option.isNone_iff_eq_none] at hnone
    rw [if_pos, if_neg Bool.false_ne_true]
    simp [hline, hnone]
  | true =>
    have hreads : ∀ l ∈ ms, l.lineTax.bind newFromString = some (((tax l).getD 0 : ℤ) / 100 : ℚ) := by
      intro l hl
      obtain ⟨hline, hsome⟩ := hmem l hl
      obtain ⟨t, ht⟩ := Option.isSome_iff_exists.mp hsome
      rw [hline, ht]
      exact hread t
    have hpresent : ((ms.map LineItem.lineTax).any fun v => (v.bind newFromString).isNone) =
        false := by
      rw [List.any_eq_false]
      intro v hv
      obtain ⟨l, hl, rfl⟩ := List.mem_map.mp hv
      rw [hreads l hl]
      exact Bool.false_ne_true
    have hsum := htotal (ms.map fun l => (((tax l).getD 0 : ℤ) / 100 : ℚ)) (by
      rw [List.map_map, List.map_map]
      exact List.map_congr_left hreads)
    have hhundredths : ∀ ms : List LineItem, (ms.map fun l => (((tax l).getD 0 : ℤ) / 100 : ℚ)).sum =
        ((ms.map fun l => (tax l).getD 0).sum : ℤ) / 100 := by
      intro ms
      induction ms with
      | nil => simp
      | cons l ms ih =>
        rw [List.map_cons, List.sum_cons, ih, List.map_cons, List.sum_cons]
        push_cast
        ring
    rw [hpresent, if_neg Bool.false_ne_true, if_pos rfl, hsum, zero_add, hhundredths, roundTwo,
      div_mul_cancel₀ _ (by norm_num), halfAway_int]

structure AddsUp (newFromString : String → Option ℚ) (lines : List LineItem)
    (subtotals : List TaxSubtotal) (vat : String) : Prop where
  /-- Every line with a category is in one group, and the groups stand by their lowest lines. -/
  groups : ∃ keys : List (String × Option String), keys.Nodup ∧ keys.Pairwise (Leads lines) ∧
    (∀ key, key ∈ keys ↔ ∃ l ∈ lines, lineKey l = some key) ∧
    subtotals = keys.map fun key => (subtotalGroup newFromString (sortLines lines) key).subtotal
  taxes : ∃ amounts : List ℤ,
    subtotals.filterMap TaxSubtotal.taxAmount = amounts.map stringFixedTwo ∧
      vat = stringFixedTwo amounts.sum
  untaxed : ∀ s ∈ subtotals, s.taxAmount = none →
    ∀ l ∈ lines, lineKey l = some (s.taxCategory, s.taxPercent) → l.lineTax = none

theorem storedLines_distinct (rest : ℕ → LineItem) (lines : List NoteMoneyLine) (out : NoteMoney) :
    ((storedLines rest lines out).map LineItem.lineNo).Nodup := by
  have hnos : (storedLines rest lines out).map LineItem.lineNo =
      (List.range lines.length).map fun i : ℕ => (i : ℤ) + 1 := by
    rw [storedLines, List.map_map]
    refine List.ext_getElem (by simp) fun i hi hi' => ?_
    simp
  rw [hnos]
  refine List.nodup_range.map fun i j hij => ?_
  exact_mod_cast add_right_cancel hij

theorem filterMap_ite {α β : Type*} (p : α → Bool) (f : α → β) (l : List α) :
    (l.filterMap fun a => if p a then some (f a) else none) = (l.filter p).map f := by
  induction l with
  | nil => rfl
  | cons a l ih => cases h : p a <;> simp [h, ih]

theorem sum_filter_of_zero {α : Type*} (p : α → Bool) (f : α → ℤ) (l : List α)
    (h : ∀ a ∈ l, p a = false → f a = 0) : ((l.filter p).map f).sum = (l.map f).sum := by
  induction l with
  | nil => rfl
  | cons a l ih =>
    have hrest := ih fun b hb => h b (List.mem_cons_of_mem a hb)
    cases hp : p a with
    | true => simp [hp, hrest]
    | false => simp [hp, hrest, h a List.mem_cons_self hp]

theorem addsUp {newFromString : String → Option ℚ} (hread : ReadsAmounts newFromString)
    (rest : ℕ → LineItem) {lines : List NoteMoneyLine} {out : NoteMoney}
    (h : noteAmounts lines = .ok out) (hcategorised : lines.any categorised = true) :
    AddsUp newFromString (storedLines rest lines out)
      (taxSubtotals newFromString (storedLines rest lines out)) out.vat := by
  obtain ⟨tax, vat, hvat, htax, hsum⟩ := storedLines_taxes rest h hcategorised
  have hdistinct := storedLines_distinct rest lines out
  generalize storedLines rest lines out = stored at htax hsum hdistinct
  have hascending := sortLines_ascending hdistinct
  generalize hkeys : firstKeys ((sortLines stored).filterMap lineKey) = keys
  have hnodup : keys.Nodup := hkeys ▸ nodup_firstKeys _
  have hmem : ∀ key, key ∈ keys ↔ ∃ l ∈ stored, lineKey l = some key := by
    intro key
    rw [← hkeys, mem_firstKeys, List.mem_filterMap]
    simp only [mem_sortLines]
  have hsubtotals := taxSubtotals_eq newFromString stored
  rw [hkeys] at hsubtotals
  have hamount : ∀ key ∈ keys,
      (subtotalGroup newFromString (sortLines stored) key).subtotal.taxAmount =
        if taxedKey key then some (stringFixedTwo ((((sortLines stored).filter
          fun l => lineKey l = some key).map fun l => (tax l).getD 0).sum)) else none := by
    intro key hkey
    obtain ⟨l, hl, hlk⟩ := (hmem key).mp hkey
    refine taxAmount_eq hread (List.ne_nil_of_mem (List.mem_filter.mpr
      ⟨mem_sortLines.mpr hl, decide_eq_true hlk⟩)) (fun l' hl' => (htax l' (mem_sortLines.mp hl')).1)
        fun l' hl' hkey' => ?_
    rw [(htax l' (mem_sortLines.mp hl')).2, hkey']
    rfl
  refine ⟨⟨keys, hnodup, ?_, hmem, hsubtotals⟩, ?_, ?_⟩
  · rw [← hkeys]
    refine (firstKeys_leads hascending).imp fun hleads l' hl' hkey' => ?_
    obtain ⟨l, hl, hlk, hlt⟩ := hleads l' (mem_sortLines.mpr hl') hkey'
    exact ⟨l, mem_sortLines.mp hl, hlk, hlt⟩
  · refine ⟨(keys.filter taxedKey).map fun key => (((sortLines stored).filter
      fun l => lineKey l = some key).map fun l => (tax l).getD 0).sum, ?_, ?_⟩
    · rw [hsubtotals, List.filterMap_map]
      refine (List.filterMap_congr hamount).trans ?_
      rw [filterMap_ite, List.map_map]
      rfl
    · have huntaxed : ∀ key ∈ keys, taxedKey key = false →
          (((sortLines stored).filter fun l => lineKey l = some key).map
            fun l => (tax l).getD 0).sum = 0 := by
        intro key _ hkey
        refine List.sum_eq_zero fun t ht => ?_
        obtain ⟨l, hl, rfl⟩ := List.mem_map.mp ht
        obtain ⟨hl, hlk⟩ := List.mem_filter.mp hl
        have htaxed := (htax l (mem_sortLines.mp hl)).2
        rw [of_decide_eq_true hlk, Option.any_some, hkey, Option.isSome_eq_false_iff,
          Option.isNone_iff_eq_none] at htaxed
        rw [htaxed, Option.getD_none]
      have hkeyless : ∀ l ∈ sortLines stored, (lineKey l).isSome = false → (tax l).getD 0 = 0 := by
        intro l hl hlk
        have htaxed := (htax l (mem_sortLines.mp hl)).2
        rw [Option.isSome_eq_false_iff, Option.isNone_iff_eq_none] at hlk
        rw [hlk, Option.any_none, Option.isSome_eq_false_iff, Option.isNone_iff_eq_none] at htaxed
        rw [htaxed, Option.getD_none]
      rw [hvat, ← hsum, sum_filter_of_zero taxedKey _ keys huntaxed,
        sum_members lineKey _ keys hnodup _ fun l hl key hlk =>
          (hmem key).mpr ⟨l, mem_sortLines.mp hl, hlk⟩,
        sum_filter_of_zero _ _ _ hkeyless, sortLines_eq]
      exact congrArg stringFixedTwo (((List.perm_insertionSort _ stored).map _).sum_eq).symm
  · intro s hs hnone l hl hlk
    rw [hsubtotals] at hs
    obtain ⟨key, hkey, rfl⟩ := List.mem_map.mp hs
    have hsame : lineKey l = some key := by
      rw [hlk, SubtotalGroup.subtotal, key_subtotalGroup]
    rw [hamount key hkey] at hnone
    obtain ⟨hline, htaxed⟩ := htax l hl
    rw [hsame] at htaxed
    cases hb : taxedKey key with
    | true =>
      rw [hb] at hnone
      cases hnone
    | false =>
      have hno : tax l = none := by
        rw [← Option.isNone_iff_eq_none, ← Option.isSome_eq_false_iff, htaxed]
        exact hb
      rw [hline, hno]
      rfl

def plainDecimal (s : String) : Option ℚ := (parsePlain s).toOption

theorem plainDecimal_reads : ReadsAmounts plainDecimal := by
  intro n
  have hmagnitude : plainMagnitude (digits (n.natAbs / 100) ++
      '.' :: (digits (n.natAbs % 100 / 10) ++ digits (n.natAbs % 10))) = some (n.natAbs / 100 : ℚ) := by
    have hall : ∀ c ∈ digits (n.natAbs / 100), c.isDigit = true := fun c hc => isDigit_of_mem_digits hc
    have htake : (digits (n.natAbs / 100) ++
        '.' :: (digits (n.natAbs % 100 / 10) ++ digits (n.natAbs % 10))).takeWhile Char.isDigit =
          digits (n.natAbs / 100) := by
      rw [List.takeWhile_append_of_pos hall, List.takeWhile_cons_of_neg (by decide), List.append_nil]
    have hdrop : (digits (n.natAbs / 100) ++
        '.' :: (digits (n.natAbs % 100 / 10) ++ digits (n.natAbs % 10))).dropWhile Char.isDigit =
          '.' :: (digits (n.natAbs % 100 / 10) ++ digits (n.natAbs % 10)) := by
      rw [List.dropWhile_append_of_pos hall, List.dropWhile_cons_of_neg (by decide)]
    have hvalue : Nat.ofDigitChars 10 (digits (n.natAbs / 100) ++
        (digits (n.natAbs % 100 / 10) ++ digits (n.natAbs % 10))) 0 = n.natAbs := by
      have hread : Nat.ofDigitChars 10 (digits (n.natAbs / 100)) 0 = n.natAbs / 100 := by
        rw [digits_eq]
        exact Nat.ofDigitChars_ten_toDigits
      rw [Nat.ofDigitChars_append, hread, digits_of_lt (by omega), digits_of_lt (by omega),
        List.singleton_append, Nat.ofDigitChars_cons_digitChar_of_lt_ten (by omega),
        Nat.ofDigitChars_cons_digitChar_of_lt_ten (by omega), Nat.ofDigitChars_nil]
      omega
    have hlength : (digits (n.natAbs % 100 / 10) ++ digits (n.natAbs % 10)).length = 2 := by
      rw [digits_of_lt (by omega), digits_of_lt (by omega)]
      rfl
    have hfraction : digits (n.natAbs % 100 / 10) ++ digits (n.natAbs % 10) ≠ [] ∧
        (digits (n.natAbs % 100 / 10) ++ digits (n.natAbs % 10)).all Char.isDigit = true := by
      refine ⟨List.append_ne_nil_of_left_ne_nil (digits_ne_nil _) _, List.all_eq_true.mpr ?_⟩
      intro c hc
      obtain hc | hc := List.mem_append.mp hc <;> exact isDigit_of_mem_digits hc
    unfold plainMagnitude
    rw [htake, hdrop]
    cases hwhole : digits (n.natAbs / 100) with
    | nil => exact absurd hwhole (digits_ne_nil _)
    | cons d ds =>
      rw [hwhole] at hvalue
      change (if digits (n.natAbs % 100 / 10) ++ digits (n.natAbs % 10) ≠ [] ∧
          (digits (n.natAbs % 100 / 10) ++ digits (n.natAbs % 10)).all Char.isDigit = true then
        some ((Nat.ofDigitChars 10 (d :: ds ++ (digits (n.natAbs % 100 / 10) ++
          digits (n.natAbs % 10))) 0 : ℕ) / 10 ^ (digits (n.natAbs % 100 / 10) ++
            digits (n.natAbs % 10)).length : ℚ) else none) = _
      rw [if_pos hfraction, hvalue, hlength]
      norm_num
  unfold plainDecimal parsePlain
  rw [stringFixedTwo_toList]
  by_cases hneg : n < 0
  · rw [if_pos hneg, List.singleton_append]
    have habs : (n.natAbs : ℚ) = -n := by
      rw [Nat.cast_natAbs, abs_of_neg hneg, Int.cast_neg]
    simp only [hmagnitude, Option.map_some, habs]
    change some _ = _
    congr 1
    ring
  · rw [if_neg hneg, List.nil_append]
    have habs : (n.natAbs : ℚ) = n := by
      rw [Nat.cast_natAbs, abs_of_nonneg (not_lt.mp hneg)]
    have hunsigned : ∀ cs, digits (n.natAbs / 100) ++
        '.' :: (digits (n.natAbs % 100 / 10) ++ digits (n.natAbs % 10)) ≠ '-' :: cs := by
      intro cs hcs
      cases hwhole : digits (n.natAbs / 100) with
      | nil => exact digits_ne_nil _ hwhole
      | cons d ds =>
        rw [hwhole, List.cons_append] at hcs
        have hdigit := isDigit_of_mem_digits (hwhole ▸ List.mem_cons_self : d ∈ digits (n.natAbs / 100))
        rw [(List.cons.inj hcs).1] at hdigit
        cases hdigit
    generalize digits (n.natAbs / 100) ++
        '.' :: (digits (n.natAbs % 100 / 10) ++ digits (n.natAbs % 10)) = cs at hmagnitude hunsigned
    split
    · exact absurd rfl (hunsigned _)
    · rw [hmagnitude, habs]
      rfl

theorem taxAmounts_document (c : Submission.Canonical) :
    (Ubl.subtotalsFrom c).map (fun s => s.taxAmount.value) =
      c.taxSubtotals.filterMap Submission.TaxSubtotal.taxAmount := by
  unfold Ubl.subtotalsFrom
  rw [List.map_filterMap]
  refine List.filterMap_congr fun s _ => ?_
  cases h : s.taxAmount <;> rfl

/-- A note's lines are grouped into tax categories whose amounts add up to the note's VAT, whatever
order its lines are read in, and its document shows those amounts beside that VAT. -/
theorem vat_breakdown_adds_up {newFromString : String → Option ℚ}
    (hread : ReadsAmounts newFromString) (rest : ℕ → LineItem) {lines : List NoteMoneyLine}
    {out : NoteMoney} (h : noteAmounts lines = .ok out)
    (hcategorised : lines.any categorised = true) :
    AddsUp newFromString (storedLines rest lines out)
        (taxSubtotals newFromString (storedLines rest lines out)) out.vat ∧
      (∀ ls ls' : List LineItem, ls.Perm ls' → (ls.map LineItem.lineNo).Nodup →
        taxSubtotals newFromString ls = taxSubtotals newFromString ls') ∧
      ∀ inv : Hydrated, (storedLines rest lines out).Perm (inv.lineItems.map Line.toLineItem) →
        inv.header.vat.map Numeric.text = some out.vat →
        ∃ (t : Ubl.TaxTotal) (amounts : List ℤ),
          (Ubl.build (submissionCanonical newFromString inv)).taxTotal = some t ∧
          t.taxSubtotal.map (fun s => s.taxAmount.value) = amounts.map stringFixedTwo ∧
          t.taxAmount.value = stringFixedTwo amounts.sum := by
  have hadds := addsUp hread rest h hcategorised
  have hperm : ∀ ls ls' : List LineItem, ls.Perm ls' → (ls.map LineItem.lineNo).Nodup →
      taxSubtotals newFromString ls = taxSubtotals newFromString ls' := by
    intro ls ls' hls hdistinct
    rw [taxSubtotals, taxSubtotals, sortLines_perm hls hdistinct]
  refine ⟨hadds, hperm, ?_⟩
  intro inv hlines hvat
  obtain ⟨amounts, hamounts, hsum⟩ := hadds.taxes
  have hsubtotals := hperm _ _ hlines (storedLines_distinct rest lines out)
  refine ⟨⟨⟨inv.header.currency.getD "", out.vat⟩,
    Ubl.subtotalsFrom (submissionCanonical newFromString inv)⟩, amounts, ?_, ?_, hsum⟩
  · unfold Ubl.build
    dsimp only
    rw [submissionCanonical, hvat]
    rfl
  · rw [taxAmounts_document, ← hamounts, hsubtotals]
    rw [submissionCanonical, canonicalTaxSubtotals, List.filterMap_map]
    rfl

def mixedLines : List NoteMoneyLine :=
  [{ quantity := "1.000", unitPrice := "10.06", taxCategory := some "STANDARD_VAT",
     taxPercent := some "7.50" },
   { quantity := "2.000", unitPrice := "5.00" },
   { quantity := "1.000", unitPrice := "3.00", taxCategory := some "EXEMPTED",
     taxPercent := some "NaN" },
   { quantity := "1.000", unitPrice := "10.06", taxCategory := some "STANDARD_VAT",
     taxPercent := some "7.50" }]

def mixedMoney : NoteMoney where
  lineTotals := ["10.06", "10.00", "3.00", "10.06"]
  lineTaxes := [some "0.76", none, none, some "0.75"]
  subtotal := "33.12"
  vat := "1.51"
  total := "34.63"

theorem vat_breakdown_adds_up_mixed :
    AddsUp plainDecimal (storedLines (fun _ => { lineNo := 0 }) mixedLines mixedMoney)
      (taxSubtotals plainDecimal (storedLines (fun _ => { lineNo := 0 }) mixedLines mixedMoney))
      "1.51" :=
  (vat_breakdown_adds_up plainDecimal_reads (fun _ => { lineNo := 0 })
    (show noteAmounts mixedLines = .ok mixedMoney by decide +kernel) (by decide)).1

end InvoiceOs.Invoice
