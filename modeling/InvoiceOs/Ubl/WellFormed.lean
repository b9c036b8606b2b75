import InvoiceOs.Invoice.ContentStream
import InvoiceOs.Ubl.Tree

/-! The document of a complete invoice is well-formed: a container is there only with something in
it, and every text is one XML can hold. -/

namespace InvoiceOs.Ubl

open Lib
open Submission (Canonical CanonicalLine)

/-! ### The texts of an invoice -/

def partyTexts (p : Submission.Party) : List (Option String) :=
  [p.tin, p.name, p.email, p.telephone, p.street, p.city, p.postalZone, p.country, p.state, p.lga]

def lineTexts (l : CanonicalLine) : List (Option String) :=
  [l.description, l.quantity, l.unitPrice, l.lineTotal, l.lineTax, l.taxCategory, l.hsnCode,
    l.isicCode, l.productCategory, l.serviceCategory, l.sellersItemIdentification, l.priceUnit,
    l.taxPercent, l.baseQuantity]

def subtotalTexts (s : Submission.TaxSubtotal) : List (Option String) :=
  [some s.category, s.percent, s.taxableAmount, s.taxAmount]

def texts (c : Canonical) : List (Option String) :=
  [some c.invoiceNumber, c.currency, c.subtotal, c.vat, c.total, c.taxCurrencyCode, c.issueTime,
    c.billingReference.bind Submission.BillingReference.irn] ++
  partyTexts c.supplier ++ partyTexts c.buyer ++ c.taxSubtotals.flatMap subtotalTexts ++
  c.lines.flatMap lineTexts

def Legal (texts : List (Option String)) : Prop := ∀ s, some s ∈ texts → Xml.IsText s

theorem legal_of {ts : List (Option String)}
    (h : (ts.all fun o => o.all fun s => s.toList.all Xml.inCharacterRange) = true) : Legal ts := by
  intro s hs c hc
  have hchars := List.all_eq_true.mp h (some s) hs
  exact List.all_eq_true.mp hchars c hc

theorem Legal.mono {ts us : List (Option String)} (h : Legal us) (hsub : ts ⊆ us) : Legal ts :=
  fun s hs => h s (hsub hs)

/-! ### Pieces -/

def Sound (xs : List Xml) : Prop := ∀ x ∈ xs, x.WellFormed

theorem isName_of {s : String} (h : s.toList.all Xml.inName = true) : Xml.IsName s :=
  List.all_eq_true.mp h

theorem isText_of {s : String} (h : s.toList.all Xml.inCharacterRange = true) : Xml.IsText s :=
  List.all_eq_true.mp h

theorem Sound.nil : Sound [] := fun _ hx => absurd hx List.not_mem_nil

theorem Sound.cons {x : Xml} {xs : List Xml} (hx : x.WellFormed) (hxs : Sound xs) :
    Sound (x :: xs) := List.forall_mem_cons.mpr ⟨hx, hxs⟩

theorem Sound.append {xs ys : List Xml} (hx : Sound xs) (hy : Sound ys) : Sound (xs ++ ys) :=
  List.forall_mem_append.mpr ⟨hx, hy⟩

theorem Sound.map {α : Type*} {f : α → Xml} {l : List α} (h : ∀ a ∈ l, (f a).WellFormed) :
    Sound (l.map f) := List.forall_mem_map.mpr h

theorem Sound.option {α : Type*} {f : α → Xml} {o : Option α} (h : ∀ a ∈ o, (f a).WellFormed) :
    Sound (o.toList.map f) := Sound.map fun a ha => h a (Option.mem_toList.mp ha)

theorem element_wellFormed {name text : String} (hname : name.toList.all Xml.inName = true)
    (htext : Xml.IsText text) : (element name text).WellFormed :=
  .leaf { name := isName_of hname, keys := by simp, values := by simp } htext

theorem optional_sound {name : String} {text : Option String}
    (hname : name.toList.all Xml.inName = true) (htext : ∀ s ∈ text, Xml.IsText s) :
    Sound (optional name text) :=
  Sound.option fun s hs => element_wellFormed hname (htext s hs)

theorem node_wellFormed {name : String} {xs : List Xml} (hname : name.toList.all Xml.inName = true)
    (hne : xs ≠ []) (hxs : Sound xs) : (Xml.node name [] xs).WellFormed :=
  .node { name := isName_of hname, keys := by simp, values := by simp } hne hxs

theorem tag_omitEmpty {name key value : String} (hname : name.toList.all Xml.inName = true)
    (hkey : key.toList.all Xml.inName = true) (hvalue : Xml.IsText value) :
    Xml.IsTag name (omitEmpty key value) := by
  have hattrs : ∀ a ∈ omitEmpty key value, a = (key, value) := by
    unfold omitEmpty
    split <;> simp
  exact
    { name := isName_of hname
      keys := fun a ha => hattrs a ha ▸ isName_of hkey
      values := fun a ha => hattrs a ha ▸ hvalue }

def Amount.Legal (a : Amount) : Prop := Xml.IsText a.currencyID ∧ Xml.IsText a.value

theorem amount_wellFormed {a : Amount} (h : a.Legal) {name : String}
    (hname : name.toList.all Xml.inName = true) : (a.xml name).WellFormed :=
  .leaf (tag_omitEmpty hname rfl h.1) h.2

theorem isText_empty : Xml.IsText "" := isText_of rfl

theorem isText_deref {s : Option String} (h : ∀ v ∈ s, Xml.IsText v) : Xml.IsText (deref s) := by
  cases s with
  | none => exact isText_empty
  | some v => exact h v rfl

theorem amountFrom_legal {v currency : Option String} (hv : ∀ s ∈ v, Xml.IsText s)
    (hc : ∀ s ∈ currency, Xml.IsText s) : ∀ a ∈ amountFrom v currency, a.Legal := by
  intro a ha
  obtain ⟨value, rfl, rfl⟩ := Option.map_eq_some_iff.mp ha
  exact ⟨isText_deref hc, hv value rfl⟩

theorem Quantity.wellFormed {q : Quantity} (hunit : Xml.IsText q.unitCode)
    (hvalue : Xml.IsText q.value) {name : String} (hname : name.toList.all Xml.inName = true) :
    (q.xml name).WellFormed :=
  .leaf (tag_omitEmpty hname rfl hunit) hvalue

/-! ### The containers -/

theorem toList_ne_nil {α β : Type*} {f : α → β} {o : Option α} (h : o.isSome = true) :
    o.toList.map f ≠ [] := by
  obtain ⟨a, rfl⟩ := Option.isSome_iff_exists.mp h
  exact List.cons_ne_nil _ _

theorem inRange_of_isDigit {c : Char} (h : c.isDigit = true) : Xml.inCharacterRange c = true := by
  have hrange : 48 ≤ c.toNat ∧ c.toNat ≤ 57 := by
    simpa [Char.isDigit, UInt32.le_iff_toNat_le] using h
  simp only [Xml.inCharacterRange, Bool.or_eq_true, Bool.and_eq_true, decide_eq_true_eq]
  omega

theorem inRange_signedChars {w : ℕ} {y : ℤ} {c : Char} (hc : c ∈ Invoice.signedChars w y) :
    Xml.inCharacterRange c = true := by
  obtain hc | hc := List.mem_append.mp hc
  · split at hc
    · rw [List.mem_singleton.mp hc]
      rfl
    · cases hc
  · exact inRange_of_isDigit (Invoice.isDigit_of_mem_padChars hc)

theorem dateText_legal (t : Option Submission.Time) : ∀ s ∈ dateText t, Xml.IsText s := by
  intro s hs
  obtain ⟨t, -, rfl⟩ := Option.map_eq_some_iff.mp hs
  intro c hc
  have hdash : ∀ c ∈ "-".toList, Xml.inCharacterRange c = true := by simp; rfl
  simp only [Invoice.Date.text, String.toList_append, Invoice.yearText_toList,
    Invoice.padLeft_toList, List.mem_append] at hc
  obtain (((hc | hc) | hc) | hc) | hc := hc
  · exact inRange_signedChars hc
  · exact hdash c hc
  · exact inRange_of_isDigit (Invoice.isDigit_of_mem_padChars hc)
  · exact hdash c hc
  · exact inRange_of_isDigit (Invoice.isDigit_of_mem_padChars hc)

theorem schemes_legal : Xml.IsText taxSchemeID ∧ Xml.IsText vatSchemeID :=
  ⟨isText_of rfl, isText_of rfl⟩

theorem taxScheme_wellFormed {s : TaxScheme} (h : Xml.IsText s.id) : s.xml.WellFormed :=
  node_wellFormed rfl (List.cons_ne_nil _ _) (Sound.nil.cons (element_wellFormed rfl h))

theorem billingReference_wellFormed {b : BillingReference}
    (hid : Xml.IsText b.invoiceDocumentReference.id)
    (hdate : ∀ s ∈ b.invoiceDocumentReference.issueDate, Xml.IsText s) : b.xml.WellFormed := by
  refine node_wellFormed rfl (List.cons_ne_nil _ _) (Sound.nil.cons ?_)
  exact node_wellFormed rfl (List.cons_ne_nil _ _)
    ((optional_sound rfl hdate).cons (element_wellFormed rfl hid))

theorem taxCategory_wellFormed {c : TaxCategory} (hid : Xml.IsText c.id)
    (hpercent : ∀ s ∈ c.percent, Xml.IsText s) (hscheme : Xml.IsText c.taxScheme.id) {name : String}
    (hname : name.toList.all Xml.inName = true) : (c.xml name).WellFormed :=
  node_wellFormed hname (List.cons_ne_nil _ _)
    (((optional_sound rfl hpercent).append
      (Sound.nil.cons (taxScheme_wellFormed hscheme))).cons (element_wellFormed rfl hid))

theorem party_wellFormed {p : Submission.Party} (hp : Legal (partyTexts p))
    (hnamed : p.name.isSome = true) {name : String} (hname : name.toList.all Xml.inName = true) :
    ((partyFrom p).xml name).WellFormed := by
  have htext : ∀ {o : Option String}, o ∈ partyTexts p → ∀ s ∈ o, Xml.IsText s :=
    fun ho s hs => hp s (hs ▸ ho)
  refine node_wellFormed hname (List.cons_ne_nil _ _) (Sound.nil.cons ?_)
  refine node_wellFormed rfl ?_ ?_
  · refine List.append_ne_nil_of_left_ne_nil (List.append_ne_nil_of_left_ne_nil
      (List.append_ne_nil_of_left_ne_nil (toList_ne_nil ?_) _) _) _
    rw [partyFrom, Option.isSome_map]
    exact hnamed
  refine Sound.append (Sound.append (Sound.append ?_ ?_) ?_) ?_
  · refine Sound.option fun n hn => ?_
    obtain ⟨s, hs, rfl⟩ := Option.map_eq_some_iff.mp hn
    exact node_wellFormed rfl (List.cons_ne_nil _ _)
      (Sound.nil.cons (element_wellFormed rfl (htext (by simp [partyTexts]) s hs)))
  · refine Sound.option fun a ha => ?_
    unfold partyFrom at ha
    dsimp only at ha
    split at ha
    · rename_i hany
      obtain rfl := Option.some.inj ha
      refine node_wellFormed rfl ?_ ?_
      · intro hnil
        simp only [List.append_eq_nil_iff, optional, List.map_eq_nil_iff, Option.toList_eq_nil_iff]
          at hnil
        simp [hnil] at hany
      · refine Sound.append (Sound.append (Sound.append (Sound.append (Sound.append ?_ ?_) ?_) ?_)
          ?_) ?_
        · exact optional_sound rfl (htext (by simp [partyTexts]))
        · exact optional_sound rfl (htext (by simp [partyTexts]))
        · exact optional_sound rfl (htext (by simp [partyTexts]))
        · exact optional_sound rfl (htext (by simp [partyTexts]))
        · exact optional_sound rfl (htext (by simp [partyTexts]))
        · refine Sound.option fun n hn => ?_
          obtain ⟨s, hs, rfl⟩ := Option.map_eq_some_iff.mp hn
          exact node_wellFormed rfl (List.cons_ne_nil _ _)
            (Sound.nil.cons (element_wellFormed rfl (htext (by simp [partyTexts]) s hs)))
    · cases ha
  · refine Sound.option fun n hn => ?_
    obtain ⟨s, hs, rfl⟩ := Option.map_eq_some_iff.mp hn
    exact node_wellFormed rfl (List.cons_ne_nil _ _)
      ((Sound.nil.cons (taxScheme_wellFormed schemes_legal.1)).cons
        (element_wellFormed rfl (htext (by simp [partyTexts]) s hs)))
  · refine Sound.option fun a ha => ?_
    unfold partyFrom at ha
    dsimp only at ha
    split at ha
    · rename_i hany
      obtain rfl := Option.some.inj ha
      refine node_wellFormed rfl ?_ ?_
      · intro hnil
        simp only [List.append_eq_nil_iff, optional, List.map_eq_nil_iff, Option.toList_eq_nil_iff]
          at hnil
        simp [hnil] at hany
      · exact Sound.append (optional_sound rfl (htext (by simp [partyTexts])))
          (optional_sound rfl (htext (by simp [partyTexts])))
    · cases ha

theorem subtotal_wellFormed {c : Canonical} (hc : ∀ s ∈ c.currency, Xml.IsText s)
    (hs : Legal (c.taxSubtotals.flatMap subtotalTexts)) :
    ∀ s ∈ subtotalsFrom c, s.xml.WellFormed := by
  intro s hmem
  obtain ⟨t, ht, hsome⟩ := List.mem_filterMap.mp hmem
  obtain ⟨ta, hta, rfl⟩ := Option.map_eq_some_iff.mp hsome
  have htext : ∀ {o : Option String}, o ∈ subtotalTexts t → ∀ s ∈ o, Xml.IsText s :=
    fun ho s hs' => hs s (List.mem_flatMap.mpr ⟨t, ht, hs' ▸ ho⟩)
  refine node_wellFormed rfl (List.append_ne_nil_of_right_ne_nil _ (List.cons_ne_nil _ _)) ?_
  refine Sound.append (Sound.option fun a ha => ?_) (Sound.cons ?_ (Sound.nil.cons ?_))
  · exact amount_wellFormed (amountFrom_legal (htext (by simp [subtotalTexts])) hc a ha) rfl
  · exact amount_wellFormed (amountFrom_legal (htext (by simp [subtotalTexts])) hc ta hta) rfl
  · exact taxCategory_wellFormed (htext (by simp [subtotalTexts]) _ rfl)
      (htext (by simp [subtotalTexts])) schemes_legal.2 rfl

theorem taxTotal_wellFormed {t : TaxTotal} (ha : t.taxAmount.Legal)
    (hs : ∀ s ∈ t.taxSubtotal, s.xml.WellFormed) : t.xml.WellFormed :=
  node_wellFormed rfl (List.cons_ne_nil _ _) ((Sound.map hs).cons (amount_wellFormed ha rfl))

theorem item_wellFormed {l : CanonicalLine} (hl : Legal (lineTexts l)) :
    ∀ i ∈ itemFrom l, i.xml.WellFormed := by
  have htext : ∀ {o : Option String}, o ∈ lineTexts l → ∀ s ∈ o, Xml.IsText s :=
    fun ho s hs => hl s (hs ▸ ho)
  intro i hi
  unfold itemFrom at hi
  dsimp only at hi
  split at hi
  · cases hi
  rename_i hany
  obtain rfl := Option.some.inj hi
  refine node_wellFormed rfl ?_ ?_
  · intro hnil
    simp only [List.append_eq_nil_iff, optional, List.map_eq_nil_iff, Option.toList_eq_nil_iff]
      at hnil
    simp [hnil] at hany
  refine Sound.append (Sound.append (Sound.append (Sound.append ?_ ?_) ?_) ?_) ?_
  · exact optional_sound rfl (htext (by simp [lineTexts]))
  · refine Sound.option fun n hn => ?_
    obtain ⟨s, hs, rfl⟩ := Option.map_eq_some_iff.mp hn
    exact node_wellFormed rfl (List.cons_ne_nil _ _)
      (Sound.nil.cons (element_wellFormed rfl (htext (by simp [lineTexts]) s hs)))
  · have hclass : ∀ listID value, Xml.IsText listID → Xml.IsText value →
        (CommodityClass.mk ⟨listID, value⟩).xml.WellFormed := by
      intro listID value hlist hvalue
      refine node_wellFormed rfl (List.cons_ne_nil _ _) (Sound.nil.cons ?_)
      exact .leaf
        { name := isName_of rfl
          keys := by simp only [List.forall_mem_singleton]; exact isName_of rfl
          values := by simpa only [List.forall_mem_singleton] using hlist } hvalue
    refine Sound.map fun k hk => ?_
    obtain hk | hk := List.mem_append.mp hk <;>
      obtain ⟨s, hs, rfl⟩ := Option.map_eq_some_iff.mp (Option.mem_toList.mp hk)
    · exact hclass _ _ (isText_of rfl) (htext (by simp [lineTexts]) s hs)
    · exact hclass _ _ (isText_of rfl) (htext (by simp [lineTexts]) s hs)
  · refine Sound.option fun n hn => ?_
    obtain ⟨s, hs, rfl⟩ := Option.map_eq_some_iff.mp hn
    exact taxCategory_wellFormed (htext (by simp [lineTexts]) s hs)
      (htext (by simp [lineTexts])) schemes_legal.2 rfl
  · have hproperty : ∀ name value, Xml.IsText name → Xml.IsText value →
        (AdditionalProperty.mk name value).xml.WellFormed := fun name value hname hvalue =>
      node_wellFormed rfl (List.cons_ne_nil _ _)
        ((Sound.nil.cons (element_wellFormed rfl hvalue)).cons (element_wellFormed rfl hname))
    refine Sound.map fun k hk => ?_
    obtain hk | hk := List.mem_append.mp hk <;>
      obtain ⟨s, hs, rfl⟩ := Option.map_eq_some_iff.mp (Option.mem_toList.mp hk)
    · exact hproperty _ _ (isText_of rfl) (htext (by simp [lineTexts]) s hs)
    · exact hproperty _ _ (isText_of rfl) (htext (by simp [lineTexts]) s hs)

theorem line_wellFormed {c : Canonical} {l : CanonicalLine}
    (hc : ∀ s ∈ c.currency, Xml.IsText s) (hl : Legal (lineTexts l)) :
    (lineFrom c l).xml.WellFormed := by
  have htext : ∀ {o : Option String}, o ∈ lineTexts l → ∀ s ∈ o, Xml.IsText s :=
    fun ho s hs => hl s (hs ▸ ho)
  have hunit : Xml.IsText (deref l.priceUnit) := isText_deref (htext (by simp [lineTexts]))
  refine node_wellFormed rfl (List.cons_ne_nil _ _) (Sound.cons ?_ ?_)
  · refine element_wellFormed rfl fun ch hch => ?_
    rw [lineFrom, Invoice.toString_int_toList] at hch
    exact inRange_signedChars hch
  refine Sound.append (Sound.append (Sound.append (Sound.append ?_ ?_) ?_) ?_) ?_
  · refine Sound.option fun q hq => ?_
    obtain ⟨s, hs, rfl⟩ := Option.map_eq_some_iff.mp hq
    exact Quantity.wellFormed hunit (htext (by simp [lineTexts]) s hs) rfl
  · exact Sound.option fun a ha =>
      amount_wellFormed (amountFrom_legal (htext (by simp [lineTexts])) hc a ha) rfl
  · refine Sound.option fun t ht => ?_
    obtain ⟨a, ha, rfl⟩ := Option.map_eq_some_iff.mp ht
    exact taxTotal_wellFormed (amountFrom_legal (htext (by simp [lineTexts])) hc a ha)
      fun s hs => absurd hs List.not_mem_nil
  · exact Sound.option (item_wellFormed hl)
  · refine Sound.option fun p hp => ?_
    obtain ⟨a, ha, rfl⟩ := Option.map_eq_some_iff.mp hp
    refine node_wellFormed rfl (List.cons_ne_nil _ _) (Sound.cons ?_ (Sound.option fun q hq => ?_))
    · exact amount_wellFormed (amountFrom_legal (htext (by simp [lineTexts])) hc a ha) rfl
    · obtain ⟨s, hs, rfl⟩ := Option.map_eq_some_iff.mp hq
      exact Quantity.wellFormed hunit (htext (by simp [lineTexts]) s hs) rfl

theorem missing_nil {c : Canonical} (h : missing c = []) :
    (∃ t, c.issueDate = some t) ∧ (∃ v, c.currency = some v ∧ v ≠ "") ∧
      c.supplier.name.isSome = true ∧ c.buyer.name.isSome = true := by
  have hpart : ∀ {p : Prop} [Decidable p] {s : String}, (if p then [s] else []) = [] → ¬p :=
    fun hnil hp => by rw [if_pos hp] at hnil; cases hnil
  have hpresent : ∀ {s : Option String}, ¬blank s = true → ∃ v, s = some v ∧ trimSpace v ≠ "" := by
    intro s hs
    cases s with
    | none => exact absurd rfl hs
    | some v => exact ⟨v, rfl, fun hv => hs (beq_iff_eq.mpr hv)⟩
  simp only [missing, List.append_eq_nil_iff] at h
  obtain ⟨⟨⟨⟨⟨-, hdate⟩, hcurrency⟩, hsupplier⟩, hbuyer⟩, -⟩ := h
  obtain ⟨v, hv, hblank⟩ := hpresent (hpart hcurrency)
  obtain ⟨s, hs, -⟩ := hpresent (hpart hsupplier)
  obtain ⟨b, hb, -⟩ := hpresent (hpart hbuyer)
  refine ⟨Option.ne_none_iff_exists'.mp (hpart hdate), ⟨v, hv, ?_⟩, by rw [hs]; rfl, by rw [hb]; rfl⟩
  rintro rfl
  exact hblank rfl

theorem document_wellFormed {c : Canonical} (h : missing c = []) (hc : Legal (texts c)) :
    (build c).xml.WellFormed := by
  obtain ⟨-, -, hsupplier, hbuyer⟩ := missing_nil h
  have hhead : ∀ {o : Option String}, o ∈ texts c → ∀ s ∈ o, Xml.IsText s :=
    fun ho s hs => hc s (hs ▸ ho)
  have hcurrency : ∀ s ∈ c.currency, Xml.IsText s := hhead (by simp [texts])
  have hcode : Xml.IsText (Submission.invoiceTypeCode c.documentType) := by
    cases c.documentType <;> exact isText_of rfl
  refine .node
    { name := isName_of rfl
      keys := ?_
      values := ?_ } (List.append_ne_nil_of_left_ne_nil ?_ _) ?_
  · simp only [List.forall_mem_cons, List.not_mem_nil, false_imp_iff, implies_true, and_true]
    exact ⟨isName_of rfl, isName_of rfl, isName_of rfl⟩
  · simp only [List.forall_mem_cons, List.not_mem_nil, false_imp_iff, implies_true, and_true]
    exact ⟨isText_of rfl, isText_of rfl, isText_of rfl⟩
  · simp
  refine Sound.append (Sound.append (Sound.append (Sound.append (Sound.append (Sound.append
    (Sound.append (Sound.append (Sound.append (Sound.append (Sound.append ?_ ?_) ?_) ?_) ?_) ?_)
      ?_) ?_) ?_) ?_) ?_) ?_
  · refine Sound.cons ?_ (Sound.cons ?_ (Sound.cons ?_ (Sound.cons ?_ Sound.nil)))
    · exact element_wellFormed rfl (isText_of rfl)
    · exact element_wellFormed rfl (isText_of rfl)
    · exact element_wellFormed rfl (hhead (by simp [texts, build]) _ rfl)
    · exact element_wellFormed rfl (isText_deref (dateText_legal c.issueDate))
  · exact optional_sound rfl (hhead (by simp [texts, build]))
  · exact optional_sound rfl (dateText_legal c.dueDate)
  · exact Sound.nil.cons (element_wellFormed rfl hcode)
  · exact optional_sound rfl (dateText_legal c.taxPointDate)
  · split
    · exact Sound.nil
    · exact Sound.nil.cons (element_wellFormed rfl (isText_deref hcurrency))
  · exact optional_sound rfl (hhead (by simp [texts, build]))
  · refine Sound.option fun b hb => ?_
    obtain ⟨ref, href, hb⟩ := Option.bind_eq_some_iff.mp hb
    unfold billingReferenceFrom at hb
    split at hb
    · rename_i irn hirn
      split at hb
      · cases hb
      · obtain rfl := Option.some.inj hb
        refine billingReference_wellFormed (hhead (o := some irn) ?_ _ rfl)
          (dateText_legal ref.issueDate)
        simp [texts, href, hirn]
    · cases hb
  · refine Sound.cons (party_wellFormed (hc.mono ?_) hsupplier rfl)
      (Sound.nil.cons (party_wellFormed (hc.mono ?_) hbuyer rfl))
    · intro o ho
      simp [texts, ho]
    · intro o ho
      simp [texts, ho]
  · refine Sound.option fun t ht => ?_
    obtain ⟨a, ha, rfl⟩ := Option.map_eq_some_iff.mp ht
    refine taxTotal_wellFormed (amountFrom_legal (hhead (by simp [texts])) hcurrency a ha)
      (subtotal_wellFormed hcurrency (hc.mono ?_))
    intro o ho
    simp only [texts, List.mem_append]
    exact Or.inl (Or.inr ho)
  · refine Sound.option fun m hm => ?_
    unfold build at hm
    dsimp only at hm
    split at hm
    · rename_i hany
      obtain rfl := Option.some.inj hm
      refine node_wellFormed rfl ?_ (Sound.append (Sound.append ?_ ?_) ?_)
      · intro hnil
        simp only [List.append_eq_nil_iff, List.map_eq_nil_iff, Option.toList_eq_nil_iff] at hnil
        simp [hnil] at hany
      · exact Sound.option fun a ha =>
          amount_wellFormed (amountFrom_legal (hhead (by simp [texts])) hcurrency a ha) rfl
      · exact Sound.option fun a ha =>
          amount_wellFormed (amountFrom_legal (hhead (by simp [texts])) hcurrency a ha) rfl
      · exact Sound.option fun a ha =>
          amount_wellFormed (amountFrom_legal (hhead (by simp [texts])) hcurrency a ha) rfl
    · cases hm
  · refine Sound.map fun ln hln => ?_
    obtain ⟨l, hl, rfl⟩ := List.mem_map.mp hln
    refine line_wellFormed hcurrency (hc.mono ?_)
    intro o ho
    exact List.mem_append_right _ (List.mem_flatMap.mpr ⟨l, hl, ho⟩)

end InvoiceOs.Ubl
