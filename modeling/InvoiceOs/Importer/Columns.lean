import InvoiceOs.Importer.Amounts
import InvoiceOs.Importer.Created

/-! Which inputs of ready groups the columns take: the checks have read every amount, and the range
check covers the columns it was written for and no others. -/

namespace InvoiceOs.Importer

open Lib Invoice Approval

/-! ### Plain decimals in a column -/

def decimals (v : String) : ℕ := ((unsigned v.toList).dropWhile Char.isDigit).tail.length

structure FitsColumn (scale : ℕ) (v : String) : Prop where
  decimals : decimals v ≤ 16383
  units : (roundUnits scale v.toList).natAbs < 10 ^ 14

section
variable {x : Externals} {scale : ℕ}

theorem storeNumeric_isOk {v : String} (h : decimalNumberRe v.toList = true) :
    (storeNumeric x scale v).isOk = true ↔ FitsColumn scale v := by
  unfold storeNumeric
  rw [if_pos h]
  by_cases hdecimals : decimals v ≤ 16383
  · have hlong : ¬ 16383 < ((unsigned v.toList).dropWhile Char.isDigit).tail.length :=
      not_lt.mpr hdecimals
    rw [if_neg hlong]
    by_cases hunits : (roundUnits scale v.toList).natAbs < 10 ^ 14
    · rw [if_neg (not_le.mpr hunits)]
      exact ⟨fun _ => ⟨hdecimals, hunits⟩, fun _ => rfl⟩
    · rw [if_pos (not_lt.mp hunits)]
      exact ⟨fun hok => Bool.noConfusion hok, fun hfits => absurd hfits.units hunits⟩
  · have hlong : 16383 < ((unsigned v.toList).dropWhile Char.isDigit).tail.length :=
      not_le.mp hdecimals
    rw [if_pos hlong]
    exact ⟨fun hok => Bool.noConfusion hok, fun hfits => absurd hfits.decimals hdecimals⟩

variable (x scale) in
theorem storeAmount_isOk {v : Option String}
    (h : ∀ t, v = some t → decimalNumberRe t.toList = true) :
    (storeAmount x scale v).isOk = true ↔ ∀ t, v = some t → FitsColumn scale t := by
  cases v with
  | none => exact ⟨fun _ t ht => absurd ht nofun, fun _ => rfl⟩
  | some t =>
    have hmap : (storeAmount x scale (some t)).isOk = (storeNumeric x scale t).isOk := by
      change (storeNumeric x scale t >>= fun n => pure (some (unitsText scale n))).isOk = _
      cases storeNumeric x scale t with
      | error e => rfl
      | ok n => rfl
    rw [hmap, storeNumeric_isOk (h t rfl)]
    constructor
    · intro hfits t' ht'
      exact Option.some.inj ht' ▸ hfits
    · exact fun hfits => hfits t rfl

end

/-! ### The range check -/

theorem number_lt (ds : List Digit) : number ds < 10 ^ ds.length := by
  induction ds using List.reverseRecOn with
  | nil => simp [number]
  | append_singleton ds d ih =>
    have hlast : number (ds ++ [d]) = 10 * number ds + d.val := by
      unfold number
      rw [List.foldl_append]
      rfl
    have hd := d.isLt
    rw [hlast, List.length_append, List.length_singleton, pow_succ]
    omega

theorem number_dropWhile (ds : List Digit) : number (ds.dropWhile (· = 0)) = number ds := by
  induction ds with
  | nil => rfl
  | cons d ds ih =>
    by_cases hd : d = 0
    · rw [List.dropWhile_cons_of_pos (by simpa using hd), ih, hd]
      unfold number
      rw [List.foldl_cons]
      rfl
    · rw [List.dropWhile_cons_of_neg (by simpa using hd)]

theorem dropWhile_digitsText_zero (ds : List Digit) :
    (digitsText ds).dropWhile (· = '0') = digitsText (ds.dropWhile (· = 0)) := by
  unfold digitsText
  rw [List.dropWhile_map]
  congr 1
  refine congrArg (fun p => ds.dropWhile p) (funext fun d => ?_)
  revert d
  decide

theorem getElem?_of_rdropWhile {α : Type*} {p : α → Bool} {l : List α} {n : ℕ} {a : α}
    (h : (l.rdropWhile p).length ≤ n) (ha : l[n]? = some a) : p a = true := by
  induction l using List.reverseRecOn with
  | nil => cases ha
  | append_singleton l b ih =>
    rw [List.rdropWhile_concat] at h
    split at h
    · rename_i hb
      rcases lt_or_ge n l.length with hlt | hge
      · rw [List.getElem?_append_left hlt] at ha
        exact ih h ha
      · rw [List.getElem?_append_right hge] at ha
        have hmem := List.mem_of_getElem? ha
        exact List.mem_singleton.mp hmem ▸ hb
    · have hlong : (l ++ [b]).length ≤ n := h
      rw [List.getElem?_eq_none hlong] at ha
      cases ha

theorem takeWhile_ne_dot (digits fraction : List Digit) :
    (digitsText digits ++ fractionText fraction).takeWhile (· ≠ '.') = digitsText digits := by
  have hdigits : ∀ c ∈ digitsText digits, decide (c ≠ '.') = true := fun c hc =>
    decide_eq_true (digit_ne (isDigit_of_mem hc) rfl)
  have hfraction : (fractionText fraction).takeWhile (· ≠ '.') = [] := by
    unfold fractionText
    split
    · rfl
    · rfl
  rw [List.takeWhile_append_of_pos hdigits, hfraction, List.append_nil]

theorem dropWhile_ne_dot (digits fraction : List Digit) :
    ((digitsText digits ++ fractionText fraction).dropWhile (· ≠ '.')).drop 1 =
      digitsText fraction := by
  have hdigits : ∀ c ∈ digitsText digits, decide (c ≠ '.') = true := fun c hc =>
    decide_eq_true (digit_ne (isDigit_of_mem hc) rfl)
  rw [List.dropWhile_append_of_pos hdigits]
  unfold fractionText
  split
  · rename_i hnil
    rw [hnil]
    rfl
  · rfl

theorem tail_fractionText (fraction : List Digit) :
    (fractionText fraction).tail = digitsText fraction := by
  unfold fractionText
  split
  · rename_i hnil
    rw [hnil]
    rfl
  · rfl

theorem roundUnits_lt {whole scale : ℕ} {v : String} (hv : decimalNumberRe v.toList = true)
    (h : exceedsRange (whole, scale) v = false) :
    (roundUnits scale v.toList).natAbs < 10 ^ (whole + scale) := by
  obtain ⟨negative, digits, fraction, hdigits, htext⟩ := exists_decimal hv
  have hunsigned : unsigned v.toList = digitsText digits ++ fractionText fraction := by
    rw [htext, unsigned_minusText hdigits]
  unfold exceedsRange at h
  simp only [hunsigned, takeWhile_ne_dot, dropWhile_ne_dot, Bool.or_eq_false_iff,
    decide_eq_false_iff_not, not_lt, dropWhile_digitsText_zero, length_digitsText] at h
  obtain ⟨hwhole, hscale⟩ := h
  have hup : ((digitsText fraction)[scale]?).any (fun c => decide ('5' ≤ c)) = false := by
    cases hc : (digitsText fraction)[scale]? with
    | none => rfl
    | some c =>
      have hzero : decide (c = '0') = true :=
        getElem?_of_rdropWhile (p := fun c => decide (c = '0')) hscale hc
      rw [of_decide_eq_true hzero]
      rfl
  have hdigits' : (digitsText digits ++ fractionText fraction).dropWhile Char.isDigit =
      fractionText fraction := by
    rw [dropWhile_digitsText, dropWhile_fractionText]
  have hwhole' : (digitsText digits ++ fractionText fraction).takeWhile Char.isDigit =
      digitsText digits := by
    rw [takeWhile_digitsText]
    unfold fractionText
    split
    · exact List.append_nil _
    · exact List.append_nil _
  let kept := fraction.take scale ++ List.replicate (scale - fraction.length) (0 : Digit)
  have hlength : kept.length = scale := by
    simp only [kept, List.length_append, List.length_take, List.length_replicate]
    omega
  have hread : readDigits (digitsText digits ++ (digitsText fraction).take scale ++
      List.replicate (scale - (digitsText fraction).length) '0') =
        number digits * 10 ^ scale + number kept := by
    have hzeros : List.replicate (scale - fraction.length) '0' =
        digitsText (List.replicate (scale - fraction.length) (0 : Digit)) := by
      unfold digitsText
      rw [List.map_replicate]
      rfl
    have htake : (digitsText fraction).take scale = digitsText (fraction.take scale) :=
      List.map_take.symm
    rw [length_digitsText, hzeros, htake, List.append_assoc, ← digitsText_append,
      ← digitsText_append, readDigits_text, number_append]
    rw [hlength]
  have hhigh : number digits < 10 ^ whole := by
    rw [← number_dropWhile]
    exact (number_lt _).trans_le (Nat.pow_le_pow_right (by decide) hwhole)
  have hlow : number kept < 10 ^ scale := hlength ▸ number_lt kept
  have hbound : number digits * 10 ^ scale + number kept < 10 ^ (whole + scale) := by
    calc number digits * 10 ^ scale + number kept
        < number digits * 10 ^ scale + 10 ^ scale := Nat.add_lt_add_left hlow _
      _ = (number digits + 1) * 10 ^ scale := by rw [Nat.add_mul, Nat.one_mul]
      _ ≤ 10 ^ whole * 10 ^ scale := Nat.mul_le_mul_right _ hhigh
      _ = 10 ^ (whole + scale) := (pow_add 10 whole scale).symm
  have hunits : roundUnits scale v.toList = (if v.toList.head? = some '-' then -1 else 1) *
      ((number digits * 10 ^ scale + number kept : ℕ) : ℤ) := by
    unfold roundUnits
    simp only [hunsigned, hdigits', hwhole', tail_fractionText, hup, hread]
    simp
  rw [hunits, Int.natAbs_mul, Int.natAbs_natCast]
  split
  · rw [Int.natAbs_neg, Int.natAbs_one, Nat.one_mul]
    exact hbound
  · rw [Int.natAbs_one, Nat.one_mul]
    exact hbound

/-! ### Ready groups -/

section
variable {cols : Columns} {rows : Sheet}

theorem trimSpace_empty : trimSpace "" = "" := rfl

theorem cellAt_of_fieldValue {row : List String} {field v : String}
    (hblank : keepsBlank field = false) (h : fieldValue row cols field = some v) :
    ∃ idx, cols field = some idx ∧ v = cellAt row idx field ∧ v ≠ "" := by
  obtain ⟨idx, hidx, hv⟩ := Option.bind_eq_some_iff.mp h
  refine ⟨idx, hidx, ?_⟩
  simp only [hblank, Bool.not_false, Bool.and_true, decide_eq_true_eq] at hv
  split at hv
  · cases hv
  · rename_i hne
    cases hv
    refine ⟨rfl, fun hempty => hne ?_⟩
    rw [hempty, trimSpace_empty]

theorem anyCell_false {rowIdxs : List ℕ} {test : List String → ℕ → Bool} {field : String}
    (h : anyCell cols rows rowIdxs test field = false) {idx : ℕ} (hidx : cols field = some idx)
    {i : ℕ} (hi : i ∈ rowIdxs) : test (rows.row i) idx = false := by
  unfold anyCell at h
  rw [hidx, Option.any_some, List.any_eq_false] at h
  exact Bool.eq_false_iff.mpr (h i hi)

theorem decimalNumberRe_of_cell {row : List String} {field v : String}
    (hblank : keepsBlank field = false) (hv : fieldValue row cols field = some v)
    (h : ∀ idx, cols field = some idx → isBadNumber field row idx = false) :
    decimalNumberRe v.toList = true := by
  obtain ⟨idx, hidx, rfl, hne⟩ := cellAt_of_fieldValue hblank hv
  have hgood := h idx hidx
  unfold isBadNumber at hgood
  simpa [hne] using hgood

section
variable {rowIdxs : List ℕ} (h : bestEffortBadNumericField cols rows rowIdxs = none)
include h

theorem header_decimal {field v : String} (hmem : field ∈ headerNumericOrder)
    (hblank : keepsBlank field = false) (hrows : rowIdxs ≠ [])
    (hv : fieldValue (firstRow rows rowIdxs) cols field = some v) :
    decimalNumberRe v.toList = true := by
  cases rowIdxs with
  | nil => exact absurd rfl hrows
  | cons first rest =>
    refine decimalNumberRe_of_cell hblank hv fun idx hidx => ?_
    have hnone := (Option.or_eq_none_iff.mp h).1
    have hfield := List.find?_eq_none.mp hnone field hmem
    exact anyCell_false (Bool.eq_false_iff.mpr hfield) hidx (List.mem_singleton_self first)

theorem line_decimal {field v : String} (hmem : field ∈ lineNumericOrder)
    (hblank : keepsBlank field = false) {i : ℕ} (hi : i ∈ rowIdxs)
    (hv : fieldValue (rows.row i) cols field = some v) : decimalNumberRe v.toList = true := by
  refine decimalNumberRe_of_cell hblank hv fun idx hidx => ?_
  have hnone := (Option.or_eq_none_iff.mp h).2
  have hfield := List.find?_eq_none.mp hnone field hmem
  exact anyCell_false (Bool.eq_false_iff.mpr hfield) hidx hi

end

theorem line_in_range {rowIdxs : List ℕ} (h : numericRangeField cols rows rowIdxs = none)
    {field v : String} (hmem : field ∈ lineNumericOrder) {range : ℕ × ℕ}
    (hrange : numericRange field = some range) (hblank : keepsBlank field = false) {i : ℕ}
    (hi : i ∈ rowIdxs) (hv : fieldValue (rows.row i) cols field = some v) :
    exceedsRange range v = false := by
  obtain ⟨idx, hidx, rfl, -⟩ := cellAt_of_fieldValue hblank hv
  have hfield := Bool.eq_false_iff.mpr (List.find?_eq_none.mp h field hmem)
  rw [hrange, Option.any_some] at hfield
  exact anyCell_false hfield hidx hi

end

section
variable {quote : String → String} {cols : Columns} {rows : Sheet} {headerRow : ℕ}
  {existing : String → Option Uuid} {g : InvoiceGroup}

structure Checked (cols : Columns) (rows : Sheet) (existing : String → Option Uuid)
    (g : InvoiceGroup) : Prop where
  numbers : bestEffortBadNumericField cols rows g.rowIdxs = none
  range : numericRangeField cols rows g.rowIdxs = none
  free : existing g.number = none

theorem checked_of_passes (h : passes quote cols rows headerRow existing g = true) :
    Checked cols rows existing g := by
  have hnone := List.findSome?_eq_none_iff.mp (Option.isNone_iff_eq_none.mp h)
  simp only [checks, List.mem_cons, List.not_mem_nil, or_false, forall_eq_or_imp, forall_eq, id_eq,
    Option.map_eq_none_iff] at hnone
  obtain ⟨-, -, -, -, hnumbers, hrange, hfree⟩ := hnone
  exact ⟨hnumbers, hrange, hfree⟩

end

/-! ### The inputs the columns take -/

theorem isOk_bind {ε α β : Type} {f : Except ε α} {k : α → Except ε β} {P : Prop}
    (h : ∀ a, (k a).isOk = true ↔ P) : (f >>= k).isOk = true ↔ f.isOk = true ∧ P := by
  cases f with
  | error e => exact ⟨fun hok => Bool.noConfusion hok, fun hok => Bool.noConfusion hok.1⟩
  | ok a => exact ⟨fun hok => ⟨rfl, (h a).mp hok⟩, fun hok => (h a).mpr hok.2⟩

theorem isOk_pure {ε α : Type} {a : α} : (pure a : Except ε α).isOk = true ↔ True :=
  ⟨fun _ => trivial, fun _ => rfl⟩

theorem storeTexts_isOk {texts : List (Option String)} :
    (storeTexts texts).isOk = true ↔ ∀ t ∈ texts, t.any hasNUL = false := by
  unfold storeTexts
  cases hany : texts.any fun t => t.any hasNUL with
  | true =>
    rw [if_pos rfl]
    obtain ⟨t, ht, hnul⟩ := List.any_eq_true.mp hany
    exact ⟨fun h => Bool.noConfusion h, fun h => absurd hnul (Bool.eq_false_iff.mp (h t ht))⟩
  | false =>
    rw [if_neg Bool.false_ne_true]
    exact ⟨fun _ t ht => Bool.eq_false_iff.mpr (List.any_eq_false.mp hany t ht), fun _ => rfl⟩

section
variable (x : Externals)

theorem storeContent_isOk {c : Content} : (storeContent x c).isOk = true ↔
    (storeTexts c.texts).isOk = true ∧ (storeAmount x 2 c.subtotal).isOk = true ∧
      (storeAmount x 2 c.vat).isOk = true ∧ (storeAmount x 2 c.total).isOk = true ∧ True :=
  isOk_bind fun _ => isOk_bind fun _ => isOk_bind fun _ => isOk_bind fun _ => isOk_pure

theorem storeLine_isOk {li : LineItemInput} : (storeLine x li).isOk = true ↔
    (storeTexts (lineTexts li)).isOk = true ∧ (storeAmount x 3 li.quantity).isOk = true ∧
      (storeAmount x 2 li.unitPrice).isOk = true ∧ (storeAmount x 2 li.lineTotal).isOk = true ∧
      (storeAmount x 2 li.lineTax).isOk = true ∧ (storeAmount x 2 li.taxPercent).isOk = true ∧
      (storeAmount x 3 li.baseQuantity).isOk = true ∧ True :=
  isOk_bind fun _ => isOk_bind fun _ => isOk_bind fun _ => isOk_bind fun _ => isOk_bind fun _ =>
    isOk_bind fun _ => isOk_bind fun _ => isOk_pure

theorem storeLines_isOk {lines : List LineItemInput} :
    (lines.mapM (storeLine x)).isOk = true ↔ ∀ li ∈ lines, (storeLine x li).isOk = true := by
  induction lines with
  | nil => exact ⟨fun _ li hli => absurd hli List.not_mem_nil, fun _ => rfl⟩
  | cons li lines ih =>
    rw [List.mapM_cons, isOk_bind fun _ => isOk_bind fun _ => isOk_pure, ih, List.forall_mem_cons,
      and_true]

/-- A line the table takes; the columns the range check covers want nothing more of its amounts
but that they are no longer than the database reads. -/
structure LineStorable (li : LineItemInput) : Prop where
  texts : ∀ t ∈ lineTexts li, t.any hasNUL = false
  quantity : ∀ v, li.quantity = some v → FitsColumn 3 v
  unitPrice : ∀ v, li.unitPrice = some v → FitsColumn 2 v
  checked : ∀ v, some v ∈ [li.lineTotal, li.lineTax, li.taxPercent, li.baseQuantity] →
    decimals v ≤ 16383

/-- The database takes the input, its texts being UTF-8: no NUL, amounts within their columns, and
room in the indexes. -/
structure Storable (db : Db) (input : CreateInput) : Prop where
  texts : ∀ t ∈ input.texts, t.any hasNUL = false
  amounts : ∀ v, some v ∈ [input.subtotal, input.vat, input.total] → FitsColumn 2 v
  lines : ∀ li ∈ input.lineItems, LineStorable li
  number : x.numberIndexable input.invoiceNumber = true
  buyer : fileable x db (customerRow 0 input.toContent) = true

theorem refusal_eq_none {db : Db} {input : CreateInput} : refusal x db input = none ↔
    (storeContent x input.toContent).isOk = true ∧
      x.numberIndexable input.invoiceNumber = true ∧
      fileable x db (customerRow 0 input.toContent) = true ∧
      ∀ li ∈ input.lineItems, (storeLine x li).isOk = true := by
  rw [← storeLines_isOk]
  unfold refusal
  cases hcontent : storeContent x input.toContent with
  | error e => exact ⟨fun h => absurd h nofun, fun h => absurd h.1 nofun⟩
  | ok content =>
    have hsame := storeContent_same hcontent
    have hbuyer : fileable x db (customerRow 0 content) =
        fileable x db (customerRow 0 input.toContent) := by
      unfold fileable Customers.InvoiceRow.tin customerRow
      rw [hsame.buyerTIN]
    simp only [hbuyer]
    cases x.numberIndexable input.invoiceNumber with
    | false => simp
    | true =>
      cases fileable x db (customerRow 0 input.toContent) with
      | false => simp
      | true =>
        cases input.lineItems.mapM (storeLine x) with
        | error e => simp [Except.isOk, Except.toBool]
        | ok lines => simp [Except.isOk, Except.toBool]

end

section
variable {x : Externals} {cols : Columns} {req : Request} {e : Entity} {batchID : Uuid}
  {existing : String → Option Uuid} {g : InvoiceGroup} {db : Db}

theorem fits_of_checked {whole scale : ℕ} {v : String} (hv : decimalNumberRe v.toList = true)
    (hrange : exceedsRange (whole, scale) v = false) (hsum : whole + scale = 14) :
    FitsColumn scale v ↔ decimals v ≤ 16383 :=
  ⟨fun h => h.decimals, fun h => ⟨h, hsum ▸ roundUnits_lt hv hrange⟩⟩

variable (x) in
theorem storeAmount_checked {whole scale : ℕ} {v : Option String}
    (hv : ∀ t, v = some t → decimalNumberRe t.toList = true)
    (hrange : ∀ t, v = some t → exceedsRange (whole, scale) t = false)
    (hsum : whole + scale = 14) :
    (storeAmount x scale v).isOk = true ↔ ∀ t, v = some t → decimals t ≤ 16383 := by
  rw [storeAmount_isOk x scale hv]
  exact forall_congr' fun t => imp_congr_right fun ht =>
    fits_of_checked (hv t ht) (hrange t ht) hsum

theorem forall_some_mem {α : Type} {P : α → Prop} {l : List (Option α)} :
    (∀ v, some v ∈ l → P v) ↔ ∀ o ∈ l, ∀ v, o = some v → P v := by
  constructor
  · rintro h o ho v rfl
    exact h v ho
  · exact fun h v hv => h (some v) hv v rfl

section
variable (hchecked : Checked cols req.rows existing g)
include hchecked

theorem storeLine_ready {i : ℕ} (hi : i ∈ g.rowIdxs) :
    (storeLine x (lineInput cols (req.rows.row i))).isOk = true ↔
      LineStorable (lineInput cols (req.rows.row i)) := by
  have hdecimal : ∀ field, field ∈ lineNumericOrder → keepsBlank field = false → ∀ v,
      fieldValue (req.rows.row i) cols field = some v → decimalNumberRe v.toList = true :=
    fun field hmem hblank v hv => line_decimal hchecked.numbers hmem hblank hi hv
  have hrange : ∀ field, field ∈ lineNumericOrder → ∀ range, numericRange field = some range →
      keepsBlank field = false → ∀ v, fieldValue (req.rows.row i) cols field = some v →
        exceedsRange range v = false :=
    fun field hmem range hr hblank v hv => line_in_range hchecked.range hmem hr hblank hi hv
  have hquantity := storeAmount_isOk x 3
    (hdecimal "line_quantity" (by decide) (by decide))
  have hprice := storeAmount_isOk x 2
    (hdecimal "line_unit_price" (by decide) (by decide))
  have htotal := storeAmount_checked x (hdecimal "line_total" (by decide) (by decide))
    (hrange "line_total" (by decide) (12, 2) rfl (by decide)) rfl
  have htax := storeAmount_checked x (hdecimal "line_tax" (by decide) (by decide))
    (hrange "line_tax" (by decide) (12, 2) rfl (by decide)) rfl
  have hpercent := storeAmount_checked x
    (hdecimal "line_tax_percent" (by decide) (by decide))
    (hrange "line_tax_percent" (by decide) (12, 2) rfl (by decide)) rfl
  have hbase := storeAmount_checked x
    (hdecimal "line_base_quantity" (by decide) (by decide))
    (hrange "line_base_quantity" (by decide) (11, 3) rfl (by decide)) rfl
  have hchecked' : (∀ v, some v ∈ [(lineInput cols (req.rows.row i)).lineTotal,
      (lineInput cols (req.rows.row i)).lineTax, (lineInput cols (req.rows.row i)).taxPercent,
      (lineInput cols (req.rows.row i)).baseQuantity] → decimals v ≤ 16383) ↔
        (∀ v, (lineInput cols (req.rows.row i)).lineTotal = some v → decimals v ≤ 16383) ∧
        (∀ v, (lineInput cols (req.rows.row i)).lineTax = some v → decimals v ≤ 16383) ∧
        (∀ v, (lineInput cols (req.rows.row i)).taxPercent = some v → decimals v ≤ 16383) ∧
        ∀ v, (lineInput cols (req.rows.row i)).baseQuantity = some v → decimals v ≤ 16383 := by
    rw [forall_some_mem]
    simp only [List.forall_mem_cons, List.not_mem_nil, false_imp_iff, implies_true, and_true]
  rw [storeLine_isOk, storeTexts_isOk]
  constructor
  · rintro ⟨htexts, hq, hp, ht, hx, hr, hb, -⟩
    exact ⟨htexts, hquantity.mp hq, hprice.mp hp,
      hchecked'.mpr ⟨htotal.mp ht, htax.mp hx, hpercent.mp hr, hbase.mp hb⟩⟩
  · rintro ⟨htexts, hq, hp, hall⟩
    obtain ⟨ht, hx, hr, hb⟩ := hchecked'.mp hall
    exact ⟨htexts, hquantity.mpr hq, hprice.mpr hp, htotal.mpr ht, htax.mpr hx, hpercent.mpr hr,
      hbase.mpr hb, trivial⟩

theorem refusal_ready (hrows : g.rowIdxs ≠ []) :
    refusal x db (inputOf cols req e batchID g) = none ↔
      Storable x db (inputOf cols req e batchID g) := by
  have hdecimal : ∀ field, field ∈ headerNumericOrder → keepsBlank field = false → ∀ v,
      fieldValue (firstRow req.rows g.rowIdxs) cols field = some v →
        decimalNumberRe v.toList = true :=
    fun field hmem hblank v hv => header_decimal hchecked.numbers hmem hblank hrows hv
  have hsubtotal := storeAmount_isOk x 2
    (hdecimal "subtotal" (by decide) (by decide))
  have hvat := storeAmount_isOk x 2 (hdecimal "vat" (by decide) (by decide))
  have htotal := storeAmount_isOk x 2 (hdecimal "total" (by decide) (by decide))
  have hcontent : (storeContent x (inputOf cols req e batchID g).toContent).isOk = true ↔
      (∀ t ∈ (inputOf cols req e batchID g).texts, t.any hasNUL = false) ∧
        ∀ v, some v ∈ [(inputOf cols req e batchID g).subtotal,
          (inputOf cols req e batchID g).vat, (inputOf cols req e batchID g).total] →
            FitsColumn 2 v := by
    rw [storeContent_isOk, storeTexts_isOk, forall_some_mem]
    simp only [inputOf, buildCreateInput, hsubtotal, hvat, htotal, List.forall_mem_cons,
      List.not_mem_nil, false_imp_iff, implies_true, and_true]
  have hlines : (∀ li ∈ (inputOf cols req e batchID g).lineItems, (storeLine x li).isOk = true) ↔
      ∀ li ∈ (inputOf cols req e batchID g).lineItems, LineStorable li := by
    refine forall_congr' fun li => imp_congr_right fun hli => ?_
    obtain ⟨i, hi, rfl⟩ := List.mem_map.mp hli
    exact storeLine_ready hchecked hi
  rw [refusal_eq_none, hcontent, hlines]
  constructor
  · rintro ⟨⟨htexts, hamounts⟩, hnumber, hbuyer, hall⟩
    exact ⟨htexts, hamounts, hall, hnumber, hbuyer⟩
  · exact fun h => ⟨⟨h.texts, h.amounts⟩, h.number, h.buyer, h.lines⟩

end
end

end InvoiceOs.Importer
