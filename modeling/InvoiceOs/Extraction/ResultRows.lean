import Mathlib.Data.List.Forall2
import Mathlib.Tactic.IntervalCases
import InvoiceOs.Extraction.AIMerge
import InvoiceOs.Extraction.Competing
import InvoiceOs.Extraction.LinesMerged
import InvoiceOs.Lib.Framing

/-! The rows the decision stage returns: one per header field, the block, and a cell's row for each
printed cell of a line, all under names of their own and each judged. -/

namespace InvoiceOs.Extraction

open Lib

variable {D : Decimals} {toLower : Char → Char}

/-! ### The name of a cell -/

theorem no_leading_zero (n : ℕ) (hpos : 1 ≤ n) : (digits n).head? ≠ some '0' := by
  induction n using Nat.strongRecOn with
  | ind n ih =>
    rw [digits_eq]
    by_cases hlt : n < 10
    · rw [Nat.toDigits_of_lt_base hlt]
      interval_cases n <;> decide
    · have hsplit : Nat.toDigits 10 n = Nat.toDigits 10 (n / 10) ++ [(n % 10).digitChar] := by
        rw [Nat.toDigits_of_base_le (by decide) (by omega)]
      have hrest := ih (n / 10) (by omega) (by omega)
      rw [digits_eq] at hrest
      rw [hsplit, List.head?_append_of_ne_nil _ Nat.toDigits_ne_nil]
      exact hrest

theorem parseLineIndex_digits {n : ℕ} (hpos : 1 ≤ n) (hlt : n < 2 ^ 63) :
    parseLineIndex (digits n) = some n := by
  have hvalue : (digits n).foldl (fun n c => 10 * n + (c.toNat - 48)) 0 = n := by
    rw [digits_eq]
    exact Nat.ofDigitChars_ten_toDigits
  have hall : (digits n).all Char.isDigit = true := List.all_eq_true.mpr fun c hc =>
    isDigit_of_mem_digits hc
  rw [parseLineIndex, hvalue, if_pos ⟨digits_ne_nil n, hall, no_leading_zero n hpos, hlt⟩]

theorem cutPrefix_append (p cs : List Char) : cutPrefix p (p ++ cs) = some cs := by
  induction p with
  | nil => rfl
  | cons c p ih => rw [List.cons_append, cutPrefix, if_pos rfl, ih]

theorem cutAtRole_append {ds : List Char} (h : ∀ c ∈ ds, c.isDigit = true) (role : List Char) :
    cutAtRole (ds ++ ']' :: '.' :: role) = some (ds, role) := by
  induction ds with
  | nil => rfl
  | cons c ds ih =>
    have hc : c ≠ ']' := by
      rintro rfl
      exact absurd (h ']' List.mem_cons_self) (by decide)
    rw [List.cons_append, cutAtRole, ih fun c' hc' => h c' (List.mem_cons_of_mem c hc')]
    · rfl
    · exact fun rest hhead _ => hc hhead

theorem parse_lineFieldName {n : ℕ} (hpos : 1 ≤ n) (hlt : n < 2 ^ 63) {role : String}
    (hrole : role ∈ lineRoles) : parseLineFieldName (lineFieldName n role) = some (n, role) := by
  have hname : (lineFieldName n role).toList =
      "line_items[".toList ++ (digits n ++ ']' :: '.' :: role.toList) := by
    rw [lineFieldName, String.toList_append, String.toList_append, String.toList_append,
      List.append_assoc, List.append_assoc]
    rfl
  simp only [parseLineFieldName, hname, cutPrefix_append, Option.bind_eq_bind, Option.bind_some,
    cutAtRole_append (fun c hc => isDigit_of_mem_digits hc), parseLineIndex_digits hpos hlt,
    String.ofList_toList, if_pos hrole]

theorem parse_headerField {name : String} (h : name ∈ headerFields) :
    parseLineFieldName name = none := by
  have hall : headerFields.all (fun name => parseLineFieldName name = none) = true := by
    decide +kernel
  exact of_decide_eq_true (List.all_eq_true.mp hall name h)

theorem parse_block : parseLineFieldName lineItemsField = none := by decide +kernel

/-! ### The header -/

theorem Judged.flag {r : FieldResult} (h : Judged r) (hreason : r.reason = none) :
    Judged { r with reason := some .inconsistent } where
  missing := by nofun
  valued := fun _ => h.valued (by rw [hreason]; nofun)
  clean := by nofun
  words := .inr (.inr (.inr rfl))

theorem judged_decideField (cands : List Candidate) (field : String) :
    Judged (decideField cands field) := by
  unfold decideField
  split
  · exact ⟨fun _ => ⟨rfl, rfl⟩, fun h => absurd rfl h, by nofun, .inr (.inl rfl)⟩
  · rename_i head others _
    have halts : ∀ f ∈ others.map fun c : Candidate =>
        ({ name := field, value := some c.value, region := c.region } : Field), f.value ≠ none := by
      intro f hf
      obtain ⟨c, -, rfl⟩ := List.mem_map.mp hf
      exact Option.some_ne_none _
    cases others with
    | nil => exact ⟨by nofun, fun _ => ⟨Option.some_ne_none _, halts⟩, fun _ => rfl, .inl rfl⟩
    | cons c others =>
      exact ⟨by nofun, fun _ => ⟨Option.some_ne_none _, halts⟩, by nofun, .inr (.inr (.inl rfl))⟩

theorem forall_updateFirst {P : FieldResult → Prop} {p : FieldResult → Bool}
    {f : FieldResult → FieldResult} (h : ∀ r, p r = true → P r → P (f r)) {l : List FieldResult}
    (hl : ∀ r ∈ l, P r) : ∀ r ∈ updateFirst p f l, P r := by
  induction l with
  | nil => nofun
  | cons a l ih =>
    obtain ⟨ha, hl⟩ := List.forall_mem_cons.mp hl
    rw [updateFirst]
    split
    · rename_i hp
      exact List.forall_mem_cons.mpr ⟨h a hp ha, hl⟩
    · exact List.forall_mem_cons.mpr ⟨ha, ih hl⟩

def HeaderRow (r : FieldResult) : Prop := r.name ∈ headerFields ∧ Judged r

theorem HeaderRow.flag {r : FieldResult} (h : HeaderRow r) (hreason : r.reason = none) :
    HeaderRow { r with reason := some .inconsistent } :=
  ⟨h.1, h.2.flag hreason⟩

theorem headerRow_checkSubtotal {lines : List DocLine} {out : List FieldResult}
    (h : ∀ r ∈ out, HeaderRow r) : ∀ r ∈ checkSubtotal D lines out, HeaderRow r := by
  unfold checkSubtotal
  split
  · exact h
  · refine forall_updateFirst (fun r hr hrow => ?_) h
    have hreason := of_decide_eq_true (Bool.and_eq_true_iff.mp hr).2
    split
    · split
      · exact hrow.flag hreason
      · exact hrow
    · exact hrow

theorem value_of_balances {want : ℚ} {value : Option String}
    (h : balancesWith D want value = true) : value ≠ none := by
  rintro rfl
  cases h

theorem headerRow_corroborate {res : FieldResult} (h : HeaderRow res)
    (decided : List FieldResult) : HeaderRow (corroborateTotal D res decided) := by
  unfold corroborateTotal
  split
  · exact h
  split
  · exact h
  split
  · rename_i want _ winner hwinner
    have hbalances := (List.mem_filter.mp (hwinner ▸ List.mem_singleton_self winner)).2
    exact ⟨h.1, by nofun, fun _ => ⟨value_of_balances hbalances, by nofun⟩, fun _ => rfl, .inl rfl⟩
  · exact h

theorem valued_rivalsOf {res : FieldResult} (h : Judged res) : ∀ f ∈ rivalsOf res,
    f.value ≠ none := by
  intro f hf
  by_cases hmissing : res.reason = some .missing
  · obtain ⟨hvalue, halts⟩ := h.missing hmissing
    rw [rivalsOf, hvalue, halts] at hf
    cases hf
  · obtain ⟨hvalue, halts⟩ := h.valued hmissing
    rcases List.mem_append.mp hf with hf | hf
    · split at hf
      · cases hf
      · rw [List.mem_singleton.mp hf]
        exact hvalue
    · obtain ⟨a, ha, rfl⟩ := List.mem_map.mp hf
      exact halts a ha

theorem headerRow_findTotal {res : FieldResult} (h : HeaderRow res) (decided : List FieldResult)
    (cands : List Candidate) (pages : List TokenPage) :
    HeaderRow (findTotal D res decided cands pages) := by
  rcases findTotal_cases D res decided cands pages with hsame | ⟨halts, hfound⟩
  · rw [hsame]
    exact h
  · obtain ⟨_, _, _, _, -, -, -, hvalue, -⟩ := hfound.lone
    refine ⟨by rw [findTotal_name]; exact h.1, ?_, fun _ => ⟨?_, ?_⟩, ?_, ?_⟩
    · rw [hfound.doubtful]
      nofun
    · rw [hvalue]
      exact Option.some_ne_none _
    · rw [halts]
      exact valued_rivalsOf h.2
    · rw [hfound.doubtful]
      nofun
    · exact .inr (.inr (.inl hfound.doubtful))

theorem headerRow_flagIf {name : String} {agrees : String → Bool} {out : List FieldResult}
    (h : ∀ r ∈ out, HeaderRow r) : ∀ r ∈ flagIfInconsistent name agrees out, HeaderRow r := by
  refine forall_updateFirst (fun r hr hrow => ?_) h
  split
  · exact hrow.flag (of_decide_eq_true (Bool.and_eq_true_iff.mp hr).2)
  · exact hrow

theorem headerRow_supplierCheck {entity : Entity} {out : List FieldResult}
    (h : ∀ r ∈ out, HeaderRow r) : ∀ r ∈ supplierCheck toLower entity out, HeaderRow r := by
  have htin : ∀ r ∈ (if entity.tin = "" then out
      else flagIfInconsistent "supplier_tin" (fun v => v = entity.tin) out), HeaderRow r := by
    split
    · exact h
    · exact headerRow_flagIf h
  unfold supplierCheck
  dsimp only
  split
  · exact htin
  · exact headerRow_flagIf htin

theorem headerRow_headerRows (input : Input) : ∀ r ∈ headerRows D input, HeaderRow r := by
  have hfields : ∀ r ∈ headerFields.map (decideField input.candidates), HeaderRow r := by
    intro r hr
    obtain ⟨n, hn, rfl⟩ := List.mem_map.mp hr
    exact ⟨by rwa [decideField_name], judged_decideField _ n⟩
  refine forall_updateFirst (fun r _ hrow => headerRow_findTotal hrow _ _ _) ?_
  refine forall_updateFirst (fun r _ hrow => headerRow_corroborate hrow _) ?_
  exact headerRow_checkSubtotal hfields

theorem headerRow_reconcile (input : Input) :
    ∀ r ∈ supplierCheck toLower input.entity (headerRows D input), HeaderRow r :=
  headerRow_supplierCheck (headerRow_headerRows input)

/-! ### The lines -/

structure CellRow (lines : List DocLine) (r : FieldResult) : Prop where
  cell : ∃ l ∈ lines, ∃ role ∈ lineRoles, r.name = lineFieldName l.index role ∧
    r.value = l.cell role ∧ l.cell role ≠ none
  alternatives : r.alternatives = []
  words : r.reason = none ∨ r.reason = some .inconsistent

theorem cellRow_lineItemResults {lines : List DocLine} {r : FieldResult}
    (h : r ∈ lineItemResults lines) : CellRow lines r := by
  obtain ⟨l, hl, hr⟩ := List.mem_flatMap.mp h
  obtain ⟨role, hrole, hr⟩ := List.mem_filterMap.mp hr
  obtain ⟨v, hv, rfl⟩ := Option.map_eq_some_iff.mp hr
  exact ⟨⟨l, hl, role, hrole, rfl, hv.symm, by rw [hv]; exact Option.some_ne_none v⟩, rfl, .inl rfl⟩

theorem cellRow_rowFlag {lines : List DocLine} {l : DocLine} (hl : l ∈ lines) {r : FieldResult}
    (h : rowFlag D l = some r) :
    CellRow lines r ∧ r.name = lineFieldName l.index "line_total" ∧ l.lineTotal ≠ none := by
  simp only [rowFlag, Option.bind_eq_bind, Option.bind_eq_some_iff] at h
  obtain ⟨_, -, _, -, printed, hprinted, h⟩ := h
  have htotal : l.lineTotal ≠ none := by
    intro hnone
    rw [hnone] at hprinted
    cases hprinted
  split at h
  · cases h
    refine ⟨⟨⟨l, hl, "line_total", by decide, rfl, rfl, htotal⟩, rfl, .inr rfl⟩, rfl, htotal⟩
  · cases h

theorem flag_has_value {lines : List DocLine} {r : FieldResult}
    (h : r ∈ lines.filterMap (rowFlag D)) : ∃ v ∈ lineItemResults lines, v.name = r.name := by
  obtain ⟨l, hl, hr⟩ := List.mem_filterMap.mp h
  obtain ⟨-, hname, htotal⟩ := cellRow_rowFlag hl hr
  obtain ⟨v, hv⟩ := Option.ne_none_iff_exists'.mp htotal
  refine ⟨{
    name := lineFieldName l.index "line_total"
    value := some v
    region := l.regions "line_total" }, ?_, hname.symm⟩
  refine List.mem_flatMap.mpr ⟨l, hl, List.mem_filterMap.mpr ⟨"line_total", by decide, ?_⟩⟩
  rw [show l.cell "line_total" = some v from hv]
  rfl

theorem composeLineRows_eq (lines : List DocLine) :
    composeLineRows (lineItemResults lines) (lines.filterMap (rowFlag D)) =
      (lineItemResults lines).map fun v =>
        ((lines.filterMap (rowFlag D)).find? fun f => f.name = v.name).getD v := by
  -- no flag is left over for a row of its own
  have hnone : (lines.filterMap (rowFlag D)).filter
      (fun f => !(lineItemResults lines).any fun v => v.name = f.name) = [] := by
    refine List.filter_eq_nil_iff.mpr fun f hf => ?_
    obtain ⟨v, hv, hname⟩ := flag_has_value hf
    have hany : ((lineItemResults lines).any fun v => v.name = f.name) = true :=
      List.any_eq_true.mpr ⟨v, hv, decide_eq_true hname⟩
    rw [hany]
    decide
  rw [composeLineRows, hnone, List.append_nil]

theorem cellRow_composed {lines : List DocLine} {r : FieldResult}
    (h : r ∈ composeLineRows (lineItemResults lines) (lines.filterMap (rowFlag D))) :
    CellRow lines r := by
  rw [composeLineRows_eq] at h
  obtain ⟨v, hv, rfl⟩ := List.mem_map.mp h
  cases hfind : (lines.filterMap (rowFlag D)).find? fun f => f.name = v.name with
  | none => exact cellRow_lineItemResults hv
  | some f =>
    obtain ⟨l, hl, hf⟩ := List.mem_filterMap.mp (List.mem_of_find?_eq_some hfind)
    exact (cellRow_rowFlag hl hf).1

theorem names_composed (lines : List DocLine) :
    (composeLineRows (lineItemResults lines) (lines.filterMap (rowFlag D))).map (fun r => r.name) =
      (lineItemResults lines).map fun r => r.name := by
  rw [composeLineRows_eq, List.map_map]
  refine List.map_congr_left fun v _ => ?_
  rw [Function.comp_apply]
  cases hfind : (lines.filterMap (rowFlag D)).find? fun f => f.name = v.name with
  | none => rfl
  | some f =>
    have hname := List.find?_some (p := fun f : FieldResult => decide (f.name = v.name)) hfind
    exact of_decide_eq_true hname

def Numbered (lines : List DocLine) : Prop :=
  lines.map DocLine.index = List.range' 1 lines.length ∧ lines.length < 2 ^ 63

theorem Numbered.bounds {lines : List DocLine} (h : Numbered lines) {l : DocLine} (hl : l ∈ lines) :
    1 ≤ l.index ∧ l.index < 2 ^ 63 := by
  have hmem := List.mem_map_of_mem (f := DocLine.index) hl
  rw [h.1, List.mem_range'_1] at hmem
  have hlength := h.2
  omega

def cellKeys (lines : List DocLine) : List (ℕ × String) :=
  lines.flatMap fun l => (lineRoles.filter fun role => (l.cell role).isSome).map fun role =>
    (l.index, role)

theorem keys_lineItemResults {lines : List DocLine} (h : Numbered lines) :
    (lineItemResults lines).filterMap (fun r => parseLineFieldName r.name) = cellKeys lines := by
  have hroles : ∀ l ∈ lines, ∀ roles : List String, (∀ role ∈ roles, role ∈ lineRoles) →
      (roles.filterMap fun role => (l.cell role).map fun v =>
        ({ name := lineFieldName l.index role, value := some v, region := l.regions role } :
          FieldResult)).filterMap (fun r => parseLineFieldName r.name) =
        (roles.filter fun role => (l.cell role).isSome).map fun role => (l.index, role) := by
    intro l hl roles hroles
    induction roles with
    | nil => rfl
    | cons role roles ih =>
      obtain ⟨hrole, hroles⟩ := List.forall_mem_cons.mp hroles
      obtain ⟨hpos, hlt⟩ := h.bounds hl
      cases hcell : l.cell role with
      | none =>
        rw [List.filterMap_cons_none (by rw [hcell]; rfl),
          List.filter_cons_of_neg (by rw [hcell]; decide), ih hroles]
      | some v =>
        have hparse := parse_lineFieldName hpos hlt hrole
        simp only [List.filterMap_cons, hcell, Option.map_some, hparse, List.filter_cons,
          Option.isSome_some, if_true, List.map_cons, ih hroles]
  rw [lineItemResults, cellKeys, List.filterMap_flatMap]
  exact List.flatMap_congr fun l hl => hroles l hl lineRoles fun _ hrole => hrole

theorem nodup_cellKeys {lines : List DocLine} (h : Numbered lines) : (cellKeys lines).Nodup := by
  have hindexes : (lines.map DocLine.index).Nodup := by
    rw [h.1]
    exact List.nodup_range' 1
  have hroles : lineRoles.Nodup := by decide
  refine List.nodup_flatMap.mpr ⟨fun l _ => ?_, ?_⟩
  · exact (hroles.filter _).map fun _ _ heq => (Prod.mk.inj heq).2
  · refine (List.pairwise_map.mp hindexes).imp fun {l l'} hne => ?_
    refine List.disjoint_left.mpr fun key hkey hkey' => hne ?_
    obtain ⟨_, -, rfl⟩ := List.mem_map.mp hkey
    obtain ⟨_, -, heq⟩ := List.mem_map.mp hkey'
    exact (Prod.mk.inj heq).1.symm

/-! ### The stage's rows -/

structure StageRows (lines : List DocLine) (header : List FieldResult) (block : FieldResult)
    (cells : List FieldResult) : Prop where
  header_rows : ∀ r ∈ header, HeaderRow r
  block_name : block.name = lineItemsField
  block_value : block.value = none ∧ block.alternatives = [] ∧
    (block.reason = none ∨ block.reason = some .missing)
  cell_rows : ∀ r ∈ cells, CellRow lines r
  names : cells.map (fun r => r.name) = (lineItemResults lines).map fun r => r.name

theorem reconcile_rows (D : Decimals) (toLower : Char → Char) (input : Input) :
    ∃ header block cells, reconcile D toLower input = header ++ block :: cells ∧
      StageRows input.lines header block cells := by
  refine ⟨_, _, _, rfl, headerRow_reconcile input, rfl, ⟨rfl, rfl, ?_⟩,
    fun r hr => cellRow_composed hr, names_composed input.lines⟩
  rw [lineItemsBlock]
  dsimp only
  split
  · exact .inr rfl
  · exact .inl rfl

theorem StageRows.keys {lines : List DocLine} {header cells : List FieldResult}
    {block : FieldResult}
    (h : StageRows lines header block cells) (hlines : Numbered lines) :
    (header ++ block :: cells).filterMap (fun r => parseLineFieldName r.name) = cellKeys lines := by
  have hheader : header.filterMap (fun r => parseLineFieldName r.name) = [] :=
    List.filterMap_eq_nil_iff.mpr fun r hr => parse_headerField (h.header_rows r hr).1
  have hblock : parseLineFieldName block.name = none := by rw [h.block_name, parse_block]
  have hcells : cells.filterMap (fun r => parseLineFieldName r.name) =
      (lineItemResults lines).filterMap fun r => parseLineFieldName r.name := by
    have hnames := congrArg (List.filterMap parseLineFieldName) h.names
    rwa [List.filterMap_map, List.filterMap_map] at hnames
  rw [List.filterMap_append, hheader, List.nil_append, List.filterMap_cons, hblock]
  exact hcells.trans (keys_lineItemResults hlines)

end InvoiceOs.Extraction
