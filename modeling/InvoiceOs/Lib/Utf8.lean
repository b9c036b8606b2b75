import Mathlib.Data.List.Basic

/-! UTF-8 as bytes: the sequences that encode a character, the cut of a text into them, the
repair of a text with others, and a cut at a length that leaves no sequence broken. -/

namespace InvoiceOs.Lib.Utf8

/-- The bytes that follow a lead byte: how many, and the range of the first. -/
def lead (c : UInt8) : Option (ℕ × UInt8 × UInt8) :=
  if c < 0x80 then some (0, 0x80, 0xBF)
  else if c < 0xC2 then none
  else if c < 0xE0 then some (1, 0x80, 0xBF)
  else if c = 0xE0 then some (2, 0xA0, 0xBF)
  else if c = 0xED then some (2, 0x80, 0x9F)
  else if c < 0xF0 then some (2, 0x80, 0xBF)
  else if c = 0xF0 then some (3, 0x90, 0xBF)
  else if c < 0xF4 then some (3, 0x80, 0xBF)
  else if c = 0xF4 then some (3, 0x80, 0x8F)
  else none

def isContinuation (c : UInt8) : Bool := 0x80 ≤ c && c ≤ 0xBF

def continues (low high : UInt8) : List UInt8 → Bool
  | [] => true
  | c :: s => low ≤ c && c ≤ high && s.all isContinuation

def isRune : List UInt8 → Bool
  | [] => false
  | c :: s => match lead c with
    | none => false
    | some (n, low, high) => s.length = n && continues low high s

def decode : List UInt8 → Option (List UInt8 × List UInt8)
  | [] => none
  | c :: s => match lead c with
    | none => none
    | some (n, low, high) =>
      if (s.take n).length = n && continues low high (s.take n) then some (c :: s.take n, s.drop n)
      else none

theorem of_decode {s r t : List UInt8} (h : decode s = some (r, t)) :
    s = r ++ t ∧ isRune r = true := by
  cases s with
  | nil => cases h
  | cons c s =>
    unfold decode at h
    cases hlead : lead c with
    | none =>
      simp only [hlead] at h
      cases h
    | some range =>
      obtain ⟨n, low, high⟩ := range
      simp only [hlead] at h
      split at h
      · rename_i hrest
        cases h
        refine ⟨by rw [List.cons_append, List.take_append_drop], ?_⟩
        simp only [isRune, hlead]
        exact hrest
      · cases h

theorem isRune_cons {c : UInt8} {s : List UInt8} (h : isRune (c :: s) = true) :
    ∃ low high, lead c = some (s.length, low, high) ∧ continues low high s = true := by
  unfold isRune at h
  cases hlead : lead c with
  | none =>
    simp only [hlead] at h
    cases h
  | some range =>
    obtain ⟨n, low, high⟩ := range
    simp only [hlead, Bool.and_eq_true, decide_eq_true_eq] at h
    obtain ⟨rfl, hrest⟩ := h
    exact ⟨low, high, rfl, hrest⟩

theorem decode_append {r : List UInt8} (hr : isRune r = true) (t : List UInt8) :
    decode (r ++ t) = some (r, t) := by
  cases r with
  | nil => cases hr
  | cons c s =>
    obtain ⟨low, high, hlead, hrest⟩ := isRune_cons hr
    have htake : (s ++ t).take s.length = s := List.take_left
    have hdrop : (s ++ t).drop s.length = t := List.drop_left
    simp only [List.cons_append, decode, hlead, htake, hdrop, hrest, decide_true, Bool.and_self,
      if_true]

theorem isRune_ne_nil {r : List UInt8} (hr : isRune r = true) : r ≠ [] := by
  rintro rfl
  cases hr

/-- A character, or a byte that is part of none. -/
inductive Chunk where
  | rune (bytes : List UInt8)
  | invalid (c : UInt8)

def chunks : List UInt8 → List Chunk
  | [] => []
  | c :: s => match _h : decode (c :: s) with
    | some (r, t) => .rune r :: chunks t
    | none => .invalid c :: chunks s
termination_by s => s.length
decreasing_by
  · obtain ⟨hs, hr⟩ := of_decode _h
    have hpos := List.length_pos_iff.mpr (isRune_ne_nil hr)
    rw [hs, List.length_append]
    omega
  · exact Nat.lt_succ_self _

def Chunk.isRune : Chunk → Bool
  | .rune _ => true
  | .invalid _ => false

def validString (s : List UInt8) : Bool := (chunks s).all Chunk.isRune

def repair (replacement : List UInt8) : Bool → List Chunk → List UInt8
  | _, [] => []
  | _, .rune r :: cs => r ++ repair replacement false cs
  | invalid, .invalid _ :: cs =>
    (if invalid then [] else replacement) ++ repair replacement true cs

def toValidUTF8 (s replacement : List UInt8) : List UInt8 := repair replacement false (chunks s)

def runeStart (c : UInt8) : Bool := c &&& 0xC0 != 0x80

theorem chunks_append {r : List UInt8} (hr : isRune r = true) (t : List UInt8) :
    chunks (r ++ t) = .rune r :: chunks t := by
  obtain ⟨c, s, rfl⟩ := List.exists_cons_of_ne_nil (isRune_ne_nil hr)
  rw [List.cons_append, chunks]
  split
  · rename_i r' t' h
    rw [← List.cons_append, decode_append hr] at h
    obtain ⟨rfl, rfl⟩ := Prod.mk.inj (Option.some.inj h)
    rfl
  · rename_i h
    rw [← List.cons_append, decode_append hr] at h
    cases h

theorem chunks_flatten {runes : List (List UInt8)} (h : ∀ r ∈ runes, isRune r = true) :
    chunks runes.flatten = runes.map .rune := by
  induction runes with
  | nil => simp only [List.flatten_nil, chunks, List.map_nil]
  | cons r runes ih =>
    rw [List.flatten_cons, chunks_append (h r List.mem_cons_self),
      ih fun r' hr' => h r' (List.mem_cons_of_mem _ hr'), List.map_cons]

def Valid (s : List UInt8) : Prop :=
  ∃ runes : List (List UInt8), (∀ r ∈ runes, isRune r = true) ∧ s = runes.flatten

theorem valid_of_validString {s : List UInt8} (h : validString s = true) : Valid s := by
  induction hn : s.length using Nat.strongRecOn generalizing s with
  | ind n ih =>
    cases s with
    | nil => exact ⟨[], nofun, rfl⟩
    | cons c s =>
      unfold validString at h
      rw [chunks] at h
      split at h
      · rename_i r t hdecode
        obtain ⟨hs, hr⟩ := of_decode hdecode
        have hshort : t.length < n := by
          have hpos := List.length_pos_iff.mpr (isRune_ne_nil hr)
          rw [← hn, hs, List.length_append]
          omega
        obtain ⟨runes, hrunes, ht⟩ := ih t.length hshort (Bool.and_eq_true _ _ ▸ h).2 rfl
        refine ⟨r :: runes, fun r' hr' => ?_, by rw [hs, ht, List.flatten_cons]⟩
        obtain rfl | hr' := List.mem_cons.mp hr'
        · exact hr
        · exact hrunes r' hr'
      · cases h

theorem validString_iff {s : List UInt8} : validString s = true ↔ Valid s := by
  refine ⟨valid_of_validString, ?_⟩
  rintro ⟨runes, hrunes, rfl⟩
  rw [validString, chunks_flatten hrunes, List.all_map]
  exact List.all_eq_true.mpr fun _ _ => rfl

theorem mem_chunks {s : List UInt8} : ∀ c ∈ chunks s,
    match c with
    | .rune r => isRune r = true ∧ ∀ b ∈ r, b ∈ s
    | .invalid b => b ∈ s := by
  induction hn : s.length using Nat.strongRecOn generalizing s with
  | ind n ih =>
    cases s with
    | nil =>
      rw [chunks]
      exact nofun
    | cons c s =>
      rw [chunks]
      split
      · rename_i r t hdecode
        obtain ⟨hs, hr⟩ := of_decode hdecode
        have hshort : t.length < n := by
          have hpos := List.length_pos_iff.mpr (isRune_ne_nil hr)
          rw [← hn, hs, List.length_append]
          omega
        intro chunk hchunk
        rw [hs]
        obtain rfl | hchunk := List.mem_cons.mp hchunk
        · exact ⟨hr, fun b hb => List.mem_append_left t hb⟩
        · have h := ih t.length hshort rfl chunk hchunk
          cases chunk with
          | rune r' => exact ⟨h.1, fun b hb => List.mem_append_right r (h.2 b hb)⟩
          | invalid b => exact List.mem_append_right r h
      · intro chunk hchunk
        obtain rfl | hchunk := List.mem_cons.mp hchunk
        · exact List.mem_cons_self
        · have h := ih s.length (hn ▸ Nat.lt_succ_self _) rfl chunk hchunk
          cases chunk with
          | rune r' => exact ⟨h.1, fun b hb => List.mem_cons_of_mem c (h.2 b hb)⟩
          | invalid b => exact List.mem_cons_of_mem c h

theorem repair_runes (replacement : List UInt8) (hreplacement : isRune replacement = true) :
    ∀ (cs : List Chunk) (invalid : Bool), (∀ r, .rune r ∈ cs → isRune r = true) →
      ∃ runes : List (List UInt8), (∀ r ∈ runes, isRune r = true ∧ (r = replacement ∨ .rune r ∈ cs)) ∧
        repair replacement invalid cs = runes.flatten := by
  intro cs
  induction cs with
  | nil => exact fun _ _ => ⟨[], nofun, rfl⟩
  | cons chunk cs ih =>
    intro invalid hcs
    have hrest : ∀ r, .rune r ∈ cs → isRune r = true := fun r hr =>
      hcs r (List.mem_cons_of_mem _ hr)
    have hlift : ∀ {r}, isRune r = true ∧ (r = replacement ∨ .rune r ∈ cs) →
        isRune r = true ∧ (r = replacement ∨ .rune r ∈ chunk :: cs) := fun h =>
      ⟨h.1, h.2.imp_right (List.mem_cons_of_mem _)⟩
    cases chunk with
    | rune r =>
      obtain ⟨runes, hrunes, heq⟩ := ih false hrest
      refine ⟨r :: runes, fun r' hr' => ?_, by rw [repair, heq, List.flatten_cons]⟩
      obtain rfl | hr' := List.mem_cons.mp hr'
      · exact ⟨hcs _ List.mem_cons_self, .inr List.mem_cons_self⟩
      · exact hlift (hrunes r' hr')
    | invalid c =>
      obtain ⟨runes, hrunes, heq⟩ := ih true hrest
      cases invalid with
      | true =>
        exact ⟨runes, fun r hr => hlift (hrunes r hr), by rw [repair, heq]; rfl⟩
      | false =>
        refine ⟨replacement :: runes, fun r hr => ?_, by rw [repair, heq]; rfl⟩
        obtain rfl | hr := List.mem_cons.mp hr
        · exact ⟨hreplacement, .inl rfl⟩
        · exact hlift (hrunes r hr)

theorem toValidUTF8_of_valid {s : List UInt8} (h : Valid s) (replacement : List UInt8) :
    toValidUTF8 s replacement = s := by
  obtain ⟨runes, hrunes, rfl⟩ := h
  unfold toValidUTF8
  rw [chunks_flatten hrunes]
  clear hrunes
  induction runes with
  | nil => rfl
  | cons r runes ih => rw [List.map_cons, repair, ih, List.flatten_cons]

/-! ### Cuts -/

theorem runeStart_eq (c : UInt8) : runeStart c = !isContinuation c := by
  obtain ⟨c⟩ := c
  revert c
  decide +kernel

theorem lead_bounds (c : UInt8) : (lead c).all (fun range => !isContinuation c && range.1 ≤ 3 &&
    0x80 ≤ range.2.1 && range.2.2 ≤ 0xBF) = true := by
  obtain ⟨c⟩ := c
  revert c
  decide +kernel

theorem isRune_bytes {c : UInt8} {s : List UInt8} (h : isRune (c :: s) = true) :
    runeStart c = true ∧ (∀ b ∈ s, runeStart b = false) ∧ s.length ≤ 3 := by
  obtain ⟨low, high, hlead, hrest⟩ := isRune_cons h
  have hbounds := lead_bounds c
  simp only [hlead, Option.all_some, Bool.and_eq_true, Bool.not_eq_true', decide_eq_true_eq] at hbounds
  obtain ⟨⟨⟨hstart, hlength⟩, hlow⟩, hhigh⟩ := hbounds
  refine ⟨by rw [runeStart_eq, hstart]; rfl, fun b hb => ?_, hlength⟩
  have hb : isContinuation b = true := by
    cases s with
    | nil => cases hb
    | cons b₀ s =>
      simp only [continues, Bool.and_eq_true, decide_eq_true_eq, List.all_eq_true] at hrest
      obtain ⟨⟨hfrom, hto⟩, hall⟩ := hrest
      obtain rfl | hb := List.mem_cons.mp hb
      · simp only [isContinuation, Bool.and_eq_true, decide_eq_true_eq]
        exact ⟨UInt8.le_trans hlow hfrom, UInt8.le_trans hto hhigh⟩
      · exact hall b hb
  rw [runeStart_eq, hb]
  rfl

def cutBack (s : List UInt8) : ℕ → ℕ
  | 0 => 0
  | cut + 1 => if s[cut + 1]?.all runeStart then cut + 1 else cutBack s cut

theorem cutBack_eq {s : List UInt8} {start : ℕ} (hstart : s[start]?.all runeStart = true) :
    ∀ cut, start ≤ cut → (∀ i, start < i → i ≤ cut → s[i]?.all runeStart = false) →
      cutBack s cut = start
  | 0, hle, _ => (Nat.le_zero.mp hle).symm
  | cut + 1, hle, hrest => by
    unfold cutBack
    by_cases heq : start = cut + 1
    · rw [← heq, if_pos hstart]
    · rw [hrest (cut + 1) (by omega) (Nat.le_refl _), if_neg Bool.false_ne_true]
      exact cutBack_eq hstart cut (by omega) fun i hi hcut => hrest i hi (by omega)

theorem exists_rune_at {runes : List (List UInt8)} : ∀ {n : ℕ}, n < runes.flatten.length →
    ∃ before r after, runes = before ++ r :: after ∧ before.flatten.length ≤ n ∧
      n < before.flatten.length + r.length := by
  induction runes with
  | nil => exact fun hn => absurd hn (Nat.not_lt_zero _)
  | cons r runes ih =>
    intro n hn
    by_cases hfirst : n < r.length
    · exact ⟨[], r, runes, rfl, Nat.zero_le _, by simpa using hfirst⟩
    · rw [List.flatten_cons, List.length_append] at hn
      obtain ⟨before, r', after, rfl, hle, hlt⟩ := ih (n := n - r.length) (by omega)
      refine ⟨r :: before, r', after, rfl, ?_, ?_⟩
      · rw [List.flatten_cons, List.length_append]
        omega
      · rw [List.flatten_cons, List.length_append]
        omega

theorem take_cutBack {runes : List (List UInt8)} (hrunes : ∀ r ∈ runes, isRune r = true) {cut : ℕ}
    (hcut : cut < runes.flatten.length) :
    ∃ before r after, runes = before ++ r :: after ∧
      runes.flatten.take (cutBack runes.flatten cut) = before.flatten ∧
      before.flatten.length ≤ cut ∧ cut < before.flatten.length + r.length ∧ r.length ≤ 4 := by
  obtain ⟨before, r, after, rfl, hle, hlt⟩ := exists_rune_at hcut
  have hr := hrunes r (List.mem_append_right _ List.mem_cons_self)
  obtain ⟨c, s, rfl⟩ := List.exists_cons_of_ne_nil (isRune_ne_nil hr)
  obtain ⟨hstart, hrest, hlength⟩ := isRune_bytes hr
  have htext : (before ++ (c :: s) :: after).flatten = before.flatten ++ (c :: s ++ after.flatten) := by
    rw [List.flatten_append, List.flatten_cons]
  have hat : ∀ i, i < (c :: s).length →
      (before ++ (c :: s) :: after).flatten[before.flatten.length + i]? = (c :: s)[i]? := by
    intro i hi
    rw [htext, List.getElem?_append_right (Nat.le_add_right _ _), Nat.add_sub_cancel_left,
      List.getElem?_append_left hi]
  have hcutBack : cutBack (before ++ (c :: s) :: after).flatten cut = before.flatten.length := by
    refine cutBack_eq ?_ cut hle fun i hi hicut => ?_
    · have h := hat 0 (Nat.succ_pos _)
      rw [Nat.add_zero] at h
      rw [h]
      exact hstart
    · obtain ⟨j, rfl⟩ : ∃ j, i = before.flatten.length + (j + 1) :=
        ⟨i - before.flatten.length - 1, by omega⟩
      have hj : j < s.length := by
        rw [List.length_cons] at hlt
        omega
      rw [hat (j + 1) (Nat.succ_lt_succ hj), List.getElem?_cons_succ, List.getElem?_eq_getElem hj]
      exact hrest _ (List.getElem_mem hj)
  refine ⟨before, c :: s, after, rfl, ?_, hle, hlt, Nat.succ_le_succ hlength⟩
  rw [hcutBack, htext, List.take_left]

end InvoiceOs.Lib.Utf8
