import InvoiceOs.Audit.Filter
import InvoiceOs.Lib.Base64
import InvoiceOs.Lib.Refusal
import InvoiceOs.Lib.Timestamp

/-! The text of a page position: a timestamp and an id around one bar, in base64. -/

namespace InvoiceOs.Audit

open Lib

/-! ### Integers of 64 bits -/

def formatInt (n : ℤ) : List Char := (if n < 0 then ['-'] else []) ++ digits n.natAbs

def readDigits (ds : List Char) : Option ℕ :=
  if ds ≠ [] ∧ ds.all Char.isDigit then some (Timestamp.value ds) else none

def parseInt : List Char → Option ℤ
  | '-' :: s => (readDigits s).bind fun n => if n ≤ 2 ^ 63 then some (-n) else none
  | '+' :: s => (readDigits s).bind fun n => if n < 2 ^ 63 then some (n : ℤ) else none
  | s => (readDigits s).bind fun n => if n < 2 ^ 63 then some (n : ℤ) else none

def IsInt64 (n : ℤ) : Prop := -2 ^ 63 ≤ n ∧ n < 2 ^ 63

instance (n : ℤ) : Decidable (IsInt64 n) := inferInstanceAs (Decidable (_ ∧ _))

/-! ### The cursor -/

inductive CursorErr where
  | empty
  | base64
  | fields (n : ℕ)
  | timestamp
  | id
  deriving DecidableEq

def encodeCursor (createdAt : Timestamp) (id : ℤ) : List Char :=
  Base64.encode ((createdAt.format ++ '|' :: formatInt id).map Char.toNat)

/-- A byte of the decoded text is looked at as a character of its own. -/
def decodeCursor (s : List Char) : Except CursorErr (Timestamp × ℤ) :=
  if s = [] then throw .empty
  else
    match Base64.decode s with
    | none => throw .base64
    | some raw =>
      match (raw.map Char.ofNat).splitOn '|' with
      | [createdAt, id] =>
        match Timestamp.parse createdAt, parseInt id with
        | some t, some n => pure (t, n)
        | none, _ => throw .timestamp
        | some _, none => throw .id
      | parts => throw (.fields parts.length)

/-! ### The integer's text -/

theorem readDigits_digits (n : ℕ) : readDigits (digits n) = some n := by
  have hdigits : (digits n).all Char.isDigit = true :=
    List.all_eq_true.mpr fun c hc => isDigit_of_mem_digits hc
  have hvalue : Timestamp.value (digits n) = n := by
    rw [Timestamp.value, digits_eq]
    exact Nat.ofDigitChars_ten_toDigits
  rw [readDigits, if_pos ⟨digits_ne_nil n, hdigits⟩, hvalue]

theorem parseInt_formatInt {n : ℤ} (h : IsInt64 n) : parseInt (formatInt n) = some n := by
  obtain ⟨hlow, hhigh⟩ := h
  rw [formatInt]
  split
  · have hread : parseInt (['-'] ++ digits n.natAbs) =
        (readDigits (digits n.natAbs)).bind fun n => if n ≤ 2 ^ 63 then some (-n : ℤ) else none := rfl
    have hsmall : n.natAbs ≤ 2 ^ 63 := by omega
    rw [hread, readDigits_digits, Option.bind_some, if_pos hsmall]
    congr 1
    omega
  · have hsign : ∀ c ∈ digits n.natAbs, c ≠ '-' ∧ c ≠ '+' := by
      intro c hc
      have hdigit := isDigit_of_mem_digits hc
      constructor
      · rintro rfl
        exact absurd hdigit (by decide)
      · rintro rfl
        exact absurd hdigit (by decide)
    have hsmall : n.natAbs < 2 ^ 63 := by omega
    have hread := readDigits_digits n.natAbs
    rw [List.nil_append]
    generalize digits n.natAbs = ds at hsign hread
    unfold parseInt
    split
    · exact absurd rfl (hsign '-' List.mem_cons_self).1
    · exact absurd rfl (hsign '+' List.mem_cons_self).2
    · rw [hread, Option.bind_some, if_pos hsmall]
      congr 1
      omega

theorem isInt64_of_parseInt {s : List Char} {n : ℤ} (h : parseInt s = some n) : IsInt64 n := by
  unfold parseInt at h
  split at h
  · obtain ⟨m, -, h⟩ := Option.bind_eq_some_iff.mp h
    split at h
    · obtain rfl := Option.some.inj h
      constructor
      · omega
      · omega
    · cases h
  · obtain ⟨m, -, h⟩ := Option.bind_eq_some_iff.mp h
    split at h
    · obtain rfl := Option.some.inj h
      constructor
      · omega
      · omega
    · cases h
  · obtain ⟨m, -, h⟩ := Option.bind_eq_some_iff.mp h
    split at h
    · obtain rfl := Option.some.inj h
      constructor
      · omega
      · omega
    · cases h

/-! ### One bar -/

theorem splitOn_length_pos (s : List Char) : 0 < (s.splitOn '|').length :=
  List.length_pos_iff.mpr (List.splitOn_ne_nil _ _)

theorem no_bar {s : List Char} (h : (s.splitOn '|').length = 1) : '|' ∉ s := by
  intro hbar
  obtain ⟨a, b, rfl⟩ := List.append_of_mem hbar
  rw [List.splitOn_append_cons_self, List.length_append] at h
  have ha := splitOn_length_pos a
  have hb := splitOn_length_pos b
  omega

theorem splitOn_two {s a b : List Char} :
    s.splitOn '|' = [a, b] ↔ s = a ++ '|' :: b ∧ '|' ∉ a ∧ '|' ∉ b := by
  constructor
  · intro h
    have hs : s = a ++ '|' :: b := by
      have hback : ['|'].intercalate (s.splitOn '|') = s := List.intercalate_splitOn '|'
      rw [h] at hback
      simpa [List.intercalate] using hback.symm
    have hsplit := h
    rw [hs, List.splitOn_append_cons_self] at hsplit
    have hlength := congrArg List.length hsplit
    rw [List.length_append, List.length_cons, List.length_singleton] at hlength
    have ha := splitOn_length_pos a
    have hb := splitOn_length_pos b
    exact ⟨hs, no_bar (by omega), no_bar (by omega)⟩
  · rintro ⟨rfl, ha, hb⟩
    rw [List.splitOn_append_cons_self_of_not_mem ha, List.splitOn_eq_singleton hb]

/-! ### The text and its reader -/

theorem plain_formatInt (n : ℤ) : (formatInt n).all Timestamp.isPlain = true := by
  have hdigits : (digits n.natAbs).all Timestamp.isPlain = true := by
    refine List.all_eq_true.mpr fun c hc => ?_
    rw [Timestamp.isPlain, isDigit_of_mem_digits hc, Bool.true_or]
  rw [formatInt, List.all_append, hdigits]
  split
  · rfl
  · rfl

theorem no_bar_of_plain {s : List Char} (h : s.all Timestamp.isPlain = true) : '|' ∉ s := by
  intro hbar
  have hplain := List.all_eq_true.mp h '|' hbar
  exact absurd hplain (by decide)

theorem byte_of_plain {c : Char} (h : Timestamp.isPlain c = true) : c.toNat < 256 := by
  rw [Timestamp.isPlain, Bool.or_eq_true] at h
  obtain hdigit | hsign := h
  · simp only [Char.isDigit, Bool.and_eq_true, decide_eq_true_eq] at hdigit
    have hcode : c.val.toNat ≤ '9'.val.toNat := hdigit.2
    have hnine : '9'.val.toNat = 57 := rfl
    rw [Char.toNat]
    omega
  · simp only [List.contains_cons, List.contains_nil, Bool.or_false, Bool.or_eq_true,
      beq_iff_eq] at hsign
    obtain rfl | rfl | rfl | rfl | rfl | rfl := hsign <;> decide

theorem decodeCursor_ok {s : List Char} {t : Timestamp} {n : ℤ} :
    decodeCursor s = .ok (t, n) ↔ ∃ raw a b, Base64.decode s = some raw ∧
      raw.map Char.ofNat = a ++ '|' :: b ∧ '|' ∉ a ∧ '|' ∉ b ∧
      Timestamp.parse a = some t ∧ parseInt b = some n := by
  constructor
  · intro h
    obtain ⟨-, h⟩ := check_eq_ok.mp h
    split at h
    · cases h
    · rename_i raw hraw
      split at h
      · rename_i a b hparts
        obtain ⟨hs, ha, hb⟩ := splitOn_two.mp hparts
        split at h
        · rename_i t' n' ht hn
          cases h
          exact ⟨raw, a, b, hraw, hs, ha, hb, ht, hn⟩
        · cases h
        · cases h
      · cases h
  · rintro ⟨raw, a, b, hraw, hs, ha, hb, ht, hn⟩
    have hne : s ≠ [] := by
      rintro rfl
      have hnil : raw = [] := (Option.some.inj hraw).symm
      rw [hnil] at hs
      exact absurd hs.symm (by simp)
    refine check_eq_ok.mpr ⟨hne, ?_⟩
    rw [hraw]
    dsimp only
    rw [splitOn_two.mpr ⟨hs, ha, hb⟩]
    dsimp only
    rw [ht, hn]
    rfl

theorem decodeCursor_encodeCursor_iff {t : Timestamp} {n : ℤ} (h : t.Valid)
    (hyear : 0 ≤ t.year ∧ t.year ≤ 9999) (hn : IsInt64 n) :
    decodeCursor (encodeCursor t n) = .ok (t, n) ↔ Timestamp.WholeMinutes t.offset := by
  have hplain : ∀ c ∈ t.format ++ '|' :: formatInt n, c.toNat < 256 := by
    intro c hc
    obtain hc | hc := List.mem_append.mp hc
    · exact byte_of_plain (List.all_eq_true.mp t.plain_format c hc)
    · obtain rfl | hc := List.mem_cons.mp hc
      · decide
      · exact byte_of_plain (List.all_eq_true.mp (plain_formatInt n) c hc)
  have hbytes : ∀ b ∈ (t.format ++ '|' :: formatInt n).map Char.toNat, b < 256 := by
    intro b hb
    obtain ⟨c, hc, rfl⟩ := List.mem_map.mp hb
    exact hplain c hc
  have hchars : ((t.format ++ '|' :: formatInt n).map Char.toNat).map Char.ofNat =
      t.format ++ '|' :: formatInt n := by
    rw [List.map_map]
    exact (List.map_congr_left fun c _ => Char.ofNat_toNat c).trans (List.map_id _)
  rw [← Timestamp.parse_format_iff h hyear, decodeCursor_ok]
  constructor
  · rintro ⟨raw, a, b, hraw, htext, ha, hb, ht, -⟩
    obtain rfl := Option.some.inj ((Base64.decode_encode hbytes).symm.trans hraw)
    rw [hchars] at htext
    have hparts := splitOn_two.mpr ⟨htext, ha, hb⟩
    rw [splitOn_two.mpr ⟨rfl, no_bar_of_plain t.plain_format, no_bar_of_plain (plain_formatInt n)⟩]
      at hparts
    rw [(List.cons.inj hparts).1]
    exact ht
  · intro hparse
    exact ⟨_, t.format, formatInt n, Base64.decode_encode hbytes, hchars,
      no_bar_of_plain t.plain_format, no_bar_of_plain (plain_formatInt n), hparse,
      parseInt_formatInt hn⟩

end InvoiceOs.Audit
