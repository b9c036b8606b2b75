import InvoiceOs.Invoice.Content
import InvoiceOs.Lib.Framing

/-! What the hashed stream tells apart: every header field can be read back off it, and the
lines follow the header at a place of their own. -/

namespace InvoiceOs.Invoice

open Lib

def fieldChars : Option String → List Char
  | none => ['N', ';']
  | some v => 'S' :: (digits (byteSize v.toList) ++ ':' :: (v.toList ++ [';']))

theorem writeFingerprintField_toList (f : Option String) :
    (writeFingerprintField f).toList = fieldChars f := by
  cases f with
  | none => rfl
  | some v =>
    simp only [writeFingerprintField, String.toList_append, byteSize_toList, fieldChars]
    simp [digits]

theorem fieldChars_framed : Framed fieldChars := by
  intro f g x y h
  cases f with
  | none =>
    cases g with
    | none =>
      cases h
      exact ⟨rfl, rfl⟩
    | some w => cases h
  | some v =>
    cases g with
    | none => cases h
    | some w =>
      simp only [fieldChars, List.cons_append, List.cons.injEq, true_and, List.append_assoc,
        List.nil_append] at h
      obtain ⟨hv, hrest⟩ := counted_inj (by decide) h
      cases hrest
      exact ⟨congrArg some (String.toList_inj.mp hv), rfl⟩

theorem concatFields_toList (fs : List (Option String)) :
    (concatFields fs).toList = fs.flatMap fieldChars := by
  induction fs with
  | nil => rfl
  | cons f fs ih =>
    rw [concatFields, String.toList_append, writeFingerprintField_toList, ih, List.flatMap_cons]

def nrsChars (i : ℕ) : List (Option String) → List Char
  | [] => []
  | none :: vals => nrsChars (i + 1) vals
  | some v :: vals => 'X' :: (digits i ++ ';' :: (fieldChars (some v) ++ nrsChars (i + 1) vals))

theorem writeNRSFingerprintFrom_toList (i : ℕ) (vals : List (Option String)) :
    (writeNRSFingerprintFrom i vals).toList = nrsChars i vals := by
  induction vals generalizing i with
  | nil => rfl
  | cons v vals ih =>
    cases v with
    | none => exact ih (i + 1)
    | some v =>
      simp only [writeNRSFingerprintFrom, String.toList_append, writeFingerprintField_toList, ih,
        nrsChars]
      simp [digits]

theorem nrsChars_start (i : ℕ) (vals : List (Option String)) (x : List Char) :
    nrsChars i vals ++ x = x ∨
      ∃ j rest, i ≤ j ∧ nrsChars i vals ++ x = 'X' :: (digits j ++ ';' :: rest) := by
  induction vals generalizing i with
  | nil => exact .inl rfl
  | cons v vals ih =>
    cases v with
    | none =>
      rcases ih (i + 1) with h | ⟨j, rest, hj, h⟩
      · exact .inl h
      · exact .inr ⟨j, rest, (Nat.le_succ i).trans hj, h⟩
    | some v =>
      refine .inr ⟨i, fieldChars (some v) ++ nrsChars (i + 1) vals ++ x, le_rfl, ?_⟩
      simp only [nrsChars, List.cons_append, List.append_assoc]

theorem nrsChars_ne_skipped {i : ℕ} {v : String} {vals vals' : List (Option String)}
    {x y : List Char} (hx : x.head? ≠ some 'X') :
    nrsChars (i + 1) vals ++ x ≠ nrsChars i (some v :: vals') ++ y := by
  intro h
  simp only [nrsChars, List.cons_append, List.append_assoc] at h
  rcases nrsChars_start (i + 1) vals x with hx' | ⟨j, rest, hj, hx'⟩
  · rw [hx'] at h
    rw [h] at hx
    exact hx rfl
  · rw [hx'] at h
    simp only [List.cons.injEq, true_and] at h
    obtain ⟨rfl, -⟩ := digits_sep_inj (by decide) h
    exact absurd hj (Nat.not_succ_le_self j)

theorem nrsChars_inj {i : ℕ} {vals vals' : List (Option String)} {x y : List Char}
    (hlen : vals.length = vals'.length) (hx : x.head? ≠ some 'X') (hy : y.head? ≠ some 'X')
    (h : nrsChars i vals ++ x = nrsChars i vals' ++ y) : vals = vals' ∧ x = y := by
  induction vals generalizing i vals' with
  | nil =>
    cases vals' with
    | nil => exact ⟨rfl, h⟩
    | cons v vals' => cases hlen
  | cons v vals ih =>
    cases vals' with
    | nil => cases hlen
    | cons w vals' =>
      have hlen' := Nat.succ.inj hlen
      cases v with
      | none =>
        cases w with
        | none =>
          obtain ⟨rfl, hxy⟩ := ih (i := i + 1) hlen' h
          exact ⟨rfl, hxy⟩
        | some w => exact absurd h (nrsChars_ne_skipped hx)
      | some v =>
        cases w with
        | none => exact absurd h.symm (nrsChars_ne_skipped hy)
        | some w =>
          simp only [nrsChars, List.cons_append, List.append_assoc, List.cons.injEq,
            true_and] at h
          obtain ⟨-, h⟩ := digits_sep_inj (by decide) h
          obtain ⟨hvw, h⟩ := fieldChars_framed _ _ _ _ h
          obtain ⟨rfl, hxy⟩ := ih (i := i + 1) hlen' h
          exact ⟨by rw [hvw], hxy⟩

def lineStream (lines : List LineItem) : List Char :=
  fieldChars (some (toString lines.length)) ++ (writeLines (sortLines lines)).toList

theorem fingerprintStream_toList (h : Header) (lines : List LineItem) :
    (fingerprintStream h lines).toList =
      h.fields.flatMap fieldChars ++ (nrsChars 0 h.nrs.values ++ lineStream lines) := by
  simp only [fingerprintStream, String.toList_append, concatFields_toList, writeNRSFingerprint,
    writeNRSFingerprintFrom_toList, writeFingerprintField_toList, lineStream, List.append_assoc]

theorem fingerprintStream_inj {h h' : Header} {lines lines' : List LineItem}
    (heq : fingerprintStream h lines = fingerprintStream h' lines') :
    h.fields = h'.fields ∧ h.nrs.values = h'.nrs.values ∧ lineStream lines = lineStream lines' := by
  have hlist := congrArg String.toList heq
  rw [fingerprintStream_toList, fingerprintStream_toList] at hlist
  have hhead : ∀ ls, (lineStream ls).head? ≠ some 'X' := by
    intro ls hX
    simp [lineStream, fieldChars] at hX
  have hfieldCount : h.fields.length = h'.fields.length := rfl
  have hvalueCount : h.nrs.values.length = h'.nrs.values.length := rfl
  obtain ⟨hfields, hrest⟩ := framed_sequence fieldChars_framed hfieldCount hlist
  obtain ⟨hvalues, hlines⟩ := nrsChars_inj hvalueCount (hhead lines) (hhead lines') hrest
  exact ⟨hfields, hvalues, hlines⟩

theorem fingerprintStream_congr {h h' : Header} {lines lines' : List LineItem}
    (hfields : h.fields = h'.fields) (hvalues : h.nrs.values = h'.nrs.values)
    (hlines : lineStream lines = lineStream lines') :
    fingerprintStream h lines = fingerprintStream h' lines' := by
  refine String.toList_inj.mp ?_
  rw [fingerprintStream_toList, fingerprintStream_toList, hfields, hvalues, hlines]

/-! ### Amounts -/

theorem twoDigits_inj {m n : ℕ} (h : digits (m % 100 / 10) ++ digits (m % 10) =
    digits (n % 100 / 10) ++ digits (n % 10)) : m % 100 = n % 100 := by
  have hone : ∀ {k}, k < 10 → ∃ c, digits k = [c] := by
    intro k hk
    rw [digits_eq, Nat.toDigits_of_lt_base hk]
    exact ⟨_, rfl⟩
  obtain ⟨a, ha⟩ := hone (k := m % 100 / 10) (by omega)
  obtain ⟨b, hb⟩ := hone (k := m % 10) (by omega)
  obtain ⟨c, hc⟩ := hone (k := n % 100 / 10) (by omega)
  obtain ⟨d, hd⟩ := hone (k := n % 10) (by omega)
  rw [ha, hb, hc, hd] at h
  cases h
  have htens : m % 100 / 10 = n % 100 / 10 := digits_inj (ha.trans hc.symm)
  have hones : m % 10 = n % 10 := digits_inj (hb.trans hd.symm)
  omega

def magnitudeChars (n : ℕ) : List Char :=
  digits (n / 100) ++ '.' :: (digits (n % 100 / 10) ++ digits (n % 10))

theorem magnitudeChars_inj {m n : ℕ} (h : magnitudeChars m = magnitudeChars n) : m = n := by
  obtain ⟨hwhole, hcents⟩ := digits_sep_inj (by decide) h
  have hrest := twoDigits_inj hcents
  omega

theorem text_toList_hundredths (n : ℤ) : (Numeric.text (.hundredths n)).toList =
    (if n < 0 then ['-'] else []) ++ magnitudeChars n.natAbs := by
  simp only [Numeric.text, String.toList_append, magnitudeChars, digits]
  split <;> simp

theorem magnitudeChars_head {n : ℕ} {c : Char} {rest : List Char}
    (h : magnitudeChars n = c :: rest) : c.isDigit = true := by
  obtain ⟨d, ds, hd⟩ := List.exists_cons_of_ne_nil (digits_ne_nil (n / 100))
  unfold magnitudeChars at h
  rw [hd, List.cons_append] at h
  cases h
  refine isDigit_of_mem_digits (n := n / 100) ?_
  rw [hd]
  exact List.mem_cons_self

theorem text_inj {a b : Numeric} (h : a.text = b.text) : a = b := by
  have hlist := congrArg String.toList h
  have hnan : ∀ n : ℤ, (Numeric.text (.hundredths n)).toList ≠ (Numeric.text .nan).toList := by
    intro n hn
    rw [text_toList_hundredths] at hn
    split at hn
    · cases hn
    · have hd := magnitudeChars_head hn
      cases hd
  cases a with
  | nan =>
    cases b with
    | nan => rfl
    | hundredths n => exact absurd hlist.symm (hnan n)
  | hundredths m =>
    cases b with
    | nan => exact absurd hlist (hnan m)
    | hundredths n =>
      rw [text_toList_hundredths, text_toList_hundredths] at hlist
      have hsign : (m < 0 ↔ n < 0) ∧ m.natAbs = n.natAbs := by
        split at hlist <;> split at hlist
        · rename_i hm hn
          exact ⟨iff_of_true hm hn, magnitudeChars_inj (List.cons.inj hlist).2⟩
        · have hd := magnitudeChars_head hlist.symm
          cases hd
        · have hd := magnitudeChars_head hlist
          cases hd
        · rename_i hm hn
          exact ⟨iff_of_false hm hn, magnitudeChars_inj hlist⟩
      have hmn : m = n := by omega
      rw [hmn]

theorem fingerprintStream_total {h h' : Header} {lines lines' : List LineItem}
    (heq : fingerprintStream h lines = fingerprintStream h' lines') : h.total = h'.total := by
  have hfields := (fingerprintStream_inj heq).1
  simp only [Header.fields, List.cons.injEq] at hfields
  have htotal : h.total.map Numeric.text = h'.total.map Numeric.text := by tauto
  exact Option.map_injective (fun _ _ => text_inj) htotal

end InvoiceOs.Invoice
