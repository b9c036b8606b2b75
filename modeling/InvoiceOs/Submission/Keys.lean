import InvoiceOs.Invoice.BatchSubmit
import InvoiceOs.Lib.Framing

/-! The keys of the permanent idempotency table. One column holds the keys of four families;
no text belongs to two of them, and within one a key names its parts. -/

namespace InvoiceOs

open Lib

theorem hexGroup_succ (n v : ℕ) :
    hexGroup (n + 1) v = Nat.digitChar (v / 16 ^ n % 16) :: hexGroup n v := by
  unfold hexGroup
  rw [List.range_succ, List.reverse_append, List.map_append]
  rfl

theorem length_hexGroup (n v : ℕ) : (hexGroup n v).length = n := by
  unfold hexGroup
  rw [List.length_map, List.length_reverse, List.length_range]

theorem digitChar_inj : ∀ a < 16, ∀ b < 16, Nat.digitChar a = Nat.digitChar b → a = b := by
  decide

theorem hexGroup_inj {n v w : ℕ} (h : hexGroup n v = hexGroup n w) : v % 16 ^ n = w % 16 ^ n := by
  induction n with
  | zero =>
    rw [pow_zero, Nat.mod_one, Nat.mod_one]
  | succ n ih =>
    rw [hexGroup_succ, hexGroup_succ, List.cons.injEq] at h
    have hdigit : v / 16 ^ n % 16 = w / 16 ^ n % 16 :=
      digitChar_inj _ (Nat.mod_lt _ (by decide)) _ (Nat.mod_lt _ (by decide)) h.1
    have hlow := ih h.2
    rw [Nat.mod_pow_succ, Nat.mod_pow_succ, hlow, hdigit]

def Uuid.chars (u : Uuid) : List Char :=
  hexGroup 8 (u.toNat / 16 ^ 24) ++ '-' :: hexGroup 4 (u.toNat / 16 ^ 20) ++
    '-' :: hexGroup 4 (u.toNat / 16 ^ 16) ++ '-' :: hexGroup 4 (u.toNat / 16 ^ 12) ++
      '-' :: hexGroup 12 u.toNat

theorem Uuid.text_toList (u : Uuid) : u.text.toList = u.chars := by
  unfold Uuid.text
  rw [String.toList_ofList]
  rfl

theorem hex_of_mem_hexGroup {n v : ℕ} {c : Char} (h : c ∈ hexGroup n v) :
    ∃ d < 16, c = Nat.digitChar d := by
  obtain ⟨i, -, rfl⟩ := List.mem_map.mp h
  exact ⟨_, Nat.mod_lt _ (by decide), rfl⟩

theorem hexGroup_no_colon (n v : ℕ) : ':' ∉ hexGroup n v := by
  intro hm
  obtain ⟨d, hd, hc⟩ := hex_of_mem_hexGroup hm
  have hnone : ∀ d < 16, ':' ≠ Nat.digitChar d := by decide
  exact hnone d hd hc

theorem Uuid.chars_no_colon (u : Uuid) : ':' ∉ u.chars := by
  have hdash : ':' ≠ '-' := by decide
  intro hm
  simp only [Uuid.chars, List.mem_append, List.mem_cons, hdash, false_or, hexGroup_no_colon] at hm

theorem Uuid.dash_mem_chars (u : Uuid) : '-' ∈ u.chars := by
  simp only [Uuid.chars, List.mem_append, List.mem_cons, true_or, or_true]

theorem Uuid.chars_inj {u v : Uuid} (h : u.chars = v.chars) : u = v := by
  unfold Uuid.chars at h
  simp only [List.append_assoc, List.cons_append] at h
  obtain ⟨h8, h⟩ := List.append_inj h (by rw [length_hexGroup, length_hexGroup])
  obtain ⟨h4, h⟩ := List.append_inj (List.cons.inj h).2 (by rw [length_hexGroup, length_hexGroup])
  obtain ⟨h4', h⟩ := List.append_inj (List.cons.inj h).2 (by rw [length_hexGroup, length_hexGroup])
  obtain ⟨h4'', h⟩ := List.append_inj (List.cons.inj h).2 (by rw [length_hexGroup, length_hexGroup])
  have hlow := hexGroup_inj (List.cons.inj h).2
  have h1 := hexGroup_inj h4''
  have h2 := hexGroup_inj h4'
  have h3 := hexGroup_inj h4
  have h5 := hexGroup_inj h8
  have hu := u.isLt
  have hv := v.isLt
  exact BitVec.eq_of_toNat_eq (by omega)

namespace Submission

def markerKey (riverID : ℕ) : String := "job:" ++ toString riverID

def pollKey (jobID : Uuid) (sequence : ℕ) : String :=
  "poll:" ++ jobID.text ++ ":" ++ toString sequence

def reconcilePollKey (jobID : Uuid) (attempts : ℕ) : String :=
  "reconcile-poll:" ++ jobID.text ++ ":" ++ toString attempts

/-! ### Text against text -/

theorem toString_toList (n : ℕ) : (toString n).toList = digits n := rfl

theorem markerKey_toList (n : ℕ) : (markerKey n).toList = "job".toList ++ ':' :: digits n := by
  unfold markerKey
  rw [String.toList_append]
  rfl

theorem pollKey_toList (j : Uuid) (s : ℕ) :
    (pollKey j s).toList = ("poll:".toList ++ j.chars) ++ ':' :: digits s := by
  unfold pollKey
  rw [String.toList_append, String.toList_append, String.toList_append, Uuid.text_toList,
    toString_toList, List.append_assoc]
  rfl

theorem reconcilePollKey_toList (j : Uuid) (a : ℕ) :
    (reconcilePollKey j a).toList = ("reconcile-poll:".toList ++ j.chars) ++ ':' :: digits a := by
  unfold reconcilePollKey
  rw [String.toList_append, String.toList_append, String.toList_append, Uuid.text_toList,
    toString_toList, List.append_assoc]
  rfl

theorem requestKey_toList (key : String) (i : Uuid) :
    (Invoice.deriveBatchSubmitKey key i).toList = key.toList ++ ':' :: i.chars := by
  unfold Invoice.deriveBatchSubmitKey
  rw [String.toList_append, String.toList_append, Uuid.text_toList, List.append_assoc]
  rfl

theorem last_segment_inj {as bs x y : List Char} (hx : ':' ∉ x) (hy : ':' ∉ y)
    (h : as ++ ':' :: x = bs ++ ':' :: y) : as = bs ∧ x = y := by
  have hrev := congrArg List.reverse h
  simp only [List.reverse_append, List.reverse_cons, List.append_assoc, List.cons_append,
    List.nil_append] at hrev
  obtain ⟨hxy, hab⟩ := append_sep_inj (fun hm => hx (List.mem_reverse.mp hm))
    (fun hm => hy (List.mem_reverse.mp hm)) hrev
  exact ⟨List.reverse_injective hab, List.reverse_injective hxy⟩

theorem digits_no_colon (n : ℕ) : ':' ∉ digits n := by
  intro hm
  exact absurd (isDigit_of_mem_digits hm) (by decide)

theorem digits_ne_chars (n : ℕ) (u : Uuid) : digits n ≠ u.chars := by
  intro h
  have hm : '-' ∈ digits n := h ▸ u.dash_mem_chars
  exact absurd (isDigit_of_mem_digits hm) (by decide)

theorem markerKey_inj {m n : ℕ} (h : markerKey m = markerKey n) : m = n := by
  have hl := congrArg String.toList h
  rw [markerKey_toList, markerKey_toList] at hl
  exact digits_inj (last_segment_inj (digits_no_colon m) (digits_no_colon n) hl).2

theorem pollKey_inj {i j : Uuid} {s t : ℕ} (h : pollKey i s = pollKey j t) : i = j ∧ s = t := by
  have hl := congrArg String.toList h
  rw [pollKey_toList, pollKey_toList] at hl
  obtain ⟨hij, hst⟩ := last_segment_inj (digits_no_colon s) (digits_no_colon t) hl
  exact ⟨Uuid.chars_inj (List.append_cancel_left hij), digits_inj hst⟩

theorem reconcilePollKey_inj {i j : Uuid} {a b : ℕ}
    (h : reconcilePollKey i a = reconcilePollKey j b) : i = j ∧ a = b := by
  have hl := congrArg String.toList h
  rw [reconcilePollKey_toList, reconcilePollKey_toList] at hl
  obtain ⟨hij, hab⟩ := last_segment_inj (digits_no_colon a) (digits_no_colon b) hl
  exact ⟨Uuid.chars_inj (List.append_cancel_left hij), digits_inj hab⟩

theorem requestKey_inj {k l : String} {i j : Uuid}
    (h : Invoice.deriveBatchSubmitKey k i = Invoice.deriveBatchSubmitKey l j) :
    k = l ∧ i = j := by
  have hl := congrArg String.toList h
  rw [requestKey_toList, requestKey_toList] at hl
  obtain ⟨hkl, hij⟩ := last_segment_inj i.chars_no_colon j.chars_no_colon hl
  exact ⟨String.toList_inj.mp hkl, Uuid.chars_inj hij⟩

/-! ### Family against family -/

theorem markerKey_ne_pollKey (n : ℕ) (j : Uuid) (s : ℕ) : markerKey n ≠ pollKey j s := by
  intro h
  have hl := congrArg String.toList h
  rw [markerKey_toList, pollKey_toList] at hl
  cases hl

theorem markerKey_ne_reconcilePollKey (n : ℕ) (j : Uuid) (a : ℕ) :
    markerKey n ≠ reconcilePollKey j a := by
  intro h
  have hl := congrArg String.toList h
  rw [markerKey_toList, reconcilePollKey_toList] at hl
  cases hl

theorem pollKey_ne_reconcilePollKey (i j : Uuid) (s a : ℕ) :
    pollKey i s ≠ reconcilePollKey j a := by
  intro h
  have hl := congrArg String.toList h
  rw [pollKey_toList, reconcilePollKey_toList] at hl
  cases hl

theorem requestKey_ne {k l : String} {i : Uuid} {as : List Char} {n : ℕ}
    (hl : l.toList = as ++ ':' :: digits n) : Invoice.deriveBatchSubmitKey k i ≠ l := by
  intro h
  have ht := congrArg String.toList h
  rw [requestKey_toList, hl] at ht
  exact digits_ne_chars n i (last_segment_inj i.chars_no_colon (digits_no_colon n) ht).2.symm

theorem requestKey_ne_markerKey (k : String) (i : Uuid) (n : ℕ) :
    Invoice.deriveBatchSubmitKey k i ≠ markerKey n := requestKey_ne (markerKey_toList n)

theorem requestKey_ne_pollKey (k : String) (i j : Uuid) (s : ℕ) :
    Invoice.deriveBatchSubmitKey k i ≠ pollKey j s := requestKey_ne (pollKey_toList j s)

theorem requestKey_ne_reconcilePollKey (k : String) (i j : Uuid) (a : ℕ) :
    Invoice.deriveBatchSubmitKey k i ≠ reconcilePollKey j a :=
  requestKey_ne (reconcilePollKey_toList j a)

end Submission
end InvoiceOs
