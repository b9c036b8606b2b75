import Mathlib.Data.Finset.Card
import Mathlib.Data.List.AList
import Mathlib.Algebra.BigOperators.Group.List.Basic
import Mathlib.Algebra.Order.Monoid.Unbundled.Basic

/-! Database tables: rows under distinct primary keys, with the read and write laws of
`SELECT`, `INSERT`, `UPDATE ... WHERE id` and `UPDATE ... WHERE`. -/

namespace InvoiceOs.Lib

/-- Rows under distinct keys; `AList` carries the distinctness. -/
def Table (κ ρ : Type*) := AList fun _ : κ => ρ

namespace Table

variable {κ ρ : Type*}

def empty : Table κ ρ := (∅ : AList fun _ : κ => ρ)

instance : EmptyCollection (Table κ ρ) := ⟨empty⟩
instance : Inhabited (Table κ ρ) := ⟨∅⟩

def rows (t : Table κ ρ) : List (κ × ρ) := (AList.entries t).map fun e => (e.1, e.2)

def mapRows (t : Table κ ρ) (f : κ → ρ → ρ) : Table κ ρ :=
  ⟨(AList.entries t).map fun e => ⟨e.1, f e.1 e.2⟩, by
    have h : (((AList.entries t).map fun e => (⟨e.1, f e.1 e.2⟩ : Σ _ : κ, ρ)).map Sigma.fst) =
        (AList.entries t).map Sigma.fst := by
      rw [List.map_map]
      rfl
    unfold List.NodupKeys List.keys
    rw [h]
    exact t.nodupKeys⟩

variable [DecidableEq κ]

def get? (t : Table κ ρ) (k : κ) : Option ρ := AList.lookup k t

def set (t : Table κ ρ) (k : κ) (r : ρ) : Table κ ρ := AList.insert k r t

def modify (t : Table κ ρ) (k : κ) (f : ρ → ρ) : Table κ ρ :=
  match t.get? k with
  | some r => t.set k (f r)
  | none => t

@[simp] theorem get?_empty (k : κ) : (∅ : Table κ ρ).get? k = none := AList.lookup_empty k

@[simp] theorem get?_set_self (t : Table κ ρ) (k : κ) (r : ρ) : (t.set k r).get? k = some r :=
  AList.lookup_insert t

@[simp] theorem set_set (t : Table κ ρ) (k : κ) (r r' : ρ) : (t.set k r).set k r' = t.set k r' :=
  AList.insert_insert t

theorem get?_set_of_ne (t : Table κ ρ) {j k : κ} (r : ρ) (h : j ≠ k) :
    (t.set k r).get? j = t.get? j :=
  AList.lookup_insert_ne h

theorem get?_set (t : Table κ ρ) (j k : κ) (r : ρ) :
    (t.set k r).get? j = if j = k then some r else t.get? j := by
  split
  · rename_i h
    rw [h, get?_set_self]
  · rename_i h
    exact get?_set_of_ne t r h

theorem get?_modify (t : Table κ ρ) (j k : κ) (f : ρ → ρ) :
    (t.modify k f).get? j = if j = k then (t.get? k).map f else t.get? j := by
  unfold modify
  split
  · rename_i r hr
    rw [get?_set, hr]
    rfl
  · rename_i hk
    split
    · rename_i h
      rw [h, hk]
      rfl
    · rfl

theorem get?_modify_self (t : Table κ ρ) (k : κ) (f : ρ → ρ) :
    (t.modify k f).get? k = (t.get? k).map f := by
  rw [get?_modify, if_pos rfl]

theorem get?_modify_of_ne (t : Table κ ρ) {j k : κ} (f : ρ → ρ) (h : j ≠ k) :
    (t.modify k f).get? j = t.get? j := by
  rw [get?_modify, if_neg h]

theorem mem_rows {t : Table κ ρ} {k : κ} {r : ρ} : (k, r) ∈ t.rows ↔ t.get? k = some r := by
  have h : (⟨k, r⟩ : Σ _ : κ, ρ) ∈ AList.entries t ↔ (k, r) ∈ t.rows := by
    constructor
    · intro hm
      exact List.mem_map.mpr ⟨_, hm, rfl⟩
    · intro hm
      obtain ⟨⟨k', r'⟩, he, heq⟩ := List.mem_map.mp hm
      cases heq
      exact he
  rw [← h]
  exact (AList.mem_lookup_iff (s := t)).symm

omit [DecidableEq κ] in
theorem keys_nodup (t : Table κ ρ) : (t.rows.map Prod.fst).Nodup := by
  have hk : t.rows.map Prod.fst = AList.keys t := by
    unfold rows AList.keys List.keys
    rw [List.map_map]
    rfl
  rw [hk]
  exact AList.keys_nodup t

omit [DecidableEq κ] in
theorem rows_nodup (t : Table κ ρ) : t.rows.Nodup := List.Nodup.of_map _ t.keys_nodup

def ofList (l : List (κ × ρ)) : Table κ ρ := l.foldl (fun t e => t.set e.1 e.2) ∅

theorem ofList_concat (l : List (κ × ρ)) (e : κ × ρ) : ofList (l ++ [e]) = (ofList l).set e.1 e.2 := by
  rw [ofList, List.foldl_append]
  rfl

theorem mem_of_get?_ofList {l : List (κ × ρ)} {k : κ} {r : ρ} (h : (ofList l).get? k = some r) :
    (k, r) ∈ l := by
  induction l using List.reverseRecOn with
  | nil =>
    rw [ofList, List.foldl_nil, get?_empty] at h
    cases h
  | append_singleton l e ih =>
    rw [ofList_concat, get?_set] at h
    split at h
    · rename_i hk
      obtain rfl := Option.some.inj h
      exact List.mem_append_right l (hk ▸ List.mem_cons_self)
    · exact List.mem_append_left _ (ih h)

theorem get?_ofList_last (before : List (κ × ρ)) (k : κ) (r : ρ) {after : List (κ × ρ)}
    (h : k ∉ after.map Prod.fst) : (ofList (before ++ (k, r) :: after)).get? k = some r := by
  induction after using List.reverseRecOn with
  | nil => rw [ofList_concat, get?_set_self]
  | append_singleton after e ih =>
    rw [List.map_append, List.mem_append, not_or] at h
    have hne : k ≠ e.1 := fun hk => h.2 (List.mem_singleton.mpr hk)
    rw [← List.cons_append, ← List.append_assoc, ofList_concat, get?_set_of_ne _ _ hne]
    exact ih h.1

theorem get?_ofList_of_mem {l : List (κ × ρ)} {k : κ} (h : k ∈ l.map Prod.fst) :
    ∃ r, (ofList l).get? k = some r := by
  induction l using List.reverseRecOn with
  | nil => cases h
  | append_singleton l e ih =>
    rw [ofList_concat, get?_set]
    split
    · exact ⟨_, rfl⟩
    · rename_i hk
      rw [List.map_append, List.mem_append] at h
      exact ih (h.resolve_right fun hlast => hk (List.mem_singleton.mp hlast))

theorem length_rows_ofList (l : List (κ × ρ)) :
    (ofList l).rows.length = (l.map Prod.fst).toFinset.card := by
  have hkeys : ((ofList l).rows.map Prod.fst).toFinset = (l.map Prod.fst).toFinset := by
    ext k
    rw [List.mem_toFinset, List.mem_toFinset]
    constructor
    · intro hk
      obtain ⟨⟨k', r⟩, hr, rfl⟩ := List.mem_map.mp hk
      exact List.mem_map_of_mem (mem_of_get?_ofList (mem_rows.mp hr))
    · intro hk
      obtain ⟨r, hr⟩ := get?_ofList_of_mem hk
      exact List.mem_map.mpr ⟨(k, r), mem_rows.mpr hr, rfl⟩
  rw [← hkeys, List.toFinset_card_of_nodup (keys_nodup _), List.length_map]

theorem get?_mapRows (t : Table κ ρ) (f : κ → ρ → ρ) (k : κ) :
    (t.mapRows f).get? k = (t.get? k).map (f k) :=
  List.dlookup_map₂ (l := AList.entries t) (f := f) k

def deleteWhere (t : Table κ ρ) (p : κ → ρ → Bool) : Table κ ρ :=
  ⟨(AList.entries t).filter fun e => !p e.1 e.2,
    List.NodupKeys.sublist List.filter_sublist t.nodupKeys⟩

theorem get?_deleteWhere {t : Table κ ρ} {p : κ → ρ → Bool} {k : κ} {r : ρ} :
    (t.deleteWhere p).get? k = some r ↔ t.get? k = some r ∧ p k r = false := by
  have hentries : AList.entries (t.deleteWhere p) =
      (AList.entries t).filter fun e => !p e.1 e.2 := rfl
  have hmem : (⟨k, r⟩ : Σ _ : κ, ρ) ∈ AList.entries (t.deleteWhere p) ↔
      (⟨k, r⟩ : Σ _ : κ, ρ) ∈ AList.entries t ∧ p k r = false := by
    rw [hentries, List.mem_filter, Bool.not_eq_true']
  exact (AList.mem_lookup_iff (s := t.deleteWhere p)).trans
    (hmem.trans (and_congr_left' (AList.mem_lookup_iff (s := t)).symm))

theorem rows_perm_of_get? {t : Table κ ρ} {k : κ} {r : ρ} (h : t.get? k = some r) :
    t.rows.Perm ((k, r) :: rows (AList.erase k t)) := by
  have hk : k ∈ (AList.entries t).keys := by
    rw [← List.dlookup_isSome]
    exact Option.isSome_iff_exists.mpr ⟨r, h⟩
  obtain ⟨r', l₁, l₂, hl₁, hl, herase⟩ := List.exists_of_kerase hk
  have hr : r' = r := by
    have hmem : (⟨k, r'⟩ : Σ _ : κ, ρ) ∈ AList.entries t := by simp [hl]
    have := (AList.mem_lookup_iff (s := t)).mpr hmem
    exact Option.some.inj (this.symm.trans h)
  subst hr
  have he : AList.entries (AList.erase k t) = l₁ ++ l₂ := herase
  unfold rows
  rw [hl, he]
  simpa only [List.map_append, List.map_cons] using List.perm_middle

theorem rows_set (t : Table κ ρ) (k : κ) (r : ρ) :
    (t.set k r).rows = (k, r) :: rows (AList.erase k t) := rfl

theorem length_set_of_get? {t : Table κ ρ} {k : κ} {r : ρ} (h : t.get? k = some r) (r' : ρ) :
    (t.set k r').rows.length = t.rows.length := by
  rw [rows_set, List.length_cons, (rows_perm_of_get? h).length_eq, List.length_cons]

omit [DecidableEq κ] in
theorem length_deleteWhere_le (t : Table κ ρ) (p : κ → ρ → Bool) :
    (t.deleteWhere p).rows.length ≤ t.rows.length := by
  unfold rows
  rw [List.length_map, List.length_map]
  exact List.length_filter_le _ _

theorem rows_erase_of_get?_none {t : Table κ ρ} {k : κ} (h : t.get? k = none) :
    rows (AList.erase k t) = t.rows := by
  have hk : k ∉ (AList.entries t).keys := List.dlookup_eq_none.mp h
  have he : AList.entries (AList.erase k t) = AList.entries t := List.kerase_of_notMem_keys hk
  unfold rows
  rw [he]

theorem length_set_le (t : Table κ ρ) (k : κ) (r : ρ) :
    (t.set k r).rows.length ≤ t.rows.length + 1 := by
  cases h : t.get? k with
  | none => rw [rows_set, List.length_cons, rows_erase_of_get?_none h]
  | some r' =>
    rw [length_set_of_get? h]
    exact Nat.le_succ _

section Sum
variable {M : Type*} [AddCommMonoid M]

def sum (t : Table κ ρ) (f : κ → ρ → M) : M := (t.rows.map fun e => f e.1 e.2).sum

def share (t : Table κ ρ) (f : κ → ρ → M) (k : κ) : M := ((t.get? k).map (f k)).getD 0

theorem share_of_get? {t : Table κ ρ} {k : κ} {r : ρ} (f : κ → ρ → M) (h : t.get? k = some r) :
    t.share f k = f k r := by
  rw [share, h, Option.map_some, Option.getD_some]

theorem sum_eq_share_add (t : Table κ ρ) (f : κ → ρ → M) (k : κ) :
    t.sum f = t.share f k + sum (AList.erase k t) f := by
  unfold share sum
  cases h : t.get? k with
  | none => rw [Option.map_none, Option.getD_none, zero_add, rows_erase_of_get?_none h]
  | some r =>
    rw [((rows_perm_of_get? h).map _).sum_eq, List.map_cons, List.sum_cons, Option.map_some,
      Option.getD_some]

theorem sum_set (t : Table κ ρ) (k : κ) (r : ρ) (f : κ → ρ → M) :
    (t.set k r).sum f = f k r + sum (AList.erase k t) f := by
  unfold sum
  rw [rows_set, List.map_cons, List.sum_cons]

theorem sum_set_add {t : Table κ ρ} {k : κ} {f : κ → ρ → M} (h : t.share f k = 0) (r : ρ) :
    (t.set k r).sum f = f k r + t.sum f := by
  rw [sum_set, sum_eq_share_add t f k, h, zero_add]

theorem sum_set_le [Preorder M] [AddRightMono M] {t : Table κ ρ} {k : κ} {r : ρ}
    {f : κ → ρ → M} (h : f k r ≤ t.share f k) : (t.set k r).sum f ≤ t.sum f := by
  rw [sum_set, sum_eq_share_add t f k]
  exact add_le_add_left h _

theorem sum_eq_zero {t : Table κ ρ} {f : κ → ρ → M} (h : ∀ k r, t.get? k = some r → f k r = 0) :
    t.sum f = 0 := by
  refine List.sum_eq_zero fun x hx => ?_
  obtain ⟨e, he, rfl⟩ := List.mem_map.mp hx
  exact h _ _ (mem_rows.mp he)

end Sum
end Table
end InvoiceOs.Lib
