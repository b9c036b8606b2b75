import InvoiceOs.Lib.OrderBy
import Mathlib.Data.List.Nodup

/-! Keyset paging: a table read a bounded page at a time, each page behind the last row of the
one before, until a page comes short. All pages together are the table in order. -/

namespace InvoiceOs.Lib

variable {ρ : Type*} (le : ρ → ρ → Bool) (rows : List ρ)

def behind (cur : Option ρ) (r : ρ) : Bool := cur.all fun c => !le r c

def page (size : ℕ) (cur : Option ρ) : List ρ :=
  ((rows.filter (behind le cur)).mergeSort le).take size

variable {le rows}

theorem mem_page {size : ℕ} {cur : Option ρ} {r : ρ} (h : r ∈ page le rows size cur) :
    r ∈ rows ∧ behind le cur r = true := by
  have hsorted := List.mem_of_mem_take h
  exact List.mem_filter.mp ((List.mergeSort_perm _ _).subset hsorted)

theorem behind_trans (hle : IsOrder le) {cur : Option ρ} {c r : ρ} (hc : behind le cur c = true)
    (hr : behind le (some c) r = true) : behind le cur r = true := by
  cases cur with
  | none => rfl
  | some d =>
    simp only [behind, Option.all_some, Bool.not_eq_true'] at hc hr ⊢
    by_contra hrd
    have hcr := (Bool.or_eq_true _ _).mp (hle.total c r)
    rw [Bool.not_eq_false] at hrd
    rcases hcr with hcr | hrc
    · rw [hle.trans c r d hcr hrd] at hc
      cases hc
    · rw [hrc] at hr
      cases hr

theorem length_behind_lt (hle : IsOrder le) {cur : Option ρ} {c : ρ} (hc : c ∈ rows)
    (hbehind : behind le cur c = true) :
    (rows.filter (behind le (some c))).length < (rows.filter (behind le cur)).length := by
  have hself : behind le (some c) c = false := by
    have h := hle.total c c
    rw [Bool.or_self] at h
    simp only [behind, Option.all_some, h, Bool.not_true]
  have hsub : rows.filter (behind le (some c)) =
      (rows.filter (behind le cur)).filter (behind le (some c)) := by
    rw [List.filter_filter]
    refine List.filter_congr fun r _ => ?_
    cases hr : behind le (some c) r with
    | false => rfl
    | true => rw [behind_trans hle hbehind hr, Bool.and_self]
  rw [hsub, List.length_filter_lt_length_iff_exists]
  exact ⟨c, List.mem_filter.mpr ⟨hc, hbehind⟩, by rw [hself]; exact Bool.false_ne_true⟩

section
variable (le rows)

/-- The pages from a cursor on; the last is the one that comes short of `size`. -/
def pages (hle : IsOrder le) (size : ℕ) (hsize : 0 < size) (cur : Option ρ) : List (List ρ) :=
  if h : (page le rows size cur).length < size then [page le rows size cur]
  else
    have hne : page le rows size cur ≠ [] := fun hnil => h (by rw [hnil]; exact hsize)
    page le rows size cur ::
      pages hle size hsize (some ((page le rows size cur).getLast hne))
termination_by (rows.filter (behind le cur)).length
decreasing_by
  have hlast := mem_page (List.getLast_mem hne)
  exact length_behind_lt hle hlast.1 hlast.2

end

theorem behind_last (hle : IsOrder le)
    (hties : ∀ r ∈ rows, ∀ r' ∈ rows, le r r' = true → le r' r = true → r = r')
    (hnodup : rows.Nodup) {size : ℕ} {cur : Option ρ} (hne : page le rows size cur ≠ []) :
    ((rows.filter (behind le (some ((page le rows size cur).getLast hne)))).mergeSort le) =
      ((rows.filter (behind le cur)).mergeSort le).drop size := by
  set sorted := (rows.filter (behind le cur)).mergeSort le with hsorted
  have hperm : sorted.Perm (rows.filter (behind le cur)) := List.mergeSort_perm _ _
  have hpairwise : sorted.Pairwise fun r r' => le r r' = true :=
    List.pairwise_mergeSort hle.trans hle.total _
  have hnodup' : sorted.Nodup := hperm.nodup_iff.mpr (hnodup.filter _)
  have hmem : ∀ r ∈ sorted, r ∈ rows ∧ behind le cur r = true := fun r hr =>
    List.mem_filter.mp (hperm.subset hr)
  have hpage : page le rows size cur = sorted.take size := rfl
  set last := (page le rows size cur).getLast hne with hlast
  have hlastmem : last ∈ sorted.take size := hpage ▸ List.getLast_mem hne
  have hlastrow := hmem last (List.mem_of_mem_take hlastmem)
  -- the page up to its last row is not behind it, the rest is
  have htake : ∀ r ∈ sorted.take size, le r last = true := by
    intro r hr
    have hsplit : (page le rows size cur).dropLast ++ [last] = sorted.take size :=
      List.dropLast_append_getLast hne
    have hpw : (sorted.take size).Pairwise fun r r' => le r r' = true :=
      hpairwise.sublist (List.take_sublist _ _)
    rw [← hsplit] at hr hpw
    rcases List.mem_append.mp hr with hr | hr
    · exact (List.pairwise_append.mp hpw).2.2 r hr _ (List.mem_singleton.mpr rfl)
    · obtain rfl := List.mem_singleton.mp hr
      have h := hle.total last last
      rw [Bool.or_self] at h
      exact h
  have hdrop : ∀ r ∈ sorted.drop size, le r last = false := by
    intro r hr
    have hboth := List.take_append_drop size sorted
    have hpw := hpairwise
    have hnd := hnodup'
    rw [← hboth] at hpw hnd
    have hle' := (List.pairwise_append.mp hpw).2.2 last hlastmem r hr
    by_contra hback
    rw [Bool.not_eq_false] at hback
    have heq := hties last hlastrow.1 r (hmem r (List.mem_of_mem_drop hr)).1 hle' hback
    exact (List.nodup_append.mp hnd).2.2 last hlastmem r hr heq
  have hfilter : sorted.filter (behind le (some last)) = sorted.drop size := by
    conv_lhs => rw [← List.take_append_drop size sorted, List.filter_append]
    rw [List.filter_eq_nil_iff.mpr, List.filter_eq_self.mpr, List.nil_append]
    · intro r hr
      simp only [behind, Option.all_some, hdrop r hr, Bool.not_false]
    · intro r hr
      simp only [behind, Option.all_some, htake r hr, Bool.not_true, Bool.false_eq_true,
        not_false_eq_true]
  have hsame : (rows.filter (behind le (some last))).Perm (sorted.filter (behind le (some last))) := by
    have hsub : rows.filter (behind le (some last)) =
        (rows.filter (behind le cur)).filter (behind le (some last)) := by
      rw [List.filter_filter]
      refine List.filter_congr fun r _ => ?_
      cases hr : behind le (some last) r with
      | false => rfl
      | true => rw [behind_trans hle hlastrow.2 hr, Bool.and_self]
    rw [hsub]
    exact (hperm.filter _).symm
  rw [hfilter] at hsame
  refine List.Perm.eq_of_pairwise ?_ (List.pairwise_mergeSort hle.trans hle.total _)
    (hpairwise.sublist (List.drop_sublist _ _)) ((List.mergeSort_perm _ _).trans hsame)
  intro r r' hr hr'
  have hr₁ := (List.mem_filter.mp ((List.mergeSort_perm _ _).subset hr)).1
  have hr₂ := (hmem r' (List.mem_of_mem_drop hr')).1
  exact hties r hr₁ r' hr₂

theorem pages_from (hle : IsOrder le)
    (hties : ∀ r ∈ rows, ∀ r' ∈ rows, le r r' = true → le r' r = true → r = r')
    (hnodup : rows.Nodup) {size : ℕ} (hsize : 0 < size) (cur : Option ρ) :
    (pages le rows hle size hsize cur).flatten = (rows.filter (behind le cur)).mergeSort le := by
  fun_induction pages le rows hle size hsize cur with
  | case1 cur h =>
    have hall : page le rows size cur = (rows.filter (behind le cur)).mergeSort le := by
      unfold page at h ⊢
      refine List.take_of_length_le ?_
      rw [List.length_take] at h
      omega
    rw [List.flatten_singleton, hall]
  | case2 cur h hne ih =>
    rw [List.flatten_cons, ih, behind_last hle hties hnodup hne]
    exact List.take_append_drop size _

theorem pages_flatten (hle : IsOrder le)
    (hties : ∀ r ∈ rows, ∀ r' ∈ rows, le r r' = true → le r' r = true → r = r')
    (hnodup : rows.Nodup) {size : ℕ} (hsize : 0 < size) :
    (pages le rows hle size hsize none).flatten = rows.mergeSort le := by
  rw [pages_from hle hties hnodup hsize]
  congr 1
  exact List.filter_eq_self.mpr fun _ _ => rfl

end InvoiceOs.Lib
