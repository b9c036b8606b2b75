import InvoiceOs.Extraction.Alignment

/-! The table counts the longest matchings, and the traceback along it finds one. -/

namespace InvoiceOs.Extraction

open Lib

variable {compatible : ℕ → ℕ → Bool} {answer key : List ℕ}

theorem bestRow_tails (a : ℕ) (answer key : List ℕ) :
    bestRow compatible a key (key.tails.map (longest compatible answer)) =
      key.tails.map (longest compatible (a :: answer)) := by
  induction key with
  | nil => simp [bestRow]
  | cons k key ih =>
    have hfirst : (key.tails.map (longest compatible (a :: answer))).getD 0 0 =
        longest compatible (a :: answer) key := by
      cases key <;> rfl
    have hsecond : ((k :: key).tails.map (longest compatible answer)).getD 1 0 =
        longest compatible answer key := by
      cases key <;> rfl
    simp only [List.tails, List.map_cons] at ih hsecond ⊢
    rw [bestRow]
    simp only [List.tail_cons, ih, hfirst, hsecond]
    rw [longest_cons]
    rfl

theorem bestTable_tails (key answer : List ℕ) :
    bestTable compatible key answer =
      answer.tails.map fun rest => key.tails.map (longest compatible rest) := by
  induction answer with
  | nil =>
    simp only [List.tails, List.map_cons, List.map_nil, bestTable, List.cons.injEq, and_true]
    refine (List.eq_replicate_iff.mpr ⟨by simp, ?_⟩).symm
    intro n hn
    obtain ⟨rest, _, rfl⟩ := List.mem_map.mp hn
    exact longest_nil_left rest
  | cons a answer ih =>
    have hbelow : (bestTable compatible key answer).getD 0 [] =
        key.tails.map (longest compatible answer) := by
      rw [ih]
      cases answer <;> rfl
    rw [bestTable, hbelow, bestRow_tails, ih]
    rfl

theorem getD_tails (l : List ℕ) {i : ℕ} (hi : i ≤ l.length) : l.tails[i]? = some (l.drop i) := by
  rw [List.getElem?_eq_getElem (by simpa using Nat.lt_succ_of_le hi), List.getElem_tails]

theorem best_eq {i j : ℕ} (hi : i ≤ answer.length) (hj : j ≤ key.length) :
    ((bestTable compatible key answer).getD i []).getD j 0 =
      longest compatible (answer.drop i) (key.drop j) := by
  rw [bestTable_tails]
  simp only [List.getD_eq_getElem?_getD, List.getElem?_map, getD_tails _ hi, Option.map_some,
    Option.getD_some, getD_tails _ hj]

theorem longest_untaken {i j : ℕ} (hi : i < answer.length) (hj : j < key.length)
    (h : ¬ (compatible answer[i] key[j] = true ∧
      longest compatible (answer.drop i) (key.drop j) =
        1 + longest compatible (answer.drop (i + 1)) (key.drop (j + 1)))) :
    longest compatible (answer.drop i) (key.drop j) =
      max (longest compatible (answer.drop (i + 1)) (key.drop j))
        (longest compatible (answer.drop i) (key.drop (j + 1))) := by
  have hstep : longest compatible (answer.drop i) (key.drop j) = _ := longest_drop hi hj
  split at hstep
  · rename_i hc
    rcases Nat.le_total (1 + longest compatible (answer.drop (i + 1)) (key.drop (j + 1)))
      (max (longest compatible (answer.drop (i + 1)) (key.drop j))
        (longest compatible (answer.drop i) (key.drop (j + 1)))) with hle | hle
    · rw [hstep, max_eq_left hle]
    · rw [max_eq_right hle] at hstep
      exact absurd ⟨hc, hstep⟩ h
  · rw [hstep, max_eq_left (Nat.zero_le _)]

theorem aliTrace_longest {best : ℕ → ℕ → ℕ}
    (hbest : ∀ i j, i ≤ answer.length → j ≤ key.length →
      best i j = longest compatible (answer.drop i) (key.drop j)) (i j : ℕ)
    (hi : i ≤ answer.length) (hj : j ≤ key.length) :
    IsMatching compatible answer key (aliTrace compatible answer key best i j) ∧
      (∀ p ∈ aliTrace compatible answer key best i j, i ≤ p.1 ∧ j ≤ p.2) ∧
      (aliTrace compatible answer key best i j).length =
        longest compatible (answer.drop i) (key.drop j) := by
  fun_induction aliTrace compatible answer key best i j with
  | case1 i j h htake ih =>
    obtain ⟨hmatching, hfrom, hlength⟩ := ih h.1 h.2
    refine ⟨⟨List.pairwise_cons.mpr ⟨hfrom, hmatching.increasing⟩, ?_⟩, ?_, ?_⟩
    · intro p hp
      rcases List.mem_cons.mp hp with rfl | hp
      · exact ⟨_, _, List.getElem?_eq_getElem h.1, List.getElem?_eq_getElem h.2, htake.1⟩
      · exact hmatching.compatible p hp
    · intro p hp
      rcases List.mem_cons.mp hp with rfl | hp
      · exact ⟨le_rfl, le_rfl⟩
      · exact ⟨Nat.le_of_succ_le (hfrom p hp).1, Nat.le_of_succ_le (hfrom p hp).2⟩
    · rw [List.length_cons, hlength, ← hbest i j hi hj, htake.2, hbest _ _ h.1 h.2, Nat.add_comm]
  | case2 i j h htake hdrop ih =>
    obtain ⟨hmatching, hfrom, hlength⟩ := ih h.1 hj
    rw [hbest _ _ hi hj, hbest _ _ h.1 h.2] at htake
    refine ⟨hmatching, fun p hp => ⟨Nat.le_of_succ_le (hfrom p hp).1, (hfrom p hp).2⟩, ?_⟩
    rw [hlength, longest_untaken h.1 h.2 htake, max_eq_left]
    rwa [← hbest _ _ h.1 hj, ← hbest _ _ hi h.2]
  | case3 i j h htake hdrop ih =>
    obtain ⟨hmatching, hfrom, hlength⟩ := ih hi h.2
    rw [hbest _ _ hi hj, hbest _ _ h.1 h.2] at htake
    refine ⟨hmatching, fun p hp => ⟨(hfrom p hp).1, Nat.le_of_succ_le (hfrom p hp).2⟩, ?_⟩
    rw [hlength, longest_untaken h.1 h.2 htake, max_eq_right]
    rw [← hbest _ _ h.1 hj, ← hbest _ _ hi h.2]
    exact Nat.le_of_not_le hdrop
  | case4 i j h =>
    refine ⟨⟨.nil, nofun⟩, nofun, ?_⟩
    rcases not_and_or.mp h with hend | hend
    · rw [List.drop_eq_nil_of_le (Nat.le_of_not_lt hend), longest_nil_left, List.length_nil]
    · rw [List.drop_eq_nil_of_le (Nat.le_of_not_lt hend), longest_nil_right, List.length_nil]

theorem aliMonotoneMatch_maximum (compatible : ℕ → ℕ → Bool) (answer key : List ℕ) :
    IsMatching compatible answer key (aliMonotoneMatch compatible answer key) ∧
      ∀ pairs, IsMatching compatible answer key pairs →
        pairs.length ≤ (aliMonotoneMatch compatible answer key).length := by
  obtain ⟨hmatching, _, hlength⟩ := @aliTrace_longest compatible _ _ _
    (fun i j hi hj => best_eq hi hj) 0 0 (Nat.zero_le answer.length) (Nat.zero_le key.length)
  exact ⟨hmatching, fun pairs hpairs => hpairs.length_le.trans hlength.ge⟩

end InvoiceOs.Extraction
