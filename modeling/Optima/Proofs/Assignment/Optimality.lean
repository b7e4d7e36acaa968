import Mathlib
import Optima.Proofs.Assignment.Counting
import Optima.Proofs.Runs

namespace Optima.Assignment

open State

variable {p : AssignmentProblem ℚ} {s s₀ : State ℚ} {n i j : ℕ} {cells : List Cell}

section Start

theorem rowCount_balance (p : AssignmentProblem ℚ) : p.balance.rowCount = p.size :=
  (List.length_map _).trans List.length_range

theorem sized_balance (p : AssignmentProblem ℚ) :
    (Matrix.ofRows p.balance.costs).Sized p.size p.size := by
  refine ⟨rowCount_balance p, fun r hr => ?_⟩
  obtain ⟨i, -, rfl⟩ := List.mem_map.mp hr
  exact (List.length_map _).trans List.length_range

theorem get_balance (hi : i < p.size) (hj : j < p.size) :
    (Matrix.ofRows p.balance.costs).get i j = p.cost ⟨i, j⟩ :=
  Matrix.get_ofFn hi hj

theorem sized_map {a : Matrix ℚ} {m : ℕ} (h : a.Sized m n) (f : ℚ → ℚ) : (a.map f).Sized m n := by
  refine ⟨(List.length_map _).trans h.rows, fun r hr => ?_⟩
  obtain ⟨r', hr', rfl⟩ := List.mem_map.mp hr
  rw [List.length_map, h.row r' hr']

theorem get_map {a : Matrix ℚ} {m : ℕ} (h : a.Sized m n) (f : ℚ → ℚ) (hi : i < m) (hj : j < n) :
    (a.map f).get i j = f (a.get i j) := by
  have hj : j < (a.row i).length := (h.row_length hi).symm ▸ hj
  rw [Matrix.get, Matrix.row_map, Matrix.get, List.getD_eq_getElem _ _ (by simpa using hj),
    List.getElem_map, List.getD_eq_getElem _ _ hj]

theorem sized_costsToMinimize (p : AssignmentProblem ℚ) :
    (costsToMinimize p.balance).Sized p.size p.size := by
  unfold costsToMinimize
  split_ifs
  · exact sized_map (sized_balance p) _
  · exact sized_balance p

/-- The costs that are minimized are the given ones against the direction of optimization. -/
theorem exists_costsToMinimize (p : AssignmentProblem ℚ) :
    ∃ k, ∀ i < p.size, ∀ j < p.size,
      (costsToMinimize p.balance).get i j = k - p.goal.direction * p.cost ⟨i, j⟩ := by
  cases hmax : p.isMaximization with
  | true =>
    refine ⟨(Matrix.ofRows p.balance.costs).maximum?.getD 0, fun i hi j hj => ?_⟩
    rw [costsToMinimize, if_pos (show p.balance.isMaximization = true from hmax),
      get_map (sized_balance p) _ hi hj, get_balance hi hj, AssignmentProblem.goal, hmax]
    simp [Goal.ofMaximization, Goal.direction]
  | false =>
    refine ⟨0, fun i hi j hj => ?_⟩
    have hmin : p.balance.isMaximization = false := hmax
    rw [costsToMinimize, if_neg (by simp [hmin]), get_balance hi hj, AssignmentProblem.goal, hmax]
    simp [Goal.ofMaximization, Goal.direction]

theorem fits_start (hstart : start p = .ok s₀) :
    p.fault? = none ∧ s₀ = firstState p.balance ∧ Fits p.size s₀ s₀ := by
  unfold start at hstart
  split at hstart
  · simp at hstart
  · next hp =>
    obtain rfl := Except.ok.inj hstart
    refine ⟨hp, rfl, ⟨⟨?_, ?_, ?_⟩, rfl, rfl, sized_costsToMinimize p, Matrix.Shifted.refl _ _, ?_⟩,
      ?_⟩
    · rw [← rowCount_balance p]
      exact Marks.square_blank _
    · exact List.length_replicate.trans (rowCount_balance p)
    · exact List.length_replicate.trans (rowCount_balance p)
    · simp [firstState]
    · rw [← rowCount_balance p]
      rfl

end Start

theorem fits_of_reaches (hstart : start p = .ok s₀) (h : Solver.Reaches s₀ s) :
    Fits p.size s₀ s := by
  apply h.invariant (fits_start hstart).2.2
  intro u v hu huv
  obtain rfl := Except.ok.inj huv
  exact hu.next

/-- Independent stars in every column make a perfect matching. -/
theorem perfect_of_full (hm : s.marks.Square n) (h : s.Full n) : Perfect n s.marks.starred := by
  have hcolumns : (s.marks.starred.map Cell.column).Perm (List.range n) := by
    refine (List.perm_ext_iff_of_nodup (h.independent.nodup_columns hm) List.nodup_range).mpr
      fun j => ?_
    rw [List.mem_map, List.mem_range]
    constructor
    · rintro ⟨c, hc, rfl⟩
      exact (hm.lt_of_get ((Marks.mem_starred hm).mp hc)).2
    · intro hj
      obtain ⟨i, hi⟩ := h.exists_star j hj
      exact ⟨_, (Marks.mem_starred hm).mpr hi, rfl⟩
  -- as many rows as columns, and none twice, are all of them
  refine ⟨perm_range_of_nodup (h.independent.nodup_rows hm) ?_ ?_, hcolumns⟩
  · intro i hi
    obtain ⟨c, hc, rfl⟩ := List.mem_map.mp hi
    exact (hm.lt_of_get ((Marks.mem_starred hm).mp hc)).1
  · rw [List.length_map, ← List.length_map Cell.column, hcolumns.length_eq, List.length_range]

/-- A complete state has the stars of every row and column, and their costs. -/
theorem perfect_of_complete (h : Fits n s₀ s) (hs : s.progress = .complete) :
    Perfect n s.assignments ∧ (∀ c ∈ s.assignments, s.isZero c = true) ∧ s.Priced n ∧
      s.totalCost = (s.assignments.map fun c => s.costs.get c.row c.column).sum := by
  have hphase := h.phase
  rw [PhaseFits, h.progress.mp hs] at hphase
  obtain ⟨hpriced, hfull, hassignments, htotal⟩ := hphase
  refine ⟨?_, fun c hc => ?_, hpriced, htotal⟩
  · rw [hassignments]
    exact perfect_of_full h.marks hfull
  · rw [hassignments, Marks.starred, List.mem_filter, beq_iff_eq] at hc
    exact hpriced.zero c (by rw [hc.2]; exact Option.some_ne_none _)

/-- What perfect matchings cost in the reduced costs of a state. -/
theorem exists_sum_reduced (hp : s₀ = firstState p.balance) (h : Fits p.size s₀ s) :
    ∃ k, ∀ cells, Perfect p.size cells → (cells.map fun c => s.reduced.get c.row c.column).sum =
      k - p.goal.direction * p.total cells := by
  -- subtracting from the largest cost and shifting lines weigh the same in all perfect matchings
  obtain ⟨a, ha⟩ := exists_costsToMinimize p
  obtain ⟨b, hb⟩ := Perfect.exists_sum_eq h.shifted
  refine ⟨p.size * a - b, fun cells hcells => ?_⟩
  have hfirst : (cells.map fun c => s₀.reduced.get c.row c.column).sum =
      p.size * a - p.goal.direction * p.total cells := by
    have hmap : (cells.map fun c => s₀.reduced.get c.row c.column) =
        cells.map fun c => a - p.goal.direction * p.cost c :=
      List.map_congr_left fun c hc => by
        rw [hp]
        exact ha _ (hcells.lt hc).1 _ (hcells.lt hc).2
    rw [hmap, eq_sub_iff_add_eq, AssignmentProblem.total, ← List.sum_map_mul_left,
      ← List.sum_map_add]
    simp only [sub_add_cancel, List.map_const', List.sum_replicate, hcells.length, nsmul_eq_mul]
  rw [hb cells hcells, hfirst]
  ring

/-- No perfect matching beats the one of a complete state by as much as the tolerance for each of
its cells. -/
theorem direction_mul_sub_lt (hp : p.fault? = none) (hs₀ : s₀ = firstState p.balance)
    (h : Fits p.size s₀ s) (hs : s.progress = .complete) (hcells : Perfect p.size cells) :
    p.goal.direction * (p.total cells - p.total s.assignments) <
      p.size * Scalar.tolerance := by
  obtain ⟨hperfect, hzero, hpriced, -⟩ := perfect_of_complete h hs
  obtain ⟨k, hk⟩ := exists_sum_reduced hs₀ h
  -- no reduced cost is negative, and those of the state count as zeros
  have hnonneg : 0 ≤ (cells.map fun c => s.reduced.get c.row c.column).sum := by
    apply List.sum_nonneg
    intro x hx
    obtain ⟨c, hc, rfl⟩ := List.mem_map.mp hx
    exact hpriced.nonneg _ (hcells.lt hc).1 _ (hcells.lt hc).2
  have hlt : (s.assignments.map fun c => s.reduced.get c.row c.column).sum <
      (s.assignments.map fun _ => (Scalar.tolerance : ℚ)).sum := by
    refine List.sum_lt_sum_of_ne_nil ?_ _ _ fun c hc => ?_
    · intro hnil
      have hlength := hperfect.length
      rw [hnil, List.length_nil] at hlength
      exact (AssignmentProblem.rows_of_fault? hp).1.ne hlength
    · exact (le_abs_self _).trans_lt (isZero_iff.mp (hzero c hc))
  rw [List.map_const', List.sum_replicate, hperfect.length, nsmul_eq_mul] at hlt
  have hassignments := hk _ hperfect
  have hother := hk _ hcells
  linarith

theorem total_mem_integers (h : ∀ row ∈ p.costs, ∀ x ∈ row, x ∈ integers) (cells : List Cell) :
    p.total cells ∈ integers := by
  apply integers.list_sum_mem
  intro x hx
  obtain ⟨c, -, rfl⟩ := List.mem_map.mp hx
  exact entry_of_forall_mem h integers.zero_mem c.row c.column

/-- A complete run has assigned every line of the balanced problem once. The real pairs among these
match the shorter side, the total is what they cost, and no matching is better by as much as the
tolerance for each line, or at all if the costs are whole numbers and these tolerances make less
than one. -/
theorem optimal_of_complete (hstart : start p = .ok s₀) (hrun : Solver.Reaches s₀ s)
    (hs : s.progress = .complete) :
    Perfect p.size s.assignments ∧ p.Matching (s.assignments.filter p.isReal) ∧
      s.totalCost = p.total (s.assignments.filter p.isReal) ∧
      ∀ other, p.Matching other →
        p.goal.direction * (p.total other - s.totalCost) < p.size * Scalar.tolerance ∧
        ((∀ row ∈ p.costs, ∀ x ∈ row, x ∈ integers) → p.size * Scalar.tolerance < (1 : ℚ) →
          ¬ p.goal.Better (p.total other) s.totalCost) := by
  obtain ⟨hp, hs₀, -⟩ := fits_start hstart
  have h := fits_of_reaches hstart hrun
  obtain ⟨hperfect, -, -, htotal⟩ := perfect_of_complete h hs
  have hcosts : s.totalCost = p.total s.assignments := by
    rw [htotal, AssignmentProblem.total, h.costs, hs₀]
    congr 1
    exact List.map_congr_left fun c hc => get_balance (hperfect.lt hc).1 (hperfect.lt hc).2
  refine ⟨hperfect, AssignmentProblem.matching_of_perfect hperfect, ?_, fun other hother => ?_⟩
  · rw [hcosts, AssignmentProblem.total_filter_isReal hp]
  -- the lines left over are matched with dummies, at no cost
  · obtain ⟨more, hmore, hdummy⟩ := hother.exists_perfect
    have hzero : p.total more = 0 := by
      apply List.sum_eq_zero
      intro x hx
      obtain ⟨c, hc, rfl⟩ := List.mem_map.mp hx
      exact AssignmentProblem.cost_eq_zero hp (hdummy c hc)
    have hlt := direction_mul_sub_lt hp hs₀ h hs hmore
    rw [AssignmentProblem.total_append, hzero, add_zero, ← hcosts] at hlt
    refine ⟨hlt, fun hints hsmall => ?_⟩
    have hdirection : p.goal.direction ∈ integers := by
      cases p.goal with
      | maximize => exact integers.one_mem
      | minimize => exact integers.neg_mem integers.one_mem
    -- two whole totals that differ by less than one are equal or in order
    have hle := nonpos_of_lt_one (integers.mul_mem hdirection (integers.sub_mem
      (total_mem_integers hints other) (hcosts ▸ total_mem_integers hints s.assignments)))
      (hlt.trans hsmall)
    rw [Goal.better_iff, not_lt]
    linarith

def rota : AssignmentProblem ℚ where
  costs := [[4, 1, 3], [2, 0, 5]]
  rowLabels := []
  columnLabels := []
  isMaximization := false

theorem optimal_of_rota : ∃ s : State ℚ, s.progress = .complete ∧ rota.Matching
    (s.assignments.filter rota.isReal) ∧ s.totalCost = 3 ∧ ∀ other, rota.Matching other →
      ¬ Goal.minimize.Better (rota.total other) s.totalCost := by
  obtain ⟨s₀, s, hstart, hrun, hcomplete, htotal⟩ :=
    Solver.exists_after_of_any (e := start rota) (n := 8)
      (P := fun s => s.progress = .complete ∧ s.totalCost = (3 : ℚ)) (by decide +kernel)
  obtain ⟨-, hmatching, -, hbest⟩ :=
    optimal_of_complete hstart (Solver.reaches_of_after hrun) hcomplete
  have hints : ∀ row ∈ rota.costs, ∀ x ∈ row, x ∈ integers := by
    intro row hrow x hx
    fin_cases hrow <;> fin_cases hx <;> exact intCast_mem _ _
  have hsmall : rota.size * Scalar.tolerance < (1 : ℚ) := by decide +kernel
  exact ⟨s, hcomplete, hmatching, htotal, fun other hother =>
    (hbest other hother).2 hints hsmall⟩

end Optima.Assignment
