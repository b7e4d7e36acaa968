import Mathlib
import Optima.Proofs.Simplex.Extension
import Optima.Proofs.Simplex.Runs

namespace Optima.Simplex

variable {p : LinearProgram ℚ} {x : String → ℚ} {y : ℕ → ℚ}

theorem firstTableau_costs (p : LinearProgram ℚ) : (firstTableau p).cost =
    p.variableNames.map (fun name => BigM.ofScalar (p.objective.coefficient name)) ++
      (addedColumns p).flatten.map (·.cost) := rfl

theorem firstTableau_cost_decision {j : ℕ} (hj : j < p.variableNames.length) :
    (firstTableau p).cost.getD j 0 =
      BigM.ofScalar (p.objective.coefficient (p.variableNames.getD j "")) := by
  rw [firstTableau_costs, List.getD_append _ _ _ _ (by simpa using hj),
    List.getD_eq_getElem _ _ (by simpa using hj), List.getElem_map, List.getD_eq_getElem _ _ hj]

theorem firstTableau_cost_added {i l : ℕ} {a : Auxiliary ℚ}
    (ha : ((addedColumns p).getD i [])[l]? = some a) :
    (firstTableau p).cost.getD (p.variableNames.length + (chunkStart (addedColumns p) i + l)) 0 =
      a.cost := by
  rw [firstTableau_costs, List.getD_append_right _ _ _ _ (by simp), List.length_map,
    Nat.add_sub_cancel_left, List.getD_eq_getElem?_getD, List.getElem?_map,
    getElem?_flatten_chunk _ (List.getElem?_eq_some_iff.mp ha).1, ha]
  rfl

theorem cost_of_mem_auxiliaries {goal : Goal} {i : ℕ} {row : Row ℚ} {a : Auxiliary ℚ}
    (ha : a ∈ auxiliaries goal i row) :
    a.cost = if a.kind == .artificial then goal.artificialCost else 0 := by
  cases hr : row.relation with
  | atMost =>
    obtain rfl : a = _ := by simpa [auxiliaries, hr] using ha
    rfl
  | atLeast =>
    rw [auxiliaries, hr] at ha
    obtain rfl | rfl : a = _ ∨ a = _ := by simpa using ha
    · rfl
    · rfl
  | equal =>
    obtain rfl : a = _ := by simpa [auxiliaries, hr] using ha
    rfl

theorem firstTableau_cost {j : ℕ} (hj : j < (firstTableau p).columnCount) :
    (firstTableau p).cost.getD j 0 =
      (if j < p.variableNames.length then
        BigM.ofScalar (p.objective.coefficient (p.variableNames.getD j "")) else 0) +
      if (firstState p).isArtificial j then p.goal.artificialCost else 0 := by
  rcases column_cases hj with hj | ⟨i, l, a, hi, ha, rfl⟩
  · rw [firstTableau_cost_decision hj, if_pos hj, isArtificial_decision hj]
    exact (add_zero _).symm
  · have hmem : a ∈ auxiliaries p.goal i (rowsOf p)[i] := by
      rw [← addedColumns_getD hi]
      exact List.mem_of_getElem? ha
    rw [firstTableau_cost_added ha, if_neg (by omega), isArtificial_added ha,
      cost_of_mem_auxiliaries hmem, zero_add]

def State.artificialTotal (s : State ℚ) (y : ℕ → ℚ) : ℚ :=
  ∑ j ∈ Finset.range s.columnCount, if s.isArtificial j then y j else 0

theorem State.artificialTotal_nonneg {s : State ℚ} (hy : ∀ j < s.columnCount, 0 ≤ y j) :
    0 ≤ s.artificialTotal y := by
  apply Finset.sum_nonneg
  intro j hj
  split_ifs
  · exact hy j (Finset.mem_range.mp hj)
  · exact le_rfl

theorem State.artificialTotal_eq_zero {s : State ℚ}
    (hy : ∀ j < s.columnCount, s.isArtificial j = true → y j = 0) : s.artificialTotal y = 0 := by
  apply Finset.sum_eq_zero
  intro j hj
  split_ifs with h
  · exact hy j (Finset.mem_range.mp hj) h
  · rfl

/-- The objective as it is read is a sum over the columns of the variables. -/
theorem eval_objective_readBy
    (hy : ∀ j < p.variableNames.length, y j = x (p.variableNames.getD j "")) :
    (p.objective.readBy p.variableNames).eval x = ∑ j ∈ Finset.range p.variableNames.length,
      p.objective.coefficient (p.variableNames.getD j "") * y j := by
  rw [LinearForm.eval_readBy, sum_map_eq_range _ _ ""]
  exact Finset.sum_congr rfl fun j hj => by rw [hy j (Finset.mem_range.mp hj)]

/-- The cost row gives the objective as it is read, and the penalty for the artificial columns. -/
theorem costAt_firstTableau_readBy
    (hy : ∀ j < p.variableNames.length, y j = x (p.variableNames.getD j "")) :
    (firstTableau p).costAt y =
      BigM.ofScalar ((p.objective.readBy p.variableNames).eval x) +
        (firstState p).artificialTotal y • p.goal.artificialCost := by
  have hcount := columnCount_firstTableau p
  -- a column has a coefficient of the objective, the penalty or nothing
  have hterm (j : ℕ) (hj : j ∈ Finset.range (firstTableau p).columnCount) :
      y j • (firstTableau p).cost.getD j 0 =
        (if j < p.variableNames.length then
          BigM.ofScalar (p.objective.coefficient (p.variableNames.getD j "") * y j) else 0) +
        (if (firstState p).isArtificial j then y j else 0) • p.goal.artificialCost := by
    rw [firstTableau_cost (Finset.mem_range.mp hj), smul_add]
    congr 1
    · split_ifs
      · ext <;> simp
      · exact smul_zero _
    · rw [ite_smul, zero_smul, smul_ite, smul_zero]
  rw [Tableau.costAt, Finset.sum_congr rfl hterm, Finset.sum_add_distrib, ← Finset.sum_smul,
    eval_objective_readBy hy]
  congr 1
  rw [← Finset.sum_filter]
  have hfilter : (Finset.range (firstTableau p).columnCount).filter
      (· < p.variableNames.length) = Finset.range p.variableNames.length := by
    ext j
    rw [Finset.mem_filter, Finset.mem_range, Finset.mem_range]
    omega
  rw [hfilter]
  ext
  · rw [BigM.constant_sum]
    rfl
  · rw [BigM.multiple_sum]
    exact Finset.sum_const_zero

theorem costAt_firstTableau (hp : p.fault? = none) (hd : p.NamesDistinct)
    (hy : ∀ j < p.variableNames.length, y j = x (p.variableNames.getD j "")) :
    (firstTableau p).costAt y = BigM.ofScalar (p.objective.eval x) +
      (firstState p).artificialTotal y • p.goal.artificialCost := by
  rw [costAt_firstTableau_readBy hy, LinearForm.eval_readBy,
    LinearForm.sum_coefficient (LinearProgram.nodup_variableNames hd.objective)
      (LinearProgram.lengths_of_fault?_eq_none hp).1 hd.objective
      fun _ hname => LinearProgram.mem_variableNames.mpr (.inl hname)]

end Optima.Simplex
