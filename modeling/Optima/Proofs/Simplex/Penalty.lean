import Mathlib
import Optima.Proofs.Simplex.Optimality

namespace Optima.Simplex

open State

variable {p : LinearProgram ℚ} {s s₀ : State ℚ} {x : String → ℚ} {y d : ℕ → ℚ}

theorem artificial_eq_zero_of_total (hd : ∀ j < s.columnCount, 0 ≤ d j)
    (h : s.artificialTotal d = 0) : ∀ j < s.columnCount, s.isArtificial j = true → d j = 0 := by
  intro j hj hart
  have hterm := (Finset.sum_eq_zero_iff_of_nonneg fun k hk => by
    split_ifs
    · exact hd k (Finset.mem_range.mp hk)
    · exact le_rfl).mp h j (Finset.mem_range.mpr hj)
  rwa [if_pos hart] at hterm

/-- Without anything on the artificial columns none is basic at a positive value. -/
theorem State.Follows.usesArtificial_of_total (h : Follows s₀ s)
    (htotal : s₀.artificialTotal s.value = 0) : s.usesArtificial = false := by
  apply List.any_eq_false.mpr
  intro ⟨j, b⟩ hmem hpositive
  obtain ⟨i, hi, hij⟩ := List.getElem_of_mem hmem
  rw [List.length_zip, lt_min_iff] at hi
  rw [List.getElem_zip, Prod.mk.injEq] at hij
  obtain ⟨rfl, rfl⟩ := hij
  obtain ⟨hart, hb⟩ := Bool.and_eq_true_iff.mp hpositive
  have hvalue := h.canonical.spread_basis (s.rhs.getD · 0) hi.1
  have hlt := h.canonical.basis_lt i hi.1
  rw [List.getD_eq_getElem _ _ hi.1] at hvalue hlt
  have h0 := artificial_eq_zero_of_total (fun j _ => h.value_nonneg j) htotal _
    (h.columnCount ▸ hlt) (by rwa [← h.isArtificial])
  rw [Tableau.value_eq_spread, hvalue, List.getD_eq_getElem _ _ hi.2] at h0
  exact absurd (h0 ▸ of_decide_eq_true hb) (not_lt.mpr Scalar.tolerance_pos.le)

/-- What a point or a ray costs: the objective less the penalty. -/
theorem direction_smul_costAt (hp : p.fault? = none) (hd : p.NamesDistinct)
    (hy : ∀ j < p.variableNames.length, y j = x (p.variableNames.getD j "")) :
    p.goal.direction • (firstTableau p).costAt y =
      ⟨p.goal.direction * p.objective.eval x, -(firstState p).artificialTotal y⟩ := by
  rw [costAt_firstTableau hp hd hy, smul_add, smul_comm, Goal.direction_smul_artificialCost]
  ext <;> simp [mul_comm]

theorem multiple_direction_smul_cost {j : ℕ} (hj : j < (firstTableau p).columnCount) :
    (p.goal.direction • (firstTableau p).cost.getD j 0).multiple =
      if (firstState p).isArtificial j then -1 else 0 := by
  rw [firstTableau_cost hj, smul_add, BigM.multiple_add]
  have hobjective : (p.goal.direction • if j < p.variableNames.length then
      BigM.ofScalar (p.objective.coefficient (p.variableNames.getD j "")) else 0).multiple = 0 := by
    split_ifs <;> simp
  have hpenalty : (p.goal.direction • if (firstState p).isArtificial j then
      p.goal.artificialCost else (0 : BigM ℚ)).multiple =
      if (firstState p).isArtificial j then -1 else 0 := by
    split_ifs
    · rw [Goal.direction_smul_artificialCost, BigM.multiple_penalty]
    · rw [smul_zero, BigM.multiple_zero]
  rw [hobjective, hpenalty, zero_add]

/-- The penalty part of a cost, whatever the names: what is put on the artificial columns. -/
theorem multiple_direction_smul_costAt (p : LinearProgram ℚ) (y : ℕ → ℚ) :
    (p.goal.direction • (firstTableau p).costAt y).multiple =
      -(firstState p).artificialTotal y := by
  rw [Tableau.costAt, Finset.smul_sum, BigM.multiple_sum, artificialTotal,
    ← Finset.sum_neg_distrib]
  apply Finset.sum_congr rfl
  intro j hj
  rw [smul_comm, BigM.multiple_smul, multiple_direction_smul_cost (Finset.mem_range.mp hj)]
  split_ifs <;> ring

/-- If no relative cost improves in its penalty part, no solution has less on the artificial columns
than the basic point. -/
theorem artificialTotal_value_le (h : Follows (firstState p) s)
    (hc : ∀ c ∈ s.relativeCost, 0 ≤ (p.goal.direction • c).multiple)
    (hy : (firstTableau p).Solves y) (hnonneg : ∀ j < (firstTableau p).columnCount, 0 ≤ y j) :
    (firstState p).artificialTotal s.value ≤ (firstState p).artificialTotal y := by
  have hcost : (firstTableau p).costAt y = (firstTableau p).costAt s.value -
      ∑ j ∈ Finset.range s.columnCount, y j • s.relativeCost.getD j 0 := by
    have hy' := h.canonical.costAt_eq ((h.solves y).mpr hy)
    rwa [← h.canonical.costAt_value, h.costAt, h.costAt] at hy'
  -- moving from the basic point to another one cannot gain on the penalty
  have hsum : 0 ≤ (p.goal.direction •
      ∑ j ∈ Finset.range s.columnCount, y j • s.relativeCost.getD j 0).multiple := by
    rw [Finset.smul_sum, BigM.multiple_sum]
    apply Finset.sum_nonneg
    intro j hj
    have hcost : 0 ≤ (p.goal.direction • s.relativeCost.getD j 0).multiple :=
      getD_of_forall_mem hc (by rw [smul_zero, BigM.multiple_zero]) j
    rw [smul_comm]
    exact mul_nonneg hcost (hnonneg j (h.columnCount ▸ Finset.mem_range.mp hj))
  have hy' := multiple_direction_smul_costAt p y
  rw [hcost, smul_sub, BigM.multiple_sub, multiple_direction_smul_costAt] at hy'
  linarith

theorem usesArtificial_eq_false_of_relativeCost (hp : p.fault? = none) (hd : p.NamesDistinct)
    (h : Follows (firstState p) s)
    (hc : ∀ c ∈ s.relativeCost, 0 ≤ (p.goal.direction • c).multiple) (hx : p.Feasible x) :
    s.usesArtificial = false := by
  obtain ⟨y, hy⟩ := (feasible_iff_extends hp hd x).mp hx
  have hle := artificialTotal_value_le h hc hy.solves hy.nonneg
  have hzero : (firstState p).artificialTotal y = 0 := artificialTotal_eq_zero hy.artificial
  exact h.usesArtificial_of_total (le_antisymm (hle.trans hzero.le)
    (artificialTotal_nonneg fun j _ => h.value_nonneg j))

end Optima.Simplex
