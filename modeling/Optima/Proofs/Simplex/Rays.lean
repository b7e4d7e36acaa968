import Mathlib
import Optima.Proofs.Simplex.Runs

namespace Optima.Simplex

open State

variable {rule : PivotRule} {s u s₀ : State ℚ} {y d : ℕ → ℚ}

namespace Tableau

variable {t : Tableau ℚ (BigM ℚ)}

theorem lhs_add_smul (t : Tableau ℚ (BigM ℚ)) (y d : ℕ → ℚ) (k : ℚ) (i : ℕ) :
    t.lhs (y + k • d) i = t.lhs y i + k * t.lhs d i := by
  rw [lhs, lhs, lhs, Finset.mul_sum, ← Finset.sum_add_distrib]
  apply Finset.sum_congr rfl
  intro j _
  rw [Pi.add_apply, Pi.smul_apply, smul_eq_mul]
  ring

theorem costAt_add_smul (t : Tableau ℚ (BigM ℚ)) (y d : ℕ → ℚ) (k : ℚ) :
    t.costAt (y + k • d) = t.costAt y + k • t.costAt d := by
  rw [costAt, costAt, costAt, Finset.smul_sum, ← Finset.sum_add_distrib]
  apply Finset.sum_congr rfl
  intro j _
  rw [Pi.add_apply, Pi.smul_apply, add_smul, smul_assoc]

/-- From a solution of the rows exactly the directions that change no left side lead to others. -/
theorem Solves.add_iff (hy : t.Solves y) :
    t.Solves (y + d) ↔ ∀ i < t.rowCount, t.lhs d i = 0 := by
  apply forall₂_congr
  intro i hi
  have hadd := t.lhs_add_smul y d 1 i
  rw [one_smul, one_mul, hy i hi] at hadd
  rw [hadd, add_eq_left]

/-- A direction along which no left side changes and no column becomes negative. -/
structure Ray (t : Tableau ℚ (BigM ℚ)) (d : ℕ → ℚ) : Prop where
  nonneg : ∀ j < t.columnCount, 0 ≤ d j
  lhs_eq : ∀ i < t.rowCount, t.lhs d i = 0

theorem Ray.solves (hd : t.Ray d) (hy : t.Solves y) (k : ℚ) : t.Solves (y + k • d) := by
  intro i hi
  rw [lhs_add_smul, hd.lhs_eq i hi, mul_zero, add_zero, hy i hi]

/-- The direction of a column that grows while the basic columns make up for it. -/
def rayOf (t : Tableau ℚ (BigM ℚ)) (column : ℕ) : ℕ → ℚ :=
  Pi.single column 1 + (-1 : ℚ) • t.spread (t.body.get · column)

theorem rayOf_apply (t : Tableau ℚ (BigM ℚ)) (column k : ℕ) :
    t.rayOf column k = (if k = column then 1 else 0) - t.spread (t.body.get · column) k := by
  rw [rayOf, Pi.add_apply, Pi.smul_apply, Pi.single_apply, smul_eq_mul]
  ring

theorem lhs_rayOf (h : t.Canonical) {column : ℕ} (hj : column < t.columnCount) :
    ∀ i < t.rowCount, t.lhs (t.rayOf column) i = 0 := by
  intro i hi
  have hsingle : t.lhs (Pi.single column 1) i = t.body.get i column := by
    simp [lhs, Pi.single_apply, hj]
  rw [rayOf, lhs_add_smul, hsingle, h.lhs_spread _ hi]
  ring

theorem ray_rayOf (h : t.Canonical) {column : ℕ} (hj : column < t.columnCount)
    (hle : ∀ i < t.rowCount, t.body.get i column ≤ 0) : t.Ray (t.rayOf column) := by
  refine ⟨fun k _ => ?_, lhs_rayOf h hj⟩
  have hspread : t.spread (t.body.get · column) k ≤ 0 :=
    spread_induction (P := (· ≤ 0)) le_rfl hle k
  rw [rayOf_apply]
  split_ifs <;> linarith

/-- Along the direction of a column the costs change by its relative cost. -/
theorem costAt_rayOf (h : t.Canonical) {column : ℕ} (hj : column < t.columnCount) :
    t.costAt (t.rayOf column) = -t.relativeCost.getD column 0 := by
  have hsingle : t.costAt (Pi.single column 1) = t.cost.getD column 0 := by
    simp [costAt, Pi.single_apply, hj]
  rw [rayOf, costAt_add_smul, hsingle, h.costAt_spread, h.relativeCost_eq hj, neg_one_smul,
    ← sub_eq_add_neg, neg_sub]

end Tableau

namespace State.Follows

theorem lhs_eq_zero_iff (h : Follows s₀ s) :
    (∀ i < s.rowCount, s.lhs d i = 0) ↔ ∀ i < s₀.rowCount, s₀.lhs d i = 0 := by
  rw [← Tableau.Solves.add_iff h.canonical.solves_value, h.solves,
    Tableau.Solves.add_iff h.solves_value]

theorem ray (h : Follows s₀ s) (hd : s.Ray d) : s₀.Ray d :=
  ⟨fun j hj => hd.nonneg j (h.columnCount.symm ▸ hj), h.lhs_eq_zero_iff.mp hd.lhs_eq⟩

/-- What a direction costs, read off the relative costs of any state. -/
theorem sum_smul_relativeCost (h : Follows s₀ s) (hd : ∀ i < s₀.rowCount, s₀.lhs d i = 0) :
    ∑ j ∈ Finset.range s.columnCount, d j • s.relativeCost.getD j 0 = -s₀.costAt d := by
  rw [h.canonical.sum_smul_relativeCost, h.costAt]
  have hzero := h.lhs_eq_zero_iff.mpr hd
  rw [Finset.sum_eq_zero fun i hi => by rw [hzero i (Finset.mem_range.mp hi), zero_smul], zero_sub]

/-- The column that shows unboundedness is a ray that improves the costs. -/
theorem ray_of_unbounded (h : Follows s₀ s) {column : ℕ} (he : s.entering? rule = some column)
    (hall : (s.ratios column).all Option.isNone = true) :
    s₀.Ray (s.rayOf column) ∧ 0 < s₀.goal.direction • s₀.costAt (s.rayOf column) ∧
      s₀.costAt (s.rayOf column) = -s.relativeCost.getD column 0 := by
  have hcolumn := Tableau.lt_columnCount_of_entering? h.canonical he
  -- an entry without a ratio is within the tolerance, and a positive one never is
  have hle (i : ℕ) (hi : i < s.rowCount) : s.body.get i column ≤ 0 := by
    by_contra hpos
    exact absurd (Tableau.le_tolerance_of_isNone h.canonical.toShaped hall hi)
      (not_le.mpr (h.separated.tolerance_lt (not_le.mp hpos)))
  have hcost : s₀.costAt (s.rayOf column) = -s.relativeCost.getD column 0 := by
    rw [← h.costAt, Tableau.costAt_rayOf h.canonical hcolumn]
  refine ⟨h.ray (Tableau.ray_rayOf h.canonical hcolumn hle), ?_, hcost⟩
  rw [hcost, smul_neg, ← h.goal]
  exact neg_pos.mpr (Tableau.direction_smul_neg_of_entering? h.separated he)

/-- The relative costs of one state in terms of those of another: bringing in a column takes its
entries out of the basic columns. -/
theorem relativeCost_eq (h : Follows s₀ s) (k : Follows s₀ u) {column : ℕ}
    (hj : column < s.columnCount) : s.relativeCost.getD column 0 =
      u.relativeCost.getD column 0 - ∑ i ∈ Finset.range s.rowCount,
        s.body.get i column • u.relativeCost.getD (s.basis.getD i 0) 0 := by
  have hsum := k.sum_smul_relativeCost
    (h.lhs_eq_zero_iff.mp (Tableau.lhs_rayOf h.canonical hj))
  have hcount : u.columnCount = s.columnCount := k.columnCount.trans h.columnCount.symm
  rw [← h.costAt, Tableau.costAt_rayOf h.canonical hj, neg_neg, hcount] at hsum
  rw [← hsum, ← h.canonical.sum_spread_smul (s.body.get · column) (u.relativeCost.getD · 0)]
  simp only [Tableau.rayOf_apply, sub_smul, Finset.sum_sub_distrib, ite_smul, one_smul, zero_smul]
  rw [Finset.sum_ite_eq', if_pos (Finset.mem_range.mpr hj)]

end State.Follows

end Optima.Simplex
