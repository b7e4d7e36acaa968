import Mathlib
import Optima.Proofs.Simplex.Rays

namespace Optima.Simplex

open State

variable {rule : PivotRule} {s t s₀ : State ℚ} {row column : ℕ} {ratio : ℚ}

namespace Tableau

variable {t : Tableau ℚ (BigM ℚ)} {x : ℕ → ℚ} {j : ℕ}

theorem exists_basis_eq (hj : j ∈ t.basis) : ∃ i < t.rowCount, t.basis.getD i 0 = j := by
  obtain ⟨i, hi, rfl⟩ := List.getElem_of_mem hj
  exact ⟨i, hi, List.getD_eq_getElem _ _ hi⟩

theorem basis_mem {i : ℕ} (hi : i < t.rowCount) : t.basis.getD i 0 ∈ t.basis := by
  rw [List.getD_eq_getElem _ _ hi]
  exact List.getElem_mem hi

namespace Canonical

theorem lt_columnCount_of_mem (h : t.Canonical) (hj : j ∈ t.basis) : j < t.columnCount := by
  obtain ⟨i, hi, rfl⟩ := exists_basis_eq hj
  exact h.basis_lt i hi

theorem basis_mem_powersetCard (h : t.Canonical) :
    t.basis.toFinset ∈ (Finset.range t.columnCount).powersetCard t.rowCount := by
  rw [Finset.mem_powersetCard]
  constructor
  · intro j hj
    exact Finset.mem_range.mpr (h.lt_columnCount_of_mem (List.mem_toFinset.mp hj))
  · exact List.toFinset_card_of_nodup h.basis_nodup

theorem value_basis (h : t.Canonical) {i : ℕ} (hi : i < t.rowCount) :
    t.value (t.basis.getD i 0) = t.rhs.getD i 0 := h.spread_basis _ hi

theorem relativeCost_of_mem (h : t.Canonical) (hj : j ∈ t.basis) :
    t.relativeCost.getD j 0 = 0 := by
  obtain ⟨i, hi, rfl⟩ := exists_basis_eq hj
  exact h.relativeCost_basis hi

/-- A solution of the rows with nothing outside the basis is the basic point. -/
theorem eq_value (h : t.Canonical) (hx : t.Solves x) (hzero : ∀ j ∉ t.basis, x j = 0) :
    x = t.value := by
  have hspread : x = t.spread fun i => x (t.basis.getD i 0) := by
    funext j
    by_cases hj : j ∈ t.basis
    · obtain ⟨i, hi, rfl⟩ := exists_basis_eq hj
      exact (h.spread_basis (fun i => x (t.basis.getD i 0)) hi).symm
    · rw [hzero j hj, spread_of_not_mem hj]
  funext j
  by_cases hj : j ∈ t.basis
  · obtain ⟨i, hi, rfl⟩ := exists_basis_eq hj
    rw [h.value_basis hi, ← hx i hi]
    exact ((congrArg (t.lhs · i) hspread).trans (h.lhs_spread _ hi)).symm
  · rw [hzero j hj, value_eq_spread, spread_of_not_mem hj]

end Canonical

end Tableau

namespace State

/-- A pivot chosen by a rule, in which no number is within the tolerance. -/
structure Pivots (rule : PivotRule) (s t : State ℚ) (row column : ℕ) (ratio : ℚ) : Prop where
  move : s.move rule = .ok (.pivot row column ratio)
  after : t = s.after (.pivot row column ratio)
  eliminate : (s.eliminate row column).Separated

/-- A separated step is a pivot, or leaves the tableau alone and ends in a terminal state. -/
theorem SeparatedStep.cases (h : SeparatedStep rule s t) :
    (t.status.isTerminal = true ∧ t.toTableau = s.toTableau ∧ t.iteration = s.iteration) ∨
      s.status.isTerminal = false ∧ ∃ row column ratio, Pivots rule s t row column ratio := by
  cases hs : s.status.isTerminal with
  | true =>
    obtain rfl := eq_of_isTerminal hs h.step
    exact .inl ⟨hs, rfl, rfl⟩
  | false =>
    obtain ⟨m, hm, rfl⟩ := exists_move hs h.step
    cases m with
    | stopInfeasible | stopOptimal | stopUnbounded column => exact .inl ⟨rfl, rfl, rfl⟩
    | pivot row column ratio => exact .inr ⟨rfl, _, _, _, hm, rfl, h.eliminate _ _ _ hs hm⟩

namespace Pivots

theorem entering (h : Pivots rule s t row column ratio) : s.entering? rule = some column :=
  (moveFits h.move).1

theorem smallest (h : Pivots rule s t row column ratio) :
    Tableau.smallestRatio? (s.ratios column) = some (row, ratio) :=
  (moveFits h.move).2

theorem ratio_nonneg (h : Pivots rule s t row column ratio) : 0 ≤ ratio :=
  (Tableau.smallestRatio?_eq_some h.smallest).2.1

theorem basis (h : Pivots rule s t row column ratio) : t.basis = s.basis.set row column := by
  rw [h.after]
  rfl

theorem iteration (h : Pivots rule s t row column ratio) : t.iteration = s.iteration + 1 := by
  rw [h.after]
  rfl

theorem rowCount (h : Pivots rule s t row column ratio) : t.rowCount = s.rowCount := by
  rw [Tableau.rowCount, h.basis, List.length_set, Tableau.rowCount]

theorem row_lt (h : Pivots rule s t row column ratio) (hs : Follows s₀ s) : row < s.rowCount :=
  (Tableau.tolerance_lt_of_smallestRatio? hs.canonical.toShaped h.smallest).1

theorem get_pos (h : Pivots rule s t row column ratio) (hs : Follows s₀ s) :
    0 < s.body.get row column :=
  Scalar.tolerance_pos.trans
    (Tableau.tolerance_lt_of_smallestRatio? hs.canonical.toShaped h.smallest).2.1

theorem basis_getD (h : Pivots rule s t row column ratio) (hs : Follows s₀ s) (i : ℕ) :
    t.basis.getD i 0 = if i = row then column else s.basis.getD i 0 := by
  rw [h.basis]
  exact getD_set (h.row_lt hs) column 0 i

theorem column_mem (h : Pivots rule s t row column ratio) (hs : Follows s₀ s) :
    column ∈ t.basis := by
  rw [h.basis]
  exact List.mem_set (h.row_lt hs) column

theorem not_mem (h : Pivots rule s t row column ratio) (hs : Follows s₀ s) :
    column ∉ s.basis := by
  intro hmem
  have hneg := Tableau.direction_smul_neg_of_entering? hs.separated h.entering
  rw [hs.canonical.relativeCost_of_mem hmem, smul_zero] at hneg
  exact lt_irrefl _ hneg

theorem mem_of_mem (h : Pivots rule s t row column ratio) {j : ℕ} (hj : j ∈ t.basis)
    (hne : j ≠ column) : j ∈ s.basis := by
  rw [h.basis] at hj
  exact (List.mem_or_eq_of_mem_set hj).resolve_right hne

theorem eq_of_not_mem (h : Pivots rule s t row column ratio) (hs : Follows s₀ s) {j : ℕ}
    (hj : j ∈ s.basis) (hnot : j ∉ t.basis) : s.basis.getD row 0 = j := by
  obtain ⟨i, hi, rfl⟩ := Tableau.exists_basis_eq hj
  by_contra hne
  have hir : i ≠ row := fun heq => hne (heq ▸ rfl)
  have hget := h.basis_getD hs i
  rw [if_neg hir] at hget
  apply hnot
  rw [← hget]
  exact Tableau.basis_mem (h.rowCount.symm ▸ hi)

/-- The ratio of a pivot is the value at which its column enters. -/
theorem value_column (h : Pivots rule s t row column ratio) (hs : Follows s₀ s)
    (ht : Follows s₀ t) : t.value column = ratio := by
  obtain ⟨hrow, -, hratio⟩ :=
    Tableau.tolerance_lt_of_smallestRatio? hs.canonical.toShaped h.smallest
  have hrhs : t.rhs = (s.eliminate row column).rhs := by
    rw [h.after]
    have hpivot := congrArg Tableau.rhs (pivot_eq_of_separated h.eliminate)
    exact hpivot
  have hvalue := ht.canonical.value_basis (h.rowCount.symm ▸ hrow)
  rw [h.basis_getD hs, if_pos rfl, hrhs, Tableau.rhs_eliminate hs.canonical.toShaped hrow,
    if_pos rfl] at hvalue
  rw [hvalue, hratio, (hs.separated.rhs_getD row).snap_eq]

/-- A pivot moves the objective by its ratio along the relative cost. -/
theorem objectiveValue (h : Pivots rule s t row column ratio) (hs : Follows s₀ s)
    (ht : Follows s₀ t) :
    t.objectiveValue = s.objectiveValue - ratio • s.relativeCost.getD column 0 := by
  have hcost : s.costAt t.value = t.objectiveValue := by
    rw [hs.costAt, ← ht.costAt, ht.canonical.costAt_value]
  rw [← hcost, hs.canonical.costAt_eq ((hs.solves _).mpr ht.solves_value),
    Finset.sum_eq_single column, h.value_column hs ht]
  · intro j _ hj
    by_cases hmem : j ∈ t.basis
    · rw [hs.canonical.relativeCost_of_mem (h.mem_of_mem hmem hj), smul_zero]
    · rw [Tableau.value_eq_spread, Tableau.spread_of_not_mem hmem, zero_smul]
  · intro hnot
    have hcolumn := Tableau.lt_columnCount_of_entering? hs.canonical h.entering
    exact absurd (Finset.mem_range.mpr hcolumn) hnot

/-- A pivot with a ratio of zero stays at its basic point. -/
theorem value_eq (h : Pivots rule s t row column ratio) (hs : Follows s₀ s) (ht : Follows s₀ t)
    (hzero : ratio = 0) : t.value = s.value := by
  apply hs.canonical.eq_value ((hs.solves _).mpr ht.solves_value)
  intro j hj
  by_cases hjc : j = column
  · rw [hjc, h.value_column hs ht, hzero]
  · rw [Tableau.value_eq_spread, Tableau.spread_of_not_mem]
    intro hmem
    exact hj (h.mem_of_mem hmem hjc)

end Pivots

theorem SeparatedStep.pivots_of_entering (h : SeparatedStep rule s t) {j : ℕ}
    (hj : j ∉ s.basis) (hj' : j ∈ t.basis) : ∃ row ratio, Pivots rule s t row j ratio := by
  rcases h.cases with ⟨-, htableau, -⟩ | ⟨-, row, column, ratio, hp⟩
  · rw [htableau] at hj'
    exact absurd hj' hj
  · obtain rfl : j = column := by
      by_contra hne
      exact hj (hp.mem_of_mem hj' hne)
    exact ⟨row, ratio, hp⟩

/-- A column that a step takes out of the basis leaves in a pivot at its row. -/
theorem SeparatedStep.pivots_of_leaving (h : SeparatedStep rule s t) (hs : Follows s₀ s) {j : ℕ}
    (hj : j ∈ s.basis) (hj' : j ∉ t.basis) :
    ∃ row column ratio, Pivots rule s t row column ratio ∧ s.basis.getD row 0 = j := by
  rcases h.cases with ⟨-, htableau, -⟩ | ⟨-, row, column, ratio, hp⟩
  · rw [htableau] at hj'
    exact absurd hj hj'
  · exact ⟨row, column, ratio, hp, hp.eq_of_not_mem hs hj hj'⟩

namespace Follows

/-- States with the same basic columns have the same basic point. -/
theorem value_eq_of_basis (hs : Follows s₀ s) (ht : Follows s₀ t)
    (hbasis : ∀ j, j ∈ t.basis ↔ j ∈ s.basis) : t.value = s.value := by
  apply hs.canonical.eq_value ((hs.solves _).mpr ht.solves_value)
  intro j hj
  rw [Tableau.value_eq_spread, Tableau.spread_of_not_mem (mt (hbasis j).mp hj)]

theorem objectiveValue_eq_of_value (hs : Follows s₀ s) (ht : Follows s₀ t)
    (hvalue : t.value = s.value) : t.objectiveValue = s.objectiveValue := by
  rw [← ht.canonical.costAt_value, ← hs.canonical.costAt_value, hvalue, ht.costAt, hs.costAt]

/-- No step makes the objective worse, and one that leaves it stays at its basic point. -/
theorem objectiveValue_step (hs : Follows s₀ s) (hstep : SeparatedStep rule s t) :
    s₀.goal.direction • s.objectiveValue ≤ s₀.goal.direction • t.objectiveValue ∧
      (t.objectiveValue = s.objectiveValue → t.value = s.value) := by
  have ht := hs.step hstep
  rcases hstep.cases with ⟨-, htableau, -⟩ | ⟨-, row, column, ratio, hp⟩
  · rw [htableau]
    exact ⟨le_rfl, fun _ => rfl⟩
  · have hneg := Tableau.direction_smul_neg_of_entering? hs.separated hp.entering
    rw [hs.goal] at hneg
    rw [hp.objectiveValue hs ht]
    constructor
    · rw [smul_sub, smul_comm, le_sub_self_iff]
      exact smul_nonpos_of_nonneg_of_nonpos hp.ratio_nonneg hneg.le
    · intro heq
      rw [sub_eq_self, smul_eq_zero] at heq
      apply hp.value_eq hs ht
      exact heq.resolve_right fun hzero => hneg.ne (by rw [hzero, smul_zero])

theorem objectiveValue_run (hs : Follows s₀ s) (hrun : SeparatedRun s t) :
    s₀.goal.direction • s.objectiveValue ≤ s₀.goal.direction • t.objectiveValue := by
  induction hrun with
  | refl => exact le_rfl
  | tail hrun hstep ih =>
    obtain ⟨rule, hstep⟩ := hstep
    exact ih.trans ((hs.run hrun).objectiveValue_step hstep).1

end Follows

/-- States of which the first follow each other by separated steps of one rule. -/
def SteadyRun (rule : PivotRule) (n : ℕ) (run : ℕ → State ℚ) : Prop :=
  ∀ k < n, SeparatedStep rule (run k) (run (k + 1))

namespace SteadyRun

variable {run : ℕ → State ℚ} {n i j k : ℕ}

theorem separatedRun (h : SteadyRun rule n run) (hij : i ≤ j) (hj : j ≤ n) :
    SeparatedRun (run i) (run j) := by
  induction j, hij using Nat.le_induction with
  | base => exact .refl
  | succ j hij ih => exact (ih (by omega)).tail ⟨rule, h j hj⟩

theorem follows (h : SteadyRun rule n run) (h₀ : Follows s₀ (run 0)) (hk : k ≤ n) :
    Follows s₀ (run k) :=
  h₀.run (h.separatedRun (Nat.zero_le k) hk)

theorem rowCount (h : SteadyRun rule n run) (hk : k ≤ n) :
    (run k).rowCount = (run 0).rowCount := by
  induction k with
  | zero => rfl
  | succ k ih =>
    rw [← ih (by omega)]
    rcases (h k hk).cases with ⟨-, htableau, -⟩ | ⟨-, row, column, ratio, hp⟩
    · exact congrArg Tableau.rowCount htableau
    · exact hp.rowCount

/-- Every step of a run that has not ended is a pivot. -/
theorem iteration (h : SteadyRun rule n run) (hn : (run n).status.isTerminal = false)
    (hk : k ≤ n) : (run k).status.isTerminal = false ∧
      (run n).iteration = (run k).iteration + (n - k) := by
  induction hk using Nat.decreasingInduction with
  | self => exact ⟨hn, by omega⟩
  | of_succ k hk ih =>
    rcases (h k hk).cases with ⟨hterminal, -⟩ | ⟨hs, row, column, ratio, hp⟩
    · exact absurd hterminal (by simp [ih.1])
    · refine ⟨hs, ?_⟩
      rw [ih.2, hp.iteration]
      omega

theorem objectiveValue_mono (h : SteadyRun rule n run) (h₀ : Follows s₀ (run 0)) (hij : i ≤ j)
    (hj : j ≤ n) :
    s₀.goal.direction • (run i).objectiveValue ≤ s₀.goal.direction • (run j).objectiveValue :=
  (h.follows h₀ (hij.trans hj)).objectiveValue_run (h.separatedRun hij hj)

/-- Between two states with the same objective value a run stays at one point. -/
theorem value_eq (h : SteadyRun rule n run) (h₀ : Follows s₀ (run 0)) (hj : j ≤ n)
    (hobjective : (run i).objectiveValue = (run j).objectiveValue) (hik : i ≤ k) (hkj : k ≤ j) :
    (run k).value = (run i).value := by
  induction k, hik using Nat.le_induction with
  | base => rfl
  | succ k hik ih =>
    rw [← ih (by omega)]
    apply ((h.follows h₀ (by omega)).objectiveValue_step (h k (by omega))).2
    -- the objective is caught between its two values at the ends
    apply Goal.direction_smul_injective s₀.goal
    apply le_antisymm
    · have hle := h.objectiveValue_mono h₀ hkj hj
      rw [← hobjective] at hle
      exact hle.trans (h.objectiveValue_mono h₀ hik (by omega))
    · exact h.objectiveValue_mono h₀ (by omega) (by omega)

end SteadyRun

def play (s : State ℚ) (moves : List (Move ℚ)) (k : ℕ) : State ℚ :=
  (moves.take k).foldl State.after s

theorem steadyRun_play (moves : List (Move ℚ)) {s : State ℚ}
    (h : RunFits s (moves.map fun m => (rule, m))) :
    SteadyRun rule moves.length (s.play moves) := by
  induction moves generalizing s with
  | nil => exact fun k hk => absurd hk (Nat.not_lt_zero k)
  | cons m rest ih =>
    obtain ⟨⟨hs, hmove, hpivot, hsep⟩, hrest⟩ := h
    intro k hk
    cases k with
    | zero => exact separatedStep_of_moveFits hs hmove hpivot hsep
    | succ k => exact ih hrest k (Nat.lt_of_succ_lt_succ hk)

end State

end Optima.Simplex
