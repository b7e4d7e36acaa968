import Mathlib
import Optima.Proofs.Simplex.Costs
import Optima.Simplex.Report

namespace Optima.Simplex

open State

variable {p : LinearProgram ℚ} {rule : PivotRule} {s t s₀ : State ℚ}

theorem eq_firstState_of_start (h : start p = .ok s₀) : p.fault? = none ∧ s₀ = firstState p := by
  unfold start at h
  split at h
  · simp at h
  · next hp => exact ⟨hp, (Except.ok.inj h).symm⟩

theorem start_eq_firstState (hp : p.fault? = none) : start p = .ok (firstState p) := by
  rw [start, hp]

theorem follows_firstState (h : (firstState p).Separated) :
    Follows (firstState p) (firstState p) := by
  refine ⟨firstTableau_canonical p, h, ?_, rfl, rfl, rfl, rfl, fun _ => Iff.rfl⟩
  intro i hi
  have hi : i < (rowsOf p).length := by rwa [← rowCount_firstTableau]
  have hrhs : (firstState p).rhs.getD i 0 = (rowsOf p)[i].bound := firstTableau_rhs hi
  rw [hrhs]
  exact rowsOf_bound_nonneg (List.getElem_mem hi)

namespace State.Follows

theorem isArtificial (h : Follows s₀ s) (j : ℕ) : s.isArtificial j = s₀.isArtificial j := by
  rw [State.isArtificial, State.isArtificial, h.kinds]

/-- Without positive artificial values in the basis no artificial column has a value. -/
theorem value_of_isArtificial (h : Follows s₀ s) (hu : s.usesArtificial = false) {j : ℕ}
    (hj : s.isArtificial j = true) : s.value j = 0 := by
  unfold Tableau.value
  split
  · next i hi =>
    obtain ⟨hlt, hget, -⟩ := List.idxOf?_eq_some_iff.mp hi
    have hrhs : i < s.rhs.length := h.canonical.rhs.symm ▸ hlt
    have hmem : (j, s.rhs.getD i 0) ∈ s.basis.zip s.rhs := by
      rw [← hget, List.getD_eq_getElem _ _ hrhs, ← List.getElem_zip (h := by simp [hlt, hrhs])]
      exact List.getElem_mem _
    have hle : s.rhs.getD i 0 ≤ Scalar.tolerance := by
      have := List.any_eq_false.mp hu _ hmem
      simpa [hj] using this
    -- the test passes over negligible values, but a value that is one is zero
    by_contra hne
    have hclear := h.separated.rhs_getD i hne
    rw [abs_of_nonneg (h.rhs_nonneg i hlt)] at hclear
    exact absurd hle (not_le.mpr hclear)
  · rfl

/-- Without improving relative costs no nonnegative solution of the first rows costs less. -/
theorem direction_smul_costAt_le (h : Follows s₀ s)
    (hc : ∀ c ∈ s.relativeCost, 0 ≤ s₀.goal.direction • c) {z : ℕ → ℚ} (hz : s₀.Solves z)
    (hnonneg : ∀ j < s₀.columnCount, 0 ≤ z j) :
    s₀.goal.direction • s₀.costAt z ≤ s₀.goal.direction • s.objectiveValue := by
  have hsum : 0 ≤ ∑ j ∈ Finset.range s.columnCount,
      s₀.goal.direction • (z j • s.relativeCost.getD j 0) := by
    apply Finset.sum_nonneg
    intro j hj
    have hcost : 0 ≤ s₀.goal.direction • s.relativeCost.getD j 0 :=
      getD_of_forall_mem hc (smul_zero _).ge j
    rw [smul_comm]
    exact smul_nonneg (hnonneg j (h.columnCount ▸ Finset.mem_range.mp hj)) hcost
  rw [← h.costAt, h.canonical.costAt_eq ((h.solves z).mpr hz), smul_sub, Finset.smul_sum]
  exact sub_le_self _ hsum

end State.Follows

theorem extends_pointOf (hd : p.NamesDistinct) (h : Follows (firstState p) s)
    (hu : s.usesArtificial = false) : Extends p (pointOf p s.value) s.value where
  nonneg j _ := h.value_nonneg j
  decision j hj := eq_pointOf hd s.value hj
  artificial j _ hart := h.value_of_isArtificial hu (by rwa [h.isArtificial])
  solves := h.solves_value

theorem take_namedValues (hd : p.NamesDistinct) (h : Follows (firstState p) s) :
    s.namedValues.take p.variableNames.length =
      p.variableNames.map fun name => (name, pointOf p s.value name) := by
  have hcount : s.columnCount = p.variableNames.length + (addedColumns p).flatten.length :=
    h.columnCount.trans (columnCount_firstTableau p)
  have hkeep : (List.range p.variableNames.length).filter (fun j => !s.isArtificial j) =
      List.range p.variableNames.length := by
    apply List.filter_eq_self.mpr
    intro j hj
    rw [h.isArtificial, isArtificial_decision (List.mem_range.mp hj)]
    rfl
  -- what is left out comes after the columns of the variables
  rw [namedValues, hcount, List.range_add, List.filter_append, hkeep, List.map_append,
    List.take_append_of_le_length (by simp), List.take_of_length_le (by simp)]
  apply List.ext_getElem (by simp)
  intro j hj _
  have hj : j < p.variableNames.length := by simpa using hj
  have hname : s.columnName j = p.variableNames[j] := by
    have hnames : s.names = p.variableNames ++ (addedColumns p).flatten.map (·.name) := h.names
    rw [columnName, hnames, List.getD_append _ _ _ _ hj, List.getD_eq_getElem _ _ hj]
  rw [List.getElem_map, List.getElem_map, List.getElem_range, hname, eq_pointOf hd s.value hj,
    List.getD_eq_getElem _ _ hj]

theorem objectiveValue_eq_eval (hp : p.fault? = none) (hd : p.NamesDistinct)
    (h : Follows (firstState p) s) (hu : s.usesArtificial = false) :
    s.objectiveValue = BigM.ofScalar (p.objective.eval (pointOf p s.value)) := by
  have hext := extends_pointOf hd h hu
  have hcost : (firstState p).costAt s.value = _ :=
    costAt_firstTableau hp hd hext.decision
  rw [← h.canonical.costAt_value, h.costAt, hcost, artificialTotal_eq_zero hext.artificial,
    zero_smul, add_zero]

theorem direction_smul_le_iff {g : Goal} {a b : ℚ} :
    g.direction • BigM.ofScalar a ≤ g.direction • BigM.ofScalar b ↔
      ¬ g.Better a b := by
  rw [Goal.better_iff, not_lt, BigM.le_iff]
  simp [mul_comm]

/-- No feasible point beats a state without improving relative costs. -/
theorem not_better_of_relativeCost_nonneg (hp : p.fault? = none) (hd : p.NamesDistinct)
    (h : Follows (firstState p) s) (hu : s.usesArtificial = false)
    (hc : ∀ c ∈ s.relativeCost, 0 ≤ p.goal.direction • c) {y : String → ℚ} (hy : p.Feasible y) :
    ¬ p.goal.Better (p.objective.eval y) (p.objective.eval (pointOf p s.value)) := by
  obtain ⟨z, hz⟩ := (feasible_iff_extends hp hd y).mp hy
  have hle := h.direction_smul_costAt_le hc hz.solves hz.nonneg
  have hcost : (firstState p).costAt z = BigM.ofScalar (p.objective.eval y) + _ :=
    costAt_firstTableau hp hd hz.decision
  rw [hcost, artificialTotal_eq_zero hz.artificial, zero_smul, add_zero,
    objectiveValue_eq_eval hp hd h hu] at hle
  exact direction_smul_le_iff.mp hle

/-- A run that ends with an optimal state reports a feasible point, the objective there, and no
feasible point is better. -/
theorem report_of_optimal (hstart : start p = .ok s₀) (hd : p.NamesDistinct)
    (hsep : s₀.Separated) (hrun : SeparatedRun s₀ s) (hs : s.status = .optimal) :
    ∃ solution x, s.report = .optimal solution ∧
      solution.values.take p.variableNames.length =
        p.variableNames.map (fun name => (name, x name)) ∧
      p.Feasible x ∧ solution.objectiveValue = BigM.ofScalar (p.objective.eval x) ∧
      ∀ y, p.Feasible y → ¬ p.goal.Better (p.objective.eval y) (p.objective.eval x) := by
  obtain ⟨hp, rfl⟩ := eq_firstState_of_start hstart
  have h : Follows (firstState p) s := (follows_firstState hsep).run hrun
  -- the last step found no column to enter, and no artificial column left
  obtain ⟨u, rule, -, hu, hstep⟩ := exists_last_step hrun rfl (by rw [hs]; rfl)
  have hverdict := verdict_of_step hu hstep (by rw [hs]; rfl)
  rw [Verdict, hs] at hverdict
  obtain ⟨hnone, huses⟩ := hverdict
  refine ⟨⟨s.objectiveValue, s.namedValues⟩, pointOf p s.value, ?_, take_namedValues hd h, ?_,
    objectiveValue_eq_eval hp hd h huses, ?_⟩
  · simp [report, hs, huses]
  · exact (feasible_iff_extends hp hd _).mpr ⟨_, extends_pointOf hd h huses⟩
  · intro y hy
    refine not_better_of_relativeCost_nonneg hp hd h huses ?_ hy
    have hc := Tableau.nonneg_of_entering?_eq_none h.separated hnone
    rwa [h.goal] at hc

def blend : LinearProgram ℚ where
  objective := ⟨[2, 3], ["x", "y"]⟩
  constraints := [⟨⟨[1, 1], ["x", "y"]⟩, .atLeast, 1⟩, ⟨⟨[1], ["x"]⟩, .atLeast, 0⟩,
    ⟨⟨[-1, -1], ["y", "x"]⟩, .atLeast, -5⟩]
  goal := .minimize

def blendEnd : State ℚ := ((firstState blend).after (.pivot 0 0 1)).after .stopOptimal

theorem start_blend : start blend = .ok (firstState blend) := by cbv

theorem blend_fits : RunFits (firstState blend)
    [(.largestCoefficient, .pivot 0 0 1), (.firstProfitable, .stopOptimal)] := by
  decide +kernel

theorem blend_run : SeparatedRun (firstState blend) blendEnd := separatedRun_of_runFits _ blend_fits

theorem report_of_blend : ∃ solution x, blendEnd.report = .optimal solution ∧
    solution.values.take 2 = [("x", x "x"), ("y", x "y")] ∧
    blend.Feasible x ∧ solution.objectiveValue = BigM.ofScalar (blend.objective.eval x) ∧
    ∀ y, blend.Feasible y →
      ¬ Goal.minimize.Better (blend.objective.eval y) (blend.objective.eval x) :=
  report_of_optimal start_blend ⟨by decide, by decide⟩
    (by decide +kernel) blend_run rfl

end Optima.Simplex
