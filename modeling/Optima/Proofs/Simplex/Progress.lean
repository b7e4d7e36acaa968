import Mathlib
import Optima.Proofs.Simplex.Termination

namespace Optima.Simplex

open State

variable {p : LinearProgram ℚ} {rule : PivotRule} {s t s₀ : State ℚ} {row column : ℕ} {theta : ℚ}

namespace State

/-- The ratios of right side and coefficient in the rows whose coefficient is positive. -/
def positiveRatios (s : State ℚ) (column : ℕ) : Set ℚ :=
  {r | ∃ i < s.rowCount, 0 < s.body.get i column ∧ r = s.rhs.getD i 0 / s.body.get i column}

structure PivotStep (rule : PivotRule) (s t : State ℚ) (column : ℕ) (theta : ℚ) : Prop where
  step : SeparatedStep rule s t
  running : s.status.isTerminal = false
  move : ∃ row, s.move rule = .ok (.pivot row column theta)

theorem PivotStep.exists_pivots (h : PivotStep rule s t column theta) :
    ∃ row, Pivots rule s t row column theta := by
  obtain ⟨row, hmove⟩ := h.move
  refine ⟨row, hmove, ?_, h.step.eliminate row column theta h.running hmove⟩
  exact Except.ok.inj (h.step.step.symm.trans (step_of_move h.running hmove))

namespace Pivots

/-- Where no number is within the tolerance, the ratio of a pivot is the smallest of all rows. -/
theorem isLeast_ratio (h : Pivots rule s t row column theta) (hs : Follows s₀ s) :
    IsLeast (s.positiveRatios column) theta := by
  have hshaped := hs.canonical.toShaped
  obtain ⟨hrow, -, htheta⟩ := Tableau.tolerance_lt_of_smallestRatio? hshaped h.smallest
  rw [(hs.separated.rhs_getD row).snap_eq] at htheta
  refine ⟨⟨row, hrow, h.get_pos hs, htheta⟩, ?_⟩
  rintro _ ⟨i, hi, hpos, rfl⟩
  refine (Tableau.smallestRatio?_eq_some h.smallest).2.2 i _ ?_
    (div_nonneg (hs.rhs_nonneg i hi) hpos.le)
  rw [Tableau.ratios_getElem? hshaped column hi, if_pos (hs.separated.tolerance_lt hpos),
    (hs.separated.rhs_getD i).snap_eq]

theorem objectiveValue_lt (h : Pivots rule s t row column theta) (hs : Follows s₀ s)
    (ht : Follows s₀ t) (hpos : 0 < theta) :
    s₀.goal.direction • s.objectiveValue < s₀.goal.direction • t.objectiveValue := by
  have hneg := Tableau.direction_smul_neg_of_entering? hs.separated h.entering
  rw [hs.goal] at hneg
  rw [h.objectiveValue hs ht, smul_sub, smul_comm, lt_sub_iff_add_lt, add_lt_iff_neg_left]
  exact (smul_nonpos_of_nonneg_of_nonpos hpos.le hneg.le).lt_of_ne
    (smul_ne_zero hpos.ne' hneg.ne)

end Pivots

/-- A pivot between two states with the same basic columns has a ratio of zero. -/
theorem PivotStep.theta_eq_zero {a b : State ℚ} (h : PivotStep rule a b column theta)
    (hs : Follows s₀ s) (hsa : SeparatedRun s a) (hbt : SeparatedRun b t)
    (hbasis : ∀ j, j ∈ t.basis ↔ j ∈ s.basis) : theta = 0 := by
  obtain ⟨row, hpivots⟩ := h.exists_pivots
  have ha := hs.run hsa
  have hb := ha.step h.step
  have ht := hb.run hbt
  have hback := hs.objectiveValue_eq_of_value ht (hs.value_eq_of_basis ht hbasis)
  by_contra hne
  -- the objective cannot go back over what the pivot gained
  have hlt := hpivots.objectiveValue_lt ha hb (hpivots.ratio_nonneg.lt_of_ne' hne)
  have hle := (hs.objectiveValue_run hsa).trans_lt (hlt.trans_le (hb.objectiveValue_run hbt))
  rw [hback] at hle
  exact lt_irrefl _ hle

end State

/-- A pivot of a separated run moves the objective by its minimum ratio along the relative cost of
its column. The objective does not get worse, and gets better when the ratio is positive. When a set
of basic columns comes back, all ratios in between are zero. -/
theorem objective_of_pivotStep (hstart : start p = .ok s₀) (hsep : s₀.Separated)
    (hrun : SeparatedRun s₀ s) :
    (∀ rule t column theta, PivotStep rule s t column theta →
      IsLeast (s.positiveRatios column) theta ∧ 0 ≤ theta ∧
      t.objectiveValue.constant =
        s.objectiveValue.constant - theta * (s.relativeCost.getD column 0).constant ∧
      t.objectiveValue.multiple =
        s.objectiveValue.multiple - theta * (s.relativeCost.getD column 0).multiple ∧
      ¬ p.goal.Beats s.objectiveValue t.objectiveValue ∧
      (0 < theta → p.goal.Beats t.objectiveValue s.objectiveValue)) ∧
    ∀ a b t rule column theta, SeparatedRun s a → PivotStep rule a b column theta →
      SeparatedRun b t → t.basis.toFinset = s.basis.toFinset → theta = 0 := by
  obtain ⟨-, rfl⟩ := eq_firstState_of_start hstart
  have hs : Follows (firstState p) s := (follows_firstState hsep).run hrun
  constructor
  · intro rule t column theta hpivot
    obtain ⟨row, hpivots⟩ := hpivot.exists_pivots
    have ht := hs.step hpivot.step
    have hobjective := hpivots.objectiveValue hs ht
    refine ⟨hpivots.isLeast_ratio hs, hpivots.ratio_nonneg, ?_, ?_, ?_, fun hpos => ?_⟩
    · rw [hobjective, BigM.constant_sub, BigM.constant_smul, mul_comm]
    · rw [hobjective, BigM.multiple_sub, BigM.multiple_smul, mul_comm]
    · rw [Goal.beats_iff, not_lt]
      exact (hs.objectiveValue_step hpivot.step).1
    · exact Goal.beats_iff.mpr (hpivots.objectiveValue_lt hs ht hpos)
  · intro a b t rule column theta hsa hpivot hbt hbasis
    refine hpivot.theta_eq_zero hs hsa hbt fun j => ?_
    rw [← List.mem_toFinset, hbasis, List.mem_toFinset]

theorem carousel_pivotStep {k row : ℕ} (hk : k < 7)
    (hmove : carouselMove k = .pivot row column theta) :
    PivotStep .firstProfitable (carouselRun k) (carouselRun (k + 1)) column theta :=
  ⟨carousel_steady k hk, (carousel_running k).1, row,
    move_eq_of_moveFits (hmove ▸ carousel_moveFits k)⟩

/-- The first pivot for the blend improves its objective. The carousel is back at its basic columns
after six pivots that did not. -/
theorem blend_gains_carousel_stays :
    (∃ t, PivotStep .largestCoefficient (firstState blend) t 0 1 ∧
      Goal.minimize.Beats t.objectiveValue (firstState blend).objectiveValue) ∧
    ∃ theta, PivotStep .firstProfitable (carouselRun 3) (carouselRun 4) 4 theta ∧
      IsLeast ((carouselRun 3).positiveRatios 4) theta ∧ theta = 0 := by
  constructor
  · obtain ⟨⟨hs, hmove, hpivot, hsep⟩, -⟩ := blend_fits
    have hpivot : PivotStep .largestCoefficient (firstState blend) _ 0 1 :=
      ⟨separatedStep_of_moveFits hs hmove hpivot hsep, hs, 0, move_eq_of_moveFits hmove⟩
    obtain ⟨hgain, -⟩ := objective_of_pivotStep start_blend (by decide +kernel) .refl
    obtain ⟨-, -, -, -, -, hbeats⟩ := hgain _ _ _ _ hpivot
    exact ⟨_, hpivot, hbeats one_pos⟩
  · have hpivot := carousel_pivotStep (k := 3) (by omega) rfl
    have hrun {i j : ℕ} (hij : i ≤ j) (hj : j ≤ 7) := carousel_steady.separatedRun hij hj
    obtain ⟨hgain, -⟩ := objective_of_pivotStep start_carousel carousel_fits.2.1
      (hrun (Nat.zero_le 3) (by omega))
    obtain ⟨-, hback⟩ := objective_of_pivotStep start_carousel carousel_fits.2.1
      (hrun (Nat.zero_le 1) (by omega))
    have hbasis := congrArg (fun t => t.basis.toFinset) (carousel_period 0)
    exact ⟨_, hpivot, (hgain _ _ _ _ hpivot).1, hback _ _ _ _ _ _
      (hrun (by omega) (by omega)) hpivot (hrun (by omega) le_rfl) hbasis⟩

end Optima.Simplex
