import Mathlib
import Optima.Proofs.Simplex.Invariance
import Optima.Proofs.Simplex.Penalty
import Optima.Proofs.Simplex.Reflection

namespace Optima

theorem Scalar.sign_snap_eq_lt {x : ℚ} : sign (snap x) = .lt ↔ x < -tolerance := by
  rw [sign_eq_lt, ← not_le, ← not_le, ← neg_tolerance_le_snap, not_iff_not]
  exact ⟨fun h => (neg_nonpos.mpr tolerance_pos.le).trans h, (isClear_snap x).nonneg⟩

theorem Scalar.sign_snap_eq_eq {x : ℚ} : sign (snap x) = .eq ↔ |x| ≤ tolerance := by
  rw [sign_eq_eq, ← isNegligible_iff, snap]
  split_ifs with h
  · exact iff_of_true rfl h
  · refine iff_of_false ?_ h
    rintro rfl
    exact h (isNegligible_iff.mpr (by rw [abs_zero]; exact tolerance_pos.le))

theorem BigM.signUpTo_tolerance_eq_lt {a : BigM ℚ} : a.signUpTo Scalar.tolerance = .lt ↔
    a.multiple < -Scalar.tolerance ∨
      |a.multiple| ≤ Scalar.tolerance ∧ a.constant < -Scalar.tolerance := by
  rw [← Scalar.sign_snap_eq_lt, ← Scalar.sign_snap_eq_eq, ← Scalar.sign_snap_eq_lt,
    ← Ordering.then_eq_lt]
  simp only [signUpTo, Scalar.snap, Scalar.isNegligible, decide_eq_true_eq]

namespace Goal

variable {g : Goal} {c : BigM ℚ}

theorem improves_iff_signUpTo :
    g.improves c = true ↔ (g.direction • c).signUpTo Scalar.tolerance = .lt := by
  have h : Cost.signUpTo Scalar.tolerance c = c.signUpTo Scalar.tolerance := rfl
  cases g with
  | maximize => simp [improves, h, isMaximization, direction]
  | minimize =>
    simp only [improves, h, isMaximization, direction, neg_smul, one_smul, BigM.signUpTo_neg]
    cases c.signUpTo Scalar.tolerance <;> decide

/-- A number improves the objective by its penalty part, or by its constant where the penalty part
counts as zero. -/
theorem improves_iff_parts : g.improves c = true ↔
    (g.direction • c).multiple < -Scalar.tolerance ∨
      |(g.direction • c).multiple| ≤ Scalar.tolerance ∧
        (g.direction • c).constant < -Scalar.tolerance := by
  rw [improves_iff_signUpTo, BigM.signUpTo_tolerance_eq_lt]

end Goal

namespace Simplex

variable {p : LinearProgram ℚ} {s s₀ : State ℚ}

namespace Tableau

variable {t : Tableau ℚ (BigM ℚ)}

/-- The best relative cost does not improve the objective although another one does: it is ahead by
a penalty part that counts as zero. -/
def Masked (t : Tableau ℚ (BigM ℚ)) : Prop :=
  ∃ b ∈ t.relativeCost, ∃ c ∈ t.relativeCost,
    (∀ d ∈ t.relativeCost, t.goal.direction • b ≤ t.goal.direction • d) ∧
    (t.goal.direction • b).multiple < (t.goal.direction • c).multiple ∧
    |(t.goal.direction • b).multiple| ≤ Scalar.tolerance ∧
    |(t.goal.direction • c).multiple| ≤ Scalar.tolerance ∧
    -Scalar.tolerance ≤ (t.goal.direction • b).constant ∧
    (t.goal.direction • c).constant < -Scalar.tolerance

theorem exists_best {c : BigM ℚ} (hc : c ∈ t.relativeCost) :
    ∃ b ∈ t.relativeCost, ∀ d ∈ t.relativeCost, t.goal.direction • b ≤ t.goal.direction • d := by
  obtain ⟨b, hb, hle⟩ := t.relativeCost.toFinset.exists_min_image (t.goal.direction • ·)
    ⟨c, List.mem_toFinset.mpr hc⟩
  exact ⟨b, List.mem_toFinset.mp hb, fun d hd => hle d (List.mem_toFinset.mpr hd)⟩

theorem entering?_firstProfitable_eq_none_iff : t.entering? .firstProfitable = none ↔
    ∀ c ∈ t.relativeCost, t.goal.improves c = false :=
  List.findIdx?_eq_none_iff

/-- The largest coefficient is nothing if every best relative cost fails the test. -/
theorem entering?_largestCoefficient_eq_none_iff : t.entering? .largestCoefficient = none ↔
    ∀ b ∈ t.relativeCost, (∀ d ∈ t.relativeCost, t.goal.direction • b ≤ t.goal.direction • d) →
      t.goal.improves b = false := by
  cases hbest : firstBest? (fun a b => t.goal.prefers a.1 b.1) t.relativeCost.zipIdx with
  | none =>
    have hnil : t.relativeCost = [] := by
      simpa using congrArg List.length (firstBest?_eq_none_iff.mp hbest)
    refine iff_of_true ?_ (by simp [hnil])
    rw [entering?, hbest]
    rfl
  | some best =>
    obtain ⟨hget, hle⟩ := best_of_firstBest? hbest
    have hmem : best.1 ∈ t.relativeCost := List.mem_of_getElem? hget
    have hnone : t.entering? .largestCoefficient = none ↔ t.goal.improves best.1 = false := by
      simp [entering?, hbest, Option.filter_eq_none_iff]
    rw [hnone]
    refine ⟨fun himp b hb hall => ?_, fun h => h best.1 hmem hle⟩
    -- relative costs that are best are equal
    have heq := le_antisymm (hall best.1 hmem) (hle b hb)
    rw [t.goal.direction_smul_injective heq]
    exact himp

/-- The two rules fall apart exactly where an improvement is masked. -/
theorem masked_iff : t.Masked ↔ t.entering? .largestCoefficient = none ∧
    ∃ c ∈ t.relativeCost, t.goal.improves c = true := by
  rw [entering?_largestCoefficient_eq_none_iff]
  constructor
  · rintro ⟨b, hb, c, hc, hbest, hlt, hbm, hcm, hbc, hcc⟩
    refine ⟨fun b' hb' hbest' => ?_, c, hc, Goal.improves_iff_parts.mpr (.inr ⟨hcm, hcc⟩)⟩
    have heq := le_antisymm (hbest' b hb) (hbest b' hb')
    rw [← Bool.not_eq_true, Goal.improves_iff_parts, heq]
    rintro (hneg | ⟨-, hneg⟩)
    · exact absurd hneg (not_lt.mpr (abs_le.mp hbm).1)
    · exact absurd hneg (not_lt.mpr hbc)
  · rintro ⟨hnone, c, hc, himp⟩
    obtain ⟨b, hb, hbest⟩ := exists_best hc
    have hfails := hnone b hb hbest
    rw [← Bool.not_eq_true, Goal.improves_iff_parts, not_or, not_and, not_lt, not_lt] at hfails
    have hle := BigM.le_iff.mp (hbest c hc)
    have hm : (t.goal.direction • b).multiple ≤ (t.goal.direction • c).multiple :=
      hle.elim le_of_lt fun h => h.1.le
    rcases Goal.improves_iff_parts.mp himp with hneg | ⟨hcm, hcc⟩
    · exact absurd (hfails.1.trans hm) (not_le.mpr hneg)
    · have hbm := abs_le.mpr ⟨hfails.1, hm.trans (abs_le.mp hcm).2⟩
      have hbc := hfails.2 hbm
      -- the constants compare the other way, so the penalty parts decide
      have hlt := hle.resolve_right fun h => absurd (hbc.trans h.2) (not_le.mpr hcc)
      exact ⟨b, hb, c, hc, hbest, hlt, hbm, hcm, hbc, hcc⟩

theorem not_masked_iff : ¬ t.Masked ↔ (t.entering? .largestCoefficient = none ↔
    ∀ c ∈ t.relativeCost, t.goal.improves c = false) := by
  have hsome : (∃ c ∈ t.relativeCost, t.goal.improves c = true) ↔
      ¬ ∀ c ∈ t.relativeCost, t.goal.improves c = false := by
    simp
  rw [masked_iff, hsome, not_and_not_right]
  refine ⟨fun h => ⟨h, fun hall => ?_⟩, Iff.mp⟩
  exact entering?_largestCoefficient_eq_none_iff.mpr fun b hb _ => hall b hb

end Tableau

namespace State

/-- The penalty part of a relative cost: what the column takes off the artificial columns of the
basis, and one for the column itself if it is artificial. -/
theorem multiple_relativeCost (h : s.Canonical) (hk : Keeps (firstState p) s) {j : ℕ}
    (hj : j < s.columnCount) : (s.goal.direction • s.relativeCost.getD j 0).multiple =
      (if s.isArtificial j then 1 else 0) -
        ∑ i ∈ Finset.range s.rowCount,
          if s.isArtificial (s.basis.getD i 0) then s.body.get i j else 0 := by
  have hart : s.isArtificial = (firstState p).isArtificial := by
    funext k
    rw [isArtificial, isArtificial, hk.kinds]
  have hcost (k : ℕ) (hlt : k < s.columnCount) :
      (s.goal.direction • s.cost.getD k 0).multiple = if s.isArtificial k then -1 else 0 := by
    have hcount : s.columnCount = (firstTableau p).columnCount := congrArg List.length hk.names
    rw [hk.goal, hk.cost, hart]
    exact multiple_direction_smul_cost (hcount ▸ hlt)
  rw [h.relativeCost_eq hj, smul_sub, Finset.smul_sum, BigM.multiple_sub, BigM.multiple_sum,
    hcost j hj, sub_eq_neg_add, sub_eq_add_neg]
  congr 1
  · split_ifs <;> norm_num
  · rw [← Finset.sum_neg_distrib]
    refine Finset.sum_congr rfl fun i hi => ?_
    have hi := Finset.mem_range.mp hi
    rw [smul_comm, BigM.multiple_smul, h.basicCost_eq i hi, hcost _ (h.basis_lt i hi)]
    split_ifs <;> ring

/-- Without an artificial column in the basis every penalty part is zero or one. -/
theorem exists_isArtificial_of_masked (h : s.Canonical) (hk : Keeps (firstState p) s)
    (hm : s.Masked) : ∃ j ∈ s.basis, s.isArtificial j = true := by
  by_contra! hnone
  have hsum (j : ℕ) : (∑ i ∈ Finset.range s.rowCount,
      if s.isArtificial (s.basis.getD i 0) then s.body.get i j else 0) = 0 := by
    apply Finset.sum_eq_zero
    intro i hi
    rw [List.getD_eq_getElem _ _ (Finset.mem_range.mp hi)]
    exact if_neg (hnone _ (List.getElem_mem _))
  have hpart (d : BigM ℚ) (hd : d ∈ s.relativeCost)
      (habs : |(s.goal.direction • d).multiple| ≤ Scalar.tolerance) :
      (s.goal.direction • d).multiple = 0 := by
    obtain ⟨j, hj, rfl⟩ := List.getElem_of_mem hd
    rw [← List.getD_eq_getElem _ 0 hj,
      multiple_relativeCost h hk (h.relativeCost_length ▸ hj), hsum, sub_zero] at habs ⊢
    split_ifs at habs ⊢
    · exact absurd habs (by rw [abs_one]; exact not_le.mpr Scalar.tolerance_lt_one)
    · rfl
  obtain ⟨b, hb, c, hc, -, hlt, hbm, hcm, -, -⟩ := hm
  rw [hpart b hb hbm, hpart c hc hcm] at hlt
  exact lt_irrefl _ hlt

/-- A step that finds no entering column ends the run where it is. -/
theorem step_of_entering?_eq_none {rule : PivotRule} (hs : s.status.isTerminal = false)
    (h : s.entering? rule = none) : ∃ t, s.step rule = .ok t ∧ t.toTableau = s.toTableau ∧
      t.status = if s.usesArtificial then .infeasible else .optimal := by
  cases hu : s.usesArtificial with
  | true =>
    have hm : s.move rule = .ok .stopInfeasible := move_eq_of_moveFits ⟨h, hu⟩
    exact ⟨_, step_of_move hs hm, rfl, rfl⟩
  | false =>
    have hm : s.move rule = .ok .stopOptimal := move_eq_of_moveFits ⟨h, hu⟩
    exact ⟨_, step_of_move hs hm, rfl, rfl⟩

end State

open State

/-- In every state that steps of either rule lead to, the first profitable column is nothing exactly
when no relative cost improves the objective, and the largest coefficient, where it is one, improves
it and is beaten by no other. It is nothing exactly when no relative cost improves, unless one is
masked. Then an artificial column is basic, and the rule ends the run at this tableau. -/
theorem entering?_of_run (hstart : start p = .ok s₀) (hrun : RuleRun s₀ s)
    (hs : s.status.isTerminal = false) :
    (s.entering? .firstProfitable = none ↔ ∀ c ∈ s.relativeCost, s.goal.improves c = false) ∧
    (∀ j, s.entering? .largestCoefficient = some j → ∃ c, s.relativeCost[j]? = some c ∧
      s.goal.improves c = true ∧ ∀ d ∈ s.relativeCost, s.goal.prefers d c = false) ∧
    ((s.entering? .largestCoefficient = none ↔ ∀ c ∈ s.relativeCost, s.goal.improves c = false) ↔
      ¬ s.Masked) ∧
    (s.Masked → (∃ j ∈ s.basis, s.isArtificial j = true) ∧
      ∃ t, s.step .largestCoefficient = .ok t ∧ t.toTableau = s.toTableau ∧
        t.status = if s.usesArtificial then .infeasible else .optimal) := by
  obtain ⟨-, rfl⟩ := eq_firstState_of_start hstart
  have h₀ := snapped_firstState p
  refine ⟨Tableau.entering?_firstProfitable_eq_none_iff, fun j hj => ?_, ?_, fun hm => ⟨?_, ?_⟩⟩
  · obtain ⟨c, hc, himp⟩ := Tableau.improves_of_entering? hj
    refine ⟨c, hc, himp, fun d hd => ?_⟩
    rw [← Bool.not_eq_true, Goal.prefers_iff, not_lt]
    exact Tableau.best_of_entering? hj hc d hd
  · exact Tableau.not_masked_iff.symm
  · exact exists_isArtificial_of_masked (h₀.run hrun).canonical (Keeps.run h₀ hrun) hm
  · exact step_of_entering?_eq_none hs (Tableau.masked_iff.mp hm).1

/-- Maximize -100x + 5y + 6z where the first two rows all but cancel in x. -/
def veiled : LinearProgram ℚ where
  objective := ⟨[-100, 5, 6], ["x", "y", "z"]⟩
  constraints := [⟨⟨[1 + 1 / 10 ^ 10, -1], ["x", "w"]⟩, .equal, 0⟩,
    ⟨⟨[-1, -1], ["x", "u"]⟩, .equal, 0⟩, ⟨⟨[1], ["y"]⟩, .atMost, 3⟩, ⟨⟨[1], ["z"]⟩, .atMost, 2⟩]
  goal := .maximize

def veiledNext : State ℚ := (firstState veiled).after (.pivot 2 1 3)

instance (t : Tableau ℚ (BigM ℚ)) : Decidable t.Masked :=
  inferInstanceAs (Decidable (∃ b ∈ t.relativeCost, ∃ c ∈ t.relativeCost, _))

theorem veiled_fits : veiled.fault? = none ∧ (firstState veiled).Masked ∧ veiledNext.Masked ∧
    (firstState veiled).entering? .firstProfitable = some 1 ∧
    MoveFits .firstProfitable (firstState veiled) (.pivot 2 1 3) ∧
    (firstState veiled).usesArtificial = false ∧ (firstState veiled).objectiveValue = 0 := by
  decide +kernel

theorem veiledNext_masked : veiledNext.Masked ∧
    ¬ (veiledNext.entering? .largestCoefficient = none ↔
      ∀ c ∈ veiledNext.relativeCost, veiledNext.goal.improves c = false) := by
  obtain ⟨hp, -, hmasked, -, hmove, -, -⟩ := veiled_fits
  have hrun : RuleRun (firstState veiled) veiledNext :=
    .single ⟨.firstProfitable, step_of_move rfl (move_eq_of_moveFits hmove)⟩
  obtain ⟨-, -, hiff, -⟩ := entering?_of_run (start_eq_firstState hp) hrun rfl
  exact ⟨hmasked, fun h => hiff.mp h hmasked⟩

/-- The largest coefficient calls the first state optimal, although bringing in y improves it. -/
theorem veiled_overlooked : start veiled = .ok (firstState veiled) ∧
    (firstState veiled).status.isTerminal = false ∧
    (firstState veiled).entering? .largestCoefficient = none ∧
    (firstState veiled).entering? .firstProfitable = some 1 ∧
    ∃ t, (firstState veiled).step .largestCoefficient = .ok t ∧ t.status = .optimal ∧
      t.objectiveValue = 0 := by
  obtain ⟨hp, hmasked, -, hfirst, -, huses, hvalue⟩ := veiled_fits
  have hnone := (Tableau.masked_iff.mp hmasked).1
  obtain ⟨t, ht, htableau, hstatus⟩ := step_of_entering?_eq_none rfl hnone
  refine ⟨start_eq_firstState hp, rfl, hnone, hfirst, t, ht, ?_, ?_⟩
  · rw [hstatus, huses]
    rfl
  · rw [htableau, hvalue]

end Simplex

end Optima
