import Mathlib
import Optima.Proofs.Simplex.Penalty
import Optima.Proofs.Simplex.Rays

namespace Optima.Simplex

open State

variable {p : LinearProgram ℚ} {rule : PivotRule} {s s₀ : State ℚ} {x : String → ℚ}
  {y d : ℕ → ℚ}

theorem LinearForm.eval_add_smul (f : LinearForm ℚ) (x z : String → ℚ) (k : ℚ) :
    f.eval (x + k • z) = f.eval x + k * f.eval z := by
  obtain ⟨ks, ns⟩ := f
  induction ks generalizing ns with
  | nil => simp [LinearForm.eval]
  | cons a ks ih =>
    cases ns with
    | nil => simp [LinearForm.eval]
    | cons n ns =>
      rw [LinearForm.eval_cons, LinearForm.eval_cons, LinearForm.eval_cons, ih, Pi.add_apply,
        Pi.smul_apply, smul_eq_mul]
      ring

/-- An improving ray has nothing on the artificial columns and improves the objective. -/
theorem improving_ray (hp : p.fault? = none) (hd : p.NamesDistinct) (hray : (firstTableau p).Ray d)
    (hpos : 0 < p.goal.direction • (firstTableau p).costAt d) :
    (firstState p).artificialTotal d = 0 ∧
      0 < p.goal.direction * p.objective.eval (pointOf p d) := by
  rw [direction_smul_costAt hp hd fun j hj => eq_pointOf hd d hj, BigM.lt_iff] at hpos
  have hnonneg : 0 ≤ (firstState p).artificialTotal d := artificialTotal_nonneg hray.nonneg
  rcases hpos with hlt | ⟨heq, hlt⟩
  · exact absurd (neg_pos.mp hlt) (not_lt.mpr hnonneg)
  · exact ⟨neg_eq_zero.mp heq.symm, hlt⟩

/-- Going along a ray without artificial columns stays feasible. -/
theorem Extends.add_ray (hd : p.NamesDistinct) (hy : Extends p x y) (hray : (firstTableau p).Ray d)
    (hart : (firstState p).artificialTotal d = 0) {k : ℚ} (hk : 0 ≤ k) :
    Extends p (x + k • pointOf p d) (y + k • d) where
  nonneg j hj := add_nonneg (hy.nonneg j hj) (mul_nonneg hk (hray.nonneg j hj))
  decision j hj := by
    rw [Pi.add_apply, Pi.smul_apply, Pi.add_apply, Pi.smul_apply, hy.decision j hj,
      ← eq_pointOf hd d hj]
  artificial j hj hartificial := by
    rw [Pi.add_apply, Pi.smul_apply, hy.artificial j hj hartificial,
      artificial_eq_zero_of_total hray.nonneg hart j hj hartificial, smul_zero, add_zero]
  solves := hray.solves hy.solves k

/-- With an improving ray every feasible point is the beginning of arbitrarily good ones. -/
theorem unbounded_of_ray (hp : p.fault? = none) (hd : p.NamesDistinct)
    (hray : (firstTableau p).Ray d) (hpos : 0 < p.goal.direction • (firstTableau p).costAt d)
    (hx : p.Feasible x) : p.Unbounded := by
  obtain ⟨hart, heval⟩ := improving_ray hp hd hray hpos
  obtain ⟨y, hy⟩ := (feasible_iff_extends hp hd x).mp hx
  refine ⟨⟨x, hx⟩, fun B => ?_⟩
  -- a multiple of the ray large enough to get past the bound
  obtain ⟨n, hn⟩ := exists_nat_gt ((p.goal.direction * B - p.goal.direction * p.objective.eval x) /
    (p.goal.direction * p.objective.eval (pointOf p d)))
  refine ⟨x + (n : ℚ) • pointOf p d,
    (feasible_iff_extends hp hd _).mpr ⟨_, hy.add_ray hd hray hart n.cast_nonneg⟩, ?_⟩
  rw [div_lt_iff₀ heval] at hn
  rw [Goal.better_iff, LinearForm.eval_add_smul]
  linarith

/-- Where the largest coefficient shows unboundedness, a feasible point leaves no artificial column
at a positive value. -/
theorem usesArtificial_eq_false (hp : p.fault? = none) (hd : p.NamesDistinct)
    (h : Follows (firstState p) s) {column : ℕ} (he : s.entering? .largestCoefficient = some column)
    (hall : (s.ratios column).all Option.isNone = true) (hx : p.Feasible x) :
    s.usesArtificial = false := by
  obtain ⟨hray, hpos, hcost⟩ := h.ray_of_unbounded he hall
  obtain ⟨hart, -⟩ := improving_ray hp hd hray hpos
  obtain ⟨c, hc, -⟩ := Tableau.improves_of_entering? he
  have hzero : (p.goal.direction • c).multiple = 0 := by
    have hget : s.relativeCost.getD column 0 = c := by rw [List.getD_eq_getElem?_getD, hc]; rfl
    have hmul := congrArg BigM.multiple
      (direction_smul_costAt hp hd fun j hj => eq_pointOf hd (s.rayOf column) hj)
    rw [hart, neg_zero, show (firstTableau p).costAt _ = _ from hcost, hget, smul_neg,
      BigM.multiple_neg, neg_eq_zero] at hmul
    exact hmul
  -- the best relative cost has no penalty part, so that none has one that improves
  have hbest (e : BigM ℚ) (hmem : e ∈ s.relativeCost) : 0 ≤ (p.goal.direction • e).multiple := by
    have hle := Tableau.best_of_entering? he hc e hmem
    rw [h.goal, BigM.le_iff, show (firstState p).goal = p.goal from rfl, hzero] at hle
    rcases hle with hlt | ⟨heq, -⟩
    · exact hlt.le
    · exact heq.le
  exact usesArtificial_eq_false_of_relativeCost hp hd h hbest hx

/-- What an unbounded state says about the program: its objective has no bound exactly when there
is a feasible point. There is one when no artificial column has a positive value, and with the
largest coefficient only then. -/
theorem unbounded_iff_of_unbounded (hstart : start p = .ok s₀) (hd : p.NamesDistinct)
    (hsep : s₀.Separated) (hrun : SeparatedRun s₀ s) (hs : s.status = .unbounded) :
    (p.Unbounded ↔ ∃ x, p.Feasible x) ∧ (s.usesArtificial = false → p.Unbounded) ∧
      ∀ u, SeparatedRun s₀ u → u.status.isTerminal = false →
        u.step .largestCoefficient = .ok s → (p.Unbounded ↔ s.usesArtificial = false) := by
  obtain ⟨hp, rfl⟩ := eq_firstState_of_start hstart
  have h : Follows (firstState p) s := (follows_firstState hsep).run hrun
  have hterminal : s.status.isTerminal = true := by rw [hs]; rfl
  obtain ⟨u, rule, -, hu, hstep⟩ := exists_last_step hrun rfl hterminal
  have hverdict := verdict_of_step hu hstep hterminal
  rw [Verdict, hs] at hverdict
  obtain ⟨column, he, hall⟩ := hverdict
  obtain ⟨hray, hpos, -⟩ := h.ray_of_unbounded he hall
  have hunbounded : p.Unbounded ↔ ∃ x, p.Feasible x := by
    refine ⟨And.left, ?_⟩
    rintro ⟨x, hx⟩
    exact unbounded_of_ray hp hd hray hpos hx
  have hpoint (huses : s.usesArtificial = false) : p.Unbounded :=
    hunbounded.mpr ⟨_, (feasible_iff_extends hp hd _).mpr ⟨_, extends_pointOf hd h huses⟩⟩
  refine ⟨hunbounded, hpoint, fun u _ hu hstep => ⟨fun hp' => ?_, hpoint⟩⟩
  -- the step may be another one than the last of the run, so its verdict is read as well
  have hverdict := verdict_of_step hu hstep hterminal
  rw [Verdict, hs] at hverdict
  obtain ⟨column, he, hall⟩ := hverdict
  obtain ⟨x, hx⟩ := hunbounded.mp hp'
  exact usesArtificial_eq_false hp hd h he hall hx

def slope : LinearProgram ℚ where
  objective := ⟨[1, 1], ["x", "y"]⟩
  constraints := [⟨⟨[1, -1], ["x", "y"]⟩, .atMost, 1⟩]
  goal := .maximize

def slopeEnd : State ℚ := ((firstState slope).after (.pivot 0 0 1)).after (.stopUnbounded 1)

theorem slope_run : SeparatedRun (firstState slope) slopeEnd :=
  separatedRun_of_runFits
    [(.largestCoefficient, .pivot 0 0 1), (.firstProfitable, .stopUnbounded 1)]
    (by decide +kernel)

theorem slope_unbounded : slope.Unbounded :=
  (unbounded_iff_of_unbounded (by cbv : start slope = .ok (firstState slope))
    ⟨by decide, by decide⟩ (by decide +kernel) slope_run rfl).2.1 (by decide +kernel)

/-- Minimize -x where y is at most 1 and at least 2: no point is feasible. -/
def conflict : LinearProgram ℚ where
  objective := ⟨[-1], ["x"]⟩
  constraints := [⟨⟨[1], ["y"]⟩, .atMost, 1⟩, ⟨⟨[1], ["y"]⟩, .atLeast, 2⟩]
  goal := .minimize

def conflictEnd : State ℚ := ((firstState conflict).after (.pivot 0 1 1)).after (.stopUnbounded 0)

theorem conflict_run : SeparatedRun (firstState conflict) conflictEnd :=
  separatedRun_of_runFits
    [(.largestCoefficient, .pivot 0 1 1), (.largestCoefficient, .stopUnbounded 0)]
    (by decide +kernel)

theorem conflict_infeasible (x : String → ℚ) : ¬ conflict.Feasible x := by
  intro h
  have hmost : _ ≤ _ := h.holds _ (.head _)
  have hleast : _ ≤ _ := h.holds _ (.tail _ (.head _))
  norm_num [LinearForm.eval] at hmost hleast
  linarith

/-- A run can end with an unbounded state although no point is feasible. -/
theorem unbounded_state_of_conflict : start conflict = .ok (firstState conflict) ∧
    conflict.NamesDistinct ∧ (firstState conflict).Separated ∧
    SeparatedRun (firstState conflict) conflictEnd ∧ conflictEnd.status = .unbounded ∧
    ¬ conflict.Unbounded := by
  refine ⟨by cbv, ⟨by decide, by decide⟩, by decide +kernel, conflict_run, rfl, ?_⟩
  rintro ⟨⟨x, hx⟩, -⟩
  exact conflict_infeasible x hx

end Optima.Simplex
