import Mathlib
import Optima.Proofs.Runs
import Optima.Proofs.Transport.Duals
import Optima.Proofs.Transport.Reallocation

namespace Optima.Transport

open Improvement State

variable {p : TransportProblem ℚ} {s t : State ℚ} {plan : Plan ℚ} {r : Improvement ℚ}
  {o : Outcome ℚ} {c : Cell} {x : ℚ}

namespace Improvement

def rowValue (r : Improvement ℚ) (i : ℕ) : ℚ := (r.rowDuals.getD i none).getD 0

def columnValue (r : Improvement ℚ) (j : ℕ) : ℚ := (r.columnDuals.getD j none).getD 0

end Improvement

/-- The dual values are exact for all shipments, and whole if the unit costs are. -/
structure DualsFit (p : TransportProblem ℚ) (plan : Plan ℚ) (r : Improvement ℚ) : Prop where
  exact : ∀ c ∈ plan.cells, p.unitCost c = r.dualSum c
  whole : (∀ c, p.unitCost c ∈ integers) → ∀ c, r.dualSum c ∈ integers

/-- The dual values exceed no unit cost by more than the tolerance. -/
def Settled (p : TransportProblem ℚ) (r : Improvement ℚ) : Prop :=
  ∀ i < p.sourceCount, ∀ j < p.destinationCount,
    r.dualSum ⟨i, j⟩ - Scalar.tolerance ≤ p.unitCost ⟨i, j⟩

def PhaseFits (p : TransportProblem ℚ) (plan : Plan ℚ) (isOptimal : Option Bool)
    (r : Improvement ℚ) : Prop :=
  match r.phase with
  | .duals => True
  | .opportunityCosts => DualsFit p plan r
  | .entering => DualsFit p plan r ∧ isOptimal = some r.mostNegative.isNone ∧
      (r.mostNegative = none → Settled p r) ∧
      ∀ c x, r.mostNegative = some (c, x) → c.row < p.sourceCount ∧ c.column < p.destinationCount
  | .closedLoop => ∃ c, r.entering = some c ∧ c.row < p.sourceCount ∧ c.column < p.destinationCount
  | .theta => ∃ c, (c.row < p.sourceCount ∧ c.column < p.destinationCount) ∧
      IsLoop plan c r.closedLoop
  | .reallocate => ∃ c e theta, r.theta = some theta ∧ Movable p plan c r.closedLoop e theta

structure RoundFits (p : TransportProblem ℚ) (s : State ℚ) (r : Improvement ℚ) : Prop where
  problem : s.problem = p
  method : s.method = .modi
  served : p.ServedBy s.plan
  cost : s.totalCost = s.plan.weigh p.unitCost
  phase : PhaseFits p s.plan s.isOptimal r
  complete : s.progress = .complete → r.phase = .entering ∧ r.mostNegative = none

theorem unitCost_eq (h : s.problem = p) : s.unitCost = p.unitCost := by
  rw [← h]
  rfl

section Search

theorem mem_table_of_mostNegative? (h : s.mostNegative? r = some (c, x)) :
    c.row < s.rowCount ∧ c.column < s.columnCount := by
  obtain ⟨hmem, -⟩ := List.mem_filter.mp (mem_of_firstBest? h)
  obtain ⟨d, hd, heq⟩ := List.mem_map.mp hmem
  obtain ⟨rfl, -⟩ := Prod.mk.inj heq
  exact Cell.mem_table.mp hd

/-- Without a cell that would lower the costs, the dual values exceed none of them. -/
theorem settled_of_mostNegative? (hs : s.problem = p) (hduals : DualsFit p s.plan r)
    (h : s.mostNegative? r = none) : Settled p r := by
  intro i hi j hj
  have htolerance := Scalar.tolerance_pos
  by_cases hbasic : s.plan.isBasic ⟨i, j⟩ = true
  · rw [← hduals.exact _ (Plan.mem_of_isBasic hbasic)]
    linarith
  · have hmem : (⟨i, j⟩ : Cell) ∈ Cell.table s.rowCount s.columnCount := by
      rw [Cell.mem_table, State.rowCount, State.columnCount, hs]
      exact ⟨hi, hj⟩
    have hnone := List.filter_eq_nil_iff.mp (firstBest?_eq_none_iff.mp h) _
      (List.mem_map_of_mem hmem)
    rw [Bool.not_eq_true] at hbasic
    simp only [hbasic, opportunityCost, Bool.false_eq_true, if_false, Bool.not_false,
      Bool.true_and, decide_eq_true_eq, not_lt, unitCost_eq hs] at hnone
    linarith

end Search

section Work

variable {F : Type} [Scalar F] [Numeral F] {s : State F} {r : Improvement F} {o : Outcome F}

/-- The work that leads to an outcome is that of the phase that the round is in. -/
theorem State.work_elim {P : Outcome F → Prop} (ho : s.work r = .ok o)
    (duals : r.phase = .duals → s.withDuals r = .ok o → P o)
    (opportunityCosts : r.phase = .opportunityCosts → P (s.withOpportunityCosts r))
    (entering : r.phase = .entering → P (s.withEntering r))
    (closedLoop : r.phase = .closedLoop → s.withLoop r = .ok o → P o)
    (theta : r.phase = .theta → P (s.withTheta r))
    (reallocate : r.phase = .reallocate → P (s.withShift r)) : P o := by
  unfold State.work at ho
  split at ho
  · next hphase => exact duals hphase ho
  · next hphase => exact Except.ok.inj ho ▸ opportunityCosts hphase
  · next hphase => exact Except.ok.inj ho ▸ entering hphase
  · next hphase => exact closedLoop hphase ho
  · next hphase => exact Except.ok.inj ho ▸ theta hphase
  · next hphase => exact Except.ok.inj ho ▸ reallocate hphase

theorem State.improvementOutcome_eq (hr : s.improvement = some r) :
    s.improvementOutcome =
      ({ s with step := s.step + 1, progress := .running } : State F).work r := by
  unfold State.improvementOutcome
  split
  · next hnone => exact absurd (hnone.symm.trans hr) nofun
  · next r' hr' =>
    obtain rfl := Option.some.inj (hr'.symm.trans hr)
    rfl

/-- A step from a running state does the work of the phase that the round is in. -/
theorem State.improve_eq (hs : s.progress ≠ .complete) (hr : s.improvement = some r) :
    s.improve = (({ s with step := s.step + 1, progress := .running } : State F).work r).bind
      fun o => .ok { o.state with improvement := some o.round, explanation := o.explanation } := by
  rw [State.improve, if_neg hs, State.improvementOutcome_eq hr]
  rfl

theorem State.improve_of_complete (hs : s.progress = .complete) : s.improve = .ok s := by
  rw [State.improve, if_pos hs]

/-- A step changes nothing in a complete state. In a running one it does the work of the round. -/
theorem State.improve_cases {t : State F} (hr : s.improvement = some r) (ht : s.improve = .ok t) :
    (s.progress = .complete ∧ t = s) ∨ s.progress ≠ .complete ∧ ∃ o,
      ({ s with step := s.step + 1, progress := .running } : State F).work r = .ok o ∧
      t = { o.state with improvement := some o.round, explanation := o.explanation } := by
  by_cases hs : s.progress = .complete
  · rw [State.improve_of_complete hs] at ht
    exact .inl ⟨hs, (Except.ok.inj ht).symm⟩
  · rw [State.improve_eq hs hr] at ht
    obtain ⟨o, ho, ht⟩ := exists_ok_of_bind ht
    exact .inr ⟨hs, o, ho, (Except.ok.inj ht).symm⟩

theorem State.plan_withShift {theta : F} (htheta : r.theta = some theta) :
    (s.withShift r).state.plan = moved r.closedLoop theta s.plan := by
  change moved r.closedLoop (r.theta.getD 0) s.plan = _
  rw [htheta]
  rfl

theorem step_modi (h : s.method = .modi) : Solver.step s = s.improve := by
  simp only [Solver.step, h]

end Work

section Start

variable {F : Type} [Scalar F] {s t : State F}

theorem complete_of_startImprovement (h : s.startImprovement = .ok t) : s.progress = .complete := by
  unfold State.startImprovement at h
  dsimp only at h
  split_ifs at h with hs
  exact not_not.mp hs

theorem eq_of_startImprovement (h : s.startImprovement = .ok t) : ∃ text, t = { s with
    method := .modi, step := 0, progress := .initial, isOptimal := none, explanation := text
    improvement := some (.blank s.rowCount s.columnCount) } := by
  unfold State.startImprovement at h
  dsimp only at h
  split_ifs at h
  exact ⟨_, (Except.ok.inj h).symm⟩

end Start

namespace RoundFits

theorem rowCount (h : RoundFits p s r) : s.rowCount = p.sourceCount := by
  rw [State.rowCount, h.problem]

theorem columnCount (h : RoundFits p s r) : s.columnCount = p.destinationCount := by
  rw [State.columnCount, h.problem]

theorem withDuals (h : RoundFits p s r) (hs : s.progress ≠ .complete)
    (ho : s.withDuals r = .ok o) : RoundFits p o.state o.round := by
  obtain ⟨d, hd, ho⟩ := exists_ok_of_bind ho
  obtain rfl := Except.ok.inj ho
  have hbasic := h.served.basicCells_eq
  -- there are fewer basic cells than lines, so that none is left without exact values
  have hexact := State.exact_of_allDuals hd
    (fun c hc => by
      rw [hbasic] at hc
      rw [h.rowCount, h.columnCount]
      exact h.served.inside c hc)
    (by
      rw [hbasic, h.rowCount, h.columnCount]
      simpa [Plan.cells] using h.served.room)
  refine ⟨h.problem, h.method, h.served, h.cost, ⟨fun c hc => ?_, fun hwhole c => ?_⟩,
    fun hcomplete => absurd hcomplete hs⟩
  · rw [← hbasic] at hc
    obtain ⟨u, v, hu, hv, heq⟩ := hexact c hc
    rw [unitCost_eq h.problem] at heq
    change p.unitCost c = (d.row? c.row).getD 0 + (d.column? c.column).getD 0
    rw [heq, hu, hv]
    rfl
  · rw [← unitCost_eq h.problem] at hwhole
    have hd := State.whole_of_allDuals hd hwhole
    exact integers.add_mem (Duals.Whole.getD hd.rows _) (Duals.Whole.getD hd.columns _)

theorem withOpportunityCosts (h : RoundFits p s r) (hs : s.progress ≠ .complete)
    (hphase : r.phase = .opportunityCosts) :
    RoundFits p (s.withOpportunityCosts r).state (s.withOpportunityCosts r).round := by
  have hduals : DualsFit p s.plan r := by
    have := h.phase
    rwa [PhaseFits, hphase] at this
  have hsettled : s.mostNegative? r = none → Settled p r :=
    settled_of_mostNegative? h.problem hduals
  refine ⟨h.problem, h.method, h.served, h.cost, ⟨⟨hduals.exact, hduals.whole⟩, rfl, hsettled,
    fun c x hsome => ?_⟩, fun hcomplete => absurd hcomplete hs⟩
  rw [← h.rowCount, ← h.columnCount]
  exact mem_table_of_mostNegative? hsome

theorem withEntering (h : RoundFits p s r) (hs : s.progress ≠ .complete)
    (hphase : r.phase = .entering) :
    RoundFits p (s.withEntering r).state (s.withEntering r).round := by
  have hentering := h.phase
  rw [PhaseFits, hphase] at hentering
  unfold State.withEntering
  split
  · next hnone =>
    refine ⟨h.problem, h.method, h.served, h.cost, h.phase, fun _ => ⟨hphase, hnone⟩⟩
  · next c x hsome =>
    exact ⟨h.problem, h.method, h.served, h.cost, ⟨c, rfl, hentering.2.2.2 c x hsome⟩,
      fun hcomplete => absurd hcomplete hs⟩

theorem withLoop (h : RoundFits p s r) (hs : s.progress ≠ .complete)
    (hphase : r.phase = .closedLoop) (ho : s.withLoop r = .ok o) :
    RoundFits p o.state o.round := by
  have hentering := h.phase
  rw [PhaseFits, hphase] at hentering
  obtain ⟨c, hc, hinside⟩ := hentering
  unfold State.withLoop at ho
  rw [hc] at ho
  dsimp only at ho
  cases hloop : s.closedLoop? c with
  | none =>
    rw [hloop] at ho
    exact nomatch ho
  | some cells =>
    rw [hloop] at ho
    obtain rfl := Except.ok.inj ho
    exact ⟨h.problem, h.method, h.served, h.cost,
      ⟨c, hinside, State.isLoop_of_closedLoop? hloop⟩, fun hcomplete => absurd hcomplete hs⟩

theorem withTheta (h : RoundFits p s r) (hs : s.progress ≠ .complete)
    (hphase : r.phase = .theta) : RoundFits p (s.withTheta r).state (s.withTheta r).round := by
  have hloop := h.phase
  rw [PhaseFits, hphase] at hloop
  obtain ⟨first, hinside, hloop⟩ := hloop
  -- a loop always has a cell that loses
  obtain ⟨c, theta, hsmallest, htransfer⟩ :=
    hloop.exists_transfer h.served.inOrder h.served.amount_nonneg
  unfold State.withTheta
  rw [hsmallest]
  exact ⟨h.problem, h.method, h.served, h.cost,
    ⟨first, c, theta, rfl, h.served, hloop, hinside, htransfer.losing, htransfer.theta_eq,
      htransfer.theta_le⟩, fun hcomplete => absurd hcomplete hs⟩

theorem withShift (h : RoundFits p s r) (hs : s.progress ≠ .complete)
    (hphase : r.phase = .reallocate) :
    RoundFits p (s.withShift r).state (s.withShift r).round := by
  have hmovable := h.phase
  rw [PhaseFits, hphase] at hmovable
  obtain ⟨first, c, theta, htheta, hmovable⟩ := hmovable
  have hplan := State.plan_withShift (s := s) htheta
  refine ⟨h.problem, h.method, ?_, ?_, trivial, fun hcomplete => absurd hcomplete hs⟩
  · rw [hplan]
    exact hmovable.servedBy_moved
  · change s.planCost (s.withShift r).state.plan = _
    rw [State.planCost, Plan.cost_eq, unitCost_eq h.problem]

theorem running (h : RoundFits p s r) :
    RoundFits p { s with step := s.step + 1, progress := .running } r :=
  { h with complete := Progress.noConfusion }

/-- The work of every phase establishes what is known in the next. -/
theorem work (h : RoundFits p s r) (hs : s.progress ≠ .complete) (ho : s.work r = .ok o) :
    RoundFits p o.state o.round := by
  apply State.work_elim ho
  case duals => exact fun _ => h.withDuals hs
  case opportunityCosts => exact h.withOpportunityCosts hs
  case entering => exact h.withEntering hs
  case closedLoop => exact h.withLoop hs
  case theta => exact h.withTheta hs
  case reallocate => exact h.withShift hs

end RoundFits

def Improving (p : TransportProblem ℚ) (s : State ℚ) : Prop :=
  ∃ r, s.improvement = some r ∧ RoundFits p s r

theorem Improving.improve (h : Improving p s) (ht : s.improve = .ok t) : Improving p t := by
  obtain ⟨r, hr, hround⟩ := h
  rcases State.improve_cases hr ht with ⟨-, rfl⟩ | ⟨-, o, ho, rfl⟩
  · exact ⟨r, hr, hround⟩
  · have hnext := hround.running.work Progress.noConfusion ho
    exact ⟨o.round, rfl, { hnext with }⟩

theorem Improving.of_reaches (h : Improving p s) (hrun : Solver.Reaches s t) : Improving p t := by
  apply hrun.invariant h
  intro u v hu hstep
  have ⟨r, _, hround⟩ := hu
  rw [step_modi hround.method] at hstep
  exact hu.improve hstep

/-- The improvement starts from a complete plan that ships what the problem says. -/
theorem Improving.start (hs : s.problem = p) (hserved : s.progress = .complete → p.ServedBy s.plan)
    (hcost : s.totalCost = s.plan.weigh p.unitCost) (ht : s.startImprovement = .ok t) :
    Improving p t := by
  have hcomplete := complete_of_startImprovement ht
  obtain ⟨text, rfl⟩ := eq_of_startImprovement ht
  exact ⟨_, rfl, hs, rfl, hserved hcomplete, hcost, trivial, fun h => nomatch h⟩

end Optima.Transport
