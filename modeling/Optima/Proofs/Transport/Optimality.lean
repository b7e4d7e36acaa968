import Mathlib
import Optima.Proofs.Transport.Filling
import Optima.Proofs.Transport.Improvement

namespace Optima.Transport

variable {p : TransportProblem ℚ} {m : InitialMethod} {s s₀ s₁ s₂ : State ℚ}

/-- Every state of an improvement that starts from a first plan of whole amounts. -/
theorem improving_of_reaches (hstart : start p m = .ok s₀) (hwhole : p.Whole)
    (hfill : Solver.Reaches s₀ s₁) (himprove : s₁.startImprovement = .ok s₂)
    (hrun : Solver.Reaches s₂ s) : Improving p.balance s := by
  obtain ⟨hfits, hstate⟩ := fits_of_reaches hstart hfill
  refine Improving.of_reaches (Improving.start hfits.problem (fun hcomplete => ?_) hfits.cost
    himprove) hrun
  exact hfits.servedBy (hstate hwhole) hwhole.surplus_balance hcomplete

/-- A complete round has found the dual values to exceed no unit cost. -/
theorem RoundFits.settled (h : RoundFits p s r) (hs : s.progress = .complete) :
    DualsFit p s.plan r ∧ s.isOptimal = some true ∧ Settled p r := by
  obtain ⟨hphase, hnone⟩ := h.complete hs
  have hfits := h.phase
  rw [PhaseFits, hphase] at hfits
  obtain ⟨hduals, hoptimal, hsettled, -⟩ := hfits
  exact ⟨hduals, by rw [hoptimal, hnone]; rfl, hsettled hnone⟩

/-- The plan of a complete improvement costs the least, up to the tolerance for every unit, and
exactly if the unit costs are whole. -/
theorem Improving.totalCost_le (h : Improving p s) (hs : s.progress = .complete) {x : Cell → ℚ}
    (hx : p.Feasible x) : s.totalCost - Scalar.tolerance * p.totalSupply ≤ p.costOf x ∧
      ((∀ c, p.unitCost c ∈ integers) → s.totalCost ≤ p.costOf x) := by
  obtain ⟨r, -, hround⟩ := h
  obtain ⟨hduals, -, hsettled⟩ := hround.settled hs
  have hcost : s.totalCost = p.worth r.rowValue r.columnValue := by
    rw [hround.cost]
    exact hround.served.cost_eq hduals.exact
  rw [hcost]
  refine ⟨hx.worth_sub_le hsettled, fun hwhole => ?_⟩
  rw [← sub_zero (p.worth _ _), ← zero_mul p.totalSupply]
  apply hx.worth_sub_le
  intro i hi j hj
  have hle := hsettled i hi j hj
  -- the excess of a whole value is whole, and within the tolerance it is none
  have htolerance := Scalar.tolerance_lt_one
  have hzero := nonpos_of_lt_one
    (integers.sub_mem (hduals.whole hwhole ⟨i, j⟩) (hwhole ⟨i, j⟩)) (by linarith)
  rw [sub_zero]
  exact sub_nonpos.mp hzero

theorem Improving.isOptimal (h : Improving p s) (hs : s.progress = .complete) :
    s.isOptimal = some true := by
  obtain ⟨r, -, hround⟩ := h
  exact (hround.settled hs).2.1

/-- If the improvement of a first plan of whole amounts completes, it says that its plan is optimal.
The plan has the totals of the balanced problem, and no other one with these totals costs less by
more than the tolerance for every unit, or at all if the costs are whole numbers. -/
theorem least_cost_of_complete (hstart : start p m = .ok s₀) (hwhole : p.Whole)
    (hfill : Solver.Reaches s₀ s₁) (himprove : s₁.startImprovement = .ok s₂)
    (hrun : Solver.Reaches s₂ s) (hs : s.progress = .complete) :
    s.isOptimal = some true ∧
      (∀ i < p.balance.sourceCount, s.plan.sent i = p.balance.supply.getD i 0) ∧
      (∀ j < p.balance.destinationCount, s.plan.received j = p.balance.demand.getD j 0) ∧
      p.balance.Feasible s.plan.amount ∧ s.totalCost = p.balance.costOf s.plan.amount ∧
      ∀ x, p.balance.Feasible x →
        s.totalCost - Scalar.tolerance * p.balance.totalSupply ≤ p.balance.costOf x ∧
        ((∀ row ∈ p.costs, ∀ c ∈ row, c ∈ integers) → s.totalCost ≤ p.balance.costOf x) := by
  have h := improving_of_reaches hstart hwhole hfill himprove hrun
  have ⟨r, _, hround⟩ := h
  have hserved := hround.served
  refine ⟨h.isOptimal hs, hserved.sent, hserved.received, hserved.feasible, ?_, fun x hx => ?_⟩
  · rw [hserved.costOf_amount, hround.cost]
  · obtain ⟨hle, hle'⟩ := h.totalCost_le hs hx
    exact ⟨hle, fun hcosts => hle' (TransportProblem.unitCost_mem_integers hcosts)⟩

def depots : TransportProblem ℚ where
  supply := [4, 2]
  demand := [3, 3]
  costs := [[4, 1], [1, 5]]
  supplyLabels := []
  demandLabels := []

theorem whole_depots : depots.Whole := by
  intro x hx
  fin_cases hx <;> exact intCast_mem _ _

/-- A run of the first plan and its improvement, from what is computed of its last state. -/
theorem exists_improved {n k : ℕ} {P : State ℚ → Prop} [DecidablePred P]
    (h : ((((start p m).bind (Solver.after n)).bind State.startImprovement).bind
      (Solver.after k)).toOption.any (fun s => decide (P s)) = true) :
    ∃ s₀ s₁ s₂ s : State ℚ, start p m = .ok s₀ ∧ Solver.after n s₀ = .ok s₁ ∧
      s₁.startImprovement = .ok s₂ ∧ Solver.after k s₂ = .ok s ∧ P s := by
  obtain ⟨s₂, s, hs, hrun, hP⟩ := Solver.exists_after_of_any h
  obtain ⟨s₁, hs, himprove⟩ := exists_ok_of_bind hs
  obtain ⟨s₀, hstart, hfill⟩ := exists_ok_of_bind hs
  exact ⟨s₀, s₁, s₂, s, hstart, hfill, himprove, hrun, hP⟩

theorem depots_improved : ∃ s₀ s₁ s₂ s : State ℚ, start depots .northwestCorner = .ok s₀ ∧
    Solver.after 3 s₀ = .ok s₁ ∧ s₁.startImprovement = .ok s₂ ∧ Solver.after 9 s₂ = .ok s ∧
      s.progress = .complete ∧ s.totalCost = 9 :=
  exists_improved (by decide +kernel)

theorem least_cost_of_depots : ∃ s : State ℚ, s.isOptimal = some true ∧ s.totalCost = 9 ∧
    ∀ x, depots.balance.Feasible x → s.totalCost ≤ depots.balance.costOf x := by
  obtain ⟨s₀, s₁, s₂, s, hstart, hfill, himprove, hrun, hcomplete, hcost⟩ := depots_improved
  have hcosts : ∀ row ∈ depots.costs, ∀ c ∈ row, c ∈ integers := by
    intro row hrow c hc
    fin_cases hrow <;> fin_cases hc <;> exact intCast_mem _ _
  obtain ⟨hoptimal, -, -, -, -, hleast⟩ := least_cost_of_complete hstart whole_depots
    (Solver.reaches_of_after hfill) himprove (Solver.reaches_of_after hrun) hcomplete
  exact ⟨s, hoptimal, hcost, fun x hx => (hleast x hx).2 hcosts⟩

end Optima.Transport
