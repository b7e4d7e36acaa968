import Mathlib
import Optima.Proofs.Transport.Rounds

namespace Optima.Transport

open Improvement State

variable {p : TransportProblem ℚ} {m : InitialMethod} {methods : List InitialMethod}
  {s t s₀ s₁ s₂ : State ℚ} {r : Improvement ℚ} {c e : Cell} {x theta : ℚ}

/-- A step has moved an amount around a loop, to the cell `c` and off the cell `e`. -/
structure Moves (s : State ℚ) (r : Improvement ℚ) (c e : Cell) (theta : ℚ) (t : State ℚ) :
    Prop where
  sent : ∀ i, t.plan.sent i = s.plan.sent i
  received : ∀ j, t.plan.received j = s.plan.received j
  inOrder : t.plan.InOrder
  whole : ∀ a ∈ t.plan, ∃ n : ℕ, 0 < n ∧ a.amount = n
  entering : ⟨c, theta⟩ ∈ t.plan
  exiting : e ∉ t.plan.cells
  loopless : ∀ first rest, first :: rest ⊆ t.plan.cells → ¬ ClosedLoop first rest
  cost : t.totalCost = s.totalCost + theta * r.opportunityCosts.get c.row c.column
  cheaper : t.totalCost + Scalar.tolerance < s.totalCost

namespace Movable

variable {plan : Plan ℚ} {cells : List Cell} (h : Movable p plan c cells e theta)
include h

theorem mem_moved (hfresh : c ∉ plan.cells) : ⟨c, theta⟩ ∈ moved cells theta plan := by
  have hchanged := h.transfer.changed
  have hamount : (shifted cells theta plan).amount c = theta := by
    rw [hchanged.amount h.served.inOrder, Plan.amount_eq_zero hfresh, zero_add,
      sum_ite_of_mem h.transfer.nodup_changes (h.loop.mem_changes_first theta)]
  have hmem : c ∈ (shifted cells theta plan).cells := by
    by_contra hnot
    rw [Plan.amount_eq_zero hnot] at hamount
    exact absurd (hamount ▸ h.one_le_theta) (by norm_num)
  obtain ⟨⟨d, y⟩, ha, rfl⟩ := List.mem_map.mp hmem
  obtain rfl : theta = y := hamount.symm.trans (hchanged.inOrder.amount_of_mem ha)
  rw [moved_eq, List.mem_filter, decide_eq_true_eq]
  exact ⟨ha, Scalar.dropTolerance_lt_one.trans_le h.one_le_theta⟩

end Movable

theorem Recorded.movable (h : Recorded p s r) (hphase : r.phase = .reallocate) :
    ∃ c e theta, r.entering = some c ∧ r.exiting = some e ∧ r.theta = some theta ∧
      Movable p s.plan c r.closedLoop e theta ∧ s.plan.isBasic c = false ∧
      ∃ x, r.mostNegative = some (c, x) := by
  obtain ⟨c, x, hlowest, hc, hbasic⟩ := h.holds.entering (by rw [hphase]; decide)
  obtain ⟨c', hc', hloop⟩ := h.holds.closedLoop (by rw [hphase]; decide)
  obtain rfl : c = c' := Option.some.inj (hc.symm.trans hc')
  obtain ⟨before, e, after, hlosing, he, htheta, hbefore, hafter⟩ :=
    h.holds.theta (by rw [hphase]; decide)
  have hinside : c.row < p.sourceCount ∧ c.column < p.destinationCount := by
    have hfirst := (h.holds.costs (by rw [hphase]; decide)).mostNegative
    rw [hlowest, h.fits.rowCount, h.fits.columnCount] at hfirst
    exact ⟨hfirst.1, hfirst.2.1⟩
  have hmem (d : Cell) : d ∈ losing r.closedLoop ↔ d ∈ before ∨ d = e ∨ d ∈ after := by
    rw [hlosing, List.mem_append, List.mem_cons]
  refine ⟨c, e, s.plan.amount e, hc, he, htheta, ⟨h.fits.served, isLoop_iff.mpr hloop.loop, hinside,
    (hmem e).mpr (.inr (.inl rfl)), rfl, fun d hd => ?_⟩, hbasic, x, hlowest⟩
  rcases (hmem d).mp hd with hd | rfl | hd
  · exact (hbefore d hd).le
  · exact le_rfl
  · exact hafter d hd

theorem Recorded.opportunityCost (h : Recorded p s r) (hphase : .entering ≤ r.phase)
    (hc : r.mostNegative = some (c, x)) : r.opportunityCosts.get c.row c.column =
        p.unitCost c - (r.rowValue c.row + r.columnValue c.column) ∧
      r.opportunityCosts.get c.row c.column < -Scalar.tolerance := by
  have hcosts := h.holds.costs hphase
  have hbasic := hcosts.isBasic_eq_false hc
  have hfirst := hcosts.mostNegative
  rw [hc] at hfirst
  obtain ⟨hrow, hcolumn, rfl, hlt, -⟩ := hfirst
  refine ⟨?_, hlt⟩
  rw [hcosts.opportunityCosts, Matrix.get_ofFn hrow hcolumn, hbasic, if_neg Bool.false_ne_true,
    unitCost_eq h.fits.problem]

/-- The next step puts the moved plan and its cost in place of the old ones. -/
theorem Recorded.step_reallocate (h : Recorded p s r) (hphase : r.phase = .reallocate)
    (htheta : r.theta = some theta) : ∃ t, Solver.step s = .ok t ∧
      t.plan = moved r.closedLoop theta s.plan ∧ t.totalCost = t.plan.weigh p.unitCost := by
  have hrunning : s.progress ≠ .complete := by
    intro hcomplete
    rw [(h.fits.complete hcomplete).1] at hphase
    exact Phase.noConfusion hphase
  rw [step_modi h.fits.method, State.improve_eq hrunning h.improvement, State.work, hphase]
  refine ⟨_, rfl, ?_, ?_⟩
  · exact State.plan_withShift htheta
  · rw [← unitCost_eq h.fits.problem, ← Plan.cost_eq]
    rfl

theorem Recorded.moves (h : Recorded p s r) (hphase : r.phase = .reallocate) :
    ∃ t c e theta, Solver.step s = .ok t ∧ r.entering = some c ∧ r.exiting = some e ∧
      r.theta = some theta ∧ Moves s r c e theta t := by
  obtain ⟨c, e, theta, hc, he, htheta, hmovable, hbasic, x, hlowest⟩ := h.movable hphase
  obtain ⟨t, hstep, hplan, htotal⟩ := h.step_reallocate hphase htheta
  obtain ⟨hcost, hneg⟩ := h.opportunityCost (by rw [hphase]; decide) hlowest
  have hserved : p.ServedBy t.plan := hplan ▸ hmovable.servedBy_moved
  have hfresh : c ∉ s.plan.cells := by
    intro hmem
    rw [h.fits.served.isBasic hmem] at hbasic
    exact Bool.noConfusion hbasic
  have hexact : ∀ d ∈ s.plan.cells, p.unitCost d = r.rowValue d.row + r.columnValue d.column := by
    intro d hd
    rw [(h.holds.duals (by rw [hphase]; decide)).sum_eq d (h.fits.served.isBasic hd),
      unitCost_eq h.fits.problem]
  have hchange : t.totalCost =
      s.totalCost + theta * r.opportunityCosts.get c.row c.column := by
    rw [htotal, hplan, hmovable.cost_moved hexact, h.fits.cost, hcost, mul_comm theta]
  -- at least one unit is moved
  have hgain : theta * r.opportunityCosts.get c.row c.column < -Scalar.tolerance := by
    have hle := mul_le_mul_of_nonneg_right hmovable.one_le_theta (neg_nonneg.mpr
      (hneg.trans (neg_neg_of_pos Scalar.tolerance_pos)).le)
    linarith
  refine ⟨t, c, e, theta, hstep, hc, he, htheta, ?_⟩
  exact {
    sent i := by rw [hplan, hmovable.sent_moved]
    received j := by rw [hplan, hmovable.received_moved]
    inOrder := hserved.inOrder
    whole a ha := hserved.exists_whole ha
    entering := hplan ▸ hmovable.mem_moved hfresh
    exiting := hplan ▸ fun hmem => hmovable.transfer.ne_of_mem_moved hmem rfl
    loopless first rest hsubset := not_closedLoop (hplan ▸ hmovable.transfer.untied_moved h.untied)
      (fun d hd => hserved.isBasic hd) hsubset
    cost := hchange
    cheaper := by linarith }

/-- In the improvement of a first plan of whole amounts, every state that is about to move an amount
has a next one. Its plan has the same totals and whole shipments in order, the new cell has the
amount, the cell used up is gone, and no cells make a loop. The cost changes by the opportunity cost
of the new cell for each unit, and falls by more than the tolerance. -/
theorem moves_of_reallocate (hstart : start p m = .ok s₀) (hwhole : p.Whole)
    (hfill : s₁ = s₀.allocateAll methods) (himprove : s₁.startImprovement = .ok s₂)
    (hrun : Solver.Reaches s₂ s) (hr : s.improvement = some r) (hphase : r.phase = .reallocate) :
    ∃ t c e theta, Solver.step s = .ok t ∧ r.entering = some c ∧ r.exiting = some e ∧
      r.theta = some theta ∧ Moves s r c e theta t := by
  obtain ⟨r₂, hbegin⟩ := recorded_start hstart hwhole hfill himprove
  have hm := (TransportProblem.fault?_eq_none (start_eq_ok hstart).1).1
  obtain ⟨r', h⟩ := hbegin.of_reaches (hm.trans_le p.sourceCount_le_balance) hrun
  obtain rfl : r = r' := Option.some.inj (hr.symm.trans h.improvement)
  exact h.moves hphase

theorem depots_move : ∃ s₀ s₁ s₂ s t : State ℚ, ∃ r, start depots .northwestCorner = .ok s₀ ∧
    s₁ = s₀.allocateAll (List.replicate 3 .northwestCorner) ∧ s₁.startImprovement = .ok s₂ ∧
      Solver.after 5 s₂ = .ok s ∧ s.improvement = some r ∧ r.phase = .reallocate ∧
        ∃ c e theta, Solver.step s = .ok t ∧ Moves s r c e theta t := by
  obtain ⟨s₀, s₂, s, r, hstart, himprove, hrun, hr, hphase⟩ := depots_reallocates
  obtain ⟨t, c, e, theta, ht, -, -, -, hmoves⟩ := moves_of_reallocate hstart whole_depots rfl
    himprove (Solver.reaches_of_after hrun) hr hphase
  exact ⟨s₀, _, s₂, s, t, r, hstart, rfl, himprove, hrun, hr, hphase, c, e, theta, ht, hmoves⟩

end Optima.Transport
