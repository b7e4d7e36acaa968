import Mathlib
import Optima.Proofs.Transport.Optimality
import Optima.Proofs.Transport.Resolution
import Optima.Proofs.Transport.Search

/-!
How the improvement ends. As long as the shipments tie all lines together, every round finds a loop
and lowers the cost by more than the tolerance, and the cost of what ships everything is bounded.
Only a round that uses up several shipments at once leaves too few of them, and the next step finds
values missing.
-/

namespace Optima.Transport

open Improvement State

variable {p : TransportProblem ℚ} {m : InitialMethod} {s t s₀ s₁ s₂ : State ℚ} {plan : Plan ℚ}
  {r : Improvement ℚ} {o : Outcome ℚ} {c e : Cell} {x theta low : ℚ}

/-- A cell without a shipment that costs less than its dual values by more than the tolerance, with
values that are exact for all shipments. -/
structure Gains (p : TransportProblem ℚ) (plan : Plan ℚ) (r : Improvement ℚ) (c : Cell) :
    Prop where
  inside : c.row < p.sourceCount ∧ c.column < p.destinationCount
  fresh : c ∉ plan.cells
  exact : ∀ d ∈ plan.cells, p.unitCost d = r.dualSum d
  cost_lt : p.unitCost c + Scalar.tolerance < r.dualSum c

/-- What lets a round go on from its phase. -/
def GoesOn (p : TransportProblem ℚ) (plan : Plan ℚ) (r : Improvement ℚ) : Prop :=
  match r.phase with
  | .duals => plan.length + 1 = p.sourceCount + p.destinationCount → p.Spans plan.cells
  | .opportunityCosts => Tree p plan
  | .entering => Tree p plan ∧ ∀ c x, r.mostNegative = some (c, x) → Gains p plan r c
  | .closedLoop => Tree p plan ∧ ∃ c, r.entering = some c ∧ Gains p plan r c
  | .theta => Tree p plan ∧ ∃ c, IsLoop plan c r.closedLoop ∧ Gains p plan r c
  | .reallocate => Tree p plan ∧ ∃ c e theta, r.theta = some theta ∧
      Movable p plan c r.closedLoop e theta ∧ Gains p plan r c

def stepsLeft : Phase → ℕ
  | .duals => 6
  | .opportunityCosts => 5
  | .entering => 4
  | .closedLoop => 3
  | .theta => 2
  | .reallocate => 1

/-- A step completes the improvement, goes on with the round or lowers the cost. -/
def Advances (s : State ℚ) (r : Improvement ℚ) (o : Outcome ℚ) : Prop :=
  o.state.progress = .complete ∨
    o.state.totalCost = s.totalCost ∧ stepsLeft o.round.phase < stepsLeft r.phase ∨
    o.state.totalCost + Scalar.tolerance ≤ s.totalCost

theorem Advances.of_phase {phase : Phase} (next : Phase) (hcost : o.state.totalCost = s.totalCost)
    (hphase : r.phase = phase) (hnext : o.round.phase = next)
    (hlt : stepsLeft next < stepsLeft phase) : Advances s r o :=
  .inr (.inl ⟨hcost, by rwa [hphase, hnext]⟩)

theorem gains_of_mostNegative? (hs : s.problem = p) (hserved : p.ServedBy s.plan)
    (hexact : ∀ d ∈ s.plan.cells, p.unitCost d = r.dualSum d)
    (h : s.mostNegative? r = some (c, x)) : Gains p s.plan r c := by
  have hinside := mem_table_of_mostNegative? h
  obtain ⟨hmem, hfilter⟩ := List.mem_filter.mp (mem_of_firstBest? h)
  obtain ⟨d, -, heq⟩ := List.mem_map.mp hmem
  obtain ⟨rfl, rfl⟩ := Prod.mk.inj heq
  simp only [Bool.and_eq_true, Bool.not_eq_true', decide_eq_true_eq] at hfilter
  obtain ⟨hbasic, hlt⟩ := hfilter
  subst hs
  refine ⟨hinside, fun hd => ?_, hexact, ?_⟩
  · rw [hserved.isBasic hd] at hbasic
    exact Bool.noConfusion hbasic
  · rw [opportunityCost, hbasic, if_neg Bool.false_ne_true, unitCost_eq rfl] at hlt
    linarith

/-- Moving a whole amount around the loop of a cell that gains lowers the cost by the tolerance at
least. -/
theorem Gains.cost_moved (h : Gains p plan r c) {cells : List Cell}
    (hmovable : Movable p plan c cells e theta) :
    (moved cells theta plan).weigh p.unitCost + Scalar.tolerance ≤ plan.weigh p.unitCost := by
  have hcost : p.unitCost c - (r.rowValue c.row + r.columnValue c.column) ≤ -Scalar.tolerance := by
    have hlt := h.cost_lt
    rw [dualSum] at hlt
    simp only [rowValue, columnValue]
    linarith
  have hgain : (p.unitCost c - (r.rowValue c.row + r.columnValue c.column)) * theta ≤
      p.unitCost c - (r.rowValue c.row + r.columnValue c.column) :=
    mul_le_of_one_le_right (hcost.trans (neg_nonpos.mpr Scalar.tolerance_pos.le))
      hmovable.one_le_theta
  have hmoved := hmovable.cost_moved (u := r.rowValue) (v := r.columnValue) h.exact
  linarith

section Work

/-- Too few shipments to tie all lines together. -/
def Short (s : State ℚ) : Prop := s.plan.basicCells.length < s.rowCount + s.columnCount - 1

theorem allDuals_cases (s : State ℚ) :
    (∃ d, s.allDuals = .ok d) ∨
      ∃ rows columns, s.allDuals = .error (.unresolvedDuals rows columns) := by
  unfold allDuals
  dsimp only
  split_ifs
  · exact .inl ⟨_, rfl⟩
  · exact .inr ⟨_, _, rfl⟩

theorem not_short_of_allDuals {d : Duals ℚ} (hd : s.allDuals = .ok d) : ¬ Short s := by
  have hle := le_length_of_allDuals hd
  rw [Short]
  omega

variable (h : RoundFits p s r) (hgoes : GoesOn p s.plan r)
include h hgoes

/-- Dual values are missing only where shipments are. -/
theorem withDuals_cases (hm : 0 < p.sourceCount) (hphase : r.phase = .duals) :
    Short s ∧ (∃ rows columns, s.withDuals r = .error (.unresolvedDuals rows columns)) ∨
      ¬ Short s ∧ ∃ o, s.withDuals r = .ok o ∧ GoesOn p o.state.plan o.round ∧ Advances s r o := by
  rw [GoesOn, hphase] at hgoes
  have hroom := h.served.room
  have hlength := h.served.length_basicCells
  have hinside := h.served.inside
  rw [← h.served.basicCells_eq] at hinside
  have hrowCount := h.rowCount
  have hcolumnCount := h.columnCount
  by_cases hshort : Short s
  · refine .inl ⟨hshort, ?_⟩
    rcases allDuals_cases s with ⟨d, hd⟩ | ⟨rows, columns, herror⟩
    · exact absurd hshort (not_short_of_allDuals hd)
    · exact ⟨rows, columns, by rw [withDuals, herror]; rfl⟩
  · refine .inr ⟨hshort, ?_⟩
    rw [Short, hrowCount, hcolumnCount, hlength] at hshort
    have hcount : s.plan.length + 1 = p.sourceCount + p.destinationCount := by omega
    have hspans := hgoes hcount
    rw [← h.served.basicCells_eq] at hspans
    obtain ⟨d, hd⟩ := allDuals_of_spans h.problem hm hspans hinside
    obtain ⟨o, ho, hstate, hnext⟩ : ∃ o, s.withDuals r = .ok o ∧ o.state = s ∧
        o.round.phase = .opportunityCosts := by
      rw [withDuals, hd]
      exact ⟨_, rfl, rfl, rfl⟩
    refine ⟨o, ho, ?_, .of_phase .opportunityCosts (by rw [hstate]) hphase hnext (by decide)⟩
    rw [GoesOn, hnext, hstate]
    exact ⟨hcount, hgoes hcount⟩

theorem withOpportunityCosts_goesOn (hphase : r.phase = .opportunityCosts) :
    GoesOn p (s.withOpportunityCosts r).state.plan (s.withOpportunityCosts r).round ∧
      Advances s r (s.withOpportunityCosts r) := by
  have hfits := h.phase
  rw [PhaseFits, hphase] at hfits
  rw [GoesOn, hphase] at hgoes
  refine ⟨⟨hgoes, fun c x hsome => ?_⟩, .of_phase .entering rfl hphase rfl (by decide)⟩
  have hgains := gains_of_mostNegative? h.problem h.served hfits.exact hsome
  exact { hgains with }

omit h in
theorem withEntering_goesOn (hphase : r.phase = .entering) :
    GoesOn p (s.withEntering r).state.plan (s.withEntering r).round ∧
      Advances s r (s.withEntering r) := by
  have hkept := hgoes
  rw [GoesOn, hphase] at hgoes
  unfold State.withEntering
  split
  · exact ⟨hkept, .inl rfl⟩
  · next c x hsome =>
    exact ⟨⟨hgoes.1, c, rfl, { hgoes.2 c x hsome with }⟩,
      .of_phase .closedLoop rfl hphase rfl (by decide)⟩

theorem withLoop_goesOn (hphase : r.phase = .closedLoop) :
    ∃ o, s.withLoop r = .ok o ∧ GoesOn p o.state.plan o.round ∧ Advances s r o := by
  rw [GoesOn, hphase] at hgoes
  obtain ⟨htree, c, hc, hgains⟩ := hgoes
  obtain ⟨cells, hcells⟩ := exists_closedLoop? h.problem htree (fun d hd => h.served.isBasic hd)
    h.served.inside hgains.inside hgains.fresh
  obtain ⟨o, ho, hstate, hround⟩ : ∃ o, s.withLoop r = .ok o ∧ o.state = s ∧
      o.round = { r with closedLoop := cells, phase := .theta } := by
    unfold State.withLoop
    rw [hc]
    dsimp only
    rw [hcells]
    exact ⟨_, rfl, rfl, rfl⟩
  refine ⟨o, ho, ?_, .of_phase .theta (by rw [hstate]) hphase (by rw [hround]) (by decide)⟩
  rw [hstate, hround]
  exact ⟨htree, c, isLoop_of_closedLoop? hcells, { hgains with }⟩

theorem withTheta_goesOn (hphase : r.phase = .theta) :
    GoesOn p (s.withTheta r).state.plan (s.withTheta r).round ∧ Advances s r (s.withTheta r) := by
  rw [GoesOn, hphase] at hgoes
  obtain ⟨htree, first, hloop, hgains⟩ := hgoes
  obtain ⟨c, theta, hsmallest, htransfer⟩ :=
    hloop.exists_transfer h.served.inOrder h.served.amount_nonneg
  unfold State.withTheta
  rw [hsmallest]
  exact ⟨⟨htree, first, c, theta, rfl, ⟨h.served, hloop, hgains.inside, htransfer.losing,
    htransfer.theta_eq, htransfer.theta_le⟩, { hgains with }⟩,
    .of_phase .reallocate rfl hphase rfl (by decide)⟩

theorem withShift_goesOn (hphase : r.phase = .reallocate) :
    GoesOn p (s.withShift r).state.plan (s.withShift r).round ∧ Advances s r (s.withShift r) := by
  rw [GoesOn, hphase] at hgoes
  obtain ⟨htree, c, e, theta, htheta, hmovable, hgains⟩ := hgoes
  have hplan := plan_withShift (s := s) htheta
  have hcost : (s.withShift r).state.totalCost =
      (moved r.closedLoop theta s.plan).weigh p.unitCost := by
    change s.planCost (s.withShift r).state.plan = _
    rw [State.planCost, Plan.cost_eq, unitCost_eq h.problem, hplan]
  refine ⟨fun hcount => ?_, .inr (.inr ?_)⟩
  · rw [hplan] at hcount ⊢
    have htreeCount := htree.count
    exact hmovable.spans_moved htree.spans (by omega)
  · rw [hcost, h.cost]
    exact hgains.cost_moved hmovable

/-- The work of a phase goes on, unless dual values are due and too few shipments are left. -/
theorem work_cases (hm : 0 < p.sourceCount) :
    (r.phase = .duals ∧ Short s) ∧
        (∃ rows columns, s.work r = .error (.unresolvedDuals rows columns)) ∨
      ¬ (r.phase = .duals ∧ Short s) ∧
        ∃ o, s.work r = .ok o ∧ GoesOn p o.state.plan o.round ∧ Advances s r o := by
  unfold State.work
  cases hphase : r.phase with
  | duals =>
    rcases withDuals_cases h hgoes hm hphase with ⟨hshort, herror⟩ | ⟨hshort, hok⟩
    · exact .inl ⟨⟨rfl, hshort⟩, herror⟩
    · exact .inr ⟨fun hand => hshort hand.2, hok⟩
  | opportunityCosts =>
    exact .inr ⟨nofun, _, rfl, withOpportunityCosts_goesOn h hgoes hphase⟩
  | entering => exact .inr ⟨nofun, _, rfl, withEntering_goesOn hgoes hphase⟩
  | closedLoop => exact .inr ⟨nofun, withLoop_goesOn h hgoes hphase⟩
  | theta => exact .inr ⟨nofun, _, rfl, withTheta_goesOn h hgoes hphase⟩
  | reallocate => exact .inr ⟨nofun, _, rfl, withShift_goesOn h hgoes hphase⟩

end Work

def GoingOn (p : TransportProblem ℚ) (s : State ℚ) : Prop :=
  ∃ r, s.improvement = some r ∧ RoundFits p s r ∧ GoesOn p s.plan r

/-- Dual values are due, and too few shipments are left to determine them. -/
def Stuck (s : State ℚ) : Prop := (∃ r, s.improvement = some r ∧ r.phase = .duals) ∧ Short s

def rank (low : ℚ) (s : State ℚ) : ℕ :=
  if s.progress = .complete then 0
  else 6 * ⌊(s.totalCost - low) / Scalar.tolerance⌋₊ +
    s.improvement.elim 0 fun r => stepsLeft r.phase

theorem one_le_stepsLeft (phase : Phase) : 1 ≤ stepsLeft phase := by cases phase <;> decide

theorem stepsLeft_le (phase : Phase) : stepsLeft phase ≤ 6 := by cases phase <;> decide

/-- What is lower by the tolerance holds it one time less. -/
theorem floor_div_lt {y : ℚ} (hx : 0 ≤ x) (h : x + Scalar.tolerance ≤ y) :
    ⌊x / Scalar.tolerance⌋₊ < ⌊y / Scalar.tolerance⌋₊ := by
  have hT := Scalar.tolerance_pos
  rw [← Nat.add_one_le_iff, ← Nat.floor_add_one (div_nonneg hx hT.le)]
  refine Nat.floor_le_floor ?_
  rw [← div_self hT.ne', ← add_div]
  exact div_le_div_of_nonneg_right h hT.le

theorem rank_lt (hr : s.improvement = some r) (hs : s.progress ≠ .complete)
    (ho : t.totalCost = o.state.totalCost ∧ t.progress = o.state.progress ∧
      t.improvement = some o.round) (hlow : low ≤ t.totalCost) (hadvances : Advances s r o) :
    rank low t < rank low s := by
  obtain ⟨hcost, hprogress, hround⟩ := ho
  have hone := one_le_stepsLeft r.phase
  rw [rank, rank, if_neg hs, hr]
  split_ifs with hcomplete
  · simp only [Option.elim_some]
    omega
  · rw [hround]
    simp only [Option.elim_some]
    rcases hadvances with hdone | ⟨hsame, hlt⟩ | hless
    · exact absurd (hprogress.trans hdone) hcomplete
    · rw [hcost, hsame]
      omega
    · have hfloor := floor_div_lt (sub_nonneg.mpr hlow) (y := s.totalCost - low) (by
        rw [hcost]
        linarith)
      have hle := stepsLeft_le o.round.phase
      omega

theorem GoingOn.not_stuck (h : GoingOn p s) (hs : s.progress = .complete) : ¬ Stuck s := by
  obtain ⟨r, hr, hround, -⟩ := h
  rintro ⟨⟨r', hr', hphase⟩, -⟩
  obtain rfl := Option.some.inj (hr.symm.trans hr')
  exact nomatch hphase.symm.trans (hround.complete hs).1

/-- A step of the improvement finds dual values missing where it is stuck, and else goes on. -/
theorem GoingOn.improve_cases (h : GoingOn p s) (hm : 0 < p.sourceCount)
    (hlow : ∀ plan, p.ServedBy plan → low ≤ plan.weigh p.unitCost)
    (hs : s.progress ≠ .complete) :
    Stuck s ∧ (∃ rows columns, s.improve = .error (.unresolvedDuals rows columns)) ∨
      ¬ Stuck s ∧ ∃ t, s.improve = .ok t ∧ GoingOn p t ∧ rank low t < rank low s := by
  obtain ⟨r, hr, hround, hgoes⟩ := h
  have hstuck : Stuck s ↔ r.phase = .duals ∧ Short s := by
    rw [Stuck, hr]
    simp
  rcases work_cases hround.running hgoes hm with
    ⟨hshort, rows, columns, herror⟩ | ⟨hnot, o, ho, hgoes', hadvances⟩
  · refine .inl ⟨hstuck.mpr hshort, rows, columns, ?_⟩
    rw [State.improve_eq hs hr, herror]
    rfl
  · have hround' := hround.running.work Progress.noConfusion ho
    refine .inr ⟨fun h => hnot (hstuck.mp h),
      { o.state with improvement := some o.round, explanation := o.explanation }, ?_,
      ⟨o.round, rfl, { hround' with }, hgoes'⟩, ?_⟩
    · rw [State.improve_eq hs hr, ho]
      rfl
    · refine rank_lt hr hs ⟨rfl, rfl, rfl⟩ ?_ hadvances
      exact hround'.cost ▸ hlow _ hround'.served

section Run

theorem GoingOn.step_eq (h : GoingOn p s) : Solver.step s = s.improve := by
  obtain ⟨r, -, hround, -⟩ := h
  exact step_modi hround.method

theorem GoingOn.of_reaches (h : GoingOn p s) (hm : 0 < p.sourceCount)
    (hrun : Solver.Reaches s t) : GoingOn p t := by
  obtain ⟨low, hlow⟩ := p.exists_cost_bound
  refine hrun.invariant h fun u v hu hstep => ?_
  rw [hu.step_eq] at hstep
  by_cases hcomplete : u.progress = .complete
  · rw [improve_of_complete hcomplete] at hstep
    exact Except.ok.inj hstep ▸ hu
  · rcases hu.improve_cases hm hlow hcomplete with ⟨-, rows, columns, herror⟩ |
      ⟨-, w, hw, hgoing, -⟩
    · rw [herror] at hstep
      exact nomatch hstep
    · obtain rfl := Except.ok.inj (hw.symm.trans hstep)
      exact hgoing

/-- A step finds dual values missing exactly where the improvement is stuck. -/
theorem GoingOn.step_cases (h : GoingOn p s) (hm : 0 < p.sourceCount) :
    Stuck s ∧ (∃ rows columns, Solver.step s = .error (.unresolvedDuals rows columns)) ∨
      ¬ Stuck s ∧ ∃ t, Solver.step s = .ok t := by
  obtain ⟨low, hlow⟩ := p.exists_cost_bound
  rw [h.step_eq]
  by_cases hs : s.progress = .complete
  · exact .inr ⟨h.not_stuck hs, s, improve_of_complete hs⟩
  · exact (h.improve_cases hm hlow hs).imp_right fun ⟨hnot, t, ht, _⟩ => ⟨hnot, t, ht⟩

theorem GoingOn.exists_end (h : GoingOn p s) (hm : 0 < p.sourceCount) :
    ∃ k t, Solver.after k s = .ok t ∧ GoingOn p t ∧ (t.progress = .complete ∨ Stuck t) := by
  obtain ⟨low, hlow⟩ := p.exists_cost_bound
  have hstep (u : State ℚ) (hu : GoingOn p u) : (u.progress = .complete ∨ Stuck u) ∨
      ∃ v, Solver.step u = .ok v ∧ GoingOn p v ∧ rank low v < rank low u := by
    by_cases hcomplete : u.progress = .complete
    · exact .inl (.inl hcomplete)
    · rw [hu.step_eq]
      exact (hu.improve_cases hm hlow hcomplete).imp (fun hstuck => .inr hstuck.1) And.right
  obtain ⟨k, -, t, ht⟩ := Solver.exists_after_of_rank (rank low) hstep h
  exact ⟨k, t, ht⟩

theorem goingOn_start (hstart : start p m = .ok s₀) (hwhole : p.Whole)
    (hfill : Solver.Reaches s₀ s₁) (himprove : s₁.startImprovement = .ok s₂) :
    GoingOn p.balance s₂ := by
  obtain ⟨r, hr, hround⟩ := improving_of_reaches hstart hwhole hfill himprove .refl
  obtain ⟨hp, rfl⟩ := start_eq_ok hstart
  obtain ⟨hm, -, hnonneg⟩ := TransportProblem.fault?_eq_none hp
  obtain ⟨n, rfl⟩ := exists_allocateAll_of_reaches rfl hfill
  obtain ⟨k, roots, hrooted, -⟩ := ((depleted_firstState (hm.trans_le p.sourceCount_le_balance)
    (TransportProblem.nonneg_balance hnonneg) m).allocateAll (List.replicate n m)).rooted
  obtain ⟨text, rfl⟩ := eq_of_startImprovement himprove
  obtain rfl := Option.some.inj hr
  exact ⟨_, rfl, hround, hrooted.spans⟩

/-- The improvement of a first plan of whole amounts ends, with a plan that is complete or with an
error of missing dual values. No step of it has another error, and one has this error exactly if
dual values are due and too few cells are basic to tie all rows and columns together. -/
theorem ends_of_startImprovement (hstart : start p m = .ok s₀) (hwhole : p.Whole)
    (hfill : Solver.Reaches s₀ s₁) (himprove : s₁.startImprovement = .ok s₂) :
    (∃ k t, Solver.after k s₂ = .ok t ∧ (t.progress = .complete ∨
      ∃ rows columns, Solver.step t = .error (.unresolvedDuals rows columns))) ∧
    ∀ s, Solver.Reaches s₂ s →
      (∀ error, Solver.step s = .error error →
        ∃ rows columns, error = .unresolvedDuals rows columns) ∧
      ((∃ rows columns, Solver.step s = .error (.unresolvedDuals rows columns)) ↔
        (∃ r, s.improvement = some r ∧ r.phase = .duals) ∧
          s.plan.basicCells.length < s.rowCount + s.columnCount - 1) := by
  have hgoing := goingOn_start hstart hwhole hfill himprove
  have hm : 0 < p.balance.sourceCount :=
    (TransportProblem.fault?_eq_none (start_eq_ok hstart).1).1.trans_le p.sourceCount_le_balance
  refine ⟨?_, fun s hrun => ?_⟩
  · obtain ⟨k, t, hafter, hgoing, hend⟩ := hgoing.exists_end hm
    refine ⟨k, t, hafter, hend.imp_right fun hstuck => ?_⟩
    rcases hgoing.step_cases hm with ⟨-, herror⟩ | ⟨hnot, -⟩
    · exact herror
    · exact absurd hstuck hnot
  · change _ ∧ (_ ↔ Stuck s)
    rcases (hgoing.of_reaches hm hrun).step_cases hm with ⟨hstuck, rows, columns, herror⟩ |
      ⟨hnot, t, ht⟩
    · refine ⟨fun error h => ⟨rows, columns, ?_⟩, fun _ => hstuck, fun _ => ⟨rows, columns, herror⟩⟩
      exact Except.error.inj (h.symm.trans herror)
    · rw [ht]
      exact ⟨nofun, nofun, fun hstuck => absurd hstuck hnot⟩

/-- The first round uses up two shipments of one unit at once. -/
def twinDepots : TransportProblem ℚ where
  supply := [1, 2]
  demand := [2, 1]
  costs := [[2, 1], [1, 1]]
  supplyLabels := []
  demandLabels := []

theorem whole_twinDepots : twinDepots.Whole := by
  intro x hx
  fin_cases hx <;> exact intCast_mem _ _

/-- After the first round of `depots` all dual values are found, and the second round completes.
After that of `twinDepots` some are missing. -/
theorem depots_improvement_ends :
    (∃ s₀ s₁ s₂ s t : State ℚ, start depots .northwestCorner = .ok s₀ ∧
      Solver.after 3 s₀ = .ok s₁ ∧ s₁.startImprovement = .ok s₂ ∧ Solver.after 6 s₂ = .ok s ∧
      (∃ r, s.improvement = some r ∧ r.phase = .duals) ∧
      (¬ ∃ rows columns, Solver.step s = .error (.unresolvedDuals rows columns)) ∧
      Solver.after 3 s = .ok t ∧ t.progress = .complete) ∧
    ∃ s₀ s₁ s₂ s : State ℚ, start twinDepots .northwestCorner = .ok s₀ ∧
      Solver.after 3 s₀ = .ok s₁ ∧ s₁.startImprovement = .ok s₂ ∧ Solver.after 6 s₂ = .ok s ∧
      ∃ rows columns, Solver.step s = .error (.unresolvedDuals rows columns) := by
  constructor
  · obtain ⟨s₀, s₁, s₂, s, hstart, hfill, himprove, hrun, hdue, hcount, hend⟩ :=
      exists_improved (p := depots) (m := .northwestCorner) (n := 3) (k := 6)
        (P := fun s => s.improvement.any (fun r => decide (r.phase = .duals)) = true ∧
          s.rowCount + s.columnCount - 1 ≤ s.plan.basicCells.length ∧
          (Solver.after 3 s).toOption.any (fun t => decide (t.progress = .complete)) = true)
        (by decide +kernel)
    obtain ⟨r, hr, hdue⟩ := (Option.any_eq_true _ _).mp hdue
    obtain ⟨t, ht, hcomplete⟩ := exists_ok_of_any hend
    obtain ⟨-, hmissing⟩ := (ends_of_startImprovement hstart whole_depots
      (Solver.reaches_of_after hfill) himprove).2 s (Solver.reaches_of_after hrun)
    exact ⟨s₀, s₁, s₂, s, t, hstart, hfill, himprove, hrun, ⟨r, hr, of_decide_eq_true hdue⟩,
      fun h => absurd (hmissing.mp h).2 hcount.not_gt, ht, of_decide_eq_true hcomplete⟩
  · obtain ⟨s₀, s₁, s₂, s, hstart, hfill, himprove, hrun, hdue, hcount⟩ :=
      exists_improved (p := twinDepots) (m := .northwestCorner) (n := 3) (k := 6)
        (P := fun s => s.improvement.any (fun r => decide (r.phase = .duals)) = true ∧
          s.plan.basicCells.length < s.rowCount + s.columnCount - 1)
        (by decide +kernel)
    obtain ⟨r, hr, hdue⟩ := (Option.any_eq_true _ _).mp hdue
    obtain ⟨-, hmissing⟩ := (ends_of_startImprovement hstart whole_twinDepots
      (Solver.reaches_of_after hfill) himprove).2 s (Solver.reaches_of_after hrun)
    exact ⟨s₀, s₁, s₂, s, hstart, hfill, himprove, hrun,
      hmissing.mpr ⟨⟨r, hr, of_decide_eq_true hdue⟩, hcount⟩⟩

end Run

end Optima.Transport
