import Mathlib
import Optima.Proofs.Transport.Independence
import Optima.Proofs.Transport.LoopLines
import Optima.Proofs.Transport.Shortfall

namespace Optima

namespace Cell

theorem pairwise_table (m n : ℕ) : (table m n).Pairwise fun a b => a.precedes b = true :=
  (pairwise_flatMap List.pairwise_lt_range List.pairwise_lt_range).imp precedes_iff_place_lt.mpr

/-- The first cell with the smallest value comes after cells with larger ones. -/
theorem firstBest?_map_eq_some {g : Cell → ℚ} {cells : List Cell} {c : Cell} {x : ℚ}
    (h : firstBest? (fun a b => decide (a.2 < b.2)) (cells.map fun d => (d, g d)) = some (c, x)) :
    x = g c ∧ ∃ before after, cells = before ++ c :: after ∧
      (∀ d ∈ before, x < g d) ∧ ∀ d ∈ after, x ≤ g d := by
  obtain ⟨l, r, hsplit, hl, hr⟩ :=
    firstBest?_eq_some Prod.snd (fun _ _ => decide_eq_true_iff) h
  obtain ⟨before, rest, rfl, rfl, hrest⟩ := List.map_eq_append_iff.mp hsplit
  obtain ⟨d, after, rfl, hd, rfl⟩ := List.map_eq_cons_iff.mp hrest
  obtain ⟨rfl, rfl⟩ := Prod.mk.inj hd
  exact ⟨rfl, before, after, rfl, fun e he => hl _ (List.mem_map_of_mem he),
    fun e he => hr _ (List.mem_map_of_mem he)⟩

end Cell

namespace Transport

open Improvement State

variable {p : TransportProblem ℚ} {m : InitialMethod} {methods : List InitialMethod}
  {s t s₀ s₁ s₂ : State ℚ} {r : Improvement ℚ} {o : Outcome ℚ} {c : Cell} {x : ℚ}

/-- A phase comes no later than those with fewer steps left. -/
instance : LE Phase := ⟨fun a b => stepsLeft b ≤ stepsLeft a⟩

instance : DecidableLE Phase := fun a b => inferInstanceAs (Decidable (stepsLeft b ≤ stepsLeft a))

theorem Phase.not_due {a b : Phase} {P : Prop} (h : decide (a ≤ b) = false) (hle : a ≤ b) : P :=
  absurd hle (of_decide_eq_false h)

theorem Phase.due {a b : Phase} {P : Prop} (h : decide (a ≤ b) = true) (hnot : ¬ a ≤ b) : P :=
  absurd (of_decide_eq_true h) hnot

structure Improvement.Pending (m n : ℕ) (r : Improvement ℚ) : Prop where
  costs : ¬ .entering ≤ r.phase → r.opportunityCosts = .zeros m n ∧ r.mostNegative = none
  entering : ¬ .closedLoop ≤ r.phase → r.entering = none
  closedLoop : ¬ .theta ≤ r.phase → r.closedLoop = []
  theta : ¬ .reallocate ≤ r.phase → r.theta = none ∧ r.exiting = none

structure DualsHold (s : State ℚ) (r : Improvement ℚ) : Prop where
  rowDuals : r.rowDuals = (List.range s.rowCount).map fun i => some (r.rowValue i)
  columnDuals : r.columnDuals = (List.range s.columnCount).map fun j => some (r.columnValue j)
  first : r.rowValue 0 = 0
  sum_eq : ∀ c, s.plan.isBasic c = true → r.rowValue c.row + r.columnValue c.column = s.unitCost c

/-- The first cell in reading order with the smallest entry, if that is below the tolerance. -/
def FirstLowest (m n : ℕ) (costs : Matrix ℚ) : Option (Cell × ℚ) → Prop
  | none => ∀ i < m, ∀ j < n, -Scalar.tolerance ≤ costs.get i j
  | some (c, x) => c.row < m ∧ c.column < n ∧ x = costs.get c.row c.column ∧
      x < -Scalar.tolerance ∧ ∀ d : Cell, d.row < m → d.column < n →
        x ≤ costs.get d.row d.column ∧ (d.precedes c = true → x < costs.get d.row d.column)

/-- What the cells cost beyond their dual values, and which of them costs the least. -/
structure CostsHold (s : State ℚ) (r : Improvement ℚ) : Prop where
  opportunityCosts : r.opportunityCosts = .ofFn s.rowCount s.columnCount fun i j =>
    if s.plan.isBasic ⟨i, j⟩ then 0 else s.unitCost ⟨i, j⟩ - (r.rowValue i + r.columnValue j)
  mostNegative : FirstLowest s.rowCount s.columnCount r.opportunityCosts r.mostNegative

/-- The one loop from a cell through basic cells. Each line that it meets has one cell that gains
and one that loses. -/
structure LoopHolds (plan : Plan ℚ) (first : Cell) (cells : List Cell) : Prop where
  loop : ∃ rest, cells = first :: rest ∧ ClosedLoop first rest ∧
    ∀ c ∈ rest, plan.isBasic c = true
  unique : ∀ rest, ClosedLoop first rest → (∀ c ∈ rest, plan.isBasic c = true) →
    cells = first :: rest
  turn : ∀ d ∈ cells, ∀ alongRow gains,
    ∃! e, e ∈ turns gains cells ∧ e.line alongRow = d.line alongRow

/-- The amount to be moved is the smallest one that the loop loses, at the first such cell. -/
def ThetaHolds (plan : Plan ℚ) (r : Improvement ℚ) : Prop :=
  ∃ before c after, losing r.closedLoop = before ++ c :: after ∧ r.exiting = some c ∧
    r.theta = some (plan.amount c) ∧ (∀ d ∈ before, plan.amount c < plan.amount d) ∧
    ∀ d ∈ after, plan.amount c ≤ plan.amount d

/-- What the record of a round holds by its phase. -/
structure RoundHolds (s : State ℚ) (r : Improvement ℚ) : Prop where
  blank : r.phase = .duals → r = .blank s.rowCount s.columnCount
  pending : r.Pending s.rowCount s.columnCount
  isOptimal : s.isOptimal = if .entering ≤ r.phase then some r.mostNegative.isNone else none
  duals : .opportunityCosts ≤ r.phase → DualsHold s r
  costs : .entering ≤ r.phase → CostsHold s r
  entering : .closedLoop ≤ r.phase → ∃ c x, r.mostNegative = some (c, x) ∧ r.entering = some c ∧
    s.plan.isBasic c = false
  closedLoop : .theta ≤ r.phase → ∃ c, r.entering = some c ∧ LoopHolds s.plan c r.closedLoop
  theta : .reallocate ≤ r.phase → ThetaHolds s.plan r

section Search

theorem mostNegative?_eq (s : State ℚ) (r : Improvement ℚ) : s.mostNegative? r =
    firstBest? (fun a b => decide (a.2 < b.2)) (((Cell.table s.rowCount s.columnCount).filter
      fun c => !s.plan.isBasic c && decide (s.opportunityCost r c < -Scalar.tolerance)).map
        fun c => (c, s.opportunityCost r c)) := by
  rw [State.mostNegative?, List.filter_map]
  rfl

/-- A cell that the search passes over costs no less than the tolerance below nothing. -/
theorem neg_tolerance_le (hc : (!s.plan.isBasic c &&
    decide (s.opportunityCost r c < -Scalar.tolerance)) = false) :
    -Scalar.tolerance ≤ s.opportunityCost r c := by
  cases hbasic : s.plan.isBasic c with
  | true =>
    rw [opportunityCost, if_pos hbasic]
    exact neg_nonpos.mpr Scalar.tolerance_pos.le
  | false =>
    rw [hbasic, Bool.not_false, Bool.true_and, decide_eq_false_iff_not] at hc
    exact not_lt.mp hc

theorem firstLowest_mostNegative? (s : State ℚ) (r : Improvement ℚ) :
    FirstLowest s.rowCount s.columnCount
      (.ofFn s.rowCount s.columnCount fun i j => s.opportunityCost r ⟨i, j⟩)
      (s.mostNegative? r) := by
  cases h : s.mostNegative? r with
  | none =>
    intro i hi j hj
    rw [mostNegative?_eq, firstBest?_eq_none_iff, List.map_eq_nil_iff, List.filter_eq_nil_iff] at h
    rw [Matrix.get_ofFn hi hj]
    exact neg_tolerance_le (Bool.eq_false_iff.mpr (h ⟨i, j⟩ (Cell.mem_table.mpr ⟨hi, hj⟩)))
  | some a =>
    obtain ⟨c, x⟩ := a
    rw [mostNegative?_eq] at h
    obtain ⟨rfl, before, after, hsplit, hbefore, hafter⟩ := Cell.firstBest?_map_eq_some h
    have hmem (d : Cell) := congrArg (d ∈ ·) hsplit
    simp only [List.mem_filter, List.mem_append, List.mem_cons, eq_iff_iff, Cell.mem_table] at hmem
    obtain ⟨⟨hrow, hcolumn⟩, hfound⟩ := (hmem c).mpr (.inr (.inl rfl))
    rw [Bool.and_eq_true, decide_eq_true_eq] at hfound
    have hget (d : Cell) (hi : d.row < s.rowCount) (hj : d.column < s.columnCount) :
        (Matrix.ofFn s.rowCount s.columnCount fun i j => s.opportunityCost r ⟨i, j⟩).get
          d.row d.column = s.opportunityCost r d := Matrix.get_ofFn hi hj
    refine ⟨hrow, hcolumn, (hget c hrow hcolumn).symm, hfound.2, fun d hi hj => ?_⟩
    rw [hget d hi hj]
    -- the cells found are in reading order
    have hordered := (Cell.pairwise_table s.rowCount s.columnCount).filter fun c =>
      !s.plan.isBasic c && decide (s.opportunityCost r c < -Scalar.tolerance)
    rw [hsplit, List.pairwise_append, List.pairwise_cons] at hordered
    cases hd : (!s.plan.isBasic d && decide (s.opportunityCost r d < -Scalar.tolerance)) with
    | false =>
      have hlt := hfound.2.trans_le (neg_tolerance_le hd)
      exact ⟨hlt.le, fun _ => hlt⟩
    | true =>
      rcases (hmem d).mp ⟨⟨hi, hj⟩, hd⟩ with hd | rfl | hd
      · exact ⟨(hbefore d hd).le, fun _ => hbefore d hd⟩
      · refine ⟨le_rfl, fun hprecedes => ?_⟩
        rw [Cell.precedes_irrefl] at hprecedes
        exact absurd hprecedes Bool.false_ne_true
      · refine ⟨hafter d hd, fun hprecedes => ?_⟩
        rw [Cell.precedes_asymm (hordered.2.1.1 d hd)] at hprecedes
        exact absurd hprecedes Bool.false_ne_true

theorem IsLoop.loopHolds {plan : Plan ℚ} {first : Cell} {cells : List Cell}
    (h : IsLoop plan first cells) (huntied : Untied plan.cells) : LoopHolds plan first cells where
  loop := isLoop_iff.mp h
  unique rest hrest hbasic := h.unique huntied (isLoop_iff.mpr ⟨rest, rfl, hrest, hbasic⟩)
  turn _ hd alongRow gains := h.existsUnique_turn huntied hd alongRow gains

theorem IsLoop.thetaHolds {plan : Plan ℚ} {first : Cell} (h : IsLoop plan first r.closedLoop) :
    ∃ c, r.smallestLosing? plan = some (c, plan.amount c) ∧
      ThetaHolds plan { r with theta := some (plan.amount c), exiting := some c } := by
  obtain ⟨c, x, hsmallest⟩ := h.exists_smallestLosing
  obtain ⟨rfl, before, after, hsplit, hbefore, hafter⟩ := Cell.firstBest?_map_eq_some hsmallest
  exact ⟨c, hsmallest, before, c, after, hsplit, rfl, rfl, hbefore, hafter⟩

end Search

theorem RoundHolds.congr (h : RoundHolds s r) (hproblem : t.problem = s.problem)
    (hplan : t.plan = s.plan) (hoptimal : t.isOptimal = s.isOptimal) : RoundHolds t r := by
  cases s
  cases t
  subst hproblem hplan hoptimal
  exact ⟨h.blank, h.pending, h.isOptimal, fun hle => { h.duals hle with },
    fun hle => { h.costs hle with }, h.entering, h.closedLoop, h.theta⟩

theorem roundHolds_blank (hs : s.isOptimal = none) :
    RoundHolds s (.blank s.rowCount s.columnCount) where
  blank _ := rfl
  pending := ⟨fun _ => ⟨rfl, rfl⟩, fun _ => rfl, fun _ => rfl, fun _ => ⟨rfl, rfl⟩⟩
  isOptimal := hs
  duals := Phase.not_due rfl
  costs := Phase.not_due rfl
  entering := Phase.not_due rfl
  closedLoop := Phase.not_due rfl
  theta := Phase.not_due rfl

/-- The cell found costs less than its dual values, which no basic cell does. -/
theorem CostsHold.isBasic_eq_false (h : CostsHold s r) (hc : r.mostNegative = some (c, x)) :
    s.plan.isBasic c = false := by
  have hlowest := h.mostNegative
  rw [hc, h.opportunityCosts] at hlowest
  obtain ⟨hrow, hcolumn, hx, hlt, -⟩ := hlowest
  rw [Matrix.get_ofFn hrow hcolumn] at hx
  rw [← Bool.not_eq_true]
  intro hbasic
  rw [if_pos hbasic] at hx
  exact (neg_nonpos.mpr Scalar.tolerance_pos.le).not_gt (hx ▸ hlt)

namespace RoundHolds

variable (h : RoundHolds s r)
include h

theorem withDuals (hfits : RoundFits p s r) (hm : 0 < p.sourceCount) (hphase : r.phase = .duals)
    (ho : s.withDuals r = .ok o) (hnext : RoundFits p o.state o.round) :
    RoundHolds o.state o.round := by
  obtain rfl := h.blank hphase
  obtain ⟨d, hd, ho⟩ := exists_ok_of_bind ho
  obtain rfl := Except.ok.inj ho
  have hm : 0 < s.rowCount := hfits.rowCount.symm ▸ hm
  have hinside : ∀ c ∈ s.plan.basicCells, c.row < s.rowCount ∧ c.column < s.columnCount := by
    rw [hfits.served.basicCells_eq, hfits.rowCount, hfits.columnCount]
    exact hfits.served.inside
  obtain ⟨hzero, used, htied⟩ := tied_of_allDuals hd hm hinside
  obtain ⟨hrows, hcolumns⟩ := Nat.add_eq_zero_iff.mp hzero
  have hexact : DualsFit p s.plan _ := hnext.phase
  have hsum (c : Cell) (hc : s.plan.isBasic c = true) :
      (d.row? c.row).getD 0 + (d.column? c.column).getD 0 = s.unitCost c := by
    rw [unitCost_eq hfits.problem]
    exact (hexact.exact c (Plan.mem_of_isBasic hc)).symm
  have hfirst : (d.row? 0).getD 0 = 0 := by
    rw [row?_zero_of_allDuals hd hm]
    rfl
  exact ⟨nofun, ⟨fun _ => ⟨rfl, rfl⟩, fun _ => rfl, fun _ => rfl, fun _ => ⟨rfl, rfl⟩⟩,
    h.isOptimal, fun _ => ⟨eq_map_of_countP_eq_zero htied.rows hrows,
      eq_map_of_countP_eq_zero htied.columns hcolumns, hfirst, hsum⟩,
    Phase.not_due rfl, Phase.not_due rfl, Phase.not_due rfl, Phase.not_due rfl⟩

theorem withOpportunityCosts (hphase : r.phase = .opportunityCosts) :
    RoundHolds (s.withOpportunityCosts r).state (s.withOpportunityCosts r).round := by
  have hduals : DualsHold s r := h.duals (by rw [hphase]; decide)
  have hentering := h.pending.entering (by rw [hphase]; decide)
  have hloop := h.pending.closedLoop (by rw [hphase]; decide)
  have htheta := h.pending.theta (by rw [hphase]; decide)
  have hlowest := firstLowest_mostNegative? s r
  exact ⟨nofun, ⟨Phase.due rfl, fun _ => hentering, fun _ => hloop, fun _ => htheta⟩, rfl,
    fun _ => { hduals with }, fun _ => ⟨rfl, hlowest⟩,
    Phase.not_due rfl, Phase.not_due rfl, Phase.not_due rfl⟩

theorem withEntering (hphase : r.phase = .entering) :
    RoundHolds (s.withEntering r).state (s.withEntering r).round := by
  have hduals : DualsHold s r := h.duals (by rw [hphase]; decide)
  have hcosts : CostsHold s r := h.costs (by rw [hphase]; decide)
  have hloop := h.pending.closedLoop (by rw [hphase]; decide)
  have htheta := h.pending.theta (by rw [hphase]; decide)
  have hoptimal := h.isOptimal
  rw [hphase] at hoptimal
  unfold State.withEntering
  split
  · exact h.congr rfl rfl rfl
  · next c x hc =>
    exact ⟨nofun, ⟨Phase.due rfl, Phase.due rfl, fun _ => hloop, fun _ => htheta⟩, hoptimal,
      fun _ => { hduals with }, fun _ => { hcosts with },
      fun _ => ⟨c, x, hc, rfl, hcosts.isBasic_eq_false hc⟩, Phase.not_due rfl, Phase.not_due rfl⟩

theorem withLoop (huntied : Untied s.plan.cells) (hphase : r.phase = .closedLoop)
    (ho : s.withLoop r = .ok o) : RoundHolds o.state o.round := by
  have hduals : DualsHold s r := h.duals (by rw [hphase]; decide)
  have hcosts : CostsHold s r := h.costs (by rw [hphase]; decide)
  obtain ⟨c, x, hleast, hc, hbasic⟩ := h.entering (by rw [hphase]; decide)
  have htheta := h.pending.theta (by rw [hphase]; decide)
  have hoptimal := h.isOptimal
  rw [hphase] at hoptimal
  unfold State.withLoop at ho
  rw [hc] at ho
  dsimp only at ho
  cases hloop : s.closedLoop? c with
  | none =>
    rw [hloop] at ho
    exact nomatch ho
  | some cells =>
    rw [hloop] at ho
    obtain rfl := Except.ok.inj ho
    have hholds := (isLoop_of_closedLoop? hloop).loopHolds huntied
    exact ⟨nofun, ⟨Phase.due rfl, Phase.due rfl, Phase.due rfl, fun _ => htheta⟩, hoptimal,
      fun _ => { hduals with }, fun _ => { hcosts with }, fun _ => ⟨c, x, hleast, rfl, hbasic⟩,
      fun _ => ⟨c, rfl, hholds⟩, Phase.not_due rfl⟩

theorem withTheta (hphase : r.phase = .theta) :
    RoundHolds (s.withTheta r).state (s.withTheta r).round := by
  have hduals : DualsHold s r := h.duals (by rw [hphase]; decide)
  have hcosts : CostsHold s r := h.costs (by rw [hphase]; decide)
  have hentering := h.entering (by rw [hphase]; decide)
  obtain ⟨first, hfirst, hholds⟩ := h.closedLoop (by rw [hphase]; decide)
  have hoptimal := h.isOptimal
  rw [hphase] at hoptimal
  obtain ⟨c, hsmallest, htheta⟩ := (isLoop_iff.mpr hholds.loop).thetaHolds
  unfold State.withTheta
  rw [hsmallest]
  exact ⟨nofun, ⟨Phase.due rfl, Phase.due rfl, Phase.due rfl, Phase.due rfl⟩, hoptimal,
    fun _ => { hduals with }, fun _ => { hcosts with }, fun _ => hentering,
    fun _ => ⟨first, hfirst, hholds⟩, fun _ => htheta⟩

/-- The work of every phase keeps the record. -/
theorem work (hfits : RoundFits p s r) (hm : 0 < p.sourceCount) (huntied : Untied s.plan.cells)
    (ho : s.work r = .ok o) (hnext : RoundFits p o.state o.round) :
    RoundHolds o.state o.round := by
  revert hnext
  apply State.work_elim ho
  case duals => exact fun hphase ho hnext => h.withDuals hfits hm hphase ho hnext
  case opportunityCosts => exact fun hphase _ => h.withOpportunityCosts hphase
  case entering => exact fun hphase _ => h.withEntering hphase
  case closedLoop => exact fun hphase ho _ => h.withLoop huntied hphase ho
  case theta => exact fun hphase _ => h.withTheta hphase
  case reallocate => exact fun _ _ => roundHolds_blank rfl

end RoundHolds

theorem untied_of_work (hfits : RoundFits p s r) (huntied : Untied s.plan.cells)
    (ho : s.work r = .ok o) : Untied o.state.plan.cells := by
  by_cases hphase : r.phase = .reallocate
  · have hmovable := hfits.phase
    rw [PhaseFits, hphase] at hmovable
    obtain ⟨first, c, theta, htheta, hmovable⟩ := hmovable
    unfold State.work at ho
    rw [hphase] at ho
    obtain rfl := Except.ok.inj ho
    rw [State.plan_withShift htheta]
    exact hmovable.transfer.untied_moved huntied
  · rw [State.plan_of_work hphase ho]
    exact huntied

structure Recorded (p : TransportProblem ℚ) (s : State ℚ) (r : Improvement ℚ) : Prop where
  improvement : s.improvement = some r
  fits : RoundFits p s r
  untied : Untied s.plan.cells
  holds : RoundHolds s r

theorem Recorded.step (h : Recorded p s r) (hm : 0 < p.sourceCount)
    (ht : Solver.step s = .ok t) : ∃ r', Recorded p t r' := by
  rw [step_modi h.fits.method] at ht
  rcases State.improve_cases h.improvement ht with ⟨-, rfl⟩ | ⟨-, o, ho, rfl⟩
  · exact ⟨r, h⟩
  · have hrunning : RoundHolds { s with step := s.step + 1, progress := .running } r :=
      h.holds.congr rfl rfl rfl
    have hnext := h.fits.running.work Progress.noConfusion ho
    have hholds := hrunning.work h.fits.running hm h.untied ho hnext
    exact ⟨o.round, rfl, { hnext with }, untied_of_work h.fits.running h.untied ho,
      hholds.congr rfl rfl rfl⟩

theorem Recorded.of_reaches (h : Recorded p s r) (hm : 0 < p.sourceCount)
    (hrun : Solver.Reaches s t) : ∃ r', Recorded p t r' := by
  refine hrun.invariant (P := fun t => ∃ r', Recorded p t r') ⟨r, h⟩ fun u v hu hstep => ?_
  obtain ⟨r', hr'⟩ := hu
  exact hr'.step hm hstep

/-- The improvement of a first plan of whole amounts starts with a blank record. -/
theorem recorded_start (hstart : start p m = .ok s₀) (hwhole : p.Whole)
    (hfill : s₁ = s₀.allocateAll methods) (himprove : s₁.startImprovement = .ok s₂) :
    ∃ r, Recorded p.balance s₂ r := by
  obtain ⟨hp, rfl⟩ := start_eq_ok hstart
  obtain ⟨hm, -, hnonneg⟩ := TransportProblem.fault?_eq_none hp
  have hfirst := depleted_firstState (hm.trans_le p.sourceCount_le_balance)
    (TransportProblem.nonneg_balance hnonneg) m
  have hfits : Fits p.balance s₁ := hfill ▸ (hfirst.allocateAll methods).fits
  have hamounts : Whole s₁ :=
    hfill ▸ (Whole.firstState hwhole.balance m).allocateAll hfirst.fits methods
  have huntied : Untied s₁.plan.cells :=
    hfill ▸ ((apart_firstState p.balance m).allocateAll hfirst.fits methods).untied
  obtain ⟨r, hr, hround⟩ := Improving.start hfits.problem
    (hfits.servedBy hamounts hwhole.surplus_balance) hfits.cost himprove
  obtain ⟨text, rfl⟩ := eq_of_startImprovement himprove
  obtain rfl := Option.some.inj hr
  exact ⟨_, rfl, hround, huntied, roundHolds_blank rfl⟩

/-- In every state of the improvement of a first plan of whole amounts, the record of the round fits
the plan and the phase. -/
theorem roundHolds_of_reaches (hstart : start p m = .ok s₀) (hwhole : p.Whole)
    (hfill : s₁ = s₀.allocateAll methods) (himprove : s₁.startImprovement = .ok s₂)
    (hrun : Solver.Reaches s₂ s) : ∃ r, s.improvement = some r ∧ RoundHolds s r := by
  obtain ⟨r, h⟩ := recorded_start hstart hwhole hfill himprove
  have hm := (TransportProblem.fault?_eq_none (start_eq_ok hstart).1).1
  obtain ⟨r', h'⟩ := h.of_reaches (hm.trans_le p.sourceCount_le_balance) hrun
  exact ⟨r', h'.improvement, h'.holds⟩

theorem depots_reallocates : ∃ s₀ s₂ s : State ℚ, ∃ r, start depots .northwestCorner = .ok s₀ ∧
    (s₀.allocateAll (List.replicate 3 .northwestCorner)).startImprovement = .ok s₂ ∧
      Solver.after 5 s₂ = .ok s ∧ s.improvement = some r ∧ r.phase = .reallocate := by
  have hfifth : ((start depots .northwestCorner).bind fun s₀ => (s₀.allocateAll
      (List.replicate 3 .northwestCorner)).startImprovement.bind (Solver.after 5)).toOption.any
        (fun s => s.improvement.any fun r => decide (r.phase = .reallocate)) = true := by
    decide +kernel
  obtain ⟨s, hs, hphase⟩ := exists_ok_of_any hfifth
  obtain ⟨s₀, hstart, hs⟩ := exists_ok_of_bind hs
  obtain ⟨s₂, himprove, hrun⟩ := exists_ok_of_bind hs
  obtain ⟨r, hr, hphase⟩ := (Option.any_eq_true _ _).mp hphase
  exact ⟨s₀, s₂, s, r, hstart, himprove, hrun, hr, of_decide_eq_true hphase⟩

theorem depots_round_holds : ∃ s₀ s₁ s₂ s : State ℚ, start depots .northwestCorner = .ok s₀ ∧
    s₁ = s₀.allocateAll (List.replicate 3 .northwestCorner) ∧ s₁.startImprovement = .ok s₂ ∧
      Solver.after 5 s₂ = .ok s ∧
        ∃ r, s.improvement = some r ∧ r.phase = .reallocate ∧ RoundHolds s r := by
  obtain ⟨s₀, s₂, s, r, hstart, himprove, hrun, hr, hphase⟩ := depots_reallocates
  obtain ⟨r', hr', hholds⟩ := roundHolds_of_reaches hstart whole_depots rfl himprove
    (Solver.reaches_of_after hrun)
  obtain rfl := Option.some.inj (hr.symm.trans hr')
  exact ⟨s₀, _, s₂, s, hstart, rfl, himprove, hrun, r, hr, hphase, hholds⟩

end Transport

end Optima
