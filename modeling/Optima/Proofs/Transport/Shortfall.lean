import Mathlib
import Optima.Proofs.Transport.Termination

namespace Optima

namespace Plan

def shipped (p : Plan ℚ) : ℕ ⊕ ℕ → ℚ := Sum.elim p.sent p.received

def lineWeight : ℕ ⊕ ℕ → Cell → ℚ :=
  Sum.elim (fun i c => if c.row = i then 1 else 0) fun j c => if c.column = j then 1 else 0

theorem shipped_eq (p : Plan ℚ) (l : ℕ ⊕ ℕ) : p.shipped l = p.weigh (lineWeight l) := by
  cases l with
  | inl i => exact p.sent_eq i
  | inr j => exact p.received_eq j

theorem length_basicCells_le (p : Plan ℚ) : p.basicCells.length ≤ p.length := by
  rw [basicCells, List.length_map]
  exact List.length_filter_le _ _

theorem lineWeight_nonneg (l : ℕ ⊕ ℕ) (c : Cell) : 0 ≤ lineWeight l c := by
  cases l with
  | inl i => exact ite_nonneg zero_le_one le_rfl
  | inr j => exact ite_nonneg zero_le_one le_rfl

end Plan

namespace TransportProblem

def due (p : TransportProblem ℚ) : ℕ ⊕ ℕ → ℚ :=
  Sum.elim (fun i => p.supply.getD i 0) fun j => p.demand.getD j 0

/-- Every line ships what it should, up to the tolerance for every line. -/
def MatchedBy (p : TransportProblem ℚ) (plan : Plan ℚ) : Prop :=
  ∀ l ∈ p.lines,
    |plan.shipped l - p.due l| ≤ (p.sourceCount + p.destinationCount) * Scalar.tolerance

end TransportProblem

namespace Transport

open Improvement State

variable {p : TransportProblem ℚ} {m : InitialMethod} {s t s₀ s₁ s₂ : State ℚ} {plan : Plan ℚ}
  {r : Improvement ℚ} {o : Outcome ℚ} {first c : Cell} {cells : List Cell} {theta : ℚ} {l : ℕ ⊕ ℕ}

section Move

theorem IsLoop.sum_lineWeight (h : IsLoop plan first cells) (l : ℕ ⊕ ℕ) (theta : ℚ) :
    ((changes theta cells).map fun a => Plan.lineWeight l a.1 * a.2).sum = 0 := by
  cases l with
  | inl i => exact h.sum_row (fun k => if k = i then 1 else 0) theta
  | inr j => exact h.sum_column (fun k => if k = j then 1 else 0) theta

namespace Transfer

variable (h : Transfer plan first cells c theta)
include h

/-- A line ships less by what is dropped. -/
theorem shipped_moved (l : ℕ ⊕ ℕ) : (moved cells theta plan).shipped l +
    (leftovers cells theta plan).shipped l = plan.shipped l := by
  simp only [Plan.shipped_eq]
  rw [h.weigh_moved_add, h.loop.sum_lineWeight, add_zero]

theorem amount_leftovers {s : Shipment ℚ} (hs : s ∈ leftovers cells theta plan) :
    s ∈ shifted cells theta plan ∧ 0 ≤ s.amount ∧ s.amount ≤ Scalar.dropTolerance := by
  obtain ⟨hs, hle⟩ := List.mem_filter.mp hs
  rw [Bool.not_eq_true', decide_eq_false_iff_not, not_lt] at hle
  exact ⟨hs, h.changed.inOrder.amount_of_mem hs ▸ h.amount_shifted_nonneg s.cell, hle⟩

theorem shipped_leftovers_nonneg (l : ℕ ⊕ ℕ) : 0 ≤ (leftovers cells theta plan).shipped l := by
  rw [Plan.shipped_eq]
  refine List.sum_nonneg fun x hx => ?_
  obtain ⟨s, hs, rfl⟩ := List.mem_map.mp hx
  exact mul_nonneg (Plan.lineWeight_nonneg l s.cell) (h.amount_leftovers hs).2.1

/-- A shipment that is dropped with something left of it is lost besides the one used up. -/
theorem length_moved_lt {s : Shipment ℚ} (hs : s ∈ leftovers cells theta plan)
    (hamount : s.amount ≠ 0) : (moved cells theta plan).length < plan.length := by
  obtain ⟨hs, -, hle⟩ := h.amount_leftovers hs
  have hshifted := h.changed.inOrder.amount_of_mem hs
  have hne : s.cell ≠ c := by
    rintro rfl
    exact hamount (hshifted ▸ h.amount_exiting)
  have hmem : s.cell ∈ (first :: plan.cells).erase c :=
    (List.mem_erase_of_ne hne).mpr (List.mem_cons.mpr (h.mem_cells_of_shifted (Plan.mem_cells hs)))
  have hsubset : (moved cells theta plan).cells ⊆ ((first :: plan.cells).erase c).erase s.cell := by
    intro d hd
    refine (List.mem_erase_of_ne ?_).mpr (h.moved_subset hd)
    rintro rfl
    obtain ⟨heq, hlt, -⟩ := h.amount_of_mem_moved hd
    rw [heq, hshifted] at hlt
    exact hlt.not_ge hle
  have hlength := (List.subperm_of_subset h.inOrder_moved.nodup hsubset).length_le
  have hpos := List.length_pos_of_mem hmem
  rw [List.length_erase_of_mem hmem, h.length_erase, Plan.cells, List.length_map] at hlength
  rw [h.length_erase] at hpos
  omega

/-- A move that does not keep what every line ships leaves fewer shipments. -/
theorem shipped_or_length_lt :
    (∀ l, (moved cells theta plan).shipped l = plan.shipped l) ∨
      (moved cells theta plan).length < plan.length := by
  by_cases hnone : ∀ s ∈ leftovers cells theta plan, s.amount = 0
  · refine .inl fun l => ?_
    rw [← h.shipped_moved l, Plan.shipped_eq (leftovers _ _ _), Plan.weigh_eq_zero hnone, add_zero]
  · simp only [not_forall] at hnone
    obtain ⟨s, hs, hamount⟩ := hnone
    exact .inr (h.length_moved_lt hs hamount)

end Transfer

end Move

def Improvement.droppedFrom (r : Improvement ℚ) (plan : Plan ℚ) (l : ℕ ⊕ ℕ) : ℚ :=
  if r.phase = .reallocate then (leftovers r.closedLoop (r.theta.getD 0) plan).shipped l else 0

theorem Improvement.droppedFrom_eq_zero (hphase : r.phase ≠ .reallocate) :
    r.droppedFrom plan l = 0 := if_neg hphase

/-- What the next step of the improvement drops at a source or a destination. -/
def State.dropped (s : State ℚ) (l : ℕ ⊕ ℕ) : ℚ :=
  s.improvement.elim 0 fun r => r.droppedFrom s.plan l

theorem State.dropped_eq (hr : s.improvement = some r) (l : ℕ ⊕ ℕ) :
    s.dropped l = r.droppedFrom s.plan l := by
  rw [State.dropped, hr, Option.elim_some]

theorem State.plan_of_work (hphase : r.phase ≠ .reallocate) (ho : s.work r = .ok o) :
    o.state.plan = s.plan := by
  apply State.work_elim ho
  case duals =>
    intro _ ho
    obtain ⟨d, -, ho⟩ := exists_ok_of_bind ho
    obtain rfl := Except.ok.inj ho
    rfl
  case opportunityCosts => exact fun _ => rfl
  case entering =>
    intro _
    unfold State.withEntering
    split <;> rfl
  case closedLoop =>
    intro _ ho
    unfold State.withLoop at ho
    split at ho
    · exact nomatch ho
    · split at ho
      · exact nomatch ho
      · obtain rfl := Except.ok.inj ho
        rfl
  case theta =>
    intro _
    unfold State.withTheta
    split <;> rfl
  case reallocate => exact fun hreallocate => absurd hreallocate hphase

/-- What a round has found by its phase, whatever the amounts are. -/
def Found (p : TransportProblem ℚ) (plan : Plan ℚ) (r : Improvement ℚ) : Prop :=
  match r.phase with
  | .duals | .opportunityCosts => True
  | .entering => ∀ c x, r.mostNegative = some (c, x) →
      c.row < p.sourceCount ∧ c.column < p.destinationCount
  | .closedLoop => ∃ c, r.entering = some c ∧ c.row < p.sourceCount ∧ c.column < p.destinationCount
  | .theta => ∃ c, (c.row < p.sourceCount ∧ c.column < p.destinationCount) ∧
      IsLoop plan c r.closedLoop
  | .reallocate => ∃ c e theta, r.theta = some theta ∧
      (c.row < p.sourceCount ∧ c.column < p.destinationCount) ∧
      Transfer plan c r.closedLoop e theta

/-- The lines ship what they should but for what remains. -/
def Accounted (p : TransportProblem ℚ) (s : State ℚ) : Prop :=
  ∀ l, s.plan.shipped l + s.remaining l = p.due l

structure Underway (p : TransportProblem ℚ) (s : State ℚ) (r : Improvement ℚ) : Prop where
  problem : s.problem = p
  method : s.method = .modi
  inOrder : s.plan.InOrder
  inside : ∀ c ∈ s.plan.cells, c.row < p.sourceCount ∧ c.column < p.destinationCount
  amounts : ∀ c ∈ s.plan.cells, Scalar.tolerance < s.plan.amount c
  room : s.plan.length < p.sourceCount + p.destinationCount
  remaining_nonneg : ∀ l, 0 ≤ s.remaining l
  remaining_le : ∀ l ∈ p.lines,
    s.remaining l ≤ (p.sourceCount + p.destinationCount) * Scalar.tolerance
  found : Found p s.plan r
  complete : s.progress = .complete → r.phase = .entering
  accounted : r.phase = .duals ∧ Short s ∨ Accounted p s

namespace Underway

theorem amount_nonneg (h : Underway p s r) (c : Cell) : 0 ≤ s.plan.amount c :=
  Plan.amount_nonneg (fun d hd => Scalar.tolerance_pos.le.trans (h.amounts d hd).le) c

theorem accounted_of_ne (h : Underway p s r) (hphase : r.phase ≠ .duals) : Accounted p s :=
  h.accounted.resolve_left fun hshort => hphase hshort.1

theorem exists_transfer (h : Underway p s r) (hphase : r.phase = .reallocate) :
    ∃ first c, (first.row < p.sourceCount ∧ first.column < p.destinationCount) ∧
      Transfer s.plan first r.closedLoop c (r.theta.getD 0) := by
  have hfound := h.found
  rw [Found, hphase] at hfound
  obtain ⟨first, c, theta, htheta, hinside, htransfer⟩ := hfound
  rw [htheta]
  exact ⟨first, c, hinside, htransfer⟩

theorem droppedFrom_nonneg (h : Underway p s r) (l : ℕ ⊕ ℕ) : 0 ≤ r.droppedFrom s.plan l := by
  by_cases hphase : r.phase = .reallocate
  · obtain ⟨first, c, -, htransfer⟩ := h.exists_transfer hphase
    rw [droppedFrom, if_pos hphase]
    exact htransfer.shipped_leftovers_nonneg l
  · exact (droppedFrom_eq_zero hphase).ge

/-- A phase that works has all shipments accounted for. -/
theorem accounted_of_work (h : Underway p s r) (ho : s.work r = .ok o) : Accounted p s := by
  refine h.accounted.resolve_left fun ⟨hphase, hshort⟩ => ?_
  rw [State.work, hphase] at ho
  obtain ⟨d, hd, -⟩ := exists_ok_of_bind ho
  exact not_short_of_allDuals hd hshort

section Work

variable (h : Underway p s r) (haccounted : Accounted p s) (hs : s.progress ≠ .complete)
include h haccounted hs

theorem withDuals (ho : s.withDuals r = .ok o) : Underway p o.state o.round := by
  obtain ⟨d, -, ho⟩ := exists_ok_of_bind ho
  obtain rfl := Except.ok.inj ho
  exact { h with
    found := trivial
    complete := fun hcomplete => absurd hcomplete hs
    accounted := .inr haccounted }

theorem withOpportunityCosts :
    Underway p (s.withOpportunityCosts r).state (s.withOpportunityCosts r).round := by
  have hfound (c x) (hsome : s.mostNegative? r = some (c, x)) :
      c.row < p.sourceCount ∧ c.column < p.destinationCount :=
    h.problem ▸ mem_table_of_mostNegative? hsome
  exact { h with
    found := hfound
    complete := fun hcomplete => absurd hcomplete hs
    accounted := .inr haccounted }

theorem withEntering (hphase : r.phase = .entering) :
    Underway p (s.withEntering r).state (s.withEntering r).round := by
  have hfound := h.found
  rw [Found, hphase] at hfound
  unfold State.withEntering
  split
  · exact { h with
      complete := fun _ => hphase
      accounted := .inr haccounted }
  · next c x hsome =>
    exact { h with
      found := ⟨c, rfl, hfound c x hsome⟩
      complete := fun hcomplete => absurd hcomplete hs
      accounted := .inr haccounted }

theorem withLoop (hphase : r.phase = .closedLoop) (ho : s.withLoop r = .ok o) :
    Underway p o.state o.round := by
  have hfound := h.found
  rw [Found, hphase] at hfound
  obtain ⟨c, hc, hinside⟩ := hfound
  unfold State.withLoop at ho
  rw [hc] at ho
  dsimp only at ho
  split at ho
  · exact nomatch ho
  · next cells hcells =>
    obtain rfl := Except.ok.inj ho
    exact { h with
      found := ⟨c, hinside, isLoop_of_closedLoop? hcells⟩
      complete := fun hcomplete => absurd hcomplete hs
      accounted := .inr haccounted }

theorem withTheta (hphase : r.phase = .theta) :
    Underway p (s.withTheta r).state (s.withTheta r).round := by
  have hfound := h.found
  rw [Found, hphase] at hfound
  obtain ⟨first, hinside, hloop⟩ := hfound
  obtain ⟨c, theta, hsmallest, htransfer⟩ := hloop.exists_transfer h.inOrder h.amount_nonneg
  unfold State.withTheta
  rw [hsmallest]
  exact { h with
    found := ⟨first, c, theta, rfl, hinside, htransfer⟩
    complete := fun hcomplete => absurd hcomplete hs
    accounted := .inr haccounted }

/-- A shipment that is dropped with something left of it leaves too few. -/
theorem withShift (hphase : r.phase = .reallocate) :
    Underway p (s.withShift r).state (s.withShift r).round := by
  obtain ⟨first, c, hinside, htransfer⟩ := h.exists_transfer hphase
  have hplan : (s.withShift r).state.plan = moved r.closedLoop (r.theta.getD 0) s.plan := rfl
  have hroom := htransfer.length_moved_le.trans_lt h.room
  refine { h with
    inOrder := hplan ▸ htransfer.inOrder_moved
    inside := fun d hd => ?_
    amounts := fun d hd => ?_
    room := hplan ▸ hroom
    found := trivial
    complete := fun hcomplete => absurd hcomplete hs
    accounted := ?_ }
  · rw [hplan] at hd
    rcases htransfer.mem_cells_of_shifted (htransfer.amount_of_mem_moved hd).2.2 with rfl | hd
    · exact hinside
    · exact h.inside d hd
  · rw [hplan] at hd ⊢
    exact Scalar.tolerance_lt_dropTolerance.trans (htransfer.amount_of_mem_moved hd).2.1
  · rcases htransfer.shipped_or_length_lt with hkept | hlt
    · refine .inr fun l => ?_
      rw [hplan, hkept]
      exact haccounted l
    · have hbasic := (s.withShift r).state.plan.length_basicCells_le
      have hroom := h.room
      rw [hplan] at hbasic
      rw [← h.problem] at hroom
      refine .inl ⟨rfl, ?_⟩
      change _ < s.problem.sourceCount + s.problem.destinationCount - 1
      rw [hplan]
      omega

end Work

theorem running (h : Underway p s r) :
    Underway p { s with step := s.step + 1, progress := .running } r :=
  { h with complete := Progress.noConfusion }

/-- The work of every phase keeps what holds of the improvement. -/
theorem work (h : Underway p s r) (hs : s.progress ≠ .complete) (ho : s.work r = .ok o) :
    Underway p o.state o.round := by
  have haccounted := h.accounted_of_work ho
  apply State.work_elim ho
  case duals => exact fun _ => h.withDuals haccounted hs
  case opportunityCosts => exact fun _ => h.withOpportunityCosts haccounted hs
  case entering => exact h.withEntering haccounted hs
  case closedLoop => exact h.withLoop haccounted hs
  case theta => exact h.withTheta haccounted hs
  case reallocate => exact h.withShift haccounted hs

theorem shipped_work (h : Underway p s r) (ho : s.work r = .ok o) (l : ℕ ⊕ ℕ) :
    o.state.plan.shipped l + r.droppedFrom s.plan l = s.plan.shipped l := by
  by_cases hphase : r.phase = .reallocate
  · obtain ⟨first, c, -, htransfer⟩ := h.exists_transfer hphase
    rw [State.work, hphase] at ho
    obtain rfl := Except.ok.inj ho
    rw [droppedFrom, if_pos hphase]
    exact htransfer.shipped_moved l
  · rw [plan_of_work hphase ho, droppedFrom_eq_zero hphase, add_zero]

end Underway

def Ongoing (p : TransportProblem ℚ) (s : State ℚ) : Prop :=
  ∃ r, s.improvement = some r ∧ Underway p s r

namespace Ongoing

theorem step_eq (h : Ongoing p s) : Solver.step s = s.improve := by
  obtain ⟨r, -, hround⟩ := h
  exact step_modi hround.method

theorem dropped_nonneg (h : Ongoing p s) (l : ℕ ⊕ ℕ) : 0 ≤ s.dropped l := by
  obtain ⟨r, hr, hround⟩ := h
  rw [dropped_eq hr]
  exact hround.droppedFrom_nonneg l

/-- A step accounts for all that the lines should ship, with what it drops. -/
theorem step (h : Ongoing p s) (ht : Solver.step s = .ok t) :
    Ongoing p t ∧ ∀ l, t.plan.shipped l + (s.remaining l + s.dropped l) = p.due l := by
  rw [h.step_eq] at ht
  have hongoing := h
  obtain ⟨r, hr, hround⟩ := h
  rcases State.improve_cases hr ht with ⟨hs, rfl⟩ | ⟨-, o, ho, rfl⟩
  · have hphase := hround.complete hs
    refine ⟨hongoing, fun l => ?_⟩
    rw [dropped_eq hr, droppedFrom_eq_zero (by rw [hphase]; decide), add_zero]
    exact hround.accounted_of_ne (by rw [hphase]; decide) l
  · have hrunning := hround.running
    have hnext := hrunning.work Progress.noConfusion ho
    refine ⟨⟨o.round, rfl, { hnext with }⟩, fun l => ?_⟩
    have haccounted : s.plan.shipped l + s.remaining l = p.due l :=
      hrunning.accounted_of_work ho l
    have hshipped : o.state.plan.shipped l + r.droppedFrom s.plan l = s.plan.shipped l :=
      hrunning.shipped_work ho l
    rw [← haccounted, ← hshipped, dropped_eq hr]
    ring

theorem of_reaches (h : Ongoing p s) (hrun : Solver.Reaches s t) : Ongoing p t :=
  hrun.invariant h fun _ _ hu hstep => (hu.step hstep).1

theorem remaining_nonneg (h : Ongoing p s) (l : ℕ ⊕ ℕ) : 0 ≤ s.remaining l := by
  obtain ⟨r, -, hround⟩ := h
  exact hround.remaining_nonneg l

theorem remaining_le (h : Ongoing p s) (hl : l ∈ p.lines) :
    s.remaining l ≤ (p.sourceCount + p.destinationCount) * Scalar.tolerance := by
  obtain ⟨r, -, hround⟩ := h
  exact hround.remaining_le l hl

/-- A step that drops something has no error. -/
theorem exists_step (h : Ongoing p s) (hl : s.dropped l ≠ 0) : ∃ t, Solver.step s = .ok t := by
  rw [h.step_eq]
  obtain ⟨r, hr, hround⟩ := h
  rw [dropped_eq hr] at hl
  have hphase : r.phase = .reallocate := by
    by_contra hphase
    exact hl (droppedFrom_eq_zero hphase)
  have hs : s.progress ≠ .complete := fun hcomplete =>
    nomatch (hround.complete hcomplete).symm.trans hphase
  rw [State.improve_eq hs hr, State.work, hphase]
  exact ⟨_, rfl⟩

/-- What is not accounted for is the last plan: the next step finds dual values missing. -/
theorem accounted_or_error (h : Ongoing p s) : Accounted p s ∨
    ∃ rows columns, Solver.step s = .error (.unresolvedDuals rows columns) := by
  rw [h.step_eq]
  obtain ⟨r, hr, hround⟩ := h
  rcases hround.accounted with ⟨hphase, hshort⟩ | haccounted
  · have hs : s.progress ≠ .complete := fun hcomplete =>
      nomatch (hround.complete hcomplete).symm.trans hphase
    rw [State.improve_eq hs hr, State.work, hphase]
    dsimp only
    rcases allDuals_cases ({ s with step := s.step + 1, progress := .running } : State ℚ) with
      ⟨d, hd⟩ | ⟨rows, columns, herror⟩
    · exact absurd hshort (not_short_of_allDuals hd)
    · exact .inr ⟨rows, columns, by rw [State.withDuals, herror]; rfl⟩
  · exact .inl haccounted

end Ongoing

theorem ongoing_start (hstart : start p m = .ok s₀) (hfill : Solver.Reaches s₀ s₁)
    (himprove : s₁.startImprovement = .ok s₂) : Ongoing p.balance s₂ ∧ Accounted p.balance s₂ := by
  obtain ⟨hm, hn, -⟩ := TransportProblem.fault?_eq_none (start_eq_ok hstart).1
  obtain ⟨hfits, -⟩ := fits_of_reaches hstart hfill
  have hcomplete := complete_of_startImprovement himprove
  obtain ⟨text, rfl⟩ := eq_of_startImprovement himprove
  have hle := hfits.remaining_le (hm.trans_le p.sourceCount_le_balance)
    (hn.trans_le p.destinationCount_le_balance) p.abs_surplus_balance_le hcomplete
  have haccounted : Accounted p.balance s₁
    | .inl i => hfits.supply i
    | .inr j => hfits.demand j
  exact ⟨⟨_, rfl, hfits.problem, rfl, hfits.inOrder, hfits.inside, hfits.amounts, hfits.room,
    hfits.remaining_nonneg, hle, trivial, nofun, .inr haccounted⟩, haccounted⟩

/-- What a line ships differs from what it should by what it does not ship. -/
theorem abs_shipped_sub {x : ℚ} (h : plan.shipped l + x = p.due l) (hx : 0 ≤ x) :
    |plan.shipped l - p.due l| = x := by
  rw [← h, sub_add_cancel_left, abs_neg, abs_of_nonneg hx]

theorem Accounted.matchedBy (h : Accounted p s) (hs : Ongoing p s) : p.MatchedBy s.plan := by
  intro l hl
  rw [abs_shipped_sub (h l) (hs.remaining_nonneg l)]
  exact hs.remaining_le hl

/-- All plans of an improvement ship what every line should, up to the tolerance for every line,
exactly if no step drops more than that with what the first plan leaves. Dual values are missing for
any other plan. Whole amounts are shipped exactly. -/
theorem matched_iff_of_startImprovement (hstart : start p m = .ok s₀)
    (hfill : Solver.Reaches s₀ s₁) (himprove : s₁.startImprovement = .ok s₂) :
    ((∀ s, Solver.Reaches s₂ s → p.balance.MatchedBy s.plan) ↔
      ∀ s, Solver.Reaches s₂ s → ∀ l ∈ p.balance.lines, s.remaining l + s.dropped l ≤
        (p.balance.sourceCount + p.balance.destinationCount) * Scalar.tolerance) ∧
    (∀ s, Solver.Reaches s₂ s → p.balance.MatchedBy s.plan ∨
      ∃ rows columns, Solver.step s = .error (.unresolvedDuals rows columns)) ∧
    (p.Whole → ∀ s, Solver.Reaches s₂ s → ∀ l ∈ p.balance.lines,
      s.plan.shipped l = p.balance.due l) := by
  obtain ⟨hfirst, haccounted⟩ := ongoing_start hstart hfill himprove
  refine ⟨⟨fun hmatched s hs l hl => ?_, fun hdropped t ht l hl => ?_⟩, fun s hs => ?_,
    fun hwhole s hs l hl => ?_⟩
  · have hongoing := hfirst.of_reaches hs
    by_cases hzero : s.dropped l = 0
    · rw [hzero, add_zero]
      exact hongoing.remaining_le hl
    -- what a step drops is missing from the plan after it
    · obtain ⟨t, ht⟩ := hongoing.exists_step hzero
      have hsum := add_nonneg (hongoing.remaining_nonneg l) (hongoing.dropped_nonneg l)
      rw [← abs_shipped_sub ((hongoing.step ht).2 l) hsum]
      exact hmatched t (hs.tail ht) l hl
  · rcases ht.cases_tail with rfl | ⟨s, hs, hstep⟩
    · exact haccounted.matchedBy hfirst l hl
    · have hongoing := hfirst.of_reaches hs
      have hsum := add_nonneg (hongoing.remaining_nonneg l) (hongoing.dropped_nonneg l)
      rw [abs_shipped_sub ((hongoing.step hstep).2 l) hsum]
      exact hdropped s hs l hl
  · have hongoing := hfirst.of_reaches hs
    exact hongoing.accounted_or_error.imp_left fun haccounted => haccounted.matchedBy hongoing
  · obtain ⟨r, -, hround⟩ := improving_of_reaches hstart hwhole hfill himprove hs
    cases l with
    | inl i => exact hround.served.sent i (TransportProblem.inl_mem_lines.mp hl)
    | inr j => exact hround.served.received j (TransportProblem.inr_mem_lines.mp hl)

/-- The northwest corner method ships the little that the first source has where it costs more. -/
def trickle : TransportProblem ℚ where
  supply := [1 / 32768, 2]
  demand := [1, 32769 / 32768]
  costs := [[2, 1], [1, 1]]
  supplyLabels := []
  demandLabels := []

theorem trickle_drops : ∃ s₀ s₁ s₂ s : State ℚ, start trickle .northwestCorner = .ok s₀ ∧
    Solver.after 3 s₀ = .ok s₁ ∧ s₁.startImprovement = .ok s₂ ∧ Solver.after 6 s₂ = .ok s ∧
      s.plan.shipped (.inl 0) + (trickle.balance.sourceCount + trickle.balance.destinationCount) *
        Scalar.tolerance < trickle.balance.due (.inl 0) :=
  exists_improved (by decide +kernel)

theorem trickle_matched_or_stops : ∃ s₀ s₁ s₂ : State ℚ,
    start trickle .northwestCorner = .ok s₀ ∧ Solver.after 3 s₀ = .ok s₁ ∧
      s₁.startImprovement = .ok s₂ ∧ ∀ s, Solver.Reaches s₂ s → trickle.balance.MatchedBy s.plan ∨
        ∃ rows columns, Solver.step s = .error (.unresolvedDuals rows columns) := by
  obtain ⟨s₀, s₁, s₂, -, hstart, hfill, himprove, -⟩ := trickle_drops
  exact ⟨s₀, s₁, s₂, hstart, hfill, himprove,
    (matched_iff_of_startImprovement hstart (Solver.reaches_of_after hfill) himprove).2.1⟩

theorem trickle_not_matched : ∃ s₀ s₁ s₂ s : State ℚ,
    start trickle .northwestCorner = .ok s₀ ∧ Solver.Reaches s₀ s₁ ∧
      s₁.startImprovement = .ok s₂ ∧ Solver.Reaches s₂ s ∧ ¬ trickle.balance.MatchedBy s.plan := by
  obtain ⟨s₀, s₁, s₂, s, hstart, hfill, himprove, hrun, hlt⟩ := trickle_drops
  refine ⟨s₀, s₁, s₂, s, hstart, Solver.reaches_of_after hfill, himprove,
    Solver.reaches_of_after hrun, fun hmatched => ?_⟩
  have hle := hmatched (.inl 0) (TransportProblem.inl_mem_lines.mpr
    (Nat.zero_lt_two.trans_le trickle.sourceCount_le_balance))
  linarith [(abs_le.mp hle).1]

end Transport

end Optima
