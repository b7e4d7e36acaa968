import Mathlib
import Optima.Proofs.Runs
import Optima.Proofs.Transport.Selection
import Optima.Proofs.Transport.Totals
import Optima.Transport.Improvement

namespace Optima.Transport

open State

variable {p : TransportProblem ℚ} {s t : State ℚ} {m : InitialMethod} {c : Cell} {x : ℚ}

namespace State

def openCount (s : State ℚ) : ℕ := s.availableSources.length + s.availableDestinations.length

theorem exhausted_of_isFilled (h : s.isFilled = true) : s.Exhausted := by
  refine .inl (List.filter_eq_nil_iff.mpr fun i _ => ?_)
  rw [isSourceAvailable, decide_eq_true_iff, not_lt]
  refine getD_of_forall_mem (P := (· ≤ Scalar.tolerance)) (fun x hx => ?_)
    Scalar.tolerance_pos.le i
  exact of_decide_eq_true (List.all_eq_true.mp h x (List.mem_append_left _ hx))

/-- A step of a first plan ships all it can through the cell of its method or ends for want of
one. -/
theorem allocate_cases_select (m : InitialMethod) (s : State ℚ) :
    s.progress = .complete ∧ s.allocate m = s ∨
    (s.Exhausted ∧ ∃ k e d, s.allocate m =
      { s with step := k, progress := .complete, degenerate := d, explanation := e }) ∨
    ∃ c reason, s.select? m = some (c, reason) ∧
      ∃ k r e d, (r = .complete → (s.ship c (s.capacity c)).Exhausted) ∧
      s.allocate m = { s.ship c (s.capacity c) with
        step := k, progress := r, degenerate := d, explanation := e } := by
  unfold allocate
  split_ifs with hcomplete
  · exact .inl ⟨hcomplete, rfl⟩
  · unfold filling
    split_ifs with hfilled
    · exact .inr (.inl ⟨exhausted_of_isFilled hfilled, _, _, _, rfl⟩)
    · cases hselect : s.select? m with
      | none => exact .inr (.inl ⟨exhausted_of_select? hselect, _, _, _, rfl⟩)
      | some found =>
        obtain ⟨c, reason⟩ := found
        refine .inr (.inr ⟨c, reason, rfl, _, _, _, _, fun hr => ?_, rfl⟩)
        split at hr
        · next hfull => exact exhausted_of_isFilled hfull
        · exact Progress.noConfusion hr

/-- Whichever the method, the cell that a step ships through is available. -/
theorem allocate_cases (m : InitialMethod) (s : State ℚ) :
    s.progress = .complete ∧ s.allocate m = s ∨
    (s.Exhausted ∧ ∃ k e d, s.allocate m =
      { s with step := k, progress := .complete, degenerate := d, explanation := e }) ∨
    ∃ c ∈ s.availableCells, ∃ k r e d, (r = .complete → (s.ship c (s.capacity c)).Exhausted) ∧
      s.allocate m = { s.ship c (s.capacity c) with
        step := k, progress := r, degenerate := d, explanation := e } := by
  rcases s.allocate_cases_select m with h | h | ⟨c, reason, hselect, h⟩
  · exact .inl h
  · exact .inr (.inl h)
  · exact .inr (.inr ⟨c, mem_of_select? hselect, h⟩)

end State

structure Fits (p : TransportProblem ℚ) (s : State ℚ) : Prop where
  problem : s.problem = p
  inOrder : s.plan.InOrder
  inside : ∀ c ∈ s.plan.cells, c.row < p.sourceCount ∧ c.column < p.destinationCount
  amounts : ∀ c ∈ s.plan.cells, Scalar.tolerance < s.plan.amount c
  cost : s.totalCost = s.plan.weigh p.unitCost
  supplyLength : s.remainingSupply.length = p.sourceCount
  demandLength : s.remainingDemand.length = p.destinationCount
  supplyNonneg : ∀ i, 0 ≤ s.remainingSupply.getD i 0
  demandNonneg : ∀ j, 0 ≤ s.remainingDemand.getD j 0
  supply : ∀ i, s.plan.sent i + s.remainingSupply.getD i 0 = p.supply.getD i 0
  demand : ∀ j, s.plan.received j + s.remainingDemand.getD j 0 = p.demand.getD j 0
  count : s.plan.length + s.openCount ≤ p.sourceCount + p.destinationCount
  room : s.plan.length < p.sourceCount + p.destinationCount
  exhausted : s.progress = .complete → s.Exhausted

namespace Fits

theorem rowCount (h : Fits p s) : s.rowCount = p.sourceCount := by rw [State.rowCount, h.problem]

theorem columnCount (h : Fits p s) : s.columnCount = p.destinationCount := by
  rw [State.columnCount, h.problem]

theorem unitCost (h : Fits p s) : s.unitCost = p.unitCost := by
  rw [← h.problem]
  rfl

theorem capacity_eq (s : State ℚ) (c : Cell) : s.capacity c =
    min (s.remainingSupply.getD c.row 0) (s.remainingDemand.getD c.column 0) :=
  Scalar.least_eq_min _ _

theorem tolerance_lt_capacity (hc : c ∈ s.availableCells) : Scalar.tolerance < s.capacity c := by
  obtain ⟨hi, hj⟩ := mem_availableCells.mp hc
  rw [capacity_eq]
  exact lt_min (mem_availableSources.mp hi).2 (mem_availableDestinations.mp hj).2

theorem changed (h : Fits p s) (c : Cell) (x : ℚ) :
    Plan.Changed [(c, x)] s.plan (s.ship c x).plan :=
  Plan.changed_add h.inOrder c x

theorem length_ship (h : Fits p s) (c : Cell) (x : ℚ) :
    (s.ship c x).plan.length ≤ s.plan.length + 1 := by
  have hchanged := h.changed c x
  have hsubset : (s.ship c x).plan.cells ⊆ c :: s.plan.cells := by
    intro d hd
    rcases hchanged.mem_cells d hd with hd | hd
    · exact List.mem_cons_of_mem c hd
    · exact List.mem_cons.mpr (.inl (List.mem_singleton.mp hd))
  have hlength := (List.subperm_of_subset hchanged.inOrder.nodup hsubset).length_le
  simpa [Plan.cells] using hlength

theorem two_le_openCount (hc : c ∈ s.availableCells) : 2 ≤ s.openCount := by
  obtain ⟨hi, hj⟩ := mem_availableCells.mp hc
  exact Nat.add_le_add (List.length_pos_of_mem hi) (List.length_pos_of_mem hj)

theorem amount_ship (h : Fits p s) (c : Cell) (x : ℚ) (d : Cell) :
    (s.ship c x).plan.amount d = s.plan.amount d + if c = d then x else 0 := by
  rw [(h.changed c x).amount h.inOrder]
  simp

theorem amount_nonneg (h : Fits p s) (c : Cell) : 0 ≤ s.plan.amount c :=
  Plan.amount_nonneg (fun d hd => Scalar.tolerance_pos.le.trans (h.amounts d hd).le) c

section Ship

variable (h : Fits p s) (hc : c ∈ s.availableCells)
include h hc

theorem inside_of_available : c.row < p.sourceCount ∧ c.column < p.destinationCount := by
  obtain ⟨hi, hj⟩ := mem_availableCells.mp hc
  exact ⟨h.rowCount ▸ (mem_availableSources.mp hi).1,
    h.columnCount ▸ (mem_availableDestinations.mp hj).1⟩

theorem remainingSupply_ship (i : ℕ) : (s.ship c x).remainingSupply.getD i 0 =
    s.remainingSupply.getD i 0 - if c.row = i then x else 0 := by
  rw [ship, getD_modify (h.supplyLength ▸ (h.inside_of_available hc).1),
    if_congr eq_comm rfl rfl]
  split_ifs
  · rfl
  · rw [sub_zero]

theorem remainingDemand_ship (j : ℕ) : (s.ship c x).remainingDemand.getD j 0 =
    s.remainingDemand.getD j 0 - if c.column = j then x else 0 := by
  rw [ship, getD_modify (h.demandLength ▸ (h.inside_of_available hc).2),
    if_congr eq_comm rfl rfl]
  split_ifs
  · rfl
  · rw [sub_zero]

/-- A shipment leaves a source or a destination with nothing. -/
theorem openCount_ship : (s.ship c (s.capacity c)).openCount < s.openCount := by
  obtain ⟨hi, hj⟩ := mem_availableCells.mp hc
  have hpos := Scalar.tolerance_pos.trans (tolerance_lt_capacity hc)
  have hrows (i : ℕ) (hopen : (s.ship c (s.capacity c)).isSourceAvailable i = true) :
      s.isSourceAvailable i = true := by
    rw [isSourceAvailable, decide_eq_true_iff] at hopen ⊢
    rw [h.remainingSupply_ship hc] at hopen
    split_ifs at hopen <;> linarith
  have hcolumns (j : ℕ) (hopen : (s.ship c (s.capacity c)).isDestinationAvailable j = true) :
      s.isDestinationAvailable j = true := by
    rw [isDestinationAvailable, decide_eq_true_iff] at hopen ⊢
    rw [h.remainingDemand_ship hc] at hopen
    split_ifs at hopen <;> linarith
  have hle := (List.monotone_filter_right (List.range s.rowCount) hrows).length_le
  have hle' := (List.monotone_filter_right (List.range s.columnCount) hcolumns).length_le
  -- the line with the smaller amount left is used up
  unfold openCount availableSources availableDestinations
  rcases min_choice (s.remainingSupply.getD c.row 0) (s.remainingDemand.getD c.column 0) with
    hmin | hmin
  · refine add_lt_add_of_lt_of_le (length_filter_lt_of_imp hrows hi ?_) hle'
    rw [isSourceAvailable, decide_eq_false_iff_not, h.remainingSupply_ship hc, if_pos rfl,
      capacity_eq, hmin, sub_self, not_lt]
    exact Scalar.tolerance_pos.le
  · refine add_lt_add_of_le_of_lt hle (length_filter_lt_of_imp hcolumns hj ?_)
    rw [isDestinationAvailable, decide_eq_false_iff_not, h.remainingDemand_ship hc, if_pos rfl,
      capacity_eq, hmin, sub_self, not_lt]
    exact Scalar.tolerance_pos.le

theorem inside_ship {a : Cell} (ha : a ∈ (s.ship c x).plan.cells) :
    a.row < p.sourceCount ∧ a.column < p.destinationCount := by
  rcases (h.changed c x).mem_cells a ha with ha | ha
  · exact h.inside a ha
  · rw [List.mem_singleton.mp ha]
    exact h.inside_of_available hc

theorem amounts_ship {a : Cell} (ha : a ∈ (s.ship c (s.capacity c)).plan.cells) :
    Scalar.tolerance < (s.ship c (s.capacity c)).plan.amount a := by
  have hcapacity := tolerance_lt_capacity hc
  have hnonneg := h.amount_nonneg a
  rw [h.amount_ship]
  split_ifs with hca
  · linarith
  · rw [add_zero]
    rcases (h.changed c (s.capacity c)).mem_cells a ha with ha | ha
    · exact h.amounts a ha
    · exact absurd (List.mem_singleton.mp ha).symm hca

theorem supplyNonneg_ship (i : ℕ) :
    0 ≤ (s.ship c (s.capacity c)).remainingSupply.getD i 0 := by
  rw [h.remainingSupply_ship hc]
  split_ifs with hi
  · subst hi
    rw [sub_nonneg, capacity_eq]
    exact min_le_left _ _
  · rw [sub_zero]
    exact h.supplyNonneg i

theorem demandNonneg_ship (j : ℕ) :
    0 ≤ (s.ship c (s.capacity c)).remainingDemand.getD j 0 := by
  rw [h.remainingDemand_ship hc]
  split_ifs with hj
  · subst hj
    rw [sub_nonneg, capacity_eq]
    exact min_le_right _ _
  · rw [sub_zero]
    exact h.demandNonneg j

theorem supply_ship (i : ℕ) : (s.ship c x).plan.sent i + (s.ship c x).remainingSupply.getD i 0 =
    p.supply.getD i 0 := by
  rw [h.remainingSupply_ship hc, Plan.sent_eq, (h.changed c x).weigh, ← h.supply i, Plan.sent_eq]
  simp

theorem demand_ship (j : ℕ) :
    (s.ship c x).plan.received j + (s.ship c x).remainingDemand.getD j 0 = p.demand.getD j 0 := by
  rw [h.remainingDemand_ship hc, Plan.received_eq, (h.changed c x).weigh, ← h.demand j,
    Plan.received_eq]
  simp

theorem count_ship : (s.ship c (s.capacity c)).plan.length + (s.ship c (s.capacity c)).openCount ≤
    p.sourceCount + p.destinationCount := by
  have hopen := h.openCount_ship hc
  have hlength := h.length_ship c (s.capacity c)
  have hcount := h.count
  omega

theorem room_ship :
    (s.ship c (s.capacity c)).plan.length < p.sourceCount + p.destinationCount := by
  have hlength := h.length_ship c (s.capacity c)
  have htwo := two_le_openCount hc
  have hcount := h.count
  omega

end Ship

theorem ship (h : Fits p s) (hc : c ∈ s.availableCells) {k : ℕ} {r : Progress} {d : Bool}
    {e : String} (hr : r = .complete → (s.ship c (s.capacity c)).Exhausted) :
    Fits p { s.ship c (s.capacity c) with
      step := k, progress := r, degenerate := d, explanation := e } where
  problem := h.problem
  inOrder := (h.changed c (s.capacity c)).inOrder
  inside _ ha := h.inside_ship hc ha
  amounts _ ha := h.amounts_ship hc ha
  cost := by
    change s.planCost (s.ship c (s.capacity c)).plan = _
    rw [planCost, Plan.cost_eq, h.unitCost]
  supplyLength := (List.length_modify _ _ _).trans h.supplyLength
  demandLength := (List.length_modify _ _ _).trans h.demandLength
  supplyNonneg := h.supplyNonneg_ship hc
  demandNonneg := h.demandNonneg_ship hc
  supply := h.supply_ship hc
  demand := h.demand_ship hc
  count := h.count_ship hc
  room := h.room_ship hc
  exhausted := hr

theorem allocate (h : Fits p s) (m : InitialMethod) : Fits p (s.allocate m) := by
  rcases s.allocate_cases m with ⟨-, heq⟩ | ⟨hexhausted, k, e, d, heq⟩ |
    ⟨c, hc, k, r, e, d, hr, heq⟩
  · rw [heq]
    exact h
  · rw [heq]
    exact { h with exhausted := fun _ => hexhausted }
  · rw [heq]
    exact h.ship hc hr

end Fits

theorem fits_firstState (hm : 0 < p.sourceCount)
    (hnonneg : ∀ x ∈ p.supply ++ p.demand, 0 ≤ x) (method : InitialMethod) :
    Fits p (firstState p method) := by
  refine ⟨rfl, List.Pairwise.nil, fun c hc => absurd hc List.not_mem_nil,
    fun c hc => absurd hc List.not_mem_nil, rfl, rfl, rfl, ?_, ?_, fun i => zero_add _,
    fun j => zero_add _, ?_, ?_, fun h => Progress.noConfusion h⟩
  · exact getD_of_forall_mem (fun x hx => hnonneg x (List.mem_append_left _ hx)) le_rfl
  · exact getD_of_forall_mem (fun x hx => hnonneg x (List.mem_append_right _ hx)) le_rfl
  · have hsources := (List.range p.sourceCount).length_filter_le
      (firstState p method).isSourceAvailable
    have hdestinations := (List.range p.destinationCount).length_filter_le
      (firstState p method).isDestinationAvailable
    rw [List.length_range] at hsources hdestinations
    change 0 + (_ + _) ≤ _
    rw [zero_add]
    exact Nat.add_le_add hsources hdestinations
  · exact Nat.add_pos_left hm _

/-- All amounts of a state are whole numbers. -/
structure Whole (s : State ℚ) : Prop where
  supply : ∀ i, s.remainingSupply.getD i 0 ∈ integers
  demand : ∀ j, s.remainingDemand.getD j 0 ∈ integers
  amounts : ∀ c, s.plan.amount c ∈ integers

namespace Whole

theorem capacity (h : Whole s) (c : Cell) : s.capacity c ∈ integers := by
  rw [Fits.capacity_eq]
  rcases min_choice (s.remainingSupply.getD c.row 0) (s.remainingDemand.getD c.column 0) with
    hmin | hmin
  · rw [hmin]
    exact h.supply c.row
  · rw [hmin]
    exact h.demand c.column

theorem allocate (hw : Whole s) (h : Fits p s) (m : InitialMethod) : Whole (s.allocate m) := by
  rcases s.allocate_cases m with ⟨-, heq⟩ | ⟨-, k, e, d, heq⟩ | ⟨c, hc, k, r, e, d, -, heq⟩
  · rw [heq]
    exact hw
  · rw [heq]
    exact { hw with }
  · have ite_mem (f : Prop) [Decidable f] : (if f then s.capacity c else 0) ∈ integers := by
      split_ifs
      · exact hw.capacity c
      · exact integers.zero_mem
    rw [heq]
    refine ⟨fun i => ?_, fun j => ?_, fun a => ?_⟩
    · change (s.ship c (s.capacity c)).remainingSupply.getD i 0 ∈ integers
      rw [h.remainingSupply_ship hc]
      exact integers.sub_mem (hw.supply i) (ite_mem _)
    · change (s.ship c (s.capacity c)).remainingDemand.getD j 0 ∈ integers
      rw [h.remainingDemand_ship hc]
      exact integers.sub_mem (hw.demand j) (ite_mem _)
    · change (s.ship c (s.capacity c)).plan.amount a ∈ integers
      rw [h.amount_ship]
      exact integers.add_mem (hw.amounts a) (ite_mem _)

theorem firstState (h : p.Whole) (method : InitialMethod) : Whole (firstState p method) := by
  refine ⟨?_, ?_, fun c => integers.zero_mem⟩
  · exact getD_of_forall_mem (fun x hx => h x (List.mem_append_left _ hx)) integers.zero_mem
  · exact getD_of_forall_mem (fun x hx => h x (List.mem_append_right _ hx)) integers.zero_mem

end Whole

section Complete

/-- What remains at the sources exceeds what remains at the destinations by the surplus. -/
theorem Fits.sum_remaining (h : Fits p s) :
    ∑ i ∈ Finset.range p.sourceCount, s.remainingSupply.getD i 0 =
      ∑ j ∈ Finset.range p.destinationCount, s.remainingDemand.getD j 0 + p.surplus := by
  have hsent := Plan.weigh_line Cell.row 1 fun c hc => (h.inside c hc).1
  have hreceived := Plan.weigh_line Cell.column 1 fun c hc => (h.inside c hc).2
  simp only [Pi.one_apply, one_mul, ← Plan.sent_eq, ← Plan.received_eq] at hsent hreceived
  rw [TransportProblem.surplus, p.totalSupply_eq, p.totalDemand_eq]
  simp only [← h.supply, ← h.demand, Finset.sum_add_distrib]
  rw [← hsent, ← hreceived]
  ring

theorem eq_zero_of_filter_eq_nil {n : ℕ} {remaining : ℕ → ℚ} (hnonneg : ∀ i, 0 ≤ remaining i)
    (hwhole : ∀ i, remaining i ∈ integers)
    (h : ∀ i < n, remaining i ≤ Scalar.tolerance) : ∀ i ∈ Finset.range n, remaining i = 0 := by
  intro i hi
  refine eq_zero_of_abs_lt_one (hwhole i) ?_
  rw [abs_of_nonneg (hnonneg i)]
  exact (h i (Finset.mem_range.mp hi)).trans_lt Scalar.tolerance_lt_one

/-- A complete plan of whole amounts ships everything if supply and demand are the same. -/
theorem Fits.remaining_eq_zero (h : Fits p s) (hw : Whole s) (hp : p.surplus = 0)
    (hs : s.progress = .complete) :
    (∀ i ∈ Finset.range p.sourceCount, s.remainingSupply.getD i 0 = 0) ∧
      ∀ j ∈ Finset.range p.destinationCount, s.remainingDemand.getD j 0 = 0 := by
  -- one side is used up, and as much is left of the other
  have hsum := h.sum_remaining
  rw [hp, add_zero] at hsum
  rcases h.exhausted hs with hnil | hnil
  · have hzero := eq_zero_of_filter_eq_nil h.supplyNonneg hw.supply
      (h.rowCount ▸ availableSources_eq_nil.mp hnil)
    rw [Finset.sum_eq_zero hzero] at hsum
    exact ⟨hzero, (Finset.sum_eq_zero_iff_of_nonneg fun j _ => h.demandNonneg j).mp hsum.symm⟩
  · have hzero := eq_zero_of_filter_eq_nil h.demandNonneg hw.demand
      (h.columnCount ▸ availableDestinations_eq_nil.mp hnil)
    rw [Finset.sum_eq_zero hzero] at hsum
    exact ⟨(Finset.sum_eq_zero_iff_of_nonneg fun i _ => h.supplyNonneg i).mp hsum, hzero⟩

theorem Fits.servedBy (h : Fits p s) (hw : Whole s) (hp : p.surplus = 0)
    (hs : s.progress = .complete) : p.ServedBy s.plan := by
  obtain ⟨hsupply, hdemand⟩ := h.remaining_eq_zero hw hp hs
  refine ⟨h.inOrder, h.inside, fun c hc => Scalar.tolerance_pos.trans (h.amounts c hc), hw.amounts,
    fun i hi => ?_, fun j hj => ?_, h.room⟩
  · rw [← h.supply, hsupply i (Finset.mem_range.mpr hi), add_zero]
  · rw [← h.demand, hdemand j (Finset.mem_range.mpr hj), add_zero]

end Complete

section Run

theorem start_eq_ok {s₀ : State ℚ} (h : start p m = .ok s₀) :
    p.fault? = none ∧ s₀ = firstState p.balance m := by
  unfold start at h
  split at h
  · simp at h
  · next hp => exact ⟨hp, (Except.ok.inj h).symm⟩

theorem start_eq_firstState (h : p.fault? = none) : start p m = .ok (firstState p.balance m) := by
  rw [start, h]

theorem step_initial (h : s.method = .initial m) : Solver.step s = .ok (s.allocate m) := by
  simp only [Solver.step, h]

theorem method_allocate (s : State ℚ) (m : InitialMethod) : (s.allocate m).method = s.method := by
  rcases s.allocate_cases m with ⟨-, heq⟩ | ⟨-, k, e, d, heq⟩ | ⟨c, -, k, r, e, d, -, heq⟩
  all_goals rw [heq]
  rfl

/-- What holds of every state that a run of a method for a first plan reaches. -/
theorem fits_of_reaches {s₀ : State ℚ} (hstart : start p m = .ok s₀)
    (hrun : Solver.Reaches s₀ s) : Fits p.balance s ∧ (p.Whole → Whole s) := by
  obtain ⟨hp, rfl⟩ := start_eq_ok hstart
  obtain ⟨hm, -, hnonneg⟩ := TransportProblem.fault?_eq_none hp
  -- the method decides what a step does, so the invariant has to carry it
  suffices h : s.method = .initial m ∧ Fits p.balance s ∧ (p.Whole → Whole s) from h.2
  refine @Solver.Reaches.invariant _ _ _ _
    (fun t => t.method = .initial m ∧ Fits p.balance t ∧ (p.Whole → Whole t)) hrun
    ⟨rfl, ?_, fun hw => Whole.firstState hw.balance m⟩ fun t t' ht hstep => ?_
  · exact fits_firstState (hm.trans_le p.sourceCount_le_balance)
      (TransportProblem.nonneg_balance hnonneg) m
  · obtain ⟨hmethod, hfits, hwhole⟩ := ht
    obtain rfl := Except.ok.inj ((step_initial hmethod).symm.trans hstep)
    exact ⟨(method_allocate t m).trans hmethod, hfits.allocate m,
      fun hw => (hwhole hw).allocate hfits m⟩

end Run

end Optima.Transport
