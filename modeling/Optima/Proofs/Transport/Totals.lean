import Mathlib
import Optima.Proofs.Transport.Balance
import Optima.Proofs.Transport.Plans

namespace Optima

namespace TransportProblem

variable {p : TransportProblem ℚ} {x : Cell → ℚ} {u v : ℕ → ℚ} {k : ℚ}

/-- The amounts ship all that the sources have, and as much as the destinations want. -/
structure Feasible (p : TransportProblem ℚ) (x : Cell → ℚ) : Prop where
  nonneg : ∀ i < p.sourceCount, ∀ j < p.destinationCount, 0 ≤ x ⟨i, j⟩
  rows : ∀ i < p.sourceCount, ∑ j ∈ Finset.range p.destinationCount, x ⟨i, j⟩ = p.supply.getD i 0
  columns : ∀ j < p.destinationCount,
    ∑ i ∈ Finset.range p.sourceCount, x ⟨i, j⟩ = p.demand.getD j 0

def costOf (p : TransportProblem ℚ) (x : Cell → ℚ) : ℚ :=
  ∑ i ∈ Finset.range p.sourceCount, ∑ j ∈ Finset.range p.destinationCount,
    p.unitCost ⟨i, j⟩ * x ⟨i, j⟩

def worth (p : TransportProblem ℚ) (u v : ℕ → ℚ) : ℚ :=
  ∑ i ∈ Finset.range p.sourceCount, u i * p.supply.getD i 0 +
    ∑ j ∈ Finset.range p.destinationCount, v j * p.demand.getD j 0

/-- Dual values that exceed no unit cost by more than `k` bound the cost of every plan. -/
theorem Feasible.worth_sub_le (h : p.Feasible x)
    (hk : ∀ i < p.sourceCount, ∀ j < p.destinationCount, u i + v j - k ≤ p.unitCost ⟨i, j⟩) :
    p.worth u v - k * p.totalSupply ≤ p.costOf x := by
  have hrows : ∑ i ∈ Finset.range p.sourceCount, ∑ j ∈ Finset.range p.destinationCount,
      u i * x ⟨i, j⟩ = ∑ i ∈ Finset.range p.sourceCount, u i * p.supply.getD i 0 :=
    Finset.sum_congr rfl fun i hi => by
      rw [← Finset.mul_sum, h.rows i (Finset.mem_range.mp hi)]
  have hcolumns : ∑ i ∈ Finset.range p.sourceCount, ∑ j ∈ Finset.range p.destinationCount,
      v j * x ⟨i, j⟩ = ∑ j ∈ Finset.range p.destinationCount, v j * p.demand.getD j 0 := by
    rw [Finset.sum_comm]
    exact Finset.sum_congr rfl fun j hj => by
      rw [← Finset.mul_sum, h.columns j (Finset.mem_range.mp hj)]
  have htotal : ∑ i ∈ Finset.range p.sourceCount, ∑ j ∈ Finset.range p.destinationCount,
      k * x ⟨i, j⟩ = k * p.totalSupply := by
    rw [totalSupply_eq, Finset.mul_sum]
    exact Finset.sum_congr rfl fun i hi => by
      rw [← Finset.mul_sum, h.rows i (Finset.mem_range.mp hi)]
  -- with exact totals the values of the lines are those of the cells
  calc p.worth u v - k * p.totalSupply
      = ∑ i ∈ Finset.range p.sourceCount, ∑ j ∈ Finset.range p.destinationCount,
          (u i + v j - k) * x ⟨i, j⟩ := by
        simp only [sub_mul, add_mul, Finset.sum_sub_distrib, Finset.sum_add_distrib]
        rw [worth, hrows, hcolumns, htotal]
    _ ≤ p.costOf x := by
        refine Finset.sum_le_sum fun i hi => Finset.sum_le_sum fun j hj => ?_
        rw [Finset.mem_range] at hi hj
        exact mul_le_mul_of_nonneg_right (hk i hi j hj) (h.nonneg i hi j hj)

/-- A plan of whole shipments, fewer than there are rows and columns, that ships exactly what a
problem says. -/
structure ServedBy (p : TransportProblem ℚ) (plan : Plan ℚ) : Prop where
  inOrder : plan.InOrder
  inside : ∀ c ∈ plan.cells, c.row < p.sourceCount ∧ c.column < p.destinationCount
  positive : ∀ c ∈ plan.cells, 0 < plan.amount c
  whole : ∀ c, plan.amount c ∈ integers
  sent : ∀ i < p.sourceCount, plan.sent i = p.supply.getD i 0
  received : ∀ j < p.destinationCount, plan.received j = p.demand.getD j 0
  room : plan.length < p.sourceCount + p.destinationCount

namespace ServedBy

variable {plan : Plan ℚ} {c : Cell}

theorem one_le_amount (h : p.ServedBy plan) (hc : c ∈ plan.cells) : 1 ≤ plan.amount c := by
  by_contra hlt
  exact (h.positive c hc).not_ge (nonpos_of_lt_one (h.whole c) (not_le.mp hlt))

theorem exists_whole (h : p.ServedBy plan) {a : Shipment ℚ} (ha : a ∈ plan) :
    ∃ n : ℕ, 0 < n ∧ a.amount = n := by
  have hone := h.one_le_amount (Plan.mem_cells ha)
  obtain ⟨n, hn⟩ := h.whole a.cell
  have hn : (n : ℚ) = a.amount := hn.trans (h.inOrder.amount_of_mem ha)
  rw [h.inOrder.amount_of_mem ha, ← hn, ← Int.cast_one, Int.cast_le] at hone
  refine ⟨n.toNat, by omega, ?_⟩
  rw [← hn, ← Int.cast_natCast, Int.toNat_of_nonneg (by omega)]

theorem amount_nonneg (h : p.ServedBy plan) (c : Cell) : 0 ≤ plan.amount c :=
  Plan.amount_nonneg (fun d hd => (h.positive d hd).le) c

theorem isBasic (h : p.ServedBy plan) (hc : c ∈ plan.cells) : plan.isBasic c = true :=
  decide_eq_true (Scalar.tolerance_lt_one.trans_le (h.one_le_amount hc))

theorem basicCells_eq (h : p.ServedBy plan) : plan.basicCells = plan.cells :=
  h.inOrder.basicCells_eq fun _ hc => h.isBasic hc

theorem length_basicCells (h : p.ServedBy plan) : plan.basicCells.length = plan.length := by
  rw [h.basicCells_eq, Plan.cells, List.length_map]

theorem sum_amount (h : p.ServedBy plan) (g : Cell → ℚ) :
    ∑ i ∈ Finset.range p.sourceCount, ∑ j ∈ Finset.range p.destinationCount,
      g ⟨i, j⟩ * plan.amount ⟨i, j⟩ = plan.weigh g := by
  simp only [h.inOrder.amount_eq]
  -- the parts of the plan ship less than the problem says: only where they ship is needed
  have hinside := h.inside
  clear h
  induction plan with
  | nil => simp
  | cons s plan ih =>
    obtain ⟨hi, hj⟩ := hinside s.cell (Plan.mem_cells List.mem_cons_self)
    have hcell (i j : ℕ) : (if s.cell = ⟨i, j⟩ then (1 : ℚ) else 0) =
        if s.cell.row = i then if s.cell.column = j then 1 else 0 else 0 := by
      cases s.cell
      simp only [Cell.mk.injEq, ite_and]
    simp only [Plan.weigh_cons, mul_add, Finset.sum_add_distrib, hcell]
    rw [ih fun c hc => hinside c (List.mem_cons_of_mem _ hc)]
    simp [hi, hj]

theorem feasible (h : p.ServedBy plan) : p.Feasible plan.amount := by
  refine ⟨fun i _ j _ => h.amount_nonneg _, fun i hi => ?_, fun j hj => ?_⟩
  · rw [← h.sent i hi, Plan.sent_eq, ← h.sum_amount]
    simp [hi]
  · rw [← h.received j hj, Plan.received_eq, ← h.sum_amount]
    simp [hj]

theorem costOf_amount (h : p.ServedBy plan) : p.costOf plan.amount = plan.weigh p.unitCost :=
  h.sum_amount p.unitCost

/-- A plan through cells that dual values are exact for costs what its amounts are worth. -/
theorem cost_eq (h : p.ServedBy plan)
    (hexact : ∀ c ∈ plan.cells, p.unitCost c = u c.row + v c.column) :
    plan.weigh p.unitCost = p.worth u v := by
  rw [Plan.weigh_congr hexact, Plan.weigh_add, worth,
    Plan.weigh_line Cell.row u fun c hc => (h.inside c hc).1,
    Plan.weigh_line Cell.column v fun c hc => (h.inside c hc).2]
  simp only [← Plan.sent_eq, ← Plan.received_eq]
  congr 1
  · exact Finset.sum_congr rfl fun i hi => by rw [h.sent i (Finset.mem_range.mp hi)]
  · exact Finset.sum_congr rfl fun j hj => by rw [h.received j (Finset.mem_range.mp hj)]

end ServedBy

/-- No plan that ships what a problem says costs less than some bound. -/
theorem exists_cost_bound (p : TransportProblem ℚ) :
    ∃ low, ∀ plan, p.ServedBy plan → low ≤ plan.weigh p.unitCost := by
  obtain ⟨b, hb⟩ := ((Finset.range p.sourceCount ×ˢ Finset.range p.destinationCount).image
    fun a => p.unitCost ⟨a.1, a.2⟩).bddBelow
  refine ⟨p.worth (fun _ => b) 0, fun plan h => ?_⟩
  have hle := h.feasible.worth_sub_le (u := fun _ => b) (v := 0) (k := 0) fun i hi j hj => by
    have hmem : (i, j) ∈ Finset.range p.sourceCount ×ˢ Finset.range p.destinationCount :=
      Finset.mem_product.mpr ⟨Finset.mem_range.mpr hi, Finset.mem_range.mpr hj⟩
    simpa using hb (Finset.mem_coe.mpr (Finset.mem_image_of_mem _ hmem))
  rwa [zero_mul, sub_zero, h.costOf_amount] at hle

end TransportProblem

end Optima
