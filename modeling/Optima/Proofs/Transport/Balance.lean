import Mathlib
import Optima.Cell
import Optima.Proofs.Lists
import Optima.Proofs.Scalar
import Optima.Transport.Problem

namespace Optima.TransportProblem

variable {p : TransportProblem ℚ}

def unitCost (p : TransportProblem ℚ) (c : Cell) : ℚ := (p.costs.getD c.row []).getD c.column 0

/-- All supplies and demands are whole numbers. -/
def Whole (p : TransportProblem ℚ) : Prop := ∀ x ∈ p.supply ++ p.demand, x ∈ integers

theorem totalSupply_eq (p : TransportProblem ℚ) :
    p.totalSupply = ∑ i ∈ Finset.range p.sourceCount, p.supply.getD i 0 := by
  rw [totalSupply, Scalar.sum_eq, sum_eq_range]
  rfl

theorem totalDemand_eq (p : TransportProblem ℚ) :
    p.totalDemand = ∑ j ∈ Finset.range p.destinationCount, p.demand.getD j 0 := by
  rw [totalDemand, Scalar.sum_eq, sum_eq_range]
  rfl

structure Valid (p : TransportProblem ℚ) : Prop where
  sources : p.supply ≠ []
  destinations : p.demand ≠ []
  rowCount : p.costs.length = p.sourceCount
  rowLength : ∀ row ∈ p.costs, row.length = p.destinationCount
  supplyLabels : labelsFit p.supplyLabels p.sourceCount = true
  demandLabels : labelsFit p.demandLabels p.destinationCount = true
  nonneg : ∀ a ∈ p.supply ++ p.demand, 0 ≤ a

theorem fault?_eq_none_iff : p.fault? = none ↔ p.Valid := by
  have hrows : (p.costs.zipIdx.find? fun (row, _) => row.length != p.destinationCount) = none ↔
      ∀ row ∈ p.costs, row.length = p.destinationCount :=
    (find?_zipIdx_eq_none fun row : List ℚ => row.length != p.destinationCount).trans (by simp)
  have hamounts : ((p.supply ++ p.demand).any fun a => !Scalar.isFinite a || decide (a < 0)) =
      false ↔ ∀ a ∈ p.supply ++ p.demand, 0 ≤ a := by
    rw [List.any_eq_false]
    simp [Scalar.isFinite_rat]
  have hcosts : (p.costs.flatten.any fun c => !Scalar.isFinite c) = false :=
    List.any_eq_false.mpr fun c _ => by simp [Scalar.isFinite_rat]
  rw [fault?]
  dsimp only
  cases hfind : p.costs.zipIdx.find? fun (row, _) => row.length != p.destinationCount with
  | some found =>
    refine iff_of_false (fun h => ?_) fun h => ?_
    · split_ifs at h
    · exact nomatch (hrows.mpr h.rowLength).symm.trans hfind
  | none =>
    rw [hcosts]
    constructor
    · intro h
      split_ifs at h with hempty hcount hsupply hdemand hbad
      rw [Bool.or_eq_true, not_or, List.isEmpty_iff, List.isEmpty_iff] at hempty
      exact ⟨hempty.1, hempty.2, not_not.mp hcount, hrows.mp hfind, by simpa using hsupply,
        by simpa using hdemand, hamounts.mp (Bool.not_eq_true _ ▸ hbad)⟩
    · intro h
      simp [h.sources, h.destinations, h.rowCount, h.supplyLabels, h.demandLabels,
        hamounts.mpr h.nonneg]

theorem fault?_eq_none (h : p.fault? = none) :
    0 < p.sourceCount ∧ 0 < p.destinationCount ∧ ∀ x ∈ p.supply ++ p.demand, 0 ≤ x :=
  have h := fault?_eq_none_iff.mp h
  ⟨List.length_pos_iff.mpr h.sources, List.length_pos_iff.mpr h.destinations, h.nonneg⟩

section Balance

theorem balance_cases (p : TransportProblem ℚ) :
    Scalar.tolerance < p.surplus ∧ p.balance = p.labelled.withDummyDestination p.surplus ∨
    p.surplus < -Scalar.tolerance ∧ p.balance = p.labelled.withDummySource (-p.surplus) ∨
    |p.surplus| ≤ Scalar.tolerance ∧ p.balance = p.labelled := by
  unfold balance
  split_ifs with hpos hneg
  · exact .inl ⟨hpos, rfl⟩
  · exact .inr (.inl ⟨hneg, rfl⟩)
  · exact .inr (.inr ⟨abs_le.mpr ⟨not_lt.mp hneg, not_lt.mp hpos⟩, rfl⟩)

theorem totalDemand_withDummyDestination (p : TransportProblem ℚ) (amount : ℚ) :
    (p.withDummyDestination amount).totalDemand = p.totalDemand + amount := by
  simp [totalDemand, withDummyDestination, Scalar.sum_eq]

theorem totalSupply_withDummySource (p : TransportProblem ℚ) (amount : ℚ) :
    (p.withDummySource amount).totalSupply = p.totalSupply + amount := by
  simp [totalSupply, withDummySource, Scalar.sum_eq]

/-- What balancing leaves of the surplus. -/
theorem surplus_balance (p : TransportProblem ℚ) :
    p.balance.surplus = if |p.surplus| ≤ Scalar.tolerance then p.surplus else 0 := by
  have hlabelled : p.labelled.surplus = p.surplus := rfl
  -- within the tolerance nothing is added
  by_cases habs : |p.surplus| ≤ Scalar.tolerance
  · obtain ⟨hneg, hpos⟩ := abs_le.mp habs
    rw [balance, if_neg (not_lt.mpr hpos), if_neg (not_lt.mpr hneg), if_pos habs, hlabelled]
  · rw [if_neg habs]
    unfold balance
    split_ifs with hpos hneg
    · change p.labelled.totalSupply - (p.labelled.withDummyDestination p.surplus).totalDemand = 0
      rw [totalDemand_withDummyDestination, ← sub_sub]
      exact sub_eq_zero.mpr hlabelled
    · change (p.labelled.withDummySource (-p.surplus)).totalSupply - p.labelled.totalDemand = 0
      rw [totalSupply_withDummySource, add_sub_right_comm]
      exact add_neg_eq_zero.mpr hlabelled
    · exact absurd (abs_le.mpr ⟨not_lt.mp hneg, not_lt.mp hpos⟩) habs

theorem abs_surplus_balance_le (p : TransportProblem ℚ) :
    |p.balance.surplus| ≤ Scalar.tolerance := by
  rw [surplus_balance]
  split_ifs with habs
  · exact habs
  · rw [abs_zero]
    exact Scalar.tolerance_pos.le

theorem mem_balance {x : ℚ} (h : x ∈ p.balance.supply ++ p.balance.demand) :
    x ∈ p.supply ++ p.demand ∨ x = |p.surplus| := by
  unfold balance at h
  split_ifs at h with hpos hneg
  · rw [abs_of_pos (Scalar.tolerance_pos.trans hpos)]
    simpa [withDummyDestination, labelled, or_assoc] using h
  · rw [abs_of_neg (hneg.trans (neg_lt_zero.mpr Scalar.tolerance_pos))]
    have h : x ∈ p.supply ∨ x = -p.surplus ∨ x ∈ p.demand := by
      simpa [withDummySource, labelled] using h
    rw [List.mem_append]
    tauto
  · exact .inl h

theorem sourceCount_le_balance (p : TransportProblem ℚ) :
    p.sourceCount ≤ p.balance.sourceCount := by
  unfold balance
  split_ifs
  · exact le_rfl
  · exact (List.sublist_append_left p.supply _).length_le
  · exact le_rfl

theorem destinationCount_le_balance (p : TransportProblem ℚ) :
    p.destinationCount ≤ p.balance.destinationCount := by
  unfold balance
  split_ifs
  · exact (List.sublist_append_left p.demand _).length_le
  · exact le_rfl
  · exact le_rfl

theorem nonneg_balance (h : ∀ x ∈ p.supply ++ p.demand, 0 ≤ x) :
    ∀ x ∈ p.balance.supply ++ p.balance.demand, 0 ≤ x := by
  intro x hx
  rcases mem_balance hx with hx | rfl
  · exact h x hx
  · exact abs_nonneg _

theorem Whole.surplus (h : p.Whole) : p.surplus ∈ integers := by
  rw [TransportProblem.surplus, totalSupply, totalDemand, Scalar.sum_eq, Scalar.sum_eq]
  exact integers.sub_mem (integers.list_sum_mem fun x hx => h x (List.mem_append_left _ hx))
    (integers.list_sum_mem fun x hx => h x (List.mem_append_right _ hx))

theorem Whole.balance (h : p.Whole) : p.balance.Whole := by
  intro x hx
  rcases mem_balance hx with hx | hx
  · exact h x hx
  · rcases abs_choice p.surplus with habs | habs
    · rw [hx, habs]
      exact h.surplus
    · rw [hx, habs]
      exact integers.neg_mem h.surplus

theorem Whole.surplus_balance (h : p.Whole) : p.balance.surplus = 0 := by
  rw [TransportProblem.surplus_balance]
  split_ifs with habs
  · exact eq_zero_of_abs_lt_one h.surplus (habs.trans_lt Scalar.tolerance_lt_one)
  · rfl

theorem unitCost_withDummyDestination (p : TransportProblem ℚ) (amount : ℚ) :
    (p.withDummyDestination amount).unitCost = p.unitCost := by
  funext c
  change ((p.costs.map (· ++ [0])).getD c.row []).getD c.column 0 =
    (p.costs.getD c.row []).getD c.column 0
  have hlength : (p.costs.map (· ++ [(0 : ℚ)])).length = p.costs.length := List.length_map _
  rcases lt_or_ge c.row p.costs.length with hi | hi
  · rw [List.getD_eq_getElem (p.costs.map _) _ (hlength.symm ▸ hi), List.getElem_map,
      List.getD_eq_getElem p.costs _ hi]
    rcases lt_or_ge c.column p.costs[c.row].length with hj | hj
    · rw [List.getD_append _ _ _ _ hj]
    · rw [List.getD_append_right _ _ _ _ hj, List.getD_eq_default _ _ hj]
      exact getD_of_forall_mem (P := (· = 0)) (fun x hx => List.mem_singleton.mp hx) rfl _
  · rw [List.getD_eq_default (p.costs.map _) _ (hlength.symm ▸ hi),
      List.getD_eq_default p.costs _ hi]

theorem unitCost_withDummySource (p : TransportProblem ℚ) (amount : ℚ) :
    (p.withDummySource amount).unitCost = p.unitCost := by
  funext c
  change ((p.costs ++ [List.replicate p.destinationCount 0]).getD c.row []).getD c.column 0 =
    (p.costs.getD c.row []).getD c.column 0
  rcases lt_or_ge c.row p.costs.length with hi | hi
  · rw [List.getD_append _ _ _ _ hi]
  · have hzero : ∀ r ∈ [List.replicate p.destinationCount (0 : ℚ)], r.getD c.column 0 = 0 := by
      intro r hr
      rw [List.mem_singleton.mp hr]
      exact getD_of_forall_mem (P := (· = 0)) (fun x hx => List.eq_of_mem_replicate hx) rfl _
    rw [List.getD_append_right _ _ _ _ hi, List.getD_eq_default p.costs _ hi]
    exact getD_of_forall_mem hzero rfl _

theorem unitCost_balance (p : TransportProblem ℚ) : p.balance.unitCost = p.unitCost := by
  rcases p.balance_cases with ⟨-, heq⟩ | ⟨-, heq⟩ | ⟨-, heq⟩
  · rw [heq, unitCost_withDummyDestination]
    rfl
  · rw [heq, unitCost_withDummySource]
    rfl
  · rw [heq]
    rfl

theorem unitCost_mem_integers (h : ∀ row ∈ p.costs, ∀ x ∈ row, x ∈ integers) (c : Cell) :
    p.balance.unitCost c ∈ integers := by
  rw [unitCost_balance]
  exact entry_of_forall_mem h integers.zero_mem c.row c.column

end Balance

end Optima.TransportProblem
