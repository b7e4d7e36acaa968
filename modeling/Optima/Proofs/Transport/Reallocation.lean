import Mathlib
import Optima.Proofs.Transport.Loops
import Optima.Proofs.Transport.Totals

namespace Optima

theorem Scalar.dropTolerance_pos : (0 : ℚ) < Scalar.dropTolerance := by norm_num [dropTolerance]

theorem Scalar.tolerance_lt_dropTolerance : (Scalar.tolerance : ℚ) < Scalar.dropTolerance := by
  norm_num [tolerance, dropTolerance]

theorem Scalar.dropTolerance_lt_one : (Scalar.dropTolerance : ℚ) < 1 := by
  norm_num [dropTolerance]

theorem sum_ite_of_mem {l : List (Cell × ℚ)} (h : (l.map Prod.fst).Nodup) {a : Cell × ℚ}
    (ha : a ∈ l) : (l.map fun b => if b.1 = a.1 then b.2 else 0).sum = a.2 := by
  induction l with
  | nil => exact absurd ha List.not_mem_nil
  | cons b l ih =>
    obtain ⟨hb, hl⟩ := List.nodup_cons.mp h
    rw [List.map_cons, List.sum_cons]
    rcases List.mem_cons.mp ha with rfl | ha
    · rw [if_pos rfl, List.sum_eq_zero, add_zero]
      intro x hx
      obtain ⟨d, hd, rfl⟩ := List.mem_map.mp hx
      exact if_neg (ne_of_mem_of_not_mem (List.mem_map_of_mem hd) hb)
    · rw [if_neg (ne_of_mem_of_not_mem (List.mem_map_of_mem ha) hb).symm, ih hl ha, zero_add]

namespace Transport

open Improvement

variable {p : TransportProblem ℚ} {plan : Plan ℚ} {first c d : Cell} {cells : List Cell}
  {theta : ℚ} {r : Improvement ℚ}

theorem smallestLosing?_eq_some (h : r.smallestLosing? plan = some (c, theta)) :
    c ∈ losing r.closedLoop ∧ theta = plan.amount c ∧
      ∀ d ∈ losing r.closedLoop, theta ≤ plan.amount d := by
  obtain ⟨d, hd, heq⟩ := List.mem_map.mp (mem_of_firstBest? h)
  obtain ⟨rfl, rfl⟩ := Prod.mk.inj heq
  refine ⟨hd, rfl, fun a ha => ?_⟩
  exact le_of_firstBest? Prod.snd (fun _ _ => decide_eq_true_iff) h
    (x := (a, plan.amount a)) (List.mem_map_of_mem ha)

/-- The amounts before those that are used up are dropped. -/
def shifted (cells : List Cell) (theta : ℚ) (plan : Plan ℚ) : Plan ℚ :=
  (changes theta cells).foldl (fun plan a => plan.shift a.1 a.2) plan

theorem moved_eq (cells : List Cell) (theta : ℚ) (plan : Plan ℚ) :
    moved cells theta plan =
      (shifted cells theta plan).filter fun s => decide (Scalar.dropTolerance < s.amount) := by
  rw [moved, shifted, changes, List.foldl_map]

/-- What a move leaves over of shipments that it uses up; it is dropped. -/
def leftovers (cells : List Cell) (theta : ℚ) (plan : Plan ℚ) : Plan ℚ :=
  (shifted cells theta plan).filter fun s => !decide (Scalar.dropTolerance < s.amount)

/-- The smallest losing amount of a loop, to be moved around it. -/
structure Transfer (plan : Plan ℚ) (first : Cell) (cells : List Cell) (c : Cell) (theta : ℚ) :
    Prop where
  inOrder : plan.InOrder
  nonneg : ∀ d, 0 ≤ plan.amount d
  loop : IsLoop plan first cells
  losing : c ∈ losing cells
  theta_eq : theta = plan.amount c
  theta_le : ∀ d ∈ Improvement.losing cells, theta ≤ plan.amount d

theorem IsLoop.exists_smallestLosing (h : IsLoop plan first r.closedLoop) :
    ∃ c theta, r.smallestLosing? plan = some (c, theta) := by
  cases hsmallest : r.smallestLosing? plan with
  | none =>
    exact absurd (List.map_eq_nil_iff.mp (firstBest?_eq_none_iff.mp hsmallest)) h.losing_ne_nil
  | some a => exact ⟨a.1, a.2, rfl⟩

theorem IsLoop.exists_transfer (h : IsLoop plan first r.closedLoop) (hplan : plan.InOrder)
    (hnonneg : ∀ d, 0 ≤ plan.amount d) : ∃ c theta, r.smallestLosing? plan = some (c, theta) ∧
      Transfer plan first r.closedLoop c theta := by
  obtain ⟨c, theta, hsmallest⟩ := h.exists_smallestLosing
  obtain ⟨hlosing, heq, hle⟩ := smallestLosing?_eq_some hsmallest
  exact ⟨c, theta, hsmallest, hplan, hnonneg, h, hlosing, heq, hle⟩

namespace Transfer

variable (h : Transfer plan first cells c theta)
include h

theorem theta_nonneg : 0 ≤ theta := h.theta_eq ▸ h.nonneg c

theorem mem_cells (hd : d ∈ Improvement.losing cells) : d ∈ plan.cells :=
  Plan.mem_of_isBasic (h.loop.isBasic_of_losing hd)

theorem changed : Plan.Changed (changes theta cells) plan (shifted cells theta plan) := by
  apply Plan.changed_foldl h.inOrder
  intro a ha
  rcases mem_changes ha with heq | ⟨hlosing, -⟩
  · exact .inr (heq ▸ h.theta_nonneg)
  · exact .inl (h.mem_cells hlosing)

theorem nodup_changes : ((changes theta cells).map Prod.fst).Nodup := by
  rw [map_fst_changes]
  exact h.loop.nodup

theorem amount_shifted (d : Cell) : (shifted cells theta plan).amount d = plan.amount d ∨
    (shifted cells theta plan).amount d = plan.amount d + theta ∨
    d ∈ Improvement.losing cells ∧ (shifted cells theta plan).amount d = plan.amount d - theta := by
  rw [h.changed.amount h.inOrder]
  by_cases hd : d ∈ cells
  -- no cell is on the loop twice
  · rw [← map_fst_changes theta cells] at hd
    obtain ⟨a, ha, rfl⟩ := List.mem_map.mp hd
    rw [sum_ite_of_mem h.nodup_changes ha]
    rcases mem_changes ha with heq | ⟨hlosing, heq⟩
    · exact .inr (.inl (by rw [heq]))
    · exact .inr (.inr ⟨hlosing, by rw [heq, sub_eq_add_neg]⟩)
  · refine .inl ?_
    rw [List.sum_eq_zero, add_zero]
    intro x hx
    obtain ⟨a, ha, rfl⟩ := List.mem_map.mp hx
    refine if_neg fun heq => hd ?_
    rw [← heq, ← map_fst_changes theta cells]
    exact List.mem_map_of_mem ha

/-- The cell that sets the amount to be moved is used up. -/
theorem amount_exiting : (shifted cells theta plan).amount c = 0 := by
  rw [h.changed.amount h.inOrder, sum_ite_of_mem h.nodup_changes
    (a := (c, -theta)) (mem_changes_of_losing h.losing theta), h.theta_eq, add_neg_cancel]

theorem amount_shifted_nonneg (d : Cell) : 0 ≤ (shifted cells theta plan).amount d := by
  have hd := h.nonneg d
  rcases h.amount_shifted d with heq | heq | ⟨hlosing, heq⟩
  · rw [heq]
    exact hd
  · rw [heq]
    exact add_nonneg hd h.theta_nonneg
  · rw [heq]
    exact sub_nonneg.mpr (h.theta_le d hlosing)

theorem inOrder_moved : (moved cells theta plan).InOrder := by
  rw [moved_eq]
  exact h.changed.inOrder.sublist List.filter_sublist

/-- What is kept and what is dropped weigh what the plan did, with what the loop adds. -/
theorem weigh_moved_add (g : Cell → ℚ) :
    (moved cells theta plan).weigh g + (leftovers cells theta plan).weigh g =
      plan.weigh g + ((changes theta cells).map fun a => g a.1 * a.2).sum := by
  rw [moved_eq, leftovers, Plan.weigh_filter_add, h.changed.weigh]

/-- The shipments that are left have the amounts that the move gave them. -/
theorem amount_of_mem_moved (hd : d ∈ (moved cells theta plan).cells) :
    (moved cells theta plan).amount d = (shifted cells theta plan).amount d ∧
      Scalar.dropTolerance < (moved cells theta plan).amount d ∧
      d ∈ (shifted cells theta plan).cells := by
  obtain ⟨s, hs, rfl⟩ := List.mem_map.mp hd
  rw [h.inOrder_moved.amount_of_mem hs]
  rw [moved_eq, List.mem_filter] at hs
  exact ⟨(h.changed.inOrder.amount_of_mem hs.1).symm, of_decide_eq_true hs.2, Plan.mem_cells hs.1⟩

theorem mem_cells_of_shifted (hd : d ∈ (shifted cells theta plan).cells) :
    d = first ∨ d ∈ plan.cells := by
  rcases h.changed.mem_cells d hd with hd | hd
  · exact .inr hd
  · rw [map_fst_changes] at hd
    exact (h.loop.isBasic_of_mem hd).imp_right Plan.mem_of_isBasic

theorem ne_of_mem_moved (hd : d ∈ (moved cells theta plan).cells) : d ≠ c := by
  obtain ⟨heq, hlt, -⟩ := h.amount_of_mem_moved hd
  rintro rfl
  rw [heq, h.amount_exiting] at hlt
  exact hlt.not_gt Scalar.dropTolerance_pos

theorem moved_subset : (moved cells theta plan).cells ⊆ (first :: plan.cells).erase c := by
  intro d hd
  have hmem := h.mem_cells_of_shifted (h.amount_of_mem_moved hd).2.2
  exact (List.mem_erase_of_ne (h.ne_of_mem_moved hd)).mpr (List.mem_cons.mpr hmem)

theorem length_erase : ((first :: plan.cells).erase c).length = plan.length := by
  rw [List.length_erase_of_mem (List.mem_cons_of_mem _ (h.mem_cells h.losing))]
  simp [Plan.cells]

/-- The shipment that is used up makes room for the new one. -/
theorem length_moved_le : (moved cells theta plan).length ≤ plan.length := by
  have hlength := (List.subperm_of_subset h.inOrder_moved.nodup h.moved_subset).length_le
  rw [h.length_erase] at hlength
  simpa [Plan.cells] using hlength

end Transfer

/-- What a whole amount is moved around. -/
structure Movable (p : TransportProblem ℚ) (plan : Plan ℚ) (first : Cell) (cells : List Cell)
    (c : Cell) (theta : ℚ) : Prop where
  served : p.ServedBy plan
  loop : IsLoop plan first cells
  inside : first.row < p.sourceCount ∧ first.column < p.destinationCount
  losing : c ∈ losing cells
  theta_eq : theta = plan.amount c
  theta_le : ∀ d ∈ Improvement.losing cells, theta ≤ plan.amount d

namespace Movable

variable (h : Movable p plan first cells c theta)
include h

theorem transfer : Transfer plan first cells c theta :=
  ⟨h.served.inOrder, h.served.amount_nonneg, h.loop, h.losing, h.theta_eq, h.theta_le⟩

theorem one_le_theta : 1 ≤ theta :=
  h.theta_eq ▸ h.served.one_le_amount (h.transfer.mem_cells h.losing)

theorem amount_shifted_whole (d : Cell) : (shifted cells theta plan).amount d ∈ integers := by
  have htheta : theta ∈ integers := h.theta_eq ▸ h.served.whole c
  rcases h.transfer.amount_shifted d with heq | heq | ⟨-, heq⟩
  · rw [heq]
    exact h.served.whole d
  · rw [heq]
    exact integers.add_mem (h.served.whole d) htheta
  · rw [heq]
    exact integers.sub_mem (h.served.whole d) htheta

theorem weigh_leftovers (g : Cell → ℚ) : (leftovers cells theta plan).weigh g = 0 := by
  refine Plan.weigh_eq_zero fun s hs => ?_
  obtain ⟨hs, hle⟩ := List.mem_filter.mp hs
  rw [Bool.not_eq_true', decide_eq_false_iff_not, not_lt] at hle
  rw [← h.transfer.changed.inOrder.amount_of_mem hs] at hle ⊢
  exact le_antisymm (nonpos_of_lt_one (h.amount_shifted_whole _)
    (hle.trans_lt Scalar.dropTolerance_lt_one)) (h.transfer.amount_shifted_nonneg _)

theorem weigh_moved (g : Cell → ℚ) : (moved cells theta plan).weigh g =
    plan.weigh g + ((changes theta cells).map fun a => g a.1 * a.2).sum := by
  rw [← h.transfer.weigh_moved_add, h.weigh_leftovers, add_zero]

theorem sent_moved (i : ℕ) : (moved cells theta plan).sent i = plan.sent i := by
  rw [Plan.sent_eq, Plan.sent_eq, h.weigh_moved,
    h.loop.sum_row (fun k => if k = i then 1 else 0), add_zero]

theorem received_moved (j : ℕ) : (moved cells theta plan).received j = plan.received j := by
  rw [Plan.received_eq, Plan.received_eq, h.weigh_moved,
    h.loop.sum_column (fun k => if k = j then 1 else 0), add_zero]

/-- The moved plan ships what the plan before did. -/
theorem servedBy_moved : p.ServedBy (moved cells theta plan) := by
  have htransfer := h.transfer
  refine ⟨htransfer.inOrder_moved, fun d hd => ?_, fun d hd => ?_, fun d => ?_, fun i hi => ?_,
    fun j hj => ?_, htransfer.length_moved_le.trans_lt h.served.room⟩
  · rcases htransfer.mem_cells_of_shifted (htransfer.amount_of_mem_moved hd).2.2 with rfl | hd
    · exact h.inside
    · exact h.served.inside d hd
  · exact Scalar.dropTolerance_pos.trans (htransfer.amount_of_mem_moved hd).2.1
  · by_cases hd : d ∈ (moved cells theta plan).cells
    · rw [(htransfer.amount_of_mem_moved hd).1]
      exact h.amount_shifted_whole d
    · rw [Plan.amount_eq_zero hd]
      exact integers.zero_mem
  · rw [← h.served.sent i hi, h.sent_moved]
  · rw [← h.served.received j hj, h.received_moved]

end Movable

end Transport

end Optima
