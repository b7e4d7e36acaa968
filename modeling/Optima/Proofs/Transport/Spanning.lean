import Mathlib
import Optima.Proofs.Transport.Depletion
import Optima.Proofs.Transport.Reallocation

namespace Optima

/-- Values that are the same across every cell are the same at all lines. -/
def TransportProblem.Spans (p : TransportProblem ℚ) (cells : List Cell) : Prop :=
  ∀ f, Agree f cells → ∃ x, ∀ l ∈ p.lines, f l = x

/-- What holds of one line, and of both lines of a cell or of neither, holds of every line. -/
theorem TransportProblem.Spans.forall_lines {p : TransportProblem ℚ} {cells : List Cell}
    (h : p.Spans cells) {P : ℕ ⊕ ℕ → Prop}
    (hcells : ∀ c ∈ cells, P (.inl c.row) ↔ P (.inr c.column)) {l : ℕ ⊕ ℕ} (hl : l ∈ p.lines)
    (hP : P l) : ∀ l' ∈ p.lines, P l' := by
  classical
  obtain ⟨x, hx⟩ := h (fun l => if P l then 1 else 0) fun c hc => by simp only [hcells c hc]
  intro l' hl'
  have heq := (hx l' hl').trans (hx l hl).symm
  rw [if_pos hP] at heq
  by_contra hnot
  rw [if_neg hnot] at heq
  exact zero_ne_one heq

namespace Transport

variable {p : TransportProblem ℚ} {s : State ℚ} {plan : Plan ℚ} {first c : Cell}
  {cells : List Cell} {theta : ℚ} {k : ℕ} {roots : Finset (ℕ ⊕ ℕ)}

/-- With a shipment for every line but one, all lines are tied to a single one. -/
theorem Rooted.spans (h : Rooted p s k roots)
    (hlength : s.plan.length + 1 = p.sourceCount + p.destinationCount) :
    p.Spans s.plan.cells := by
  obtain ⟨root, rfl⟩ := h.eq_singleton (hlength ▸ Nat.succ_le_succ h.length)
  intro f hf
  refine ⟨f root, fun l hl => sub_eq_zero.mp ?_⟩
  refine h.ties (fun l => f l - f root) (fun c hc => ?_) (fun l hl => ?_) l hl
  · exact congrArg (· - f root) (hf c hc)
  · exact sub_eq_zero.mpr (congrArg f (Finset.mem_singleton.mp hl))

/-- The shipments tie all lines together, with none to spare. -/
structure Tree (p : TransportProblem ℚ) (plan : Plan ℚ) : Prop where
  count : plan.length + 1 = p.sourceCount + p.destinationCount
  spans : p.Spans plan.cells

/-- Around a loop, weights that are sums of those of the lines at all cells but one weigh the change
at that cell alone. -/
theorem IsLoop.sum_changes (h : IsLoop plan first cells) {a : Cell × ℚ}
    (ha : a ∈ changes theta cells) {w : Cell → ℚ} {u v : ℕ → ℚ}
    (hw : ∀ d ∈ cells, d ≠ a.1 → w d = u d.row + v d.column) :
    ((changes theta cells).map fun b => w b.1 * b.2).sum =
      (w a.1 - (u a.1.row + v a.1.column)) * a.2 := by
  have hterm : ∀ b ∈ changes theta cells, w b.1 * b.2 = u b.1.row * b.2 + v b.1.column * b.2 +
      (w a.1 - (u a.1.row + v a.1.column)) * if b.1 = a.1 then b.2 else 0 := by
    intro b hb
    split_ifs with hba
    · rw [hba]
      ring
    · have hmem : b.1 ∈ cells := map_fst_changes theta cells ▸ List.mem_map_of_mem hb
      rw [hw b.1 hmem hba]
      ring
  have hnodup : ((changes theta cells).map Prod.fst).Nodup := by
    rw [map_fst_changes]
    exact h.nodup
  rw [List.map_congr_left hterm, List.sum_map_add, List.sum_map_add, List.sum_map_mul_left,
    h.sum_row, h.sum_column, sum_ite_of_mem hnodup ha]
  ring

/-- Values that agree across all cells of a loop but one that loses agree across that one too. -/
theorem IsLoop.agree (h : IsLoop plan first cells) (hc : c ∈ Improvement.losing cells)
    {f : ℕ ⊕ ℕ → ℚ} (hf : ∀ d ∈ cells, d ≠ c → f (.inl d.row) = f (.inr d.column)) :
    f (.inl c.row) = f (.inr c.column) := by
  have hsum := h.sum_changes (mem_changes_of_losing hc 1) (w := fun _ => 0)
    (u := fun i => f (.inl i)) (v := fun j => -f (.inr j)) fun d hd hne => by
      rw [hf d hd hne, add_neg_cancel]
  simp only [zero_mul, List.map_const', List.sum_replicate, smul_zero] at hsum
  linarith

namespace Movable

variable (h : Movable p plan first cells c theta)
include h

/-- With dual values that are exact for all shipments a move costs, for every unit, what the new
cell costs beyond its own dual values. -/
theorem cost_moved {w : Cell → ℚ} {u v : ℕ → ℚ}
    (hexact : ∀ d ∈ plan.cells, w d = u d.row + v d.column) :
    (Improvement.moved cells theta plan).weigh w =
      plan.weigh w + (w first - (u first.row + v first.column)) * theta := by
  have hloop := h.loop
  have hothers : ∀ d ∈ cells, d ≠ first → w d = u d.row + v d.column := fun d hd hne =>
    hexact d (Plan.mem_of_isBasic ((hloop.isBasic_of_mem hd).resolve_left hne))
  rw [h.weigh_moved, hloop.sum_changes (hloop.mem_changes_first theta) hothers]

/-- If one shipment alone is used up, all others and the new one are left. -/
theorem mem_cells_moved (hlength : (Improvement.moved cells theta plan).length = plan.length)
    {d : Cell} (hd : d = first ∨ d ∈ plan.cells) (hdc : d ≠ c) :
    d ∈ (Improvement.moved cells theta plan).cells := by
  have htransfer := h.transfer
  have hle : ((first :: plan.cells).erase c).length ≤
      (Improvement.moved cells theta plan).cells.length := by
    rw [htransfer.length_erase, Plan.cells, List.length_map, hlength]
  have hperm := (List.subperm_of_subset htransfer.inOrder_moved.nodup
    htransfer.moved_subset).perm_of_length_le hle
  exact hperm.mem_iff.mpr ((List.mem_erase_of_ne hdc).mpr (List.mem_cons.mpr hd))

/-- The shipments still tie all lines together, unless several were used up at once. -/
theorem spans_moved (hspans : p.Spans plan.cells)
    (hlength : (Improvement.moved cells theta plan).length = plan.length) :
    p.Spans (Improvement.moved cells theta plan).cells := by
  refine fun f hf => hspans f fun d hd => ?_
  have hothers {d : Cell} (hd : d = first ∨ d ∈ plan.cells) (hdc : d ≠ c) :
      f (.inl d.row) = f (.inr d.column) := hf d (h.mem_cells_moved hlength hd hdc)
  by_cases hdc : d = c
  -- values that agree across the rest of the loop agree where it was cut
  · subst hdc
    exact h.loop.agree h.losing fun a ha hne =>
      hothers ((h.loop.isBasic_of_mem ha).imp_right Plan.mem_of_isBasic) hne
  · exact hothers (.inr hd) hdc

end Movable

end Transport

end Optima
