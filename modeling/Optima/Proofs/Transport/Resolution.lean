import Mathlib
import Optima.Proofs.Transport.Duals
import Optima.Proofs.Transport.Spanning

namespace Optima.Transport

namespace Duals

variable {F : Type} {d : Duals F} {cells : List Cell} {c : Cell} {m n k : ℕ}

/-- Values for so many lines, the first row among those that are known. -/
structure Shaped (m n : ℕ) (d : Duals F) : Prop where
  rows : d.rows.length = m
  columns : d.columns.length = n
  first : (d.row? 0).isSome

/-- Both lines of a cell have a value, or neither has. -/
def Closed (d : Duals F) (c : Cell) : Prop :=
  (d.row? c.row).isSome ↔ (d.column? c.column).isSome

variable [Scalar F] (cost : Cell → F)

theorem shaped_start (hm : 0 < m) (n : ℕ) : Shaped m n (start m n : Duals F) := by
  refine ⟨List.length_set.trans List.length_replicate, List.length_replicate, ?_⟩
  rw [row?, start, getD_set (by simpa using hm), if_pos rfl]
  rfl

theorem Shaped.resolve (h : Shaped m n d) (hi : c.row < m) : Shaped m n (d.resolve cost c) := by
  unfold Duals.resolve
  split
  · exact ⟨h.rows, List.length_set.trans h.columns, h.first⟩
  · next v hnone hv =>
    refine ⟨List.length_set.trans h.rows, h.columns, ?_⟩
    obtain ⟨u, hu⟩ := Option.isSome_iff_exists.mp h.first
    exact Option.isSome_iff_exists.mpr
      ⟨u, getD_set_of_eq_some (h.rows.symm ▸ hi) hnone hu _⟩
  · exact h

theorem resolve_cases (h : Shaped m n d) (hi : c.row < m) (hj : c.column < n) :
    d.resolve cost c = d ∧ d.Closed c ∨ (d.resolve cost c).unresolved < d.unresolved := by
  unfold Duals.resolve
  split
  · next u hu hnone =>
    have hcount := countP_set_some (h.columns.symm ▸ hj) hnone (cost c - u)
    refine .inr ?_
    simp only [unresolved]
    omega
  · next v hnone hv =>
    have hcount := countP_set_some (h.rows.symm ▸ hi) hnone (cost c - v)
    refine .inr ?_
    simp only [unresolved]
    omega
  · next hrow hcolumn =>
    refine .inl ⟨rfl, ?_⟩
    unfold Closed
    cases hu : d.row? c.row <;> cases hv : d.column? c.column
    · rfl
    · exact absurd hv (hcolumn _ hu)
    · exact absurd hv (hrow _ hu)
    · rfl

/-- A pass changes nothing, with both lines of every cell known or neither, or finds a value. -/
theorem foldl_resolve (h : Shaped m n d) (hcells : ∀ c ∈ cells, c.row < m ∧ c.column < n) :
    Shaped m n (cells.foldl (resolve cost) d) ∧
      (cells.foldl (resolve cost) d = d ∧ (∀ c ∈ cells, d.Closed c) ∨
        (cells.foldl (resolve cost) d).unresolved < d.unresolved) := by
  induction cells generalizing d with
  | nil => exact ⟨h, .inl ⟨rfl, fun c hc => absurd hc List.not_mem_nil⟩⟩
  | cons c cells ih =>
    obtain ⟨hi, hj⟩ := hcells c List.mem_cons_self
    obtain ⟨hshaped, hrest⟩ := ih (h.resolve cost hi) fun a ha =>
      hcells a (List.mem_cons_of_mem c ha)
    refine ⟨hshaped, ?_⟩
    rw [List.foldl_cons]
    rcases resolve_cases cost h hi hj with ⟨heq, hclosed⟩ | hlt
    · rw [heq] at hrest ⊢
      exact hrest.imp_left fun ⟨hsame, hothers⟩ =>
        ⟨hsame, List.forall_mem_cons.mpr ⟨hclosed, hothers⟩⟩
    · rcases hrest with ⟨heq, -⟩ | hlt'
      · exact .inr ((congrArg unresolved heq).trans_lt hlt)
      · exact .inr (hlt'.trans hlt)

theorem propagate_of_eq (h : cells.foldl (resolve cost) d = d) (k : ℕ) :
    propagate cost cells k d = d := by
  induction k with
  | zero => rfl
  | succ k ih => rw [propagate, h, ih]

/-- More passes than there are values to find leave no cell with one line known. -/
theorem closed_propagate (h : Shaped m n d) (hcells : ∀ c ∈ cells, c.row < m ∧ c.column < n)
    (hk : d.unresolved < k) :
    Shaped m n (propagate cost cells k d) ∧
      ∀ c ∈ cells, (propagate cost cells k d).Closed c := by
  induction k generalizing d with
  | zero => exact absurd hk (Nat.not_lt_zero _)
  | succ k ih =>
    obtain ⟨hshaped, hpass⟩ := foldl_resolve cost h hcells
    rw [propagate]
    rcases hpass with ⟨heq, hclosed⟩ | hlt
    · rw [heq, propagate_of_eq cost heq]
      exact ⟨h, hclosed⟩
    · exact ih hshaped (by omega)

omit [Scalar F] in
theorem missing_eq_nil {values : List (Option F)}
    (h : ∀ i < values.length, (values.getD i none).isSome) : missing values = [] := by
  refine List.filter_eq_nil_iff.mpr fun i hi => ?_
  rw [Bool.not_eq_true, Option.isNone_eq_false_iff]
  exact h i (List.mem_range.mp hi)

end Duals

open Duals

/-- Basic cells that tie all lines together determine all dual values. -/
theorem State.allDuals_of_spans {p : TransportProblem ℚ} {s : State ℚ} (hs : s.problem = p)
    (hm : 0 < p.sourceCount) (hspans : p.Spans s.plan.basicCells)
    (hinside : ∀ c ∈ s.plan.basicCells, c.row < p.sourceCount ∧ c.column < p.destinationCount) :
    ∃ d, s.allDuals = .ok d := by
  have hcount := unresolved_start (F := ℚ) hm p.destinationCount
  obtain ⟨hshaped, hclosed⟩ := closed_propagate s.unitCost
    (shaped_start hm p.destinationCount) hinside
    (show _ < p.sourceCount + p.destinationCount by omega)
  have hduals : s.duals = propagate s.unitCost s.plan.basicCells
      (p.sourceCount + p.destinationCount) (Duals.start p.sourceCount p.destinationCount) := by
    rw [State.duals, State.rowCount, State.columnCount, hs]
  rw [← hduals] at hshaped hclosed
  -- from the first row, values go on across every cell
  have hknown := hspans.forall_lines
    (P := Sum.elim (fun i => (s.duals.row? i).isSome) fun j => (s.duals.column? j).isSome) hclosed
    (TransportProblem.inl_mem_lines.mpr hm) hshaped.first
  have hrows : Duals.missing s.duals.rows = [] := missing_eq_nil fun i hi =>
    hknown (.inl i) (TransportProblem.inl_mem_lines.mpr (hshaped.rows ▸ hi))
  have hcolumns : Duals.missing s.duals.columns = [] := missing_eq_nil fun j hj =>
    hknown (.inr j) (TransportProblem.inr_mem_lines.mpr (hshaped.columns ▸ hj))
  refine ⟨s.duals, ?_⟩
  rw [State.allDuals]
  simp [hrows, hcolumns]

end Optima.Transport
