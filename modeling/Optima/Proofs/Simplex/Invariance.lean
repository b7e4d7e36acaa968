import Mathlib
import Optima.Proofs.Simplex.Agreement
import Optima.Proofs.Simplex.Feasibility

namespace Optima.Simplex

variable {p : LinearProgram ℚ} {rule : PivotRule} {s s₀ t : State ℚ}

namespace Tableau

variable {t : Tableau ℚ (BigM ℚ)}

def unitColumn (n i : ℕ) : List ℚ := (List.range n).map fun k => if k = i then 1 else 0

/-- The basis names a unit column for every row, and all costs are those that the rows give. -/
structure Consistent (t : Tableau ℚ (BigM ℚ)) : Prop where
  nodup : t.basis.Nodup
  basis_lt : ∀ j ∈ t.basis, j < t.columnCount
  column : ∀ i < t.rowCount, t.body.column (t.basis.getD i 0) = unitColumn t.rowCount i
  basicCost : t.basicCost = t.basis.map fun j => t.cost.getD j 0
  relativeCost : t.relativeCost = (List.range t.columnCount).map fun j =>
    (∑ i ∈ Finset.range t.rowCount, t.body.get i j • t.basicCost.getD i 0) - t.cost.getD j 0
  relativeCost_basis : ∀ j ∈ t.basis, t.relativeCost.getD j 0 = 0
  value_basis : ∀ i < t.rowCount, t.value (t.basis.getD i 0) = t.rhs.getD i 0
  value_of_not_mem : ∀ j ∉ t.basis, t.value j = 0
  objectiveValue : t.objectiveValue =
    ∑ j ∈ Finset.range t.columnCount, t.value j • t.cost.getD j 0

theorem Canonical.column_basis (h : t.Canonical) {i : ℕ} (hi : i < t.rowCount) :
    t.body.column (t.basis.getD i 0) = unitColumn t.rowCount i := by
  apply List.ext_getElem
  · rw [h.column_length, unitColumn, List.length_map, List.length_range]
  · intro k hk _
    have hk' : k < t.rowCount := h.column_length _ ▸ hk
    rw [← List.getD_eq_getElem _ 0 hk, h.column_getD hk', h.unit k hk' i hi]
    simp [unitColumn]

theorem Canonical.consistent (h : t.Canonical) : t.Consistent where
  nodup := h.basis_nodup
  basis_lt := (forall_mem_iff_getD 0).mpr h.basis_lt
  column _ hi := h.column_basis hi
  basicCost := h.basicCost_eq_map
  relativeCost := by
    apply List.ext_getElem
    · rw [h.relativeCost_length, List.length_map, List.length_range]
    · intro j hj _
      rw [← List.getD_eq_getElem _ 0 hj, h.relativeCost_eq (h.relativeCost_length ▸ hj)]
      simp
  relativeCost_basis :=
    (forall_mem_iff_getD 0).mpr fun _ hi => h.relativeCost_basis hi
  value_basis _ hi := h.spread_basis _ hi
  value_of_not_mem _ hj := spread_of_not_mem hj
  objectiveValue := h.costAt_value.symm

theorem Shaped.row_lengths (h : t.Shaped) :
    t.body.rows.map List.length = List.replicate t.rowCount t.columnCount := by
  rw [← h.rows]
  exact List.map_eq_replicate_iff.mpr h.row

end Tableau

namespace State

/-- Two states agree on what the program set and on every size. -/
structure Keeps (s t : State ℚ) : Prop where
  names : t.names = s.names
  kinds : t.kinds = s.kinds
  cost : t.cost = s.cost
  goal : t.goal = s.goal
  basis : t.basis.length = s.basis.length
  basicCost : t.basicCost.length = s.basicCost.length
  rhs : t.rhs.length = s.rhs.length
  relativeCost : t.relativeCost.length = s.relativeCost.length
  rows : t.body.rows.map List.length = s.body.rows.map List.length
  rowCount : t.body.rowCount = s.body.rowCount
  columnCount : t.body.columnCount = s.body.columnCount

namespace Keeps

theorem refl (s : State ℚ) : Keeps s s := ⟨rfl, rfl, rfl, rfl, rfl, rfl, rfl, rfl, rfl, rfl, rfl⟩

theorem trans (h : Keeps s₀ s) (ht : Keeps s t) : Keeps s₀ t where
  names := ht.names.trans h.names
  kinds := ht.kinds.trans h.kinds
  cost := ht.cost.trans h.cost
  goal := ht.goal.trans h.goal
  basis := ht.basis.trans h.basis
  basicCost := ht.basicCost.trans h.basicCost
  rhs := ht.rhs.trans h.rhs
  relativeCost := ht.relativeCost.trans h.relativeCost
  rows := ht.rows.trans h.rows
  rowCount := ht.rowCount.trans h.rowCount
  columnCount := ht.columnCount.trans h.columnCount

theorem pivot {row column : ℕ} {ratio : ℚ} (h : s.Canonical)
    (ht : (s.after (.pivot row column ratio)).Canonical) :
    Keeps s (s.after (.pivot row column ratio)) := by
  have hcount : (s.after (.pivot row column ratio)).rowCount = s.rowCount :=
    Tableau.rowCount_enter (s.eliminate row column).snap row column
  refine ⟨rfl, rfl, rfl, rfl, hcount, ?_, ?_, ?_, ?_, rfl, rfl⟩
  · rw [ht.basicCost, hcount, h.basicCost]
  · rw [ht.rhs, hcount, h.rhs]
  · rw [ht.relativeCost_length, h.relativeCost_length]
    rfl
  · rw [ht.row_lengths, hcount, h.row_lengths]
    rfl

theorem step (h : s.Canonical) (hstep : s.step rule = .ok t) (ht : t.Canonical) : Keeps s t := by
  cases hs : s.status.isTerminal with
  | true =>
    obtain rfl := eq_of_isTerminal hs hstep
    exact refl s
  | false =>
    obtain ⟨m, -, rfl⟩ := exists_move hs hstep
    cases m with
    | stopInfeasible | stopOptimal | stopUnbounded column =>
      exact ⟨rfl, rfl, rfl, rfl, rfl, rfl, rfl, rfl, rfl, rfl, rfl⟩
    | pivot row column ratio => exact pivot h ht

theorem run (h : Snapped s₀ s₀) (hrun : RuleRun s₀ s) : Keeps s₀ s := by
  induction hrun with
  | refl => exact refl s₀
  | tail hrun hstep ih =>
    obtain ⟨rule, hstep⟩ := hstep
    have hs := h.run hrun
    exact ih.trans (step hs.canonical hstep (hs.step hstep).canonical)

end Keeps

/-- A step whose pivot, where it does one, has nothing to snap. -/
structure ExactStep (rule : PivotRule) (s t : State ℚ) : Prop where
  step : s.step rule = .ok t
  snap : ∀ row column ratio, s.status.isTerminal = false →
    s.move rule = .ok (.pivot row column ratio) →
      (s.eliminate row column).snap = s.eliminate row column

def ExactRun (s t : State ℚ) : Prop :=
  Relation.ReflTransGen (fun s t => ∃ rule, ExactStep rule s t) s t

theorem ExactRun.ruleRun (h : ExactRun s t) : RuleRun s t :=
  Relation.ReflTransGen.mono (fun _ _ ⟨rule, hstep⟩ => ⟨rule, hstep.step⟩) _ _ h

theorem SeparatedRun.exactRun (h : SeparatedRun s t) : ExactRun s t := by
  refine Relation.ReflTransGen.mono ?_ _ _ h
  rintro s t ⟨rule, hstep⟩
  refine ⟨rule, hstep.step, fun row column ratio hs hm => ?_⟩
  exact (hstep.eliminate row column ratio hs hm).snap_eq

theorem ExactStep.solves_iff (h : s.Canonical) (hstep : ExactStep rule s t) (x : ℕ → ℚ) :
    t.Solves x ↔ s.Solves x := by
  cases hs : s.status.isTerminal with
  | true =>
    obtain rfl := eq_of_isTerminal hs hstep.step
    exact Iff.rfl
  | false =>
    obtain ⟨m, hm, rfl⟩ := exists_move hs hstep.step
    cases m with
    | stopInfeasible | stopOptimal | stopUnbounded column => exact Iff.rfl
    | pivot row column ratio =>
      obtain ⟨hrow, hpivot, -⟩ := Tableau.tolerance_lt_of_smallestRatio? h.toShaped (moveFits hm).2
      exact Tableau.solves_pivot h.toShaped hrow (Scalar.tolerance_pos.trans hpivot).ne'
        (hstep.snap row column ratio hs hm) x

theorem ExactRun.solves_iff (h : Snapped s₀ s₀) (hrun : ExactRun s₀ s) (x : ℕ → ℚ) :
    s.Solves x ↔ s₀.Solves x := by
  induction hrun with
  | refl => exact Iff.rfl
  | tail hrun hstep ih =>
    obtain ⟨rule, hstep⟩ := hstep
    exact (hstep.solves_iff (h.run (ExactRun.ruleRun hrun)).canonical x).trans ih

end State

open State

/-- In every state that steps of either rule lead to from a first state, the basis names a unit
column for every row and all costs are those that the rows give, and what the program set and every
size are as they were. If no snap changed a value on the way, the rows have the same solutions. -/
theorem consistent_of_run (hstart : start p = .ok s₀) (hrun : RuleRun s₀ s) :
    s.Consistent ∧ Keeps s₀ s ∧ (ExactRun s₀ s → ∀ x, s.Solves x ↔ s₀.Solves x) := by
  obtain ⟨-, rfl⟩ := eq_firstState_of_start hstart
  have h₀ := snapped_firstState p
  exact ⟨(h₀.run hrun).canonical.consistent, Keeps.run h₀ hrun, fun h => h.solves_iff h₀⟩

theorem longEnd_consistent : longEnd.Consistent ∧ Keeps (firstState detour) longEnd ∧
    ∀ x, longEnd.Solves x ↔ (firstState detour).Solves x := by
  have hexact : ExactRun (firstState detour) longEnd := long_run.exactRun
  obtain ⟨hconsistent, hkeeps, hsolves⟩ :=
    consistent_of_run (start_eq_firstState detour_fits.1) hexact.ruleRun
  exact ⟨hconsistent, hkeeps, hsolves hexact⟩

end Optima.Simplex
