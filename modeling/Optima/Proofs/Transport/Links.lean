import Mathlib
import Optima.Proofs.Transport.Independence
import Optima.Proofs.Transport.LoopSearch

namespace Optima

/-- Lines that cells link one after another, each cell its row and its column. -/
def Linked (cells : List Cell) : ℕ ⊕ ℕ → ℕ ⊕ ℕ → Prop :=
  Relation.EqvGen fun a b => ∃ c ∈ cells, a = c.line true ∧ b = c.line false

section Linked

variable {cells cells' : List Cell} {c : Cell} {a b l : ℕ ⊕ ℕ}

theorem Linked.symm (h : Linked cells a b) : Linked cells b a := Relation.EqvGen.symm a b h

theorem Linked.trans (hab : Linked cells a b) (hbl : Linked cells b l) : Linked cells a l :=
  Relation.EqvGen.trans a b l hab hbl

theorem linked_line (hc : c ∈ cells) (alongRow : Bool) :
    Linked cells (c.line alongRow) (c.line !alongRow) := by
  have h : Linked cells (c.line true) (c.line false) := .rel _ _ ⟨c, hc, rfl, rfl⟩
  cases alongRow with
  | true => exact h
  | false => exact h.symm

theorem Linked.mono (hsubset : cells ⊆ cells') (h : Linked cells a b) : Linked cells' a b :=
  Relation.EqvGen.mono (fun _ _ ⟨c, hc, hends⟩ => ⟨c, hsubset hc, hends⟩) _ _ h

/-- What holds of both lines of every cell or of neither holds of both of two linked lines or of
neither. -/
theorem Linked.iff_of_cells {P : ℕ ⊕ ℕ → Prop} (h : Linked cells a b)
    (hcells : ∀ c ∈ cells, P (.inl c.row) ↔ P (.inr c.column)) : P a ↔ P b := by
  induction h with
  | rel a b hab =>
    obtain ⟨c, hc, rfl, rfl⟩ := hab
    exact hcells c hc
  | refl a => exact Iff.rfl
  | symm a b _ ih => exact ih.symm
  | trans a b c _ _ hab hbc => exact hab.trans hbc

end Linked

namespace Transport

variable {F : Type} [Scalar F] {s : State F} {c : Cell} {used : List Cell}

/-- The lines of a cell that others link close a loop with it. -/
theorem State.exists_closedLoop_of_linked (horder : s.plan.InOrder)
    (hused : used ⊆ s.plan.basicCells) (hc : c ∉ used)
    (hlinked : Linked used (.inl c.row) (.inr c.column)) :
    ∃ rest, ClosedLoop c rest ∧ rest ⊆ used := by
  -- in a plan that ships through these cells alone, trails from the cell come to both lines
  let t : State F := { s with plan := s.plan.filter fun u => u.cell ∈ used }
  have hbasic (d : Cell) : t.outline.plan.isBasic d = true ↔ d ∈ used := by
    rw [(State.inOrder_outline (horder.sublist List.filter_sublist)).isBasic_iff
      Scalar.tolerance_pos.not_gt, State.basicCells_outline, Plan.mem_basicCells]
    constructor
    · rintro ⟨u, hu, -, rfl⟩
      exact of_decide_eq_true (List.mem_filter.mp hu).2
    · intro hd
      obtain ⟨u, hu, hlt, rfl⟩ := Plan.mem_basicCells.mp (hused hd)
      exact ⟨u, List.mem_filter.mpr ⟨hu, decide_eq_true hd⟩, hlt, rfl⟩
  have hcomes : ComesTo t.outline.plan c (.inr c.column) :=
    (hlinked.iff_of_cells fun d hd => comesTo_iff ((hbasic d).mpr hd)
      (ne_of_mem_of_not_mem hd hc)).mp ⟨[c], .start, rfl⟩
  obtain ⟨path, htrail, hclosed⟩ := hcomes
  obtain ⟨rest, -, hrest, hbasicRest⟩ := isLoop_iff.mp
    (⟨path, htrail, hclosed, htrail.four_le_length hclosed, rfl⟩ :
      IsLoop t.outline.plan c path.reverse)
  exact ⟨rest, hrest, fun d hd => (hbasic d).mp (hbasicRest d hd)⟩

namespace Duals

variable {d : Duals F} {cells : List Cell} {l : ℕ ⊕ ℕ} {m n : ℕ} {cost : Cell → F}

def value? (d : Duals F) : ℕ ⊕ ℕ → Option F := Sum.elim d.row? d.column?

theorem value?_resolve (cost : Cell → F) (h : Shaped m n d) (hi : c.row < m) (hj : c.column < n) :
    d.resolve cost c = d ∨ ∃ flag x, d.value? (c.line flag) = some x ∧
      d.value? (c.line !flag) = none ∧
      (d.resolve cost c).value? (c.line !flag) = some (cost c - x) ∧
      ∀ l ≠ c.line !flag, (d.resolve cost c).value? l = d.value? l := by
  unfold Duals.resolve
  split
  · next u hu hnone =>
    have hset := getD_set (h.columns.symm ▸ hj) (some (cost c - u)) none
    refine .inr ⟨true, u, hu, hnone, (hset c.column).trans (if_pos rfl), fun l hl => ?_⟩
    cases l with
    | inl i => rfl
    | inr j => exact (hset j).trans (if_neg fun heq => hl (congrArg Sum.inr heq))
  · next v hnone hv =>
    have hset := getD_set (h.rows.symm ▸ hi) (some (cost c - v)) none
    refine .inr ⟨false, v, hv, hnone, (hset c.row).trans (if_pos rfl), fun l hl => ?_⟩
    cases l with
    | inl i => exact (hset i).trans (if_neg fun heq => hl (congrArg Sum.inl heq))
    | inr j => rfl
  · exact .inl rfl

/-- The values known are those of lines that some cells link to the first row, and each of these
cells gave one of its lines what its unit cost is beyond the value of the other. -/
structure Derived (cost : Cell → F) (cells : List Cell) (d : Duals F) (used : List Cell) :
    Prop where
  subset : used ⊆ cells
  linked : ∀ l, (d.value? l).isSome → Linked used (.inl 0) l
  derived : ∀ c ∈ used, ∃ flag x,
    d.value? (c.line flag) = some x ∧ d.value? (c.line !flag) = some (cost c - x)

theorem eq_zero_of_value?_start (hl : ((start m n : Duals F).value? l).isSome) : l = .inl 0 := by
  cases l with
  | inl i =>
    by_contra hne
    have hi : 0 ≠ i := fun heq => hne (congrArg Sum.inl heq.symm)
    change (((List.replicate m none).set 0 (some 0)).getD i none).isSome at hl
    rw [List.getD_eq_getElem?_getD, List.getElem?_set_ne hi,
      List.getElem?_getD_replicate_default_eq] at hl
    exact Bool.false_ne_true hl
  | inr j =>
    change ((List.replicate n none).getD j none).isSome at hl
    rw [List.getD_eq_getElem?_getD, List.getElem?_getD_replicate_default_eq] at hl
    exact absurd hl Bool.false_ne_true

theorem derived_start (cost : Cell → F) (cells : List Cell) (m n : ℕ) :
    Derived cost cells (start m n) [] where
  subset := List.nil_subset _
  linked _ hl := eq_zero_of_value?_start hl ▸ .refl _
  derived _ hc := absurd hc List.not_mem_nil

/-- A cell that gives a value links its line to those that are linked. -/
theorem Derived.resolve (h : Derived cost cells d used) (hd : Shaped m n d) (hc : c ∈ cells)
    (hi : c.row < m) (hj : c.column < n) : ∃ used, Derived cost cells (d.resolve cost c) used := by
  rcases value?_resolve cost hd hi hj with heq | ⟨flag, x, hx, hnone, hnew, hothers⟩
  · rw [heq]
    exact ⟨used, h⟩
  have hkept {l : ℕ ⊕ ℕ} {y : F} (hl : d.value? l = some y) :
      (d.resolve cost c).value? l = some y := by
    have hne : l ≠ c.line !flag := fun heq => by simp [← heq, hl] at hnone
    rw [hothers l hne, hl]
  refine ⟨c :: used, List.cons_subset.mpr ⟨hc, h.subset⟩, fun l hl => ?_, fun e he => ?_⟩
  · have hold {l : ℕ ⊕ ℕ} (hl : (d.value? l).isSome) : Linked (c :: used) (.inl 0) l :=
      (h.linked l hl).mono (List.subset_cons_self c used)
    by_cases hline : l = c.line !flag
    · rw [hline]
      exact (hold (Option.isSome_iff_exists.mpr ⟨x, hx⟩)).trans
        (linked_line List.mem_cons_self flag)
    · rw [hothers l hline] at hl
      exact hold hl
  · rcases List.mem_cons.mp he with rfl | he
    · exact ⟨flag, x, hkept hx, hnew⟩
    · obtain ⟨flag', y, hy, hy'⟩ := h.derived e he
      exact ⟨flag', y, hkept hy, hkept hy'⟩

theorem derived_propagate (cost : Cell → F) (hm : 0 < m)
    (hcells : ∀ c ∈ cells, c.row < m ∧ c.column < n) (k : ℕ) :
    ∃ used, Derived cost cells (propagate cost cells k (start m n)) used :=
  (propagate_induction (P := fun d => Shaped m n d ∧ ∃ used, Derived cost cells d used)
    (fun _ c hc ⟨hd, _, h⟩ => ⟨hd.resolve cost (hcells c hc).1,
      h.resolve hd hc (hcells c hc).1 (hcells c hc).2⟩) k
    ⟨shaped_start hm n, [], derived_start cost cells m n⟩).2

theorem resolve_of_closed (h : d.Closed c) : d.resolve cost c = d := by
  unfold Duals.resolve
  split
  · next u hu hnone => simp [Closed, hu, hnone] at h
  · next v hnone hv => simp [Closed, hnone, hv] at h
  · rfl

theorem propagate_of_closed (h : ∀ c ∈ cells, d.Closed c) (k : ℕ) :
    propagate cost cells k d = d := by
  refine propagate_of_eq cost ?_ k
  induction cells with
  | nil => rfl
  | cons c cells ih =>
    obtain ⟨hc, hcells⟩ := List.forall_mem_cons.mp h
    rw [List.foldl_cons, resolve_of_closed hc, ih hcells]

theorem propagate_add (j k : ℕ) (d : Duals F) :
    propagate cost cells (j + k) d = propagate cost cells k (propagate cost cells j d) := by
  induction j generalizing d with
  | zero => rw [Nat.zero_add, propagate]
  | succ j ih => rw [Nat.succ_add, propagate, propagate, ih]

omit [Scalar F] in
theorem mem_missing {values : List (Option F)} {i : ℕ} :
    i ∈ missing values ↔ i < values.length ∧ ¬ (values.getD i none).isSome := by
  rw [missing, List.mem_filter, List.mem_range, Option.isNone_iff_eq_none,
    Option.not_isSome_iff_eq_none]

omit [Scalar F] in
theorem forall_isSome_of_missing {values : List (Option F)} (hn : values.length = n)
    (h : missing values = []) : ∀ i < n, (values.getD i none).isSome := by
  intro i hi
  by_contra hnot
  exact List.not_mem_nil (h ▸ mem_missing.mpr ⟨hn.symm ▸ hi, hnot⟩)

omit [Scalar F] in
theorem pairwise_missing (values : List (Option F)) : (missing values).Pairwise (· < ·) :=
  List.pairwise_lt_range.filter _

end Duals

open Duals

namespace State

/-- The rows and the columns that the basic cells do not link to the first row, in ascending
order. -/
structure Unlinked (s : State F) (rows columns : List ℕ) : Prop where
  rows_ascending : rows.Pairwise (· < ·)
  columns_ascending : columns.Pairwise (· < ·)
  mem_rows : ∀ i, i ∈ rows ↔ i < s.rowCount ∧ ¬ Linked s.plan.basicCells (.inl 0) (.inl i)
  mem_columns : ∀ j, j ∈ columns ↔
    j < s.columnCount ∧ ¬ Linked s.plan.basicCells (.inl 0) (.inr j)

theorem Unlinked.ne_nil_or_ne_nil_iff {rows columns : List ℕ} (h : s.Unlinked rows columns) :
    rows ≠ [] ∨ columns ≠ [] ↔
      (∃ i < s.rowCount, ¬ Linked s.plan.basicCells (.inl 0) (.inl i)) ∨
        ∃ j < s.columnCount, ¬ Linked s.plan.basicCells (.inl 0) (.inr j) := by
  simp only [ne_eq, List.eq_nil_iff_forall_not_mem, not_forall, not_not, h.mem_rows, h.mem_columns]

section Passes

variable (hm : 0 < s.rowCount)
  (hinside : ∀ c ∈ s.plan.basicCells, c.row < s.rowCount ∧ c.column < s.columnCount)
include hm hinside

/-- As many passes as there are lines leave no cell with one line known. -/
theorem closed_duals : Shaped s.rowCount s.columnCount s.duals ∧
    ∀ c ∈ s.plan.basicCells, s.duals.Closed c := by
  have hcount := unresolved_start (F := F) hm s.columnCount
  exact closed_propagate s.unitCost (shaped_start hm s.columnCount) hinside (by omega)

/-- The values found are those of the lines that the basic cells link to the first row. -/
theorem isSome_value?_iff (l : ℕ ⊕ ℕ) :
    (s.duals.value? l).isSome ↔ Linked s.plan.basicCells (.inl 0) l := by
  constructor
  · obtain ⟨used, hderived⟩ := derived_propagate s.unitCost hm hinside
      (s.rowCount + s.columnCount)
    exact fun hl => (hderived.linked l hl).mono hderived.subset
  · obtain ⟨hshaped, hclosed⟩ := closed_duals hm hinside
    intro hl
    exact (hl.iff_of_cells (P := fun l => (s.duals.value? l).isSome) hclosed).mp hshaped.first

theorem unlinked_missing :
    s.Unlinked (Duals.missing s.duals.rows) (Duals.missing s.duals.columns) := by
  obtain ⟨hshaped, -⟩ := closed_duals hm hinside
  have hknown := isSome_value?_iff hm hinside
  refine ⟨pairwise_missing _, pairwise_missing _, fun i => ?_, fun j => ?_⟩
  · rw [mem_missing, hshaped.rows, ← hknown]
    rfl
  · rw [mem_missing, hshaped.columns, ← hknown]
    rfl

/-- More passes than there are lines find nothing more. -/
theorem propagate_eq_duals {k : ℕ} (hk : s.rowCount + s.columnCount ≤ k) :
    propagate s.unitCost s.plan.basicCells k (Duals.start s.rowCount s.columnCount) = s.duals := by
  obtain ⟨j, rfl⟩ := Nat.exists_eq_add_of_le hk
  rw [propagate_add]
  exact propagate_of_closed (closed_duals hm hinside).2 j

/-- Without closed loops every basic cell whose lines are known has given a value to one of them. -/
theorem exists_value_of_not_closedLoop (horder : s.plan.InOrder)
    (hloops : ∀ first rest, first :: rest ⊆ s.plan.basicCells → ¬ ClosedLoop first rest)
    (hc : c ∈ s.plan.basicCells) (hrow : (s.duals.value? (.inl c.row)).isSome) :
    ∃ flag x, s.duals.value? (c.line flag) = some x ∧
      s.duals.value? (c.line !flag) = some (s.unitCost c - x) := by
  obtain ⟨used, hderived⟩ := derived_propagate s.unitCost hm hinside
    (s.rowCount + s.columnCount)
  apply hderived.derived
  by_contra hnot
  have hcolumn := ((closed_duals hm hinside).2 c hc).mp hrow
  have hlinked := (hderived.linked _ hrow).symm.trans (hderived.linked (.inr c.column) hcolumn)
  obtain ⟨rest, hrest, hsubset⟩ :=
    exists_closedLoop_of_linked horder hderived.subset hnot hlinked
  exact hloops c rest (List.cons_subset.mpr ⟨hc, List.Subset.trans hsubset hderived.subset⟩) hrest

end Passes

theorem allDuals_eq_ok_iff {d : Duals F} : s.allDuals = .ok d ↔
    d = s.duals ∧ Duals.missing s.duals.rows = [] ∧ Duals.missing s.duals.columns = [] := by
  unfold allDuals
  dsimp only
  rw [← List.isEmpty_iff, ← List.isEmpty_iff, ← Bool.and_eq_true]
  split_ifs with hempty
  · rw [Except.ok.injEq, eq_comm, and_iff_left hempty]
  · exact iff_of_false nofun fun h => hempty h.2

theorem allDuals_eq_error_iff {e : SolveError} : s.allDuals = .error e ↔
    e = .unresolvedDuals (Duals.missing s.duals.rows) (Duals.missing s.duals.columns) ∧
      (Duals.missing s.duals.rows ≠ [] ∨ Duals.missing s.duals.columns ≠ []) := by
  unfold allDuals
  dsimp only
  rw [← not_and_or, ← List.isEmpty_iff, ← List.isEmpty_iff, ← Bool.and_eq_true]
  split_ifs with hempty
  · exact iff_of_false nofun fun h => h.2 hempty
  · rw [Except.error.injEq, eq_comm, and_iff_left hempty]

end State

/-- In a plan in order the dual values are found unless the basic cells fail to link some line to
the first row, and then the error names the rows and the columns that are not linked. More passes
than there are lines find nothing more. All values are found from zero at the first row; if no basic
cells make a closed loop, and what is taken off a number and added again gives the number, they make
up the unit costs of all basic cells. -/
theorem allDuals_iff_linked (hm : 0 < s.rowCount) (horder : s.plan.InOrder)
    (hinside : ∀ t ∈ s.plan, t.cell.row < s.rowCount ∧ t.cell.column < s.columnCount) :
    ((∃ rows columns, s.allDuals = .error (.unresolvedDuals rows columns)) ↔
      (∃ i < s.rowCount, ¬ Linked s.plan.basicCells (.inl 0) (.inl i)) ∨
        ∃ j < s.columnCount, ¬ Linked s.plan.basicCells (.inl 0) (.inr j)) ∧
    (∀ e, s.allDuals = .error e →
      ∃ rows columns, e = .unresolvedDuals rows columns ∧ s.Unlinked rows columns) ∧
    (∀ k, s.rowCount + s.columnCount ≤ k →
      propagate s.unitCost s.plan.basicCells k (Duals.start s.rowCount s.columnCount) =
        s.duals) ∧
    ∀ d, s.allDuals = .ok d → d.row? 0 = some 0 ∧
      (∀ i < s.rowCount, (d.row? i).isSome) ∧ (∀ j < s.columnCount, (d.column? j).isSome) ∧
      ((∀ first rest, first :: rest ⊆ s.plan.basicCells → ¬ ClosedLoop first rest) →
        (∀ x y : F, x + (y - x) = y ∧ y - x + x = y) →
        ∀ c ∈ s.plan.basicCells, ∃ u v, d.row? c.row = some u ∧ d.column? c.column = some v ∧
          u + v = s.unitCost c) := by
  have hinside : ∀ c ∈ s.plan.basicCells, c.row < s.rowCount ∧ c.column < s.columnCount := by
    intro c hc
    obtain ⟨t, ht, -, rfl⟩ := Plan.mem_basicCells.mp hc
    exact hinside t ht
  have hmissing := State.unlinked_missing hm hinside
  refine ⟨?_, fun e he => ?_, fun k => State.propagate_eq_duals hm hinside, fun d hd => ?_⟩
  · rw [← hmissing.ne_nil_or_ne_nil_iff]
    constructor
    · rintro ⟨rows, columns, herror⟩
      exact (State.allDuals_eq_error_iff.mp herror).2
    · exact fun hlines => ⟨_, _, State.allDuals_eq_error_iff.mpr ⟨rfl, hlines⟩⟩
  · exact ⟨_, _, (State.allDuals_eq_error_iff.mp he).1, hmissing⟩
  · have hfirst := row?_zero_of_allDuals hd hm
    obtain ⟨rfl, hrows, hcolumns⟩ := State.allDuals_eq_ok_iff.mp hd
    have hshaped := (State.closed_duals hm hinside).1
    have hrow := forall_isSome_of_missing hshaped.rows hrows
    have hcolumn := forall_isSome_of_missing hshaped.columns hcolumns
    refine ⟨hfirst, hrow, hcolumn, fun hloops hexact c hc => ?_⟩
    obtain ⟨flag, x, hx, hy⟩ := State.exists_value_of_not_closedLoop hm hinside horder hloops hc
      (hrow c.row (hinside c hc).1)
    cases flag with
    | true => exact ⟨x, s.unitCost c - x, hx, hy, (hexact x _).1⟩
    | false => exact ⟨s.unitCost c - x, x, hy, hx, (hexact x _).2⟩

/-- Two rows that share the last column, if the last shipment is not negligible. -/
def bridge (x : ℚ) : State ℚ :=
  { firstState ⟨[2, 6], [1, 3, 4], [[4, 1, 3], [2, 0, 5]], [], []⟩ .vogel with
    plan := [⟨⟨0, 2⟩, 2⟩, ⟨⟨1, 0⟩, 1⟩, ⟨⟨1, 1⟩, 3⟩, ⟨⟨1, 2⟩, x⟩] }

theorem untied_bridge (x : ℚ) : Untied (bridge x).plan.cells := by
  have hcells : (bridge x).plan.cells = [⟨0, 2⟩, ⟨1, 0⟩, ⟨1, 1⟩, ⟨1, 2⟩] := rfl
  rw [hcells, Untied, List.forall_mem_cons, List.forall_mem_cons, List.forall_mem_cons,
    List.forall_mem_singleton]
  refine ⟨⟨fun l => if l = .inl 0 then 1 else 0, ?_⟩, ⟨fun l => if l = .inr 0 then 1 else 0, ?_⟩,
    ⟨fun l => if l = .inr 1 then 1 else 0, ?_⟩,
    ⟨fun l => if l = .inl 0 ∨ l = .inr 2 then 1 else 0, ?_⟩⟩
  all_goals decide +kernel

/-- The values go over to the second row through the last cell of a pass and on to its columns in
the next one. If that cell is not basic, the row and these columns have none. -/
theorem bridge_links :
    (∃ d, (bridge 2).allDuals = .ok d ∧ d.row? 0 = some 0 ∧
      ∀ c ∈ (bridge 2).plan.basicCells, ∃ u v, d.row? c.row = some u ∧
        d.column? c.column = some v ∧ u + v = (bridge 2).unitCost c) ∧
    (bridge 1e-9).allDuals = .error (.unresolvedDuals [1] [0, 1]) ∧
      (bridge 1e-9).Unlinked [1] [0, 1] := by
  have hfits : ∀ x ∈ ([2, 1e-9] : List ℚ), 0 < (bridge x).rowCount ∧ (bridge x).plan.InOrder ∧
      ∀ t ∈ (bridge x).plan, t.cell.row < (bridge x).rowCount ∧
        t.cell.column < (bridge x).columnCount := by
    unfold Plan.InOrder
    decide +kernel
  constructor
  · obtain ⟨hm, horder, hinside⟩ := hfits 2 List.mem_cons_self
    have hbegin : (bridge 2).allDuals.toOption.any (fun _ => true) = true := by decide +kernel
    obtain ⟨d, hd, -⟩ := exists_ok_of_any hbegin
    obtain ⟨hfirst, -, -, hcosts⟩ := (allDuals_iff_linked hm horder hinside).2.2.2 d hd
    have hbasic : (bridge 2).plan.basicCells = (bridge 2).plan.cells := by decide +kernel
    refine ⟨d, hd, hfirst, hcosts (fun first rest hsubset => ?_) fun x y => ⟨by ring, by ring⟩⟩
    exact not_closedLoop (untied_bridge 2) (by decide +kernel) (hbasic ▸ hsubset)
  · obtain ⟨hm, horder, hinside⟩ := hfits 1e-9 (List.mem_cons_of_mem _ List.mem_cons_self)
    have herror : (bridge 1e-9).allDuals = .error (.unresolvedDuals [1] [0, 1]) := by
      have hrows : Duals.missing (bridge 1e-9).duals.rows = [1] := by decide +kernel
      have hcolumns : Duals.missing (bridge 1e-9).duals.columns = [0, 1] := by decide +kernel
      refine State.allDuals_eq_error_iff.mpr ⟨?_, .inl ?_⟩
      · rw [hrows, hcolumns]
      · rw [hrows]
        exact List.cons_ne_nil 1 []
    obtain ⟨rows, columns, heq, hunlinked⟩ :=
      (allDuals_iff_linked hm horder hinside).2.1 _ herror
    obtain ⟨rfl, rfl⟩ := SolveError.unresolvedDuals.inj heq
    exact ⟨herror, hunlinked⟩

end Transport

end Optima
