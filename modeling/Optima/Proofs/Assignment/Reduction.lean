import Mathlib
import Optima.Assignment.Step
import Optima.Proofs.Scalar

namespace Optima

namespace Matrix

variable {a b c : Matrix ℚ} {m n i j : ℕ}

structure Sized (a : Matrix ℚ) (m n : ℕ) : Prop where
  rows : a.rows.length = m
  row : ∀ r ∈ a.rows, r.length = n

/-- The second matrix is the first one with amounts taken off its rows and columns. -/
def Shifted (n : ℕ) (a b : Matrix ℚ) : Prop :=
  ∃ u v : ℕ → ℚ, ∀ i < n, ∀ j < n, b.get i j = a.get i j - u i - v j

theorem Shifted.refl (n : ℕ) (a : Matrix ℚ) : Shifted n a a := ⟨0, 0, fun i _ j _ => by simp⟩

theorem Shifted.trans (hab : Shifted n a b) (hbc : Shifted n b c) : Shifted n a c := by
  obtain ⟨u, v, hu⟩ := hab
  obtain ⟨u', v', hu'⟩ := hbc
  refine ⟨u + u', v + v', fun i hi j hj => ?_⟩
  rw [hu' i hi j hj, hu i hi j hj, Pi.add_apply, Pi.add_apply]
  ring

namespace Sized

theorem row_length (h : a.Sized m n) (hi : i < m) : (a.row i).length = n := by
  have hi : i < a.rows.length := h.rows.symm ▸ hi
  rw [Matrix.row, List.getD_eq_getElem _ _ hi]
  exact h.row _ (List.getElem_mem hi)

theorem column_length (h : a.Sized m n) (j : ℕ) : (a.column j).length = m := by
  rw [column, List.length_map, h.rows]

theorem get_mem_row (h : a.Sized m n) (hi : i < m) (hj : j < n) : a.get i j ∈ a.row i := by
  rw [get, List.getD_eq_getElem _ _ ((h.row_length hi).symm ▸ hj)]
  exact List.getElem_mem _

theorem get_mem_column (h : a.Sized m n) (hi : i < m) (j : ℕ) : a.get i j ∈ a.column j := by
  have hi : i < a.rows.length := h.rows.symm ▸ hi
  rw [get, Matrix.row, List.getD_eq_getElem _ _ hi]
  exact List.mem_map_of_mem (List.getElem_mem hi)

theorem mapIdx (h : a.Sized m n) {g : ℕ → List ℚ → List ℚ}
    (hg : ∀ i < m, ∀ r ∈ a.rows, (g i r).length = n) :
    ({ a with rows := a.rows.mapIdx g } : Matrix ℚ).Sized m n := by
  refine ⟨List.length_mapIdx.trans h.rows, fun r hr => ?_⟩
  obtain ⟨i, hi, rfl⟩ := List.getElem_of_mem hr
  rw [List.length_mapIdx] at hi
  rw [List.getElem_mapIdx]
  exact hg i (h.rows ▸ hi) _ (List.getElem_mem hi)

theorem row_mapIdx (h : a.Sized m n) (g : ℕ → List ℚ → List ℚ) (hi : i < m) :
    ({ a with rows := a.rows.mapIdx g } : Matrix ℚ).row i = g i (a.row i) := by
  have hi : i < a.rows.length := h.rows.symm ▸ hi
  rw [Matrix.row, Matrix.row, List.getD_eq_getElem _ _ (by simpa using hi),
    List.getD_eq_getElem _ _ hi, List.getElem_mapIdx]

end Sized

end Matrix

namespace Assignment.State

variable {s : State ℚ} {n i j : ℕ}

theorem reduceRow_length (r : List ℚ) : (reduceRow r).length = r.length := by
  unfold reduceRow
  split
  · exact List.length_map _
  · rfl

theorem reduceRows_sized (h : s.reduced.Sized n n) : s.reduceRows.Sized n n := by
  apply h.mapIdx
  intro i _ r hr
  split_ifs
  · rw [reduceRow_length, h.row r hr]
  · exact h.row r hr

theorem reduceRows_spec (h : s.reduced.Sized n n) (hs : s.size = n) (hi : i < n) :
    ∃ x, ∀ j < n, s.reduceRows.get i j = s.reduced.get i j - x ∧ x ≤ s.reduced.get i j := by
  have hrow : s.reduceRows.row i = reduceRow (s.reduced.row i) := by
    rw [reduceRows, h.row_mapIdx _ hi, if_pos (hs.symm ▸ hi)]
  have hlength := h.row_length hi
  obtain ⟨x, hx⟩ : ∃ x, Scalar.least? (s.reduced.row i) = some x := by
    apply Option.ne_none_iff_exists'.mp
    rw [ne_eq, Scalar.least?_eq_none, ← List.length_eq_zero_iff]
    omega
  refine ⟨x, fun j hj => ⟨?_, (Scalar.least?_eq_some hx).2 _ (h.get_mem_row hi hj)⟩⟩
  have hj : j < (s.reduced.row i).length := hlength.symm ▸ hj
  rw [Matrix.get, hrow, reduceRow, hx, Matrix.get, List.getD_eq_getElem _ _ (by simpa using hj),
    List.getElem_map, List.getD_eq_getElem _ _ hj, sub_eq_add_neg]

theorem reduceRows_shifted (h : s.reduced.Sized n n) (hs : s.size = n) :
    Matrix.Shifted n s.reduced s.reduceRows := by
  choose! u hu using fun i (hi : i < n) => reduceRows_spec h hs hi
  refine ⟨u, 0, fun i hi j hj => ?_⟩
  rw [(hu i hi j hj).1, Pi.zero_apply, sub_zero]

theorem reduceColumns_sized (h : s.reduced.Sized n n) : s.reduceColumns.Sized n n := by
  refine ⟨(List.length_map _).trans h.rows, fun r hr => ?_⟩
  obtain ⟨r', hr', rfl⟩ := List.mem_map.mp hr
  rw [List.length_mapIdx, h.row r' hr']

theorem exists_get_of_mem_column {a : Matrix ℚ} {m : ℕ} (h : a.Sized m n) {y : ℚ}
    (hy : y ∈ a.column j) : ∃ i < m, a.get i j = y := by
  obtain ⟨r, hr, rfl⟩ := List.mem_map.mp hy
  obtain ⟨i, hi, rfl⟩ := List.getElem_of_mem hr
  refine ⟨i, h.rows ▸ hi, ?_⟩
  rw [Matrix.get, Matrix.row, List.getD_eq_getElem _ _ hi]

theorem reduceColumns_spec (h : s.reduced.Sized n n) (hs : s.size = n) (hj : j < n) :
    ∃ y, (∃ i < n, s.reduced.get i j = y) ∧
      ∀ i < n, s.reduceColumns.get i j = s.reduced.get i j - y ∧ y ≤ s.reduced.get i j := by
  obtain ⟨y, hy⟩ : ∃ y, s.reduced.columnMinimum? j = some y := by
    apply Option.ne_none_iff_exists'.mp
    rw [ne_eq, Matrix.columnMinimum?, Scalar.least?_eq_none, ← List.length_eq_zero_iff,
      h.column_length]
    omega
  refine ⟨y, exists_get_of_mem_column h (Scalar.least?_eq_some hy).1,
    fun i hi => ⟨?_, (Scalar.least?_eq_some hy).2 _ (h.get_mem_column hi j)⟩⟩
  have hminimum : ((List.range s.size).map s.reduced.columnMinimum?).getD j none = some y := by
    rw [List.getD_eq_getElem _ _ (by simpa [hs] using hj), List.getElem_map, List.getElem_range,
      hy]
  have hrows : i < s.reduced.rows.length := h.rows.symm ▸ hi
  have hlength : j < s.reduced.rows[i].length := (h.row _ (List.getElem_mem hrows)).symm ▸ hj
  have hget : s.reduced.get i j = s.reduced.rows[i][j] := by
    rw [Matrix.get, Matrix.row, List.getD_eq_getElem _ _ hrows, List.getD_eq_getElem _ _ hlength]
  rw [hget, Matrix.get, reduceColumns, Matrix.row, List.getD_eq_getElem?_getD,
    List.getD_eq_getElem?_getD, List.getElem?_map, List.getElem?_eq_getElem hrows,
    Option.map_some, Option.getD_some, List.getElem?_mapIdx, List.getElem?_eq_getElem hlength,
    Option.map_some, Option.getD_some, hminimum, sub_eq_add_neg]

theorem reduceColumns_shifted (h : s.reduced.Sized n n) (hs : s.size = n) :
    Matrix.Shifted n s.reduced s.reduceColumns := by
  choose! v hv using fun j (hj : j < n) => reduceColumns_spec h hs hj
  refine ⟨0, v, fun i hi j hj => ?_⟩
  rw [((hv j hj).2 i hi).1, Pi.zero_apply, sub_zero]

theorem exists_get_reduceColumns_eq_zero (h : s.reduced.Sized n n) (hs : s.size = n) (hj : j < n) :
    ∃ i < n, s.reduceColumns.get i j = 0 := by
  obtain ⟨y, ⟨i, hi, hy⟩, hspec⟩ := reduceColumns_spec h hs hj
  exact ⟨i, hi, by rw [(hspec i hi).1, hy, sub_self]⟩

theorem shiftCosts_sized (h : s.reduced.Sized n n) (x : ℚ) : (s.shiftCosts x).Sized n n :=
  h.mapIdx fun _ _ r hr => List.length_mapIdx.trans (h.row r hr)

/-- A shift takes its value off uncovered costs and adds it where two covered lines cross. -/
theorem get_shiftCosts (h : s.reduced.Sized n n) (hs : s.size = n) (x : ℚ) (hi : i < n)
    (hj : j < n) : (s.shiftCosts x).get i j = s.reduced.get i j -
      (if s.isRowCovered i then 0 else x) + if s.isColumnCovered j then x else 0 := by
  have hlength : j < (s.reduced.row i).length := (h.row_length hi).symm ▸ hj
  rw [Matrix.get, shiftCosts, h.row_mapIdx _ hi, List.getD_eq_getElem _ _ (by simpa using hlength),
    List.getElem_mapIdx, if_neg (by simp [hs, hi, hj]), Matrix.get,
    List.getD_eq_getElem _ _ hlength]
  cases s.isRowCovered i <;> cases s.isColumnCovered j <;> simp

theorem shiftCosts_shifted (h : s.reduced.Sized n n) (hs : s.size = n) (x : ℚ) :
    Matrix.Shifted n s.reduced (s.shiftCosts x) := by
  refine ⟨fun i => if s.isRowCovered i then 0 else x,
    fun j => if s.isColumnCovered j then -x else 0, fun i hi j hj => ?_⟩
  rw [get_shiftCosts h hs x hi hj]
  dsimp only
  split_ifs <;> ring

end Assignment.State

end Optima
