import Mathlib
import Optima.Proofs.Scalar
import Optima.Simplex.Tableau

namespace Optima.Simplex.Tableau

variable {C : Type}

structure Shaped (t : Tableau ℚ C) : Prop where
  rows : t.body.rows.length = t.rowCount
  row : ∀ r ∈ t.body.rows, r.length = t.columnCount
  width : t.body.columnCount = t.columnCount
  rhs : t.rhs.length = t.rowCount
  cost : t.cost.length = t.columnCount
  basicCost : t.basicCost.length = t.rowCount

def lhs (t : Tableau ℚ C) (x : ℕ → ℚ) (i : ℕ) : ℚ :=
  ∑ j ∈ Finset.range t.columnCount, t.body.get i j * x j

def Solves (t : Tableau ℚ C) (x : ℕ → ℚ) : Prop :=
  ∀ i < t.rowCount, t.lhs x i = t.rhs.getD i 0

theorem Shaped.row_length {t : Tableau ℚ C} (h : t.Shaped) {i : ℕ} (hi : i < t.rowCount) :
    (t.body.row i).length = t.columnCount := by
  have hi : i < t.body.rows.length := h.rows ▸ hi
  rw [Matrix.row, List.getD_eq_getElem _ _ hi]
  exact h.row _ (List.getElem_mem hi)

@[simp] theorem rowCount_eliminate (t : Tableau ℚ C) (row column : ℕ) :
    (t.eliminate row column).rowCount = t.rowCount := rfl

@[simp] theorem columnCount_eliminate (t : Tableau ℚ C) (row column : ℕ) :
    (t.eliminate row column).columnCount = t.columnCount := rfl

theorem get_combine (a : Matrix ℚ) (k : ℚ) {source r : List ℚ} (hs : source.length = a.columnCount)
    (hr : r.length = a.columnCount) (j : ℕ) :
    (a.combine k source r).getD j 0 = r.getD j 0 + k * source.getD j 0 := by
  rw [Matrix.combine, List.take_of_length_le hr.le, List.drop_of_length_le hr.le, List.append_nil]
  by_cases hj : j < a.columnCount
  · rw [List.getD_eq_getElem _ _ (by simpa [hs, hr] using hj),
      List.getD_eq_getElem _ _ (hr ▸ hj), List.getD_eq_getElem _ _ (hs ▸ hj), List.getElem_zipWith]
  · rw [List.getD_eq_default _ _ (by simpa [hs, hr] using hj),
      List.getD_eq_default _ _ (by omega), List.getD_eq_default _ _ (by omega)]
    ring

theorem row_eliminate {t : Tableau ℚ C} (h : t.Shaped) {row column i : ℕ} (hi : i < t.rowCount) :
    (t.eliminate row column).body.row i =
      if i = row then (t.body.row row).map (· * (1 / t.body.get row column))
      else if t.body.get i column == 0 then t.body.row i
      else t.body.combine (-t.body.get i column)
        ((t.body.row row).map (· * (1 / t.body.get row column))) (t.body.row i) := by
  have hr : i < t.body.rows.length := h.rows ▸ hi
  have hget : t.body.row i = t.body.rows[i] := by rw [Matrix.row, List.getD_eq_getElem _ _ hr]
  have hi' : ¬ t.rowCount ≤ i := not_le.mpr hi
  rw [Matrix.row, List.getD_eq_getElem _ _ (by simpa [eliminate] using hr)]
  simp only [eliminate, List.getElem_mapIdx, hi', decide_false, Bool.false_or]
  rw [show t.body.get i column = t.body.rows[i].getD column 0 by rw [← hget]; rfl, hget]

theorem get_eliminate {t : Tableau ℚ C} (h : t.Shaped) {row column i : ℕ} (hrow : row < t.rowCount)
    (hi : i < t.rowCount) (j : ℕ) :
    (t.eliminate row column).body.get i j =
      if i = row then t.body.get row j / t.body.get row column
      else t.body.get i j -
        t.body.get i column * (t.body.get row j / t.body.get row column) := by
  have hmap (k : ℚ) : ((t.body.row row).map (· * k)).getD j 0 = t.body.get row j * k := by
    rw [show (0 : ℚ) = 0 * k by rw [zero_mul], List.getD_map (f := (· * k)), Matrix.get]
  rw [Matrix.get, row_eliminate h hi]
  -- a row with a zero in the column is left alone, as subtracting nothing would leave it
  split_ifs with hrow' h0
  · rw [hmap, mul_one_div]
  · have h0 : t.body.get i column = 0 := by simpa using h0
    rw [h0, zero_mul, sub_zero, Matrix.get]
  · rw [get_combine, hmap, ← Matrix.get]
    · ring
    · rw [List.length_map, h.row_length hrow, h.width]
    · rw [h.row_length hi, h.width]

theorem rhs_eliminate {t : Tableau ℚ C} (h : t.Shaped) {row column i : ℕ} (hi : i < t.rowCount) :
    (t.eliminate row column).rhs.getD i 0 =
      if i = row then t.rhs.getD row 0 / t.body.get row column
      else t.rhs.getD i 0 -
        t.body.get i column * (t.rhs.getD row 0 / t.body.get row column) := by
  have hr : i < t.rhs.length := h.rhs ▸ hi
  have hi' : ¬ t.rowCount ≤ i := not_le.mpr hi
  rw [List.getD_eq_getElem _ _ (by simpa [eliminate] using hr), List.getD_eq_getElem _ _ hr]
  simp only [eliminate, List.getElem_mapIdx, hi', decide_false, Bool.false_or]
  split_ifs with hrow h0
  · rfl
  · have h0 : t.body.get i column = 0 := by simpa using h0
    rw [h0, zero_mul, sub_zero]
  · rfl

theorem Shaped.eliminate {t : Tableau ℚ C} (h : t.Shaped) {row : ℕ} (hrow : row < t.rowCount)
    (column : ℕ) : (t.eliminate row column).Shaped where
  rows := List.length_mapIdx.trans h.rows
  row r hr := by
    obtain ⟨i, hi, rfl⟩ := List.getElem_of_mem hr
    have hi : i < t.rowCount := by simpa [Tableau.eliminate, h.rows] using hi
    have hget := @row_eliminate _ _ h row column i hi
    rw [Matrix.row,
      List.getD_eq_getElem _ _ (by simpa [Tableau.eliminate, h.rows] using hi)] at hget
    rw [hget, columnCount_eliminate]
    split_ifs
    · rw [List.length_map, h.row_length hrow]
    · exact h.row_length hi
    · simp [Matrix.combine, h.row_length hrow, h.row_length hi, h.width]
  width := h.width
  rhs := List.length_mapIdx.trans h.rhs
  cost := h.cost
  basicCost := h.basicCost

theorem lhs_eliminate {t : Tableau ℚ C} (h : t.Shaped) {row column i : ℕ} (hrow : row < t.rowCount)
    (hi : i < t.rowCount) (x : ℕ → ℚ) :
    (t.eliminate row column).lhs x i =
      if i = row then t.lhs x row / t.body.get row column
      else t.lhs x i - t.body.get i column * (t.lhs x row / t.body.get row column) := by
  simp only [lhs, columnCount_eliminate, get_eliminate h hrow hi]
  split_ifs
  · rw [Finset.sum_div]
    exact Finset.sum_congr rfl fun j _ => by ring
  · rw [Finset.sum_div, Finset.mul_sum, ← Finset.sum_sub_distrib]
    exact Finset.sum_congr rfl fun j _ => by ring

theorem solves_eliminate {t : Tableau ℚ C} (h : t.Shaped) {row column : ℕ} (hrow : row < t.rowCount)
    (hpivot : t.body.get row column ≠ 0) (x : ℕ → ℚ) :
    (t.eliminate row column).Solves x ↔ t.Solves x := by
  -- once the row of the pivot holds, the multiples of it cancel out in the others
  have key : (∀ i < t.rowCount, (if i = row then t.lhs x row / t.body.get row column
        else t.lhs x i - t.body.get i column * (t.lhs x row / t.body.get row column)) =
      if i = row then t.rhs.getD row 0 / t.body.get row column
        else t.rhs.getD i 0 -
          t.body.get i column * (t.rhs.getD row 0 / t.body.get row column)) ↔
      ∀ i < t.rowCount, t.lhs x i = t.rhs.getD i 0 := by
    constructor
    · intro hx
      have hr : t.lhs x row = t.rhs.getD row 0 := by
        have := hx row hrow
        rwa [if_pos rfl, if_pos rfl, div_left_inj' hpivot] at this
      intro i hi
      have := hx i hi
      split_ifs at this with hir
      · exact hir ▸ hr
      · rwa [hr, sub_left_inj] at this
    · intro hx i hi
      rw [hx row hrow, hx i hi]
  rw [Solves, Solves, ← key]
  apply forall₂_congr
  intro i hi
  rw [rowCount_eliminate] at hi
  rw [lhs_eliminate h hrow hi, rhs_eliminate h hi]

end Optima.Simplex.Tableau
