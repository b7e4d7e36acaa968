import Mathlib
import Optima.Proofs.BigM
import Optima.Proofs.Lists
import Optima.Proofs.Simplex.Rows

namespace Optima.Simplex.Tableau

attribute [ext] Matrix Tableau

instance : DecidableEq (Matrix ℚ) := fun _ _ => decidable_of_iff _ Matrix.ext_iff.symm

instance : DecidableEq (Tableau ℚ (BigM ℚ)) := fun _ _ => decidable_of_iff _ Tableau.ext_iff.symm

/-- The basic columns are unit columns, and all costs are computed from the rows. -/
structure Canonical (t : Tableau ℚ (BigM ℚ)) : Prop extends Shaped t where
  basis_lt : ∀ i < t.rowCount, t.basis.getD i 0 < t.columnCount
  unit : ∀ i < t.rowCount, ∀ k < t.rowCount,
    t.body.get i (t.basis.getD k 0) = if i = k then 1 else 0
  basicCost_eq : ∀ i < t.rowCount, t.basicCost.getD i 0 = t.cost.getD (t.basis.getD i 0) 0
  priced : t.price = t

def costAt (t : Tableau ℚ (BigM ℚ)) (x : ℕ → ℚ) : BigM ℚ :=
  ∑ j ∈ Finset.range t.columnCount, x j • t.cost.getD j 0

/-- The given amounts on the basic columns, and zero on all others. -/
def spread (t : Tableau ℚ (BigM ℚ)) (b : ℕ → ℚ) (j : ℕ) : ℚ :=
  match t.basis.idxOf? j with
  | some i => b i
  | none => 0

variable {t : Tableau ℚ (BigM ℚ)}

theorem value_eq_spread (t : Tableau ℚ (BigM ℚ)) : t.value = t.spread (t.rhs.getD · 0) := rfl

theorem spread_of_not_mem {b : ℕ → ℚ} {j : ℕ} (hj : j ∉ t.basis) : t.spread b j = 0 := by
  rw [spread, List.idxOf?_eq_none_iff.mpr hj]

theorem spread_induction {P : ℚ → Prop} {b : ℕ → ℚ} (h0 : P 0) (hb : ∀ i < t.rowCount, P (b i))
    (j : ℕ) : P (t.spread b j) := by
  unfold spread
  split
  · next i hi => exact hb i (List.idxOf?_eq_some_iff.mp hi).1
  · exact h0

namespace Shaped

theorem basicTotal_eq (h : t.Shaped) {amounts : List ℚ} (ha : amounts.length = t.rowCount) :
    t.basicTotal amounts =
      ∑ i ∈ Finset.range t.rowCount, amounts.getD i 0 • t.basicCost.getD i 0 := by
  rw [basicTotal, BigM.sum_eq, sum_zipWith_eq_range Cost.scale h.basicCost ha 0 0]
  rfl

theorem column_getD (h : t.Shaped) {i : ℕ} (hi : i < t.rowCount) (j : ℕ) :
    (t.body.column j).getD i 0 = t.body.get i j := by
  have hi : i < t.body.rows.length := h.rows ▸ hi
  rw [Matrix.column, List.getD_eq_getElem _ _ (by simpa using hi), List.getElem_map, Matrix.get,
    Matrix.row, List.getD_eq_getElem _ _ hi]

theorem column_length (h : t.Shaped) (j : ℕ) : (t.body.column j).length = t.rowCount := by
  rw [Matrix.column, List.length_map, h.rows]

theorem price (h : t.Shaped) : t.price.Shaped :=
  ⟨h.rows, h.row, h.width, h.rhs, h.cost, h.basicCost⟩

theorem snap (h : t.Shaped) : t.snap.Shaped where
  rows := List.length_map _ |>.trans h.rows
  row r hr := by
    obtain ⟨s, hs, rfl⟩ := List.mem_map.mp hr
    rw [List.length_map]
    exact h.row s hs
  width := h.width
  rhs := List.length_map _ |>.trans h.rhs
  cost := h.cost
  basicCost := h.basicCost

theorem enter (h : t.Shaped) (row column : ℕ) : (t.enter row column).Shaped where
  rows := h.rows.trans List.length_set.symm
  row := h.row
  width := h.width
  rhs := h.rhs.trans List.length_set.symm
  cost := h.cost
  basicCost := List.length_set.trans (h.basicCost.trans List.length_set.symm)

end Shaped

theorem get_snap (t : Tableau ℚ (BigM ℚ)) (i j : ℕ) :
    t.snap.body.get i j = Scalar.snap (t.body.get i j) := by
  change ((t.body.map Scalar.snap).row i).getD j 0 = Scalar.snap ((t.body.row i).getD j 0)
  rw [Matrix.row_map, ← List.getD_map (f := Scalar.snap), Scalar.snap_zero]

theorem rowCount_enter (t : Tableau ℚ (BigM ℚ)) (row column : ℕ) :
    (t.enter row column).rowCount = t.rowCount := List.length_set

theorem basis_enter (t : Tableau ℚ (BigM ℚ)) {row : ℕ} (column : ℕ) {i : ℕ} (hi : i < t.rowCount) :
    (t.enter row column).basis.getD i 0 = if i = row then column else t.basis.getD i 0 := by
  have hi : i < t.basis.length := hi
  rw [enter, List.getD_eq_getElem _ _ (by simpa using hi), List.getElem_set,
    List.getD_eq_getElem _ _ hi]
  simp only [eq_comm]

theorem basicCost_enter (h : t.Shaped) {row : ℕ} (column : ℕ) {i : ℕ} (hi : i < t.rowCount) :
    (t.enter row column).basicCost.getD i 0 =
      if i = row then t.cost.getD column 0 else t.basicCost.getD i 0 := by
  have hi : i < t.basicCost.length := h.basicCost ▸ hi
  rw [enter, List.getD_eq_getElem _ _ (by simpa using hi), List.getElem_set,
    List.getD_eq_getElem _ _ hi]
  simp only [eq_comm]
  rfl

namespace Canonical

theorem basis_injective (h : t.Canonical) {i k : ℕ} (hi : i < t.rowCount) (hk : k < t.rowCount)
    (hik : t.basis.getD i 0 = t.basis.getD k 0) : i = k := by
  by_contra hne
  have hu := h.unit i hi k hk
  rw [← hik, h.unit i hi i hi, if_pos rfl, if_neg hne] at hu
  exact one_ne_zero hu

theorem basicCost_eq_map (h : t.Canonical) :
    t.basicCost = t.basis.map fun j => t.cost.getD j 0 := by
  apply List.ext_getElem (h.basicCost.trans (List.length_map _).symm)
  intro i hi hi'
  rw [List.length_map] at hi'
  have hcost := h.basicCost_eq i hi'
  rw [List.getD_eq_getElem _ _ hi, List.getD_eq_getElem _ _ hi'] at hcost
  rw [hcost, List.getElem_map]

theorem basis_nodup (h : t.Canonical) : t.basis.Nodup := by
  rw [List.nodup_iff_injective_get]
  intro i k hik
  rw [List.get_eq_getElem, List.get_eq_getElem, ← List.getD_eq_getElem _ 0,
    ← List.getD_eq_getElem _ 0] at hik
  exact Fin.ext (h.basis_injective i.2 k.2 hik)

theorem objectiveValue_eq (h : t.Canonical) : t.objectiveValue =
    ∑ i ∈ Finset.range t.rowCount, t.rhs.getD i 0 • t.basicCost.getD i 0 := by
  rw [← h.basicTotal_eq h.rhs]
  exact (congrArg objectiveValue h.priced).symm

theorem relativeCost_length (h : t.Canonical) : t.relativeCost.length = t.columnCount := by
  rw [← h.priced, price, List.length_map, List.length_range]
  rfl

theorem relativeCost_eq (h : t.Canonical) {j : ℕ} (hj : j < t.columnCount) :
    t.relativeCost.getD j 0 =
      (∑ i ∈ Finset.range t.rowCount, t.body.get i j • t.basicCost.getD i 0) -
        t.cost.getD j 0 := by
  have hlist : t.relativeCost = (List.range t.columnCount).map fun j =>
      Cost.sub (t.basicTotal (t.body.column j)) (t.cost.getD j Cost.zero) :=
    (congrArg relativeCost h.priced).symm
  rw [hlist, List.getD_eq_getElem _ _ (by simpa using hj), List.getElem_map, List.getElem_range,
    h.basicTotal_eq (h.column_length j)]
  change _ - _ = _ - _
  congr 1
  exact Finset.sum_congr rfl fun i hi => by rw [h.column_getD (Finset.mem_range.mp hi)]

/-- A basic column is never worth bringing in: its relative cost is zero. -/
theorem relativeCost_basis (h : t.Canonical) {k : ℕ} (hk : k < t.rowCount) :
    t.relativeCost.getD (t.basis.getD k 0) 0 = 0 := by
  rw [h.relativeCost_eq (h.basis_lt k hk), ← h.basicCost_eq k hk, sub_eq_zero]
  calc
    _ = ∑ i ∈ Finset.range t.rowCount, if i = k then t.basicCost.getD i 0 else 0 :=
      Finset.sum_congr rfl fun i hi => by
        rw [h.unit i (Finset.mem_range.mp hi) k hk, ite_smul, one_smul, zero_smul]
    _ = _ := by rw [Finset.sum_ite_eq', if_pos (Finset.mem_range.mpr hk)]

theorem spread_basis (h : t.Canonical) (b : ℕ → ℚ) {i : ℕ} (hi : i < t.rowCount) :
    t.spread b (t.basis.getD i 0) = b i := by
  have hi' : i < t.basis.length := hi
  have hmem : t.basis.getD i 0 ∈ t.basis := by
    rw [List.getD_eq_getElem _ _ hi']
    exact List.getElem_mem hi'
  obtain ⟨k, hk⟩ := Option.isSome_iff_exists.mp (List.isSome_idxOf?.mpr hmem)
  obtain ⟨hlt, hget, -⟩ := List.idxOf?_eq_some_iff.mp hk
  have hki : k = i := h.basis_injective hlt hi (by rw [List.getD_eq_getElem _ _ hlt, hget])
  rw [spread, hk, hki]

/-- A sum over the columns of what is spread over the basic ones is a sum over the rows. -/
theorem sum_spread_smul {M : Type} [AddCommGroup M] [Module ℚ M] (h : t.Canonical) (b : ℕ → ℚ)
    (f : ℕ → M) : ∑ j ∈ Finset.range t.columnCount, t.spread b j • f j =
      ∑ i ∈ Finset.range t.rowCount, b i • f (t.basis.getD i 0) := by
  -- columns that are not basic carry nothing, and no column is basic in two rows
  calc
    _ = ∑ j ∈ (Finset.range t.rowCount).image (t.basis.getD · 0), t.spread b j • f j := by
      symm
      apply Finset.sum_subset
      · intro j hj
        obtain ⟨i, hi, rfl⟩ := Finset.mem_image.mp hj
        exact Finset.mem_range.mpr (h.basis_lt i (Finset.mem_range.mp hi))
      · intro j _ hj
        rw [spread_of_not_mem, zero_smul]
        intro hmem
        obtain ⟨i, hi, rfl⟩ := List.getElem_of_mem hmem
        exact hj (Finset.mem_image.mpr ⟨i, Finset.mem_range.mpr hi, List.getD_eq_getElem _ _ hi⟩)
    _ = ∑ i ∈ Finset.range t.rowCount, t.spread b (t.basis.getD i 0) • f (t.basis.getD i 0) :=
      Finset.sum_image fun i hi k hk hik =>
        h.basis_injective (Finset.mem_range.mp hi) (Finset.mem_range.mp hk) hik
    _ = _ := Finset.sum_congr rfl fun i hi => by rw [h.spread_basis b (Finset.mem_range.mp hi)]

theorem lhs_spread (h : t.Canonical) (b : ℕ → ℚ) {i : ℕ} (hi : i < t.rowCount) :
    t.lhs (t.spread b) i = b i := by
  have hsum := h.sum_spread_smul b (t.body.get i)
  simp only [smul_eq_mul] at hsum
  rw [lhs, Finset.sum_congr rfl fun j _ => mul_comm _ _, hsum]
  calc
    _ = ∑ k ∈ Finset.range t.rowCount, if i = k then b k else 0 :=
      Finset.sum_congr rfl fun k hk => by
        rw [h.unit i hi k (Finset.mem_range.mp hk), mul_ite, mul_one, mul_zero]
    _ = _ := by rw [Finset.sum_ite_eq, if_pos (Finset.mem_range.mpr hi)]

theorem costAt_spread (h : t.Canonical) (b : ℕ → ℚ) :
    t.costAt (t.spread b) = ∑ i ∈ Finset.range t.rowCount, b i • t.basicCost.getD i 0 := by
  rw [costAt, h.sum_spread_smul b fun j => t.cost.getD j 0]
  exact Finset.sum_congr rfl fun i hi => by rw [h.basicCost_eq i (Finset.mem_range.mp hi)]

/-- The basic columns at their right sides and all others at zero solve the rows. -/
theorem solves_value (h : t.Canonical) : t.Solves t.value := fun _ hi => h.lhs_spread _ hi

theorem costAt_value (h : t.Canonical) : t.costAt t.value = t.objectiveValue :=
  (h.costAt_spread _).trans h.objectiveValue_eq.symm

/-- Moving along a column costs its own cost less what it takes out of the basic columns. -/
theorem sum_smul_relativeCost (h : t.Canonical) (x : ℕ → ℚ) :
    ∑ j ∈ Finset.range t.columnCount, x j • t.relativeCost.getD j 0 =
      (∑ i ∈ Finset.range t.rowCount, t.lhs x i • t.basicCost.getD i 0) - t.costAt x := by
  calc
    _ = ∑ j ∈ Finset.range t.columnCount,
        ((∑ i ∈ Finset.range t.rowCount, (t.body.get i j * x j) • t.basicCost.getD i 0) -
          x j • t.cost.getD j 0) := by
      apply Finset.sum_congr rfl
      intro j hj
      rw [h.relativeCost_eq (Finset.mem_range.mp hj), smul_sub, Finset.smul_sum]
      congr 1
      exact Finset.sum_congr rfl fun i _ => by rw [smul_smul, mul_comm]
    _ = _ := by
      rw [Finset.sum_sub_distrib, Finset.sum_comm, ← costAt]
      congr 1
      exact Finset.sum_congr rfl fun i _ => by rw [lhs, Finset.sum_smul]

/-- What a solution of the rows costs, read off the relative costs. -/
theorem costAt_eq (h : t.Canonical) {x : ℕ → ℚ} (hx : t.Solves x) :
    t.costAt x = t.objectiveValue -
      ∑ j ∈ Finset.range t.columnCount, x j • t.relativeCost.getD j 0 := by
  rw [h.sum_smul_relativeCost, h.objectiveValue_eq, sub_sub_eq_add_sub, eq_sub_iff_add_eq,
    add_comm, add_left_inj]
  exact Finset.sum_congr rfl fun i hi => by rw [hx i (Finset.mem_range.mp hi)]

end Canonical

theorem price_price (t : Tableau ℚ (BigM ℚ)) : t.price.price = t.price := rfl

/-- A pivot that has nothing to snap keeps the solutions of the rows. -/
theorem solves_pivot (h : t.Shaped) {row column : ℕ} (hrow : row < t.rowCount)
    (hpivot : t.body.get row column ≠ 0)
    (hsnap : (t.eliminate row column).snap = t.eliminate row column) (x : ℕ → ℚ) :
    (t.pivot row column).Solves x ↔ t.Solves x := by
  rw [← solves_eliminate h hrow hpivot x, pivot, hsnap]
  unfold Solves
  rw [show ((t.eliminate row column).enter row column).price.rowCount =
    (t.eliminate row column).rowCount from rowCount_enter _ row column]
  rfl

/-- Elimination makes the entering column a unit column and keeps the other basic ones. -/
theorem Canonical.unit_eliminate (h : t.Canonical) {row column : ℕ} (hrow : row < t.rowCount)
    (hne : t.body.get row column ≠ 0) {i k : ℕ} (hi : i < t.rowCount) (hk : k < t.rowCount) :
    (t.eliminate row column).body.get i (if k = row then column else t.basis.getD k 0) =
      if i = k then 1 else 0 := by
  rw [get_eliminate h.toShaped hrow hi]
  by_cases hk' : k = row
  · rw [if_pos hk', div_self hne, hk', mul_one, sub_self]
  · simp only [if_neg hk', h.unit row hrow k hk, if_neg (Ne.symm hk'), zero_div, mul_zero,
      sub_zero, h.unit i hi k hk]
    split_ifs with h1 h2
    · exact absurd (h2.symm.trans h1) hk'
    · rfl
    · rfl
    · rfl

/-- Bringing a column into the basis at a coefficient above the tolerance keeps the form. -/
theorem Canonical.pivot (h : t.Canonical) {row column : ℕ} (hrow : row < t.rowCount)
    (hcolumn : column < t.columnCount) (hpivot : Scalar.tolerance < t.body.get row column) :
    (t.pivot row column).Canonical := by
  have hne : t.body.get row column ≠ 0 := (Scalar.tolerance_pos.trans hpivot).ne'
  have helim : (t.eliminate row column).Shaped := h.toShaped.eliminate hrow column
  have hcount : (t.pivot row column).rowCount = t.rowCount :=
    rowCount_enter ((t.eliminate row column).snap) row column
  refine ⟨((helim.snap).enter row column).price, ?_, ?_, ?_, price_price _⟩
  · intro i hi
    rw [hcount] at hi
    change ((t.eliminate row column).snap.enter row column).basis.getD i 0 < _
    rw [basis_enter (t.eliminate row column).snap column hi]
    split_ifs
    · exact hcolumn
    · exact h.basis_lt i hi
  · intro i hi k hk
    rw [hcount] at hi hk
    change (t.eliminate row column).snap.body.get i
      (((t.eliminate row column).snap.enter row column).basis.getD k 0) = _
    rw [basis_enter (t.eliminate row column).snap column hk, get_snap]
    change Scalar.snap ((t.eliminate row column).body.get i
      (if k = row then column else t.basis.getD k 0)) = _
    rw [h.unit_eliminate hrow hne hi hk]
    -- the snap leaves the entries of unit columns alone
    split_ifs
    · exact Scalar.snap_one
    · exact Scalar.snap_zero
  · intro i hi
    rw [hcount] at hi
    change ((t.eliminate row column).snap.enter row column).basicCost.getD i 0 =
      t.cost.getD (((t.eliminate row column).snap.enter row column).basis.getD i 0) 0
    rw [basicCost_enter helim.snap _ hi, basis_enter (t.eliminate row column).snap column hi]
    split_ifs
    · rfl
    · exact h.basicCost_eq i hi

end Optima.Simplex.Tableau
