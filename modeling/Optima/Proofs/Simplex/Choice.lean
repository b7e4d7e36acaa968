import Mathlib
import Optima.Proofs.Linear.Feasible
import Optima.Proofs.Simplex.Canonical
import Optima.Simplex.Step

namespace Optima.Simplex

/-- The ratio found is nonnegative, and so is none that is smaller. -/
theorem Tableau.smallestRatio?_eq_some {ratios : List (Option ℚ)} {i : ℕ} {r : ℚ}
    (h : smallestRatio? ratios = some (i, r)) :
    ratios[i]? = some (some r) ∧ 0 ≤ r ∧
      ∀ (k : ℕ) (q : ℚ), ratios[k]? = some (some q) → 0 ≤ q → r ≤ q := by
  have hmem := mem_of_firstBest? h
  have hle (k : ℕ) (q : ℚ) (hk : ratios[k]? = some (some q)) (hq : 0 ≤ q) : r ≤ q := by
    refine le_of_firstBest? Prod.snd (fun a b => decide_eq_true_iff) h (x := (k, q)) ?_
    exact List.mem_filterMap.mpr
      ⟨(some q, k), List.mk_mem_zipIdx_iff_getElem?.mpr hk, by simp [hq]⟩
  obtain ⟨⟨_ | q, k⟩, hk, hq⟩ := List.mem_filterMap.mp hmem
  · simp at hq
  · rw [List.mk_mem_zipIdx_iff_getElem?] at hk
    dsimp only at hq
    split_ifs at hq with h0
    obtain ⟨rfl, rfl⟩ := Prod.mk.inj (Option.some.inj hq)
    exact ⟨hk, h0, hle⟩

namespace Tableau

variable {t : Tableau ℚ (BigM ℚ)} {rule : PivotRule}

/-- Every number of a tableau is zero or larger than the tolerance. -/
structure Separated (t : Tableau ℚ (BigM ℚ)) : Prop where
  body : ∀ r ∈ t.body.rows, ∀ a ∈ r, Scalar.IsClear a
  rhs : ∀ b ∈ t.rhs, Scalar.IsClear b
  relativeCost : ∀ c ∈ t.relativeCost, c.IsClear

instance : Decidable t.Separated :=
  decidable_of_iff ((∀ r ∈ t.body.rows, ∀ a ∈ r, Scalar.IsClear a) ∧
    (∀ b ∈ t.rhs, Scalar.IsClear b) ∧ ∀ c ∈ t.relativeCost, c.IsClear)
    ⟨fun h => ⟨h.1, h.2.1, h.2.2⟩, fun h => ⟨h.body, h.rhs, h.relativeCost⟩⟩

namespace Separated

theorem get (h : t.Separated) (i j : ℕ) : Scalar.IsClear (t.body.get i j) := by
  exact entry_of_forall_mem h.body (fun hzero => absurd rfl hzero) i j

theorem rhs_getD (h : t.Separated) (i : ℕ) : Scalar.IsClear (t.rhs.getD i 0) := by
  exact getD_of_forall_mem h.rhs (fun hzero => absurd rfl hzero) i

theorem tolerance_lt (h : t.Separated) {i j : ℕ} (hpos : 0 < t.body.get i j) :
    Scalar.tolerance < t.body.get i j :=
  (h.get i j).tolerance_lt hpos

theorem snap_eq (h : t.Separated) : t.snap = t := by
  have hrow (r : List ℚ) (hr : ∀ a ∈ r, Scalar.IsClear a) : r.map Scalar.snap = r :=
    (List.map_congr_left fun a ha => (hr a ha).snap_eq).trans (List.map_id' r)
  have hrows : t.body.rows.map (·.map Scalar.snap) = t.body.rows :=
    (List.map_congr_left fun r hr => hrow r (h.body r hr)).trans (List.map_id' _)
  have hrhs : t.rhs.map Scalar.snap = t.rhs := hrow t.rhs h.rhs
  rw [snap, Matrix.map, hrows, hrhs]

end Separated

theorem improves_of_entering? {j : ℕ} (h : t.entering? rule = some j) :
    ∃ c, t.relativeCost[j]? = some c ∧ t.goal.improves c = true := by
  cases rule with
  | firstProfitable =>
    obtain ⟨hj, himp, -⟩ := List.findIdx?_eq_some_iff_getElem.mp h
    exact ⟨_, List.getElem?_eq_getElem hj, himp⟩
  | largestCoefficient =>
    obtain ⟨⟨c, k⟩, hbest, rfl⟩ := Option.map_eq_some_iff.mp h
    obtain ⟨hbest, himp⟩ := Option.filter_eq_some_iff.mp hbest
    exact ⟨c, List.mk_mem_zipIdx_iff_getElem?.mp (mem_of_firstBest? hbest), himp⟩

theorem lt_columnCount_of_entering? (h : t.Canonical) {j : ℕ} (he : t.entering? rule = some j) :
    j < t.columnCount := by
  obtain ⟨c, hc, -⟩ := improves_of_entering? he
  rw [← h.relativeCost_length]
  exact (List.getElem?_eq_some_iff.mp hc).1

theorem direction_smul_neg_of_entering? (hs : t.Separated) {j : ℕ} (h : t.entering? rule = some j) :
    t.goal.direction • t.relativeCost.getD j 0 < 0 := by
  obtain ⟨c, hc, himp⟩ := improves_of_entering? h
  rw [List.getD_eq_getElem?_getD, hc]
  exact (Goal.improves_iff (hs.relativeCost c (List.mem_of_getElem? hc))).mp himp

/-- The first profitable column comes after columns that do not improve the objective only. -/
theorem nonneg_of_lt_entering? (hs : t.Separated) {j k : ℕ}
    (h : t.entering? .firstProfitable = some j) (hk : k < j) :
    0 ≤ t.goal.direction • t.relativeCost.getD k 0 := by
  obtain ⟨hj, -, hbefore⟩ := List.findIdx?_eq_some_iff_getElem.mp h
  rw [List.getD_eq_getElem _ _ (hk.trans hj), ← not_lt,
    ← Goal.improves_iff (hs.relativeCost _ (List.getElem_mem _))]
  exact hbefore k hk

/-- The best relative cost that the largest coefficient tests, and its column. -/
theorem best_of_firstBest? {best : BigM ℚ × ℕ}
    (h : firstBest? (fun a b => t.goal.prefers a.1 b.1) t.relativeCost.zipIdx = some best) :
    t.relativeCost[best.2]? = some best.1 ∧
      ∀ d ∈ t.relativeCost, t.goal.direction • best.1 ≤ t.goal.direction • d := by
  refine ⟨List.mk_mem_zipIdx_iff_getElem?.mp (mem_of_firstBest? h), fun d hd => ?_⟩
  obtain ⟨i, hi, rfl⟩ := List.getElem_of_mem hd
  exact le_of_firstBest? (fun a : BigM ℚ × ℕ => t.goal.direction • a.1)
    (fun a b => Goal.prefers_iff) h
    (List.mk_mem_zipIdx_iff_getElem?.mpr (List.getElem?_eq_getElem hi))

/-- The largest coefficient is the best of all relative costs. -/
theorem best_of_entering? {j : ℕ} (h : t.entering? .largestCoefficient = some j)
    {c : BigM ℚ} (hc : t.relativeCost[j]? = some c) :
    ∀ d ∈ t.relativeCost, t.goal.direction • c ≤ t.goal.direction • d := by
  obtain ⟨⟨b, k⟩, hbest, rfl⟩ := Option.map_eq_some_iff.mp h
  obtain ⟨hbest, -⟩ := Option.filter_eq_some_iff.mp hbest
  obtain ⟨hb, hle⟩ := best_of_firstBest? hbest
  obtain rfl := Option.some.inj (hb.symm.trans hc)
  exact hle

/-- Without an entering column no relative cost improves the objective. -/
theorem nonneg_of_entering?_eq_none (hs : t.Separated) (h : t.entering? rule = none) :
    ∀ c ∈ t.relativeCost, 0 ≤ t.goal.direction • c := by
  intro c hc
  cases rule with
  | firstProfitable =>
    have himp := List.findIdx?_eq_none_iff.mp h c hc
    rw [← not_lt, ← Goal.improves_iff (hs.relativeCost c hc), himp]
    exact Bool.false_ne_true
  | largestCoefficient =>
    obtain ⟨i, hi, rfl⟩ := List.getElem_of_mem hc
    have hmem : (t.relativeCost[i], i) ∈ t.relativeCost.zipIdx :=
      List.mk_mem_zipIdx_iff_getElem?.mpr (List.getElem?_eq_getElem hi)
    cases hbest : firstBest? (fun a b => t.goal.prefers a.1 b.1) t.relativeCost.zipIdx with
    | none =>
      rw [firstBest?_eq_none_iff.mp hbest] at hmem
      simp at hmem
    | some b =>
      -- the best of all was turned down, and no other is better
      have himp : t.goal.improves b.1 = false := by
        simpa [entering?, hbest, Option.filter_eq_none_iff] using h
      have hb : b.1 ∈ t.relativeCost :=
        List.mem_of_getElem? (List.mk_mem_zipIdx_iff_getElem?.mp (mem_of_firstBest? hbest))
      have h0 : 0 ≤ t.goal.direction • b.1 := by
        rw [← not_lt, ← Goal.improves_iff (hs.relativeCost _ hb), himp]
        exact Bool.false_ne_true
      exact h0.trans (le_of_firstBest? (fun a : BigM ℚ × ℕ => t.goal.direction • a.1)
        (fun a b => Goal.prefers_iff) hbest hmem)

theorem ratios_getElem? (h : t.Shaped) (column : ℕ) {i : ℕ} (hi : i < t.rowCount) :
    (t.ratios column)[i]? = some (if Scalar.tolerance < t.body.get i column then
      some (Scalar.snap (t.rhs.getD i 0) / t.body.get i column) else none) := by
  have hcol : i < (t.body.column column).length := (h.column_length column).symm ▸ hi
  have hrhs : i < t.rhs.length := h.rhs.symm ▸ hi
  rw [← h.column_getD hi, List.getD_eq_getElem _ _ hcol, List.getD_eq_getElem _ _ hrhs, ratios,
    List.getElem?_zipWith, List.getElem?_eq_getElem hcol, List.getElem?_eq_getElem hrhs]

theorem ratios_length (h : t.Shaped) (column : ℕ) : (t.ratios column).length = t.rowCount := by
  rw [ratios, List.length_zipWith, h.column_length, h.rhs, min_self]

/-- The row of the smallest ratio has a coefficient above the tolerance. -/
theorem tolerance_lt_of_smallestRatio? (h : t.Shaped) {column row : ℕ} {r : ℚ}
    (hr : smallestRatio? (t.ratios column) = some (row, r)) :
    row < t.rowCount ∧ Scalar.tolerance < t.body.get row column ∧
      r = Scalar.snap (t.rhs.getD row 0) / t.body.get row column := by
  obtain ⟨hget, -, -⟩ := smallestRatio?_eq_some hr
  have hrow : row < t.rowCount := by
    rw [← ratios_length h column]
    exact (List.getElem?_eq_some_iff.mp hget).1
  rw [ratios_getElem? h column hrow, Option.some.injEq] at hget
  split_ifs at hget with hlt
  exact ⟨hrow, hlt, (Option.some.inj hget).symm⟩

theorem le_tolerance_of_isNone (h : t.Shaped) {column : ℕ}
    (hall : (t.ratios column).all Option.isNone = true) {i : ℕ} (hi : i < t.rowCount) :
    t.body.get i column ≤ Scalar.tolerance := by
  have hnone := List.all_eq_true.mp hall _ (List.mem_of_getElem? (ratios_getElem? h column hi))
  by_contra hlt
  rw [if_pos (not_le.mp hlt)] at hnone
  simp at hnone

/-- Where neither the right side of the pivot row nor an entry of the column is passed over for the
tolerance, the smallest ratio lets no right side become negative. -/
theorem rhs_eliminate_nonneg (h : t.Shaped) (hrhs : ∀ i < t.rowCount, 0 ≤ t.rhs.getD i 0)
    {column row : ℕ} {r : ℚ} (hr : smallestRatio? (t.ratios column) = some (row, r))
    (hclear : Scalar.IsClear (t.rhs.getD row 0)) {i : ℕ} (hi : i < t.rowCount)
    (hentry : Scalar.IsClear (t.body.get i column)) :
    0 ≤ (t.eliminate row column).rhs.getD i 0 := by
  obtain ⟨hrow, hpivot, hval⟩ := tolerance_lt_of_smallestRatio? h hr
  have hpos := Scalar.tolerance_pos.trans hpivot
  have h0 : 0 ≤ t.rhs.getD row 0 / t.body.get row column := div_nonneg (hrhs row hrow) hpos.le
  rw [hclear.snap_eq] at hval
  rw [rhs_eliminate h hi, ← hval]
  split_ifs with hir
  · exact hval ▸ h0
  · rw [← hval] at h0
    rcases le_or_gt (t.body.get i column) 0 with hle | hgt
    · linarith [mul_nonpos_of_nonpos_of_nonneg hle h0, hrhs i hi]
    · -- the row takes part in the test, with no more than its right side
      have hge := (smallestRatio?_eq_some hr).2.2 i _ ((ratios_getElem? h column hi).trans
        (by rw [if_pos (hentry.tolerance_lt hgt)]))
        (div_nonneg (Scalar.snap_nonneg (hrhs i hi)) hgt.le)
      rw [le_div_iff₀ hgt] at hge
      linarith [Scalar.snap_le (hrhs i hi)]

end Tableau

end Optima.Simplex
