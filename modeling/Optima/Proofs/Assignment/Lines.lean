import Mathlib
import Optima.Proofs.Assignment.Optimality

namespace Optima

theorem count_true_eq (flags : List Bool) :
    flags.count true = ((List.range flags.length).filter (flags.getD · false)).length := by
  have hflags : flags = (List.range flags.length).map (flags.getD · false) := by
    apply List.ext_getElem
    · simp
    · intro i hi _
      rw [List.getElem_map, List.getElem_range, List.getD_eq_getElem _ _ hi]
  conv_lhs => rw [hflags, List.count, List.countP_map, List.countP_eq_length_filter]
  congr 1
  apply List.filter_congr
  intro i _
  exact beq_true _

/-- As many cells lie in covered lines as there are such lines, if none lies in the line of another
and every covered line has one. -/
theorem length_filter_line {cells : List Cell} {line : Cell → ℕ} {covered : List Bool}
    (hnodup : (cells.map line).Nodup) (hlt : ∀ c ∈ cells, line c < covered.length)
    (hcovered : ∀ i, covered.getD i false = true → ∃ c ∈ cells, line c = i) :
    (cells.filter fun c => covered.getD (line c) false).length = covered.count true := by
  rw [count_true_eq, ← List.length_map line]
  apply List.Perm.length_eq
  apply (List.perm_ext_iff_of_nodup (hnodup.sublist (List.filter_sublist.map line))
    (List.nodup_range.filter _)).mpr
  intro i
  rw [List.mem_map, List.mem_filter, List.mem_range]
  constructor
  · rintro ⟨c, hc, rfl⟩
    obtain ⟨hmem, hset⟩ := List.mem_filter.mp hc
    exact ⟨hlt c hmem, hset⟩
  · rintro ⟨-, hi⟩
    obtain ⟨c, hc, rfl⟩ := hcovered i hi
    exact ⟨c, List.mem_filter.mpr ⟨hc, hi⟩, rfl⟩

namespace Assignment

variable {p : AssignmentProblem ℚ} {s s₀ : State ℚ} {n : ℕ} {c : Cell}

namespace State

def RowsPrimed (s : State ℚ) : Prop :=
  ∀ i, s.isRowCovered i = true → ∃ j, s.marks.get ⟨i, j⟩ = some .primed

section Primes

theorem rowsPrimed_coverStars (s : State ℚ) : s.coverStars.RowsPrimed := by
  intro i hi
  rw [isRowCovered_coverStars] at hi
  exact absurd hi Bool.false_ne_true

theorem RowsPrimed.congr (h : s.RowsPrimed) {t : State ℚ} (hm : t.marks = s.marks)
    (hr : t.coveredRows = s.coveredRows) : t.RowsPrimed := by
  intro i hi
  rw [isRowCovered, hr] at hi
  rw [hm]
  exact h i hi

theorem RowsPrimed.cover (h : s.RowsPrimed) (hl : s.Laid n) (hz : s.uncoveredZero? = some c)
    (k : ℕ) : (s.adjust (.cover c k)).RowsPrimed := by
  obtain ⟨hrow, hcolumn, -⟩ := uncoveredZero?_eq_some hz
  rw [hl.size] at hrow hcolumn
  have hprime := primed_primed_iff hl hrow hcolumn
  intro i hi
  rw [isRowCovered_cover hl hrow] at hi
  split_ifs at hi with hic
  · exact ⟨c.column, (hprime _).mpr (.inl (by rw [hic]))⟩
  · obtain ⟨j, hj⟩ := h i hi
    exact ⟨j, (hprime _).mpr (.inr hj)⟩

theorem RowsPrimed.adjust (h : s.RowsPrimed) (hl : s.Laid n) :
    (s.adjust s.adjustment).RowsPrimed := by
  have hadjustment := adjustmentFits s
  cases hadj : s.adjustment with
  | cover c k =>
    rw [hadj] at hadjustment
    exact h.cover hl hadjustment.1 k
  | augment c path =>
    exact (rowsPrimed_coverStars { s with marks := (s.primed c).augment path }).congr rfl rfl
  | shift x => exact h.congr rfl rfl

theorem RowsPrimed.work (hl : s.Laid n) (h : s.phase = .adjustMatrix → s.RowsPrimed)
    (hnext : s.work.phase = .adjustMatrix) : s.work.RowsPrimed := by
  unfold State.work at hnext ⊢
  cases hphase : s.phase with
  | adjustMatrix => exact (h hphase).adjust hl
  | coverZeros => exact (rowsPrimed_coverStars { s with marks := s.starZeros }).congr rfl rfl
  | reduceRows | reduceColumns | findAssignment | complete =>
    -- these phases lead to others
    simp [hphase, assign] at hnext

/-- A step that leaves costs to be adjusted leaves every covered row with a prime. -/
theorem RowsPrimed.next (hl : s.Laid n) (h : s.phase = .adjustMatrix → s.RowsPrimed)
    (hnext : s.next.phase = .adjustMatrix) : s.next.RowsPrimed := by
  unfold State.next at hnext ⊢
  split_ifs at hnext ⊢ with hcomplete
  · exact h hnext
  · have hrunning : Laid { s with step := s.step + 1, progress := .running } n :=
      ⟨hl.marks, hl.rows, hl.columns⟩
    exact RowsPrimed.work hrunning (fun hphase => (h hphase).congr rfl rfl) hnext

end Primes

section Counting

variable (h : s.Covered) (hl : s.Laid n)
include h hl

theorem Covered.length_starred_rows :
    (s.marks.starred.filter fun c => s.isRowCovered c.row).length = s.coveredRows.count true := by
  apply length_filter_line (h.independent.nodup_rows hl.marks)
  · intro c hc
    rw [hl.rows]
    exact (hl.marks.lt_of_get ((Marks.mem_starred hl.marks).mp hc)).1
  · intro i hi
    obtain ⟨j, hj⟩ := h.row_star i hi
    exact ⟨⟨i, j⟩, (Marks.mem_starred hl.marks).mpr hj, rfl⟩

theorem Covered.length_starred_columns :
    (s.marks.starred.filter fun c => s.isColumnCovered c.column).length =
      s.coveredColumns.count true := by
  apply length_filter_line (h.independent.nodup_columns hl.marks)
  · intro c hc
    rw [hl.columns]
    exact (hl.marks.lt_of_get ((Marks.mem_starred hl.marks).mp hc)).2
  · intro j hj
    obtain ⟨i, hi⟩ := h.column_star j hj
    exact ⟨⟨i, j⟩, (Marks.mem_starred hl.marks).mpr hi, rfl⟩

/-- Every star lies in one covered line, and every covered line has one star. -/
theorem Covered.count_covered :
    s.coveredRows.count true + s.coveredColumns.count true = s.marks.starred.length := by
  have hcolumns : (s.marks.starred.filter fun c => s.isColumnCovered c.column) =
      s.marks.starred.filter fun c => !s.isRowCovered c.row := by
    apply List.filter_congr
    intro c hc
    rw [h.star c ((Marks.mem_starred hl.marks).mp hc), Bool.not_not]
  rw [← h.length_starred_rows hl, ← h.length_starred_columns hl, hcolumns]
  exact (List.length_eq_length_filter_add _).symm

end Counting

/-- How covered lines, stars and primes go together while costs are adjusted. -/
structure LinesFit (s : State ℚ) (n : ℕ) : Prop where
  count : s.coveredRows.count true + s.coveredColumns.count true = s.marks.starred.length
  count_lt : s.marks.starred.length < n
  star : ∀ c, s.marks.get c = some .starred →
    Xor (s.isRowCovered c.row = true) (s.isColumnCovered c.column = true)
  column : ∀ j, s.isColumnCovered j = true → ∃ i, s.marks.get ⟨i, j⟩ = some .starred
  row_star : ∀ i, s.isRowCovered i = true → ∃! j, s.marks.get ⟨i, j⟩ = some .starred
  row_prime : ∀ i, s.isRowCovered i = true → ∃! j, s.marks.get ⟨i, j⟩ = some .primed
  prime : ∀ c, s.marks.get c = some .primed →
    s.isRowCovered c.row = true ∧ s.isColumnCovered c.column = false

structure CostsFit (s : State ℚ) (n : ℕ) (s₀ : State ℚ) : Prop where
  nonneg : ∀ i < n, ∀ j < n, 0 ≤ s.reduced.get i j
  shifted : ∃ u v : ℕ → ℚ, ∀ i < n, ∀ j < n, s.reduced.get i j = s₀.reduced.get i j - u i - v j
  mark : ∀ c, s.marks.get c ≠ none → s.reduced.get c.row c.column < Scalar.tolerance

theorem Covered.linesFit (h : s.Covered) (hl : s.Laid n) (hprimed : s.RowsPrimed) {j : ℕ}
    (hj : j < n) (hfree : ∀ i, s.marks.get ⟨i, j⟩ ≠ some .starred) : s.LinesFit n where
  count := h.count_covered hl
  count_lt := h.independent.length_starred_lt hl.marks hj hfree
  star c hc := by
    rw [h.star c hc]
    cases s.isColumnCovered c.column <;> simp [Xor]
  column := h.column_star
  row_star i hi := by
    obtain ⟨k, hk⟩ := h.row_star i hi
    exact ⟨k, hk, fun l hl => h.independent.row i l k hl hk⟩
  row_prime i hi := by
    obtain ⟨k, hk⟩ := hprimed i hi
    exact ⟨k, hk, fun l hl => h.singlePrimes i l k hl hk⟩
  prime := h.prime

theorem Fits.independent (h : Fits n s₀ s) : s.marks.Independent := by
  have hfits := h.phase
  rw [PhaseFits] at hfits
  split at hfits
  · exact hfits ▸ (stars_blank s n).independent
  · exact hfits ▸ (stars_blank s n).independent
  · exact hfits.1 ▸ (stars_blank s n).independent
  · exact hfits.2.1.independent
  · exact hfits.2.independent
  · exact hfits.2.1.independent

theorem Fits.priced (h : Fits n s₀ s) (hrows : s.phase ≠ .reduceRows)
    (hcolumns : s.phase ≠ .reduceColumns) : s.Priced n := by
  have hfits := h.phase
  rw [PhaseFits] at hfits
  split at hfits
  · next hphase => exact absurd hphase hrows
  · next hphase => exact absurd hphase hcolumns
  · exact hfits.2
  · exact hfits.1
  · exact hfits.1
  · exact hfits.1

theorem Fits.full (h : Fits n s₀ s) (hphase : s.phase = .findAssignment ∨ s.phase = .complete) :
    s.Full n := by
  have hfits := h.phase
  rw [PhaseFits] at hfits
  rcases hphase with hphase | hphase
  all_goals
    rw [hphase] at hfits
  · exact hfits.2
  · exact hfits.2.1

end State

open State

theorem rowsPrimed_of_reaches (hstart : start p = .ok s₀) (hrun : Solver.Reaches s₀ s)
    (hphase : s.phase = .adjustMatrix) : s.RowsPrimed := by
  have hfits₀ := (fits_start hstart).2.2
  have hphase₀ : s₀.phase = .reduceRows := by
    rw [(fits_start hstart).2.1]
    rfl
  refine (hrun.invariant
    (P := fun s => Fits p.size s₀ s ∧ (s.phase = .adjustMatrix → s.RowsPrimed)) ?_ ?_).2 hphase
  · exact ⟨hfits₀, fun h => nomatch hphase₀.symm.trans h⟩
  · rintro u v ⟨hu, hprimed⟩ huv
    obtain rfl := Except.ok.inj huv
    exact ⟨hu.next, RowsPrimed.next hu.toLaid hprimed⟩

/-- In every state that a run of the Hungarian method reaches, no two stars share a line. While
costs are adjusted, the covered lines are as many as the stars and fewer than the rows; each of them
has a star, which lies in no other, and the primes are those of the covered rows, one each, outside
covered columns. From the first cover on no reduced cost is negative, all of them differ from the
first costs by amounts of rows and columns, and those of marked cells count as zero. When the
assignment is due, there is a star for every row. -/
theorem linesFit_of_reaches (hstart : start p = .ok s₀) (hrun : Solver.Reaches s₀ s) :
    s.Laid p.size ∧ s.reduced.Sized p.size p.size ∧ s.marks.Independent ∧
      (s.phase = .adjustMatrix → s.LinesFit p.size) ∧
      (s.phase ≠ .reduceRows → s.phase ≠ .reduceColumns → s.CostsFit p.size s₀) ∧
      (s.phase = .findAssignment ∨ s.phase = .complete →
        s.marks.starred.length = p.size) := by
  have hfits := fits_of_reaches hstart hrun
  have hl := hfits.toLaid
  refine ⟨hl, hfits.sized, hfits.independent, fun hphase => ?_, fun hrows hcolumns => ?_,
    fun hphase => ?_⟩
  · have hadjust := hfits.phase
    rw [PhaseFits, hphase] at hadjust
    obtain ⟨-, hcovered, j, hj, hfree⟩ := hadjust
    exact hcovered.linesFit hl (rowsPrimed_of_reaches hstart hrun hphase) hj hfree
  · have hpriced := hfits.priced hrows hcolumns
    refine ⟨hpriced.nonneg, hfits.shifted, fun c hc => ?_⟩
    exact (le_abs_self _).trans_lt (isZero_iff.mp (hpriced.zero c hc))
  · exact (perfect_of_full hl.marks (hfits.full hphase)).length

/-- Two rows are covered in the sixth state after the first one, and the seventh has all stars. -/
theorem rota_linesFit : ∃ s₀ s t : State ℚ, start rota = .ok s₀ ∧ Solver.after 6 s₀ = .ok s ∧
    Solver.after 7 s₀ = .ok t ∧ s.coveredRows = [true, false, true] ∧ s.LinesFit 3 ∧
    s.CostsFit 3 s₀ ∧ t.marks.starred.length = 3 := by
  obtain ⟨s₀, s, hstart, hs, hphase, hrows⟩ :=
    Solver.exists_after_of_any (e := start rota) (n := 6)
      (P := fun s => s.phase = .adjustMatrix ∧ s.coveredRows = [true, false, true])
      (by decide +kernel)
  obtain ⟨s', t, hstart', ht, hdue⟩ :=
    Solver.exists_after_of_any (e := start rota) (n := 7)
      (P := fun t => t.phase = .findAssignment) (by decide +kernel)
  obtain rfl := Except.ok.inj (hstart.symm.trans hstart')
  obtain ⟨-, -, -, hlines, hcosts, -⟩ :=
    linesFit_of_reaches hstart (Solver.reaches_of_after hs)
  obtain ⟨-, -, -, -, -, hstars⟩ := linesFit_of_reaches hstart (Solver.reaches_of_after ht)
  exact ⟨s₀, s, t, hstart, hs, ht, hrows, hlines hphase,
    hcosts (by simp [hphase]) (by simp [hphase]), hstars (.inl hdue)⟩

end Assignment

end Optima
