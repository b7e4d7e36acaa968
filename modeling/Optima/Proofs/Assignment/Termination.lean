import Mathlib
import Optima.Proofs.Assignment.Optimality

/-!
The Hungarian method completes. An adjustment covers a row, adds a star or makes an uncovered cost
zero, and never undoes what ranks higher: stars rank above covered rows, and these above an
uncovered zero.
-/

namespace Optima.Assignment

namespace State

variable {s s₀ : State ℚ} {n i j : ℕ} {c d : Cell} {m : Marks}

section Uncovered

theorem mem_uncovered : c ∈ s.uncovered ↔ (c.row < s.size ∧ c.column < s.size) ∧
    s.isRowCovered c.row = false ∧ s.isColumnCovered c.column = false := by
  rw [uncovered, List.mem_filter, Cell.mem_table, Bool.and_eq_true, Bool.not_eq_true',
    Bool.not_eq_true']

/-- With a column without a star there is an uncovered cell. -/
theorem Covered.uncovered_ne_nil (h : s.Covered) (hl : s.Laid n) (hj : j < n)
    (hfree : ∀ i, s.marks.get ⟨i, j⟩ ≠ some .starred) : s.uncovered ≠ [] := by
  have hlt := (h.coveredRowCount_le hl).trans_lt (h.independent.length_starred_lt hl.marks hj hfree)
  -- fewer rows than there are can be covered
  obtain ⟨i, hi, hrow⟩ : ∃ i < n, s.isRowCovered i = false := by
    by_contra hall
    push Not at hall
    rw [coveredRowCount, hl.size, List.filter_eq_self.mpr fun i hi => by
      simpa using hall i (List.mem_range.mp hi), List.length_range] at hlt
    exact hlt.false
  have hcolumn : s.isColumnCovered j = false := by
    by_contra hcovered
    obtain ⟨i, hi⟩ := h.column_star j (by simpa using hcovered)
    exact hfree i hi
  exact List.ne_nil_of_mem (mem_uncovered.mpr
    ⟨⟨hl.size.symm ▸ hi, hl.size.symm ▸ hj⟩, hrow, hcolumn⟩ : (⟨i, j⟩ : Cell) ∈ s.uncovered)

theorem exists_uncoveredMinimum (h : s.uncovered ≠ []) :
    ∃ c ∈ s.uncovered, s.reduced.get c.row c.column = s.uncoveredMinimum := by
  obtain ⟨x, hx⟩ : ∃ x, Scalar.least? (s.uncovered.map fun c => s.reduced.get c.row c.column) =
      some x := by
    refine Option.ne_none_iff_exists'.mp fun hnone => h ?_
    exact List.map_eq_nil_iff.mp (Scalar.least?_eq_none.mp hnone)
  obtain ⟨c, hc, heq⟩ := List.mem_map.mp (Scalar.least?_eq_some hx).1
  exact ⟨c, hc, by rw [uncoveredMinimum, hx, heq]; rfl⟩

/-- Where no uncovered cost counts as zero, the smallest of them does not. -/
theorem tolerance_le_uncoveredMinimum (h : s.Priced n) (hs : s.size = n) (hne : s.uncovered ≠ [])
    (hz : s.uncoveredZero? = none) : Scalar.tolerance ≤ s.uncoveredMinimum := by
  obtain ⟨c, hc, heq⟩ := exists_uncoveredMinimum hne
  have hzero := List.find?_eq_none.mp hz c hc
  rwa [isZero_iff, heq, abs_of_nonneg (uncoveredMinimum_spec h hs).1, not_lt] at hzero

theorem get_shift_of_mem (h : s.reduced.Sized n n) (hs : s.size = n) (hc : c ∈ s.uncovered)
    (x : ℚ) : (s.shiftCosts x).get c.row c.column = s.reduced.get c.row c.column - x := by
  obtain ⟨⟨hi, hj⟩, hrow, hcolumn⟩ := mem_uncovered.mp hc
  rw [get_shiftCosts h hs x (hs ▸ hi) (hs ▸ hj), hrow, hcolumn]
  simp

/-- A shift makes an uncovered cost zero. -/
theorem isSome_uncoveredZero?_shift (h : s.reduced.Sized n n) (hs : s.size = n)
    (hne : s.uncovered ≠ []) :
    (s.adjust (.shift s.uncoveredMinimum)).uncoveredZero?.isSome := by
  obtain ⟨c, hc, heq⟩ := exists_uncoveredMinimum hne
  refine List.find?_isSome.mpr ⟨c, hc, isZero_iff.mpr ?_⟩
  change |(s.shiftCosts s.uncoveredMinimum).get c.row c.column| < _
  rw [get_shift_of_mem h hs hc, heq, sub_self, abs_zero]
  exact Scalar.tolerance_pos

end Uncovered

section Zeros

theorem Stars.exists_star_starIfFree (h : s.Stars n m) (hrow : c.row < n) (hcolumn : c.column < n)
    (hstar : (∃ d, m.get d = some .starred) ∨ s.isZero c = true) :
    ∃ d, (s.starIfFree m c).get d = some .starred := by
  have hget := h.toSquare.get_set hrow hcolumn (some .starred)
  unfold State.starIfFree
  split_ifs with hfree
  · exact ⟨c, by rw [hget, if_pos rfl]⟩
  · rcases hstar with hstar | hzero
    · exact hstar
    -- a zero that is not free has a star itself, or in its row or its column
    · by_contra hnone
      push Not at hnone
      refine hfree ?_
      have hmark : m.get c = none := by
        cases hc : m.get c with
        | none => rfl
        | some k =>
          cases k with
          | starred => exact absurd hc (hnone c)
          | primed => exact absurd hc (h.not_primed c)
      have hrowNone : m.inRow? .starred c.row = none :=
        Marks.inRow?_eq_none_iff.mpr fun _ => hnone _
      have hcolumnNone : m.inColumn? .starred c.column = none :=
        Marks.inColumn?_eq_none_iff.mpr fun _ => hnone _
      simp [hzero, hmark, hrowNone, hcolumnNone]

theorem Stars.exists_star_foldl (h : s.Stars n m) {cells : List Cell}
    (hcells : ∀ c ∈ cells, c.row < n ∧ c.column < n)
    (hstar : (∃ d, m.get d = some .starred) ∨ ∃ c ∈ cells, s.isZero c = true) :
    ∃ d, (cells.foldl s.starIfFree m).get d = some .starred := by
  induction cells generalizing m with
  | nil => simpa using hstar
  | cons c cells ih =>
    obtain ⟨hrow, hcolumn⟩ := hcells c List.mem_cons_self
    refine ih (h.starIfFree hrow hcolumn) (fun d hd => hcells d (List.mem_cons_of_mem c hd)) ?_
    rcases hstar with hstar | ⟨d, hd, hzero⟩
    · exact .inl (h.exists_star_starIfFree hrow hcolumn (.inl hstar))
    · rcases List.mem_cons.mp hd with rfl | hd
      · exact .inl (h.exists_star_starIfFree hrow hcolumn (.inr hzero))
      · exact .inr ⟨d, hd, hzero⟩

theorem length_starred_starZeros_pos (hs : s.size = n) (hblank : s.marks = Marks.blank n)
    (hrow : c.row < n) (hcolumn : c.column < n) (hzero : s.isZero c = true) :
    0 < s.starZeros.starred.length := by
  have hstars := stars_starZeros hs hblank
  have hexists : ∃ d, s.starZeros.get d = some .starred := by
    rw [starZeros, hblank, hs]
    exact (stars_blank s n).exists_star_foldl (fun c hc => Cell.mem_table.mp hc)
      (.inr ⟨c, Cell.mem_table.mpr ⟨hrow, hcolumn⟩, hzero⟩)
  obtain ⟨d, hd⟩ := hexists
  exact List.length_pos_of_mem ((Marks.mem_starred hstars.toSquare).mpr hd)

end Zeros

section Rank

/-- Stars, covered rows and an uncovered zero, weighed so that a star more makes up for all covered
rows, and a covered row for an uncovered zero. -/
def potential (s : State ℚ) : ℕ :=
  s.marks.starred.length * s.marks.starred.length + s.marks.starred.length +
    2 * s.coveredRowCount + if s.uncoveredZero?.isSome then 1 else 0

def stepsLeft (n : ℕ) (s : State ℚ) : ℕ :=
  match s.phase with
  | .reduceRows => n * n + n + 2
  | .reduceColumns => n * n + n + 1
  | .coverZeros => n * n + n
  | .adjustMatrix => n * n + n + 1 - s.potential
  | .findAssignment => 1
  | .complete => 0

theorem potential_add_two_le (hl : s.Laid n) (h : s.Covered) (hj : j < n)
    (hfree : ∀ i, s.marks.get ⟨i, j⟩ ≠ some .starred) : s.potential + 2 ≤ n * n + n + 1 := by
  have hrows := h.coveredRowCount_le hl
  have hlt := h.independent.length_starred_lt hl.marks hj hfree
  have hsquare : (s.marks.starred.length + 1) * (s.marks.starred.length + 1) ≤ n * n :=
    Nat.mul_le_mul hlt hlt
  have hexpand : (s.marks.starred.length + 1) * (s.marks.starred.length + 1) =
      s.marks.starred.length * s.marks.starred.length + 2 * s.marks.starred.length + 1 := by ring
  unfold potential
  split_ifs <;> omega

theorem potential_cover (hl : s.Laid n) (h : s.Covered) (hz : s.uncoveredZero? = some c) (k : ℕ) :
    s.potential < (s.adjust (.cover c k)).potential := by
  obtain ⟨hrow, hcolumn, hrowCovered, hcolumnCovered, -⟩ := uncoveredZero?_eq_some hz
  rw [hl.size] at hrow hcolumn
  have hstars : (s.adjust (.cover c k)).marks.starred.length = s.marks.starred.length :=
    length_starred_primed hl hrow hcolumn (h.get_eq_none hrowCovered hcolumnCovered)
  have hrows := coveredRowCount_cover hl hrow hrowCovered k
  rw [potential, potential, hstars, hz, Option.isSome_some, if_pos rfl]
  omega

theorem potential_augment (hl : s.Laid n) (h : s.Covered) (hz : s.uncoveredZero? = some c)
    {path : List Cell} (hpath : Augmenting (s.primed c) c path) :
    s.potential < (s.adjust (.augment c (c :: path))).potential := by
  obtain ⟨hrow, hcolumn, hrowCovered, hcolumnCovered, -⟩ := uncoveredZero?_eq_some hz
  rw [hl.size] at hrow hcolumn
  have hstars : (s.adjust (.augment c (c :: path))).marks.starred.length =
      s.marks.starred.length + 1 := by
    rw [← length_starred_primed hl hrow hcolumn (h.get_eq_none hrowCovered hcolumnCovered)]
    exact hpath.length_starred (hl.marks.set c _)
  have hrows := h.coveredRowCount_le hl
  have hexpand : (s.marks.starred.length + 1) * (s.marks.starred.length + 1) =
      s.marks.starred.length * s.marks.starred.length + 2 * s.marks.starred.length + 1 := by ring
  rw [potential, potential, hstars, hz, Option.isSome_some, if_pos rfl]
  omega

theorem potential_shift (hl : s.Laid n) (hsized : s.reduced.Sized n n) (hne : s.uncovered ≠ [])
    (hz : s.uncoveredZero? = none) :
    s.potential < (s.adjust (.shift s.uncoveredMinimum)).potential := by
  have hstars : (s.adjust (.shift s.uncoveredMinimum)).marks.starred.length =
    s.marks.starred.length := rfl
  have hrows : (s.adjust (.shift s.uncoveredMinimum)).coveredRowCount = s.coveredRowCount := rfl
  rw [potential, potential, hstars, hrows, hz,
    if_pos (isSome_uncoveredZero?_shift hsized hl.size hne)]
  simp

/-- An adjustment fills all columns with stars or raises the potential. -/
theorem Fits.potential_lt (h : Fits n s₀ s) (hphase : s.phase = .adjustMatrix) :
    (s.adjust s.adjustment).phase = .findAssignment ∨
      (s.adjust s.adjustment).phase = .adjustMatrix ∧
        s.potential < (s.adjust s.adjustment).potential := by
  have hfits := h.phase
  rw [PhaseFits, hphase] at hfits
  obtain ⟨-, hcovered, j, hj, hfree⟩ := hfits
  have hl := h.toLaid
  have hadjustment := adjustmentFits s
  cases hadj : s.adjustment with
  | cover c k =>
    rw [hadj] at hadjustment
    exact .inr ⟨hphase, potential_cover hl hcovered hadjustment.1 k⟩
  | augment c path =>
    rw [hadj] at hadjustment
    obtain ⟨hz, hnone, rfl⟩ := hadjustment
    obtain ⟨path, heq, hpath⟩ := hcovered.augmenting hl hz hnone
    have hphase' : (s.adjust (.augment c (c :: path))).phase =
        if (s.adjust (.augment c (c :: path))).coveredColumnCount = s.size then .findAssignment
        else s.phase := rfl
    rw [heq, hphase']
    split_ifs
    · exact .inl rfl
    · exact .inr ⟨hphase, potential_augment hl hcovered hz hpath⟩
  | shift x =>
    rw [hadj] at hadjustment
    obtain ⟨hz, rfl⟩ := hadjustment
    exact .inr ⟨hphase, potential_shift hl h.sized (hcovered.uncovered_ne_nil hl hj hfree) hz⟩

/-- There is a zero to star when it is time to. -/
def Ready (n : ℕ) (s : State ℚ) : Prop :=
  s.phase = .coverZeros → ∃ c : Cell, (c.row < n ∧ c.column < n) ∧ s.isZero c = true

theorem starAndCover_phase (s : State ℚ) :
    s.starAndCover.phase = .findAssignment ∨ s.starAndCover.phase = .adjustMatrix :=
  ite_eq_or_eq _ _ _

theorem Fits.ready_work (h : Fits n s₀ s) (hn : 0 < n) : Ready n s.work := by
  have hnot {t : State ℚ} (ht : t.phase ≠ .coverZeros) : Ready n t := fun hphase => absurd hphase ht
  unfold State.work
  cases hphase : s.phase with
  | reduceRows => exact hnot nofun
  | reduceColumns =>
    intro _
    obtain ⟨i, hi, hzero⟩ := exists_get_reduceColumns_eq_zero h.sized h.toLaid.size hn
    refine ⟨⟨i, 0⟩, ⟨hi, hn⟩, isZero_iff.mpr ?_⟩
    change |s.reduceColumns.get i 0| < _
    rw [hzero, abs_zero]
    exact Scalar.tolerance_pos
  | coverZeros =>
    rcases s.starAndCover_phase with heq | heq
    all_goals exact hnot (by simp [heq])
  | adjustMatrix =>
    rcases h.potential_lt hphase with heq | ⟨heq, -⟩
    all_goals exact hnot (by simp [heq])
  | findAssignment => exact hnot nofun
  | complete => exact hnot (by simp)

/-- Every step leaves fewer steps to take. -/
theorem Fits.stepsLeft_work (h : Fits n s₀ s) (hready : Ready n s) (hn : 0 < n)
    (hrunning : s.progress ≠ .complete) : s.work.stepsLeft n < s.stepsLeft n := by
  unfold State.work
  rw [stepsLeft.eq_def n s]
  cases hphase : s.phase with
  | reduceRows => exact Nat.lt_succ_self _
  | reduceColumns => exact Nat.lt_succ_self _
  | coverZeros =>
    have hblank := h.phase
    rw [PhaseFits, hphase] at hblank
    obtain ⟨c, ⟨hrow, hcolumn⟩, hzero⟩ := hready hphase
    have hpos := length_starred_starZeros_pos h.toLaid.size hblank.1 hrow hcolumn hzero
    have hmarks : s.starAndCover.marks.starred.length = s.starZeros.starred.length := rfl
    rcases s.starAndCover_phase with heq | heq
    · simp only [stepsLeft, heq]
      nlinarith
    · have hsquare := Nat.mul_pos hpos hpos
      simp only [stepsLeft, heq, potential, hmarks]
      omega
  | adjustMatrix =>
    have hfits := h.phase
    rw [PhaseFits, hphase] at hfits
    obtain ⟨-, hcovered, j, hj, hfree⟩ := hfits
    have hle := potential_add_two_le h.toLaid hcovered hj hfree
    rcases h.potential_lt hphase with heq | ⟨heq, hlt⟩
    · simp only [stepsLeft, heq]
      omega
    · simp only [stepsLeft, heq]
      omega
  | findAssignment => exact Nat.one_pos
  | complete => exact absurd (h.progress.mpr hphase) hrunning

end Rank

end State

open State

variable {p : AssignmentProblem ℚ} {s s₀ : State ℚ} {n : ℕ}

/-- Every step but the last keeps what is needed and leaves fewer steps to take. -/
theorem stepsLeft_next (h : Fits n s₀ s) (hready : Ready n s) (hn : 0 < n)
    (hs : s.progress ≠ .complete) :
    (Fits n s₀ s.next ∧ Ready n s.next) ∧ s.next.stepsLeft n < s.stepsLeft n := by
  refine ⟨⟨h.next, ?_⟩, ?_⟩
  · rw [State.next, if_neg hs]
    exact (h.running hs).ready_work hn
  · rw [State.next, if_neg hs]
    exact (h.running hs).stepsLeft_work hready hn (by simp)

theorem next_eq_shift (hs : s.progress ≠ .complete) (hphase : s.phase = .adjustMatrix)
    (hz : s.uncoveredZero? = none) :
    s.next = ({ s with step := s.step + 1, progress := .running } : State ℚ).adjust
      (.shift s.uncoveredMinimum) := by
  have hadjustment : s.adjustment = .shift s.uncoveredMinimum := by
    unfold State.adjustment
    split
    · rfl
    · next c hc => exact nomatch hz.symm.trans hc
  rw [next_eq_adjust hs hphase, hadjustment]

theorem phase_of_start (hstart : start p = .ok s₀) : s₀.phase = .reduceRows := by
  rw [(fits_start hstart).2.1]
  rfl

theorem exists_after_complete (hstart : start p = .ok s₀) :
    ∃ k ≤ p.size * p.size + p.size + 2, ∃ t, Solver.after k s₀ = .ok t ∧
      t.progress = .complete := by
  obtain ⟨hp, -, hfits₀⟩ := fits_start hstart
  have hn := (AssignmentProblem.rows_of_fault? hp).1
  have hphase₀ := phase_of_start hstart
  have hstep (u : State ℚ) (hu : Fits p.size s₀ u ∧ Ready p.size u) : u.progress = .complete ∨
      ∃ v, Solver.step u = .ok v ∧ (Fits p.size s₀ v ∧ Ready p.size v) ∧
        v.stepsLeft p.size < u.stepsLeft p.size := by
    by_cases hcomplete : u.progress = .complete
    · exact .inl hcomplete
    · exact .inr ⟨u.next, rfl, stepsLeft_next hu.1 hu.2 hn hcomplete⟩
  have hready₀ : Ready p.size s₀ := fun h => nomatch hphase₀.symm.trans h
  obtain ⟨k, hk, t, hafter, -, hcomplete⟩ :=
    Solver.exists_after_of_rank (State.stepsLeft p.size) hstep ⟨hfits₀, hready₀⟩
  rw [State.stepsLeft, hphase₀] at hk
  exact ⟨k, hk, t, hafter, hcomplete⟩

/-- A run of the Hungarian method completes within as many steps as there are cells and rows, and
two more, and no step fails. Whenever the costs are adjusted some cell is uncovered, and a shift
takes at least the tolerance off the uncovered costs and leaves an uncovered zero to the next
step. -/
theorem completes_of_start (hstart : start p = .ok s₀) :
    (∃ k ≤ p.size * p.size + p.size + 2, ∃ t, Solver.after k s₀ = .ok t ∧
      t.progress = .complete) ∧
    ∀ s, Solver.Reaches s₀ s → ∃ t, Solver.step s = .ok t ∧
      (s.phase = .adjustMatrix → s.uncovered ≠ [] ∧
        (s.uncoveredZero? = none → ∃ x, Scalar.tolerance ≤ x ∧ t.minUncovered = some x ∧
          (∀ c ∈ s.uncovered,
            t.reduced.get c.row c.column = s.reduced.get c.row c.column - x) ∧
          t.phase = .adjustMatrix ∧ t.uncoveredZero?.isSome)) := by
  refine ⟨exists_after_complete hstart, fun s hrun => ?_⟩
  have hfits := fits_of_reaches hstart hrun
  refine ⟨s.next, rfl, fun hphase => ?_⟩
  have hs : s.progress ≠ .complete := fun h => nomatch hphase.symm.trans (hfits.progress.mp h)
  have hl := hfits.toLaid
  have hadjust := hfits.phase
  rw [PhaseFits, hphase] at hadjust
  obtain ⟨hpriced, hcovered, j, hj, hfree⟩ := hadjust
  have hne := hcovered.uncovered_ne_nil hl hj hfree
  refine ⟨hne, fun hz => ⟨s.uncoveredMinimum,
    tolerance_le_uncoveredMinimum hpriced hl.size hne hz, ?_⟩⟩
  rw [next_eq_shift hs hphase hz]
  exact ⟨rfl, fun c hc => get_shift_of_mem hfits.sized hl.size hc _, hphase,
    isSome_uncoveredZero?_shift hfits.sized hl.size hne⟩

/-- The fourth state after the first one has no uncovered zero, and its step takes two off the
uncovered costs. -/
theorem rota_completes : ∃ s₀ : State ℚ, start rota = .ok s₀ ∧
    (∃ k ≤ 14, ∃ t, Solver.after k s₀ = .ok t ∧ t.progress = .complete) ∧
    ∃ s t, Solver.after 4 s₀ = .ok s ∧ s.phase = .adjustMatrix ∧ s.uncoveredZero? = none ∧
      Solver.step s = .ok t ∧ (∀ c ∈ s.uncovered,
        t.reduced.get c.row c.column = s.reduced.get c.row c.column - 2) ∧
      t.phase = .adjustMatrix ∧ t.uncoveredZero?.isSome := by
  obtain ⟨s₀, s, hstart, hs, hphase, hz, hmin⟩ :=
    Solver.exists_after_of_any (e := start rota) (n := 4)
      (P := fun s => s.phase = .adjustMatrix ∧ s.uncoveredZero? = none ∧
        s.next.minUncovered = some (2 : ℚ)) (by decide +kernel)
  obtain ⟨hend, hsteps⟩ := completes_of_start hstart
  obtain ⟨t, ht, hadjust⟩ := hsteps s (Solver.reaches_of_after hs)
  obtain ⟨-, hshift⟩ := hadjust hphase
  obtain ⟨x, -, hx, hcosts, hphase', hz'⟩ := hshift hz
  have hnext : s.next = t := Except.ok.inj ht
  rw [hnext, hx, Option.some.injEq] at hmin
  subst hmin
  exact ⟨s₀, hstart, hend, s, t, hs, hphase, hz, ht, hcosts, hphase', hz'⟩

end Optima.Assignment
