import Mathlib
import Optima.Proofs.Assignment.Optimality

namespace Optima.Assignment

variable {F : Type} [Scalar F] {s : State F} {n : ℕ} {c : Cell}

namespace State

section Outline

/-- An exact state with the same marks, covered lines and zeros. -/
def outline (s : State F) : State ℚ where
  problem := ⟨[], [], [], false⟩
  reduced := .ofFn s.size s.size fun i j => if s.isZero ⟨i, j⟩ then 0 else 1
  costs := .zeros s.size s.size
  assignments := s.assignments
  totalCost := 0
  step := s.step
  progress := s.progress
  explanation := s.explanation
  coveredRows := s.coveredRows
  coveredColumns := s.coveredColumns
  marks := s.marks
  minUncovered := none
  phase := s.phase

theorem isZero_outline (hrow : c.row < s.size) (hcolumn : c.column < s.size) :
    s.outline.isZero c = s.isZero c := by
  have hget : s.outline.reduced.get c.row c.column = if s.isZero c then 0 else 1 :=
    Matrix.get_ofFn hrow hcolumn
  rw [Bool.eq_iff_iff, isZero_iff, hget]
  cases s.isZero c with
  | true => simp [Scalar.tolerance_pos]
  | false => norm_num [Scalar.tolerance]

theorem uncoveredZero?_outline (s : State F) : s.outline.uncoveredZero? = s.uncoveredZero? := by
  apply List.find?_congr
  intro d hd
  obtain ⟨hrow, hcolumn⟩ := Cell.mem_table.mp (List.mem_filter.mp hd).1
  exact isZero_outline hrow hcolumn

theorem starZeros_outline (s : State F) : s.outline.starZeros = s.starZeros := by
  apply List.foldl_ext
  intro m d hd
  obtain ⟨hrow, hcolumn⟩ := Cell.mem_table.mp hd
  rw [starIfFree, isZero_outline (s := s) hrow hcolumn, starIfFree]

end Outline

structure Marked (s : State F) (n : ℕ) : Prop where
  laid : s.outline.Laid n
  progress : s.progress = .complete → s.phase = .complete
  blank : s.phase = .reduceRows ∨ s.phase = .reduceColumns ∨ s.phase = .coverZeros →
    s.marks = Marks.blank n
  covered : s.phase = .adjustMatrix → s.outline.Covered

/-- With every star in one covered line the costs are adjusted or the assignment is due. -/
theorem marked_of_covered (hl : s.outline.Laid n) (hcovered : s.outline.Covered)
    (hrunning : s.progress ≠ .complete)
    (hphase : s.phase = .adjustMatrix ∨ s.phase = .findAssignment) : s.Marked n where
  laid := hl
  progress h := absurd h hrunning
  blank h := by rcases hphase with hphase | hphase <;> simp [hphase] at h
  covered _ := hcovered

theorem marked_of_stars (hn : s.marks.Square n) (hstars : s.marks.Independent)
    (hprimes : ∀ d, s.marks.get d ≠ some .primed)
    (hrows : s.coveredRows = s.coverStars.coveredRows)
    (hcolumns : s.coveredColumns = s.coverStars.coveredColumns) (hrunning : s.progress ≠ .complete)
    (hphase : s.phase = .adjustMatrix ∨ s.phase = .findAssignment) : s.Marked n :=
  marked_of_covered (laid_coverStars (s := s.outline) hn hrows hcolumns)
    ((covered_coverStars (s := s.outline) hn hstars hprimes).congr rfl hrows hcolumns) hrunning
    hphase

section Augment

variable (h : s.Marked n) (hphase : s.phase = .adjustMatrix) (hz : s.uncoveredZero? = some c)
include h hphase hz

theorem Marked.get_zero : c.row < n ∧ c.column < n ∧ s.outline.marks.get c = none := by
  rw [← uncoveredZero?_outline] at hz
  obtain ⟨hrow, hcolumn, hrowCovered, hcolumnCovered, -⟩ := uncoveredZero?_eq_some hz
  rw [h.laid.size] at hrow hcolumn
  exact ⟨hrow, hcolumn, (h.covered hphase).get_eq_none hrowCovered hcolumnCovered⟩

theorem Marked.starred_primed (d : Cell) :
    (s.primed c).get d = some .starred ↔ s.marks.get d = some .starred := by
  obtain ⟨hrow, hcolumn, hnone⟩ := h.get_zero hphase hz
  exact starred_primed_iff h.laid hrow hcolumn hnone d

/-- Without a star in its row the zero starts a path that can be flipped. -/
theorem Marked.augmenting (hnone : (s.primed c).inRow? .starred c.row = none) :
    ∃ path, s.augmentingPath c = c :: path ∧ Augmenting (s.primed c) c path :=
  (h.covered hphase).augmenting h.laid ((uncoveredZero?_outline s).trans hz) hnone

theorem Marked.exists_adjustment (hfree : ∀ j, s.marks.get ⟨c.row, j⟩ ≠ some .starred) :
    ∃ path, s.adjustment = .augment c (c :: path) ∧ Augmenting (s.primed c) c path := by
  have hnone : (s.primed c).inRow? .starred c.row = none :=
    Marks.inRow?_eq_none_iff.mpr fun j => mt (h.starred_primed hphase hz _).mp (hfree j)
  obtain ⟨path, heq, hpath⟩ := h.augmenting hphase hz hnone
  refine ⟨path, ?_, hpath⟩
  rw [adjustment, hz]
  dsimp only
  rw [hnone, heq]

end Augment

variable [Numeral F]

theorem Marked.adjust (h : s.Marked n) (hphase : s.phase = .adjustMatrix)
    (hrunning : s.progress ≠ .complete) : (s.adjust s.adjustment).Marked n := by
  have hl := h.laid
  have hcovered : s.outline.Covered := h.covered hphase
  have hadjustment := adjustmentFits s
  cases hadj : s.adjustment with
  | cover c k =>
    rw [hadj] at hadjustment
    obtain ⟨hz, hk⟩ := hadjustment
    rw [← uncoveredZero?_outline] at hz
    exact marked_of_covered ⟨hl.marks.set c _, List.length_set.trans hl.rows,
      List.length_set.trans hl.columns⟩ ((hcovered.cover hl hz hk).congr rfl rfl rfl) hrunning
      (.inl hphase)
  | augment c path =>
    rw [hadj] at hadjustment
    obtain ⟨hz, hnone, rfl⟩ := hadjustment
    obtain ⟨path, heq, hpath⟩ := h.augmenting hphase hz hnone
    have hsquare : (s.primed c).Square n := hl.marks.set c _
    rw [heq]
    exact marked_of_stars (hpath.square hsquare) (hpath.independent_augment hsquare)
      (hpath.get_ne_primed hsquare) rfl rfl hrunning
      ((ite_eq_or_eq _ _ _).symm.imp_left fun hsame => hsame.trans hphase)
  | shift x =>
    exact marked_of_covered ⟨hl.marks, hl.rows, hl.columns⟩ (hcovered.congr rfl rfl rfl) hrunning
      (.inl hphase)

theorem Marked.work (h : s.Marked n) (hrunning : s.progress ≠ .complete) : s.work.Marked n := by
  have hl : s.outline.Laid n := h.laid
  unfold State.work
  cases hphase : s.phase with
  | reduceRows =>
    exact ⟨⟨hl.marks, hl.rows, hl.columns⟩, fun hc => absurd hc hrunning,
      fun _ => h.blank (.inl hphase), nofun⟩
  | reduceColumns =>
    exact ⟨⟨hl.marks, hl.rows, hl.columns⟩, fun hc => absurd hc hrunning,
      fun _ => h.blank (.inr (.inl hphase)), nofun⟩
  | coverZeros =>
    have hstars := stars_starZeros hl.size (h.blank (.inr (.inr hphase)))
    rw [starZeros_outline] at hstars
    exact marked_of_stars hstars.toSquare hstars.independent hstars.not_primed rfl rfl hrunning
      (ite_eq_or_eq _ _ _).symm
  | adjustMatrix => exact h.adjust hphase hrunning
  | findAssignment => exact ⟨⟨hl.marks, hl.rows, hl.columns⟩, fun _ => rfl, nofun, nofun⟩
  | complete => exact ⟨⟨hl.marks, hl.rows, hl.columns⟩, fun _ => rfl, nofun, nofun⟩

theorem Marked.next (h : s.Marked n) : s.next.Marked n := by
  rw [State.next]
  split_ifs with hcomplete
  · exact h
  · have hl := h.laid
    have hrunning : Progress.running ≠ .complete := by simp
    exact Marked.work ⟨⟨hl.marks, hl.rows, hl.columns⟩, fun hc => absurd hc hrunning, h.blank,
      fun hphase => (h.covered hphase).congr rfl rfl rfl⟩ hrunning

end State

open State

theorem marked_of_reaches [Numeral F] {p : AssignmentProblem F} {s₀ : State F}
    (hstart : start p = .ok s₀) (hrun : Solver.Reaches s₀ s) :
    s.Marked p.balance.rowCount := by
  apply hrun.invariant
  · unfold start at hstart
    split at hstart
    · exact nomatch hstart
    · obtain rfl := Except.ok.inj hstart
      exact ⟨⟨Marks.square_blank _, List.length_replicate, List.length_replicate⟩, nofun,
        fun _ => rfl, nofun⟩
  · intro u v hu huv
    obtain rfl := Except.ok.inj huv
    exact hu.next

/-- The search for the path of a prime ends by itself: no bound beyond the size of the table makes
it longer, every star on it has a prime in its row, and the last prime is in a column without a
star. Primes and stars take turns, and no cell is met twice. -/
structure SearchEnds (m : Marks) (n : ℕ) (c : Cell) (path : List Cell) : Prop where
  search_eq : ∀ k, n < k → c :: alternating m k c.column = path
  exists_prime : ∀ d ∈ path, m.get d = some .starred → (m.inRow? .primed d.row).isSome
  last : ∃ d, path.getLast? = some d ∧ m.get d = some .primed ∧ m.inColumn? .starred d.column = none
  odd : Odd path.length
  nodup : path.Nodup
  mark : ∀ k d, path[k]? = some d → m.get d = some (if k % 2 = 0 then .primed else .starred)

/-- Marks with a star more and without primes, where every row and column with a star keeps one. -/
structure StarGained (m m' : Marks) : Prop where
  not_primed : ∀ c, m'.get c ≠ some .primed
  length_starred : m'.starred.length = m.starred.length + 1
  independent : m'.Independent
  row : ∀ c, m.get c = some .starred → ∃ j, m'.get ⟨c.row, j⟩ = some .starred
  column : ∀ c, m.get c = some .starred → ∃ i, m'.get ⟨i, c.column⟩ = some .starred

section Flip

variable {m : Marks} {path : List Cell}

/-- A prime starts its path, and from there on primes and stars take turns. -/
theorem Augmenting.get_of_getElem? (h : Augmenting m c path) {k : ℕ} {d : Cell}
    (hk : (c :: path)[k]? = some d) : m.get d = some (if k % 2 = 0 then .primed else .starred) := by
  cases k with
  | zero =>
    obtain rfl := Option.some.inj hk
    exact h.primed
  | succ k =>
    rw [h.leads.get_of_getElem? hk]
    rcases Nat.mod_two_eq_zero_or_one k with hmod | hmod
    · rw [if_pos hmod, if_neg (by omega)]
    · rw [if_neg (by omega), if_pos (by omega)]

theorem Augmenting.odd_length (h : Augmenting m c path) : Odd (c :: path).length := by
  rw [List.length_cons, h.leads.length_eq]
  exact odd_two_mul_add_one _

theorem Augmenting.searchEnds (h : Augmenting m c path) (hn : m.Square n) :
    SearchEnds m n c (c :: path) where
  search_eq k hk := by
    have hlength := h.leads.length_le h.independent h.singlePrimes hn
    rw [h.leads.alternating_eq h.independent h.singlePrimes (by omega)]
  exists_prime d hd hs := by
    rcases List.mem_cons.mp hd with rfl | hd
    · simp [h.primed] at hs
    · obtain ⟨l, -, hl⟩ := h.leads.exists_mark_in_row hd .primed
      rw [Option.isSome_iff_ne_none, ne_eq, Marks.inRow?_eq_none_iff]
      exact fun hnone => hnone l hl
  last := by
    have hlast : (c :: path).getLast? = some ((c :: path).getLast (List.cons_ne_nil c path)) :=
      List.getLast?_eq_some_getLast _
    refine ⟨_, hlast, ?_, ?_⟩
    · obtain ⟨k, hk⟩ := h.odd_length
      rw [List.getLast?_eq_getElem?, hk] at hlast
      rw [h.get_of_getElem? hlast, if_pos (by omega)]
    · exact Marks.inColumn?_eq_none_iff.mpr (h.leads.free_last rfl)
  odd := h.odd_length
  nodup := h.nodup
  mark _ _ := h.get_of_getElem?

theorem Augmenting.starGained (h : Augmenting m c path) (hn : m.Square n) :
    StarGained m (m.augment (c :: path)) where
  not_primed := h.get_ne_primed hn
  length_starred := h.length_starred hn
  independent := h.independent_augment hn
  row _ := h.exists_star_in_row hn
  column _ := h.exists_star_in_column hn

end Flip

theorem StarGained.of_primed {m : Marks} (h : StarGained (s.primed c) m) (hs : s.Marked n)
    (hphase : s.phase = .adjustMatrix) (hz : s.uncoveredZero? = some c) :
    StarGained s.marks m where
  not_primed := h.not_primed
  length_starred := by
    obtain ⟨hrow, hcolumn, hnone⟩ := hs.get_zero hphase hz
    rw [h.length_starred]
    exact congrArg (· + 1) (length_starred_primed hs.laid hrow hcolumn hnone)
  independent := h.independent
  row d hd := h.row d ((hs.starred_primed hphase hz d).mpr hd)
  column d hd := h.column d ((hs.starred_primed hphase hz d).mpr hd)

/-- When the first uncovered zero has no star in its row, the step flips the path that it starts.
The search for this path ends by itself, with primes at both ends and stars in between. The step
leaves no primes and a star more, no two of them in a line, keeps one in every row and column that
had one, and covers the columns with a star and no rows. -/
theorem augmentation_of_reaches [Numeral F] {p : AssignmentProblem F} {s₀ : State F}
    (hstart : start p = .ok s₀) (hrun : Solver.Reaches s₀ s) (hphase : s.phase = .adjustMatrix)
    (hz : s.uncoveredZero? = some c) (hfree : ∀ j, s.marks.get ⟨c.row, j⟩ ≠ some .starred) :
    ∃ path t, s.adjustment = .augment c path ∧ Solver.step s = .ok t ∧
      SearchEnds (s.primed c) s.size c path ∧ StarGained s.marks t.marks ∧
      (∀ j, t.isColumnCovered j = true ↔ ∃ i, t.marks.get ⟨i, j⟩ = some .starred) ∧
      ∀ i, t.isRowCovered i = false := by
  have h := marked_of_reaches hstart hrun
  have hs : s.progress ≠ .complete := fun hc => nomatch hphase.symm.trans (h.progress hc)
  obtain ⟨path, hadjustment, hpath⟩ := h.exists_adjustment hphase hz hfree
  have hsquare : (s.primed c).Square s.size := h.laid.size ▸ h.laid.marks.set c _
  refine ⟨c :: path, s.next, hadjustment, rfl, hpath.searchEnds hsquare, ?_⟩
  rw [next_eq_adjust hs hphase, hadjustment]
  -- the columns with a star are covered as the last part of the step
  let t : State ℚ := { s.outline with marks := (s.primed c).augment (c :: path) }
  exact ⟨(hpath.starGained hsquare).of_primed h hphase hz,
    isColumnCovered_coverStars (s := t) (hpath.square hsquare), isRowCovered_coverStars t⟩

/-- The seventh step flips a star and the primes before and after it. -/
theorem rota_augmentation : ∃ s₀ s t : State ℚ, start rota = .ok s₀ ∧ Solver.after 6 s₀ = .ok s ∧
    Solver.step s = .ok t ∧ s.adjustment = .augment ⟨1, 0⟩ [⟨1, 0⟩, ⟨2, 0⟩, ⟨2, 2⟩] ∧
    SearchEnds (s.primed ⟨1, 0⟩) s.size ⟨1, 0⟩ [⟨1, 0⟩, ⟨2, 0⟩, ⟨2, 2⟩] ∧
    StarGained s.marks t.marks := by
  obtain ⟨s₀, s, hstart, hs, hphase, hz, hfree, heq⟩ :=
    Solver.exists_after_of_any (e := start rota) (n := 6)
      (P := fun s => s.phase = .adjustMatrix ∧ s.uncoveredZero? = some ⟨1, 0⟩ ∧
        s.marks.inRow? .starred 1 = none ∧
        s.augmentingPath ⟨1, 0⟩ = [⟨1, 0⟩, ⟨2, 0⟩, ⟨2, 2⟩]) (by decide +kernel)
  obtain ⟨path, t, hadjustment, ht, hsearch, hgained, -⟩ := augmentation_of_reaches hstart
    (Solver.reaches_of_after hs) hphase hz (Marks.inRow?_eq_none hfree)
  obtain rfl := (hsearch.search_eq _ (Nat.lt_succ_self _)).symm.trans heq
  exact ⟨s₀, s, t, hstart, hs, ht, hadjustment, hsearch, hgained⟩

end Optima.Assignment
