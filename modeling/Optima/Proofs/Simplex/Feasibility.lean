import Mathlib
import Optima.Proofs.Simplex.Optimality

namespace Optima

/-- No coefficient and no bound of a constraint is within the tolerance of zero without being it. -/
def LinearProgram.IsClear (p : LinearProgram ℚ) : Prop :=
  ∀ c ∈ p.constraints, Scalar.IsClear c.bound ∧ ∀ k ∈ c.coefficients, Scalar.IsClear k

instance (p : LinearProgram ℚ) : Decidable p.IsClear :=
  inferInstanceAs (Decidable (∀ c ∈ p.constraints, _))

namespace Simplex

open State

variable {p : LinearProgram ℚ} {rule : PivotRule} {s t s₀ : State ℚ}

namespace Tableau

variable {t : Tableau ℚ (BigM ℚ)} {row column : ℕ} {r : ℚ}

/-- The pivot takes another row below zero by more than the tolerance. -/
def Overshoots (t : Tableau ℚ (BigM ℚ)) (row column : ℕ) : Prop :=
  ∃ i < t.rowCount, i ≠ row ∧ t.rhs.getD i 0 + Scalar.tolerance <
    t.body.get i column * (t.rhs.getD row 0 / t.body.get row column)

/-- Every entry and every right side is zero or larger than the tolerance. -/
structure Clear (t : Tableau ℚ (BigM ℚ)) : Prop where
  body : ∀ a ∈ t.body.rows, ∀ x ∈ a, Scalar.IsClear x
  rhs : ∀ b ∈ t.rhs, Scalar.IsClear b

theorem clear_pivot (t : Tableau ℚ (BigM ℚ)) (row column : ℕ) : (t.pivot row column).Clear where
  body a ha := by
    obtain ⟨a, -, rfl⟩ := List.mem_map.mp ha
    intro x hx
    obtain ⟨x, -, rfl⟩ := List.mem_map.mp hx
    exact Scalar.isClear_snap x
  rhs b hb := by
    obtain ⟨b, -, rfl⟩ := List.mem_map.mp hb
    exact Scalar.isClear_snap b

/-- A pivot at the smallest ratio keeps all right sides above minus the tolerance unless it
overshoots. -/
theorem neg_tolerance_le_rhs_pivot_iff (h : t.Shaped) (hrhs : ∀ b ∈ t.rhs, 0 ≤ b)
    (hr : smallestRatio? (t.ratios column) = some (row, r)) :
    (∀ b ∈ (t.pivot row column).rhs, -Scalar.tolerance ≤ b) ↔ ¬ t.Overshoots row column := by
  obtain ⟨hrow, hpivot, -⟩ := tolerance_lt_of_smallestRatio? h hr
  have hstep : 0 ≤ t.rhs.getD row 0 / t.body.get row column :=
    div_nonneg (getD_of_forall_mem hrhs le_rfl row) (Scalar.tolerance_pos.trans hpivot).le
  have helim := h.eliminate hrow column
  change (∀ b ∈ (t.eliminate row column).rhs.map Scalar.snap, -Scalar.tolerance ≤ b) ↔ _
  rw [List.forall_mem_map, forall_mem_iff_getD 0, helim.rhs, rowCount_eliminate]
  simp only [Scalar.neg_tolerance_le_snap, Overshoots, not_exists, not_and, not_lt]
  apply forall₂_congr
  intro i hi
  rw [rhs_eliminate h hi]
  split_ifs with hir
  · exact iff_of_true (by linarith [Scalar.tolerance_pos]) fun hne => absurd hir hne
  · constructor
    · intro hle _
      linarith
    · intro hle
      linarith [hle hir]

theorem Clear.not_overshoots (hc : t.Clear) (h : t.Shaped) (hrhs : ∀ b ∈ t.rhs, 0 ≤ b)
    (hr : smallestRatio? (t.ratios column) = some (row, r)) : ¬ t.Overshoots row column := by
  have hzero : Scalar.IsClear 0 := fun h => absurd rfl h
  rintro ⟨i, hi, hir, hlt⟩
  have hnonneg := rhs_eliminate_nonneg h (fun k _ => getD_of_forall_mem hrhs le_rfl k) hr
    (getD_of_forall_mem hc.rhs hzero row) hi (entry_of_forall_mem hc.body hzero i column)
  rw [rhs_eliminate h hi, if_neg hir] at hnonneg
  linarith [Scalar.tolerance_pos]

/-- With nonnegative right sides a column with a ratio has a smallest one. -/
theorem exists_smallestRatio? (h : t.Shaped) (hrhs : ∀ b ∈ t.rhs, 0 ≤ b)
    (hany : (t.ratios column).all Option.isNone = false) :
    ∃ row r, smallestRatio? (t.ratios column) = some (row, r) := by
  obtain ⟨q, hq, hsome⟩ := List.all_eq_false.mp hany
  obtain ⟨i, hi, rfl⟩ := List.getElem_of_mem hq
  obtain ⟨q, hq⟩ := Option.ne_none_iff_exists'.mp (by simpa using hsome)
  have hget := List.getElem?_eq_getElem hi
  rw [hq] at hget
  have hratio := hget
  rw [ratios_getElem? h column (ratios_length h column ▸ hi), Option.some.injEq] at hratio
  split_ifs at hratio with hlt
  -- the ratio found is one of the candidates
  have hnonneg : 0 ≤ q := by
    rw [← Option.some.inj hratio]
    exact div_nonneg (Scalar.snap_nonneg (getD_of_forall_mem hrhs le_rfl i))
      (Scalar.tolerance_pos.trans hlt).le
  cases hbest : smallestRatio? (t.ratios column) with
  | some best => exact ⟨best.1, best.2, rfl⟩
  | none =>
    have hnil := firstBest?_eq_none_iff.mp hbest
    rw [List.filterMap_eq_nil_iff] at hnil
    have := hnil (some q, i) (List.mk_mem_zipIdx_iff_getElem?.mpr hget)
    simp [hnonneg] at this

end Tableau

namespace State

/-- Any number of steps, each by a rule of its own. -/
def RuleRun (s t : State ℚ) : Prop :=
  Relation.ReflTransGen (fun s t => ∃ rule, s.step rule = .ok t) s t

/-- With nonnegative right sides every step succeeds. -/
theorem exists_step (h : s.Shaped) (hrhs : ∀ b ∈ s.rhs, 0 ≤ b) (rule : PivotRule) :
    ∃ t, s.step rule = .ok t := by
  cases hs : s.status.isTerminal with
  | true => exact ⟨s, step_of_isTerminal hs⟩
  | false =>
    suffices hmove : ∃ m, MoveFits rule s m by
      obtain ⟨m, hm⟩ := hmove
      exact ⟨_, step_of_move hs (move_eq_of_moveFits hm)⟩
    cases he : s.entering? rule with
    | none =>
      cases hu : s.usesArtificial with
      | true => exact ⟨.stopInfeasible, he, hu⟩
      | false => exact ⟨.stopOptimal, he, hu⟩
    | some column =>
      cases hall : (s.ratios column).all Option.isNone with
      | true => exact ⟨.stopUnbounded column, he, hall⟩
      | false =>
        obtain ⟨row, r, hr⟩ := Tableau.exists_smallestRatio? h hrhs hall
        exact ⟨.pivot row column r, he, hr⟩

/-- A column with a coefficient above the tolerance but no nonnegative ratio fails the step. -/
theorem step_of_smallestRatio?_eq_none {column : ℕ} (hs : s.status.isTerminal = false)
    (he : s.entering? rule = some column) (hany : (s.ratios column).all Option.isNone = false)
    (hr : Tableau.smallestRatio? (s.ratios column) = none) :
    s.step rule = .error (.ratioTestFailed column) := by
  have hm : s.move rule = .error (.ratioTestFailed column) := by
    simp [move, Tableau.preview?, he, Preview.isUnbounded, hany, hr]
  rw [step, if_neg (by simp [hs]), hm]
  rfl

/-- The tableau of the first state, or one that a pivot has snapped. -/
structure Snapped (s₀ s : State ℚ) : Prop where
  canonical : s.Canonical
  clear : s.toTableau = s₀.toTableau ∨ s.Clear

namespace Snapped

theorem step (h : Snapped s₀ s) (hstep : s.step rule = .ok t) : Snapped s₀ t := by
  cases hs : s.status.isTerminal with
  | true =>
    obtain rfl := eq_of_isTerminal hs hstep
    exact h
  | false =>
    obtain ⟨m, hm, rfl⟩ := exists_move hs hstep
    cases m with
    | stopInfeasible | stopOptimal | stopUnbounded column => exact ⟨h.canonical, h.clear⟩
    | pivot row column ratio =>
      obtain ⟨he, hr⟩ := moveFits hm
      obtain ⟨hrow, hpivot, -⟩ := Tableau.tolerance_lt_of_smallestRatio? h.canonical.toShaped hr
      have hcolumn := Tableau.lt_columnCount_of_entering? h.canonical he
      exact ⟨h.canonical.pivot hrow hcolumn hpivot,
        .inr (Tableau.clear_pivot s.toTableau row column)⟩

theorem run (h : Snapped s₀ s) (hrun : RuleRun s t) : Snapped s₀ t := by
  induction hrun with
  | refl => exact h
  | tail _ hstep ih =>
    obtain ⟨rule, hstep⟩ := hstep
    exact ih.step hstep

theorem rhs_nonneg (h : Snapped s₀ s) (h₀ : ∀ b ∈ s₀.rhs, 0 ≤ b)
    (hge : ∀ b ∈ s.rhs, -Scalar.tolerance ≤ b) : ∀ b ∈ s.rhs, 0 ≤ b := by
  rcases h.clear with heq | hclear
  · rwa [heq]
  · intro b hb
    exact (hclear.rhs b hb).nonneg (hge b hb)

/-- Only the first pivot can overshoot. -/
theorem not_overshoots (h : Snapped s₀ s) (hrhs : ∀ b ∈ s.rhs, 0 ≤ b) {row column : ℕ} {ratio : ℚ}
    (hfirst : ∀ rule row column ratio, s₀.move rule = .ok (.pivot row column ratio) →
      ¬ s₀.Overshoots row column) (hm : s.move rule = .ok (.pivot row column ratio)) :
    ¬ s.Overshoots row column := by
  have hfits := moveFits hm
  rcases h.clear with heq | hclear
  · rw [heq]
    rw [MoveFits, heq] at hfits
    exact hfirst rule row column ratio (move_eq_of_moveFits hfits)
  · exact hclear.not_overshoots h.canonical.toShaped hrhs hfits.2

theorem rhs_nonneg_step (h : Snapped s₀ s) (h₀ : ∀ b ∈ s₀.rhs, 0 ≤ b) (hrhs : ∀ b ∈ s.rhs, 0 ≤ b)
    (hfirst : ∀ rule row column ratio, s₀.move rule = .ok (.pivot row column ratio) →
      ¬ s₀.Overshoots row column) (hstep : s.step rule = .ok t) : ∀ b ∈ t.rhs, 0 ≤ b := by
  cases hs : s.status.isTerminal with
  | true =>
    obtain rfl := eq_of_isTerminal hs hstep
    exact hrhs
  | false =>
    obtain ⟨m, hm, rfl⟩ := exists_move hs hstep
    cases m with
    | stopInfeasible | stopOptimal | stopUnbounded column => exact hrhs
    | pivot row column ratio =>
      apply (h.step hstep).rhs_nonneg h₀
      apply (Tableau.neg_tolerance_le_rhs_pivot_iff h.canonical.toShaped hrhs (moveFits hm).2).mpr
      exact h.not_overshoots hrhs hfirst hm

theorem rhs_nonneg_run (h : Snapped s₀ s₀) (h₀ : ∀ b ∈ s₀.rhs, 0 ≤ b)
    (hfirst : ∀ rule row column ratio, s₀.move rule = .ok (.pivot row column ratio) →
      ¬ s₀.Overshoots row column) (hrun : RuleRun s₀ s) : ∀ b ∈ s.rhs, 0 ≤ b := by
  induction hrun with
  | refl => exact h₀
  | tail hrun hstep ih =>
    obtain ⟨rule, hstep⟩ := hstep
    exact (h.run hrun).rhs_nonneg_step h₀ ih hfirst hstep

end Snapped

end State

theorem snapped_firstState (p : LinearProgram ℚ) : Snapped (firstState p) (firstState p) :=
  ⟨firstTableau_canonical p, .inl rfl⟩

theorem firstState_rhs_nonneg (p : LinearProgram ℚ) : ∀ b ∈ (firstState p).rhs, 0 ≤ b := by
  intro b hb
  obtain ⟨row, hrow, rfl⟩ := List.mem_map.mp hb
  exact rowsOf_bound_nonneg hrow

theorem isClear_of_mem_auxiliaryEntries {i : ℕ} {x : ℚ}
    (hx : x ∈ auxiliaryEntries (addedColumns p) i) : Scalar.IsClear x := by
  have hone : Scalar.IsClear 1 := fun _ => by rw [abs_one]; exact Scalar.tolerance_lt_one
  obtain ⟨⟨columns, k⟩, hcolumns, hx⟩ := List.mem_flatMap.mp hx
  obtain ⟨a, ha, rfl⟩ := List.mem_map.mp hx
  have hmem := List.mem_of_getElem? (List.mk_mem_zipIdx_iff_getElem?.mp hcolumns)
  obtain ⟨⟨row, l⟩, -, rfl⟩ := List.mem_map.mp hmem
  split_ifs
  · obtain ⟨-, -, h | h⟩ := spec_of_mem_auxiliaries ha
    · rw [h]
      exact hone
    · rw [h]
      exact hone.neg
  · exact fun h => absurd rfl h

theorem firstTableau_clear (h : p.IsClear) : (firstTableau p).Clear := by
  have hcoefficient (c : Constraint ℚ) (hc : c ∈ p.constraints) (name : String) :
      Scalar.IsClear (c.coefficient name) :=
    LinearForm.coefficient_of_forall_mem (h c hc).2 (fun h => absurd rfl h) name
  have hrow (row : Row ℚ) (hrow : row ∈ rowsOf p) :
      Scalar.IsClear row.bound ∧ ∀ x ∈ row.coefficients, Scalar.IsClear x := by
    obtain ⟨c, hc, rfl⟩ := List.mem_map.mp hrow
    have hc := List.mem_of_mem_filter hc
    unfold Row.ofConstraint
    split_ifs
    · refine ⟨(h c hc).1.neg, fun x hx => ?_⟩
      obtain ⟨y, hy, rfl⟩ := List.mem_map.mp hx
      obtain ⟨name, -, rfl⟩ := List.mem_map.mp hy
      exact (hcoefficient c hc name).neg
    · refine ⟨(h c hc).1, fun x hx => ?_⟩
      obtain ⟨name, -, rfl⟩ := List.mem_map.mp hx
      exact hcoefficient c hc name
  constructor
  · intro a ha x hx
    obtain ⟨⟨row, i⟩, hmem, rfl⟩ := List.mem_map.mp ha
    have hmem := List.mem_of_getElem? (List.mk_mem_zipIdx_iff_getElem?.mp hmem)
    rcases List.mem_append.mp hx with hx | hx
    · exact (hrow row hmem).2 x hx
    · exact isClear_of_mem_auxiliaryEntries hx
  · intro b hb
    obtain ⟨row, hmem, rfl⟩ := List.mem_map.mp hb
    exact (hrow row hmem).1

/-- In every run from a first state all right sides stay above minus the tolerance and no step
fails, exactly when no first pivot overshoots. A step only fails where a right side is below
already, and for a program without numbers within the tolerance nothing overshoots. -/
theorem neg_tolerance_le_rhs_iff (hstart : start p = .ok s₀) :
    ((∀ s, RuleRun s₀ s → (∀ b ∈ s.rhs, -Scalar.tolerance ≤ b) ∧
        ∀ rule, ∃ t, s.step rule = .ok t) ↔
      ∀ rule row column ratio, s₀.move rule = .ok (.pivot row column ratio) →
        ¬ s₀.Overshoots row column) ∧
    (∀ s, RuleRun s₀ s → (∀ b ∈ s.rhs, -Scalar.tolerance ≤ b) →
      ∀ rule, ∃ t, s.step rule = .ok t) ∧
    (p.IsClear → ∀ rule row column ratio, s₀.move rule = .ok (.pivot row column ratio) →
      ¬ s₀.Overshoots row column) := by
  obtain ⟨-, rfl⟩ := eq_firstState_of_start hstart
  have h₀ := snapped_firstState p
  have hrhs := firstState_rhs_nonneg p
  refine ⟨⟨fun h rule row column ratio hm => ?_, fun h s hrun => ?_⟩, fun s hrun hge => ?_,
    fun hclear rule row column ratio hm => ?_⟩
  · have hstep : (firstState p).step rule = .ok ((firstState p).after (.pivot row column ratio)) :=
      step_of_move rfl hm
    have hge := (h _ (.single ⟨rule, hstep⟩)).1
    exact (Tableau.neg_tolerance_le_rhs_pivot_iff h₀.canonical.toShaped hrhs (moveFits hm).2).mp hge
  · have hnonneg := h₀.rhs_nonneg_run hrhs h hrun
    refine ⟨fun b hb => ?_, exists_step (h₀.run hrun).canonical.toShaped hnonneg⟩
    linarith [hnonneg b hb, Scalar.tolerance_pos]
  · have hs := h₀.run hrun
    exact exists_step hs.canonical.toShaped (hs.rhs_nonneg hrhs hge)
  · exact (firstTableau_clear hclear).not_overshoots h₀.canonical.toShaped hrhs (moveFits hm).2

def tiedRows : LinearProgram ℚ where
  objective := ⟨[0, 0], ["x", "y"]⟩
  constraints := [⟨⟨[17 / 7, -4 / 7], ["x", "y"]⟩, .atMost, 34 / 3⟩,
    ⟨⟨[-22 / 7], ["x"]⟩, .atMost, -44 / 3⟩]
  goal := .minimize

theorem tiedRows_stay_feasible : tiedRows.IsClear ∧ ∀ s, RuleRun (firstState tiedRows) s →
    (∀ b ∈ s.rhs, -Scalar.tolerance ≤ b) ∧ ∀ rule, ∃ t, s.step rule = .ok t := by
  have hclear : tiedRows.IsClear := by
    simp [LinearProgram.IsClear, tiedRows, Scalar.IsClear, Scalar.tolerance_eq]
    norm_num
  obtain ⟨hiff, -, hfirst⟩ :=
    neg_tolerance_le_rhs_iff (start_eq_firstState (by cbv : tiedRows.fault? = none))
  exact ⟨hclear, hiff.mpr (hfirst hclear)⟩

/-- Maximize 2x + y where y and a sliver of x are at most 0, and x at most 1000. -/
def sliver : LinearProgram ℚ where
  objective := ⟨[2, 1], ["x", "y"]⟩
  constraints := [⟨⟨[1 / 10 ^ 10, 1], ["x", "y"]⟩, .atMost, 0⟩, ⟨⟨[1], ["x"]⟩, .atMost, 1000⟩]
  goal := .maximize

def sliverNext : State ℚ := (firstState sliver).after (.pivot 1 0 1000)

/-- A right side can fall below minus the tolerance, and then both rules fail. -/
theorem sliver_overshoots : start sliver = .ok (firstState sliver) ∧
    (firstState sliver).step .largestCoefficient = .ok sliverNext ∧
    (∃ b ∈ sliverNext.rhs, b < -Scalar.tolerance) ∧
    ∀ rule, sliverNext.step rule = .error (.ratioTestFailed 1) := by
  have hm : (firstState sliver).move .largestCoefficient = .ok (.pivot 1 0 1000) :=
    move_eq_of_moveFits (by decide +kernel)
  refine ⟨start_eq_firstState (by decide +kernel), step_of_move rfl hm, by decide +kernel, ?_⟩
  intro rule
  have he : sliverNext.entering? rule = some 1 := by cases rule <;> decide +kernel
  have hany : (sliverNext.ratios 1).all Option.isNone = false := by decide +kernel
  have hr : Tableau.smallestRatio? (sliverNext.ratios 1) = none := by decide +kernel
  exact step_of_smallestRatio?_eq_none (by decide +kernel) he hany hr

end Simplex

end Optima
