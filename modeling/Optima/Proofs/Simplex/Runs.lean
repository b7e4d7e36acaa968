import Mathlib
import Optima.Proofs.Simplex.Choice

namespace Optima.Simplex.State

open Tableau

variable {rule : PivotRule} {s t s₀ : State ℚ}

theorem step_of_isTerminal (hs : s.status.isTerminal = true) : s.step rule = .ok s := if_pos hs

theorem eq_of_isTerminal (hs : s.status.isTerminal = true) (h : s.step rule = .ok t) : s = t :=
  Except.ok.inj ((step_of_isTerminal hs).symm.trans h)

theorem exists_move (hs : s.status.isTerminal = false) (h : s.step rule = .ok t) :
    ∃ m, s.move rule = .ok m ∧ t = s.after m := by
  rw [step, if_neg (by simp [hs])] at h
  cases hm : s.move rule with
  | error e => simp [hm, bind, Except.bind] at h
  | ok m =>
    simp only [hm, bind, Except.bind, pure, Except.pure, Except.ok.injEq] at h
    exact ⟨m, rfl, h.symm⟩

theorem step_of_move {m : Move ℚ} (hs : s.status.isTerminal = false) (h : s.move rule = .ok m) :
    s.step rule = .ok (s.after m) := by
  rw [step, if_neg (by simp [hs]), h]
  rfl

/-- What a move says about the tableau. -/
def MoveFits (rule : PivotRule) (s : State ℚ) : Move ℚ → Prop
  | .stopInfeasible => s.entering? rule = none ∧ s.usesArtificial = true
  | .stopOptimal => s.entering? rule = none ∧ s.usesArtificial = false
  | .stopUnbounded j => s.entering? rule = some j ∧ (s.ratios j).all Option.isNone = true
  | .pivot i j r => s.entering? rule = some j ∧ smallestRatio? (s.ratios j) = some (i, r)

theorem moveFits {m : Move ℚ} (h : s.move rule = .ok m) : MoveFits rule s m := by
  rw [move, preview?] at h
  cases he : s.entering? rule with
  | none =>
    simp only [he, Option.map_none, Except.ok.injEq] at h
    cases hu : s.usesArtificial <;> simp [hu] at h <;> subst h <;> exact ⟨he, hu⟩
  | some j =>
    simp only [he, Option.map_some] at h
    split at h
    · next hall =>
      obtain rfl := Except.ok.inj h
      exact ⟨he, hall⟩
    · split at h
      · next hr =>
        obtain rfl := Except.ok.inj h
        exact ⟨he, hr⟩
      · simp at h

theorem move_eq_of_moveFits {m : Move ℚ} (h : MoveFits rule s m) :
    s.move rule = .ok m := by
  rw [move, preview?]
  cases m with
  | stopInfeasible | stopOptimal => simp [h.1, h.2]
  | stopUnbounded column => simp [h.1, Preview.isUnbounded, h.2]
  | pivot row column ratio =>
    have hnot : (s.ratios column).all Option.isNone = false := by
      refine List.all_eq_false.mpr ⟨some ratio, ?_, Bool.false_ne_true⟩
      exact List.mem_of_getElem? (smallestRatio?_eq_some h.2).1
    simp [h.1, Preview.isUnbounded, hnot, h.2]

/-- A step after which, and in the pivot of which, every number is clear of the tolerance. -/
structure SeparatedStep (rule : PivotRule) (s t : State ℚ) : Prop where
  step : s.step rule = .ok t
  eliminate : ∀ row column ratio, s.status.isTerminal = false →
    s.move rule = .ok (.pivot row column ratio) → (s.eliminate row column).Separated
  separated : t.Separated

/-- Any number of separated steps, each by a rule of its own. -/
def SeparatedRun (s t : State ℚ) : Prop :=
  Relation.ReflTransGen (fun s t => ∃ rule, SeparatedStep rule s t) s t

instance (rule : PivotRule) (s : State ℚ) (m : Move ℚ) : Decidable (MoveFits rule s m) :=
  match m with
  | .stopInfeasible | .stopOptimal | .stopUnbounded _ | .pivot _ _ _ =>
    inferInstanceAs (Decidable (_ ∧ _))

/-- The rows of a pivot are clear of the tolerance before anything is snapped. -/
def PivotFits (s : State ℚ) : Move ℚ → Prop
  | .pivot row column _ => (s.eliminate row column).Separated
  | _ => True

instance (s : State ℚ) (m : Move ℚ) : Decidable (PivotFits s m) :=
  match m with
  | .pivot row column _ => inferInstanceAs (Decidable (s.eliminate row column).Separated)
  | .stopInfeasible | .stopOptimal | .stopUnbounded _ => inferInstanceAs (Decidable True)

theorem separatedStep_of_moveFits {m : Move ℚ} (hs : s.status.isTerminal = false)
    (h : MoveFits rule s m) (hpivot : PivotFits s m) (ht : (s.after m).Separated) :
    SeparatedStep rule s (s.after m) := by
  have hm := move_eq_of_moveFits h
  refine ⟨step_of_move hs hm, fun row column ratio _ hmove => ?_, ht⟩
  obtain rfl := Except.ok.inj (hm.symm.trans hmove)
  exact hpivot

def RunFits : State ℚ → List (PivotRule × Move ℚ) → Prop
  | _, [] => True
  | s, (rule, m) :: rest => (s.status.isTerminal = false ∧ MoveFits rule s m ∧ PivotFits s m ∧
      (s.after m).Separated) ∧ RunFits (s.after m) rest

instance decidableRunFits : (s : State ℚ) → (moves : List (PivotRule × Move ℚ)) →
    Decidable (RunFits s moves)
  | _, [] => inferInstanceAs (Decidable True)
  | s, (_, m) :: rest => @instDecidableAnd _ _ inferInstance (decidableRunFits (s.after m) rest)

theorem separatedRun_of_runFits (moves : List (PivotRule × Move ℚ)) {s : State ℚ}
    (h : RunFits s moves) : SeparatedRun s (moves.foldl (fun s a => s.after a.2) s) := by
  induction moves generalizing s with
  | nil => exact .refl
  | cons a rest ih =>
    obtain ⟨⟨hs, hmove, hpivot, hsep⟩, hrest⟩ := h
    exact .head ⟨a.1, separatedStep_of_moveFits hs hmove hpivot hsep⟩ (ih hrest)

structure Follows (s₀ s : State ℚ) : Prop where
  canonical : s.Canonical
  separated : s.Separated
  rhs_nonneg : ∀ i < s.rowCount, 0 ≤ s.rhs.getD i 0
  names : s.names = s₀.names
  cost : s.cost = s₀.cost
  goal : s.goal = s₀.goal
  kinds : s.kinds = s₀.kinds
  solves : ∀ x, s.Solves x ↔ s₀.Solves x

theorem Follows.columnCount (h : Follows s₀ s) : s.columnCount = s₀.columnCount :=
  congrArg List.length h.names

theorem Follows.costAt (h : Follows s₀ s) (x : ℕ → ℚ) : s.costAt x = s₀.costAt x := by
  rw [Tableau.costAt, Tableau.costAt, h.columnCount, h.cost]

theorem Follows.value_nonneg (h : Follows s₀ s) (j : ℕ) : 0 ≤ s.value j :=
  Tableau.spread_induction le_rfl h.rhs_nonneg j

theorem Follows.solves_value (h : Follows s₀ s) : s₀.Solves s.value :=
  (h.solves _).mp h.canonical.solves_value

theorem pivot_eq_of_separated {row column : ℕ} (h : (s.eliminate row column).Separated) :
    s.toTableau.pivot row column = ((s.eliminate row column).enter row column).price := by
  rw [pivot, h.snap_eq]

theorem Follows.pivot (h : Follows s₀ s) {row column : ℕ} {ratio : ℚ}
    (he : s.entering? rule = some column)
    (hr : smallestRatio? (s.ratios column) = some (row, ratio))
    (helim : (s.eliminate row column).Separated)
    (hsep : (s.after (.pivot row column ratio)).Separated) :
    Follows s₀ (s.after (.pivot row column ratio)) := by
  have hshaped := h.canonical.toShaped
  obtain ⟨hrow, hpivot, -⟩ := tolerance_lt_of_smallestRatio? hshaped hr
  have hcolumn := lt_columnCount_of_entering? h.canonical he
  -- in a separated pivot nothing is snapped
  have hafter : (s.after (.pivot row column ratio)).toTableau =
      ((s.eliminate row column).enter row column).price := pivot_eq_of_separated helim
  have hcount : (s.after (.pivot row column ratio)).rowCount = s.rowCount := by
    rw [hafter]
    exact rowCount_enter (s.eliminate row column) row column
  refine ⟨h.canonical.pivot hrow hcolumn hpivot, hsep, ?_, h.names, h.cost, h.goal, h.kinds, ?_⟩
  · intro i hi
    rw [hcount] at hi
    rw [hafter]
    exact rhs_eliminate_nonneg hshaped h.rhs_nonneg hr (h.separated.rhs_getD row) hi
      (h.separated.get i column)
  · intro x
    rw [← h.solves x]
    exact solves_pivot hshaped hrow (Scalar.tolerance_pos.trans hpivot).ne' helim.snap_eq x

theorem Follows.step (h : Follows s₀ s) (hstep : SeparatedStep rule s t) : Follows s₀ t := by
  cases hs : s.status.isTerminal with
  | true =>
    obtain rfl := eq_of_isTerminal hs hstep.step
    exact h
  | false =>
    obtain ⟨m, hm, rfl⟩ := exists_move hs hstep.step
    have hspec := moveFits hm
    cases m with
    | pivot row column ratio =>
      exact h.pivot hspec.1 hspec.2 (hstep.eliminate row column ratio hs hm) hstep.separated
    | stopInfeasible | stopOptimal | stopUnbounded column =>
      exact ⟨h.canonical, h.separated, h.rhs_nonneg, h.names, h.cost, h.goal, h.kinds, h.solves⟩

theorem Follows.run (h : Follows s₀ s) (hrun : SeparatedRun s t) : Follows s₀ t := by
  induction hrun with
  | refl => exact h
  | tail _ hstep ih =>
    obtain ⟨rule, hstep⟩ := hstep
    exact ih.step hstep

/-- What a terminal state was found to be by the rule that ended the run. -/
def Verdict (rule : PivotRule) (s : State ℚ) : Prop :=
  match s.status with
  | .optimal => s.entering? rule = none ∧ s.usesArtificial = false
  | .infeasible => s.entering? rule = none ∧ s.usesArtificial = true
  | .unbounded => ∃ j, s.entering? rule = some j ∧ (s.ratios j).all Option.isNone = true
  | .initial | .running => False

theorem verdict_of_step (hs : s.status.isTerminal = false) (h : s.step rule = .ok t)
    (ht : t.status.isTerminal = true) : t.Verdict rule := by
  obtain ⟨m, hm, rfl⟩ := exists_move hs h
  have hspec := moveFits hm
  cases m with
  | pivot row column ratio => simp [after, Status.isTerminal] at ht
  | stopInfeasible | stopOptimal => exact hspec
  | stopUnbounded column => exact ⟨column, hspec⟩

theorem exists_last_step (hrun : SeparatedRun s t) (hs : s.status.isTerminal = false)
    (ht : t.status.isTerminal = true) :
    ∃ u rule, SeparatedRun s u ∧ u.status.isTerminal = false ∧ u.step rule = .ok t := by
  induction hrun with
  | refl => simp [hs] at ht
  | @tail u v hu hstep ih =>
    obtain ⟨rule, hstep⟩ := hstep
    cases hterm : u.status.isTerminal with
    | false => exact ⟨u, rule, hu, hterm, hstep.step⟩
    | true =>
      obtain rfl := eq_of_isTerminal hterm hstep.step
      exact ih hterm

end Optima.Simplex.State
