import Mathlib
import Optima.Proofs.Simplex.Agreement
import Optima.Proofs.Simplex.CostMaps
import Optima.Proofs.Simplex.Pivots

namespace Optima

def BigM.evaluation (m : ℚ) : CostMap ℚ (BigM ℚ) ℚ where
  map := eval m
  map_zero := eval_zero m
  map_add := eval_add m
  map_sub := eval_sub m
  map_scale := eval_scale m

namespace Simplex

open State

variable {p : LinearProgram ℚ} {rule : PivotRule} {s s₀ : State ℚ}

namespace Tableau

section Advance

variable {F C : Type} [Scalar F] [Cost F C] {t : Tableau F C} {row column : ℕ} {ratio : F}

/-- The tableau after the pivot of a rule; it stays as it is where there is none. -/
def advance (rule : PivotRule) (t : Tableau F C) : Tableau F C :=
  match t.preview? rule with
  | some ⟨column, _, some (row, _)⟩ => t.pivot row column
  | _ => t

theorem advance_of_entering?_eq_none (he : t.entering? rule = none) : t.advance rule = t := by
  rw [advance, preview?, he]
  rfl

theorem advance_of_isUnbounded (he : t.entering? rule = some column)
    (hall : (t.ratios column).all Option.isNone = true) : t.advance rule = t := by
  have hnone : smallestRatio? (t.ratios column) = none := by
    apply firstBest?_eq_none_iff.mpr
    rw [List.filterMap_eq_nil_iff]
    rintro ⟨r, i⟩ hr
    have hr := List.all_eq_true.mp hall r (List.fst_mem_of_mem_zipIdx hr)
    rw [Option.isNone_iff_eq_none.mp hr]
  simp only [advance, preview?, he, Option.map_some, hnone]

theorem advance_of_smallestRatio? (he : t.entering? rule = some column)
    (hr : smallestRatio? (t.ratios column) = some (row, ratio)) :
    t.advance rule = t.pivot row column := by
  simp only [advance, preview?, he, Option.map_some, hr]

end Advance

def withPenalty (m : ℚ) (t : Tableau ℚ (BigM ℚ)) : Tableau ℚ ℚ :=
  let cost := t.cost.map (·.eval m)
  Tableau.price
    { names := t.names
      cost
      basis := t.basis
      basicCost := t.basis.map fun j => cost.getD j 0
      rhs := t.rhs
      body := t.body
      relativeCost := []
      objectiveValue := 0
      goal := t.goal }

def evalAt (m : ℚ) (t : Tableau ℚ (BigM ℚ)) : Tableau ℚ ℚ where
  names := t.names
  cost := t.cost.map (·.eval m)
  basis := t.basis
  basicCost := t.basicCost.map (·.eval m)
  rhs := t.rhs
  body := t.body
  relativeCost := t.relativeCost.map (·.eval m)
  objectiveValue := t.objectiveValue.eval m
  goal := t.goal

variable {t : Tableau ℚ (BigM ℚ)} {m : ℚ}

theorem evalAt_eq_mapCosts (m : ℚ) (t : Tableau ℚ (BigM ℚ)) :
    t.evalAt m = t.mapCosts (BigM.evaluation m) t.goal := rfl

theorem cost_evalAt (m : ℚ) (t : Tableau ℚ (BigM ℚ)) (j : ℕ) :
    (t.evalAt m).cost.getD j 0 = (t.cost.getD j 0).eval m :=
  cost_mapCosts (BigM.evaluation m) t.goal t j

theorem price_evalAt (m : ℚ) (t : Tableau ℚ (BigM ℚ)) :
    (t.evalAt m).price = t.price.evalAt m :=
  price_mapCosts (BigM.evaluation m) t.goal t

/-- Pivoting and evaluating can be done in either order. -/
theorem pivot_evalAt (m : ℚ) (t : Tableau ℚ (BigM ℚ)) (row column : ℕ) :
    (t.evalAt m).pivot row column = (t.pivot row column).evalAt m :=
  pivot_mapCosts (BigM.evaluation m) t.goal t row column

/-- A canonical tableau is priced from its columns, so that their costs are all there is to
replace. -/
theorem Canonical.withPenalty_eq (h : t.Canonical) (m : ℚ) : t.withPenalty m = t.evalAt m := by
  have hbasic : t.basis.map (fun j => (t.cost.map (·.eval m)).getD j 0) =
      t.basicCost.map (·.eval m) := by
    rw [h.basicCost_eq_map, List.map_map]
    exact List.map_congr_left fun j _ => cost_evalAt m t j
  calc
    t.withPenalty m = (t.evalAt m).price := by
      rw [withPenalty, hbasic]
      rfl
    _ = t.evalAt m := by rw [price_evalAt, h.priced]

/-- The penalty is large enough for all comparisons of relative costs. -/
structure Decides (m : ℚ) (t : Tableau ℚ (BigM ℚ)) : Prop where
  improves : ∀ c ∈ t.relativeCost, t.goal.improves (c.eval m) = t.goal.improves c
  prefers : ∀ a ∈ t.relativeCost, ∀ b ∈ t.relativeCost,
    t.goal.prefers (a.eval m) (b.eval m) = t.goal.prefers a b

theorem Separated.eventually_decides (h : t.Separated) : ∀ᶠ m in Filter.atTop, t.Decides m := by
  have hfinite := t.relativeCost.finite_toSet
  have himproves := (Filter.eventually_all_finite hfinite).mpr fun c hc =>
    t.goal.eventually_improves (h.relativeCost c hc)
  have hprefers := (Filter.eventually_all_finite hfinite).mpr fun a _ =>
    (Filter.eventually_all_finite hfinite).mpr fun b _ => t.goal.eventually_prefers a b
  filter_upwards [himproves, hprefers] with m h₁ h₂
  exact ⟨h₁, h₂⟩

theorem Decides.preview?_evalAt (h : t.Decides m) (rule : PivotRule) :
    (t.evalAt m).preview? rule = t.preview? rule := by
  rw [evalAt_eq_mapCosts]
  exact preview?_mapCosts h.improves h.prefers rule

theorem advance_evalAt (h : (t.evalAt m).preview? rule = t.preview? rule) :
    (t.evalAt m).advance rule = (t.advance rule).evalAt m := by
  rw [advance, advance, h]
  split
  · exact pivot_evalAt m t _ _
  · rfl

end Tableau

namespace State

/-- What a move says about the tableau decides how the tableau goes on. -/
theorem toTableau_after {m : Move ℚ} (h : MoveFits rule s m) :
    (s.after m).toTableau = s.toTableau.advance rule := by
  cases m with
  | stopInfeasible | stopOptimal => exact (Tableau.advance_of_entering?_eq_none h.1).symm
  | stopUnbounded column => exact (Tableau.advance_of_isUnbounded h.1 h.2).symm
  | pivot row column ratio => exact (Tableau.advance_of_smallestRatio? h.1 h.2).symm

theorem advance_of_verdict (h : s.Verdict rule) : s.toTableau.advance rule = s.toTableau := by
  unfold Verdict at h
  split at h
  · exact Tableau.advance_of_entering?_eq_none h.1
  · exact Tableau.advance_of_entering?_eq_none h.1
  · obtain ⟨column, he, hall⟩ := h
    exact Tableau.advance_of_isUnbounded he hall
  · exact h.elim
  · exact h.elim

variable {run : ℕ → State ℚ} {n k : ℕ}

/-- Every terminal state of a run by one rule has been found terminal by that rule. -/
theorem SteadyRun.verdict (h : SteadyRun rule n run) (h0 : (run 0).status.isTerminal = false)
    (hk : k ≤ n) (hterminal : (run k).status.isTerminal = true) : (run k).Verdict rule := by
  induction k with
  | zero => exact absurd hterminal (by simp [h0])
  | succ k ih =>
    have hstep := (h k hk).step
    cases hs : (run k).status.isTerminal with
    | true =>
      have heq : run k = run (k + 1) := eq_of_isTerminal hs hstep
      exact heq ▸ ih (by omega) hs
    | false => exact verdict_of_step hs hstep hterminal

theorem SteadyRun.toTableau_succ (h : SteadyRun rule n run)
    (h0 : (run 0).status.isTerminal = false) (hk : k < n) :
    (run (k + 1)).toTableau = (run k).toTableau.advance rule := by
  have hstep := (h k hk).step
  cases hs : (run k).status.isTerminal with
  | true =>
    have heq : run k = run (k + 1) := eq_of_isTerminal hs hstep
    rw [advance_of_verdict (h.verdict h0 hk.le hs), heq]
  | false =>
    obtain ⟨m, hm, hafter⟩ := exists_move hs hstep
    rw [hafter, toTableau_after (moveFits hm)]

end State

/-- For every large enough penalty the simplex method on plain costs goes through the tableaus of
the run with all costs evaluated, and chooses the same columns and rows. -/
theorem exists_penalty {run : ℕ → State ℚ} {n : ℕ} (hstart : start p = .ok s₀)
    (hsep : s₀.Separated) (h0 : run 0 = s₀) (hrun : SteadyRun rule n run) :
    ∃ m₀, ∀ m > m₀, ∀ k ≤ n,
      (Tableau.advance rule)^[k] (s₀.withPenalty m) = (run k).evalAt m ∧
        ((Tableau.advance rule)^[k] (s₀.withPenalty m)).preview? rule = (run k).preview? rule := by
  obtain ⟨-, rfl⟩ := eq_firstState_of_start hstart
  have h₀ : Follows (firstState p) (run 0) := h0 ▸ follows_firstState hsep
  have hfirst : (run 0).status.isTerminal = false := by
    rw [h0]
    rfl
  -- one bound for the comparisons of all states
  have hlarge : ∀ᶠ m in Filter.atTop, ∀ k ∈ Finset.range (n + 1), (run k).Decides m := by
    rw [Filter.eventually_all_finset]
    intro k hk
    have hk := Nat.lt_succ_iff.mp (Finset.mem_range.mp hk)
    exact (hrun.follows h₀ hk).separated.eventually_decides
  obtain ⟨m₀, hm₀⟩ := Filter.eventually_atTop.mp hlarge
  refine ⟨m₀, fun m hm => ?_⟩
  have hpreview (k : ℕ) (hk : k ≤ n) : ((run k).evalAt m).preview? rule = (run k).preview? rule :=
    (hm₀ m hm.le k (Finset.mem_range.mpr (Nat.lt_succ_of_le hk))).preview?_evalAt rule
  have heval (k : ℕ) (hk : k ≤ n) :
      (Tableau.advance rule)^[k] ((firstState p).withPenalty m) = (run k).evalAt m := by
    induction k with
    | zero =>
      rw [← h0]
      exact h₀.canonical.withPenalty_eq m
    | succ k ih =>
      rw [Function.iterate_succ_apply', ih (by omega),
        Tableau.advance_evalAt (hpreview k (by omega)), ← hrun.toTableau_succ hfirst hk]
  intro k hk
  refine ⟨heval k hk, ?_⟩
  rw [heval k hk]
  exact hpreview k hk

theorem detour_steady :
    SteadyRun .firstProfitable 5 ((firstState detour).play detourMoves) :=
  steadyRun_play detourMoves detour_fits.2.2.2

theorem detour_penalty : ∃ m₀, ∀ m > m₀, ∀ k ≤ 5,
    (Tableau.advance .firstProfitable)^[k] ((firstState detour).withPenalty m) =
        ((firstState detour).play detourMoves k).evalAt m ∧
      ((Tableau.advance .firstProfitable)^[k] ((firstState detour).withPenalty m)).preview?
          .firstProfitable =
        ((firstState detour).play detourMoves k).preview? .firstProfitable :=
  exists_penalty (start_eq_firstState detour_fits.1) detour_fits.2.1 rfl detour_steady

end Simplex

end Optima
