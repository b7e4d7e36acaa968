import Mathlib
import Optima.Proofs.Simplex.Penalty

namespace Optima.Simplex

open State

variable {p : LinearProgram ℚ} {s s₀ : State ℚ}

/-- A run that ends with an infeasible state has a program without feasible points. -/
theorem not_feasible_of_infeasible (hstart : start p = .ok s₀) (hd : p.NamesDistinct)
    (hsep : s₀.Separated) (hrun : SeparatedRun s₀ s) (hs : s.status = .infeasible) :
    ∀ x, ¬ p.Feasible x := by
  intro x hx
  obtain ⟨hp, rfl⟩ := eq_firstState_of_start hstart
  have h : Follows (firstState p) s := (follows_firstState hsep).run hrun
  have hterminal : s.status.isTerminal = true := by rw [hs]; rfl
  obtain ⟨u, rule, -, hu, hstep⟩ := exists_last_step hrun rfl hterminal
  have hverdict := verdict_of_step hu hstep hterminal
  rw [Verdict, hs] at hverdict
  obtain ⟨hnone, huses⟩ := hverdict
  -- whichever rule ended the run, it passed over every column
  have hc := Tableau.nonneg_of_entering?_eq_none h.separated hnone
  rw [h.goal] at hc
  have hfalse := usesArtificial_eq_false_of_relativeCost hp hd h
    (fun c hmem => BigM.multiple_nonneg (hc c hmem)) hx
  exact Bool.false_ne_true (hfalse.symm.trans huses)

def shortage : LinearProgram ℚ where
  objective := ⟨[1, 1], ["x", "y"]⟩
  constraints := [⟨⟨[1, 1], ["x", "y"]⟩, .equal, 3⟩, ⟨⟨[-1], ["x"]⟩, .atLeast, -1⟩,
    ⟨⟨[1], ["y"]⟩, .atMost, 1⟩, ⟨⟨[2], ["y"]⟩, .atLeast, 0⟩]
  goal := .minimize

def shortageEnd : State ℚ :=
  (((firstState shortage).after (.pivot 1 0 1)).after (.pivot 2 1 1)).after .stopInfeasible

theorem shortage_run : SeparatedRun (firstState shortage) shortageEnd :=
  separatedRun_of_runFits [(.largestCoefficient, .pivot 1 0 1), (.firstProfitable, .pivot 2 1 1),
    (.largestCoefficient, .stopInfeasible)] (by decide +kernel)

theorem not_feasible_of_shortage : ¬ ∃ x, shortage.Feasible x :=
  not_exists.mpr (not_feasible_of_infeasible (by cbv : start shortage = .ok (firstState shortage))
    ⟨by decide, by decide⟩ (by decide +kernel) shortage_run rfl)

end Optima.Simplex
