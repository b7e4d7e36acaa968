import Mathlib
import Optima.Proofs.Simplex.Unboundedness

/-!
All separated runs from one first state that end agree on how they end, whatever rules they follow,
and on the objective value unless that has no bound. A state without improving relative costs has
the best value of all states and admits no improving ray; which artificial values are left can be
read off the penalty part of that best value.
-/

namespace Optima.Simplex

open State

variable {p : LinearProgram ℚ} {rule : PivotRule} {s t s₀ : State ℚ} {d : ℕ → ℚ}

namespace State

theorem exists_verdict (hrun : SeparatedRun s t) (hs : s.status.isTerminal = false)
    (ht : t.status.isTerminal = true) : ∃ rule, t.Verdict rule := by
  obtain ⟨u, rule, -, hu, hstep⟩ := exists_last_step hrun hs ht
  exact ⟨rule, verdict_of_step hu hstep ht⟩

namespace Follows

/-- The basic point of one state is one of the solutions that another state is compared with. -/
theorem direction_smul_objectiveValue_le (h : Follows s₀ s)
    (hc : ∀ c ∈ s.relativeCost, 0 ≤ s₀.goal.direction • c) (ht : Follows s₀ t) :
    s₀.goal.direction • t.objectiveValue ≤ s₀.goal.direction • s.objectiveValue := by
  have hcost : s₀.costAt t.value = t.objectiveValue := by
    rw [← ht.costAt, ht.canonical.costAt_value]
  rw [← hcost]
  apply h.direction_smul_costAt_le hc ht.solves_value
  intro j _
  exact ht.value_nonneg j

/-- Without improving relative costs there is no improving ray: going along one from the basic
point would lead to a better solution. -/
theorem direction_smul_ray_nonpos (h : Follows s₀ s)
    (hc : ∀ c ∈ s.relativeCost, 0 ≤ s₀.goal.direction • c) (hd : s₀.Ray d) :
    s₀.goal.direction • s₀.costAt d ≤ 0 := by
  have hle := h.direction_smul_costAt_le hc (hd.solves h.solves_value 1) fun j hj =>
    add_nonneg (h.value_nonneg j) (mul_nonneg zero_le_one (hd.nonneg j hj))
  have hcost : s₀.costAt s.value = s.objectiveValue := by
    rw [← h.costAt, h.canonical.costAt_value]
  rw [Tableau.costAt_add_smul, one_smul, smul_add, hcost] at hle
  exact (add_le_iff_nonpos_right _).mp hle

/-- What a terminal state tells about the first one: either no relative cost improves, or there is
an improving ray. -/
theorem terminal_cases (h : Follows s₀ s) (hv : s.Verdict rule) :
    (s.status = .unbounded ∧ ∃ d, s₀.Ray d ∧ 0 < s₀.goal.direction • s₀.costAt d) ∨
      s.status = (if s.usesArtificial then .infeasible else .optimal) ∧
        ∀ c ∈ s.relativeCost, 0 ≤ s₀.goal.direction • c := by
  unfold Verdict at hv
  split at hv
  · next hs =>
    right
    rw [hs, if_neg (Bool.eq_false_iff.mp hv.2), ← h.goal]
    exact ⟨rfl, Tableau.nonneg_of_entering?_eq_none h.separated hv.1⟩
  · next hs =>
    right
    rw [hs, if_pos hv.2, ← h.goal]
    exact ⟨rfl, Tableau.nonneg_of_entering?_eq_none h.separated hv.1⟩
  · next hs =>
    left
    obtain ⟨column, he, hall⟩ := hv
    obtain ⟨hray, hpos, -⟩ := h.ray_of_unbounded he hall
    exact ⟨hs, _, hray, hpos⟩
  · exact hv.elim
  · exact hv.elim

/-- Whether artificial values are left shows in the penalty part of the objective value. -/
theorem usesArtificial_eq_false_iff (h : Follows (firstState p) s) :
    s.usesArtificial = false ↔ (p.goal.direction • s.objectiveValue).multiple = 0 := by
  have htotal : (p.goal.direction • s.objectiveValue).multiple =
      -(firstState p).artificialTotal s.value := by
    rw [← h.canonical.costAt_value, h.costAt]
    exact multiple_direction_smul_costAt p s.value
  rw [htotal, neg_eq_zero]
  constructor
  · intro huses
    apply artificialTotal_eq_zero
    intro j _ hart
    exact h.value_of_isArtificial huses (by rwa [h.isArtificial])
  · exact h.usesArtificial_of_total

end Follows

end State

/-- Two separated runs from one first state, under any rules, end in the same way, and unless both
find no bound with the same objective value. -/
theorem status_eq_of_terminal (hstart : start p = .ok s₀) (hsep : s₀.Separated)
    (hs : SeparatedRun s₀ s) (ht : SeparatedRun s₀ t) (hs' : s.status.isTerminal = true)
    (ht' : t.status.isTerminal = true) :
    s.status = t.status ∧ (s.status ≠ .unbounded → s.objectiveValue = t.objectiveValue) := by
  obtain ⟨-, rfl⟩ := eq_firstState_of_start hstart
  have h : Follows (firstState p) s := (follows_firstState hsep).run hs
  have k : Follows (firstState p) t := (follows_firstState hsep).run ht
  obtain ⟨_, hverdict⟩ := exists_verdict hs rfl hs'
  obtain ⟨_, kverdict⟩ := exists_verdict ht rfl ht'
  rcases h.terminal_cases hverdict with ⟨hstatus, d, hray, hpos⟩ | ⟨hstatus, hc⟩ <;>
    rcases k.terminal_cases kverdict with ⟨kstatus, e, kray, kpos⟩ | ⟨kstatus, kc⟩
  · exact ⟨hstatus.trans kstatus.symm, fun hne => absurd hstatus hne⟩
  · exact absurd hpos (not_lt.mpr (k.direction_smul_ray_nonpos kc hray))
  · exact absurd kpos (not_lt.mpr (h.direction_smul_ray_nonpos hc kray))
  · -- each value is at least the other one, and decides whether artificial values are left
    have hvalue : s.objectiveValue = t.objectiveValue :=
      Goal.direction_smul_injective _ (le_antisymm (k.direction_smul_objectiveValue_le kc h)
        (h.direction_smul_objectiveValue_le hc k))
    have huses : s.usesArtificial = t.usesArtificial := by
      have hiff := h.usesArtificial_eq_false_iff
      rw [hvalue, ← k.usesArtificial_eq_false_iff] at hiff
      exact Bool.eq_iff_iff.mpr (by simpa using not_congr hiff)
    exact ⟨by rw [hstatus, kstatus, huses], fun _ => hvalue⟩

def detour : LinearProgram ℚ where
  objective := ⟨[1, 10], ["x", "y"]⟩
  constraints := [⟨⟨[1], ["x"]⟩, .atMost, 1⟩, ⟨⟨[1, 1], ["x", "y"]⟩, .atMost, 2⟩,
    ⟨⟨[1, 1], ["x", "y"]⟩, .atLeast, 1⟩]
  goal := .maximize

def shortEnd : State ℚ :=
  (((firstState detour).after (.pivot 2 1 1)).after (.pivot 1 4 1)).after .stopOptimal

def longEnd : State ℚ :=
  (((((firstState detour).after (.pivot 0 0 1)).after (.pivot 2 1 0)).after (.pivot 0 2 1)).after
    (.pivot 1 4 1)).after .stopOptimal

def detourMoves : List (Move ℚ) :=
  [.pivot 0 0 1, .pivot 2 1 0, .pivot 0 2 1, .pivot 1 4 1, .stopOptimal]

theorem detour_fits : detour.fault? = none ∧ (firstState detour).Separated ∧
    RunFits (firstState detour) [(.largestCoefficient, .pivot 2 1 1),
      (.firstProfitable, .pivot 1 4 1), (.largestCoefficient, .stopOptimal)] ∧
    RunFits (firstState detour) (detourMoves.map fun m => (.firstProfitable, m)) := by
  decide +kernel

theorem short_run : SeparatedRun (firstState detour) shortEnd :=
  separatedRun_of_runFits _ detour_fits.2.2.1

theorem long_run : SeparatedRun (firstState detour) longEnd :=
  separatedRun_of_runFits _ detour_fits.2.2.2

theorem detours_agree : shortEnd.status = longEnd.status ∧
    shortEnd.objectiveValue = longEnd.objectiveValue := by
  obtain ⟨hstatus, hvalue⟩ :=
    status_eq_of_terminal (start_eq_firstState detour_fits.1) detour_fits.2.1 short_run long_run
      rfl rfl
  exact ⟨hstatus, hvalue (by decide)⟩

end Optima.Simplex
