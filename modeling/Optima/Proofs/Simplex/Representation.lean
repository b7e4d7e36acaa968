import Mathlib
import Optima.Proofs.Simplex.Feasibility

namespace Optima.Simplex

open State

variable {p q : LinearProgram ℚ} {s₀ : State ℚ}

/-- A first state of `p` says what `q` says: at every nonnegative point the rows can be met with the
artificial columns at zero exactly when all constraints hold, the cost row then gives the objective
without a penalty, and no right side is negative. -/
structure Represents (s₀ : State ℚ) (p q : LinearProgram ℚ) : Prop where
  holds_iff : ∀ x : String → ℚ, (∀ name ∈ p.variableNames, 0 ≤ x name) →
    ((∀ c ∈ q.constraints, c.Holds x) ↔ ∃ y, Extends p x y)
  costAt : ∀ x y, Extends p x y → s₀.costAt y = BigM.ofScalar (q.objective.eval x)
  rhs_nonneg : ∀ b ∈ s₀.rhs, 0 ≤ b

theorem represents_byName (p : LinearProgram ℚ) : Represents (firstState p) p p.byName where
  holds_iff x hx := by
    rw [← rows_hold_iff hx]
    constructor
    · intro h
      exact ⟨_, extends_extension h hx⟩
    · rintro ⟨y, hy⟩
      exact hy.holds
  costAt x y h := by
    change (firstTableau p).costAt y = _
    rw [costAt_firstTableau_readBy h.decision, artificialTotal_eq_zero h.artificial, zero_smul,
      add_zero]
    rfl
  rhs_nonneg := firstState_rhs_nonneg p

/-- Two programs are represented by one state when they agree at nonnegative points. -/
theorem Represents.iff_agrees (h : Represents s₀ p q) : Represents s₀ p p ↔ p.Agrees q := by
  constructor
  · intro hp x hx
    refine ⟨(hp.holds_iff x hx).trans (h.holds_iff x hx).symm, fun hholds => ?_⟩
    obtain ⟨y, hy⟩ := (hp.holds_iff x hx).mp hholds
    have heq := (hp.costAt x y hy).symm.trans (h.costAt x y hy)
    exact congrArg BigM.constant heq
  · intro hagrees
    refine ⟨fun x hx => (hagrees x hx).1.trans (h.holds_iff x hx), fun x y hy => ?_, h.rhs_nonneg⟩
    have hx := hy.nonneg_point
    have hholds := (hagrees x hx).1.mpr ((h.holds_iff x hx).mpr ⟨y, hy⟩)
    rw [h.costAt x y hy, (hagrees x hx).2 hholds]

/-- The first state of a program represents it as its forms are read. It represents the program
itself exactly when the two agree at all nonnegative points; they do when every form is read in
full, as it is when no form lists a variable twice. -/
theorem represents_iff (hstart : start p = .ok s₀) :
    Represents s₀ p p.byName ∧ (Represents s₀ p p ↔ p.Agrees p.byName) ∧
    (p.ReadInFull → Represents s₀ p p) ∧ (p.NamesDistinct → p.ReadInFull) := by
  obtain ⟨hp, rfl⟩ := eq_firstState_of_start hstart
  have h := represents_byName p
  exact ⟨h, h.iff_agrees, fun hfull => h.iff_agrees.mpr hfull.agrees,
    LinearProgram.readInFull_of_namesDistinct hp⟩

/-- Minimize 2x + 3y. The names come in other orders, one of them twice and one in a constraint
only, and one right side is negative. -/
def mixture : LinearProgram ℚ where
  objective := ⟨[2, 3], ["x", "y"]⟩
  constraints := [⟨⟨[1, 1, 0], ["z", "x", "x"]⟩, .atLeast, 1⟩, ⟨⟨[1], ["x"]⟩, .atLeast, 0⟩,
    ⟨⟨[-1, -1], ["y", "x"]⟩, .atLeast, -5⟩]
  goal := .minimize

theorem represents_mixture : ¬ mixture.NamesDistinct ∧
    Represents (firstState mixture) mixture mixture := by
  have hstart : start mixture = .ok (firstState mixture) :=
    start_eq_firstState (by cbv : mixture.fault? = none)
  have hfull : mixture.ReadInFull := ⟨by decide +kernel, by decide +kernel⟩
  refine ⟨fun hd => ?_, (represents_iff hstart).2.2.1 hfull⟩
  exact absurd (hd.constraints _ List.mem_cons_self) (by decide)

def doubled : LinearProgram ℚ where
  objective := ⟨[1], ["x"]⟩
  constraints := [⟨⟨[1, 1], ["x", "x"]⟩, .atMost, 4⟩]
  goal := .maximize

/-- The second occurrence of a name is lost: the point 3 breaks the constraint and solves the
rows. -/
theorem doubled_not_represents : start doubled = .ok (firstState doubled) ∧
    (∃ c ∈ doubled.constraints, ¬ c.Holds fun _ => 3) ∧ (∃ y, Extends doubled (fun _ => 3) y) ∧
    ¬ Represents (firstState doubled) doubled doubled := by
  have hbreaks : ∃ c ∈ doubled.constraints, ¬ c.Holds fun _ => 3 := by decide +kernel
  have hread : ∀ c ∈ doubled.byName.constraints, c.Holds fun _ => 3 := by decide +kernel
  have hsolves : ∃ y, Extends doubled (fun _ => 3) y :=
    ((represents_byName doubled).holds_iff _ fun _ _ => by norm_num).mp hread
  refine ⟨start_eq_firstState (by cbv), hbreaks, hsolves, fun h => ?_⟩
  obtain ⟨c, hc, hnot⟩ := hbreaks
  exact hnot ((h.holds_iff _ fun _ _ => by norm_num).mpr hsolves c hc)

end Optima.Simplex
