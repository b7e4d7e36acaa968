import Mathlib
import Optima.Linear.Program
import Optima.Proofs.BigM

namespace Optima

namespace Goal

/-- One when more is better, minus one when less is. -/
def direction : Goal → ℚ
  | .maximize => 1
  | .minimize => -1

def Better (g : Goal) (a b : ℚ) : Prop :=
  match g with
  | .maximize => b < a
  | .minimize => a < b

theorem better_iff {g : Goal} {a b : ℚ} :
    g.Better a b ↔ g.direction * b < g.direction * a := by
  cases g <;> simp [Better, direction]

theorem direction_smul_injective (g : Goal) {a b : BigM ℚ}
    (h : g.direction • a = g.direction • b) : a = b := by
  cases g with
  | maximize => simpa [direction] using h
  | minimize => simpa [direction] using h

theorem improves_iff {g : Goal} {c : BigM ℚ} (h : c.IsClear) :
    g.improves c = true ↔ g.direction • c < 0 := by
  have h' : Cost.signUpTo Scalar.tolerance c = c.compare 0 := h.signUpTo_eq
  cases g with
  | maximize => simp [improves, h', isMaximization, direction, BigM.compare_eq_lt]
  | minimize => simp [improves, h', isMaximization, direction, BigM.compare_eq_gt]

theorem prefers_iff {g : Goal} {a b : BigM ℚ} :
    g.prefers a b = true ↔ g.direction • a < g.direction • b := by
  cases g with
  | maximize =>
    have h : Cost.compare a b = a.compare b := rfl
    simp [prefers, h, isMaximization, direction, BigM.compare_eq_lt]
  | minimize =>
    have h : Cost.compare a b = a.compare b := rfl
    simp [prefers, h, isMaximization, direction, BigM.compare_eq_gt]

def Beats (g : Goal) (a b : BigM ℚ) : Prop :=
  a.compare b = if g.isMaximization then .gt else .lt

theorem beats_iff {g : Goal} {a b : BigM ℚ} :
    g.Beats a b ↔ g.direction • b < g.direction • a := by
  cases g with
  | maximize => simp [Beats, isMaximization, direction, BigM.compare_eq_gt]
  | minimize => simp [Beats, isMaximization, direction, BigM.compare_eq_lt]

/-- A large enough penalty does not change what improves the objective. -/
theorem eventually_improves (g : Goal) {c : BigM ℚ} (h : c.IsClear) :
    ∀ᶠ m in Filter.atTop, g.improves (c.eval m) = g.improves c := by
  filter_upwards [h.eventually_signUpTo] with m hm
  rw [improves, hm]
  rfl

theorem eventually_prefers (g : Goal) (a b : BigM ℚ) :
    ∀ᶠ m in Filter.atTop, g.prefers (a.eval m) (b.eval m) = g.prefers a b := by
  filter_upwards [(a - b).eventually_sign] with m hm
  have hplain : Cost.compare (a.eval m) (b.eval m) = Scalar.sign ((a - b).eval m) := by
    rw [BigM.eval_sub]
    rfl
  have hcompare : Cost.compare a b = (a - b).compare 0 := by
    change a.compare b = (a - b).compare 0
    simp [BigM.compare]
  rw [prefers, prefers, hplain, hcompare, hm]

/-- Artificial columns cost a unit of the penalty, against the direction of optimization. -/
theorem direction_smul_artificialCost (g : Goal) :
    g.direction • (g.artificialCost : BigM ℚ) = BigM.penalty (-1) := by
  cases g <;> ext <;> simp [direction, artificialCost, isMaximization]

end Goal

end Optima
