import Mathlib
import Optima.Proofs.BigM

namespace Optima

open Filter

namespace Scalar

theorem sign_sub_compares (x y : ℚ) : (sign (x - y)).Compares x y := by
  cases h : sign (x - y) with
  | lt => exact sub_neg.mp (sign_eq_lt.mp h)
  | eq => exact sub_eq_zero.mp (sign_eq_eq.mp h)
  | gt => exact sub_pos.mp (sign_eq_gt.mp h)

theorem sign_mul_of_pos {k : ℚ} (hk : 0 < k) (x : ℚ) : sign (x * k) = sign x := by
  cases h : sign x with
  | lt => exact sign_eq_lt.mpr (mul_neg_of_neg_of_pos (sign_eq_lt.mp h) hk)
  | eq => rw [sign_eq_eq.mp h, zero_mul, sign_eq_eq]
  | gt => exact sign_eq_gt.mpr (mul_pos (sign_eq_gt.mp h) hk)

end Scalar

namespace BigM

variable {a b : BigM ℚ} {o : Ordering} {k : ℚ}

section Comparison

theorem compare_compares (a b : BigM ℚ) : (a.compare b).Compares a b := by
  cases h : a.compare b with
  | lt => exact compare_eq_lt.mp h
  | gt => exact compare_eq_gt.mp h
  | eq =>
    obtain ⟨hmultiple, hconstant⟩ := Ordering.then_eq_eq.mp h
    rw [Scalar.sign_eq_eq, sub_eq_zero] at hmultiple hconstant
    exact BigM.ext hconstant hmultiple

theorem compare_eq_iff : a.compare b = o ↔ o.Compares a b :=
  ⟨fun h => h ▸ compare_compares a b, fun h => (compare_compares a b).inj h⟩

theorem compare_sub_zero (a b : BigM ℚ) : (a - b).compare 0 = a.compare b := by
  simp only [compare, multiple_sub, constant_sub, multiple_zero, constant_zero, sub_zero]

theorem compare_neg_neg (a b : BigM ℚ) : (-b).compare (-a) = a.compare b := by
  simp only [compare, multiple_neg, constant_neg, neg_sub_neg]

theorem compare_add_right (a b c : BigM ℚ) : (a + c).compare (b + c) = a.compare b := by
  rw [← compare_sub_zero, add_sub_add_right_eq_sub, compare_sub_zero]

theorem compare_scale_of_pos (hk : 0 < k) (a b : BigM ℚ) :
    (a.scale k).compare (b.scale k) = a.compare b := by
  simp only [compare, scale, ← sub_mul, Scalar.sign_mul_of_pos hk]

theorem compare_scale_of_neg (hk : k < 0) (a b : BigM ℚ) :
    (b.scale k).compare (a.scale k) = a.compare b := by
  have hscale (c : BigM ℚ) : c.scale k = (-c).scale (-k) := by
    simp only [scale, constant_neg, multiple_neg, neg_mul_neg]
  rw [hscale, hscale, compare_scale_of_pos (neg_pos.mpr hk), compare_neg_neg]

/-- A total order that goes along with sums, and turns around with negative multiples. -/
structure IsOrder (cmp : BigM ℚ → BigM ℚ → Ordering) : Prop where
  eq_iff : ∀ a b, cmp a b = .eq ↔ a = b
  swap : ∀ a b, cmp b a = (cmp a b).swap
  trans : ∀ a b c, cmp a b = .lt → cmp b c = .lt → cmp a c = .lt
  add_right : ∀ a b c, cmp (a + c) (b + c) = cmp a b
  scale_of_pos : ∀ k, 0 < k → ∀ a b, cmp (a.scale k) (b.scale k) = cmp a b
  scale_of_neg : ∀ k < 0, ∀ a b, cmp (b.scale k) (a.scale k) = cmp a b

theorem isOrder_compare : IsOrder compare where
  eq_iff _ _ := compare_eq_iff
  swap a b := compare_eq_iff.mpr (Ordering.compares_swap.mpr (compare_compares a b))
  trans _ _ _ hab hbc := compare_eq_lt.mpr ((compare_eq_lt.mp hab).trans (compare_eq_lt.mp hbc))
  add_right := compare_add_right
  scale_of_pos _ hk := compare_scale_of_pos hk
  scale_of_neg _ hk := compare_scale_of_neg hk

end Comparison

section Evaluation

/-- A map that goes along with the arithmetic. -/
structure IsEvaluation (f : BigM ℚ → ℚ) : Prop where
  add : ∀ a b, f (a + b) = f a + f b
  sub : ∀ a b, f (a - b) = f a - f b
  neg : ∀ a, f (-a) = -f a
  scale : ∀ a k, f (a.scale k) = k * f a
  sum : ∀ as, f (Cost.sum as) = (as.map f).sum

theorem eval_sum (m : ℚ) (as : List (BigM ℚ)) : (Cost.sum as).eval m = (as.map (eval m)).sum := by
  rw [sum_eq]
  exact map_list_sum (⟨⟨eval m, eval_zero m⟩, eval_add m⟩ : BigM ℚ →+ ℚ) as

theorem isEvaluation_eval (m : ℚ) : IsEvaluation (eval m) where
  add := eval_add m
  sub := eval_sub m
  neg := eval_neg m
  scale a k := (eval_scale m a k).trans (mul_comm _ _)
  sum := eval_sum m

/-- For a large enough penalty the values compare as the numbers do before one is chosen. -/
theorem eventually_compares (a b : BigM ℚ) :
    ∀ᶠ m in atTop, (a.compare b).Compares (a.eval m) (b.eval m) := by
  filter_upwards [(a - b).eventually_sign] with m hsign
  rw [compare_sub_zero, eval_sub] at hsign
  rw [← hsign]
  exact Scalar.sign_sub_compares _ _

/-- What holds of the values for every large enough penalty is what the comparison says. -/
theorem compare_eq_iff_eventually :
    a.compare b = o ↔ ∀ᶠ m in atTop, o.Compares (a.eval m) (b.eval m) := by
  constructor
  · rintro rfl
    exact eventually_compares a b
  · intro h
    -- at a penalty that is large enough for both, the values compare in one way only
    obtain ⟨m, hcompare, ho⟩ := ((eventually_compares a b).and h).exists
    exact hcompare.inj ho

/-- The number with parts up to a given size replaced by zero. -/
def significant (t : ℚ) (a : BigM ℚ) : BigM ℚ where
  constant := if |a.constant| ≤ t then 0 else a.constant
  multiple := if |a.multiple| ≤ t then 0 else a.multiple

theorem signUpTo_eq_compare (t : ℚ) (a : BigM ℚ) :
    a.signUpTo t = (a.significant t).compare 0 := by
  simp only [signUpTo, compare, significant, Scalar.magnitude_eq_abs, multiple_zero,
    constant_zero, sub_zero]

theorem signUpTo_eq_iff_eventually {t : ℚ} :
    a.signUpTo t = o ↔ ∀ᶠ m in atTop, o.Compares ((a.significant t).eval m) 0 := by
  rw [signUpTo_eq_compare, compare_eq_iff_eventually]
  simp only [eval_zero]

end Evaluation

/-- Penalty numbers are compared as their values are for every large enough penalty. The comparison
is a total order that goes along with sums and multiples, the evaluation goes along with them at any
penalty, and the sign up to a tolerance is, for every large enough penalty, that of the value
without the parts up to the tolerance. -/
theorem order_of_large_penalties :
    (∀ (a b : BigM ℚ) (o : Ordering),
      a.compare b = o ↔ ∀ᶠ m in atTop, o.Compares (a.eval m) (b.eval m)) ∧
    IsOrder compare ∧ (∀ m, IsEvaluation (eval m)) ∧
    ∀ (a : BigM ℚ) (t : ℚ) (o : Ordering),
      a.signUpTo t = o ↔ ∀ᶠ m in atTop, o.Compares ((a.significant t).eval m) 0 :=
  ⟨fun _ _ _ => compare_eq_iff_eventually, isOrder_compare, isEvaluation_eval,
    fun _ _ _ => signUpTo_eq_iff_eventually⟩

/-- A slight multiple of the penalty outweighs any constant, and a negative multiple turns this
around, but up to the tolerance it is as good as none. -/
theorem sliver_outweighs_constant :
    (∀ᶠ m in atTop, 0 < (⟨-1000, 1e-10⟩ : BigM ℚ).eval m) ∧
    ((⟨-1000, 1e-10⟩ : BigM ℚ).scale (-3)).compare 0 = .lt ∧
    ∀ᶠ m in atTop, ((⟨-1000, 1e-10⟩ : BigM ℚ).significant Scalar.tolerance).eval m < 0 := by
  obtain ⟨hcompare, hsign, hzero⟩ : (⟨-1000, 1e-10⟩ : BigM ℚ).compare 0 = .gt ∧
      (⟨-1000, 1e-10⟩ : BigM ℚ).signUpTo Scalar.tolerance = .lt ∧
      ((0 : BigM ℚ).scale (-3)).compare 0 = .eq := by
    decide +kernel
  obtain ⟨hlarge, horder, -, hup⟩ := order_of_large_penalties
  refine ⟨?_, ?_, (hup _ _ _).mp hsign⟩
  · have h := (hlarge _ _ _).mp hcompare
    simp only [eval_zero] at h
    exact h
  · have h := horder.scale_of_neg (-3) (by norm_num) 0 ⟨-1000, 1e-10⟩
    rwa [(horder.eq_iff _ _).mp hzero, horder.swap ⟨-1000, 1e-10⟩ 0, hcompare] at h

end BigM

end Optima
