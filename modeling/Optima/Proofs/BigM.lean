import Mathlib
import Optima.BigM
import Optima.Proofs.Scalar

namespace Optima

namespace BigM

attribute [ext] BigM

@[simp] theorem constant_zero : (0 : BigM ℚ).constant = 0 := rfl
@[simp] theorem multiple_zero : (0 : BigM ℚ).multiple = 0 := rfl
@[simp] theorem constant_add (a b : BigM ℚ) : (a + b).constant = a.constant + b.constant := rfl
@[simp] theorem multiple_add (a b : BigM ℚ) : (a + b).multiple = a.multiple + b.multiple := rfl
@[simp] theorem constant_sub (a b : BigM ℚ) : (a - b).constant = a.constant - b.constant := rfl
@[simp] theorem multiple_sub (a b : BigM ℚ) : (a - b).multiple = a.multiple - b.multiple := rfl
@[simp] theorem constant_neg (a : BigM ℚ) : (-a).constant = -a.constant := rfl
@[simp] theorem multiple_neg (a : BigM ℚ) : (-a).multiple = -a.multiple := rfl
@[simp] theorem constant_ofScalar (c : ℚ) : (ofScalar c).constant = c := rfl
@[simp] theorem multiple_ofScalar (c : ℚ) : (ofScalar c).multiple = 0 := rfl
@[simp] theorem constant_penalty (k : ℚ) : (penalty k).constant = 0 := rfl
@[simp] theorem multiple_penalty (k : ℚ) : (penalty k).multiple = k := rfl

instance : AddCommGroup (BigM ℚ) where
  add_assoc a b c := by ext <;> simp [add_assoc]
  zero_add a := by ext <;> simp
  add_zero a := by ext <;> simp
  add_comm a b := by ext <;> simp [add_comm]
  neg_add_cancel a := by ext <;> simp
  sub_eq_add_neg a b := by ext <;> simp [sub_eq_add_neg]
  nsmul := nsmulRec
  zsmul := zsmulRec

instance : SMul ℚ (BigM ℚ) := ⟨fun k a => a.scale k⟩

@[simp] theorem constant_smul (k : ℚ) (a : BigM ℚ) : (k • a).constant = a.constant * k := rfl
@[simp] theorem multiple_smul (k : ℚ) (a : BigM ℚ) : (k • a).multiple = a.multiple * k := rfl

instance : Module ℚ (BigM ℚ) where
  one_smul a := by ext <;> simp
  mul_smul k l a := by ext <;> simp <;> ring
  smul_zero k := by ext <;> simp
  smul_add k a b := by ext <;> simp [add_mul]
  add_smul k l a := by ext <;> simp [mul_add]
  zero_smul a := by ext <;> simp

instance : LinearOrder (BigM ℚ) :=
  LinearOrder.lift' (fun a => toLex (a.multiple, a.constant)) fun a b h => by
    have h := congrArg ofLex h
    ext
    · exact congrArg Prod.snd h
    · exact congrArg Prod.fst h

theorem lt_iff {a b : BigM ℚ} :
    a < b ↔ a.multiple < b.multiple ∨ a.multiple = b.multiple ∧ a.constant < b.constant :=
  Prod.Lex.toLex_lt_toLex

theorem le_iff {a b : BigM ℚ} :
    a ≤ b ↔ a.multiple < b.multiple ∨ a.multiple = b.multiple ∧ a.constant ≤ b.constant :=
  Prod.Lex.toLex_le_toLex

theorem multiple_nonneg {a : BigM ℚ} (h : 0 ≤ a) : 0 ≤ a.multiple := by
  rcases le_iff.mp h with hlt | ⟨heq, -⟩
  · exact hlt.le
  · exact heq.le

instance : IsOrderedAddMonoid (BigM ℚ) where
  add_le_add_left a b h c := by
    rw [le_iff] at h ⊢
    simpa using h

instance : PosSMulMono ℚ (BigM ℚ) where
  smul_le_smul_of_nonneg_left k hk a b h := by
    rcases hk.eq_or_lt with rfl | hk
    · simp
    · rw [le_iff] at h ⊢
      simpa [hk, hk.ne'] using h

theorem compare_eq_lt {a b : BigM ℚ} : a.compare b = .lt ↔ a < b := by
  rw [compare, Ordering.then_eq_lt, Scalar.sign_eq_lt, Scalar.sign_eq_eq, Scalar.sign_eq_lt,
    lt_iff, sub_neg, sub_eq_zero, sub_neg]

theorem compare_eq_gt {a b : BigM ℚ} : a.compare b = .gt ↔ b < a := by
  rw [compare, Ordering.then_eq_gt, Scalar.sign_eq_gt, Scalar.sign_eq_eq, Scalar.sign_eq_gt,
    lt_iff, sub_pos, sub_eq_zero, sub_pos, eq_comm]

/-- Both parts are zero or larger than the tolerance. -/
def IsClear (a : BigM ℚ) : Prop := Scalar.IsClear a.constant ∧ Scalar.IsClear a.multiple

instance (a : BigM ℚ) : Decidable a.IsClear := inferInstanceAs (Decidable (_ ∧ _))

theorem IsClear.signUpTo_eq {a : BigM ℚ} (h : a.IsClear) :
    a.signUpTo Scalar.tolerance = a.compare 0 := by
  simp [signUpTo, compare, h.1.significant_eq, h.2.significant_eq]

theorem sum_eq (cs : List (BigM ℚ)) : Cost.sum cs = cs.sum := by
  rw [List.sum_eq_foldl]
  rfl

theorem constant_sum {ι : Type} (s : Finset ι) (f : ι → BigM ℚ) :
    (∑ i ∈ s, f i).constant = ∑ i ∈ s, (f i).constant :=
  map_sum (⟨⟨constant, rfl⟩, constant_add⟩ : BigM ℚ →+ ℚ) f s

theorem multiple_sum {ι : Type} (s : Finset ι) (f : ι → BigM ℚ) :
    (∑ i ∈ s, f i).multiple = ∑ i ∈ s, (f i).multiple :=
  map_sum (⟨⟨multiple, rfl⟩, multiple_add⟩ : BigM ℚ →+ ℚ) f s

section Evaluation

variable {a : BigM ℚ} {m : ℚ}

@[simp] theorem eval_zero (m : ℚ) : (0 : BigM ℚ).eval m = 0 := by simp [eval]

@[simp] theorem eval_add (m : ℚ) (a b : BigM ℚ) : (a + b).eval m = a.eval m + b.eval m := by
  simp only [eval, constant_add, multiple_add]
  ring

@[simp] theorem eval_sub (m : ℚ) (a b : BigM ℚ) : (a - b).eval m = a.eval m - b.eval m := by
  simp only [eval, constant_sub, multiple_sub]
  ring

@[simp] theorem eval_neg (m : ℚ) (a : BigM ℚ) : (-a).eval m = -a.eval m := by
  simp only [eval, constant_neg, multiple_neg]
  ring

@[simp] theorem eval_scale (m : ℚ) (a : BigM ℚ) (k : ℚ) : (a.scale k).eval m = a.eval m * k := by
  simp only [eval, scale]
  ring

open Filter

/-- A positive multiple of a large enough penalty exceeds any bound. -/
theorem eventually_lt_eval (h : 0 < a.multiple) (b : ℚ) : ∀ᶠ m in atTop, b < a.eval m := by
  filter_upwards [eventually_gt_atTop ((b - a.constant) / a.multiple)] with m hm
  rw [div_lt_iff₀ h] at hm
  rw [eval]
  linarith

theorem eventually_eval_lt (h : a.multiple < 0) (b : ℚ) : ∀ᶠ m in atTop, a.eval m < b := by
  have hneg : 0 < (-a).multiple := neg_pos.mpr h
  filter_upwards [eventually_lt_eval hneg (-b)] with m hm
  rwa [eval_neg, neg_lt_neg_iff] at hm

/-- For a large enough penalty a number has the sign that it has before one is chosen. -/
theorem eventually_sign (a : BigM ℚ) : ∀ᶠ m in atTop, Scalar.sign (a.eval m) = a.compare 0 := by
  rcases lt_trichotomy a.multiple 0 with h | h | h
  · filter_upwards [eventually_eval_lt h 0] with m hm
    rw [Scalar.sign_eq_lt.mpr hm, compare_eq_lt.mpr (lt_iff.mpr (.inl h))]
  · filter_upwards with m
    have hsign : Scalar.sign (0 : ℚ) = .eq := Scalar.sign_eq_eq.mpr rfl
    simp [eval, compare, h, hsign]
  · filter_upwards [eventually_lt_eval h 0] with m hm
    rw [Scalar.sign_eq_gt.mpr hm, compare_eq_gt.mpr (lt_iff.mpr (.inl h))]

/-- For a large enough penalty it is clear of the tolerance when its parts are. -/
theorem IsClear.eventually_eval (h : a.IsClear) : ∀ᶠ m in atTop, Scalar.IsClear (a.eval m) := by
  rcases lt_trichotomy a.multiple 0 with hlt | heq | hgt
  · filter_upwards [eventually_eval_lt hlt (-Scalar.tolerance)] with m hm
    intro _
    exact lt_abs.mpr (.inr (lt_neg.mp hm))
  · filter_upwards with m
    rw [eval, heq, zero_mul, add_zero]
    exact h.1
  · filter_upwards [eventually_lt_eval hgt Scalar.tolerance] with m hm
    intro _
    exact lt_abs.mpr (.inl hm)

theorem IsClear.eventually_signUpTo (h : a.IsClear) : ∀ᶠ m in atTop,
    Cost.signUpTo Scalar.tolerance (a.eval m) = a.signUpTo Scalar.tolerance := by
  filter_upwards [h.eventually_eval, a.eventually_sign] with m hclear hsign
  rw [h.signUpTo_eq, ← hsign]
  exact congrArg Scalar.sign hclear.significant_eq

end Evaluation

end BigM

end Optima
