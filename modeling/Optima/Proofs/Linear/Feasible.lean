import Mathlib
import Optima.Proofs.Linear.Goal
import Optima.Proofs.Lists

namespace Optima

def Relation.Holds : Relation → ℚ → ℚ → Prop
  | .equal, a, b => a = b
  | .atLeast, a, b => b ≤ a
  | .atMost, a, b => a ≤ b

instance (r : Relation) (a b : ℚ) : Decidable (r.Holds a b) :=
  match r with
  | .equal => inferInstanceAs (Decidable (a = b))
  | .atLeast => inferInstanceAs (Decidable (b ≤ a))
  | .atMost => inferInstanceAs (Decidable (a ≤ b))

theorem Relation.flip_holds {r : Relation} {a b : ℚ} : r.flip.Holds (-a) (-b) ↔ r.Holds a b := by
  cases r <;> simp [flip, Holds]

def LinearForm.eval (f : LinearForm ℚ) (x : String → ℚ) : ℚ :=
  (f.coefficients.zipWith (fun k name => k * x name) f.names).sum

def Constraint.Holds (c : Constraint ℚ) (x : String → ℚ) : Prop :=
  c.relation.Holds (c.eval x) c.bound

instance (c : Constraint ℚ) (x : String → ℚ) : Decidable (c.Holds x) :=
  inferInstanceAs (Decidable (c.relation.Holds _ _))

namespace LinearProgram

/-- A point that is nonnegative and meets every constraint. -/
structure Feasible (p : LinearProgram ℚ) (x : String → ℚ) : Prop where
  nonneg : ∀ name ∈ p.variableNames, 0 ≤ x name
  holds : ∀ c ∈ p.constraints, c.Holds x

/-- There are feasible points, and their objective values pass every bound. -/
def Unbounded (p : LinearProgram ℚ) : Prop :=
  (∃ x, p.Feasible x) ∧ ∀ B, ∃ x, p.Feasible x ∧ p.goal.Better (p.objective.eval x) B

/-- No form lists a variable twice. -/
structure NamesDistinct (p : LinearProgram ℚ) : Prop where
  objective : p.objective.names.Nodup
  constraints : ∀ c ∈ p.constraints, c.names.Nodup

end LinearProgram

namespace LinearForm

theorem eval_cons (k : ℚ) (ks : List ℚ) (n : String) (ns : List String) (x : String → ℚ) :
    eval ⟨k :: ks, n :: ns⟩ x = k * x n + eval ⟨ks, ns⟩ x := by
  simp [eval]

theorem coefficient_cons (k : ℚ) (ks : List ℚ) (n : String) (ns : List String) (name : String) :
    coefficient ⟨k :: ks, n :: ns⟩ name = if n = name then k else coefficient ⟨ks, ns⟩ name := by
  unfold coefficient
  simp only [List.idxOf?_cons, beq_iff_eq]
  split_ifs with h
  · simp
  · cases ns.idxOf? name <;> simp

theorem coefficient_of_not_mem {f : LinearForm ℚ} {name : String} (h : name ∉ f.names) :
    f.coefficient name = 0 := by
  rw [coefficient, List.idxOf?_eq_none_iff.mpr h]

/-- What holds of all coefficients and of zero holds of what is found for a name. -/
theorem coefficient_of_forall_mem {F : Type} [Scalar F] {P : F → Prop} {f : LinearForm F}
    (h : ∀ k ∈ f.coefficients, P k) (h0 : P 0) (name : String) : P (f.coefficient name) := by
  unfold coefficient
  split
  · exact getD_of_forall_mem h h0 _
  · exact h0

theorem eval_nonneg {f : LinearForm ℚ} {x : String → ℚ} (hk : ∀ k ∈ f.coefficients, 0 ≤ k)
    (hx : ∀ name ∈ f.names, 0 ≤ x name) : 0 ≤ f.eval x := by
  apply List.sum_nonneg
  intro y hy
  obtain ⟨i, hi, rfl⟩ := List.getElem_of_mem hy
  rw [List.getElem_zipWith]
  exact mul_nonneg (hk _ (List.getElem_mem _)) (hx _ (List.getElem_mem _))

/-- With distinct names the coefficients found by name say the same as those by position. -/
theorem sum_coefficient {names : List String} (hnames : names.Nodup) {f : LinearForm ℚ}
    (hlength : f.coefficients.length = f.names.length) (hf : f.names.Nodup)
    (hsub : ∀ name ∈ f.names, name ∈ names) (x : String → ℚ) :
    (names.map fun name => f.coefficient name * x name).sum = f.eval x := by
  rw [← List.sum_toFinset _ hnames]
  obtain ⟨ks, ns⟩ := f
  -- names do not repeat, so that every term is the whole coefficient of its name
  induction ns generalizing ks with
  | nil => simp [eval, coefficient]
  | cons n ns ih =>
    obtain ⟨k, ks, rfl⟩ := List.exists_cons_of_length_eq_add_one hlength
    obtain ⟨hn, hns⟩ := List.nodup_cons.mp hf
    have hsplit (name : String) : coefficient ⟨k :: ks, n :: ns⟩ name * x name =
        (if n = name then k * x n else 0) + coefficient ⟨ks, ns⟩ name * x name := by
      rw [coefficient_cons]
      split_ifs with h
      · subst h
        rw [coefficient_of_not_mem hn, zero_mul, add_zero]
      · rw [zero_add]
    simp only [hsplit, Finset.sum_add_distrib, eval_cons]
    rw [ih ks (by simpa using hlength) hns fun name h => hsub name (List.mem_cons_of_mem n h),
      Finset.sum_ite_eq, if_pos (by simpa using hsub n List.mem_cons_self)]

end LinearForm

theorem Constraint.nonneg_of_isSignRestriction {c : Constraint ℚ}
    (h : c.isSignRestriction = true) :
    c.relation = .atLeast ∧ c.bound = 0 ∧ ∀ k ∈ c.coefficients, 0 ≤ k := by
  simp only [isSignRestriction, Bool.and_eq_true, decide_eq_true_eq, beq_iff_eq] at h
  obtain ⟨⟨hrel, hbound⟩, hsign⟩ := h
  refine ⟨hrel, hbound, fun k hk => ?_⟩
  by_cases h0 : k = 0
  · exact h0.ge
  · have hmem : k ∈ c.coefficients.filter (!· == 0) := List.mem_filter.mpr ⟨hk, by simpa using h0⟩
    split at hsign
    · next a ha =>
      rw [ha, List.mem_singleton] at hmem
      exact hmem ▸ (of_decide_eq_true hsign).le
    · simp at hsign

namespace LinearProgram

theorem mem_foldl_names {names more : List String} {name : String} :
    name ∈ more.foldl (fun names name => if names.contains name then names else names ++ [name])
      names ↔ name ∈ names ∨ name ∈ more := by
  induction more generalizing names with
  | nil => simp
  | cons n more ih =>
    rw [List.foldl_cons, ih, List.mem_cons]
    split_ifs with h
    · have := List.contains_iff_mem.mp h
      grind
    · grind

theorem mem_variableNames {F : Type} {p : LinearProgram F} {name : String} :
    name ∈ p.variableNames ↔ name ∈ p.objective.names ∨ ∃ c ∈ p.constraints, name ∈ c.names := by
  rw [variableNames, mem_foldl_names, List.mem_flatMap]

theorem nodup_foldl_names {names more : List String} (h : names.Nodup) :
    (more.foldl (fun names name => if names.contains name then names else names ++ [name])
      names).Nodup := by
  induction more generalizing names with
  | nil => exact h
  | cons n more ih =>
    rw [List.foldl_cons]
    split_ifs with hn
    · exact ih h
    · have hn : n ∉ names := by simpa using hn
      exact ih (List.nodup_append.mpr ⟨h, List.nodup_singleton n, by grind⟩)

theorem nodup_variableNames {F : Type} {p : LinearProgram F} (h : p.objective.names.Nodup) :
    p.variableNames.Nodup := nodup_foldl_names h

theorem isFinite_of_fault?_eq_none {F : Type} [Scalar F] {p : LinearProgram F}
    (h : p.fault? = none) : ∀ x ∈ p.values, Scalar.isFinite x = true := by
  simp only [fault?] at h
  split at h
  · cases h
  · split at h
    · cases h
    · split_ifs at h with hall
      exact List.all_eq_true.mp hall

theorem lengths_of_fault?_eq_none {p : LinearProgram ℚ} (h : p.fault? = none) :
    p.objective.coefficients.length = p.objective.names.length ∧
      ∀ c ∈ p.constraints, c.coefficients.length = c.names.length := by
  simp only [fault?] at h
  split at h
  · simp at h
  · next hobj =>
    split at h
    · simp at h
    · next hfind =>
      refine ⟨not_not.mp hobj, fun c hc => ?_⟩
      obtain ⟨i, hi, rfl⟩ := List.getElem_of_mem hc
      have := List.findSome?_eq_none_iff.mp hfind (p.constraints[i], i)
        (List.mk_mem_zipIdx_iff_getElem?.mpr (List.getElem?_eq_getElem hi))
      by_contra hne
      simp [hne] at this

end LinearProgram

end Optima
