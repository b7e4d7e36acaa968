import Mathlib
import Optima.Proofs.Linear.Feasible

namespace Optima

namespace LinearForm

/-- The form that takes the coefficient found for each of the given names. -/
def readBy (f : LinearForm ℚ) (names : List String) : LinearForm ℚ :=
  ⟨names.map f.coefficient, names⟩

/-- What the form gives a name as often as it is listed is what the positions of the form give. -/
def ReadInFull (f : LinearForm ℚ) (names : List String) : Prop :=
  ∀ name ∈ names, names.count name * f.coefficient name = f.eval (Pi.single name 1)

instance (f : LinearForm ℚ) (names : List String) : Decidable (f.ReadInFull names) :=
  inferInstanceAs (Decidable (∀ name ∈ names, _))

variable {f : LinearForm ℚ} {names : List String}

theorem eval_readBy (f : LinearForm ℚ) (names : List String) (x : String → ℚ) :
    (f.readBy names).eval x = (names.map fun name => f.coefficient name * x name).sum := by
  rw [readBy, eval, List.zipWith_map_left, List.zipWith_self]

theorem eval_readBy_single (f : LinearForm ℚ) (names : List String) (name : String) :
    (f.readBy names).eval (Pi.single name 1) = names.count name * f.coefficient name := by
  rw [eval_readBy]
  induction names with
  | nil => simp
  | cons n names ih =>
    rw [List.map_cons, List.sum_cons, ih, List.count_cons, Pi.single_apply]
    by_cases h : n = name
    · subst h
      simp
      ring
    · simp [h]

/-- A form is the sum of its values at the unit points. -/
theorem eval_eq_sum_single {s : Finset String} (h : ∀ name ∈ f.names, name ∈ s) (x : String → ℚ) :
    f.eval x = ∑ name ∈ s, x name * f.eval (Pi.single name 1) := by
  obtain ⟨ks, ns⟩ := f
  induction ns generalizing ks with
  | nil => simp [eval]
  | cons n ns ih =>
    cases ks with
    | nil => simp [eval]
    | cons k ks =>
      have hrest := ih ks fun name hname => h name (List.mem_cons_of_mem n hname)
      have hn : n ∈ s := h n List.mem_cons_self
      simp only [eval_cons, mul_add, Finset.sum_add_distrib, hrest, Pi.single_apply]
      simp [hn, mul_comm]

/-- A form has the values it is read with, at all nonnegative points, when it is read in full. -/
theorem readInFull_iff (h : ∀ name ∈ f.names, name ∈ names) :
    f.ReadInFull names ↔ ∀ x : String → ℚ, (∀ name ∈ names, 0 ≤ x name) →
      (f.readBy names).eval x = f.eval x := by
  constructor
  · intro hfull x _
    have hread : ∀ name ∈ (f.readBy names).names, name ∈ names.toFinset := fun name hname =>
      List.mem_toFinset.mpr hname
    rw [eval_eq_sum_single hread, eval_eq_sum_single fun name hname =>
      List.mem_toFinset.mpr (h name hname)]
    apply Finset.sum_congr rfl
    intro name hname
    rw [eval_readBy_single, hfull name (List.mem_toFinset.mp hname)]
  · intro heq name _
    rw [← heq (Pi.single name 1), eval_readBy_single]
    intro n _
    rw [Pi.single_apply]
    positivity

theorem readInFull_of_nodup (hnames : names.Nodup)
    (hlength : f.coefficients.length = f.names.length) (hf : f.names.Nodup)
    (hsub : ∀ name ∈ f.names, name ∈ names) : f.ReadInFull names := by
  apply (readInFull_iff hsub).mpr
  intro x _
  rw [eval_readBy, sum_coefficient hnames hlength hf hsub]

end LinearForm

def Constraint.readBy (c : Constraint ℚ) (names : List String) : Constraint ℚ :=
  { c with toLinearForm := c.toLinearForm.readBy names }

/-- A sign restriction says nothing at nonnegative points however it is read. -/
theorem Constraint.holds_readBy_of_isSignRestriction {c : Constraint ℚ}
    (h : c.isSignRestriction = true) {names : List String} {x : String → ℚ}
    (hx : ∀ name ∈ names, 0 ≤ x name) : (c.readBy names).Holds x := by
  obtain ⟨hrel, hbound, hk⟩ := nonneg_of_isSignRestriction h
  change c.relation.Holds ((c.toLinearForm.readBy names).eval x) c.bound
  rw [hrel, hbound]
  apply LinearForm.eval_nonneg _ hx
  intro k hmem
  obtain ⟨name, -, rfl⟩ := List.mem_map.mp hmem
  exact LinearForm.coefficient_of_forall_mem hk le_rfl name

namespace LinearProgram

/-- The program as it is read: every form over all of its variables. -/
def byName (p : LinearProgram ℚ) : LinearProgram ℚ where
  objective := p.objective.readBy p.variableNames
  constraints := p.constraints.map (·.readBy p.variableNames)
  goal := p.goal

/-- Every form is read in full. -/
structure ReadInFull (p : LinearProgram ℚ) : Prop where
  objective : p.objective.ReadInFull p.variableNames
  constraints : ∀ c ∈ p.constraints, c.toLinearForm.ReadInFull p.variableNames

/-- At every nonnegative point two programs agree on whether all constraints hold, and on the
objective where they do. -/
def Agrees (p q : LinearProgram ℚ) : Prop :=
  ∀ x : String → ℚ, (∀ name ∈ p.variableNames, 0 ≤ x name) →
    ((∀ c ∈ p.constraints, c.Holds x) ↔ ∀ c ∈ q.constraints, c.Holds x) ∧
    ((∀ c ∈ p.constraints, c.Holds x) → p.objective.eval x = q.objective.eval x)

variable {p : LinearProgram ℚ}

theorem readInFull_of_namesDistinct (hp : p.fault? = none) (hd : p.NamesDistinct) :
    p.ReadInFull where
  objective := LinearForm.readInFull_of_nodup (nodup_variableNames hd.objective)
    (lengths_of_fault?_eq_none hp).1 hd.objective
    fun _ hname => mem_variableNames.mpr (.inl hname)
  constraints c hc := LinearForm.readInFull_of_nodup (nodup_variableNames hd.objective)
    ((lengths_of_fault?_eq_none hp).2 c hc) (hd.constraints c hc)
    fun _ hname => mem_variableNames.mpr (.inr ⟨c, hc, hname⟩)

theorem ReadInFull.agrees (h : p.ReadInFull) : p.Agrees p.byName := by
  intro x hx
  have hconstraint (c : Constraint ℚ) (hc : c ∈ p.constraints) :
      (c.toLinearForm.readBy p.variableNames).eval x = c.eval x :=
    (LinearForm.readInFull_iff fun _ hname => mem_variableNames.mpr (.inr ⟨c, hc, hname⟩)).mp
      (h.constraints c hc) x hx
  have hobjective : (p.objective.readBy p.variableNames).eval x = p.objective.eval x :=
    (LinearForm.readInFull_iff fun _ hname => mem_variableNames.mpr (.inl hname)).mp
      h.objective x hx
  refine ⟨?_, fun _ => hobjective.symm⟩
  rw [byName, List.forall_mem_map]
  apply forall₂_congr
  intro c hc
  rw [Constraint.Holds, Constraint.Holds, ← hconstraint c hc]
  rfl

end LinearProgram

end Optima
