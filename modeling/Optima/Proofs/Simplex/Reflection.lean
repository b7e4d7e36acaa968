import Mathlib
import Optima.Proofs.Simplex.Agreement
import Optima.Proofs.Simplex.CostMaps

namespace Optima

theorem Scalar.sign_neg (x : ℚ) : sign (-x) = (sign x).swap := by
  rcases lt_trichotomy x 0 with h | rfl | h
  · rw [sign_eq_lt.mpr h, sign_eq_gt.mpr (neg_pos.mpr h)]
    rfl
  · rw [neg_zero, sign_eq_eq.mpr rfl]
    rfl
  · rw [sign_eq_gt.mpr h, sign_eq_lt.mpr (neg_neg_of_pos h)]
    rfl

namespace BigM

theorem compare_neg (a b : BigM ℚ) : (-a).compare (-b) = (a.compare b).swap := by
  rw [compare, compare, Ordering.swap_then, ← Scalar.sign_neg, ← Scalar.sign_neg]
  congr 2
  · simp only [multiple_neg]
    ring
  · simp only [constant_neg]
    ring

theorem signUpTo_neg (k : ℚ) (a : BigM ℚ) : (-a).signUpTo k = (a.signUpTo k).swap := by
  have hsignificant (x : ℚ) : (if Scalar.magnitude (-x) ≤ k then 0 else -x) =
      -(if Scalar.magnitude x ≤ k then 0 else x) := by
    rw [Scalar.magnitude_eq_abs, Scalar.magnitude_eq_abs, abs_neg]
    split_ifs
    · exact neg_zero.symm
    · rfl
  rw [signUpTo, signUpTo, Ordering.swap_then, ← Scalar.sign_neg, ← Scalar.sign_neg,
    ← hsignificant, ← hsignificant]
  rfl

def negation : CostMap ℚ (BigM ℚ) (BigM ℚ) where
  map c := -c
  map_zero := neg_zero
  map_add := neg_add
  map_sub := neg_sub'
  map_scale a k := (smul_neg k a).symm

end BigM

namespace Goal

def opposite : Goal → Goal
  | .maximize => .minimize
  | .minimize => .maximize

theorem improves_opposite (g : Goal) (c : BigM ℚ) : g.opposite.improves (-c) = g.improves c := by
  have h : Cost.signUpTo Scalar.tolerance (-c) = (Cost.signUpTo Scalar.tolerance c).swap :=
    BigM.signUpTo_neg _ c
  rw [improves, improves, h]
  cases g <;> cases Cost.signUpTo Scalar.tolerance c <;> rfl

theorem prefers_opposite (g : Goal) (a b : BigM ℚ) :
    g.opposite.prefers (-a) (-b) = g.prefers a b := by
  have h : Cost.compare (-a) (-b) = (Cost.compare a b).swap := BigM.compare_neg a b
  rw [prefers, prefers, h]
  cases g <;> cases Cost.compare a b <;> rfl

theorem artificialCost_opposite (g : Goal) :
    (g.opposite.artificialCost : BigM ℚ) = -g.artificialCost := by
  cases g <;> ext <;> simp [artificialCost, opposite, isMaximization]

end Goal

theorem LinearForm.coefficient_map_neg (ks : List ℚ) (ns : List String) (name : String) :
    (⟨ks.map (-·), ns⟩ : LinearForm ℚ).coefficient name =
      -(⟨ks, ns⟩ : LinearForm ℚ).coefficient name := by
  unfold coefficient
  cases ns.idxOf? name with
  | none => exact neg_zero.symm
  | some i =>
    have h := List.getD_map (l := ks) (d := (0 : ℚ)) (n := i) (-·)
    rwa [neg_zero] at h

def LinearProgram.opposite (p : LinearProgram ℚ) : LinearProgram ℚ :=
  { p with
    objective := { p.objective with coefficients := p.objective.coefficients.map (-·) }
    goal := p.goal.opposite }

theorem LinearProgram.fault?_opposite {p : LinearProgram ℚ} (hp : p.fault? = none) :
    p.opposite.fault? = none := by
  have hfinite (q : LinearProgram ℚ) : q.values.all Scalar.isFinite = true :=
    List.all_eq_true.mpr fun x _ => Scalar.isFinite_rat x
  simp only [fault?, hfinite] at hp ⊢
  simpa [opposite] using hp

namespace Simplex

variable {p : LinearProgram ℚ} {rule : PivotRule} {s t : State ℚ}

namespace Tableau

def opposite (t : Tableau ℚ (BigM ℚ)) : Tableau ℚ (BigM ℚ) :=
  t.mapCosts BigM.negation t.goal.opposite

theorem price_congr {t u : Tableau ℚ (BigM ℚ)} (hnames : t.names = u.names)
    (hcost : t.cost = u.cost) (hbasis : t.basis = u.basis) (hbasic : t.basicCost = u.basicCost)
    (hrhs : t.rhs = u.rhs) (hbody : t.body = u.body) (hgoal : t.goal = u.goal) :
    t.price = u.price := by
  unfold price basicTotal columnCount
  rw [hnames, hcost, hbasis, hbasic, hrhs, hbody, hgoal]

theorem pivot_opposite (t : Tableau ℚ (BigM ℚ)) (row column : ℕ) :
    t.opposite.pivot row column = (t.pivot row column).opposite :=
  pivot_mapCosts BigM.negation t.goal.opposite t row column

theorem preview?_opposite (rule : PivotRule) (t : Tableau ℚ (BigM ℚ)) :
    t.opposite.preview? rule = t.preview? rule :=
  preview?_mapCosts (fun c _ => t.goal.improves_opposite c)
    (fun a _ b _ => t.goal.prefers_opposite a b) rule

end Tableau

section FirstTableau

def Auxiliary.opposite (a : Auxiliary ℚ) : Auxiliary ℚ := { a with cost := -a.cost }

theorem auxiliaries_opposite (g : Goal) (i : ℕ) (row : Row ℚ) :
    auxiliaries g.opposite i row = (auxiliaries g i row).map Auxiliary.opposite := by
  unfold auxiliaries
  cases row.relation <;> simp [Auxiliary.opposite, Goal.artificialCost_opposite]

theorem addedColumns_opposite (p : LinearProgram ℚ) :
    addedColumns p.opposite = (addedColumns p).map (·.map Auxiliary.opposite) := by
  rw [addedColumns, addedColumns, List.map_map]
  apply List.map_congr_left
  rintro ⟨row, i⟩ -
  exact auxiliaries_opposite p.goal i row

theorem auxiliaryEntries_opposite (added : List (List (Auxiliary ℚ))) (i : ℕ) :
    auxiliaryEntries (added.map (·.map Auxiliary.opposite)) i = auxiliaryEntries added i := by
  rw [auxiliaryEntries, auxiliaryEntries, List.zipIdx_map, List.flatMap_map]
  simp [Auxiliary.opposite, Function.comp_def]

theorem flatten_opposite (added : List (List (Auxiliary ℚ))) {α : Type} (f : Auxiliary ℚ → α) :
    (added.map (·.map Auxiliary.opposite)).flatten.map f =
      added.flatten.map (f ∘ Auxiliary.opposite) := by
  rw [← List.map_flatten, List.map_map]

theorem names_opposite (p : LinearProgram ℚ) :
    (firstTableau p.opposite).names = (firstTableau p).names := by
  change p.variableNames ++ (addedColumns p.opposite).flatten.map Auxiliary.name = _
  rw [addedColumns_opposite, flatten_opposite]
  rfl

theorem basis_opposite (p : LinearProgram ℚ) :
    (firstTableau p.opposite).basis = (firstTableau p).basis := by
  change (List.range _).map (firstBasic _ (addedColumns p.opposite)) = _
  rw [addedColumns_opposite]
  apply List.map_congr_left
  intro i _
  rw [firstBasic, ← List.map_take, ← List.map_flatten, List.length_map]
  rfl

theorem cost_opposite (p : LinearProgram ℚ) :
    (firstTableau p.opposite).cost = (firstTableau p).cost.map (-·) := by
  change p.variableNames.map _ ++ (addedColumns p.opposite).flatten.map Auxiliary.cost =
    (p.variableNames.map _ ++ (addedColumns p).flatten.map Auxiliary.cost).map _
  rw [addedColumns_opposite, flatten_opposite, List.map_append, List.map_map, List.map_map]
  congr 1
  apply List.map_congr_left
  intro name _
  exact (congrArg BigM.ofScalar (LinearForm.coefficient_map_neg _ _ name)).trans
    (BigM.ext rfl neg_zero.symm)

theorem body_opposite (p : LinearProgram ℚ) :
    (firstTableau p.opposite).body = (firstTableau p).body := by
  have hcolumns : (firstTableau p.opposite).cost.length = (firstTableau p).cost.length := by
    rw [cost_opposite, List.length_map]
  apply Matrix.ext
  case rows =>
    change (rowsOf p).zipIdx.map (fun r =>
      r.1.coefficients ++ auxiliaryEntries (addedColumns p.opposite) r.2) = _
    rw [addedColumns_opposite]
    apply List.map_congr_left
    rintro ⟨row, i⟩ -
    exact congrArg (row.coefficients ++ ·) (auxiliaryEntries_opposite _ i)
  case columnCount => exact hcolumns
  all_goals rfl

theorem firstTableau_opposite (p : LinearProgram ℚ) :
    firstTableau p.opposite = (firstTableau p).opposite := by
  have hbasic : (firstTableau p.opposite).basicCost = (firstTableau p).opposite.basicCost := by
    change (firstTableau p.opposite).basis.map
        (fun j => (firstTableau p.opposite).cost.getD j 0) =
      ((firstTableau p).basis.map fun j => (firstTableau p).cost.getD j 0).map _
    rw [basis_opposite, cost_opposite, List.map_map]
    apply List.map_congr_left
    intro j _
    exact Tableau.cost_mapCosts BigM.negation p.goal.opposite (firstTableau p) j
  calc
    firstTableau p.opposite = (firstTableau p.opposite).price :=
      (firstTableau_canonical p.opposite).priced.symm
    _ = (firstTableau p).opposite.price :=
      Tableau.price_congr (names_opposite p) (cost_opposite p) (basis_opposite p) hbasic rfl
        (body_opposite p) rfl
    _ = (firstTableau p).price.opposite := Tableau.price_mapCosts _ _ _
    _ = (firstTableau p).opposite := by rw [(firstTableau_canonical p).priced]

end FirstTableau

structure State.Opposite (s t : State ℚ) : Prop where
  toTableau : t.toTableau = s.toTableau.opposite
  kinds : t.kinds = s.kinds
  status : t.status = s.status
  iteration : t.iteration = s.iteration

/-- Both runs fail in the same way, or both succeed with opposite states. -/
def Lockstep : Except SolveError (State ℚ) → Except SolveError (State ℚ) → Prop
  | .ok s, .ok t => s.Opposite t
  | .error e, .error e' => e = e'
  | _, _ => False

namespace State

def stepAll (rules : List PivotRule) (s : State ℚ) : Except SolveError (State ℚ) :=
  rules.foldlM (fun s rule => s.step rule) s

namespace Opposite

theorem move (h : s.Opposite t) (rule : PivotRule) : t.move rule = s.move rule := by
  have huses : t.usesArtificial = s.usesArtificial := by
    unfold usesArtificial isArtificial
    rw [h.kinds, h.toTableau]
    rfl
  rw [State.move, State.move, huses, h.toTableau, Tableau.preview?_opposite]

theorem after (h : s.Opposite t) (m : Move ℚ) : (s.after m).Opposite (t.after m) := by
  cases m with
  | stopInfeasible | stopOptimal | stopUnbounded column =>
    exact ⟨h.toTableau, h.kinds, rfl, h.iteration⟩
  | pivot row column ratio =>
    refine ⟨?_, h.kinds, rfl, congrArg (· + 1) h.iteration⟩
    change t.toTableau.pivot row column = (s.toTableau.pivot row column).opposite
    rw [h.toTableau, Tableau.pivot_opposite]

theorem step (h : s.Opposite t) (rule : PivotRule) : Lockstep (s.step rule) (t.step rule) := by
  rw [State.step, State.step, h.status, h.move rule]
  split_ifs
  · exact h
  · cases s.move rule with
    | error e => rfl
    | ok m => exact h.after m

/-- Opposite states stay in lockstep under any sequence of rules. -/
theorem stepAll (h : s.Opposite t) (rules : List PivotRule) :
    Lockstep (s.stepAll rules) (t.stepAll rules) := by
  induction rules generalizing s t with
  | nil => exact h
  | cons rule rules ih =>
    have hstep := h.step rule
    rw [State.stepAll, State.stepAll, List.foldlM_cons, List.foldlM_cons]
    cases hs : s.step rule <;> cases ht : t.step rule <;> rw [hs, ht] at hstep
    · exact hstep
    · exact hstep.elim
    · exact hstep.elim
    · exact ih hstep

end Opposite

end State

theorem firstState_opposite (p : LinearProgram ℚ) :
    (firstState p).Opposite (firstState p.opposite) := by
  have hkinds : (firstState p.opposite).kinds = (firstState p).kinds := by
    rw [firstState_kinds, firstState_kinds, addedColumns_opposite, flatten_opposite]
    rfl
  exact ⟨firstTableau_opposite p, hkinds, rfl, rfl⟩

/-- The runs of an accepted program and of its opposite, by the same sequence of rules. -/
theorem lockstep_of_opposite (hp : p.fault? = none) :
    ∃ s₀ t₀, start p = .ok s₀ ∧ start p.opposite = .ok t₀ ∧
      ∀ rules, Lockstep (s₀.stepAll rules) (t₀.stepAll rules) :=
  ⟨firstState p, firstState p.opposite, start_eq_firstState hp,
    start_eq_firstState (LinearProgram.fault?_opposite hp), (firstState_opposite p).stepAll⟩

theorem detour_lockstep : detour.fault? = none ∧
    ∃ s₀ t₀, start detour = .ok s₀ ∧ start detour.opposite = .ok t₀ ∧
      ∀ rules, Lockstep (s₀.stepAll rules) (t₀.stepAll rules) :=
  ⟨detour_fits.1, lockstep_of_opposite detour_fits.1⟩

end Simplex

end Optima
