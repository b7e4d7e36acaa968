import Optima.Proofs.Assignment.Termination

namespace Optima

namespace Scalar

theorem least?_map_add (k : ℚ) (xs : List ℚ) :
    least? (xs.map (k + ·)) = (least? xs).map (k + ·) := by
  have hfold (xs : List ℚ) (a : ℚ) :
      (xs.map (k + ·)).foldl least (k + a) = k + xs.foldl least a := by
    induction xs generalizing a with
    | nil => rfl
    | cons x xs ih =>
      rw [List.map_cons, List.foldl_cons, List.foldl_cons, ← ih, least_eq_min, least_eq_min,
        min_add_add_left]
  cases xs with
  | nil => rfl
  | cons x xs => exact congrArg some (hfold xs x)

end Scalar

namespace AssignmentProblem

variable (p : AssignmentProblem ℚ)

def maximized : AssignmentProblem ℚ := { p with isMaximization := true }

def negated : AssignmentProblem ℚ :=
  { p with costs := p.costs.map (·.map (-·)), isMaximization := false }

theorem rowCount_negated : p.negated.rowCount = p.rowCount := List.length_map _

theorem columnCount_negated : p.negated.columnCount = p.columnCount := by
  change ((p.costs.map (·.map (-·))).headD []).length = (p.costs.headD []).length
  cases p.costs with
  | nil => rfl
  | cons r rows => exact List.length_map _

theorem size_negated : p.negated.size = p.size := by
  rw [size, rowCount_negated, columnCount_negated, size]

variable {p}

theorem fault?_negated (hp : p.fault? = none) : p.negated.fault? = none := by
  have hlength := (rows_of_fault? hp).2
  have hrows : p.costs.zipIdx.find? (fun (row, _) => row.length != p.columnCount) = none := by
    refine (find?_zipIdx_eq_none fun row : List ℚ => row.length != p.columnCount).mpr ?_
    exact fun row hrow => by simp [hlength row hrow]
  have hrows' : p.negated.costs.zipIdx.find? (fun (row, _) => row.length != p.columnCount) =
      none := by
    refine (find?_zipIdx_eq_none fun row : List ℚ => row.length != p.columnCount).mpr ?_
    intro row hrow
    obtain ⟨r, hr, rfl⟩ := List.mem_map.mp hrow
    simp [hlength r hr]
  have hfinite (rows : List (List ℚ)) : (rows.flatten.any fun c => !Scalar.isFinite c) = false :=
    List.any_eq_false.mpr fun c _ => by simp [Scalar.isFinite_rat]
  rw [fault?, hrows, hfinite] at hp
  rw [fault?, rowCount_negated, columnCount_negated, hrows', hfinite]
  exact hp

theorem getD_map_neg (rows : List (List ℚ)) (i j : ℕ) :
    ((rows.map (·.map (-·))).getD i []).getD j 0 = -((rows.getD i []).getD j 0) := by
  have hrow := List.getD_map (l := rows) (d := []) (n := i) (List.map (-·))
  have hentry := List.getD_map (l := rows.getD i []) (d := (0 : ℚ)) (n := j) (-·)
  rw [List.map_nil] at hrow
  rw [neg_zero] at hentry
  rw [hrow, hentry]

theorem costs_balance_negated :
    p.negated.balance.costs = p.balance.costs.map (·.map (-·)) := by
  change (Matrix.ofFn p.negated.size p.negated.size _).rows = List.map _ (Matrix.ofFn _ _ _).rows
  rw [size_negated]
  simp only [Matrix.ofFn, List.map_map]
  refine List.map_congr_left fun i _ => ?_
  rw [Function.comp_apply, List.map_map]
  exact List.map_congr_left fun j _ => getD_map_neg p.costs i j

end AssignmentProblem

namespace Assignment

variable {p : AssignmentProblem ℚ} {s t : State ℚ}

section Reduction

theorem reduceRow_map_add (k : ℚ) (r : List ℚ) :
    State.reduceRow (r.map (k + ·)) = State.reduceRow r := by
  unfold State.reduceRow
  rw [Scalar.least?_map_add]
  cases hr : Scalar.least? r with
  | none =>
    rw [Scalar.least?_eq_none.mp hr]
    rfl
  | some x =>
    simp only [Option.map_some, List.map_map]
    refine List.map_congr_left fun y _ => ?_
    rw [Function.comp_apply]
    ring

/-- Adding a number to all costs is undone by the reduction of the rows. -/
theorem reduceRows_rows_of_map_add (k : ℚ)
    (hrows : s.reduced.rows = t.reduced.rows.map (·.map (k + ·))) (hsize : s.size = t.size)
    (hlength : t.reduced.rows.length = t.size) : s.reduceRows.rows = t.reduceRows.rows := by
  change s.reduced.rows.mapIdx _ = t.reduced.rows.mapIdx _
  rw [hrows, hsize]
  apply List.ext_getElem (by simp)
  intro i hi _
  have hi : i < t.size := by simpa [hlength] using hi
  rw [List.getElem_mapIdx, List.getElem_mapIdx, List.getElem_map, if_pos hi, if_pos hi,
    reduceRow_map_add]

end Reduction

/-- States of the two runs that belong together: they agree on all that steps look at, and the costs
of assignments have opposite signs. -/
structure State.Mirrors (s t : State ℚ) : Prop where
  reduced : s.reduced = t.reduced
  marks : s.marks = t.marks
  coveredRows : s.coveredRows = t.coveredRows
  coveredColumns : s.coveredColumns = t.coveredColumns
  minUncovered : s.minUncovered = t.minUncovered
  phase : s.phase = t.phase
  progress : s.progress = t.progress
  step : s.step = t.step
  assignments : s.assignments = t.assignments
  costs : ∀ i j, t.costs.get i j = -s.costs.get i j
  totalCost : t.totalCost = -s.totalCost

namespace State.Mirrors

/-- The problem, the costs, their total and the explanation are all that the states differ in. -/
theorem exists_eq (h : s.Mirrors t) : ∃ problem costs totalCost explanation,
    t = { s with problem, costs, totalCost, explanation } := by
  obtain ⟨hreduced, hmarks, hrows, hcolumns, hminimum, hphase, hprogress, hstep, hassignments, -⟩ :=
    h
  refine ⟨t.problem, t.costs, t.totalCost, t.explanation, ?_⟩
  rw [hreduced, hmarks, hrows, hcolumns, hminimum, hphase, hprogress, hstep, hassignments]

theorem of_costs {problem : AssignmentProblem ℚ} {costs : Matrix ℚ} {totalCost : ℚ}
    {explanation : String} (hcosts : ∀ i j, costs.get i j = -s.costs.get i j)
    (htotal : totalCost = -s.totalCost) :
    s.Mirrors { s with problem, costs, totalCost, explanation } :=
  ⟨rfl, rfl, rfl, rfl, rfl, rfl, rfl, rfl, rfl, hcosts, htotal⟩

theorem adjust (h : s.Mirrors t) (a : Adjustment ℚ) : (s.adjust a).Mirrors (t.adjust a) := by
  have hcosts := h.costs
  have htotal := h.totalCost
  obtain ⟨problem, costs, totalCost, explanation, rfl⟩ := h.exists_eq
  cases a with
  | cover c column => exact of_costs hcosts htotal
  | augment c path => exact of_costs hcosts htotal
  | shift x => exact of_costs hcosts htotal

theorem assign (h : s.Mirrors t) : s.assign.Mirrors t.assign := by
  have htotal : t.assign.totalCost = -s.assign.totalCost := by
    change Scalar.sum (t.marks.starred.map _) = -Scalar.sum (s.marks.starred.map _)
    rw [Scalar.sum_eq, Scalar.sum_eq, List.sum_neg, List.map_map, h.marks]
    exact congrArg List.sum (List.map_congr_left fun c _ => h.costs c.row c.column)
  have hcosts := h.costs
  obtain ⟨problem, costs, totalCost, explanation, rfl⟩ := h.exists_eq
  exact of_costs hcosts htotal

/-- No step looks at the costs as they were given, but the last one for the total. -/
theorem work (h : s.Mirrors t) : s.work.Mirrors t.work := by
  have hcosts := h.costs
  have htotal := h.totalCost
  have hadjust := h.adjust s.adjustment
  have hassign := h.assign
  obtain ⟨problem, costs, totalCost, explanation, rfl⟩ := h.exists_eq
  unfold State.work
  dsimp only
  cases hphase : s.phase with
  | reduceRows => exact of_costs hcosts htotal
  | reduceColumns => exact of_costs hcosts htotal
  | coverZeros => exact of_costs hcosts htotal
  | adjustMatrix =>
    rw [hphase] at hadjust
    exact hadjust
  | findAssignment => exact hassign
  | complete => exact of_costs hcosts htotal

theorem running (h : s.Mirrors t) :
    ({ s with step := s.step + 1, progress := .running } : State ℚ).Mirrors
      { t with step := t.step + 1, progress := .running } :=
  { h with step := congrArg (· + 1) h.step, progress := rfl }

theorem next (h : s.Mirrors t) : s.next.Mirrors t.next := by
  unfold State.next
  rw [← h.progress]
  split_ifs
  · exact h
  · exact h.running.work

end State.Mirrors

theorem after_eq_ok (k : ℕ) (s : State ℚ) : Solver.after k s = .ok (State.next^[k] s) := by
  induction k generalizing s with
  | zero => rfl
  | succ k ih => exact ih s.next

theorem State.Mirrors.iterate (h : s.Mirrors t) (k : ℕ) :
    (State.next^[k] s).Mirrors (State.next^[k] t) := by
  induction k generalizing s t with
  | zero => exact h
  | succ k ih => exact ih h.next

section Start

variable (p)

theorem exists_rows_costsToMinimize : ∃ k, (costsToMinimize p.maximized.balance).rows =
    (costsToMinimize p.negated.balance).rows.map (·.map (k + ·)) := by
  refine ⟨(Matrix.ofRows p.balance.costs).maximum?.getD 0, ?_⟩
  change p.balance.costs.map _ = p.negated.balance.costs.map _
  rw [AssignmentProblem.costs_balance_negated, List.map_map]
  refine List.map_congr_left fun r _ => ?_
  rw [Function.comp_apply, List.map_map]
  exact List.map_congr_left fun x _ => sub_eq_add_neg _ x

/-- The first step takes the difference off. -/
theorem mirrors_next_firstState :
    (firstState p.maximized.balance).next.Mirrors (firstState p.negated.balance).next := by
  have hn : p.balance.rowCount = p.negated.balance.rowCount := by
    rw [rowCount_balance, rowCount_balance, p.size_negated]
  obtain ⟨k, hk⟩ := exists_rows_costsToMinimize p
  have hrows : (firstState p.maximized.balance).reduceRows.rows =
      (firstState p.negated.balance).reduceRows.rows := by
    refine reduceRows_rows_of_map_add k hk ?_ ?_
    · change (Marks.blank _).length = (Marks.blank _).length
      rw [← hn]
      rfl
    · have hsize : (firstState p.negated.balance).size = p.negated.size := by
        rw [← rowCount_balance]
        exact List.length_replicate
      rw [hsize]
      exact (sized_costsToMinimize p.negated).rows
  have hreduced : (firstState p.maximized.balance).reduceRows =
      (firstState p.negated.balance).reduceRows := by
    rw [Matrix.mk.injEq]
    refine ⟨hrows, hn, ?_⟩
    change (p.balance.costs.head?.map _).getD 0 = (p.negated.balance.costs.head?.map _).getD 0
    rw [AssignmentProblem.costs_balance_negated]
    cases p.balance.costs with
    | nil => rfl
    | cons r rows => exact (List.length_map _).symm
  refine ⟨hreduced, congrArg Marks.blank hn, ?_, ?_, rfl, rfl, rfl, rfl, rfl, fun i j => ?_, rfl⟩
  · exact congrArg (List.replicate · false) hn
  · exact congrArg (List.replicate · false) hn
  · change (p.negated.balance.costs.getD i []).getD j 0 = -((p.balance.costs.getD i []).getD j 0)
    rw [AssignmentProblem.costs_balance_negated, AssignmentProblem.getD_map_neg]

end Start

/-- Maximizing profits and minimizing their negatives is one run: from the first step on the states
agree on the reduced costs, the marks, the covered lines, the phase, the status and the assignments.
Both complete after the same number of steps, with opposite totals. -/
theorem lockstep_of_negated (hp : p.fault? = none) : ∃ s₀ t₀,
    start p.maximized = .ok s₀ ∧ start p.negated = .ok t₀ ∧
      (∀ k, 0 < k → ∃ s t, Solver.after k s₀ = .ok s ∧ Solver.after k t₀ = .ok t ∧
        s.Mirrors t) ∧
      ∃ k s t, Solver.after k s₀ = .ok s ∧ Solver.after k t₀ = .ok t ∧
        s.progress = .complete ∧ t.progress = .complete ∧ t.totalCost = -s.totalCost ∧
        ∀ m < k, ∀ u, Solver.after m s₀ = .ok u ∨ Solver.after m t₀ = .ok u →
          u.progress ≠ .complete := by
  have hstart : start p.maximized = .ok (firstState p.maximized.balance) := by
    rw [start, show p.maximized.fault? = none from hp]
  have hstart' : start p.negated = .ok (firstState p.negated.balance) := by
    rw [start, AssignmentProblem.fault?_negated hp]
  have hmirrors (k : ℕ) : (State.next^[k + 1] (firstState p.maximized.balance)).Mirrors
      (State.next^[k + 1] (firstState p.negated.balance)) :=
    (mirrors_next_firstState p).iterate k
  have hprogress (k : ℕ) : (State.next^[k] (firstState p.maximized.balance)).progress =
      (State.next^[k] (firstState p.negated.balance)).progress := by
    cases k with
    | zero => rfl
    | succ k => exact (hmirrors k).progress
  have hcomplete : ∃ k, (State.next^[k] (firstState p.maximized.balance)).progress = .complete := by
    obtain ⟨k, -, t, hafter, hcomplete⟩ := exists_after_complete hstart
    rw [after_eq_ok, Except.ok.injEq] at hafter
    exact ⟨k, hafter ▸ hcomplete⟩
  refine ⟨_, _, hstart, hstart', fun k hk => ⟨_, _, after_eq_ok k _, after_eq_ok k _, ?_⟩, ?_⟩
  · obtain ⟨k, rfl⟩ := Nat.exists_eq_succ_of_ne_zero hk.ne'
    exact hmirrors k
  · refine ⟨Nat.find hcomplete, _, _, after_eq_ok _ _, after_eq_ok _ _, Nat.find_spec hcomplete,
      (hprogress _).symm.trans (Nat.find_spec hcomplete), ?_, fun m hm u hu => ?_⟩
    · cases Nat.find hcomplete with
      | zero => rfl
      | succ k => exact (hmirrors k).totalCost
    · have hrunning := Nat.find_min hcomplete hm
      rw [after_eq_ok, after_eq_ok, Except.ok.injEq, Except.ok.injEq] at hu
      rcases hu with rfl | rfl
      · exact hrunning
      · rwa [← hprogress]

/-- Both runs complete in the fourth state after the first one. -/
theorem rota_lockstep : ∃ s₀ t₀ : State ℚ,
    start rota.maximized = .ok s₀ ∧ start rota.negated = .ok t₀ ∧ s₀.reduced ≠ t₀.reduced ∧
      (∃ s t, Solver.after 1 s₀ = .ok s ∧ Solver.after 1 t₀ = .ok t ∧ s.Mirrors t) ∧
      ∃ s t, Solver.after 4 s₀ = .ok s ∧ Solver.after 4 t₀ = .ok t ∧ s.progress = .complete ∧
        t.progress = .complete ∧ s.totalCost = 9 ∧ t.totalCost = -9 := by
  have hp : rota.fault? = none := by decide +kernel
  obtain ⟨s₀, t₀, hs₀, ht₀, hmirrors, -⟩ := lockstep_of_negated hp
  have hdiffer : (firstState rota.maximized.balance).reduced.rows ≠
      (firstState rota.negated.balance).reduced.rows := by decide +kernel
  obtain ⟨s', s, hs', hs, hcomplete, htotal⟩ :=
    Solver.exists_after_of_any (e := start rota.maximized) (n := 4)
      (P := fun s => s.progress = .complete ∧ s.totalCost = (9 : ℚ)) (by decide +kernel)
  obtain rfl := Except.ok.inj (hs₀.symm.trans hs')
  obtain ⟨u, t, hu, ht, hmirror⟩ := hmirrors 4 (by decide)
  obtain rfl := Except.ok.inj (hs.symm.trans hu)
  refine ⟨s₀, t₀, hs₀, ht₀, fun h => hdiffer ?_, hmirrors 1 Nat.one_pos, s, t, hs, ht, hcomplete,
    hmirror.progress ▸ hcomplete, htotal, ?_⟩
  · rw [← (fits_start hs₀).2.1, ← (fits_start ht₀).2.1, h]
  · rw [hmirror.totalCost, htotal]

end Assignment

end Optima
