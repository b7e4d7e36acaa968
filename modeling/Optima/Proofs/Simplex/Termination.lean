import Mathlib
import Optima.Proofs.Simplex.Optimality
import Optima.Proofs.Simplex.Pivots

/-!
Runs that always bring in the first profitable column. By Bland's argument they never return to a
basis, provided that among the rows with the smallest ratio the one with the smallest basic column
leaves. The ratio test takes the first of these rows instead, and a run can go round in a cycle.
-/

namespace Optima.Simplex

open State

variable {p : LinearProgram ℚ} {rule : PivotRule} {s t u s₀ : State ℚ}

section Change

variable {P : ℕ → Prop} {i j x y : ℕ}

theorem exists_change (hxy : x ≤ y) (hx : P x) (hy : ¬ P y) :
    ∃ k, x ≤ k ∧ k < y ∧ P k ∧ ¬ P (k + 1) := by
  by_contra! hkeep
  apply hy
  induction y, hxy using Nat.le_induction with
  | base => exact hx
  | succ y hxy ih =>
    by_cases hP : P y
    · exact hkeep y hxy (Nat.lt_succ_self y) hP
    · exact absurd (ih hP fun k hxk hk => hkeep k hxk (hk.trans (Nat.lt_succ_self y))) hP

/-- What is the same at both ends, and holds in between but not always, ends at some step. -/
theorem exists_change_of_iff (hP : P i ↔ P j) (hix : i ≤ x) (hxj : x ≤ j) (hiy : i ≤ y)
    (hyj : y ≤ j) (hx : P x) (hy : ¬ P y) : ∃ k, i ≤ k ∧ k < j ∧ P k ∧ ¬ P (k + 1) := by
  by_cases hj : P j
  · obtain ⟨k, hik, hky, hk⟩ := exists_change hiy (hP.mpr hj) hy
    exact ⟨k, hik, hky.trans_le hyj, hk⟩
  · obtain ⟨k, hxk, hkj, hk⟩ := exists_change hxj hx hj
    exact ⟨k, hix.trans hxk, hkj, hk⟩

end Change

namespace State

/-- The first profitable column enters at a row although a row with the same ratio has a smaller
basic column. -/
def MissesLowest (s : State ℚ) : Prop :=
  ∃ row column ratio i, s.move .firstProfitable = .ok (.pivot row column ratio) ∧
    (s.ratios column)[i]? = some (some ratio) ∧ s.basis.getD i 0 < s.basis.getD row 0

variable {row column : ℕ} {ratio : ℚ}

/-- A column that enters here but would not improve the objective elsewhere has a row to tell the
difference, and the basic column of that row is not basic there. -/
theorem Pivots.exists_row (hp : Pivots rule s t row column ratio) (hs : Follows s₀ s)
    (hu : Follows s₀ u) (hnonneg : 0 ≤ s₀.goal.direction • u.relativeCost.getD column 0) :
    ∃ i < s.rowCount, s.basis.getD i 0 ∉ u.basis ∧
      0 < s.body.get i column • s₀.goal.direction • u.relativeCost.getD (s.basis.getD i 0) 0 := by
  have hneg := Tableau.direction_smul_neg_of_entering? hs.separated hp.entering
  rw [hs.goal, hs.relativeCost_eq hu (Tableau.lt_columnCount_of_entering? hs.canonical hp.entering),
    smul_sub, sub_neg, Finset.smul_sum] at hneg
  obtain ⟨i, hi, hpos⟩ : ∃ i ∈ Finset.range s.rowCount, 0 < s₀.goal.direction •
      s.body.get i column • u.relativeCost.getD (s.basis.getD i 0) 0 := by
    by_contra! hnonpos
    exact absurd (hnonneg.trans_lt hneg) (not_lt.mpr (Finset.sum_nonpos hnonpos))
  rw [smul_comm] at hpos
  refine ⟨i, Finset.mem_range.mp hi, fun hmem => ?_, hpos⟩
  rw [hu.canonical.relativeCost_of_mem hmem, smul_zero, smul_zero] at hpos
  exact lt_irrefl _ hpos

/-- A row at zero with a positive coefficient takes part in the tie. -/
theorem Pivots.missesLowest_of_row (hp : Pivots .firstProfitable s t row column ratio)
    (hs : Follows s₀ s) {i : ℕ} (hi : i < s.rowCount) (hentry : 0 < s.body.get i column)
    (hrhs : s.rhs.getD i 0 = 0) (hless : s.basis.getD i 0 < s.basis.getD row 0) :
    s.MissesLowest := by
  have hget : (s.ratios column)[i]? = some (some 0) := by
    rw [Tableau.ratios_getElem? hs.canonical.toShaped column hi,
      if_pos (hs.separated.tolerance_lt hentry), hrhs, Scalar.snap_zero, zero_div]
  have hle := (Tableau.smallestRatio?_eq_some hp.smallest).2.2 i 0 hget le_rfl
  have hratio : ratio = 0 := le_antisymm hle hp.ratio_nonneg
  exact ⟨row, column, ratio, i, hp.move, hratio ▸ hget, hless⟩

/-- The heart of Bland's argument: if the column that leaves enters at another state of the same
point, and no column that is basic only here is larger, then the tie was broken at the wrong row. -/
theorem Pivots.missesLowest (hp : Pivots .firstProfitable s t row column ratio)
    (hs : Follows s₀ s) (hu : Follows s₀ u) (hvalue : u.value = s.value)
    (he : u.entering? .firstProfitable = some (s.basis.getD row 0))
    (hlt : column < s.basis.getD row 0)
    (hle : ∀ j ∈ s.basis, j ∉ u.basis → j ≤ s.basis.getD row 0) : s.MissesLowest := by
  have hneg := Tableau.direction_smul_neg_of_entering? hu.separated he
  have hbefore (j : ℕ) (hj : j < s.basis.getD row 0) :
      0 ≤ u.goal.direction • u.relativeCost.getD j 0 :=
    Tableau.nonneg_of_lt_entering? hu.separated he hj
  rw [hu.goal] at hneg hbefore
  obtain ⟨i, hi, hnot, hpos⟩ := hp.exists_row hs hu (hbefore column hlt)
  -- it is not the row of the pivot, whose basic column improves the objective there
  have hne : s.basis.getD i 0 ≠ s.basis.getD row 0 := by
    intro heq
    obtain rfl := hs.canonical.basis_injective hi (hp.row_lt hs) heq
    exact absurd hpos (not_lt.mpr (smul_nonpos_of_nonneg_of_nonpos (hp.get_pos hs).le hneg.le))
  have hless : s.basis.getD i 0 < s.basis.getD row 0 :=
    lt_of_le_of_ne (hle _ (Tableau.basis_mem hi) hnot) hne
  have hentry : 0 < s.body.get i column := by
    by_contra hnonpos
    have := smul_nonneg (neg_nonneg.mpr (not_lt.mp hnonpos)) (hbefore _ hless)
    rw [neg_smul, neg_nonneg] at this
    exact absurd hpos (not_lt.mpr this)
  have hrhs : s.rhs.getD i 0 = 0 := by
    rw [← hs.canonical.value_basis hi, ← hvalue, Tableau.value_eq_spread,
      Tableau.spread_of_not_mem hnot]
  exact hp.missesLowest_of_row hs hi hentry hrhs hless

end State

variable {run : ℕ → State ℚ} {n i j k c : ℕ}

/-- The column enters the basis at some step from one state of a run to another. -/
def Fickle (run : ℕ → State ℚ) (i j c : ℕ) : Prop :=
  ∃ k, i ≤ k ∧ k < j ∧ c ∉ (run k).basis ∧ c ∈ (run (k + 1)).basis

namespace State.SteadyRun

theorem lt_columnCount_of_fickle (h : SteadyRun rule n run) (h₀ : Follows s₀ (run 0)) (hj : j ≤ n)
    (hc : Fickle run i j c) : c < s₀.columnCount := by
  obtain ⟨k, -, hkj, -, hc⟩ := hc
  have hk := h.follows h₀ (hkj.trans_le hj)
  rw [← hk.columnCount]
  exact hk.canonical.lt_columnCount_of_mem hc

theorem exists_fickle (h : SteadyRun rule n run) (h₀ : Follows s₀ (run 0)) (hij : i ≤ j)
    (hj : j ≤ n) (hiteration : (run i).iteration ≠ (run j).iteration) : ∃ c, Fickle run i j c := by
  obtain ⟨k, hik, hkj, hk, hk'⟩ :=
    exists_change (P := fun k => (run k).iteration = (run i).iteration) hij rfl hiteration.symm
  rcases (h k (by omega)).cases with ⟨-, -, heq⟩ | ⟨-, row, column, ratio, hp⟩
  · exact absurd (heq.trans hk) hk'
  · have hs := h.follows h₀ (show k ≤ n by omega)
    exact ⟨column, k, hik, hkj, hp.not_mem hs, hp.column_mem hs⟩

theorem exists_last_fickle (h : SteadyRun rule n run) (h₀ : Follows s₀ (run 0)) (hij : i ≤ j)
    (hj : j ≤ n) (hiteration : (run i).iteration ≠ (run j).iteration) :
    ∃ c, Fickle run i j c ∧ ∀ d, Fickle run i j d → d ≤ c := by
  have hfinite : {c | Fickle run i j c}.Finite :=
    (Set.finite_lt_nat s₀.columnCount).subset fun c hc => h.lt_columnCount_of_fickle h₀ hj hc
  exact Set.exists_max_image _ id hfinite (h.exists_fickle h₀ hij hj hiteration)

/-- A run of first profitable columns that returns to its basic columns has stayed at one point, and
broken a tie at the wrong row. -/
theorem missesLowest_of_basis (h : SteadyRun .firstProfitable n run) (h₀ : Follows s₀ (run 0))
    (hij : i ≤ j) (hj : j ≤ n) (hiteration : (run i).iteration ≠ (run j).iteration)
    (hbasis : ∀ c, c ∈ (run i).basis ↔ c ∈ (run j).basis) :
    (∀ k, i ≤ k → k ≤ j → (run k).value = (run i).value) ∧
      ∃ k, i ≤ k ∧ k < j ∧ (run k).MissesLowest := by
  have hfollows (k : ℕ) (hk : k ≤ j) : Follows s₀ (run k) := h.follows h₀ (hk.trans hj)
  have hvalue (k : ℕ) (hik : i ≤ k) (hkj : k ≤ j) : (run k).value = (run i).value := by
    have hends := (hfollows i hij).value_eq_of_basis (hfollows j le_rfl) fun c => (hbasis c).symm
    have hobjective := (hfollows i hij).objectiveValue_eq_of_value (hfollows j le_rfl) hends
    exact h.value_eq h₀ hj hobjective.symm hik hkj
  refine ⟨hvalue, ?_⟩
  -- the last column that enters also leaves, as it is basic at both ends or at none
  obtain ⟨c, ⟨b, hib, hbj, hb, hb'⟩, hlast⟩ := h.exists_last_fickle h₀ hij hj hiteration
  obtain ⟨a, hia, haj, ha, ha'⟩ := exists_change_of_iff (P := fun k => c ∈ (run k).basis) (hbasis c)
    (show i ≤ b + 1 by omega) hbj hib hbj.le hb' hb
  obtain ⟨_, _, hin⟩ := (h b (by omega)).pivots_of_entering hb hb'
  obtain ⟨row, column, ratio, hout, rfl⟩ :=
    (h a (by omega)).pivots_of_leaving (hfollows a haj.le) ha ha'
  refine ⟨a, hia, haj, hout.missesLowest (hfollows a haj.le) (hfollows b hbj.le) ?_ hin.entering
    ?_ ?_⟩
  · rw [hvalue a hia haj.le, hvalue b hib hbj.le]
  · have hnot := hout.not_mem (hfollows a haj.le)
    apply lt_of_le_of_ne (hlast _ ⟨a, hia, haj, hnot, hout.column_mem (hfollows a haj.le)⟩)
    exact fun heq => hnot (heq ▸ ha)
  · intro d hd hd'
    -- a column that is basic here and not there enters at some time
    obtain ⟨k, hik, hkj, hk, hk'⟩ := exists_change_of_iff (P := fun k => d ∉ (run k).basis)
      (not_congr (hbasis d)) hib hbj.le hia haj.le hd' (not_not.mpr hd)
    exact hlast d ⟨k, hik, hkj, hk, not_not.mp hk'⟩

/-- A run that never returns to its basic columns ends once it has had all choices of them. -/
theorem isTerminal_of_injective (h : SteadyRun rule n run) (h₀ : Follows s₀ (run 0))
    (hinjective : ∀ i j, i ≤ j → j ≤ n → (run i).iteration ≠ (run j).iteration →
      (run i).basis.toFinset ≠ (run j).basis.toFinset)
    (hn : s₀.columnCount.choose (run 0).rowCount ≤ n) : (run n).status.isTerminal = true := by
  by_contra hterminal
  have hrunning := Bool.eq_false_iff.mpr hterminal
  have hiteration (k : ℕ) (hk : k ≤ n) := (h.iteration hrunning hk).2
  have hmem : ∀ k ∈ Finset.range (n + 1), (run k).basis.toFinset ∈
      (Finset.range s₀.columnCount).powersetCard (run 0).rowCount := by
    intro k hk
    have hk : k ≤ n := by simpa [Nat.lt_succ_iff] using hk
    have hs := h.follows h₀ hk
    rw [← hs.columnCount, ← h.rowCount hk]
    exact hs.canonical.basis_mem_powersetCard
  have hinj : Set.InjOn (fun k => (run k).basis.toFinset) (Finset.range (n + 1)) := by
    intro i hi j hj heq
    have hi : i ≤ n := by simpa [Nat.lt_succ_iff] using hi
    have hj : j ≤ n := by simpa [Nat.lt_succ_iff] using hj
    have hi' := hiteration i hi
    have hj' := hiteration j hj
    by_contra hne
    rcases Nat.lt_or_gt_of_ne hne with hlt | hlt
    · exact hinjective i j hlt.le hj (by omega) heq
    · exact hinjective j i hlt.le hi (by omega) heq.symm
  have hcard := Finset.card_le_card_of_injOn _ hmem hinj
  rw [Finset.card_range, Finset.card_powersetCard, Finset.card_range] at hcard
  omega

end State.SteadyRun

/-- With the first profitable column, states with different numbers of pivots but the same basic
columns show a run that has stayed at one point and broken a tie at the wrong row. Runs that break
no tie at a wrong row end after at most as many steps as there are choices of basic columns. -/
theorem missesLowest_of_basis_eq (hstart : start p = .ok s₀) (hsep : s₀.Separated)
    (h0 : run 0 = s₀) (hrun : SteadyRun .firstProfitable n run) :
    (∀ i j, i ≤ j → j ≤ n → (run i).iteration ≠ (run j).iteration →
      (run i).basis.toFinset = (run j).basis.toFinset →
      (∀ k, i ≤ k → k ≤ j → (run k).value = (run i).value) ∧
        ∃ k, i ≤ k ∧ k < j ∧ (run k).MissesLowest) ∧
    ((∀ k < n, ¬ (run k).MissesLowest) → s₀.columnCount.choose s₀.rowCount ≤ n →
      (run n).status.isTerminal = true) := by
  obtain ⟨-, rfl⟩ := eq_firstState_of_start hstart
  have h₀ : Follows (firstState p) (run 0) := h0 ▸ follows_firstState hsep
  have hmisses (i j : ℕ) (hij : i ≤ j) (hj : j ≤ n)
      (hiteration : (run i).iteration ≠ (run j).iteration)
      (hbasis : (run i).basis.toFinset = (run j).basis.toFinset) :=
    hrun.missesLowest_of_basis h₀ hij hj hiteration fun c => by
      rw [← List.mem_toFinset, hbasis, List.mem_toFinset]
  refine ⟨hmisses, fun hnever hn => ?_⟩
  apply hrun.isTerminal_of_injective h₀ _ (h0 ▸ hn)
  intro i j hij hj hiteration hbasis
  obtain ⟨-, k, -, hkj, hk⟩ := hmisses i j hij hj hiteration hbasis
  exact hnever k (hkj.trans_le hj) hk

/-- Maximize 2v + 3w - 3x - 3y + 3z where two rows leave nothing for the first pivots. -/
def carousel : LinearProgram ℚ where
  objective := ⟨[2, 3, -3, -3, 3], ["v", "w", "x", "y", "z"]⟩
  constraints := [⟨⟨[-1, 0, -1, 1, -2], ["v", "w", "x", "y", "z"]⟩, .atMost, 0⟩,
    ⟨⟨[2, 1, -2, 1, -3], ["v", "w", "x", "y", "z"]⟩, .atMost, 0⟩,
    ⟨⟨[1, 1, 1, 1, 1], ["v", "w", "x", "y", "z"]⟩, .atMost, 1⟩]
  goal := .maximize

def carouselMove (k : ℕ) : Move ℚ :=
  match k % 6 with
  | 0 => .pivot 1 0 0
  | 1 => .pivot 0 1 0
  | 2 => .pivot 1 2 0
  | 3 => .pivot 0 4 0
  | 4 => .pivot 1 3 0
  | _ => .pivot 0 5 0

def carouselRun : ℕ → State ℚ
  | 0 => firstState carousel
  | k + 1 => (carouselRun k).after (carouselMove k)

theorem exists_carouselMove (k : ℕ) :
    ∃ row column ratio, carouselMove k = .pivot row column ratio := by
  unfold carouselMove
  split <;> exact ⟨_, _, _, rfl⟩

theorem carousel_running (k : ℕ) :
    (carouselRun k).status.isTerminal = false ∧ (carouselRun k).iteration = k := by
  induction k with
  | zero => exact ⟨rfl, rfl⟩
  | succ k ih =>
    obtain ⟨row, column, ratio, hpivot⟩ := exists_carouselMove k
    rw [carouselRun, hpivot]
    exact ⟨rfl, congrArg (· + 1) ih.2⟩

theorem carousel_fits : carousel.fault? = none ∧ (carouselRun 0).Separated ∧
    (∀ k < 7, MoveFits .firstProfitable (carouselRun k) (carouselMove k) ∧
      PivotFits (carouselRun k) (carouselMove k) ∧ (carouselRun (k + 1)).Separated) ∧
    (carouselRun 7).toTableau = (carouselRun 1).toTableau := by
  decide +kernel

theorem start_carousel : start carousel = .ok (carouselRun 0) :=
  start_eq_firstState carousel_fits.1

theorem carousel_steady : SteadyRun .firstProfitable 7 carouselRun := by
  intro k hk
  obtain ⟨hmove, hpivot, hsep⟩ := carousel_fits.2.2.1 k hk
  exact separatedStep_of_moveFits (carousel_running k).1 hmove hpivot hsep

theorem carouselMove_add (k : ℕ) : carouselMove (k + 6) = carouselMove k := by
  rw [carouselMove, carouselMove, Nat.add_mod_right]

theorem toTableau_after_congr (h : s.toTableau = t.toTableau) (m : Move ℚ) :
    (s.after m).toTableau = (t.after m).toTableau := by
  cases m with
  | stopInfeasible | stopOptimal | stopUnbounded column => exact h
  | pivot row column ratio => exact congrArg (·.pivot row column) h

/-- From the second state on every tableau comes back after six pivots. -/
theorem carousel_period (k : ℕ) :
    (carouselRun (k + 7)).toTableau = (carouselRun (k + 1)).toTableau := by
  induction k with
  | zero => exact carousel_fits.2.2.2
  | succ k ih =>
    have hmove : carouselMove (k + 7) = carouselMove (k + 1) := carouselMove_add (k + 1)
    change ((carouselRun (k + 7)).after (carouselMove (k + 7))).toTableau = _
    rw [hmove]
    exact toTableau_after_congr ih _

theorem carousel_moveFits (k : ℕ) :
    MoveFits .firstProfitable (carouselRun k) (carouselMove k) := by
  induction k using Nat.strong_induction_on with
  | _ k ih =>
    by_cases hk : k < 7
    · exact (carousel_fits.2.2.1 k hk).1
    · obtain ⟨m, rfl⟩ := Nat.exists_eq_add_of_le' (not_lt.mp hk)
      have hfits := ih (m + 1) (by omega)
      have hmove : carouselMove (m + 7) = carouselMove (m + 1) := carouselMove_add (m + 1)
      obtain ⟨row, column, ratio, hpivot⟩ := exists_carouselMove (m + 1)
      rw [hpivot] at hfits hmove
      rw [hmove, MoveFits, carousel_period]
      exact hfits

theorem carousel_missesLowest : ∃ k, 1 ≤ k ∧ k < 7 ∧ (carouselRun k).MissesLowest := by
  obtain ⟨hmisses, -⟩ :=
    missesLowest_of_basis_eq start_carousel carousel_fits.2.1 rfl carousel_steady
  have hiteration : (carouselRun 1).iteration ≠ (carouselRun 7).iteration := by
    rw [(carousel_running 1).2, (carousel_running 7).2]
    decide
  exact (hmisses 1 7 (by omega) le_rfl hiteration (by rw [carousel_period 0])).2

/-- A run of first profitable columns that never ends: after the first pivot it returns to the same
basic columns every six pivots. -/
theorem carousel_cycles : start carousel = .ok (carouselRun 0) ∧
    ∀ k, (carouselRun k).step .firstProfitable = .ok (carouselRun (k + 1)) ∧
      (carouselRun k).status.isTerminal = false ∧ (carouselRun k).iteration = k ∧
      (carouselRun (k + 7)).basis = (carouselRun (k + 1)).basis := by
  refine ⟨start_carousel, fun k => ?_⟩
  obtain ⟨hs, hiteration⟩ := carousel_running k
  have hstep := step_of_move hs (move_eq_of_moveFits (carousel_moveFits k))
  exact ⟨hstep, hs, hiteration, congrArg Tableau.basis (carousel_period k)⟩

end Optima.Simplex
