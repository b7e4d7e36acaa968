import Mathlib
import Optima.Proofs.Runs

namespace Optima

variable {σ : Type}

namespace Run

variable {s t : σ} {later later' : List σ} {r : Run σ}

theorem final_cons (s t : σ) (later : List σ) : final ⟨s, t :: later⟩ = final ⟨t, later⟩ := by
  rw [final, List.getLast?_cons]
  rfl

theorem final_append (s : σ) (later later' : List σ) :
    final ⟨s, later ++ later'⟩ = final ⟨final ⟨s, later⟩, later'⟩ := by
  induction later generalizing s with
  | nil => rfl
  | cons t later ih => rw [List.cons_append, final_cons, final_cons, ih]

variable [Solver σ]

/-- All states but the last are running, and each of them steps to the next. -/
def Consecutive (r : Run σ) : Prop :=
  r.states.IsChain fun u v => Solver.isTerminal u = false ∧ Solver.step u = .ok v

theorem consecutive_nil (s : σ) : Consecutive ⟨s, []⟩ := List.isChain_singleton s

theorem consecutive_cons : Consecutive ⟨s, t :: later⟩ ↔
    (Solver.isTerminal s = false ∧ Solver.step s = .ok t) ∧ Consecutive ⟨t, later⟩ :=
  List.isChain_cons_cons

theorem outcome_eq_ok : r.outcome = .ok t ↔ r.converged = true ∧ r.final = t := by
  rw [outcome]
  split_ifs with h <;> simp [h]

end Run

namespace Solver

open Run

variable [Solver σ] {s t : σ} {e : SolveError} {later : List σ} {n k : ℕ}

theorem advance_succ_eq_ok (hs : isTerminal s = false) : advance (n + 1) s = .ok later ↔
    ∃ t rest, later = t :: rest ∧ step s = .ok t ∧ advance n t = .ok rest := by
  constructor
  · intro h
    rw [advance, if_neg (by simp [hs])] at h
    obtain ⟨t, ht, h⟩ := exists_ok_of_bind h
    obtain ⟨rest, hrest, h⟩ := exists_ok_of_bind h
    exact ⟨t, rest, (Except.ok.inj h).symm, ht, hrest⟩
  · rintro ⟨t, rest, rfl, ht, hrest⟩
    exact advance_succ hs ht hrest

theorem advance_succ_eq_error (hs : isTerminal s = false) : advance (n + 1) s = .error e ↔
    step s = .error e ∨ ∃ t, step s = .ok t ∧ advance n t = .error e := by
  rw [advance, if_neg (by simp [hs])]
  cases hstep : step s with
  | error e' => simp [bind, Except.bind]
  | ok t => cases hrest : advance n t <;> simp [hrest, bind, Except.bind, pure, Except.pure]

/-- The states that follow lead from one to the next until a terminal one or the limit. -/
theorem advance_eq_ok_iff : advance n s = .ok later ↔
    Consecutive ⟨s, later⟩ ∧ later.length ≤ n ∧
      (later.length < n → converged ⟨s, later⟩ = true) := by
  induction n generalizing s later with
  | zero =>
    rw [advance, Except.ok.injEq, eq_comm, Nat.le_zero, List.length_eq_zero_iff]
    constructor
    · rintro rfl
      exact ⟨consecutive_nil s, rfl, fun h => absurd h (Nat.lt_irrefl 0)⟩
    · exact fun h => h.2.1
  | succ n ih =>
    cases hs : isTerminal s with
    | true =>
      rw [advance_of_isTerminal hs, Except.ok.injEq, eq_comm]
      cases later with
      | nil => exact iff_of_true rfl ⟨consecutive_nil s, Nat.zero_le _, fun _ => hs⟩
      | cons t later => simp [consecutive_cons, hs]
    | false =>
      rw [advance_succ_eq_ok hs]
      cases later with
      | nil =>
        refine iff_of_false (by simp) fun h => ?_
        exact Bool.false_ne_true (hs.symm.trans (h.2.2 (Nat.succ_pos n)))
      | cons t later =>
        simp only [List.cons.injEq, ↓existsAndEq, true_and, ih, consecutive_cons, hs,
          converged, final_cons, List.length_cons, Nat.add_le_add_iff_right,
          Nat.add_lt_add_iff_right, and_assoc]

/-- An error comes from a running state that the limit lets be left. -/
theorem advance_eq_error_iff : advance n s = .error e ↔
    ∃ later : List σ, Consecutive ⟨s, later⟩ ∧ later.length < n ∧
      converged ⟨s, later⟩ = false ∧ step (final ⟨s, later⟩) = .error e := by
  induction n generalizing s with
  | zero => simp [advance]
  | succ n ih =>
    cases hs : isTerminal s with
    | true =>
      rw [advance_of_isTerminal hs]
      refine iff_of_false (by simp) ?_
      rintro ⟨later, hlater, -, hrunning, -⟩
      cases later with
      | nil => exact Bool.false_ne_true (hrunning.symm.trans hs)
      | cons t later => simp [consecutive_cons, hs] at hlater
    | false =>
      rw [advance_succ_eq_error hs]
      constructor
      · rintro (hstep | ⟨t, ht, hrest⟩)
        · exact ⟨[], consecutive_nil s, Nat.succ_pos n, hs, hstep⟩
        · obtain ⟨later, hlater, hlength, hrunning, hstep⟩ := ih.mp hrest
          rw [← final_cons s] at hstep
          exact ⟨t :: later, consecutive_cons.mpr ⟨⟨hs, ht⟩, hlater⟩, Nat.succ_lt_succ hlength,
            by rwa [converged, final_cons], hstep⟩
      · rintro ⟨later, hlater, hlength, hrunning, hstep⟩
        cases later with
        | nil => exact .inl hstep
        | cons t later =>
          obtain ⟨⟨-, ht⟩, hlater⟩ := consecutive_cons.mp hlater
          rw [converged, final_cons] at hrunning
          rw [final_cons] at hstep
          exact .inr ⟨t, ht,
            ih.mpr ⟨later, hlater, Nat.lt_of_succ_lt_succ hlength, hrunning, hstep⟩⟩

/-- Steps that follow others are taken from where these have led. -/
theorem advance_add (m n : ℕ) (s : σ) : advance (m + n) s =
    (advance m s).bind fun later => (advance n (final ⟨s, later⟩)).map (later ++ ·) := by
  induction m generalizing s with
  | zero =>
    rw [Nat.zero_add]
    change _ = (advance n s).map ([] ++ ·)
    cases advance n s <;> rfl
  | succ m ih =>
    rw [Nat.succ_add]
    cases hs : isTerminal s with
    | true =>
      rw [advance_of_isTerminal hs, advance_of_isTerminal hs]
      change _ = (advance n s).map ([] ++ ·)
      rw [advance_of_isTerminal hs]
      rfl
    | false =>
      rw [advance, advance, if_neg (by simp [hs]), if_neg (by simp [hs])]
      cases hstep : step s with
      | error e => rfl
      | ok t =>
        change (advance (m + n) t).bind _ = ((advance m t).bind _).bind _
        rw [ih]
        cases advance m t with
        | error e => rfl
        | ok later =>
          change ((advance n (final ⟨t, later⟩)).map (later ++ ·)).bind _ =
            (advance n (final ⟨s, t :: later⟩)).map _
          rw [final_cons]
          cases advance n (final ⟨t, later⟩) <;> rfl

theorem solve_eq_ok_iff {r : Run σ} :
    solve k s = .ok r ↔ r.first = s ∧ advance (k - 1) s = .ok r.later := by
  constructor
  · intro h
    obtain ⟨later, hlater, h⟩ := exists_ok_of_bind h
    obtain rfl := Except.ok.inj h
    exact ⟨rfl, hlater⟩
  · rintro ⟨rfl, h⟩
    change (advance (k - 1) r.first).bind _ = _
    rw [h]
    rfl

theorem solve_eq_error_iff : solve k s = .error e ↔ advance (k - 1) s = .error e := by
  change (advance (k - 1) s).bind _ = _ ↔ _
  cases advance (k - 1) s with
  | error e' => simp [Except.bind]
  | ok later => exact iff_of_false nofun nofun

theorem solve_add {a b : ℕ} (ha : 0 < a) (hb : 0 < b) {whole : Run σ}
    (h : solve (a + b - 1) s = .ok whole) :
    ∃ r r', solve a s = .ok r ∧ solve b r.final = .ok r' ∧
      whole.states = r.states ++ r'.states.tail ∧ whole.final = r'.final := by
  obtain ⟨hfirst, hwhole⟩ := solve_eq_ok_iff.mp h
  rw [show a + b - 1 - 1 = a - 1 + (b - 1) by omega, advance_add] at hwhole
  obtain ⟨later, hlater, hwhole⟩ := exists_ok_of_bind hwhole
  cases hrest : advance (b - 1) (final ⟨s, later⟩) with
  | error e =>
    rw [hrest] at hwhole
    exact nomatch hwhole
  | ok rest =>
    rw [hrest] at hwhole
    obtain rfl : whole = ⟨s, later ++ rest⟩ := by
      cases whole
      simp_all [Except.map]
    exact ⟨⟨s, later⟩, ⟨final ⟨s, later⟩, rest⟩, solve_eq_ok_iff.mpr ⟨rfl, hlater⟩,
      solve_eq_ok_iff.mpr ⟨rfl, hrest⟩, rfl, final_append s later rest⟩

/-- Solving with a limit fails exactly if a step fails from a running state that a shorter run
leads to, and with its error. Otherwise it returns the run to the first terminal state or of as many
states as the limit allows. Solving on from where a limit has cut a run off visits the states of the
run with both limits and has its outcome. -/
theorem solve_and_resume (s : σ) :
    (∀ k, 0 < k →
      (∀ e, solve k s = .error e ↔ ∃ r : Run σ, r.first = s ∧ r.Consecutive ∧
        r.stepCount < k - 1 ∧ r.converged = false ∧ step r.final = .error e) ∧
      ∀ r, solve k s = .ok r ↔ r.first = s ∧ r.Consecutive ∧ r.states.length ≤ k ∧
        (r.states.length < k → r.converged = true)) ∧
    ∀ a b, 0 < a → 0 < b → ∀ whole, solve (a + b - 1) s = .ok whole →
      ∃ r r', solve a s = .ok r ∧ solve b r.final = .ok r' ∧
        whole.states = r.states ++ r'.states.tail ∧
        ∀ t, r'.outcome = .ok t ↔ whole.outcome = .ok t := by
  refine ⟨fun k hk => ⟨fun e => ?_, fun r => ?_⟩, fun a b ha hb whole hwhole => ?_⟩
  · rw [solve_eq_error_iff, advance_eq_error_iff]
    constructor
    · rintro ⟨later, hlater⟩
      exact ⟨⟨s, later⟩, rfl, hlater⟩
    · rintro ⟨⟨first, later⟩, rfl, hlater⟩
      exact ⟨later, hlater⟩
  · have hle : r.states.length ≤ k ↔ r.later.length ≤ k - 1 := by
      rw [states, List.length_cons]
      omega
    have hlt : r.states.length < k ↔ r.later.length < k - 1 := by
      rw [states, List.length_cons]
      omega
    rw [solve_eq_ok_iff, advance_eq_ok_iff, hle, hlt]
    exact and_congr_right fun hfirst => hfirst ▸ Iff.rfl
  · obtain ⟨r, r', hr, hr', hstates, hfinal⟩ := solve_add ha hb hwhole
    refine ⟨r, r', hr, hr', hstates, fun t => ?_⟩
    rw [outcome_eq_ok, outcome_eq_ok, converged, converged, hfinal]

/-- A count that goes down to zero, unless it meets the value at which it jams. -/
structure Countdown where
  count : ℕ
  jam : ℕ

instance : Solver Countdown where
  isTerminal c := c.count == 0
  step c :=
    if c.count = c.jam then .error (.ratioTestFailed c.count)
    else .ok { c with count := c.count - 1 }
  log _ := []
  explanation c := toString c.count

/-- The third step of one count fails. The other one is cut off at its third state and gets to zero
before the second limit. -/
theorem countdown_resumes :
    solve 4 (⟨4, 2⟩ : Countdown) = .error (.ratioTestFailed 2) ∧
    ∃ r r', solve 3 (⟨4, 9⟩ : Countdown) = .ok r ∧ solve 5 r.final = .ok r' ∧
      r.states ++ r'.states.tail = [⟨4, 9⟩, ⟨3, 9⟩, ⟨2, 9⟩, ⟨1, 9⟩, ⟨0, 9⟩] ∧
      r'.outcome = .ok ⟨0, 9⟩ := by
  obtain ⟨hfails, -⟩ := (solve_and_resume (⟨4, 2⟩ : Countdown)).1 4 (by decide)
  obtain ⟨r, r', hr, hr', hstates, houtcome⟩ :=
    (solve_and_resume (⟨4, 9⟩ : Countdown)).2 3 5 (by decide) (by decide)
      ⟨⟨4, 9⟩, [⟨3, 9⟩, ⟨2, 9⟩, ⟨1, 9⟩, ⟨0, 9⟩]⟩ rfl
  refine ⟨(hfails _).mpr ⟨⟨⟨4, 2⟩, [⟨3, 2⟩, ⟨2, 2⟩]⟩, rfl, ?_, by decide, rfl, rfl⟩,
    r, r', hr, hr', hstates.symm, (houtcome _).mpr rfl⟩
  exact consecutive_cons.mpr ⟨⟨rfl, rfl⟩, consecutive_cons.mpr ⟨⟨rfl, rfl⟩, consecutive_nil _⟩⟩

end Solver

end Optima
