import Mathlib
import Optima.Run

namespace Optima

section Outcome

variable {ε α β : Type} {e : Except ε α} {f : α → Except ε β} {b : β}

theorem exists_ok_of_bind (h : e.bind f = .ok b) : ∃ a, e = .ok a ∧ f a = .ok b := by
  cases e with
  | error => exact nomatch h
  | ok a => exact ⟨a, rfl, h⟩

theorem exists_ok_of_any {P : α → Bool} (h : e.toOption.any P = true) :
    ∃ a, e = .ok a ∧ P a = true := by
  cases e with
  | error => exact nomatch h
  | ok a => exact ⟨a, rfl, h⟩

end Outcome

namespace Solver

variable {σ : Type} [Solver σ] {s t : σ}

/-- Any number of steps lead from one state to another. -/
def Reaches (s t : σ) : Prop := Relation.ReflTransGen (fun u v => step u = .ok v) s t

/-- What every step keeps holds of all states that are reached. -/
theorem Reaches.invariant {P : σ → Prop} (h : Reaches s t) (hs : P s)
    (hstep : ∀ u v, P u → step u = .ok v → P v) : P t := by
  induction h with
  | refl => exact hs
  | tail _ huv ih => exact hstep _ _ ih huv

def after : ℕ → σ → Except SolveError σ
  | 0, s => .ok s
  | n + 1, s => (step s).bind (after n)

theorem reaches_of_after {n : ℕ} (h : after n s = .ok t) : Reaches s t := by
  induction n generalizing s with
  | zero =>
    obtain rfl := Except.ok.inj h
    exact .refl
  | succ n ih =>
    obtain ⟨u, hstep, h⟩ := exists_ok_of_bind h
    exact .head hstep (ih h)

/-- A run of so many steps, from what is computed of its last state. -/
theorem exists_after_of_any {e : Except SolveError σ} {n : ℕ} {P : σ → Prop} [DecidablePred P]
    (h : (e.bind (after n)).toOption.any (fun t => decide (P t)) = true) :
    ∃ s t, e = .ok s ∧ after n s = .ok t ∧ P t := by
  obtain ⟨t, hafter, hP⟩ := exists_ok_of_any h
  obtain ⟨s, hs, ht⟩ := exists_ok_of_bind hafter
  exact ⟨s, t, hs, ht, of_decide_eq_true hP⟩

theorem advance_of_isTerminal (hs : isTerminal s = true) (n : ℕ) : advance n s = .ok [] := by
  cases n with
  | zero => rfl
  | succ n => rw [advance, if_pos hs]

theorem advance_succ (hs : isTerminal s = false) (hstep : step s = .ok t) {n : ℕ} {later : List σ}
    (h : advance n t = .ok later) : advance (n + 1) s = .ok (t :: later) := by
  rw [advance, if_neg (by simp [hs]), hstep]
  change (advance n t).bind _ = _
  rw [h]
  rfl

/-- If every step lowers a rank until a goal is reached, the rank bounds the steps to it. -/
theorem exists_after_of_rank {P Q : σ → Prop} (rank : σ → ℕ)
    (hstep : ∀ u, P u → Q u ∨ ∃ v, step u = .ok v ∧ P v ∧ rank v < rank u) (hs : P s) :
    ∃ n ≤ rank s, ∃ t, after n s = .ok t ∧ P t ∧ Q t := by
  induction hrank : rank s using Nat.strong_induction_on generalizing s with
  | _ k ih =>
    rcases hstep s hs with hgoal | ⟨u, hu, hP, hlt⟩
    · exact ⟨0, Nat.zero_le _, s, rfl, hs, hgoal⟩
    · obtain ⟨n, hn, t, hafter, ht⟩ := ih (rank u) (hrank ▸ hlt) hP rfl
      refine ⟨n + 1, by omega, t, ?_, ht⟩
      rw [after, hu]
      exact hafter

end Solver

end Optima
