import Mathlib
import Optima.Proofs.Transport.Improvement
import Optima.Proofs.Transport.Optimality

namespace Optima.Transport

open Improvement State

variable {F : Type} [Scalar F] [Numeral F] {s t s₁ s₂ : State F} {r : Improvement F}
  {o : Outcome F}

def Improvement.ofDuals (m n : ℕ) (d : Duals F) : Improvement F :=
  { blank m n with rowDuals := d.rows, columnDuals := d.columns, phase := .opportunityCosts }

def State.priced (s : State F) (d : Duals F) : Improvement F :=
  (s.withOpportunityCosts (.ofDuals s.rowCount s.columnCount d)).round

/-- Up to its decision, the record of a round is computed from the plan. -/
structure Computed (s : State F) (r : Improvement F) : Prop where
  method : s.method = .modi
  blank : r.phase = .duals → r = .blank s.rowCount s.columnCount
  duals : r.phase = .opportunityCosts → ∃ d, s.allDuals = .ok d ∧
    r = .ofDuals s.rowCount s.columnCount d
  costs : r.phase = .entering → ∃ d, s.allDuals = .ok d ∧ r = s.priced d ∧
    s.isOptimal = some r.mostNegative.isNone

section Work

omit [Numeral F] in
theorem State.withLoop_cases (ho : s.withLoop r = .ok o) :
    o.state = s ∧ o.round.phase = .theta := by
  unfold State.withLoop at ho
  split at ho
  · exact nomatch ho
  · split at ho
    · exact nomatch ho
    · obtain rfl := Except.ok.inj ho
      exact ⟨rfl, rfl⟩

theorem State.withTheta_cases (s : State F) (r : Improvement F) :
    (s.withTheta r).state = s ∧ (s.withTheta r).round.phase = .reallocate := by
  unfold State.withTheta
  split
  · exact ⟨rfl, rfl⟩
  · exact ⟨rfl, rfl⟩

theorem Computed.of_later (hmethod : s.method = .modi) {phase : Phase} (hphase : r.phase = phase)
    (hlater : phase = .closedLoop ∨ phase = .theta ∨ phase = .reallocate) : Computed s r := by
  subst hphase
  refine ⟨hmethod, fun h => ?_, fun h => ?_, fun h => ?_⟩
  all_goals
    rw [h] at hlater
    simp at hlater

theorem Computed.work (h : Computed s r) (ho : s.work r = .ok o) : Computed o.state o.round := by
  apply State.work_elim ho
  case duals =>
    intro hphase ho
    obtain rfl := h.blank hphase
    obtain ⟨d, hd, ho⟩ := exists_ok_of_bind ho
    obtain rfl := Except.ok.inj ho
    exact ⟨h.method, nofun, fun _ => ⟨d, hd, rfl⟩, nofun⟩
  case opportunityCosts =>
    intro hphase
    obtain ⟨d, hd, rfl⟩ := h.duals hphase
    exact ⟨h.method, nofun, nofun, fun _ => ⟨d, hd, rfl, rfl⟩⟩
  case entering =>
    intro hphase
    unfold State.withEntering
    split
    · exact ⟨h.method, h.blank, h.duals, h.costs⟩
    · exact .of_later h.method rfl (.inl rfl)
  case closedLoop =>
    intro hphase ho
    obtain ⟨hstate, hnext⟩ := State.withLoop_cases ho
    exact .of_later (by rw [hstate, h.method]) hnext (.inr (.inl rfl))
  case theta =>
    intro hphase
    obtain ⟨hstate, hnext⟩ := State.withTheta_cases s r
    exact .of_later (by rw [hstate, h.method]) hnext (.inr (.inr rfl))
  case reallocate => exact fun _ => ⟨h.method, fun _ => rfl, nofun, nofun⟩

/-- The improvement completes where it decides that no cell is to enter. -/
theorem State.eq_withEntering_of_work (ho : s.work r = .ok o) (hs : s.progress ≠ .complete)
    (hcomplete : o.state.progress = .complete) :
    r.phase = .entering ∧ r.mostNegative = none ∧ o = s.withEntering r := by
  revert hcomplete
  apply State.work_elim ho
  case duals =>
    intro hphase ho hcomplete
    obtain ⟨d, hd, ho⟩ := exists_ok_of_bind ho
    obtain rfl := Except.ok.inj ho
    exact absurd hcomplete hs
  case opportunityCosts => exact fun _ hcomplete => absurd hcomplete hs
  case entering =>
    intro hphase hcomplete
    refine ⟨hphase, ?_, rfl⟩
    cases hnone : r.mostNegative with
    | none => rfl
    | some a =>
      rw [State.withEntering, hnone] at hcomplete
      exact absurd hcomplete hs
  case closedLoop =>
    intro hphase ho hcomplete
    rw [(State.withLoop_cases ho).1] at hcomplete
    exact absurd hcomplete hs
  case theta =>
    intro hphase hcomplete
    rw [(State.withTheta_cases s r).1] at hcomplete
    exact absurd hcomplete hs
  case reallocate => exact fun _ hcomplete => absurd hcomplete hs

end Work

theorem step_of_work (hmethod : s.method = .modi) (hs : s.progress ≠ .complete)
    (hr : s.improvement = some r)
    (ho : ({ s with step := s.step + 1, progress := .running } : State F).work r = .ok o) :
    Solver.step s =
      .ok { o.state with improvement := some o.round, explanation := o.explanation } := by
  rw [step_modi hmethod, State.improve_eq hs hr, ho]
  rfl

/-- A state of the improvement with what its round has computed. A complete one has decided that no
cell is to enter. -/
structure Tracked (s : State F) (r : Improvement F) : Prop where
  improvement : s.improvement = some r
  computed : Computed s r
  complete : s.progress = .complete → r.phase = .entering ∧ r.mostNegative = none ∧
    s.explanation = (s.withEntering r).explanation

theorem Tracked.step (h : Tracked s r) (ht : Solver.step s = .ok t) : ∃ r', Tracked t r' := by
  rw [step_modi h.computed.method] at ht
  rcases State.improve_cases h.improvement ht with ⟨-, rfl⟩ | ⟨hs, o, ho, rfl⟩
  · exact ⟨r, h⟩
  · have hrunning : Computed { s with step := s.step + 1, progress := .running } r :=
      { h.computed with }
    have hnext := hrunning.work ho
    refine ⟨o.round, rfl, { hnext with }, fun hcomplete => ?_⟩
    obtain ⟨hphase, hnone, rfl⟩ :=
      State.eq_withEntering_of_work ho Progress.noConfusion hcomplete
    simp [State.withEntering, hnone, hphase]

theorem tracked_of_reaches (himprove : s₁.startImprovement = .ok s₂) (hrun : Solver.Reaches s₂ s) :
    ∃ r, Tracked s r := by
  refine hrun.invariant (P := fun s => ∃ r, Tracked s r) ?_ fun u v hu hstep => ?_
  · obtain ⟨text, rfl⟩ := eq_of_startImprovement himprove
    exact ⟨_, rfl, ⟨rfl, fun _ => rfl, nofun, nofun⟩, nofun⟩
  · obtain ⟨r, hr⟩ := hu
    exact hr.step hstep

attribute [ext] State

section Steps

variable {d : Duals F} (hmethod : s.method = .modi) (hs : s.progress ≠ .complete)
include hmethod hs

theorem step_blank (hr : s.improvement = some (.blank s.rowCount s.columnCount))
    (hd : s.allDuals = .ok d) : ∃ text, Solver.step s = .ok { s with
      step := s.step + 1, progress := .running, explanation := text,
      improvement := some (.ofDuals s.rowCount s.columnCount d) } := by
  have hd' : ({ s with step := s.step + 1, progress := .running } : State F).allDuals = .ok d := hd
  obtain ⟨o, ho, hstate, hround⟩ : ∃ o, ({ s with step := s.step + 1, progress := .running } :
      State F).work (.blank s.rowCount s.columnCount) = .ok o ∧
      o.state = { s with step := s.step + 1, progress := .running } ∧
      o.round = .ofDuals s.rowCount s.columnCount d := by
    rw [State.work, Improvement.blank, State.withDuals, hd']
    exact ⟨_, rfl, rfl, rfl⟩
  exact ⟨o.explanation, by rw [step_of_work hmethod hs hr ho, hstate, hround]⟩

theorem step_ofDuals (hr : s.improvement = some (.ofDuals s.rowCount s.columnCount d)) :
    ∃ text, Solver.step s = .ok { s with
      step := s.step + 1, progress := .running, explanation := text,
      isOptimal := some (s.priced d).mostNegative.isNone, improvement := some (s.priced d) } :=
  ⟨_, step_of_work hmethod hs hr rfl⟩

theorem step_entering (hr : s.improvement = some r) (hphase : r.phase = .entering)
    (hnone : r.mostNegative = none) : Solver.step s = .ok { s with
      step := s.step + 1, progress := .complete
      explanation := (s.withEntering r).explanation } := by
  obtain ⟨o, ho, hstate, hround, htext⟩ : ∃ o,
      ({ s with step := s.step + 1, progress := .running } : State F).work r = .ok o ∧
      o.state = { s with step := s.step + 1, progress := .complete } ∧
      o.round = r ∧ o.explanation = (s.withEntering r).explanation := by
    rw [State.work, hphase, State.withEntering, State.withEntering, hnone]
    exact ⟨_, rfl, rfl, rfl, rfl⟩
  rw [step_of_work hmethod hs hr ho, hstate, hround, htext, ← hr]

end Steps

/-- A round that starts anew computes what the complete state holds, in three steps. -/
theorem Tracked.exists_steps (h : Tracked s r) (hs : s.progress = .complete) {s' : State F}
    (hstart : s.startImprovement = .ok s') : ∃ u v : State F, u.progress = .running ∧
      v.progress = .running ∧ Solver.step s' = .ok u ∧ Solver.step u = .ok v ∧
      Solver.step v = .ok { s with step := 3 } := by
  obtain ⟨hphase, hnone, htext⟩ := h.complete hs
  obtain ⟨d, hd, hr, hoptimal⟩ := h.computed.costs hphase
  obtain ⟨text, rfl⟩ := eq_of_startImprovement hstart
  obtain ⟨text₁, h₁⟩ := step_blank (s := { s with
    method := .modi, step := 0, progress := .initial, isOptimal := none, explanation := text
    improvement := some (.blank s.rowCount s.columnCount) }) rfl nofun rfl hd
  obtain ⟨text₂, h₂⟩ := step_ofDuals (s := { s with
    method := .modi, step := 1, progress := .running, isOptimal := none, explanation := text₁
    improvement := some (.ofDuals s.rowCount s.columnCount d) }) rfl nofun rfl
  have h₃ := step_entering (s := { s with
    method := .modi, step := 2, progress := .running, explanation := text₂
    isOptimal := some r.mostNegative.isNone, improvement := some r }) rfl nofun rfl hphase hnone
  subst hr
  refine ⟨_, _, rfl, rfl, h₁, h₂, h₃.trans (congrArg Except.ok ?_)⟩
  have hdecided : ∀ t : State F, (t.withEntering (s.priced d)).explanation =
      (s.withEntering (s.priced d)).explanation := by
    intro t
    rw [State.withEntering, State.withEntering, hnone]
  exact State.ext rfl rfl rfl rfl h.computed.method.symm hs.symm ((hdecided _).trans htext.symm)
    rfl rfl hoptimal.symm rfl h.improvement.symm

omit [Numeral F] in
/-- A complete plan with all dual values is one that the improvement accepts. -/
theorem exists_startImprovement {d : Duals F} (hs : s.progress = .complete)
    (hd : s.allDuals = .ok d) : ∃ s', s.startImprovement = .ok s' := by
  have hle := le_length_of_allDuals hd
  unfold State.startImprovement
  dsimp only
  rw [if_neg (not_not.mpr hs), if_neg (by omega)]
  exact ⟨_, rfl⟩

/-- Where an improvement has completed, its plan is said to be optimal, and the improvement can be
started anew. Then it completes after exactly three steps, with all that the state had held: the
plan and its cost, the dual values and the opportunity costs. -/
theorem restart_of_complete (himprove : s₁.startImprovement = .ok s₂)
    (hrun : Solver.Reaches s₂ s) (hs : s.progress = .complete) : s.isOptimal = some true ∧
    ∃ s' u v, s.startImprovement = .ok s' ∧ s'.progress = .initial ∧ u.progress = .running ∧
      v.progress = .running ∧
      ∀ k, Solver.advance (k + 3) s' = .ok [u, v, { s with step := 3 }] := by
  obtain ⟨r, h⟩ := tracked_of_reaches himprove hrun
  obtain ⟨hphase, hnone, -⟩ := h.complete hs
  obtain ⟨d, hd, -, hoptimal⟩ := h.computed.costs hphase
  obtain ⟨s', hstart⟩ := exists_startImprovement hs hd
  obtain ⟨u, v, hu, hv, h₁, h₂, h₃⟩ := h.exists_steps hs hstart
  have hs' : s'.progress = .initial := by
    obtain ⟨text, rfl⟩ := eq_of_startImprovement hstart
    rfl
  have running (t : State F) (ht : t.progress ≠ .complete) : Solver.isTerminal t = false :=
    decide_eq_false ht
  refine ⟨by rw [hoptimal, hnone]; rfl, s', u, v, hstart, hs', hu, hv, fun k => ?_⟩
  have hend : Solver.advance k { s with step := 3 } = .ok [] :=
    Solver.advance_of_isTerminal (decide_eq_true hs) k
  exact Solver.advance_succ (running s' (by rw [hs']; nofun)) h₁
    (Solver.advance_succ (running u (by rw [hu]; nofun)) h₂
      (Solver.advance_succ (running v (by rw [hv]; nofun)) h₃ hend))

theorem depots_restart : ∃ s : State ℚ, s.progress = .complete ∧ s.totalCost = 9 ∧
    ∃ s' u v, s.startImprovement = .ok s' ∧
      Solver.advance 3 s' = .ok [u, v, { s with step := 3 }] := by
  obtain ⟨s₀, s₁, s₂, s, -, -, himprove, hrun, hcomplete, hcost⟩ := depots_improved
  obtain ⟨-, s', u, v, hstart, -, -, -, hadvance⟩ :=
    restart_of_complete himprove (Solver.reaches_of_after hrun) hcomplete
  exact ⟨s, hcomplete, hcost, s', u, v, hstart, hadvance 0⟩

end Optima.Transport
