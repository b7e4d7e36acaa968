import Mathlib
import Optima.Transport.Selection

namespace Optima.Transport.State

variable {s : State ℚ} {c : Cell} {m : InitialMethod} {reason : Reason ℚ} {i j : ℕ}

def Exhausted (s : State ℚ) : Prop := s.availableSources = [] ∨ s.availableDestinations = []

theorem mem_availableSources :
    i ∈ s.availableSources ↔ i < s.rowCount ∧ Scalar.tolerance < s.remainingSupply.getD i 0 := by
  rw [availableSources, List.mem_filter, List.mem_range, isSourceAvailable, decide_eq_true_iff]

theorem mem_availableDestinations :
    j ∈ s.availableDestinations ↔
      j < s.columnCount ∧ Scalar.tolerance < s.remainingDemand.getD j 0 := by
  rw [availableDestinations, List.mem_filter, List.mem_range, isDestinationAvailable,
    decide_eq_true_iff]

theorem availableSources_eq_nil :
    s.availableSources = [] ↔ ∀ i < s.rowCount, s.remainingSupply.getD i 0 ≤ Scalar.tolerance := by
  simp only [List.eq_nil_iff_forall_not_mem, mem_availableSources, not_and, not_lt]

theorem availableDestinations_eq_nil :
    s.availableDestinations = [] ↔
      ∀ j < s.columnCount, s.remainingDemand.getD j 0 ≤ Scalar.tolerance := by
  simp only [List.eq_nil_iff_forall_not_mem, mem_availableDestinations, not_and, not_lt]

theorem mem_availableCells :
    c ∈ s.availableCells ↔ c.row ∈ s.availableSources ∧ c.column ∈ s.availableDestinations := by
  obtain ⟨i, j⟩ := c
  simp [availableCells]

theorem availableCells_eq_nil : s.availableCells = [] ↔ s.Exhausted := by
  rw [availableCells, Exhausted, List.flatMap_eq_nil_iff]
  constructor
  · intro h
    rcases s.availableSources.eq_nil_or_concat with hnil | ⟨_, i, hi⟩
    · exact .inl hnil
    · exact .inr (List.map_eq_nil_iff.mp (h i (by simp [hi])))
  · rintro (h | h) i hi
    · rw [h] at hi
      exact absurd hi List.not_mem_nil
    · exact List.map_eq_nil_iff.mpr h

theorem exists_of_mem_penalties {p : Penalty ℚ} (h : p ∈ s.penalties) :
    p.line = .row ∧ p.index ∈ s.availableSources ∨
      p.line = .column ∧ p.index ∈ s.availableDestinations := by
  rcases List.mem_append.mp h with h | h
  · obtain ⟨i, hi, rfl⟩ := List.mem_map.mp h
    exact .inl ⟨rfl, hi⟩
  · obtain ⟨j, hj, rfl⟩ := List.mem_map.mp h
    exact .inr ⟨rfl, hj⟩

theorem mem_availableCells_of_lineCells {p : Penalty ℚ} (hp : p ∈ s.penalties)
    (h : c ∈ s.lineCells p.line p.index) : c ∈ s.availableCells := by
  rw [mem_availableCells]
  rcases exists_of_mem_penalties hp with ⟨hline, hi⟩ | ⟨hline, hj⟩
  · rw [hline] at h
    obtain ⟨j, hj, rfl⟩ := List.mem_map.mp h
    exact ⟨hi, hj⟩
  · rw [hline] at h
    obtain ⟨i, hi, rfl⟩ := List.mem_map.mp h
    exact ⟨hi, hj⟩

theorem exhausted_of_lineCells {p : Penalty ℚ} (hp : p ∈ s.penalties)
    (h : s.lineCells p.line p.index = []) : s.Exhausted := by
  rcases exists_of_mem_penalties hp with ⟨hline, -⟩ | ⟨hline, -⟩
  · rw [hline] at h
    exact .inr (List.map_eq_nil_iff.mp h)
  · rw [hline] at h
    exact .inl (List.map_eq_nil_iff.mp h)

theorem mem_of_select? (h : s.select? m = some (c, reason)) : c ∈ s.availableCells := by
  cases m with
  | northwestCorner =>
    obtain ⟨d, hd, heq⟩ := Option.map_eq_some_iff.mp h
    obtain ⟨rfl, -⟩ := Prod.mk.inj heq
    exact List.mem_of_head? hd
  | leastCost =>
    obtain ⟨d, hd, heq⟩ := Option.map_eq_some_iff.mp h
    obtain ⟨rfl, -⟩ := Prod.mk.inj heq
    exact mem_of_firstBest? hd
  | vogel =>
    obtain ⟨p, hp, h⟩ := Option.bind_eq_some_iff.mp h
    obtain ⟨d, hd, heq⟩ := Option.bind_eq_some_iff.mp h
    obtain ⟨rfl, -⟩ := Prod.mk.inj (Option.some.inj heq)
    exact mem_availableCells_of_lineCells (mem_of_firstBest? hp) (mem_of_firstBest? hd)

theorem exhausted_of_select? (h : s.select? m = none) : s.Exhausted := by
  cases m with
  | northwestCorner =>
    exact availableCells_eq_nil.mp (List.head?_eq_none_iff.mp (Option.map_eq_none_iff.mp h))
  | leastCost =>
    exact availableCells_eq_nil.mp (firstBest?_eq_none_iff.mp (Option.map_eq_none_iff.mp h))
  | vogel =>
    cases hp : s.highestPenalty? with
    | none =>
      have hnil := firstBest?_eq_none_iff.mp hp
      exact .inl (List.map_eq_nil_iff.mp (List.append_eq_nil_iff.mp hnil).1)
    | some p =>
      -- a line with a penalty is open, so without cells all lines across it are not
      cases hc : s.cheapest? (s.lineCells p.line p.index) with
      | none => exact exhausted_of_lineCells (mem_of_firstBest? hp) (firstBest?_eq_none_iff.mp hc)
      | some c => simp [select?, hp, hc] at h

end Optima.Transport.State
