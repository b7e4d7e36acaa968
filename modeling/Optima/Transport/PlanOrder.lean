import Optima.Transport.Plan

namespace Optima.Plan

variable {F : Type}

/-- What a change does to a plan in order, shipment by shipment. -/
def alterInOrder (c : Cell) (change : F → F) (fresh : Option F) : Plan F → Plan F
  | [] => fresh.toList.map fun x => ⟨c, x⟩
  | s :: p =>
    if s.cell = c then ⟨c, change s.amount⟩ :: p
    else if c.precedes s.cell then (fresh.toList.map fun x => ⟨c, x⟩) ++ s :: p
    else s :: alterInOrder c change fresh p

theorem InOrder.seat_eq {p : Plan F} (h : p.InOrder) (c : Cell) :
    p.seat c = Bisection.countWithin (fun s => c.precedes s.cell) p - 1 :=
  Bisection.lastWithin_eq (h.imp fun hst hs => Cell.precedes_trans hs hst)

theorem InOrder.countWithin_eq_zero {s : Shipment F} {p : Plan F} (h : InOrder (s :: p)) :
    Bisection.countWithin (fun t => s.cell.precedes t.cell) p = 0 := by
  cases p with
  | nil => rfl
  | cons t p => simp [Bisection.countWithin_cons, (List.pairwise_cons.1 h).1 t (by simp)]

theorem after_of_countWithin_eq_zero {s : Shipment F} {p : Plan F} {c : Cell}
    (h : Bisection.countWithin (fun t => c.precedes t.cell) (s :: p) = 0) :
    c.precedes s.cell = true ∧ s.cell ≠ c := by
  have hs : c.precedes s.cell = true := by
    by_cases hs : c.precedes s.cell
    · exact hs
    · simp [Bisection.countWithin_cons, hs] at h
  refine ⟨hs, ?_⟩
  rintro rfl
  simp [Cell.precedes_irrefl] at hs

theorem InOrder.alter_eq {p : Plan F} (h : p.InOrder) (c : Cell) (change : F → F)
    (fresh : Option F) : p.alter c change fresh = alterInOrder c change fresh p := by
  induction p with
  | nil => rfl
  | cons s p ih =>
    have hseat := h.seat_eq c
    rw [Bisection.countWithin_cons] at hseat
    unfold alterInOrder
    by_cases hc : s.cell = c
    · subst hc
      rw [h.countWithin_eq_zero] at hseat
      simp [alter, hseat, Cell.precedes_irrefl]
    · by_cases hb : c.precedes s.cell
      · simp only [hb, ↓reduceIte] at hseat
        cases fresh <;> simp [alter, hseat, hc, hb, Cell.precedes_asymm hb]
      · have hsc := Cell.precedes_of_ne hc hb
        have ih := ih (List.pairwise_cons.1 h).2
        have hp := InOrder.seat_eq (List.pairwise_cons.1 h).2 c
        simp only [hb, Bool.false_eq_true, ↓reduceIte, Nat.add_sub_cancel] at hseat
        simp only [hc, hb, Bool.false_eq_true, ↓reduceIte, ← ih]
        cases hk : Bisection.countWithin (fun t => c.precedes t.cell) p with
        | zero =>
          rw [hk] at hseat hp
          cases p with
          | nil => cases fresh <;> simp [alter, hseat, hp, hc, hsc]
          | cons t p =>
            obtain ⟨ht, htc⟩ := after_of_countWithin_eq_zero hk
            cases fresh <;>
              simp [alter, hseat, hp, hc, hsc, htc, Cell.precedes_asymm ht]
        | succ k =>
          rw [hk] at hseat hp
          simp only [alter, hseat, hp, Nat.add_sub_cancel, List.getElem?_cons_succ]
          have hlt : k < p.length := by
            have := Bisection.countWithin_le (fun t => c.precedes t.cell) p
            omega
          simp only [List.getElem?_eq_getElem hlt]
          by_cases ht : p[k].cell = c
          · simp [ht]
          · cases fresh
            · simp [ht]
            · by_cases htc : p[k].cell.precedes c <;> simp [ht, htc]

theorem InOrder.shipment?_eq {p : Plan F} (h : p.InOrder) (c : Cell) :
    p.shipment? c = p.find? fun s => decide (s.cell = c) := by
  induction p with
  | nil => rfl
  | cons s p ih =>
    have hseat := h.seat_eq c
    rw [Bisection.countWithin_cons] at hseat
    have later (hb : c.precedes s.cell ∨ s.cell = c) :
        p.find? (fun t => decide (t.cell = c)) = none := by
      rw [List.find?_eq_none]
      intro t ht htc
      have hst := (List.pairwise_cons.1 h).1 t ht
      simp only [decide_eq_true_eq] at htc
      subst htc
      rcases hb with hb | hb
      · simp [Cell.precedes_asymm hb] at hst
      · simp [hb, Cell.precedes_irrefl] at hst
    by_cases hc : s.cell = c
    · subst hc
      rw [h.countWithin_eq_zero] at hseat
      simp [shipment?, hseat, Cell.precedes_irrefl]
    · by_cases hb : c.precedes s.cell
      · simp only [hb, ↓reduceIte] at hseat
        simp [shipment?, hseat, hc, later (.inl hb)]
      · have ih := ih (List.pairwise_cons.1 h).2
        have hp := InOrder.seat_eq (List.pairwise_cons.1 h).2 c
        simp only [hb, Bool.false_eq_true, ↓reduceIte, Nat.add_sub_cancel] at hseat
        rw [List.find?_cons_of_neg (by simpa using hc), ← ih]
        cases hk : Bisection.countWithin (fun t => c.precedes t.cell) p with
        | zero =>
          rw [hk] at hseat hp
          cases p with
          | nil => simp [shipment?, hseat, hp, hc]
          | cons t p =>
            obtain ⟨ht, htc⟩ := after_of_countWithin_eq_zero hk
            simp [shipment?, hseat, hp, hc, htc, Option.filter]
        | succ k =>
          rw [hk] at hseat hp
          simp [shipment?, hseat, hp]

end Optima.Plan
