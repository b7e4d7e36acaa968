import Mathlib
import Optima.Proofs.Simplex.Canonical
import Optima.Simplex.Step

namespace Optima

variable {F C D : Type} [Scalar F] [Cost F C] [Cost F D]

structure CostMap (F C D : Type) [Scalar F] [Cost F C] [Cost F D] where
  map : C → D
  map_zero : map Cost.zero = Cost.zero
  map_add : ∀ a b, map (Cost.add a b) = Cost.add (map a) (map b)
  map_sub : ∀ a b, map (Cost.sub a b) = Cost.sub (map a) (map b)
  map_scale : ∀ a k, map (Cost.scale a k) = Cost.scale (map a) k

theorem CostMap.map_sum (f : CostMap F C D) (cs : List C) :
    f.map (Cost.sum cs) = Cost.sum (cs.map f.map) := by
  have hfold (c : C) : f.map (cs.foldl Cost.add c) = (cs.map f.map).foldl Cost.add (f.map c) := by
    induction cs generalizing c with
    | nil => rfl
    | cons b cs ih => rw [List.foldl_cons, List.map_cons, List.foldl_cons, ih, f.map_add]
  rw [Cost.sum, Cost.sum, hfold, f.map_zero]

namespace Simplex.Tableau

def mapCosts (f : CostMap F C D) (goal : Goal) (t : Tableau F C) : Tableau F D where
  names := t.names
  cost := t.cost.map f.map
  basis := t.basis
  basicCost := t.basicCost.map f.map
  rhs := t.rhs
  body := t.body
  relativeCost := t.relativeCost.map f.map
  objectiveValue := f.map t.objectiveValue
  goal := goal

variable (f : CostMap F C D) (goal : Goal) (t : Tableau F C)

theorem basicTotal_mapCosts (amounts : List F) :
    (t.mapCosts f goal).basicTotal amounts = f.map (t.basicTotal amounts) := by
  rw [basicTotal, basicTotal, f.map_sum]
  congr 1
  rw [List.map_zipWith, mapCosts, List.zipWith_map_left]
  congr 1
  funext c k
  exact (f.map_scale c k).symm

theorem cost_mapCosts (j : ℕ) :
    (t.mapCosts f goal).cost.getD j Cost.zero = f.map (t.cost.getD j Cost.zero) := by
  rw [← f.map_zero, mapCosts, List.getD_map]

theorem price_mapCosts : (t.mapCosts f goal).price = t.price.mapCosts f goal := by
  apply Tableau.ext
  case relativeCost =>
    change (List.range t.columnCount).map _ = ((List.range t.columnCount).map _).map _
    rw [List.map_map]
    apply List.map_congr_left
    intro j _
    rw [basicTotal_mapCosts, cost_mapCosts]
    exact (f.map_sub _ _).symm
  case objectiveValue => exact basicTotal_mapCosts f goal t t.rhs
  all_goals rfl

theorem enter_mapCosts (row column : ℕ) :
    (t.mapCosts f goal).enter row column = (t.enter row column).mapCosts f goal := by
  apply Tableau.ext
  case basicCost =>
    change (t.basicCost.map _).set row ((t.mapCosts f goal).cost.getD column Cost.zero) =
      (t.basicCost.set row _).map _
    rw [cost_mapCosts, List.map_set]
  all_goals rfl

theorem pivot_mapCosts (row column : ℕ) :
    (t.mapCosts f goal).pivot row column = (t.pivot row column).mapCosts f goal := by
  change (((t.eliminate row column).snap.mapCosts f goal).enter row column).price = _
  rw [enter_mapCosts, price_mapCosts]
  rfl

variable {f goal t}

/-- The same column enters if the goal judges the new costs as the old goal judges the old ones. -/
theorem entering?_mapCosts
    (himproves : ∀ c ∈ t.relativeCost, goal.improves (f.map c) = t.goal.improves c)
    (hprefers : ∀ a ∈ t.relativeCost, ∀ b ∈ t.relativeCost,
      goal.prefers (f.map a) (f.map b) = t.goal.prefers a b) (rule : PivotRule) :
    (t.mapCosts f goal).entering? rule = t.entering? rule := by
  cases rule with
  | firstProfitable =>
    change (t.relativeCost.map f.map).findIdx? goal.improves =
      t.relativeCost.findIdx? t.goal.improves
    rw [List.findIdx?_map]
    exact findIdx?_congr himproves
  | largestCoefficient =>
    have hmem (a : C × ℕ) (ha : a ∈ t.relativeCost.zipIdx) : a.1 ∈ t.relativeCost :=
      List.mem_of_getElem? (List.mk_mem_zipIdx_iff_getElem?.mp ha)
    have hbest : firstBest? (fun a b => goal.prefers a.1 b.1)
        (t.mapCosts f goal).relativeCost.zipIdx =
        (firstBest? (fun a b => t.goal.prefers a.1 b.1) t.relativeCost.zipIdx).map
          (Prod.map f.map id) := by
      rw [mapCosts, List.zipIdx_map]
      exact firstBest?_map _ fun a ha b hb => hprefers _ (hmem a ha) _ (hmem b hb)
    change ((firstBest? (fun a b => goal.prefers a.1 b.1)
      (t.mapCosts f goal).relativeCost.zipIdx).filter (goal.improves ·.1)).map (·.2) = _
    rw [hbest, entering?]
    cases hb : firstBest? (fun a b => t.goal.prefers a.1 b.1) t.relativeCost.zipIdx with
    | none => rfl
    | some b => simp [Option.filter, himproves b.1 (hmem b (mem_of_firstBest? hb))]

theorem preview?_mapCosts
    (himproves : ∀ c ∈ t.relativeCost, goal.improves (f.map c) = t.goal.improves c)
    (hprefers : ∀ a ∈ t.relativeCost, ∀ b ∈ t.relativeCost,
      goal.prefers (f.map a) (f.map b) = t.goal.prefers a b) (rule : PivotRule) :
    (t.mapCosts f goal).preview? rule = t.preview? rule := by
  rw [preview?, preview?, entering?_mapCosts himproves hprefers]
  rfl

end Simplex.Tableau

end Optima
