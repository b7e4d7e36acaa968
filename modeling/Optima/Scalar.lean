namespace Optima

/-- The numbers of a solver: its definitions run on machine numbers and are reasoned about on exact
fractions. -/
class Scalar (F : Type) extends
    Zero F, One F, Add F, Sub F, Mul F, Div F, Neg F, BEq F, LT F, LE F, OfScientific F where
  decLt : DecidableLT F
  decLe : DecidableLE F

namespace Scalar

attribute [reducible, instance] Scalar.decLt Scalar.decLe

instance : Scalar Float where
  decLt := inferInstance
  decLe := inferInstance

instance : Scalar Rat where
  -- the literals of the type itself, whatever other instances are in scope
  toZero := Zero.ofOfNat0
  toOne := One.ofOfNat1
  decLt := inferInstance
  decLe := inferInstance

variable {F : Type} [Scalar F]

/-- Differences up to this size count as none. -/
def tolerance : F := 1e-9

/-- Amounts shipped up to this size are dropped when a shipping plan is rearranged. -/
def dropTolerance : F := 1e-4

def magnitude (x : F) : F := if x < 0 then -x else x

def isNegligible (x : F) : Bool := magnitude x ≤ tolerance

def snap (x : F) : F := if isNegligible x then 0 else x

/-- A number is finite when it differs from itself by zero. -/
def isFinite (x : F) : Bool := x - x == 0

/-- The sign of a number; zero also for what is not a number. -/
def sign (x : F) : Ordering := if 0 < x then .gt else if x < 0 then .lt else .eq

/-- Sums from the left, starting at negative zero, which is neutral for every number. -/
def sum (xs : List F) : F := xs.foldl (· + ·) (-0)

/-- The smaller of two numbers, passing over what is not a number. -/
def least (a b : F) : F := if a < b then a else if b == b then b else a

def greatest (a b : F) : F := if b < a then a else if b == b then b else a

def least? : List F → Option F
  | [] => none
  | x :: xs => some (xs.foldl least x)

def greatest? : List F → Option F
  | [] => none
  | x :: xs => some (xs.foldl greatest x)

/-- Order of numbers in which a negative zero comes before a positive one. -/
def precedes (a b : F) : Bool := a < b || (a == b && decide (1 / a < 1 / b))

def insertAscending (x : F) : List F → List F
  | [] => [x]
  | y :: ys => if precedes y x then y :: insertAscending x ys else x :: y :: ys

def ascending (xs : List F) : List F := xs.foldr insertAscending []

end Scalar

/-- The first element that no later one beats. -/
def firstBest? {α : Type} (beats : α → α → Bool) : List α → Option α
  | [] => none
  | x :: xs => some (xs.foldl (fun best y => if beats y best then y else best) x)

theorem firstBest?_eq_none_iff {α : Type} {beats : α → α → Bool} {xs : List α} :
    firstBest? beats xs = none ↔ xs = [] := by
  cases xs <;> simp [firstBest?]

theorem mem_of_firstBest? {α : Type} {beats : α → α → Bool} {xs : List α} {a : α}
    (h : firstBest? beats xs = some a) : a ∈ xs := by
  cases xs with
  | nil => simp [firstBest?] at h
  | cons x xs =>
    have best : ∀ (ys : List α) (b : α),
        ys.foldl (fun best y => if beats y best then y else best) b ∈ b :: ys := by
      intro ys
      induction ys with
      | nil => simp
      | cons y ys ih =>
        intro b
        rw [List.foldl_cons]
        cases beats y b with
        | true => exact List.mem_cons_of_mem b (ih y)
        | false =>
          have := ih b
          simp only [List.mem_cons] at this ⊢
          exact this.imp_right .inr
    simp only [firstBest?, Option.some.injEq] at h
    exact h ▸ best xs x

end Optima
