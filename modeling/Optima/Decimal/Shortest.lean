import Optima.Decimal.Binary

namespace Optima.Decimal

inductive Tie where
  | even
  | up

structure Digits where
  digits : Nat
  exponent : Int

def compareScaled (a : Nat) (k : Int) (b : Nat) (q : Int) : Ordering :=
  compare (a * Nat.pow 10 k.toNat * Nat.pow 2 (-q).toNat)
    (b * Nat.pow 2 q.toNat * Nat.pow 10 (-k).toNat)

/-- Whether a decimal is nearer to `m * 2 ^ q` than to its neighbours, an even `m` winning ties.
The gap below a power of two is half as wide, except at the least exponent. -/
def readsBack (m : Nat) (q : Int) (d : Digits) : Bool :=
  let narrow := m = Binary.fractionCount ∧ q ≠ -1074
  let low := if narrow then 4 * m - 1 else 4 * m - 2
  let above := compareScaled d.digits d.exponent low (q - 2)
  let below := compareScaled d.digits d.exponent (4 * m + 2) (q - 2)
  if m % 2 = 0 then above.isGE && below.isLE else above.isGT && below.isLT

/-- The nearest multiple of `10 ^ k` that reads back, if any does. -/
def onGrid? (tie : Tie) (m : Nat) (q k : Int) : Option Digits :=
  let (num, den) := scaled m q (-k)
  let low : Digits := ⟨num / den, k⟩
  let high : Digits := ⟨num / den + 1, k⟩
  match readsBack m q low, readsBack m q high with
  | false, false => none
  | true, false => some low
  | false, true => some high
  | true, true =>
    match compare (2 * (num % den)) den with
    | .lt => some low
    | .gt => some high
    | .eq =>
      match tie with
      | .even => some (if low.digits % 2 = 0 then low else high)
      | .up => some high

def wholeDigits (num den : Nat) : Nat := (Nat.toDigits 10 (num / den)).length

/-- An exponent `k` with `m * 2 ^ q < 10 ^ k`, and the least one when the number is at least one. -/
def leadingPlace (m : Nat) (q : Int) : Int :=
  let (num, den) := scaled m q 0
  if den ≤ num then wholeDigits num den else 1 - wholeDigits den num

/-- The shortest decimal that reads back as the positive number `m * 2 ^ q`. Coarser grids are
tried first; seventeen digits always suffice, and the exact value stands behind them. -/
def shortest (tie : Tie) (m : Nat) (q : Int) : Digits :=
  let place := leadingPlace m q + 1
  let found := (List.range 21).findSome? fun (n : Nat) => onGrid? tie m q (place - n)
  found.getD ⟨m * Nat.pow 2 q.toNat * Nat.pow 5 (-q).toNat, if q < 0 then q else 0⟩

end Optima.Decimal
