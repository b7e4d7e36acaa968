namespace Optima.Decimal

/-- A double: not a number, an infinity, or `± significand * 2 ^ exponent`. -/
inductive Binary where
  | notNumber
  | infinite (negative : Bool)
  | finite (negative : Bool) (significand : Nat) (exponent : Int)

namespace Binary

def fractionCount : Nat := Nat.pow 2 52

def ofBits (bits : Nat) : Binary :=
  let negative := decide (bits / Nat.pow 2 63 % 2 = 1)
  let field := bits / fractionCount % 2048
  let fraction := bits % fractionCount
  if field = 2047 then
    if fraction = 0 then .infinite negative else .notNumber
  else if field = 0 then .finite negative fraction (-1074)
  else .finite negative (fractionCount + fraction) (field - 1075)

def ofFloat (x : Float) : Binary := ofBits x.toBits.toNat

end Binary

/-- Rounds `num / den` to a natural number, a tie to the even neighbour. -/
def roundToEven (num den : Nat) : Nat :=
  let q := num / den
  match compare (2 * (num % den)) den with
  | .lt => q
  | .gt => q + 1
  | .eq => if q % 2 = 0 then q else q + 1

/-- A nonnegative number as a fraction: `m * 2 ^ q * 10 ^ k`. -/
def scaled (m : Nat) (q k : Int) : Nat × Nat :=
  (m * Nat.pow 2 q.toNat * Nat.pow 10 k.toNat, Nat.pow 2 (-q).toNat * Nat.pow 10 (-k).toNat)

end Optima.Decimal
