namespace Optima.Decimal

/-- A decimal number as written: `± mantissa * 10 ^ exponent`, or one of the named values. -/
inductive Literal where
  | number (negative : Bool) (mantissa : Nat) (exponent : Int)
  | infinite (negative : Bool)
  | notNumber

def ofDigits (start : Nat) (cs : List Char) : Nat :=
  cs.foldl (fun n c => 10 * n + (c.toNat - '0'.toNat)) start

def splitSign : List Char → Bool × List Char
  | '-' :: cs => (true, cs)
  | '+' :: cs => (false, cs)
  | cs => (false, cs)

def exponent? : List Char → Option Int
  | [] => some 0
  | c :: cs =>
    if c = 'e' ∨ c = 'E' then
      let (negative, ds) := splitSign cs
      if ds.isEmpty ∨ !ds.all Char.isDigit then none
      else some (if negative then -(ofDigits 0 ds) else ofDigits 0 ds)
    else none

/-- An unsigned number: digits with at most one point, at least one of them, then an exponent. -/
def unsigned? (negative : Bool) (cs : List Char) : Option Literal :=
  let whole := cs.takeWhile Char.isDigit
  let (fraction, rest) :=
    match cs.dropWhile Char.isDigit with
    | '.' :: r => (r.takeWhile Char.isDigit, r.dropWhile Char.isDigit)
    | r => ([], r)
  if whole.isEmpty && fraction.isEmpty then none
  else (exponent? rest).map fun e =>
    .number negative (ofDigits (ofDigits 0 whole) fraction) (e - fraction.length)

def literal? (cs : List Char) : Option Literal :=
  let (negative, body) := splitSign cs
  match String.ofList (body.map Char.toLower) with
  | "inf" | "infinity" => some (.infinite negative)
  | "nan" => some .notNumber
  | _ => unsigned? negative body

/-- The double nearest to `mantissa * 10 ^ exponent`. Numbers of more than four hundred places
before the point are infinite, and those of as many zeros after it are zero. -/
def nearest (mantissa : Nat) (exponent : Int) : Float :=
  let place := exponent + (Nat.toDigits 10 mantissa).length
  if mantissa = 0 ∨ place < -400 then 0
  else if 400 < place then 1 / 0
  else Float.ofScientific mantissa (exponent < 0) exponent.natAbs

def Literal.toFloat : Literal → Float
  | .number negative m e => if negative then -nearest m e else nearest m e
  | .infinite negative => if negative then -(1 / 0) else 1 / 0
  | .notNumber => 0 / 0

def Literal.toRat? : Literal → Option Rat
  | .number negative m e =>
    let value : Rat := if e < 0 then m / 10 ^ e.natAbs else m * 10 ^ e.natAbs
    some (if negative then -value else value)
  | _ => none

end Optima.Decimal
