import Optima.Decimal.Shortest

namespace Optima.Decimal

def signText (negative : Bool) : String := if negative then "-" else ""

def positional (d : Digits) : String :=
  let ds := toString d.digits
  if 0 ≤ d.exponent then ds ++ String.ofList (List.replicate d.exponent.toNat '0')
  else
    let places := (-d.exponent).toNat
    let padded := List.replicate (places + 1 - ds.length) '0' ++ ds.toList
    let whole := padded.length - places
    String.ofList (padded.take whole) ++ "." ++ String.ofList (padded.drop whole)

def plainText (x : Float) : String :=
  match Binary.ofFloat x with
  | .notNumber => "NaN"
  | .infinite negative => signText negative ++ "inf"
  | .finite negative 0 _ => signText negative ++ "0"
  | .finite negative m q => signText negative ++ positional (shortest .up m q)

/-- The number rounded to the given count of places, a tie to the even neighbour. -/
def fixedText (places : Nat) (x : Float) : String :=
  match Binary.ofFloat x with
  | .notNumber => "NaN"
  | .infinite negative => signText negative ++ "inf"
  | .finite negative m q =>
    let (num, den) := scaled m q places
    signText negative ++ positional ⟨roundToEven num den, -places⟩

def exponential (d : Digits) : String :=
  let ds := (toString d.digits).toList
  let exponent := d.exponent + (ds.length - 1 : Nat)
  let mantissa := match ds with
    | [] => ""
    | [c] => String.singleton c
    | c :: rest => String.singleton c ++ "." ++ String.ofList rest
  mantissa ++ "e" ++ (if exponent < 0 then "-" else "+") ++ toString exponent.natAbs

/-- The number as a data value: in full with a fractional part from `1e-5` up to below `1e16`, with
an exponent outside; what is not finite has no such text. -/
def dataText? (x : Float) : Option String :=
  match Binary.ofFloat x with
  | .notNumber | .infinite _ => none
  | .finite negative 0 _ => some (signText negative ++ "0.0")
  | .finite negative m q =>
    let d := shortest .even m q
    let place := d.exponent + (toString d.digits).length
    let body :=
      if -5 < place ∧ place ≤ 16 then
        if d.exponent < 0 then positional d else positional d ++ ".0"
      else exponential d
    some (signText negative ++ body)

def padLeft (width : Nat) (s : String) : String :=
  String.ofList (List.replicate (width - s.length) ' ') ++ s

end Optima.Decimal
