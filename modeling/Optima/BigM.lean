import Optima.Numeral
import Optima.Scalar

namespace Optima

/-- The number `constant + multiple * M`, where `M` stands for a penalty larger than any number of
the problem. -/
structure BigM (F : Type) where
  constant : F
  multiple : F

/-- What costs need: they are added, compared, and scaled by plain numbers. -/
class Cost (F : outParam Type) (C : Type) where
  zero : C
  add : C → C → C
  sub : C → C → C
  scale : C → F → C
  compare : C → C → Ordering
  /-- The sign after components up to the given size are counted as zero. -/
  signUpTo : F → C → Ordering

variable {F : Type} [Scalar F]

instance : Cost F F where
  zero := 0
  add a b := a + b
  sub a b := a - b
  scale c k := c * k
  compare a b := Scalar.sign (a - b)
  signUpTo t a := Scalar.sign (if Scalar.magnitude a ≤ t then 0 else a)

namespace BigM

def ofScalar (c : F) : BigM F := ⟨c, 0⟩

def penalty (k : F) : BigM F := ⟨0, k⟩

instance : Zero (BigM F) := ⟨⟨0, 0⟩⟩
instance : Add (BigM F) := ⟨fun a b => ⟨a.constant + b.constant, a.multiple + b.multiple⟩⟩
instance : Sub (BigM F) := ⟨fun a b => ⟨a.constant - b.constant, a.multiple - b.multiple⟩⟩
instance : Neg (BigM F) := ⟨fun a => ⟨-a.constant, -a.multiple⟩⟩

def scale (a : BigM F) (k : F) : BigM F := ⟨a.constant * k, a.multiple * k⟩

/-- The penalty parts decide, and the constants when those do not differ. -/
def compare (a b : BigM F) : Ordering :=
  (Scalar.sign (a.multiple - b.multiple)).then (Scalar.sign (a.constant - b.constant))

def signUpTo (t : F) (a : BigM F) : Ordering :=
  let significant (x : F) : F := if Scalar.magnitude x ≤ t then 0 else x
  (Scalar.sign (significant a.multiple)).then (Scalar.sign (significant a.constant))

def isPositive (a : BigM F) : Bool := a.compare 0 == .gt

def isNegative (a : BigM F) : Bool := a.compare 0 == .lt

def isZero (a : BigM F) : Bool := a.constant == 0 && a.multiple == 0

instance : Cost F (BigM F) where
  zero := 0
  add a b := a + b
  sub a b := a - b
  scale := scale
  compare := compare
  signUpTo := signUpTo

instance : BEq (BigM F) := ⟨fun a b => a.compare b == .eq⟩

/-- Writes `3`, `M`, `-2M`, `3+M` or `3-2M`. -/
def text [Numeral F] (a : BigM F) : String :=
  let part :=
    if a.multiple == 1 then "M"
    else if a.multiple == -1 then "-M"
    else Numeral.text a.multiple ++ "M"
  if a.multiple == 0 then Numeral.text a.constant
  else if a.constant == 0 then part
  else if a.multiple < 0 then Numeral.text a.constant ++ part
  else Numeral.text a.constant ++ "+" ++ part

def eval (m : F) (a : BigM F) : F := a.constant + a.multiple * m

end BigM

namespace Cost

variable {C : Type} [Cost F C]

def sum (cs : List C) : C := cs.foldl add zero

end Cost

end Optima
