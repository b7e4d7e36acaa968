import Optima.Decimal.Layout
import Optima.Decimal.Reading

namespace Optima

class Numeral (F : Type) where
  text : F → String
  fixed : Nat → F → String
  dataText? : F → Option String
  read? : List Char → Option F

instance : Numeral Float where
  text := Decimal.plainText
  fixed := Decimal.fixedText
  dataText? := Decimal.dataText?
  read? cs := (Decimal.literal? cs).map Decimal.Literal.toFloat

/-- Fractions are written in lowest terms and rounded as decimals. -/
instance : Numeral Rat where
  text x := if x.den = 1 then toString x.num else toString x.num ++ "/" ++ toString x.den
  fixed places x :=
    Decimal.signText (x.num < 0) ++
      Decimal.positional ⟨Decimal.roundToEven (x.num.natAbs * Nat.pow 10 places) x.den, -places⟩
  dataText? x := some (toString x.num ++ "/" ++ toString x.den)
  read? cs := (Decimal.literal? cs).bind Decimal.Literal.toRat?

end Optima
