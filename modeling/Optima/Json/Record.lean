import Optima.Json.Value
import Optima.Decimal.Reading

namespace Optima.Json

/-- A field of a record, and whether a record that is written as an array may end before it. -/
structure Field where
  name : String
  mayBeLeftOut : Bool := false

/-- The members of a record, in the order of its fields. An object may hold other members, but each
field at most once; an array holds the fields in order. -/
def record? (fields : List Field) : Json → Option (List (Option Json))
  | .object members => fields.mapM fun f =>
      match members.filter (·.1 == f.name) with
      | [] => some none
      | [(_, v)] => some (some v)
      | _ => none
  | .array items =>
    if fields.length < items.length ∨ (fields.drop items.length).any (!·.mayBeLeftOut) then none
    else some ((List.range fields.length).map fun i => items[i]?)
  | _ => none

def list? {α : Type} (f : Json → Option α) : Json → Option (List α)
  | .array items => items.mapM f
  | _ => none

def pair? {α β : Type} (f : Json → Option α) (g : Json → Option β) : Json → Option (α × β)
  | .array [a, b] => do return (← f a, ← g b)
  | _ => none

def bool? : Json → Option Bool
  | .bool b => some b
  | _ => none

def string? : Json → Option String
  | .string s => some s
  | _ => none

/-- A count below `2 ^ 64`, written without sign, fraction and exponent. -/
def nat? : Json → Option Nat
  | .number literal =>
    if literal.toList.all Char.isDigit then
      let n := Decimal.ofDigits 0 literal.toList
      if n < Nat.pow 2 64 then some n else none
    else none
  | _ => none

/-- Reads digits after those of `n` while the number stays below `2 ^ 64`. The other digits are
returned unread. -/
def significand (n : Nat) : List Char → Nat × List Char
  | [] => (n, [])
  | c :: cs =>
    let next := Decimal.ofDigits n [c]
    if next < Nat.pow 2 64 then significand next cs else (n, c :: cs)

def powerOfTen (n : Nat) : Float := Decimal.nearest 1 n

/-- Divides by `10 ^ n`, in several divisions where the power is no double. -/
def shrink (x : Float) (n : Nat) : Float :=
  if n ≤ 308 then x / powerOfTen n
  else if x == 0 then x
  else shrink (x / powerOfTen 308) (n - 308)
termination_by n
decreasing_by omega

/-- Rounds the significand and then its product with the power of ten, which can miss the nearest
double. -/
def scale? (digits : Nat) (exponent : Int) : Option Float :=
  let x := Decimal.nearest digits 0
  if exponent < 0 then some (shrink x exponent.natAbs)
  else if x == 0 then some x
  else
    let y := x * powerOfTen exponent.natAbs
    if y.isFinite then some y else none

/-- A number in the range of doubles. Digits that no longer fit into 64 bits only move the point. -/
def float? : Json → Option Float
  | .number literal => do
    let (negative, body) := Decimal.splitSign literal.toList
    let (whole, unread) := significand 0 (body.takeWhile Char.isDigit)
    let rest := body.dropWhile Char.isDigit
    let fraction := (rest.dropWhile (· == '.')).takeWhile Char.isDigit
    let (digits, ignored) := significand whole fraction
    let exponent ← Decimal.exponent? (rest.dropWhile fun c => c == '.' || c.isDigit)
    let x ← scale? digits (exponent + unread.length - (fraction.length - ignored.length))
    return if negative then -x else x
  | _ => none

/-- The name of a choice, as a string or as an object whose one member is null. -/
def choice? : Json → Option String
  | .string s => some s
  | .object [(s, .null)] => some s
  | _ => none

def nullable? {α : Type} (f : Json → Option α) : Json → Option (Option α)
  | .null => some none
  | v => (f v).map some

def required {α : Type} (f : Json → Option α) (v : Option Json) : Option α := v.bind f

def withDefault {α : Type} (a : α) (f : Json → Option α) : Option Json → Option α
  | none => some a
  | some v => f v

def optionalField {α : Type} (f : Json → Option α) : Option Json → Option (Option α)
  | none => some none
  | some v => nullable? f v

end Optima.Json
