namespace Optima

/-- Numbers keep the text they were written with, and objects the order and the repetitions of their
members. -/
inductive Json where
  | null
  | bool (b : Bool)
  | number (literal : String)
  | string (s : String)
  /-- A text with an escaped surrogate that has no partner, or an object with such a key. No string
  holds the text, so the value can only be passed over. -/
  | unpaired
  | array (items : List Json)
  | object (members : List (String × Json))
  deriving Inhabited

namespace Json

def strings (ss : List String) : Json := .array (ss.map .string)

def nat (n : Nat) : Json := .number (toString n)

def optional {α : Type} (f : α → Json) : Option α → Json
  | none => .null
  | some a => f a

end Json

end Optima
