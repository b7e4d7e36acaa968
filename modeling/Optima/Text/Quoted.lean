import Optima.Text.Extending
import Optima.Text.Unprintable

namespace Optima.Text

def inRanges (rs : List (Nat × Nat)) (c : Char) : Bool :=
  rs.any fun (low, high) => low ≤ c.toNat && c.toNat ≤ high

/-- A mark is escaped too, since it would attach to what stands before it. -/
def isEscaped (c : Char) : Bool := inRanges unprintable c || inRanges extending c

def hexDigits (n : Nat) : String := String.ofList (Nat.toDigits 16 n)

def escape (c : Char) : String :=
  match c with
  | '"' => "\\\""
  | '\\' => "\\\\"
  | '\t' => "\\t"
  | '\n' => "\\n"
  | '\r' => "\\r"
  | '\x00' => "\\0"
  | c => if isEscaped c then "\\u\x7b" ++ hexDigits c.toNat ++ "\x7d" else String.singleton c

def quoted (s : String) : String := "\"" ++ String.join (s.toList.map escape) ++ "\""

def quotedList (ss : List String) : String := "[" ++ ", ".intercalate (ss.map quoted) ++ "]"

def escapeByte (b : UInt8) : String :=
  let ds := (Nat.toDigits 16 b.toNat).map Char.toUpper
  "\\x" ++ String.ofList (List.replicate (2 - ds.length) '0' ++ ds)

/-- Escapes bytes that are meant to be a text; those that belong to no character stand as they
are. The first argument bounds the number of characters. -/
def escapeBytes : Nat → List UInt8 → String
  | 0, _ | _, [] => ""
  | n + 1, b :: bs =>
    let decoded := [1, 2, 3, 4].findSome? fun k =>
      (String.fromUTF8? ⟨((b :: bs).take k).toArray⟩).map fun s => (s, k)
    match decoded with
    | some (s, k) => String.join (s.toList.map escape) ++ escapeBytes n ((b :: bs).drop k)
    | none => escapeByte b ++ escapeBytes n bs

def quotedBytes (bs : List UInt8) : String := "\"" ++ escapeBytes bs.length bs ++ "\""

end Optima.Text
