import Optima.Json.Value
import Optima.Text.Quoted

namespace Optima.Json

def escapeCharacter (c : Char) : String :=
  match c with
  | '"' => "\\\""
  | '\\' => "\\\\"
  | '\x08' => "\\b"
  | '\x0c' => "\\f"
  | '\n' => "\\n"
  | '\r' => "\\r"
  | '\t' => "\\t"
  | c =>
    if c.toNat < 0x20 then
      let ds := Text.hexDigits c.toNat
      "\\u" ++ String.ofList (List.replicate (4 - ds.length) '0') ++ ds
    else String.singleton c

def stringText (s : String) : String := "\"" ++ String.join (s.toList.map escapeCharacter) ++ "\""

mutual

def compact : Json → String
  | .null => "null"
  | .bool b => if b then "true" else "false"
  | .number literal => literal
  | .string s => stringText s
  | .unpaired => "null"
  | .array items => "[" ++ compactItems items ++ "]"
  | .object members => "\x7b" ++ compactMembers members ++ "\x7d"

def compactItems : List Json → String
  | [] => ""
  | [v] => v.compact
  | v :: vs => v.compact ++ "," ++ compactItems vs

def compactMembers : List (String × Json) → String
  | [] => ""
  | [(k, v)] => stringText k ++ ":" ++ v.compact
  | (k, v) :: ms => stringText k ++ ":" ++ v.compact ++ "," ++ compactMembers ms

end

def indentation (depth : Nat) : String := String.ofList (List.replicate (2 * depth) ' ')

mutual

def pretty (depth : Nat) : Json → String
  | .array [] => "[]"
  | .array items => "[\n" ++ prettyItems (depth + 1) items ++ "\n" ++ indentation depth ++ "]"
  | .object [] => "\x7b\x7d"
  | .object members =>
    "\x7b\n" ++ prettyMembers (depth + 1) members ++ "\n" ++ indentation depth ++ "\x7d"
  | .null => "null"
  | .bool b => if b then "true" else "false"
  | .number literal => literal
  | .string s => stringText s
  | .unpaired => "null"

def prettyItems (depth : Nat) : List Json → String
  | [] => ""
  | [v] => indentation depth ++ v.pretty depth
  | v :: vs => indentation depth ++ v.pretty depth ++ ",\n" ++ prettyItems depth vs

def prettyMembers (depth : Nat) : List (String × Json) → String
  | [] => ""
  | [(k, v)] => indentation depth ++ stringText k ++ ": " ++ v.pretty depth
  | (k, v) :: ms =>
    indentation depth ++ stringText k ++ ": " ++ v.pretty depth ++ ",\n" ++ prettyMembers depth ms

end

end Optima.Json
