import Optima.Json.Value

namespace Optima.Json.Reader

def isSpace (c : Char) : Bool := c == ' ' || c == '\n' || c == '\t' || c == '\r'

def skip (cs : List Char) : List Char := cs.dropWhile isSpace

def digits? (cs : List Char) : Option (List Char × List Char) :=
  let ds := cs.takeWhile Char.isDigit
  if ds.isEmpty then none else some (ds, cs.dropWhile Char.isDigit)

/-- Digits without a leading zero. -/
def whole? (cs : List Char) : Option (List Char × List Char) :=
  match cs with
  | '0' :: rest => if (rest.head?.map Char.isDigit).getD false then none else some (['0'], rest)
  | _ => digits? cs

def fraction? (cs : List Char) : Option (List Char × List Char) :=
  match cs with
  | '.' :: rest => (digits? rest).map fun (ds, r) => ('.' :: ds, r)
  | _ => some ([], cs)

def exponent? (cs : List Char) : Option (List Char × List Char) :=
  match cs with
  | 'e' :: rest | 'E' :: rest =>
    let (sign, body) := match rest with
      | '+' :: r => (['+'], r)
      | '-' :: r => (['-'], r)
      | r => ([], r)
    (digits? body).map fun (ds, r) => ('e' :: sign ++ ds, r)
  | _ => some ([], cs)

def number? (cs : List Char) : Option (Json × List Char) := do
  let (sign, body) := match cs with
    | '-' :: r => (['-'], r)
    | r => ([], r)
  let (whole, rest) ← whole? body
  let (fraction, rest) ← fraction? rest
  let (exponent, rest) ← exponent? rest
  return (.number (String.ofList (sign ++ whole ++ fraction ++ exponent)), rest)

def hexDigit? (c : Char) : Option Nat :=
  if c.isDigit then some (c.toNat - '0'.toNat)
  else if 'a' ≤ c ∧ c ≤ 'f' then some (c.toNat - 'a'.toNat + 10)
  else if 'A' ≤ c ∧ c ≤ 'F' then some (c.toNat - 'A'.toNat + 10)
  else none

def unit? : List Char → Option (Nat × List Char)
  | a :: b :: c :: d :: rest => do
    let a ← hexDigit? a
    let b ← hexDigit? b
    let c ← hexDigit? c
    let d ← hexDigit? d
    return (((a * 16 + b) * 16 + c) * 16 + d, rest)
  | _ => none

/-- The character of an escape with digits, `none` inside when a surrogate has no partner. -/
def escaped? (cs : List Char) : Option (Option Char × List Char) := do
  let (n, rest) ← unit? cs
  if 0xD800 ≤ n ∧ n ≤ 0xDBFF then
    match rest with
    | '\\' :: 'u' :: more =>
      let (k, tail) ← unit? more
      if 0xDC00 ≤ k ∧ k ≤ 0xDFFF then
        return (some (Char.ofNat (0x10000 + (n - 0xD800) * 0x400 + (k - 0xDC00))), tail)
      else return (none, rest)
    | _ => return (none, rest)
  else if 0xDC00 ≤ n ∧ n ≤ 0xDFFF then return (none, rest)
  else return (some (Char.ofNat n), rest)

/-- What stands before the quote that ends a string, with its escapes as written, and what follows
the quote. -/
def untilQuote? : List Char → Option (List Char × List Char)
  | [] => none
  | '"' :: rest => some ([], rest)
  | '\\' :: e :: rest => (untilQuote? rest).map fun (body, tail) => ('\\' :: e :: body, tail)
  | c :: rest => (untilQuote? rest).map fun (body, tail) => (c :: body, tail)

/-- The characters that the body of a string stands for, `none` inside when one of them is an
unpaired surrogate. The first argument bounds their number. -/
def characters? : Nat → List Char → Option (Option (List Char))
  | _, [] => some (some [])
  | 0, _ => none
  | n + 1, '\\' :: e :: rest =>
    let plain (c : Char) := (characters? n rest).map (·.map (c :: ·))
    match e with
    | '"' | '\\' | '/' => plain e
    | 'b' => plain '\x08'
    | 'f' => plain '\x0c'
    | 'n' => plain '\n'
    | 'r' => plain '\r'
    | 't' => plain '\t'
    | 'u' =>
      match escaped? rest with
      | none => none
      | some (c, tail) => (characters? n tail).map fun found => do return (← c) :: (← found)
    | _ => none
  | n + 1, c :: rest =>
    if c == '\\' || c.toNat < 0x20 then none
    else (characters? n rest).map (·.map (c :: ·))

def string? (cs : List Char) : Option (Json × List Char) :=
  match cs with
  | '"' :: rest => do
    let (body, tail) ← untilQuote? rest
    match ← characters? body.length body with
    | some found => return (.string (String.ofList found), tail)
    | none => return (.unpaired, tail)
  | _ => none

def objectOf : Option (List (String × Json)) → Json
  | some reversed => .object reversed.reverse
  | none => .unpaired

mutual

/-- A value; the first argument bounds the depth and the count of the parts. -/
def value? : Nat → List Char → Option (Json × List Char)
  | 0, _ => none
  | n + 1, cs =>
    match skip cs with
    | 'n' :: 'u' :: 'l' :: 'l' :: rest => some (.null, rest)
    | 't' :: 'r' :: 'u' :: 'e' :: rest => some (.bool true, rest)
    | 'f' :: 'a' :: 'l' :: 's' :: 'e' :: rest => some (.bool false, rest)
    | '"' :: rest => string? ('"' :: rest)
    | '[' :: rest =>
      match skip rest with
      | ']' :: tail => some (.array [], tail)
      | _ => items? n [] rest
    | '{' :: rest =>
      match skip rest with
      | '}' :: tail => some (.object [], tail)
      | _ => members? n (some []) rest
    | rest => number? rest

def items? : Nat → List Json → List Char → Option (Json × List Char)
  | 0, _, _ => none
  | n + 1, found, cs =>
    match value? n cs with
    | none => none
    | some (v, rest) =>
      match skip rest with
      | ',' :: tail => items? n (v :: found) tail
      | ']' :: tail => some (.array (v :: found).reverse, tail)
      | _ => none

/-- The rest of an object; `none` stands for members of which one has a key that is no text. -/
def members? : Nat → Option (List (String × Json)) → List Char → Option (Json × List Char)
  | 0, _, _ => none
  | n + 1, found, cs =>
    match string? (skip cs) with
    | none => none
    | some (key, rest) =>
      match skip rest with
      | ':' :: tail =>
        match value? n tail with
        | none => none
        | some (v, after) =>
          let found := match key with
            | .string k => found.map ((k, v) :: ·)
            | _ => none
          match skip after with
          | ',' :: more => members? n found more
          | '}' :: more => some (objectOf found, more)
          | _ => none
      | _ => none

end

end Reader

/-- Reads a text that holds one value and nothing else. A bracket takes two units of the bound, one
for the list and one for the value in it. -/
def parse? (text : String) : Option Json :=
  let cs := text.toList
  match Reader.value? (2 * cs.length + 1) cs with
  | some (v, rest) => if (Reader.skip rest).isEmpty then some v else none
  | none => none

end Optima.Json
