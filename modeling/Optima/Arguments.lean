import Optima.Text.Blank
import Optima.Transport.State

namespace Optima

inductive Task where
  | linear
  | transportation (method : Transport.InitialMethod) (optimize : Bool)
  | assignment

structure Command where
  task : Task
  file : String
  stepLimit : Nat
  showSteps : Bool
  showState : Bool

namespace Arguments

/-- Options as they are read; those that may be given once are absent until they are. -/
structure Options where
  stepLimit : Option Nat := none
  showSteps : Bool := false
  showState : Bool := false
  method : Option Transport.InitialMethod := none
  optimize : Bool := false
  file : Option String := none

def method? : String → Option Transport.InitialMethod
  | "nwc" => some .northwestCorner
  | "lcm" => some .leastCost
  | "vam" => some .vogel
  | _ => none

/-- A count below `2 ^ 64`, with or without a plus sign. -/
def count? (s : String) : Option Nat :=
  let ds := match s.toList with
    | '+' :: ds => ds
    | ds => ds
  if ds.isEmpty || !ds.all Char.isDigit then none
  else
    let n := Decimal.ofDigits 0 ds
    if n < Nat.pow 2 64 then some n else none

def setStepLimit (o : Options) (value : String) : Option Options := do
  let n ← count? value
  if o.stepLimit.isSome then none else some { o with stepLimit := some n }

def setMethod (o : Options) (value : String) : Option Options := do
  let m ← method? value
  if o.method.isSome then none else some { o with method := some m }

def setSteps (o : Options) : Option Options :=
  if o.showSteps then none else some { o with showSteps := true }

def setState (o : Options) : Option Options :=
  if o.showState then none else some { o with showState := true }

def setOptimize (o : Options) : Option Options :=
  if o.optimize then none else some { o with optimize := true }

def setFile (o : Options) (file : String) : Option Options :=
  if o.file.isSome || file.isEmpty then none else some { o with file := some file }

def isValue (s : String) : Bool := s == "-" || s.toList.head? != some '-'

def splitLong (s : String) : String × Option String :=
  match Text.cutAt? '=' s.toList with
  | some (name, value) => (String.ofList name, some (String.ofList value))
  | none => (s, none)

def takeValue (set : Options → String → Option Options) (o : Options) (own : Option String)
    (rest : List String) : Option (Options × List String) :=
  match own, rest with
  | some v, _ => (set o v).map (·, rest)
  | none, v :: more => if isValue v then (set o v).map (·, more) else none
  | none, [] => none

def takeFlag (set : Options → Option Options) (o : Options) (own : Option String)
    (rest : List String) : Option (Options × List String) :=
  if own.isSome then none else (set o).map (·, rest)

/-- Reads one long option. Those of transportation problems are known only where `shipping` is
set. -/
def longOption (shipping : Bool) (o : Options) (arg : String) (rest : List String) :
    Option (Options × List String) :=
  let (name, own) := splitLong arg
  match name with
  | "--step-limit" => takeValue setStepLimit o own rest
  | "--trace" => takeFlag setSteps o own rest
  | "--json" => takeFlag setState o own rest
  | "--method" => if shipping then takeValue setMethod o own rest else none
  | "--optimize" => if shipping then takeFlag setOptimize o own rest else none
  | _ => none

def shortOptions (o : Options) (rest : List String) :
    List Char → Option (Options × List String)
  | [] => some (o, rest)
  | 'o' :: letters => do
    let o ← setOptimize o
    shortOptions o rest letters
  | 'm' :: letters =>
    match letters with
    | [] => takeValue setMethod o none rest
    | '=' :: value => takeValue setMethod o (some (String.ofList value)) rest
    | value => takeValue setMethod o (some (String.ofList value)) rest
  | _ => none

def afterTask (shipping : Bool) : Nat → Options → List String → Option Options
  | 0, o, args => if args.isEmpty then some o else none
  | n + 1, o, args =>
    match args with
    | [] => some o
    | "--" :: files => files.foldlM setFile o
    | arg :: rest =>
      if isValue arg then do afterTask shipping n (← setFile o arg) rest
      else if "--".toList.isPrefixOf arg.toList then do
        let (o, rest) ← longOption shipping o arg rest
        afterTask shipping n o rest
      else if shipping then do
        let (o, rest) ← shortOptions o rest (arg.toList.drop 1)
        afterTask shipping n o rest
      else none

def beforeTask : Nat → Options → List String → Option (Options × String × List String)
  | 0, _, _ => none
  | n + 1, o, args =>
    match args with
    | [] => none
    | arg :: rest =>
      if isValue arg then some (o, arg, rest)
      else do
        let (o, rest) ← longOption false o arg rest
        beforeTask n o rest

end Arguments

open Arguments in
/-- Reads the arguments of the command line. An option after the kind of problem wins over the same
option before it. -/
def Command.ofArguments? (args : List String) : Option Command := do
  let (early, kind, rest) ← beforeTask (args.length + 1) {} args
  let late ← afterTask (kind == "transportation") rest.length {} rest
  let task ← match kind with
    | "lp" => some .linear
    | "transportation" =>
      some (.transportation (late.method.getD .northwestCorner) late.optimize)
    | "assignment" => some .assignment
    | _ => none
  return {
    task
    file := ← late.file
    stepLimit := max 1 ((late.stepLimit.orElse fun _ => early.stepLimit).getD 100)
    showSteps := early.showSteps || late.showSteps
    showState := early.showState || late.showState }

end Optima
