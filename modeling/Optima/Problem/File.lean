import Optima.Assignment.Record
import Optima.Json.Reader
import Optima.Linear.Reader
import Optima.Linear.Record
import Optima.Text.Quoted
import Optima.Transport.Record

namespace Optima

inductive FileFault where
  | notFound
  | notUnicode
  | other (message : String)

def FileFault.message : FileFault → String
  | .notFound => "No such file or directory (os error 2)"
  | .notUnicode => "stream did not contain valid UTF-8"
  | .other message => message

inductive ExtensionFault where
  | unknown (extension : String)
  | missing (path : List UInt8)
  | notUnicode (extension : List UInt8)

def ExtensionFault.message : ExtensionFault → String
  | .unknown extension => "Could not recognise file extension \"" ++ extension ++ "\""
  | .missing path => "Could not read extension from file path: " ++ Text.quotedBytes path
  | .notUnicode extension =>
    "Could not convert OsStr to &str, probably invalid unicode: " ++ Text.quotedBytes extension

inductive ImportError where
  | extension (fault : ExtensionFault)
  | file (fault : FileFault)
  | parse (error : ParseError)
  | json
  | problem (error : SolveError)

namespace ImportError

def message : ImportError → String
  | .extension fault => fault.message
  | .file fault => fault.message
  | .parse error => error.message
  | .json => "JSON error: not a record of this kind of problem"
  | .problem error => error.message

def causes : ImportError → List String
  | .extension _ => []
  | .file fault => [fault.message]
  | .parse error => error.message :: error.causes
  | .json => ["not a record of this kind of problem"]
  | .problem error => [error.message]

end ImportError

class FileFormat (P : Type) where
  ofJson? : Json → Option P
  fault? : P → Option ProblemFault
  textExtensions : List String
  parse : String → Except ParseError P
  parseLog : P → List LogEntry

instance : FileFormat (LinearProgram Float) where
  ofJson? := LinearProgram.ofJson?
  fault? := LinearProgram.fault?
  textExtensions := ["lp", "txt"]
  parse := Linear.parse
  parseLog := Linear.parseLog

instance : FileFormat (TransportProblem Float) where
  ofJson? := TransportProblem.ofJson?
  fault? := TransportProblem.fault?
  textExtensions := []
  parse _ := .error .noTextFormat
  parseLog _ := []

instance : FileFormat (AssignmentProblem Float) where
  ofJson? := AssignmentProblem.ofJson?
  fault? := AssignmentProblem.fault?
  textExtensions := []
  parse _ := .error .noTextFormat
  parseLog _ := []

namespace FileFormat

variable {P : Type} [FileFormat P]

inductive Style where
  | json
  | text

/-- The style of an extension, in which capitals do not matter. -/
def style? (P : Type) [FileFormat P] (extension : String) : Option Style :=
  let e := Text.lower extension.toList
  if e = "json" then some .json
  else if (textExtensions P).contains e then some .text
  else none

def decode (text extension : String) : Except ImportError P :=
  match style? P extension with
  | some .json => (Json.parse? text >>= ofJson?).elim (.error .json) .ok
  | some .text => (parse text).mapError .parse
  | none => .error (.extension (.unknown extension))

def ofText (text extension : String) : Except ImportError P := do
  let p ← decode text extension
  match fault? p with
  | some fault => throw (.problem (.invalidProblem fault))
  | none => return p

def ofTextLog (P : Type) [FileFormat P] (text extension : String) : List LogEntry :=
  match style? P extension with
  | some .text => (parse text : Except ParseError P).toOption.elim [] parseLog
  | _ => []

def fileName (path : List UInt8) : List UInt8 :=
  (path.reverse.takeWhile (· != '/'.toUInt8)).reverse

/-- What follows the last point of a file's name, unless the name starts with it. -/
def extension? (path : List UInt8) : Option (List UInt8) :=
  let reversed := (fileName path).reverse
  let ending := reversed.takeWhile (· != '.'.toUInt8)
  let stem := (reversed.dropWhile (· != '.'.toUInt8)).drop 1
  if stem.isEmpty then none else some ending.reverse

def extensionText (path : List UInt8) : Except ExtensionFault String :=
  match extension? path with
  | none => .error (.missing path)
  | some bytes =>
    match String.fromUTF8? ⟨bytes.toArray⟩ with
    | some s => .ok s
    | none => .error (.notUnicode bytes)

def contentText (content : Except FileFault ByteArray) : Except FileFault String := do
  match String.fromUTF8? (← content) with
  | some text => return text
  | none => throw .notUnicode

def ofFile (path : List UInt8) (content : Except FileFault ByteArray) : Except ImportError P := do
  let text ← (contentText content).mapError .file
  let extension ← (extensionText path).mapError .extension
  ofText text extension

def ofFileLog (P : Type) [FileFormat P] (path : List UInt8)
    (content : Except FileFault ByteArray) : List LogEntry :=
  match contentText content with
  | .error _ => []
  | .ok text =>
    .debug s!"Read {text.utf8ByteSize} bytes from {Text.quotedBytes path}" ::
      (extensionText path).toOption.elim [] (ofTextLog P text)

end FileFormat

end Optima
