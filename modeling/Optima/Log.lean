namespace Optima

inductive Level where
  | info
  | warn
  | debug
  | trace

def Level.name : Level → String
  | .info => "INFO"
  | .warn => "WARN"
  | .debug => "DEBUG"
  | .trace => "TRACE"

structure LogEntry where
  level : Level
  message : String

namespace LogEntry

def debug (message : String) : LogEntry := ⟨.debug, message⟩

def trace (message : String) : LogEntry := ⟨.trace, message⟩

def text (e : LogEntry) : String := e.level.name ++ " " ++ e.message

end LogEntry

end Optima
