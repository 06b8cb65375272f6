/-!
# Log records

What a reader of a log sees of an operation. The records of an operation are a
function of its input, so each operation that reports anything has a companion
that computes its records.
-/

namespace Listfile

/-- How much a record matters. -/
inductive LogLevel where
  | trace
  | debug
  deriving DecidableEq

/-- The name of a level in a log. -/
def LogLevel.name : LogLevel → String
  | .trace => "TRACE"
  | .debug => "DEBUG"

/-- One line of a log: its level, the part of the library that reports, and
what it says. -/
structure LogRecord where
  level : LogLevel
  target : String
  message : String
  deriving DecidableEq

end Listfile
