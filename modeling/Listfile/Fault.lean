import Listfile.Signature
import Listfile.Text.Line
import Listfile.Text.Quoted

/-!
# Faults of a listfile

A `Fault` is what is wrong and where. A `ParseError` shows a fault together
with the first line of the source text at fault.
-/

namespace Listfile

open Text

/-- What is wrong. -/
inductive FaultCause where
  /-- A long bracket without its closing bracket. -/
  | unmatchedBracket
  /-- Something other than a bare word where a command must start. -/
  | expectedCommandName
  /-- A command name that is no identifier. -/
  | invalidCommandName
  /-- No `(` after a command name, but `found` or the end of the input. -/
  | expectedOpenParen (found : Option String)
  /-- The input ends before the `)` of an argument list. -/
  | expectedCloseParen
  /-- Input from which no token can be read. -/
  | unparseable
  /-- `break` or `continue` with arguments. -/
  | unexpectedArguments
  /-- A definition with a malformed signature. -/
  | invalidSignature (fault : SignatureFault)
  /-- The input ends before one of the `expected` commands closes a block. -/
  | missingTerminator (expected : List String)
  /-- Blocks nested deeper than `limit` levels. -/
  | nestingTooDeep (limit : Nat)
  deriving DecidableEq

/-- The wording of a cause. -/
def FaultCause.message : FaultCause → String
  | .unmatchedBracket => "unmatched opening bracket"
  | .expectedCommandName => "expected command name"
  | .invalidCommandName => "invalid command name identifier"
  | .expectedOpenParen none => "expected '(' and got unexpected end of file"
  | .expectedOpenParen (some found) => "expected '(', got '" ++ found ++ "'"
  | .expectedCloseParen => "expected ')' and got unexpected end of file"
  | .unparseable => "unparseable input"
  | .unexpectedArguments => "builtin command accepts no arguments"
  | .invalidSignature fault => fault.message
  | .missingTerminator expected =>
    "no " ++ " nor ".intercalate (expected.map fun name => "'" ++ name ++ "()'") ++ " for command"
  | .nestingTooDeep limit => "blocks nested deeper than " ++ toString limit ++ " levels"

/-- What is wrong and where. -/
structure Fault where
  cause : FaultCause
  location : Location
  deriving DecidableEq

/-- A fault at a token. -/
def Token.fault (t : Token) (cause : FaultCause) : Fault :=
  ⟨cause, t.location⟩

/-- A fault with the first line of the text at fault. -/
structure ParseError where
  fault : Fault
  text : String
  deriving DecidableEq

/-- The fault as it shows in the text it was found in. -/
def Fault.inSource (f : Fault) (source : String) : ParseError :=
  ⟨f, String.ofList (firstLine (f.location.span.sliceChars source.toList))⟩

namespace ParseError

/-- What is wrong. -/
def cause (e : ParseError) : FaultCause :=
  e.fault.cause

/-- Where it is. -/
def location (e : ParseError) : Location :=
  e.fault.location

/-- The error in one line. -/
def message (e : ParseError) : String :=
  e.cause.message ++ " at line " ++ toString e.location.line ++ ", column " ++
    toString e.location.column ++ ": " ++ quote e.text

end ParseError

end Listfile
