import Listfile.Fault
import Listfile.Log
import Listfile.Reading

/-!
# Statements

A listfile is a sequence of statements: comments and command invocations.
`Statement.reader` takes tokens one at a time and delivers a statement when its
last token is taken. Parentheses inside arguments must balance and stay among
the arguments; semicolons and comments there are dropped.
-/

namespace Listfile

open Text

/-- A comment on its own. -/
structure Comment where
  location : Location
  text : String
  deriving DecidableEq

/-- A command invocation. Expansion can split or drop arguments, so they are
kept as tokens. -/
structure Command where
  location : Location
  name : String
  args : List Token
  deriving DecidableEq

/-- A fault that covers a whole command. -/
def Command.fault (c : Command) (cause : FaultCause) : Fault :=
  ⟨cause, c.location⟩

/-- A comment or a command invocation. -/
inductive Statement where
  | comment (comment : Comment)
  | command (command : Command)
  deriving DecidableEq

/-- What to deliver. -/
structure ParseOptions where
  /-- Leave comments out. -/
  skipComments : Bool
  deriving DecidableEq

namespace Statement

/-- How far the statement being read has come. -/
inductive Progress where
  /-- Between statements. -/
  | between
  /-- After a command name. -/
  | named (name : Token)
  /-- Inside the arguments, with `depth` inner parentheses open; the arguments
  taken so far are in `taken`, the last one first. -/
  | arguments (name : Token) (depth : Nat) (taken : List Token)

/-- The command whose arguments end at the token `close`. -/
def ofParts (name : Token) (taken : List Token) (close : Token) : Statement :=
  .command ⟨name.location.through close.span, name.value, taken.reverse⟩

/-- Takes a token between statements. -/
def start (options : ParseOptions) (t : Token) : Except Fault (Option Statement × Progress) :=
  match t.kind with
  | .comment =>
    if options.skipComments then .ok (none, .between)
    else .ok (some (.comment ⟨t.location, t.value⟩), .between)
  | .unmatchedBracket => .error (t.fault .unmatchedBracket)
  | .unparseable => .error (t.fault .unparseable)
  | .raw =>
    if isIdentifier t.value then .ok (none, .named t) else .error (t.fault .invalidCommandName)
  | _ => .error (t.fault .expectedCommandName)

/-- Takes the token after a command name. -/
def openArguments (name t : Token) : Except Fault (Option Statement × Progress) :=
  match t.kind with
  | .leftParen => .ok (none, .arguments name 0 [])
  | .unparseable => .error (t.fault .unparseable)
  | .unmatchedBracket => .error (t.fault .unmatchedBracket)
  | _ => .error (t.fault (.expectedOpenParen t.text?))

/-- Takes a token inside the arguments. -/
def argument (name : Token) (depth : Nat) (taken : List Token) (t : Token) :
    Except Fault (Option Statement × Progress) :=
  match t.kind, depth with
  | .leftParen, _ => .ok (none, .arguments name (depth + 1) (t :: taken))
  | .rightParen, 0 => .ok (some (ofParts name taken t), .between)
  | .rightParen, outer + 1 => .ok (none, .arguments name outer (t :: taken))
  | .semicolon, _ => .ok (none, .arguments name depth taken)
  | .comment, _ => .ok (none, .arguments name depth taken)
  | .unmatchedBracket, _ => .error (t.fault .unmatchedBracket)
  | .unparseable, _ => .error (t.fault .unparseable)
  | _, _ => .ok (none, .arguments name depth (t :: taken))

/-- The machine that reads statements from tokens. -/
def reader (options : ParseOptions) : Reader Progress Token Statement Fault where
  step
    | .between, t => start options t
    | .named name, t => openArguments name t
    | .arguments name depth taken, t => argument name depth taken t
  finish
    | .between => none
    | .named name => some (name.fault (.expectedOpenParen none))
    | .arguments name _ _ => some (name.fault .expectedCloseParen)

/-- The statements of a sequence of tokens. -/
def read (options : ParseOptions) (tokens : List Token) : Reading Statement Fault :=
  (reader options).run .between ⟨tokens, none⟩

/-- What the log says of a statement: every command is reported. -/
def notes : Statement → List LogRecord
  | .comment _ => []
  | .command c =>
    [⟨.trace, "cmake_parser_rs::parser",
      "command " ++ c.name ++ "() with " ++ toString c.args.length ++
        " argument token(s) at line " ++ toString c.location.line⟩]

end Statement

end Listfile
