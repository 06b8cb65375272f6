import Listfile.Context
import Listfile.ListValue
import Listfile.Log
import Listfile.Text.Quoted

/-!
# Expanding references

A text is a sequence of `Piece`s: escape pairs, openers and closers of
references, and characters that stand for themselves. Expansion keeps a stack
of the references that are open: the text between the braces is itself
expanded, so inner references are looked up first. A value goes in as it is
and is never read again.
-/

namespace Listfile

open Text

/-- One unit of a text that is expanded. -/
inductive Piece where
  /-- A backslash with the character after it. -/
  | escape (c : Char)
  /-- The opener of a reference to a store. -/
  | opener (store : Store)
  /-- A closing brace. -/
  | closer
  /-- A character that stands for itself. -/
  | literal (c : Char)
  deriving DecidableEq

/-- What is written between the dollar sign and the brace of a reference. -/
def Store.mark : Store → List Char
  | .variables => []
  | .environment => ['E', 'N', 'V']
  | .cache => ['C', 'A', 'C', 'H', 'E']

/-- The name of a store in log records. -/
def Store.label : Store → String
  | .variables => "Var"
  | .environment => "Env"
  | .cache => "Cache"

namespace Piece

/-- The characters of the piece as they are written. -/
def text : Piece → List Char
  | .escape c => ['\\', c]
  | .opener store => '$' :: (store.mark ++ ['{'])
  | .closer => ['}']
  | .literal c => [c]

/-- The pieces of a text. A dollar sign that opens no reference and a lone
backslash at the end stand for themselves. -/
def ofChars : List Char → List Piece
  | [] => []
  | '\\' :: c :: cs => .escape c :: ofChars cs
  | '}' :: cs => .closer :: ofChars cs
  | '$' :: '{' :: cs => .opener .variables :: ofChars cs
  | '$' :: 'E' :: 'N' :: 'V' :: '{' :: cs => .opener .environment :: ofChars cs
  | '$' :: 'C' :: 'A' :: 'C' :: 'H' :: 'E' :: '{' :: cs => .opener .cache :: ofChars cs
  | c :: cs => .literal c :: ofChars cs

/-- The pieces of a text are the text cut up. -/
theorem flatMap_text_ofChars (cs : List Char) : (ofChars cs).flatMap text = cs := by
  fun_induction ofChars cs <;> simp_all [text, Store.mark]

end Piece

/-- What an escape pair stands for. An escaped semicolon stays escaped, so that
splitting can tell it from a separator. -/
def unescape (c : Char) : List Char :=
  if c = 'r' then ['\r']
  else if c = 'n' then ['\n']
  else if c = 't' then ['\t']
  else if c = ';' then ['\\', ';']
  else [c]

/-- A reference whose name is still being read. -/
structure OpenReference where
  store : Store
  /-- The offset of its dollar sign. -/
  start : Nat
  /-- What was written before it, last character first. -/
  outer : List Char

/-- How far an expansion has come. -/
structure Expansion where
  offset : Nat
  /-- What is written of the innermost open reference's name, or of the whole
  result when none is open; last character first. -/
  written : List Char
  /-- The open references, the innermost first. -/
  opened : List OpenReference

namespace Expansion

/-- Nothing read and nothing written. -/
def initial : Expansion :=
  ⟨0, [], []⟩

/-- Appends characters to what is written. -/
def write (e : Expansion) (cs : List Char) : Expansion :=
  { e with written := cs.reverse ++ e.written }

/-- Closes the innermost reference: its value follows what was written before
it. Outside any reference a closing brace stands for itself. -/
def close (lookup : Store → String → Option String) (e : Expansion) : Expansion :=
  match e.opened with
  | [] => e.write ['}']
  | r :: rest =>
    let value := (lookup r.store (String.ofList e.written.reverse)).getD ""
    { e with written := value.toList.reverse ++ r.outer, opened := rest }

/-- Reads one piece. -/
def step (lookup : Store → String → Option String) (e : Expansion) (p : Piece) : Expansion :=
  let after := match p with
    | .escape c => e.write (unescape c)
    | .literal c => e.write [c]
    | .closer => e.close lookup
    | .opener store => { e with written := [], opened := ⟨store, e.offset, e.written⟩ :: e.opened }
  { after with offset := e.offset + byteLength p.text }

/-- The text written, or the offset of the innermost reference that is still
open. -/
def result (e : Expansion) : Except Nat String :=
  match e.opened with
  | [] => .ok (String.ofList e.written.reverse)
  | r :: _ => .error r.start

/-- What the log says of a piece: a closer whose name is not bound is
reported. -/
def pieceNotes (lookup : Store → String → Option String) (e : Expansion) (p : Piece) :
    List LogRecord :=
  match p, e.opened with
  | .closer, r :: _ =>
    let name := String.ofList e.written.reverse
    if (lookup r.store name).isSome then []
    else
      [⟨.trace, "cmake_parser_rs::resolve",
        r.store.label ++ " variable " ++ quote name ++ " is not set, expanding to empty"⟩]
  | _, _ => []

/-- What the log says of the pieces from here on. -/
def notesFrom (lookup : Store → String → Option String) (e : Expansion) :
    List Piece → List LogRecord
  | [] => []
  | p :: ps => e.pieceNotes lookup p ++ notesFrom lookup (e.step lookup p) ps

end Expansion

/-- The text with its references replaced and its escapes decoded, or the
offset of a reference that is never closed. Unbound names stand for the empty
text. -/
def expand (lookup : Store → String → Option String) (text : String) : Except Nat String :=
  ((Piece.ofChars text.toList).foldl (Expansion.step lookup) .initial).result

/-- What the log says while a text is expanded. -/
def expandNotes (lookup : Store → String → Option String) (text : String) : List LogRecord :=
  Expansion.notesFrom lookup .initial (Piece.ofChars text.toList)

/-! ## Resolving arguments -/

/-- A reference in an argument that is never closed: its text up to the end,
and the place of the argument. -/
structure ResolveError where
  remainder : String
  line : Nat
  column : Nat
  deriving DecidableEq

/-- The error in one line. -/
def ResolveError.message (e : ResolveError) : String :=
  "variable reference without terminating '\x7d': " ++ quote e.remainder ++ " at line " ++
    toString e.line ++ ", column " ++ toString e.column

namespace Token

/-- The expanded value of a token. -/
def expand (lookup : Store → String → Option String) (t : Token) : Except ResolveError String :=
  match Listfile.expand lookup t.value with
  | .ok value => .ok value
  | .error offset =>
    let rest : Span := ⟨offset, t.value.utf8ByteSize⟩
    .error ⟨rest.slice t.value, t.line, t.column⟩

/-- What becomes of an argument: an unquoted one is expanded and split into
list elements, a quoted one is expanded, any other stays as it is. -/
def resolve (lookup : Store → String → Option String) (t : Token) :
    Except ResolveError (List Token) :=
  match t.kind with
  | .raw => (t.expand lookup).map fun value => (splitList value).map t.withValue
  | .quoted => (t.expand lookup).map fun value => [t.withValue value]
  | _ => .ok [t]

/-- What the log says while an argument is resolved. -/
def resolveNotes (lookup : Store → String → Option String) (t : Token) : List LogRecord :=
  match t.kind with
  | .raw | .quoted => expandNotes lookup t.value
  | _ => []

end Token

/-- The arguments after expansion and splitting, each at the place of the one
it came from. The first one that cannot be expanded ends it. -/
def resolve (lookup : Store → String → Option String) :
    List Token → Except ResolveError (List Token)
  | [] => .ok []
  | t :: ts => do
    let front ← t.resolve lookup
    let back ← resolve lookup ts
    return front ++ back

/-- What the log says while arguments are resolved. -/
def resolveNotes (lookup : Store → String → Option String) : List Token → List LogRecord
  | [] => []
  | t :: ts =>
    t.resolveNotes lookup ++
      match t.resolve lookup with
      | .ok _ => resolveNotes lookup ts
      | .error _ => []

end Listfile
