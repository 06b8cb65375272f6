import Listfile.Span

/-!
# Tokens

A token is a kind, a decoded value and a location. The value of an unquoted or
quoted token keeps its escape sequences and references: they are decoded when
the token is expanded.
-/

namespace Listfile

/-- The kinds of token. -/
inductive Kind where
  /-- Unquoted text, subject to expansion and to list splitting. -/
  | raw
  /-- Text between double quotes. -/
  | quoted
  /-- Text between long brackets, taken literally. -/
  | bracketed
  /-- A line comment or a bracket comment. -/
  | comment
  | leftParen
  | rightParen
  | semicolon
  /-- A long bracket that is opened and never closed. -/
  | unmatchedBracket
  /-- The rest of a text from which no token can be read. -/
  | unparseable
  deriving DecidableEq

/-- The name of a kind as the tools write it. -/
def Kind.name : Kind → String
  | .raw => "Raw"
  | .quoted => "Quoted"
  | .bracketed => "Bracketed"
  | .comment => "Comment"
  | .leftParen => "LParen"
  | .rightParen => "RParen"
  | .semicolon => "Semicolon"
  | .unmatchedBracket => "UnmatchedBracket"
  | .unparseable => "Unparseable"

/-- A token: what it is, what it says and where it stands. -/
structure Token where
  kind : Kind
  value : String
  location : Location
  deriving DecidableEq

/-- Whether a `$` occurs that is not the second character of an escape pair. -/
def hasDollar : List Char → Bool
  | [] => false
  | ['\\'] => false
  | '\\' :: _ :: cs => hasDollar cs
  | c :: cs => c == '$' || hasDollar cs

/-- The last case of a recursion over escape pairs: a character that neither
stands alone at the end as a backslash nor begins a pair is no backslash. -/
theorem ne_backslash_of_not_pair {c : Char} {cs : List Char} (hlast : c = '\\' → cs = [] → False)
    (hpair : ∀ d ds, c = '\\' → cs = d :: ds → False) : c ≠ '\\' := by
  intro hc
  cases cs with
  | nil => exact hlast hc rfl
  | cons d ds => exact hpair d ds hc rfl

namespace Token

/-- The decoded value; an unparseable region has none. -/
def text? (t : Token) : Option String :=
  if t.kind = .unparseable then none else some t.value

/-- The same token with another value. -/
def withValue (t : Token) (value : String) : Token :=
  { t with value }

/-- Whether the value holds an unescaped `$`, that is, may still refer to a
variable. -/
def hasReference (t : Token) : Bool :=
  hasDollar t.value.toList

/-- Whether this is the unquoted token with the given value. -/
def isRaw (t : Token) (value : String) : Bool :=
  t.kind = .raw && t.value == value

/-- The line of the token's first character. -/
def line (t : Token) : Nat :=
  t.location.line

/-- The column of the token's first character. -/
def column (t : Token) : Nat :=
  t.location.column

/-- The span of the token. -/
def span (t : Token) : Span :=
  t.location.span

end Token

end Listfile
