import Listfile.Text.Dump
import Listfile.Token

/-!
# Dumps of tokens

How spans, locations and tokens look on display.
-/

namespace Listfile

open Text

/-- A span on display. -/
def Span.dump (s : Span) : Dump :=
  .record "Span" [("start", .number s.start), ("end", .number s.stop)]

/-- A location on display. -/
def Location.dump (l : Location) : Dump :=
  .record "Location"
    [("line", .number l.line), ("column", .number l.column), ("span", l.span.dump)]

/-- A token on display. -/
def Token.dump (t : Token) : Dump :=
  .record "Token"
    [("kind", .leaf t.kind.name), ("value", .string t.value), ("span", t.span.dump),
      ("line", .number t.line), ("column", .number t.column)]

end Listfile
