/-!
# Spans, positions and locations

Offsets are counted in bytes of the UTF-8 form of a text; columns are counted
in characters. A `Span` is a half-open range of offsets, a `Position` is where
a reader stands, and a `Location` is what a token or a node remembers of where
it came from.
-/

namespace Listfile

/-- A half-open range of byte offsets. Nothing ties the two ends together: a
reversed span is empty and covers no text. -/
structure Span where
  start : Nat
  stop : Nat
  deriving DecidableEq

/-- The number of bytes the characters take in UTF-8. -/
def byteLength : List Char → Nat
  | [] => 0
  | c :: cs => c.utf8Size + byteLength cs

/-- Cuts off exactly `n` bytes; there is no cut past the end or inside a
character. -/
def splitBytes : Nat → List Char → Option (List Char × List Char)
  | 0, cs => some ([], cs)
  | _ + 1, [] => none
  | n + 1, c :: cs =>
    if c.utf8Size ≤ n + 1 then
      (splitBytes (n + 1 - c.utf8Size) cs).map fun (front, back) => (c :: front, back)
    else none

namespace Span

/-- The number of bytes covered. -/
def size (s : Span) : Nat :=
  s.stop - s.start

/-- Whether the span covers nothing. -/
def isEmpty (s : Span) : Bool :=
  s.size == 0

/-- From the start of `s` to the end of `t`. -/
def through (s t : Span) : Span :=
  ⟨s.start, t.stop⟩

/-- The characters covered, or none of them when the span is reversed, leaves
the text or cuts a character. -/
def sliceChars (s : Span) (cs : List Char) : List Char :=
  if s.start ≤ s.stop then
    match splitBytes s.start cs with
    | none => []
    | some (_, back) =>
      match splitBytes s.size back with
      | none => []
      | some (front, _) => front
  else []

/-- The text covered, empty when the span does not fit the text. -/
def slice (s : Span) (text : String) : String :=
  String.ofList (s.sliceChars text.toList)

end Span

/-- Where a reader stands: a byte offset with its line and column, both
counted from one. -/
structure Position where
  offset : Nat
  line : Nat
  column : Nat
  deriving DecidableEq

namespace Position

/-- The beginning of a text. -/
def origin : Position :=
  ⟨0, 1, 1⟩

/-- The position after one more character. Only a line feed starts a line. -/
def next (p : Position) (c : Char) : Position :=
  if c = '\n' then ⟨p.offset + c.utf8Size, p.line + 1, 1⟩
  else ⟨p.offset + c.utf8Size, p.line, p.column + 1⟩

/-- The position after a run of characters. -/
def advance (p : Position) (cs : List Char) : Position :=
  cs.foldl next p

end Position

/-- Where something came from: the line and column of its first character and
the span of all of it. -/
structure Location where
  line : Nat
  column : Nat
  span : Span
  deriving DecidableEq

namespace Location

/-- The location of the text between two positions. -/
def between (first last : Position) : Location :=
  ⟨first.line, first.column, ⟨first.offset, last.offset⟩⟩

/-- The same place extended to the end of `stop`. -/
def through (l : Location) (stop : Span) : Location :=
  { l with span := l.span.through stop }

end Location

end Listfile
