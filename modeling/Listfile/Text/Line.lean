/-!
# Lines

A line ends at a line feed, and a carriage return directly before that line
feed belongs to the line break. A carriage return anywhere else, also at the
very end of a text, belongs to its line.
-/

namespace Listfile.Text

/-- The first line of a text, without the break that ends it. -/
def firstLine (cs : List Char) : List Char :=
  let line := cs.takeWhile (· != '\n')
  if line.length < cs.length ∧ line.getLast? = some '\r' then line.dropLast else line

end Listfile.Text
