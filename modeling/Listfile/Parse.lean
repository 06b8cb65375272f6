import Listfile.Node.Fold
import Listfile.Token.Scan

/-!
# Parsing a listfile

The readers of tokens, statements and nodes put together, from source text to
statements or to a tree. Both end at the first error.
-/

namespace Listfile

/-- The statements of a source text. -/
def parseFlat (options : ParseOptions) (source : String) : Reading Statement ParseError :=
  (Statement.read options (scan source)).mapError (·.inSource source)

/-- The tree of a source text. -/
def parseTree (options : ParseOptions) (source : String) : Reading Node ParseError :=
  (Node.fold (Statement.read options (scan source))).mapError (·.inSource source)

/-- The whole tree of a source text, comments included, or the error that ends
it. -/
def parse (source : String) : Except ParseError (List Node) :=
  (parseTree ⟨false⟩ source).toExcept

/-- What the log says while the statements are read, grouped by statement; the
last group follows the last statement. -/
def flatNotes (options : ParseOptions) (source : String) : List (List LogRecord) :=
  (Statement.read options (scan source)).items.map Statement.notes ++ [[]]

/-- What the log says while the tree is read, grouped by node; the last group
follows the last node. -/
def treeNotes (options : ParseOptions) (source : String) : List (List LogRecord) :=
  (Node.reader (some Node.maxDepth)).notesFrom OpenBlocks.notes [] []
    (Statement.read options (scan source)).items

end Listfile
