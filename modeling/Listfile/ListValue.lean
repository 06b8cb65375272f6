/-!
# List values

A value is a list when its elements are separated by semicolons. A semicolon
after a backslash belongs to its element, and empty elements do not count.
-/

namespace Listfile

/-- An element, unless it is empty. Its characters come last one first. -/
def listElement (current : List Char) : List (List Char) :=
  if current.isEmpty then [] else [current.reverse]

/-- The elements of the characters that follow an element already begun, whose
characters come last one first. An escaped semicolon loses its backslash; any
other escape pair is kept whole. -/
def splitElements (current : List Char) : List Char → List (List Char)
  | [] => listElement current
  | ['\\'] => listElement ('\\' :: current)
  | '\\' :: c :: cs =>
    if c = ';' then splitElements (';' :: current) cs
    else splitElements (c :: '\\' :: current) cs
  | c :: cs =>
    if c = ';' then listElement current ++ splitElements [] cs
    else splitElements (c :: current) cs

/-- The elements of a list value. -/
def splitList (value : String) : List String :=
  (splitElements [] value.toList).map String.ofList

end Listfile
