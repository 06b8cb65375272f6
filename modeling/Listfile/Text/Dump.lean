import Listfile.Text.Quoted

/-!
# Dumps of structured values

A `Dump` is what a value looks like when it is shown in full: names, brackets
and the order of the parts. It can be written on one line or spread over
several with an indent of four spaces, where every part but the mark for
hidden parts ends in a comma.
-/

namespace Listfile.Text

/-- The shape of a value on display. -/
inductive Dump where
  /-- Text that is shown as it is. -/
  | leaf (text : String)
  /-- A part with its name or key. -/
  | labelled (label : String) (value : Dump)
  /-- Parts between brackets. `padded` brackets keep a space inside when they
  share a line with their parts; `hidden` says that some parts are not
  shown. -/
  | group (opening : String) (padded : Bool) (parts : List Dump) (hidden : Bool)
      (closing : String)

namespace Dump

/-- A number. -/
def number (n : Nat) : Dump :=
  .leaf (toString n)

/-- A quoted text. -/
def string (s : String) : Dump :=
  .leaf (quote s)

/-- A value with named fields. -/
def record (name : String) (fields : List (String × Dump)) : Dump :=
  .group (name ++ " \x7b") true (fields.map fun (label, value) => .labelled label value) false
    "\x7d"

/-- A value with named fields of which some are not shown. -/
def openRecord (name : String) (fields : List (String × Dump)) : Dump :=
  .group (name ++ " \x7b") true (fields.map fun (label, value) => .labelled label value) true
    "\x7d"

/-- A constructor applied to one value. -/
def wrapped (name : String) (value : Dump) : Dump :=
  .group (name ++ "(") false [value] false ")"

/-- A list. -/
def list (items : List Dump) : Dump :=
  .group "[" false items false "]"

/-- A table from texts to values. -/
def table (entries : List (String × Dump)) : Dump :=
  .group "\x7b" false (entries.map fun (key, value) => .labelled (quote key) value) false "\x7d"

/-- A value that may be missing. -/
def option : Option Dump → Dump
  | none => .leaf "None"
  | some value => .wrapped "Some" value

mutual

/-- The value on one line. -/
def inline : Dump → String
  | .leaf text => text
  | .labelled label value => label ++ ": " ++ inline value
  | .group opening padded parts hidden closing =>
    let shown := ", ".intercalate (inlineParts parts ++ if hidden then [".."] else [])
    if padded then opening ++ " " ++ shown ++ " " ++ closing else opening ++ shown ++ closing

/-- The parts of a group, each on one line. -/
def inlineParts : List Dump → List String
  | [] => []
  | part :: parts => inline part :: inlineParts parts

end

/-- Four spaces for every level. -/
def indent (level : Nat) : String :=
  String.ofList (List.replicate (4 * level) ' ')

mutual

/-- The value over several lines; lines after the first are indented by
`level`. A group without parts stays on one line. -/
def spread (level : Nat) : Dump → String
  | .leaf text => text
  | .labelled label value => label ++ ": " ++ spread level value
  | .group opening _ parts hidden closing =>
    if parts.isEmpty && !hidden then opening ++ closing
    else
      opening ++ "\n" ++ spreadParts (level + 1) parts ++
        (if hidden then indent (level + 1) ++ "..\n" else "") ++ indent level ++ closing

/-- The parts of a group, each with a comma on lines of its own. -/
def spreadParts (level : Nat) : List Dump → String
  | [] => ""
  | part :: parts => indent level ++ spread level part ++ ",\n" ++ spreadParts level parts

end

end Dump

end Listfile.Text
