import Listfile.Node
import Listfile.Signature.Dump

/-!
# Dumps of trees

How the nodes of a tree look on display.
-/

namespace Listfile

open Text

/-- A comment on display. -/
def Comment.dump (c : Comment) : Dump :=
  .record "Comment" [("location", c.location.dump), ("text", .string c.text)]

/-- A command on display. -/
def Command.dump (c : Command) : Dump :=
  .record "Command"
    [("location", c.location.dump), ("identifier", .string c.name),
      ("args", .list (c.args.map Token.dump))]

/-- The name of a kind of block on display. -/
def BlockKind.label : BlockKind → String
  | .macroDefinition => "Macro"
  | .functionDefinition => "Function"
  | .scope => "Block"
  | .forEach => "ForEach"
  | .whileLoop => "While"

/-- The name of a kind of jump on display. -/
def JumpKind.label : JumpKind → String
  | .breakLoop => "Break"
  | .continueLoop => "Continue"

namespace Node

mutual

/-- A node on display. -/
def dump : Node → Dump
  | .comment c => .wrapped "Comment" c.dump
  | .command c => .wrapped "Command" c.dump
  | .block kind l args body =>
    .wrapped kind.label <| .record "Block"
      [("location", l.dump), ("args", args.dump), ("body", .list (dumpList body))]
  | .conditional l args ifTrue ifFalse =>
    .wrapped "If" <| .record "If"
      [("location", l.dump), ("args", args.dump), ("if_true", .list (dumpList ifTrue)),
        ("if_false", .option (dumpBranch ifFalse))]
  | .jump kind l => .wrapped kind.label l.dump
  | .ret l args =>
    .wrapped "Return" <| .record "Return"
      [("location", l.dump), ("args", .list (args.map Token.dump))]

/-- Nodes on display, one by one. -/
def dumpList : List Node → List Dump
  | [] => []
  | n :: ns => dump n :: dumpList ns

/-- A branch on display, if there is one. -/
def dumpBranch : Option (List Node) → Option Dump
  | none => none
  | some ns => some (.list (dumpList ns))

end

end Node

end Listfile
