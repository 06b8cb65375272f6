import Listfile.Statement

/-!
# The tree of a listfile

Commands that open and close blocks fold into nodes with a body, and an `if`
with its alternatives into a conditional. An `elseif` is a conditional of its
own, the only element of the false branch of the one before it.
-/

namespace Listfile

/-- The blocks that one command opens and one closes. -/
inductive BlockKind where
  | macroDefinition
  | functionDefinition
  /-- A scope for variables. -/
  | scope
  | forEach
  | whileLoop
  deriving DecidableEq

/-- The command that opens a block. -/
def BlockKind.keyword : BlockKind → String
  | .macroDefinition => "macro"
  | .functionDefinition => "function"
  | .scope => "block"
  | .forEach => "foreach"
  | .whileLoop => "while"

/-- The command that closes a block. -/
def BlockKind.terminator (k : BlockKind) : String :=
  "end" ++ k.keyword

/-- The commands that leave one round of a loop. -/
inductive JumpKind where
  | breakLoop
  | continueLoop
  deriving DecidableEq

/-- The command of a jump. -/
def JumpKind.keyword : JumpKind → String
  | .breakLoop => "break"
  | .continueLoop => "continue"

/-- An element of the tree. -/
inductive Node where
  | comment (comment : Comment)
  /-- A command without structure of its own. -/
  | command (command : Command)
  /-- A block from its opening to its closing command. -/
  | block (kind : BlockKind) (location : Location) (args : Arguments) (body : List Node)
  /-- A conditional. The false branch is missing when there is neither `else`
  nor `elseif`. -/
  | conditional (location : Location) (args : Arguments) (ifTrue : List Node)
      (ifFalse : Option (List Node))
  | jump (kind : JumpKind) (location : Location)
  | ret (location : Location) (args : List Token)

namespace Node

/-- Where the node stands. -/
def location : Node → Location
  | .comment c => c.location
  | .command c => c.location
  | .block _ l _ _ => l
  | .conditional l _ _ _ => l
  | .jump _ l => l
  | .ret l _ => l

/-- The keyword of a node, or the name of a command as it was written.
Comments have none. -/
def keyword? : Node → Option String
  | .comment _ => none
  | .command c => some c.name
  | .block k _ _ _ => some k.keyword
  | .conditional _ _ _ _ => some "if"
  | .jump k _ => some k.keyword
  | .ret _ _ => some "return"

mutual

/-- The number of nodes in the tree below and including this one. -/
def size : Node → Nat
  | .comment _ => 1
  | .command _ => 1
  | .block _ _ _ body => 1 + sizeList body
  | .conditional _ _ ifTrue ifFalse => 1 + sizeList ifTrue + sizeBranch ifFalse
  | .jump _ _ => 1
  | .ret _ _ => 1

/-- The number of nodes in a sequence of trees. -/
def sizeList : List Node → Nat
  | [] => 0
  | n :: ns => size n + sizeList ns

/-- The number of nodes in a branch that may be missing. -/
def sizeBranch : Option (List Node) → Nat
  | none => 0
  | some ns => sizeList ns

end

end Node

end Listfile
