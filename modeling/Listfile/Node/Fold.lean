import Listfile.Node

/-!
# Folding statements into a tree

`Node.reader` takes statements one at a time and keeps a stack of the blocks
that are open. A statement closes the innermost block, opens a new one, or
joins the body of the innermost one; a node that is complete while no block is
open is delivered.
-/

namespace Listfile

open Text

/-- The commands that have structure. -/
inductive Keyword where
  | block (kind : BlockKind)
  | conditional
  | jump (kind : JumpKind)
  | ret
  deriving DecidableEq

/-- Every keyword under its name in small letters. -/
def Keyword.all : List (String × Keyword) :=
  [("block", .block .scope), ("macro", .block .macroDefinition),
    ("function", .block .functionDefinition), ("foreach", .block .forEach),
    ("while", .block .whileLoop), ("if", .conditional), ("break", .jump .breakLoop),
    ("continue", .jump .continueLoop), ("return", .ret)]

/-- The keyword that a command name is, whatever its case. -/
def Keyword.ofName? (name : String) : Option Keyword :=
  (Keyword.all.find? fun (word, _) => sameWord name word).map (·.2)

/-- An arm of a conditional that is complete: the command that opened it and
its body. -/
structure Arm where
  opener : Command
  body : List Node

/-- A block that is open. Nodes of its body are kept last one first. -/
inductive OpenBlock where
  /-- A block of one body. -/
  | plain (kind : BlockKind) (opener : Command) (args : Arguments) (body : List Node)
  /-- A conditional in the arm that `opener` opened; the arms before it are in
  `earlier`, the last one first. -/
  | arm (earlier : List Arm) (opener : Command) (body : List Node)
  /-- A conditional after `else`, the last arm complete. -/
  | alternative (earlier : List Arm) (last : Arm) (body : List Node)

namespace OpenBlock

/-- The levels that a block accounts for: every `elseif` adds one. -/
def levels : OpenBlock → Nat
  | .plain _ _ _ _ => 1
  | .arm earlier _ _ => earlier.length + 1
  | .alternative earlier _ _ => earlier.length + 1

/-- The commands that end the body being read, in small letters. -/
def expected : OpenBlock → List String
  | .plain kind _ _ _ => [kind.terminator]
  | .arm _ _ _ => ["else", "elseif", "endif"]
  | .alternative _ _ _ => ["endif"]

/-- The command to blame when the body never ends. -/
def blamed : OpenBlock → Command
  | .plain _ opener _ _ => opener
  | .arm _ opener _ => opener
  | .alternative _ last _ => last.opener

/-- The block with one more node in its body. -/
def push (n : Node) : OpenBlock → OpenBlock
  | .plain kind opener args body => .plain kind opener args (n :: body)
  | .arm earlier opener body => .arm earlier opener (n :: body)
  | .alternative earlier last body => .alternative earlier last (n :: body)

end OpenBlock

/-- The node of a finished arm. Its span ends where `stop` does. -/
def Arm.node (a : Arm) (stop : Span) (ifFalse : Option (List Node)) : Node :=
  .conditional (a.opener.location.through stop) (.ofCondition a.opener.args) a.body ifFalse

/-- The node of an arm that an `elseif` follows. Its span ends with its last
element, or with its opener if it has none. -/
def Arm.before (a : Arm) (next : Node) : Node :=
  let stop := match a.body.getLast? with
    | some last => last.location.span
    | none => a.opener.location.span
  a.node stop (some [next])

/-- The whole conditional around its last arm. -/
def Arm.chain (earlier : List Arm) (last : Node) : Node :=
  earlier.foldl (fun inner a => a.before inner) last

/-- The blocks that are open, the innermost first. -/
abbrev OpenBlocks := List OpenBlock

namespace OpenBlocks

/-- The number of levels that are open. -/
def depth : OpenBlocks → Nat
  | [] => 0
  | b :: outer => b.levels + depth outer

/-- Puts a complete node where it belongs: into the innermost body, or out. -/
def deliver (n : Node) : OpenBlocks → Option Node × OpenBlocks
  | [] => (some n, [])
  | b :: outer => (none, b.push n :: outer)

/-- Fails at `opener` when one more level is over the limit. -/
def checkDepth (limit : Option Nat) (opener : Command) (open_ : OpenBlocks) : Except Fault Unit :=
  match limit with
  | none => .ok ()
  | some n => if n ≤ open_.depth then .error (opener.fault (.nestingTooDeep n)) else .ok ()

/-- Takes a command that ends the innermost body `b`. -/
def close (limit : Option Nat) (c : Command) (b : OpenBlock) (outer : OpenBlocks) :
    Except Fault (Option Node × OpenBlocks) :=
  let stop := c.location.span
  match b with
  | .plain kind opener args body =>
    .ok (deliver (.block kind (opener.location.through stop) args body.reverse) outer)
  | .alternative earlier last body =>
    .ok (deliver (Arm.chain earlier (last.node stop (some body.reverse))) outer)
  | .arm earlier opener body =>
    let done : Arm := ⟨opener, body.reverse⟩
    if sameWord c.name "elseif" then do
      checkDepth limit c (b :: outer)
      return (none, .arm (done :: earlier) c [] :: outer)
    else if sameWord c.name "else" then
      .ok (none, .alternative earlier done [] :: outer)
    else
      .ok (deliver (Arm.chain earlier (done.node stop none)) outer)

/-- The arguments of a block, interpreted as its kind demands. -/
def interpret (kind : BlockKind) (c : Command) : Except Fault Arguments :=
  match kind with
  | .macroDefinition | .functionDefinition =>
    match Arguments.ofSignature c.args with
    | .ok args => .ok args
    | .error fault => .error (c.fault (.invalidSignature fault))
  | .whileLoop => .ok (.ofCondition c.args)
  | .scope | .forEach => .ok (.unparsed c.args)

/-- Takes a command that ends no body. -/
def enter (limit : Option Nat) (c : Command) (open_ : OpenBlocks) :
    Except Fault (Option Node × OpenBlocks) :=
  match Keyword.ofName? c.name with
  | none => .ok (deliver (.command c) open_)
  | some .ret => .ok (deliver (.ret c.location c.args) open_)
  | some (.jump kind) =>
    if c.args.isEmpty then .ok (deliver (.jump kind c.location) open_)
    else .error (c.fault .unexpectedArguments)
  | some (.block kind) => do
    let args ← interpret kind c
    checkDepth limit c open_
    return (none, .plain kind c args [] :: open_)
  | some .conditional => do
    checkDepth limit c open_
    return (none, .arm [] c [] :: open_)

/-- Whether a command ends the body of the block. -/
def ends (c : Command) (b : OpenBlock) : Bool :=
  b.expected.any (sameWord c.name)

/-- Takes one statement. -/
def step (limit : Option Nat) (open_ : OpenBlocks) (s : Statement) :
    Except Fault (Option Node × OpenBlocks) :=
  match s with
  | .comment c => .ok (deliver (.comment c) open_)
  | .command c =>
    match open_ with
    | [] => enter limit c []
    | b :: outer => if ends c b then close limit c b outer else enter limit c (b :: outer)

/-- An input may end only when no block is open; the innermost one is
blamed. -/
def finish (open_ : OpenBlocks) : Option Fault :=
  match open_ with
  | [] => none
  | b :: _ => some (b.blamed.fault (.missingTerminator b.expected))

/-- What the log says of a statement: the statement itself, and the block that
it completes. Conditionals are not reported. -/
def notes (open_ : OpenBlocks) (s : Statement) : List LogRecord :=
  s.notes ++
    match s, open_ with
    | .command c, .plain kind opener args body :: _ =>
      if ends c (.plain kind opener args body) then
        [⟨.debug, "cmake_parser_rs::tree",
          "folded " ++ opener.name ++ "() block with " ++ toString body.length ++
            " element(s) at line " ++ toString opener.location.line⟩]
      else []
    | _, _ => []

end OpenBlocks

namespace Node

/-- The deepest nesting of blocks that a tree may have. -/
def maxDepth : Nat := 100

/-- The machine that folds statements into nodes, with a limit on the depth or
without one. -/
def reader (limit : Option Nat) : Reader OpenBlocks Statement Node Fault where
  step := OpenBlocks.step limit
  finish := OpenBlocks.finish

/-- The nodes of a sequence of statements. -/
def fold (statements : Reading Statement Fault) : Reading Node Fault :=
  (reader (some maxDepth)).run [] statements

end Node

end Listfile
