import Listfile.Condition.Evaluation
import Listfile.Node

/-!
# Walking a tree

A walk visits every node of a tree before the nodes inside it, whatever the
conditions say, and registers the definitions it meets. Each visit keeps the
context in which the node is met, so what a visit shows is a function of the
visit alone.
-/

namespace Listfile

/-- A node and the context in which a walk meets it. -/
structure Visit where
  context : Context
  node : Node

/-- What a visit shows. -/
inductive VisitEvent where
  /-- A condition and its value. -/
  | condition (line : Nat) (keyword : String) (value : Except EvaluationError Bool)
  /-- A definition and its signature, unless that depends on variables. -/
  | definition (line : Nat) (keyword : String) (signature : Option Signature)
  /-- A command or block and the values of its arguments. -/
  | arguments (line : Nat) (keyword : String) (values : Except ResolveError (List String))
  | jump (line : Nat) (keyword : String)

/-- The context after a definition of the given kind was met. -/
def Context.register (ctx : Context) (kind : BlockKind) (args : Arguments) : Context :=
  match kind, args with
  | .functionDefinition, .signature s => ctx.defineFunction s
  | .macroDefinition, .signature s => ctx.defineMacro s
  | _, _ => ctx

namespace Visit

/-- The values of arguments after expansion. -/
def values (v : Visit) (tokens : List Token) : Except ResolveError (List String) :=
  (resolve v.context.lookup tokens).map fun ts => ts.map (·.value)

/-- What the visit shows; a comment shows nothing. -/
def event? (engine : PatternEngine) (v : Visit) : Option VisitEvent :=
  let line := v.node.location.line
  match v.node with
  | .comment _ => none
  | .command c => some (.arguments line c.name (v.values c.args))
  | .ret _ args => some (.arguments line "return" (v.values args))
  | .jump kind _ => some (.jump line kind.keyword)
  | .conditional _ args _ _ =>
    some (.condition line "if" (evaluateCondition engine v.context (args.tokens?.getD [])))
  | .block kind _ args _ =>
    match kind, args with
    | .whileLoop, _ =>
      some (.condition line kind.keyword
        (evaluateCondition engine v.context (args.tokens?.getD [])))
    | .functionDefinition, .signature s | .macroDefinition, .signature s =>
      some (.definition line kind.keyword (some s))
    | .functionDefinition, _ | .macroDefinition, _ => some (.definition line kind.keyword none)
    | .scope, _ | .forEach, _ =>
      some (.arguments line kind.keyword (v.values (args.tokens?.getD [])))

/-- What the log says of a visit. -/
def notes (engine : PatternEngine) (v : Visit) : List LogRecord :=
  match v.node with
  | .comment _ | .jump _ _ => []
  | .command c => resolveNotes v.context.lookup c.args
  | .ret _ args => resolveNotes v.context.lookup args
  | .conditional _ args _ _ => evaluateConditionNotes engine v.context (args.tokens?.getD [])
  | .block kind _ args _ =>
    match kind with
    | .whileLoop => evaluateConditionNotes engine v.context (args.tokens?.getD [])
    | .functionDefinition | .macroDefinition => []
    | .scope | .forEach => resolveNotes v.context.lookup (args.tokens?.getD [])

end Visit

mutual

/-- The visits of a node and of what is inside it, and the context after
them. -/
def Node.visits (ctx : Context) (n : Node) : List Visit × Context :=
  match n with
  | .block kind l args body =>
    let (inner, after) := visitsList (ctx.register kind args) body
    (⟨ctx, .block kind l args body⟩ :: inner, after)
  | .conditional l args ifTrue ifFalse =>
    let (first, between) := visitsList ctx ifTrue
    let (second, after) := visitsBranch between ifFalse
    (⟨ctx, .conditional l args ifTrue ifFalse⟩ :: (first ++ second), after)
  | n => ([⟨ctx, n⟩], ctx)

/-- The visits of nodes in order. -/
def Node.visitsList (ctx : Context) : List Node → List Visit × Context
  | [] => ([], ctx)
  | n :: ns =>
    let (first, between) := Node.visits ctx n
    let (second, after) := Node.visitsList between ns
    (first ++ second, after)

/-- The visits of a branch that may be missing. -/
def Node.visitsBranch (ctx : Context) : Option (List Node) → List Visit × Context
  | none => ([], ctx)
  | some ns => Node.visitsList ctx ns

end

end Listfile
