import Listfile.Condition
import Listfile.Condition.Operand
import Listfile.Expansion

/-!
# Evaluating conditions

The tests of a condition are performed in the order in which they are met, and
the first one that fails is the error of the evaluation, even when the form of
the condition is at fault further on. Every operand counts: `AND` and `OR`
evaluate both sides.

What a pattern is and where it occurs is not settled here: the regular
expressions of `MATCHES` are compiled and searched by an engine, which is a
parameter of everything that performs tests.
-/

namespace Listfile

open Text

/-- Compiles a pattern to the search for it in a text, or tells why it is none. -/
abbrev PatternEngine := String → Except String (String → Bool)

/-- The name inside the braces of a text that starts with `mark` and an opening
brace and ends with a closing one. -/
def braced? (mark : List Char) (value : String) : Option String :=
  let cs := value.toList
  let opener := mark ++ ['{']
  if opener.isPrefixOf cs && (cs.drop opener.length).getLast? == some '}' then
    some (String.ofList (cs.drop opener.length).dropLast)
  else none

namespace Context

/-- Whether an argument of `DEFINED` names something that is bound. -/
def isBound (ctx : Context) (name : String) : Bool :=
  match braced? Store.environment.mark name, braced? Store.cache.mark name with
  | some inner, _ => (ctx.env? inner).isSome
  | none, some inner => (ctx.cache? inner).isSome
  | none, none => (ctx.var? name).isSome

/-- What a token means in a comparison: the value of a bound variable for its
unquoted name, and its own text otherwise. -/
def operandText (ctx : Context) (t : Token) : String :=
  if t.kind = .raw then (ctx.var? t.value).getD t.value else t.value

/-- Whether a lone token is true. Constants mean themselves. An unquoted name
means its variable, and is true unless the value is a false constant; anything
else is false. -/
def isTrue (ctx : Context) (t : Token) : Bool :=
  match constant? t.value with
  | some b => b
  | none =>
    t.kind = .raw && (constant? ((ctx.var? t.value).getD "")).getD true

end Context

namespace Test

/-- Why the test cannot be performed, if it cannot. -/
def error? (engine : PatternEngine) (ctx : Context) : Test → Option ConditionError
  | .predicate .exists_ arg =>
    match ctx.pathExists arg.value with
    | .ok _ => none
    | .error cause => some (arg.conditionError (.existsCheck arg.value cause))
  | .relation .matchesPattern _ rhs =>
    match engine rhs.value with
    | .ok _ => none
    | .error message => some (rhs.conditionError (.invalidPattern rhs.value message))
  | _ => none

/-- Whether two operands read as integers compare as asked. -/
def compareIntegers (c : Comparison) (left right : String) : Bool :=
  match integer? left, integer? right with
  | some l, some r => c.holds (compare l r)
  | _, _ => false

/-- Whether a relation holds between an operand and an argument. -/
def relationHolds (engine : PatternEngine) (ctx : Context) (r : Relation) (lhs rhs : Token) :
    Bool :=
  let left := ctx.operandText lhs
  match r with
  | .numeric c => compareIntegers c left (ctx.operandText rhs)
  | .text c => c.holds (compare left (ctx.operandText rhs))
  | .version c => c.holds (compare (version left) (version (ctx.operandText rhs)))
  | .samePath => normalizePath left == normalizePath (ctx.operandText rhs)
  | .matchesPattern => (engine rhs.value).toOption.any (· left)
  | .inList => (splitList ((ctx.var? rhs.value).getD "")).contains left

/-- Whether the test holds. One that cannot be performed does not. -/
def holds (engine : PatternEngine) (ctx : Context) : Test → Bool
  | .predicate .defined arg => ctx.isBound arg.value
  | .predicate .exists_ arg => (ctx.pathExists arg.value).toOption.getD false
  | .predicate .command arg => ctx.isCommand arg.value
  | .relation r lhs rhs => relationHolds engine ctx r lhs rhs

/-- What the log says of a test: operands that are no integers, and a path that
cannot be probed. -/
def notes (ctx : Context) : Test → List LogRecord
  | .relation (.numeric _) lhs rhs =>
    let left := ctx.operandText lhs
    let right := ctx.operandText rhs
    if (integer? left).isSome && (integer? right).isSome then []
    else
      [⟨.debug, "cmake_parser_rs::eval",
        "line " ++ toString lhs.line ++ ": cannot compare " ++ quote left ++ " and " ++
          quote right ++ " as integers, condition is false"⟩]
  | .predicate .exists_ arg =>
    match ctx.pathExists arg.value with
    | .ok _ => []
    | .error cause =>
      [⟨.debug, "cmake_parser_rs::eval",
        "line " ++ toString arg.line ++ ": existence check for " ++ quote arg.value ++
          " failed: " ++ cause⟩]
  | _ => []

/-- What the log says of tests, up to the first that cannot be performed. -/
def notesAll (engine : PatternEngine) (ctx : Context) : List Test → List LogRecord
  | [] => []
  | t :: ts =>
    t.notes ctx ++ if (t.error? engine ctx).isSome then [] else notesAll engine ctx ts

end Test

/-- Whether the connective makes a true condition of two. -/
def Connective.apply : Connective → Bool → Bool → Bool
  | .and => Bool.and
  | .or => Bool.or

/-- Whether a condition holds. -/
def Condition.holds (engine : PatternEngine) (ctx : Context) : Condition → Bool
  | .operand t => ctx.isTrue t
  | .test t => t.holds engine ctx
  | .not c => !c.holds engine ctx
  | .joined op lhs rhs => op.apply (lhs.holds engine ctx) (rhs.holds engine ctx)

/-- Evaluates a condition that is already resolved. Without any token it is
false. -/
def evaluate (engine : PatternEngine) (ctx : Context) (tokens : List Token) :
    Except ConditionError Bool :=
  let o := Condition.outline tokens
  match o.tests.findSome? (·.error? engine ctx) with
  | some e => .error e
  | none => o.condition.map fun c => c.any (·.holds engine ctx)

/-- What the log says while a condition is evaluated. -/
def evaluateNotes (engine : PatternEngine) (ctx : Context) (tokens : List Token) :
    List LogRecord :=
  Test.notesAll engine ctx (Condition.outline tokens).tests

/-- What can go wrong with a condition that is yet to be resolved. -/
inductive EvaluationError where
  | resolve (e : ResolveError)
  | condition (e : ConditionError)
  deriving DecidableEq

/-- Resolves a condition and evaluates it. -/
def evaluateCondition (engine : PatternEngine) (ctx : Context) (tokens : List Token) :
    Except EvaluationError Bool :=
  match resolve ctx.lookup tokens with
  | .error e => .error (.resolve e)
  | .ok resolved => (evaluate engine ctx resolved).mapError .condition

/-- What the log says while a condition is resolved and evaluated. -/
def evaluateConditionNotes (engine : PatternEngine) (ctx : Context) (tokens : List Token) :
    List LogRecord :=
  resolveNotes ctx.lookup tokens ++
    match resolve ctx.lookup tokens with
    | .error _ => []
    | .ok resolved => evaluateNotes engine ctx resolved

end Listfile
