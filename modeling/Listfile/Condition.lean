import Listfile.Condition.Operator
import Listfile.Token

/-!
# Conditions

A condition joins operands and tests by `NOT`, `AND` and `OR`. `AND` and `OR`
bind alike and to the left, `NOT` binds tighter, and a test takes its arguments
as soon as it is met.

Reading a condition does not depend on any context. `Condition.outline` gives
the tests in the order in which they are met, up to the first error of form,
and the condition itself when there is no such error. The reader keeps the
operands of the expression being read and a stack of the expressions around
it, each with what opened the inner one.
-/

namespace Listfile

/-- A test of one or two tokens. -/
inductive Test where
  | predicate (p : Predicate) (arg : Token)
  | relation (r : Relation) (lhs rhs : Token)
  deriving DecidableEq

/-- What a condition says. -/
inductive Condition where
  /-- A token that is true or false by itself. -/
  | operand (t : Token)
  | test (t : Test)
  | not (c : Condition)
  | joined (op : Connective) (lhs rhs : Condition)
  deriving DecidableEq

/-- What is wrong with a condition. -/
inductive ConditionCause where
  /-- No operand before an operator. -/
  | missingOperand (operator : String)
  /-- No operand or argument after an operator. -/
  | missingArgument (operator : String)
  | unbalancedParentheses
  /-- Operands that no operator joins. -/
  | malformed
  /-- It cannot be told whether a path exists. -/
  | existsCheck (path cause : String)
  /-- A pattern that does not compile. -/
  | invalidPattern (pattern message : String)
  /-- Expressions nested deeper than `limit` levels. -/
  | nestingTooDeep (limit : Nat)
  deriving DecidableEq

/-- The wording of a cause. -/
def ConditionCause.message : ConditionCause → String
  | .missingOperand operator => "missing operand before '" ++ operator ++ "'"
  | .missingArgument operator => "missing argument after '" ++ operator ++ "'"
  | .unbalancedParentheses => "unbalanced parentheses"
  | .malformed => "malformed expression"
  | .existsCheck path cause => "cannot check whether '" ++ path ++ "' exists: " ++ cause
  | .invalidPattern pattern message =>
    "invalid regular expression '" ++ pattern ++ "': " ++ message
  | .nestingTooDeep limit => "expression nested deeper than " ++ toString limit ++ " levels"

/-- What is wrong with a condition, and where. -/
structure ConditionError where
  cause : ConditionCause
  line : Nat
  column : Nat
  deriving DecidableEq

/-- The error in one line. -/
def ConditionError.message (e : ConditionError) : String :=
  e.cause.message ++ " at line " ++ toString e.line ++ ", column " ++ toString e.column

/-- An error at a token. -/
def Token.conditionError (t : Token) (cause : ConditionCause) : ConditionError :=
  ⟨cause, t.line, t.column⟩

/-- The operator that a token stands for. Only unquoted words are operators. -/
def Token.operator? (t : Token) : Option Operator :=
  if t.kind = .raw then Operator.ofName? t.value else none

/-- Whether a token can be the argument of a test. -/
def Token.isArgument (t : Token) : Bool :=
  t.kind = .raw || t.kind = .quoted || t.kind = .bracketed

/-- An operand of the expression being read. -/
inductive Operand where
  | token (t : Token)
  /-- A condition already read, with the token it is blamed on. -/
  | value (c : Condition) (origin : Token)

/-- The token an operand is blamed on. -/
def Operand.origin : Operand → Token
  | .token t => t
  | .value _ origin => origin

/-- The condition that an operand is. -/
def Operand.condition : Operand → Condition
  | .token t => .operand t
  | .value c _ => c

/-- What opened an inner expression: a parenthesis, a `NOT`, or an `AND` or
`OR` with its left operand. -/
inductive Opening where
  | paren (t : Token)
  | negation (t : Token)
  | connective (op : Connective) (t : Token) (lhs : Condition)

/-- An expression that waits for an inner one. -/
structure Enclosing where
  opening : Opening
  /-- Its operands so far, the last one first. -/
  operands : List Operand

/-- A test that waits for its argument. -/
inductive WaitingTest where
  | predicate (p : Predicate) (operator : Token)
  | relation (r : Relation) (operator lhs : Token)

namespace WaitingTest

/-- The token of the operator. -/
def operator : WaitingTest → Token
  | .predicate _ t => t
  | .relation _ t _ => t

/-- The test with its argument. -/
def test (arg : Token) : WaitingTest → Test
  | .predicate p _ => .predicate p arg
  | .relation r _ lhs => .relation r lhs arg

end WaitingTest

/-- An error for an operator that lacks its argument or right operand. -/
def Token.lacksArgument (t : Token) : ConditionError :=
  t.conditionError (.missingArgument t.value)

/-- How far the reading of a condition has come. -/
structure ConditionProgress where
  /-- A test that was just met. -/
  waiting : Option WaitingTest
  /-- The operands of the innermost expression, the last one first. -/
  operands : List Operand
  /-- The expressions around it, the innermost first. -/
  enclosing : List Enclosing

/-- The deepest nesting that a condition may have. The inside of a
parenthesis, the operand of a `NOT` and the right operand of an `AND` or `OR`
are each one level deeper than what is around them. -/
def Condition.maxDepth : Nat := 100

/-- The condition that the operands of an expression make: none without
operands, and an error when nothing joins two of them. -/
def reduceOperands (operands : List Operand) : Except ConditionError (Option Condition) :=
  match operands.reverse with
  | [] => .ok none
  | [x] => .ok (some x.condition)
  | _ :: extra :: _ => .error (extra.origin.conditionError .malformed)

/-- Ends the innermost expressions that a `NOT`, `AND` or `OR` opened, up to a
parenthesis or the whole condition. -/
def endTight (operands : List Operand) :
    List Enclosing → Except ConditionError (List Operand × List Enclosing)
  | [] => .ok (operands, [])
  | e :: outer =>
    match e.opening with
    | .paren _ => .ok (operands, e :: outer)
    | .negation t => do
      match ← reduceOperands operands with
      | none => .error t.lacksArgument
      | some c => endTight (.value (.not c) t :: e.operands) outer
    | .connective op t lhs => do
      match ← reduceOperands operands with
      | none => .error t.lacksArgument
      | some c => endTight (.value (.joined op lhs c) t :: e.operands) outer

/-- The parenthesis that opened the innermost expression, with the operands
before it and the expressions around it. -/
def innermostParen? : List Enclosing → Option (Token × List Operand × List Enclosing)
  | ⟨.paren t, operands⟩ :: outer => some (t, operands, outer)
  | _ => none

namespace ConditionProgress

/-- Nothing read. -/
def initial : ConditionProgress :=
  ⟨none, [], []⟩

/-- The innermost expression with one more operand. -/
def push (s : ConditionProgress) (x : Operand) : ConditionProgress :=
  ⟨none, x :: s.operands, s.enclosing⟩

/-- Opens an inner expression at the token `t`, if the depth allows it. -/
def enter (t : Token) (opening : Opening) (operands : List Operand) (enclosing : List Enclosing) :
    Except ConditionError ConditionProgress :=
  if Condition.maxDepth ≤ enclosing.length then
    .error (t.conditionError (.nestingTooDeep Condition.maxDepth))
  else .ok ⟨none, [], ⟨opening, operands⟩ :: enclosing⟩

/-- Takes a closing parenthesis. -/
def closeParen (s : ConditionProgress) (t : Token) : Except ConditionError ConditionProgress := do
  let (operands, enclosing) ← endTight s.operands s.enclosing
  match innermostParen? enclosing, ← reduceOperands operands with
  | some (paren, outer, rest), some c => .ok ⟨none, .value c paren :: outer, rest⟩
  | some (paren, _, _), none => .error (paren.conditionError .malformed)
  | none, _ => .error (t.conditionError .unbalancedParentheses)

/-- Takes an `AND` or `OR`. After a complete operand it first ends the
expressions that bind tighter; it needs an operand on its left. -/
def connect (s : ConditionProgress) (op : Connective) (t : Token) :
    Except ConditionError ConditionProgress := do
  let (operands, enclosing) ←
    if s.operands.isEmpty then .ok (s.operands, s.enclosing)
    else endTight s.operands s.enclosing
  match operands with
  | [] => .error (t.conditionError (.missingOperand t.value))
  | lhs :: rest => enter t (.connective op t lhs.condition) rest enclosing

/-- Takes a relation, which needs a token on its left. -/
def relate (s : ConditionProgress) (r : Relation) (t : Token) :
    Except ConditionError ConditionProgress :=
  match s.operands with
  | [] => .error (t.conditionError (.missingOperand t.value))
  | .value _ origin :: _ => .error (origin.conditionError .malformed)
  | .token lhs :: rest => .ok ⟨some (.relation r t lhs), rest, s.enclosing⟩

/-- Takes a token that is no argument of a test. -/
def take (s : ConditionProgress) (t : Token) : Except ConditionError ConditionProgress :=
  match t.kind with
  | .leftParen => enter t (.paren t) s.operands s.enclosing
  | .rightParen => s.closeParen t
  | _ =>
    match t.operator? with
    | none => .ok (s.push (.token t))
    | some .negation => enter t (.negation t) s.operands s.enclosing
    | some (.connective op) => s.connect op t
    | some (.predicate p) => .ok { s with waiting := some (.predicate p t) }
    | some (.relation r) => s.relate r t

/-- Takes one token, and gives the test that it completes. -/
def step (s : ConditionProgress) (t : Token) :
    Except ConditionError (Option Test × ConditionProgress) :=
  match s.waiting with
  | none => (s.take t).map fun s => (none, s)
  | some w =>
    if t.isArgument then
      let met := w.test t
      .ok (some met, s.push (.value (.test met) w.operator))
    else .error w.operator.lacksArgument

/-- The condition of all tokens taken; none when there were none. -/
def finish (s : ConditionProgress) : Except ConditionError (Option Condition) := do
  match s.waiting with
  | some w => .error w.operator.lacksArgument
  | none =>
    let (operands, enclosing) ← endTight s.operands s.enclosing
    match innermostParen? enclosing, ← reduceOperands operands with
    | none, c => .ok c
    | some (paren, _, _), some _ => .error (paren.conditionError .unbalancedParentheses)
    | some (paren, _, _), none => .error (paren.conditionError .malformed)

end ConditionProgress

/-- The form of a condition: the tests met, in order, and the condition or the
error that ended the reading. -/
structure Outline where
  tests : List Test
  condition : Except ConditionError (Option Condition)

namespace Condition

/-- The form of a condition from a stage of its reading on. -/
def outlineFrom (s : ConditionProgress) : List Token → Outline
  | [] => ⟨[], s.finish⟩
  | t :: ts =>
    match s.step t with
    | .error e => ⟨[], .error e⟩
    | .ok (none, s) => outlineFrom s ts
    | .ok (some met, s) =>
      let rest := outlineFrom s ts
      { rest with tests := met :: rest.tests }

/-- The form of a condition. -/
def outline (tokens : List Token) : Outline :=
  outlineFrom .initial tokens

end Condition

end Listfile
