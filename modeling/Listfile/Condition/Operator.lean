/-!
# Operators of conditions

Operators are unquoted words, spelled exactly so. Five comparisons come in
three families: of numbers under their plain names, of texts after `STR`, and
of versions after `VERSION_`.
-/

namespace Listfile

/-- A way to compare two values. -/
inductive Comparison where
  | equal
  | less
  | lessEqual
  | greater
  | greaterEqual
  deriving DecidableEq

namespace Comparison

/-- The plain name of a comparison. -/
def name : Comparison → String
  | .equal => "EQUAL"
  | .less => "LESS"
  | .lessEqual => "LESS_EQUAL"
  | .greater => "GREATER"
  | .greaterEqual => "GREATER_EQUAL"

/-- All comparisons. -/
def all : List Comparison :=
  [.equal, .less, .lessEqual, .greater, .greaterEqual]

/-- Whether the comparison holds of values in the given order. -/
def holds : Comparison → Ordering → Bool
  | .equal, o => o.isEq
  | .less, o => o.isLT
  | .lessEqual, o => o.isLE
  | .greater, o => o.isGT
  | .greaterEqual, o => o.isGE

end Comparison

/-- An operator with one argument. -/
inductive Predicate where
  /-- A variable is bound. -/
  | defined
  /-- A path exists. -/
  | exists_
  /-- A command is defined. -/
  | command
  deriving DecidableEq

/-- The name of a predicate. -/
def Predicate.name : Predicate → String
  | .defined => "DEFINED"
  | .exists_ => "EXISTS"
  | .command => "COMMAND"

/-- An operator between an operand and an argument. -/
inductive Relation where
  | numeric (c : Comparison)
  | text (c : Comparison)
  | version (c : Comparison)
  | samePath
  | matchesPattern
  | inList
  deriving DecidableEq

/-- The name of a relation. -/
def Relation.name : Relation → String
  | .numeric c => c.name
  | .text c => "STR" ++ c.name
  | .version c => "VERSION_" ++ c.name
  | .samePath => "PATH_EQUAL"
  | .matchesPattern => "MATCHES"
  | .inList => "IN_LIST"

/-- A connective between two conditions. -/
inductive Connective where
  | and
  | or
  deriving DecidableEq

/-- The name of a connective. -/
def Connective.name : Connective → String
  | .and => "AND"
  | .or => "OR"

/-- What a word means in a condition. -/
inductive Operator where
  | negation
  | connective (c : Connective)
  | predicate (p : Predicate)
  | relation (r : Relation)
  deriving DecidableEq

namespace Operator

/-- The word for an operator. -/
def name : Operator → String
  | .negation => "NOT"
  | .connective c => c.name
  | .predicate p => p.name
  | .relation r => r.name

/-- All operators. -/
def all : List Operator :=
  [.negation, .connective .and, .connective .or, .predicate .defined, .predicate .exists_,
    .predicate .command] ++
    Comparison.all.map (.relation <| .numeric ·) ++ Comparison.all.map (.relation <| .text ·) ++
    Comparison.all.map (.relation <| .version ·) ++
    [.relation .samePath, .relation .matchesPattern, .relation .inList]

/-- The operator that a word stands for. -/
def ofName? (word : String) : Option Operator :=
  all.find? (·.name == word)

/-- A word stands for an operator exactly if it is its name. -/
theorem ofName?_eq_some_iff {word : String} {op : Operator} :
    ofName? word = some op ↔ op.name = word := by
  constructor
  · intro h
    simpa using List.find?_some h
  · rintro rfl
    cases op with
    | negation => rfl
    | connective c => cases c <;> rfl
    | predicate p => cases p <;> rfl
    | relation r =>
      cases r with
      | numeric c => cases c <;> rfl
      | text c => cases c <;> rfl
      | version c => cases c <;> rfl
      | samePath => rfl
      | matchesPattern => rfl
      | inList => rfl

end Operator

end Listfile
