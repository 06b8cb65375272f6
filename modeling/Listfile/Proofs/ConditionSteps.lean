import Listfile.Proofs.ConditionGrammar

/-!
# Steps of the reading of a condition

What each step of the reading of a condition can come to, said once: which
expressions are open behind it when it succeeds, and what it blames when it
fails.

* `Yields` — a specification of a step that may fail, and how specifications
  go along with the steps' composition;
* `yields_endTight` — the operands of `NOT`, `AND` and `OR` end at the innermost
  parenthesis;
* `yields_enter`, `yields_closeParen`, `yields_connect`, `yields_relate` — the
  steps of single tokens, by the levels that they open and close;
* `yields_evaluate` — from the reading to the evaluation.
-/

namespace Listfile

/-! ## Specifications of steps -/

/-- `P` holds of what a step gives, and `E` of its error. -/
structure Yields {α : Type} (P : α → Prop) (E : ConditionError → Prop)
    (x : Except ConditionError α) : Prop where
  of_ok : ∀ a, x = .ok a → P a
  of_error : ∀ e, x = .error e → E e

namespace Yields

variable {α β : Type} {P P' : α → Prop} {Q : β → Prop} {E E' : ConditionError → Prop}

theorem ok {a : α} (h : P a) : Yields P E (.ok a) := by
  constructor
  · intro b hb
    cases hb
    exact h
  · intro e he
    cases he

theorem error {e : ConditionError} (h : E e) : Yields P E (.error e) := by
  constructor
  · intro a ha
    cases ha
  · intro e' he
    cases he
    exact h

theorem bind {x : Except ConditionError α} {f : α → Except ConditionError β} (hx : Yields P E x)
    (hf : ∀ a, P a → Yields Q E (f a)) : Yields Q E (x >>= f) := by
  cases x with
  | error e => exact .error (hx.of_error e rfl)
  | ok a => exact hf a (hx.of_ok a rfl)

theorem map {x : Except ConditionError α} {f : α → β} (hx : Yields P E x)
    (hf : ∀ a, P a → Q (f a)) : Yields Q E (x.map f) := by
  cases x with
  | error e => exact .error (hx.of_error e rfl)
  | ok a => exact .ok (hf a (hx.of_ok a rfl))

/-- A weaker specification. -/
theorem imp {x : Except ConditionError α} (hx : Yields P E x) (hP : ∀ a, P a → P' a)
    (hE : ∀ e, E e → E' e) : Yields P' E' x :=
  ⟨fun a ha => hP a (hx.of_ok a ha), fun e he => hE e (hx.of_error e he)⟩

end Yields

/-- The cause is an operand that is missing or that nothing joins. -/
def ConditionCause.AboutOperands : ConditionCause → Prop
  | .missingOperand _ => True
  | .missingArgument _ => True
  | .malformed => True
  | _ => False

/-! ## Levels -/

/-- What can enclose a part of a condition. -/
inductive Level where
  | paren
  | negation
  /-- The right operand of an `AND` or `OR`. -/
  | connective
  deriving DecidableEq

/-- The levels that are left when the operands of `NOT`, `AND` and `OR` end: those
from the innermost parenthesis on. -/
def Level.endOperands (levels : List Level) : List Level :=
  levels.dropWhile (· ≠ .paren)

/-- The level that an expression opens. -/
def Opening.level : Opening → Level
  | .paren _ => .paren
  | .negation _ => .negation
  | .connective _ _ _ => .connective

/-- The levels around the expression inside, the innermost first. -/
def levelsOf (enclosing : List Enclosing) : List Level :=
  enclosing.map (·.opening.level)

@[simp] theorem levelsOf_cons (opening : Opening) (operands : List Operand)
    (outer : List Enclosing) :
    levelsOf (⟨opening, operands⟩ :: outer) = opening.level :: levelsOf outer :=
  rfl

@[simp] theorem length_levelsOf (enclosing : List Enclosing) :
    (levelsOf enclosing).length = enclosing.length :=
  List.length_map _

theorem Level.length_endOperands_le (levels : List Level) :
    (endOperands levels).length ≤ levels.length :=
  (List.dropWhile_suffix _).length_le

theorem Level.endOperands_eq (levels : List Level) :
    endOperands levels = [] ∨ ∃ outer, endOperands levels = .paren :: outer := by
  induction levels with
  | nil => exact .inl rfl
  | cons level levels ih =>
      cases level with
      | paren => exact .inr ⟨levels, rfl⟩
      | negation => exact ih
      | connective => exact ih

/-- No parenthesis ends with the operands inside of it. -/
theorem Level.count_paren_endOperands (levels : List Level) :
    (endOperands levels).count .paren = levels.count .paren := by
  induction levels with
  | nil => rfl
  | cons level levels ih =>
      cases level with
      | paren => rfl
      | negation => rw [List.count_cons_of_ne (by decide), ← ih]; rfl
      | connective => rw [List.count_cons_of_ne (by decide), ← ih]; rfl

/-! ## Steps -/

theorem yields_reduceOperands (operands : List Operand) :
    Yields (fun _ => True) (·.cause.AboutOperands) (reduceOperands operands) := by
  unfold reduceOperands
  split
  · exact .ok trivial
  · exact .ok trivial
  · exact .error trivial

/-- Ending the expressions that bind tighter comes to the innermost
parenthesis. -/
theorem yields_endTight (operands : List Operand) (enclosing : List Enclosing) :
    Yields (fun r => levelsOf r.2 = Level.endOperands (levelsOf enclosing) ∧ IsOuter r.2)
      (·.cause.AboutOperands) (endTight operands enclosing) := by
  induction enclosing generalizing operands with
  | nil => exact .ok ⟨rfl, .whole⟩
  | cons e outer ih =>
      obtain ⟨opening, before⟩ := e
      cases opening with
      | paren t => exact .ok ⟨rfl, .paren⟩
      | negation t =>
          refine (yields_reduceOperands operands).bind fun c? _ => ?_
          cases c? with
          | none => exact .error trivial
          | some c => exact ih _
      | connective op t lhs =>
          refine (yields_reduceOperands operands).bind fun c? _ => ?_
          cases c? with
          | none => exact .error trivial
          | some c => exact ih _

namespace ConditionProgress

/-- The token `t` would open a level beyond the limit inside `levels`. -/
def TooDeep (t : Token) (levels : List Level) (e : ConditionError) : Prop :=
  e = t.conditionError (.nestingTooDeep Condition.maxDepth) ∧ Condition.maxDepth ≤ levels.length

/-- A new expression opens one level, if there is room for it. -/
theorem yields_enter (t : Token) (opening : Opening) (operands : List Operand)
    (enclosing : List Enclosing) :
    Yields
      (fun s => s = within (⟨opening, operands⟩ :: enclosing) ∧
        enclosing.length < Condition.maxDepth)
      (TooDeep t (levelsOf enclosing)) (enter t opening operands enclosing) := by
  unfold enter
  by_cases h : Condition.maxDepth ≤ enclosing.length
  · rw [if_pos h]
    refine .error ⟨rfl, ?_⟩
    rw [length_levelsOf]
    exact h
  · rw [if_neg h]
    exact .ok ⟨rfl, Nat.lt_of_not_le h⟩

variable {s : ConditionProgress} {t : Token}

/-- A closing parenthesis closes the innermost one that is open; there may be
none. -/
theorem yields_closeParen :
    Yields
      (fun s' => s'.waiting = none ∧
        Level.endOperands (levelsOf s.enclosing) = .paren :: levelsOf s'.enclosing)
      (fun e => e.cause.AboutOperands ∨
        e.cause = .unbalancedParentheses ∧ Level.endOperands (levelsOf s.enclosing) = [])
      (s.closeParen t) := by
  refine ((yields_endTight s.operands s.enclosing).imp (fun _ h => h) fun _ h => .inl h).bind ?_
  rintro ⟨operands, enclosing⟩ ⟨hlevels, houter⟩
  refine ((yields_reduceOperands operands).imp (fun _ h => h) fun _ h => .inl h).bind fun c? _ => ?_
  rw [← hlevels]
  cases houter with
  | whole => exact .error (.inr ⟨rfl, rfl⟩)
  | paren =>
      cases c? with
      | none => exact .error (.inl trivial)
      | some c => exact .ok ⟨rfl, rfl⟩

/-- An `AND` or `OR` ends the operands before it and opens a level for its right
operand. -/
theorem yields_connect (op : Connective) :
    Yields
      (fun s' => s'.waiting = none ∧
        levelsOf s'.enclosing = .connective :: Level.endOperands (levelsOf s.enclosing) ∧
        s'.enclosing.length ≤ Condition.maxDepth)
      (fun e => e.cause.AboutOperands ∨ TooDeep t (Level.endOperands (levelsOf s.enclosing)) e)
      (s.connect op t) := by
  obtain ⟨waiting, operands, enclosing⟩ := s
  cases operands with
  | nil => exact .error (.inl trivial)
  | cons x xs =>
      refine ((yields_endTight (x :: xs) enclosing).imp (fun _ h => h) fun _ h => .inl h).bind ?_
      rintro ⟨operands', enclosing'⟩ ⟨hlevels, -⟩
      cases operands' with
      | nil => exact .error (.inl trivial)
      | cons lhs rest =>
          show Yields _ _ (enter t (.connective op t lhs.condition) rest enclosing')
          rw [← hlevels]
          refine (yields_enter t _ rest enclosing').imp ?_ fun _ h => .inr h
          rintro s' ⟨rfl, hlt⟩
          exact ⟨rfl, rfl, hlt⟩

/-- A relation opens no level and waits for its argument. -/
theorem yields_relate (r : Relation) :
    Yields (fun s' => s'.waiting.isSome = true ∧ s'.enclosing = s.enclosing)
      (·.cause.AboutOperands) (s.relate r t) := by
  unfold relate
  split
  · exact .error trivial
  · exact .error trivial
  · exact .ok ⟨rfl, rfl⟩

/-- A condition may end where no parenthesis is open. -/
theorem yields_finish :
    Yields (fun _ => True)
      (fun e => e.cause.AboutOperands ∨ e.cause = .unbalancedParentheses ∧
        ∃ outer, Level.endOperands (levelsOf s.enclosing) = .paren :: outer)
      s.finish := by
  unfold finish
  split
  · exact .error (.inl trivial)
  · refine ((yields_endTight s.operands s.enclosing).imp (fun _ h => h) fun _ h => .inl h).bind ?_
    rintro ⟨operands, enclosing⟩ ⟨hlevels, houter⟩
    refine ((yields_reduceOperands operands).imp (fun _ h => h) fun _ h => .inl h).bind
      fun c? _ => ?_
    rw [← hlevels]
    cases houter with
    | whole => exact .ok trivial
    | paren =>
        cases c? with
        | none => exact .error (.inl trivial)
        | some c => exact .error (.inr ⟨rfl, _, rfl⟩)

end ConditionProgress

/-! ## Evaluation -/

/-- A test that cannot be performed has a reason of its own. -/
theorem Test.cause_of_error? {engine : PatternEngine} {ctx : Context} {t : Test}
    {e : ConditionError} (h : t.error? engine ctx = some e) :
    (∃ path cause, e.cause = .existsCheck path cause) ∨
      ∃ pattern message, e.cause = .invalidPattern pattern message := by
  unfold Test.error? at h
  split at h
  · split at h <;> cases h
    exact .inl ⟨_, _, rfl⟩
  · split at h <;> cases h
    exact .inr ⟨_, _, rfl⟩
  · cases h

/-- An evaluation succeeds only if the reading does, and it fails like the
reading or like one of the tests. -/
theorem yields_evaluate {engine : PatternEngine} {ctx : Context} {ts : List Token} {p : Prop}
    {E : ConditionError → Prop} (htests : ∀ (t : Test) e, t.error? engine ctx = some e → E e)
    (houtline : Yields (fun _ => p) E (Condition.outline ts).condition) :
    Yields (fun _ => p) E (evaluate engine ctx ts) := by
  unfold evaluate
  cases hfirst : (Condition.outline ts).tests.findSome? (·.error? engine ctx) with
  | none =>
      simp only [hfirst]
      exact houtline.map fun _ h => h
  | some e =>
      obtain ⟨t, -, ht⟩ := List.exists_of_findSome?_eq_some hfirst
      simp only [hfirst]
      exact .error (htests t e ht)

end Listfile
