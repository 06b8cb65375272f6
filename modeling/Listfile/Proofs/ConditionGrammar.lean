import Listfile.Proofs.ConditionMeaning
import Listfile.Proofs.ReaderRuns

/-!
# The grammar of conditions

A condition is one term or terms that `AND` and `OR` join, and a term is a lone
operand, a test, a negated term or an expression in parentheses. `Derives` is
this grammar; it says which condition a sequence of tokens spells and how many
levels the reading of it takes.

Evaluating a condition is recognising this grammar and taking the meaning of
what is derived:

* `Derives.reaches` — the machine takes what is derived, and meets the tests of
  the condition from left to right;
* `Spelled` — the invariant of a run: every operand in every open expression
  spells the tokens that it was read from;
* `evaluate_grammar` — an evaluation gives what the derived condition means, or
  the error of its first test that cannot be performed.
-/

namespace Listfile

/-! ## The grammar -/

/-- The token can stand in a condition by itself. -/
def Token.IsOperand (t : Token) : Prop :=
  t.kind ≠ .leftParen ∧ t.kind ≠ .rightParen ∧ t.operator? = none

/-- What a sequence of tokens can be. -/
inductive Phrase where
  /-- Terms joined by `AND` and `OR`. -/
  | expression
  | term

/-- `Derives phrase levels ts c`: the tokens `ts` are such a phrase and spell
the condition `c`, and they nest at most `levels` deep. The inside of a
parenthesis, the operand of a `NOT` and the right operand of an `AND` or `OR`
are one level deeper than what is around them. -/
inductive Derives : Phrase → Nat → List Token → Condition → Prop
  | operand {levels : Nat} {t : Token} (ht : t.IsOperand) :
      Derives .term levels [t] (.operand t)
  | predicate {levels : Nat} {op arg : Token} {p : Predicate}
      (hop : op.operator? = some (.predicate p)) (harg : arg.isArgument = true) :
      Derives .term levels [op, arg] (.test (.predicate p arg))
  | relation {levels : Nat} {lhs op arg : Token} {r : Relation} (hlhs : lhs.IsOperand)
      (hop : op.operator? = some (.relation r)) (harg : arg.isArgument = true) :
      Derives .term levels [lhs, op, arg] (.test (.relation r lhs arg))
  | negation {levels : Nat} {op : Token} {ts : List Token} {c : Condition}
      (hop : op.operator? = some .negation) (h : Derives .term levels ts c) :
      Derives .term (levels + 1) (op :: ts) (.not c)
  | parenthesis {levels : Nat} {left right : Token} {ts : List Token} {c : Condition}
      (hleft : left.kind = .leftParen) (hright : right.kind = .rightParen)
      (h : Derives .expression levels ts c) :
      Derives .term (levels + 1) (left :: (ts ++ [right])) c
  | single {levels : Nat} {ts : List Token} {c : Condition} (h : Derives .term levels ts c) :
      Derives .expression levels ts c
  | joined {levels : Nat} {op : Token} {connective : Connective} {ls rs : List Token}
      {lhs rhs : Condition} (hlhs : Derives .expression (levels + 1) ls lhs)
      (hop : op.operator? = some (.connective connective)) (hrhs : Derives .term levels rs rhs) :
      Derives .expression (levels + 1) (ls ++ op :: rs) (.joined connective lhs rhs)

/-- A term is a phrase of every sort. -/
theorem Derives.ofTerm {phrase : Phrase} {levels : Nat} {ts : List Token} {c : Condition}
    (h : Derives .term levels ts c) : Derives phrase levels ts c := by
  cases phrase with
  | expression => exact .single h
  | term => exact h

/-! ## The machine -/

/-- The machine that reads conditions. It delivers the tests that it meets. -/
def Condition.reader : Reader ConditionProgress Token Test ConditionError where
  step := ConditionProgress.step
  finish s :=
    match s.finish with
    | .ok _ => none
    | .error e => some e

theorem Condition.reaches_of_step {s s' : ConditionProgress} {t : Token} {met : Option Test}
    (h : s.step t = .ok (met, s')) : Condition.reader.Reaches s [t] met.toList s' :=
  .single h

/-- The outline of tokens that the machine takes. -/
theorem Condition.outlineFrom_of_reaches {s s' : ConditionProgress} {ts : List Token}
    {met : List Test} (h : Condition.reader.Reaches s ts met s') :
    Condition.outlineFrom s ts = ⟨met, s'.finish⟩ := by
  induction h with
  | refl => rfl
  | @step s s₁ _ t m ts met hstep _ ih =>
      have hstep : s.step t = .ok (m, s₁) := hstep
      cases m with
      | none =>
          simp only [outlineFrom, hstep, ih]
          rfl
      | some m =>
          simp only [outlineFrom, hstep, ih]
          rfl

/-- The machine has taken every token of an outline without an error of form. -/
theorem Condition.reaches_of_outlineFrom {s : ConditionProgress} {ts : List Token}
    {c : Option Condition} (h : (Condition.outlineFrom s ts).condition = .ok c) :
    ∃ met s', Condition.reader.Reaches s ts met s' ∧ s'.finish = .ok c := by
  induction ts generalizing s with
  | nil => exact ⟨[], s, .refl s, h⟩
  | cons t ts ih =>
      cases hstep : s.step t with
      | error e =>
          simp only [outlineFrom, hstep] at h
          cases h
      | ok result =>
          obtain ⟨m, s₁⟩ := result
          have hrest : (Condition.outlineFrom s₁ ts).condition = .ok c := by
            cases m <;> simpa only [outlineFrom, hstep] using h
          obtain ⟨met, s', hreach, hfinish⟩ := ih hrest
          exact ⟨m.toList ++ met, s', .step hstep hreach, hfinish⟩

/-- Only unquoted words are operators. -/
theorem Token.kind_of_operator? {t : Token} {op : Operator} (h : t.operator? = some op) :
    t.kind = .raw := by
  unfold Token.operator? at h
  by_cases hkind : t.kind = .raw
  · exact hkind
  · rw [if_neg hkind] at h
    cases h

theorem Token.operator?_of_name {t : Token} {op : Operator} (hkind : t.kind = .raw)
    (hname : t.value = op.name) : t.operator? = some op := by
  unfold Token.operator?
  rw [if_pos hkind]
  exact Operator.ofName?_eq_some_iff.mpr hname.symm

theorem Token.operator?_of_ne {t : Token} (h : t.kind ≠ .raw) : t.operator? = none :=
  if_neg h

/-! ### What single tokens do -/

namespace ConditionProgress

variable {operands : List Operand} {enclosing : List Enclosing} {t : Token}

/-- The stage at which an expression begins. -/
abbrev within (enclosing : List Enclosing) : ConditionProgress :=
  ⟨none, [], enclosing⟩

theorem step_of_take {s s' : ConditionProgress} (hwaiting : s.waiting = none)
    (h : s.take t = .ok s') : s.step t = .ok (none, s') := by
  unfold step
  rw [hwaiting]
  show (s.take t).map _ = _
  rw [h]
  rfl

theorem step_argument (w : WaitingTest) (operands : List Operand) (enclosing : List Enclosing)
    (harg : t.isArgument = true) :
    step ⟨some w, operands, enclosing⟩ t =
      .ok (some (w.test t), ⟨none, .value (.test (w.test t)) w.operator :: operands, enclosing⟩) :=
  if_pos harg

theorem enter_of_lt {opening : Opening} (h : enclosing.length < Condition.maxDepth) :
    enter t opening operands enclosing = .ok (within (⟨opening, operands⟩ :: enclosing)) :=
  if_neg (Nat.not_le.mpr h)

/-- Takes a token that is no parenthesis, for the operator that it stands for. -/
def takeWord (s : ConditionProgress) (t : Token) :
    Option Operator → Except ConditionError ConditionProgress
  | none => .ok (s.push (.token t))
  | some .negation => enter t (.negation t) s.operands s.enclosing
  | some (.connective op) => s.connect op t
  | some (.predicate p) => .ok { s with waiting := some (.predicate p t) }
  | some (.relation r) => s.relate r t

theorem take_eq_takeWord {s : ConditionProgress} (hleft : t.kind ≠ .leftParen)
    (hright : t.kind ≠ .rightParen) : s.take t = s.takeWord t t.operator? := by
  unfold take
  split
  · rename_i hkind
    exact absurd hkind hleft
  · rename_i hkind
    exact absurd hkind hright
  · split <;> rename_i hop <;> rw [hop] <;> rfl

theorem take_operator {s : ConditionProgress} {op : Operator} (h : t.operator? = some op) :
    s.take t = s.takeWord t (some op) := by
  have hkind := Token.kind_of_operator? h
  rw [take_eq_takeWord (by rw [hkind]; decide) (by rw [hkind]; decide), h]

theorem take_operand {s : ConditionProgress} (h : t.IsOperand) :
    s.take t = .ok (s.push (.token t)) := by
  obtain ⟨hleft, hright, hnone⟩ := h
  rw [take_eq_takeWord hleft hright, hnone]
  rfl

theorem take_leftParen {s : ConditionProgress} (h : t.kind = .leftParen) :
    s.take t = enter t (.paren t) s.operands s.enclosing := by
  unfold take
  rw [h]

theorem take_rightParen {s : ConditionProgress} (h : t.kind = .rightParen) :
    s.take t = s.closeParen t := by
  unfold take
  rw [h]

end ConditionProgress

open ConditionProgress

/-- No `NOT`, `AND` or `OR` waits for the expression inside. -/
inductive IsOuter : List Enclosing → Prop
  | whole : IsOuter []
  | paren {t : Token} {operands : List Operand} {outer : List Enclosing} :
      IsOuter (⟨.paren t, operands⟩ :: outer)

theorem endTight_of_isOuter {operands : List Operand} {enclosing : List Enclosing}
    (h : IsOuter enclosing) : endTight operands enclosing = .ok (operands, enclosing) := by
  cases h <;> rfl

/-! ## The machine takes what is derived -/

namespace ConditionProgress

variable {s : ConditionProgress} {x : Operand} {enclosing : List Enclosing}

/-- The machine has come to a stage where the expression inside `enclosing`
has the one operand `x`, once those that bind tighter end. -/
structure AmountsTo (s : ConditionProgress) (x : Operand) (enclosing : List Enclosing) :
    Prop where
  waiting : s.waiting = none
  operands : s.operands ≠ []
  ended : endTight s.operands s.enclosing = endTight [x] enclosing

theorem AmountsTo.single (x : Operand) (enclosing : List Enclosing) :
    AmountsTo ⟨none, [x], enclosing⟩ x enclosing :=
  ⟨rfl, List.cons_ne_nil x [], rfl⟩

/-- A closing parenthesis makes one operand of the expression before it. -/
theorem AmountsTo.closeParen {left right : Token}
    (h : s.AmountsTo x (⟨.paren left, []⟩ :: enclosing)) (hright : right.kind = .rightParen) :
    s.step right = .ok (none, ⟨none, [.value x.condition left], enclosing⟩) := by
  refine step_of_take h.waiting ?_
  rw [take_rightParen hright]
  unfold ConditionProgress.closeParen
  rw [h.ended, endTight_of_isOuter .paren]
  rfl

/-- An `AND` or `OR` takes the expression before it as its left operand. -/
theorem AmountsTo.connect {connective : Connective} {op : Token} (h : s.AmountsTo x enclosing)
    (houter : IsOuter enclosing) (hop : op.operator? = some (.connective connective))
    (hroom : enclosing.length < Condition.maxDepth) :
    s.step op =
      .ok (none, .within (⟨.connective connective op x.condition, []⟩ :: enclosing)) := by
  refine step_of_take h.waiting ?_
  rw [take_operator hop]
  show s.connect connective op = _
  unfold ConditionProgress.connect
  have hsome : s.operands.isEmpty = false := by
    simpa using h.operands
  rw [hsome, if_neg (by decide), h.ended, endTight_of_isOuter houter]
  exact enter_of_lt hroom

end ConditionProgress

/-- The machine takes the tokens of a phrase and meets the tests of its
condition in order. -/
theorem Derives.reaches {phrase : Phrase} {levels : Nat} {ts : List Token} {c : Condition}
    (h : Derives phrase levels ts c) :
    ∀ enclosing : List Enclosing, enclosing.length + levels ≤ Condition.maxDepth →
      (phrase = .expression → IsOuter enclosing) →
        ∃ s x, Condition.reader.Reaches (within enclosing) ts c.tests s ∧
          s.AmountsTo x enclosing ∧ x.condition = c := by
  induction h with
  | @operand levels t ht =>
      intro enclosing _ _
      have hstep : step (within enclosing) t = .ok (none, ⟨none, [.token t], enclosing⟩) :=
        step_of_take rfl (take_operand ht)
      exact ⟨_, .token t, Condition.reaches_of_step hstep, .single _ _, rfl⟩
  | @predicate levels op arg p hop harg =>
      intro enclosing _ _
      have hwait : step (within enclosing) op =
          .ok (none, ⟨some (.predicate p op), [], enclosing⟩) :=
        step_of_take rfl (take_operator hop)
      have hreach := Condition.reaches_of_step
        (step_argument (.predicate p op) [] enclosing harg)
      exact ⟨_, .value (.test (.predicate p arg)) op, .silent hwait hreach, .single _ _, rfl⟩
  | @relation levels lhs op arg r hlhs hop harg =>
      intro enclosing _ _
      have hleft : step (within enclosing) lhs = .ok (none, ⟨none, [.token lhs], enclosing⟩) :=
        step_of_take rfl (take_operand hlhs)
      have hwait : step ⟨none, [.token lhs], enclosing⟩ op =
          .ok (none, ⟨some (.relation r op lhs), [], enclosing⟩) :=
        step_of_take rfl (take_operator hop)
      have hreach := Condition.reaches_of_step
        (step_argument (.relation r op lhs) [] enclosing harg)
      exact ⟨_, .value (.test (.relation r lhs arg)) op, .silent hleft (.silent hwait hreach),
        .single _ _, rfl⟩
  | @negation levels op ts c hop _ ih =>
      intro enclosing hroom _
      have hopen : step (within enclosing) op =
          .ok (none, within (⟨.negation op, []⟩ :: enclosing)) := by
        refine step_of_take rfl ?_
        rw [take_operator hop]
        have hlt : enclosing.length < Condition.maxDepth := by omega
        exact enter_of_lt hlt
      -- Ending the `NOT` makes one operand of what the term amounts to.
      obtain ⟨s, x, hreach, hamounts, rfl⟩ := ih (⟨.negation op, []⟩ :: enclosing)
        (by simp only [List.length_cons]; omega) (by simp)
      exact ⟨s, .value (.not x.condition) op, .silent hopen hreach,
        ⟨hamounts.waiting, hamounts.operands, hamounts.ended⟩, rfl⟩
  | @parenthesis levels left right ts c hleft hright _ ih =>
      intro enclosing hroom _
      have hopen : step (within enclosing) left =
          .ok (none, within (⟨.paren left, []⟩ :: enclosing)) := by
        refine step_of_take rfl ?_
        rw [take_leftParen hleft]
        have hlt : enclosing.length < Condition.maxDepth := by omega
        exact enter_of_lt hlt
      obtain ⟨s, x, hreach, hamounts, rfl⟩ := ih (⟨.paren left, []⟩ :: enclosing)
        (by simp only [List.length_cons]; omega) (fun _ => .paren)
      have hinside := hreach.trans (.single (hamounts.closeParen hright))
      rw [Option.toList_none, List.append_nil] at hinside
      exact ⟨_, .value x.condition left, .silent hopen hinside, .single _ _, rfl⟩
  | single _ ih =>
      intro enclosing hroom _
      exact ih enclosing hroom (by simp)
  | @joined levels op connective ls rs lhs rhs _ hop _ ihl ihr =>
      intro enclosing hroom houter
      have houter := houter rfl
      -- The left operand is an expression at this very level: `AND` and `OR`
      -- end whatever binds tighter and take it whole.
      obtain ⟨s, x, hreach, hamounts, rfl⟩ := ihl enclosing hroom (fun _ => houter)
      obtain ⟨s', y, hreach', hamounts', rfl⟩ := ihr
        (⟨.connective connective op x.condition, []⟩ :: enclosing)
        (by simp only [List.length_cons]; omega) (by simp)
      have hconnect := hamounts.connect houter hop (by omega)
      exact ⟨s', .value (.joined connective x.condition y.condition) op,
        hreach.trans (.silent hconnect hreach'),
        ⟨hamounts'.waiting, hamounts'.operands, hamounts'.ended⟩, rfl⟩

/-- The outline of an expression: its condition and the tests of it. -/
theorem Derives.outline_eq {ts : List Token} {c : Condition}
    (h : Derives .expression Condition.maxDepth ts c) :
    Condition.outline ts = ⟨c.tests, .ok (some c)⟩ := by
  obtain ⟨s, x, hreach, hamounts, rfl⟩ := h.reaches [] (by simp) (fun _ => .whole)
  have hfinish : s.finish = .ok (some x.condition) := by
    unfold ConditionProgress.finish
    rw [hamounts.waiting]
    show (endTight s.operands s.enclosing >>= _) = _
    rw [hamounts.ended]
    rfl
  have houtline := Condition.outlineFrom_of_reaches hreach
  rw [hfinish] at houtline
  exact houtline

/-- Tokens spell one condition at most. -/
theorem Derives.unique {ts : List Token} {c c' : Condition}
    (h : Derives .expression Condition.maxDepth ts c)
    (h' : Derives .expression Condition.maxDepth ts c') : c = c' := by
  have hsame := h.outline_eq.symm.trans h'.outline_eq
  have hcondition := congrArg Outline.condition hsame
  exact Option.some.inj (Except.ok.inj hcondition)

/-! ## What the machine takes is derived -/

/-- The tokens that an operand was read from. -/
def Operand.Spells (phrase : Phrase) (levels : Nat) : Operand → List Token → Prop
  | .token t, ts => ts = [t] ∧ t.IsOperand
  | .value c _, ts => Derives phrase levels ts c

theorem Operand.Spells.derives {phrase : Phrase} {levels : Nat} {x : Operand} {ts : List Token}
    (h : x.Spells phrase levels ts) : Derives phrase levels ts x.condition := by
  cases x with
  | token t =>
      obtain ⟨rfl, ht⟩ := h
      exact (Derives.operand ht).ofTerm
  | value c origin => exact h

/-- The tokens that the operands of an expression were read from, the last
operand first. -/
inductive OperandsSpell (phrase : Phrase) (levels : Nat) : List Operand → List Token → Prop
  | nil : OperandsSpell phrase levels [] []
  | cons {x : Operand} {xs : List Operand} {ts us : List Token}
      (hrest : OperandsSpell phrase levels xs ts) (hx : x.Spells phrase levels us) :
      OperandsSpell phrase levels (x :: xs) (ts ++ us)

/-- One more operand that was read from several tokens. -/
theorem OperandsSpell.value {phrase : Phrase} {levels : Nat} {xs : List Operand}
    {ts us : List Token} {c : Condition} (hrest : OperandsSpell phrase levels xs ts)
    (hc : Derives phrase levels us c) (origin : Token) :
    OperandsSpell phrase levels (.value c origin :: xs) (ts ++ us) :=
  .cons hrest hc

/-- `Opens phrase levels enclosing ts`: the tokens `ts` end where a phrase
begins that `enclosing` surrounds and that may nest `levels` deep. -/
inductive Opens : Phrase → Nat → List Enclosing → List Token → Prop
  | whole : Opens .expression Condition.maxDepth [] []
  | paren {phrase : Phrase} {levels : Nat} {outer : List Enclosing} {ts us : List Token}
      {operands : List Operand} {t : Token} (houter : Opens phrase (levels + 1) outer ts)
      (hoperands : OperandsSpell phrase (levels + 1) operands us) (ht : t.kind = .leftParen) :
      Opens .expression levels (⟨.paren t, operands⟩ :: outer) (ts ++ us ++ [t])
  | negation {phrase : Phrase} {levels : Nat} {outer : List Enclosing} {ts us : List Token}
      {operands : List Operand} {t : Token} (houter : Opens phrase (levels + 1) outer ts)
      (hoperands : OperandsSpell phrase (levels + 1) operands us)
      (ht : t.operator? = some .negation) :
      Opens .term levels (⟨.negation t, operands⟩ :: outer) (ts ++ us ++ [t])
  | connective {levels : Nat} {outer : List Enclosing} {ts us ls : List Token}
      {operands : List Operand} {op : Connective} {t : Token} {lhs : Condition}
      (houter : Opens .expression (levels + 1) outer ts)
      (hoperands : OperandsSpell .expression (levels + 1) operands us)
      (hlhs : Derives .expression (levels + 1) ls lhs)
      (ht : t.operator? = some (.connective op)) :
      Opens .term levels (⟨.connective op t lhs, operands⟩ :: outer) (ts ++ (us ++ ls) ++ [t])

/-- Every expression around takes one level. -/
theorem Opens.levels_add_length {phrase : Phrase} {levels : Nat} {enclosing : List Enclosing}
    {ts : List Token} (h : Opens phrase levels enclosing ts) :
    levels + enclosing.length = Condition.maxDepth := by
  induction h with
  | whole => rfl
  | paren _ _ _ ih => rw [← ih, List.length_cons]; omega
  | negation _ _ _ ih => rw [← ih, List.length_cons]; omega
  | connective _ _ _ _ ih => rw [← ih, List.length_cons]; omega

/-- The invariant of a run: the tokens read so far spell the stage that the
machine has come to. -/
inductive Spelled : ConditionProgress → List Token → Prop
  | ready {phrase : Phrase} {levels : Nat} {enclosing : List Enclosing} {operands : List Operand}
      {ts us : List Token} (houter : Opens phrase levels enclosing ts)
      (hoperands : OperandsSpell phrase levels operands us) :
      Spelled ⟨none, operands, enclosing⟩ (ts ++ us)
  | predicate {phrase : Phrase} {levels : Nat} {enclosing : List Enclosing}
      {operands : List Operand} {ts us : List Token} {p : Predicate} {op : Token}
      (houter : Opens phrase levels enclosing ts)
      (hoperands : OperandsSpell phrase levels operands us)
      (hop : op.operator? = some (.predicate p)) :
      Spelled ⟨some (.predicate p op), operands, enclosing⟩ (ts ++ us ++ [op])
  | relation {phrase : Phrase} {levels : Nat} {enclosing : List Enclosing}
      {operands : List Operand} {ts us : List Token} {r : Relation} {op lhs : Token}
      (houter : Opens phrase levels enclosing ts)
      (hoperands : OperandsSpell phrase levels operands us) (hlhs : lhs.IsOperand)
      (hop : op.operator? = some (.relation r)) :
      Spelled ⟨some (.relation r op lhs), operands, enclosing⟩ (ts ++ us ++ [lhs, op])

/-! ### What each part of a step does -/

theorem exists_of_bind_eq_ok {ε α β : Type} {x : Except ε α} {f : α → Except ε β} {b : β}
    (h : x >>= f = .ok b) : ∃ a, x = .ok a ∧ f a = .ok b := by
  cases x with
  | error e => cases h
  | ok a => exact ⟨a, rfl, h⟩

theorem reduceOperands_eq_none {operands : List Operand} (h : reduceOperands operands = .ok none) :
    operands = [] := by
  unfold reduceOperands at h
  split at h
  · rename_i hrev
    exact List.reverse_eq_nil_iff.mp hrev
  · cases h
  · cases h

theorem reduceOperands_eq_some {operands : List Operand} {c : Condition}
    (h : reduceOperands operands = .ok (some c)) :
    ∃ x : Operand, operands = [x] ∧ x.condition = c := by
  unfold reduceOperands at h
  split at h
  · cases h
  · rename_i x hrev
    exact ⟨x, List.reverse_eq_cons_iff.mp hrev, Option.some.inj (Except.ok.inj h)⟩
  · cases h

/-- Operands that make a condition spell it. -/
theorem OperandsSpell.derives {phrase : Phrase} {levels : Nat} {operands : List Operand}
    {ts : List Token} {c : Condition} (h : OperandsSpell phrase levels operands ts)
    (hreduce : reduceOperands operands = .ok (some c)) : Derives phrase levels ts c := by
  obtain ⟨x, rfl, rfl⟩ := reduceOperands_eq_some hreduce
  cases h with
  | cons hrest hx =>
      -- There is no other operand, so nothing stands before this one.
      cases hrest
      exact hx.derives

/-- Ending the expressions that bind tighter leaves an expression that spells
the same tokens. -/
theorem Opens.endTight {phrase : Phrase} {levels : Nat} {enclosing enclosing' : List Enclosing}
    {operands operands' : List Operand} {ts us : List Token}
    (houter : Opens phrase levels enclosing ts)
    (hoperands : OperandsSpell phrase levels operands us)
    (h : Listfile.endTight operands enclosing = .ok (operands', enclosing')) :
    ∃ levels' ts' us', Opens .expression levels' enclosing' ts' ∧
      OperandsSpell .expression levels' operands' us' ∧ ts ++ us = ts' ++ us' := by
  -- Every expression that ends becomes one more operand of the one around it.
  induction houter generalizing operands us with
  | whole =>
      obtain ⟨rfl, rfl⟩ := Prod.mk.inj (Except.ok.inj h)
      exact ⟨_, [], us, .whole, hoperands, rfl⟩
  | paren houter houtside ht =>
      obtain ⟨rfl, rfl⟩ := Prod.mk.inj (Except.ok.inj h)
      exact ⟨_, _, us, .paren houter houtside ht, hoperands, rfl⟩
  | negation houter houtside ht ih =>
      obtain ⟨c?, hreduce, h⟩ := exists_of_bind_eq_ok h
      cases c? with
      | none => cases h
      | some c =>
          have hterm := Derives.negation ht (hoperands.derives hreduce)
          obtain ⟨levels', ts', us', hopens, hspell, htokens⟩ :=
            ih (houtside.value hterm.ofTerm _) h
          exact ⟨levels', ts', us', hopens, hspell, by rw [← htokens]; simp⟩
  | connective houter houtside hlhs ht ih =>
      obtain ⟨c?, hreduce, h⟩ := exists_of_bind_eq_ok h
      cases c? with
      | none => cases h
      | some c =>
          have hjoined := Derives.joined hlhs ht (hoperands.derives hreduce)
          obtain ⟨levels', ts', us', hopens, hspell, htokens⟩ := ih (houtside.value hjoined _) h
          exact ⟨levels', ts', us', hopens, hspell, by rw [← htokens]; simp⟩

theorem ConditionProgress.eq_of_enter {t : Token} {opening : Opening} {operands : List Operand}
    {enclosing : List Enclosing} {s : ConditionProgress}
    (h : enter t opening operands enclosing = .ok s) :
    enclosing.length < Condition.maxDepth ∧ s = within (⟨opening, operands⟩ :: enclosing) := by
  unfold enter at h
  split at h
  · cases h
  · rename_i hlt
    exact ⟨Nat.lt_of_not_le hlt, (Except.ok.inj h).symm⟩

/-- There is a level left where there is room for one. -/
theorem Opens.exists_level {phrase : Phrase} {levels : Nat} {enclosing : List Enclosing}
    {ts : List Token} (h : Opens phrase levels enclosing ts)
    (hlt : enclosing.length < Condition.maxDepth) : ∃ n, levels = n + 1 := by
  have hsum := h.levels_add_length
  exact ⟨levels - 1, by omega⟩

/-- A stage at which a new expression begins. -/
theorem Spelled.within {phrase : Phrase} {levels : Nat} {enclosing : List Enclosing}
    {ts : List Token} (h : Opens phrase levels enclosing ts) :
    Spelled (ConditionProgress.within enclosing) ts := by
  have hready := Spelled.ready h .nil
  rwa [List.append_nil] at hready

section Steps

variable {phrase : Phrase} {levels : Nat} {enclosing : List Enclosing} {operands : List Operand}
  {ts us : List Token} {t : Token} {s : ConditionProgress}

theorem Spelled.closeParen (houter : Opens phrase levels enclosing ts)
    (hoperands : OperandsSpell phrase levels operands us) (ht : t.kind = .rightParen)
    (h : ConditionProgress.closeParen ⟨none, operands, enclosing⟩ t = .ok s) :
    Spelled s (ts ++ us ++ [t]) := by
  obtain ⟨⟨operands', enclosing'⟩, hended, h⟩ := exists_of_bind_eq_ok h
  obtain ⟨c?, hreduce, h⟩ := exists_of_bind_eq_ok h
  obtain ⟨levels', ts', us', hopens, hspell, htokens⟩ := houter.endTight hoperands hended
  cases hopens with
  | whole => cases h
  | @paren _ _ _ _ _ _ left houtside houtside' hleft =>
      cases c? with
      | none => cases h
      | some c =>
          have hterm := Derives.parenthesis hleft ht (hspell.derives hreduce)
          have hready := Spelled.ready houtside (houtside'.value hterm.ofTerm left)
          cases h
          rw [htokens]
          simpa only [List.append_assoc, List.cons_append, List.nil_append] using hready

theorem Spelled.connect {op : Connective} (houter : Opens phrase levels enclosing ts)
    (hoperands : OperandsSpell phrase levels operands us)
    (ht : t.operator? = some (.connective op))
    (h : ConditionProgress.connect ⟨none, operands, enclosing⟩ op t = .ok s) :
    Spelled s (ts ++ us ++ [t]) := by
  cases operands with
  | nil => cases h
  | cons x xs =>
      -- The last operand goes to the left of the connective, the others stay.
      obtain ⟨⟨operands', enclosing'⟩, hended, h⟩ :=
        exists_of_bind_eq_ok (x := endTight (x :: xs) enclosing) h
      obtain ⟨levels', ts', us', hopens, hspell, htokens⟩ := houter.endTight hoperands hended
      rw [htokens]
      cases hspell with
      | nil => cases h
      | cons hrest hx =>
          obtain ⟨hlt, rfl⟩ := ConditionProgress.eq_of_enter h
          obtain ⟨n, rfl⟩ := hopens.exists_level hlt
          exact .within (.connective hopens hrest hx.derives ht)

theorem Spelled.relate {r : Relation} (houter : Opens phrase levels enclosing ts)
    (hoperands : OperandsSpell phrase levels operands us)
    (ht : t.operator? = some (.relation r))
    (h : ConditionProgress.relate ⟨none, operands, enclosing⟩ r t = .ok s) :
    Spelled s (ts ++ us ++ [t]) := by
  cases hoperands with
  | nil => cases h
  | @cons x xs us us' hrest hx =>
      cases x with
      | value c origin => cases h
      | token lhs =>
          obtain ⟨rfl, hlhs⟩ := hx
          cases h
          have hwaiting := Spelled.relation houter hrest hlhs ht
          simpa only [List.append_assoc, List.cons_append, List.nil_append] using hwaiting

/-- A token that is no argument of a test. -/
theorem Spelled.take (houter : Opens phrase levels enclosing ts)
    (hoperands : OperandsSpell phrase levels operands us)
    (h : ConditionProgress.take ⟨none, operands, enclosing⟩ t = .ok s) :
    Spelled s (ts ++ us ++ [t]) := by
  by_cases hleft : t.kind = .leftParen
  · rw [take_leftParen hleft] at h
    obtain ⟨hlt, rfl⟩ := ConditionProgress.eq_of_enter h
    obtain ⟨n, rfl⟩ := houter.exists_level hlt
    exact .within (.paren houter hoperands hleft)
  by_cases hright : t.kind = .rightParen
  · rw [take_rightParen hright] at h
    exact .closeParen houter hoperands hright h
  rw [take_eq_takeWord hleft hright] at h
  cases hop : t.operator? with
  | none =>
      rw [hop] at h
      cases h
      rw [List.append_assoc]
      exact .ready houter (.cons hoperands ⟨rfl, hleft, hright, hop⟩)
  | some op =>
      rw [hop] at h
      cases op with
      | negation =>
          obtain ⟨hlt, rfl⟩ := ConditionProgress.eq_of_enter h
          obtain ⟨n, rfl⟩ := houter.exists_level hlt
          exact .within (.negation houter hoperands hop)
      | connective op => exact .connect houter hoperands hop h
      | predicate p =>
          cases h
          exact .predicate houter hoperands hop
      | relation r => exact .relate houter hoperands hop h

end Steps

/-- Every token that the machine takes. -/
theorem Spelled.step {s s' : ConditionProgress} {ts : List Token} {t : Token} {met : Option Test}
    (h : Spelled s ts) (hstep : s.step t = .ok (met, s')) : Spelled s' (ts ++ [t]) := by
  have hargument : ∀ {w operands enclosing}, s = ⟨some w, operands, enclosing⟩ →
      t.isArgument = true ∧
        s' = ⟨none, .value (.test (w.test t)) w.operator :: operands, enclosing⟩ := by
    rintro w operands enclosing rfl
    unfold ConditionProgress.step at hstep
    by_cases harg : t.isArgument = true
    · simp only [harg] at hstep
      cases hstep
      exact ⟨harg, rfl⟩
    · simp only [harg] at hstep
      cases hstep
  cases h with
  | @ready phrase levels enclosing operands ts us houter hoperands =>
      have htake : ConditionProgress.take ⟨none, operands, enclosing⟩ t = .ok s' := by
        cases htake : ConditionProgress.take ⟨none, operands, enclosing⟩ t with
        | error e =>
            simp only [ConditionProgress.step, htake] at hstep
            cases hstep
        | ok s₁ =>
            simp only [ConditionProgress.step, htake] at hstep
            cases hstep
            rfl
      exact .take houter hoperands htake
  | @predicate _ _ _ _ _ _ _ op houter hoperands hop =>
      obtain ⟨harg, rfl⟩ := hargument rfl
      have hready := Spelled.ready houter
        (hoperands.value (Derives.predicate hop harg).ofTerm op)
      simp only [List.append_assoc, List.cons_append, List.nil_append]
      exact hready
  | @relation _ _ _ _ _ _ _ op _ houter hoperands hlhs hop =>
      obtain ⟨harg, rfl⟩ := hargument rfl
      have hready := Spelled.ready houter
        (hoperands.value (Derives.relation hlhs hop harg).ofTerm op)
      simp only [List.append_assoc, List.cons_append, List.nil_append]
      exact hready

theorem Spelled.of_reaches {s : ConditionProgress} {ts : List Token} {met : List Test}
    (h : Condition.reader.Reaches .initial ts met s) : Spelled s ts :=
  Reader.Reaches.invariant (P := fun ts _ s => Spelled s ts) (.ready .whole .nil)
    (fun _ _ _ _ _ _ _ hbefore hstep => hbefore.step hstep) h

/-- All of the tokens spell the condition, or there are none. -/
def SpellsWhole (ts : List Token) : Option Condition → Prop
  | none => ts = []
  | some c => Derives .expression Condition.maxDepth ts c

/-- The machine may end after nothing or after an expression. -/
theorem Spelled.finish {s : ConditionProgress} {ts : List Token} {c : Option Condition}
    (h : Spelled s ts) (hfinish : s.finish = .ok c) : SpellsWhole ts c := by
  cases h with
  | predicate => cases hfinish
  | relation => cases hfinish
  | ready houter hoperands =>
      obtain ⟨⟨operands', enclosing'⟩, hended, hfinish⟩ := exists_of_bind_eq_ok hfinish
      obtain ⟨c?, hreduce, hfinish⟩ := exists_of_bind_eq_ok hfinish
      obtain ⟨levels', ts', us', hopens, hspell, htokens⟩ := houter.endTight hoperands hended
      rw [htokens]
      cases hopens with
      | paren => cases c? <;> cases hfinish
      | whole =>
          cases hfinish
          cases c with
          | none =>
              have hempty := reduceOperands_eq_none hreduce
              subst hempty
              cases hspell
              rfl
          | some c => exact hspell.derives hreduce

/-! ## Evaluation -/

theorem Condition.spellsWhole_of_outline {ts : List Token} {c : Option Condition}
    (h : (Condition.outline ts).condition = .ok c) : SpellsWhole ts c := by
  obtain ⟨met, s, hreach, hfinish⟩ := Condition.reaches_of_outlineFrom h
  exact (Spelled.of_reaches hreach).finish hfinish

section Evaluation

variable {engine : PatternEngine} {ctx : Context} {ts : List Token} {c : Condition}

/-- An expression whose tests can all be performed has the value of its
condition. -/
theorem Derives.evaluate_eq_ok (h : Derives .expression Condition.maxDepth ts c)
    (htests : c.tests.findSome? (·.error? engine ctx) = none) :
    evaluate engine ctx ts = .ok (c.holds engine ctx) := by
  unfold evaluate
  simp only [h.outline_eq, htests]
  rfl

/-- A lone relation is evaluated to whether it holds, unless it cannot be
performed. -/
theorem evaluate_relation {lhs op arg : Token} {r : Relation} (hlhs : lhs.IsOperand)
    (hop : op.operator? = some (.relation r)) (harg : arg.isArgument = true)
    (htest : (Test.relation r lhs arg).error? engine ctx = none) :
    evaluate engine ctx [lhs, op, arg] = .ok (Test.relationHolds engine ctx r lhs arg) := by
  have hterm : Derives .term Condition.maxDepth [lhs, op, arg] (.test (.relation r lhs arg)) :=
    .relation hlhs hop harg
  refine (Derives.single hterm).evaluate_eq_ok ?_
  rw [List.findSome?_eq_none_iff]
  intro t ht
  rw [List.mem_singleton.mp ht]
  exact htest

/-- The first test from the left that cannot be performed is the error. -/
theorem Derives.evaluate_eq_error {e : ConditionError}
    (h : Derives .expression Condition.maxDepth ts c)
    (hfirst : c.tests.findSome? (·.error? engine ctx) = some e) :
    evaluate engine ctx ts = .error e := by
  unfold evaluate
  simp only [h.outline_eq, hfirst]

/-- An evaluation that gives a value has read all of the tokens. -/
theorem exists_spellsWhole_of_evaluate {b : Bool} (h : evaluate engine ctx ts = .ok b) :
    ∃ c, SpellsWhole ts c := by
  unfold evaluate at h
  cases hcondition : (Condition.outline ts).condition with
  | ok c => exact ⟨c, Condition.spellsWhole_of_outline hcondition⟩
  | error e =>
      cases hfirst : (Condition.outline ts).tests.findSome? (·.error? engine ctx) <;>
        simp only [hfirst, hcondition] at h <;> cases h

/-- An expression is evaluated to a value exactly if this is its meaning. -/
theorem Derives.evaluate_eq_ok_iff {b : Bool} (h : Derives .expression Condition.maxDepth ts c) :
    evaluate engine ctx ts = .ok b ↔ c.Means engine ctx b := by
  rw [Condition.means_iff, ← List.findSome?_eq_none_iff]
  cases hfirst : c.tests.findSome? (·.error? engine ctx) with
  | some e => simp [h.evaluate_eq_error hfirst]
  | none => simp [h.evaluate_eq_ok hfirst]

/-- An expression is evaluated to an error exactly if one of its tests cannot be
performed and the first such test has this error. -/
theorem Derives.evaluate_eq_error_iff {e : ConditionError}
    (h : Derives .expression Condition.maxDepth ts c) :
    evaluate engine ctx ts = .error e ↔ c.Fails engine ctx e := by
  rw [Condition.fails_iff]
  cases hfirst : c.tests.findSome? (·.error? engine ctx) with
  | some e' => simp [h.evaluate_eq_error hfirst]
  | none => simp [h.evaluate_eq_ok hfirst]

end Evaluation

/-- **Conditions are evaluated as the grammar and its meaning say.** An evaluation
gives a value exactly for no tokens, which are false, and for the expressions of
at most a hundred levels that have this meaning. It gives an error for such an
expression exactly if the first of its tests that cannot be performed has this
error, and it does so as soon as there is a test that cannot. -/
theorem evaluate_grammar (engine : PatternEngine) (ctx : Context) (tokens : List Token) :
    (∀ b, evaluate engine ctx tokens = .ok b ↔ (tokens = [] ∧ b = false) ∨
      ∃ c, Derives .expression Condition.maxDepth tokens c ∧ c.Means engine ctx b) ∧
    (∀ c, Derives .expression Condition.maxDepth tokens c →
      (∀ e, evaluate engine ctx tokens = .error e ↔ c.Fails engine ctx e) ∧
      ((∃ t ∈ c.tests, ∃ e, t.Gives engine ctx (.error e)) →
        ∃ e, evaluate engine ctx tokens = .error e)) := by
  refine ⟨fun b => ⟨fun h => ?_, ?_⟩, fun c hc => ⟨fun e => hc.evaluate_eq_error_iff, ?_⟩⟩
  · obtain ⟨c, hc⟩ := exists_spellsWhole_of_evaluate h
    cases c with
    | none =>
        have hempty : tokens = [] := hc
        subst hempty
        exact .inl ⟨rfl, (Except.ok.inj h).symm⟩
    | some c =>
        have hc : Derives .expression Condition.maxDepth tokens c := hc
        exact .inr ⟨c, hc, hc.evaluate_eq_ok_iff.mp h⟩
  · rintro (⟨rfl, rfl⟩ | ⟨c, hc, hmeans⟩)
    · rfl
    · exact hc.evaluate_eq_ok_iff.mpr hmeans
  · rintro ⟨t, ht, e, hgives⟩
    cases hvalue : evaluate engine ctx tokens with
    | error e' => exact ⟨e', rfl⟩
    | ok b =>
        -- An expression with a value has no test that fails.
        obtain ⟨hnone, -⟩ := Condition.means_iff.mp (hc.evaluate_eq_ok_iff.mp hvalue)
        rw [Test.gives_error_iff, hnone t ht] at hgives
        cases hgives

/-- A pattern that occurs in the value of a variable, under a `NOT`; and one that
is none, after a path that is looked up first. -/
theorem evaluate_grammar_of_patterns :
    let search (pattern text : String) : Bool :=
      text.toList.tails.any (pattern.toList.isPrefixOf ·)
    let engine : PatternEngine := fun pattern =>
      if pattern = "(" then .error "regex parse error:\n    (\n    ^\nerror: unclosed group"
      else .ok (search pattern)
    let ctx := (Context.empty fun _ => .ok false).setVar "name" "cmake"
    let token (column : Nat) (value : String) : Token := ⟨.raw, value, ⟨1, column, ⟨0, 0⟩⟩⟩
    let found := [token 1 "NOT", token 2 "name", token 3 "MATCHES", token 4 "make", token 5 "OR",
      token 6 "OFF"]
    let broken := [token 1 "EXISTS", token 2 "/x", token 3 "AND", token 4 "name",
      token 5 "MATCHES", token 6 "("]
    evaluate engine ctx found = .ok false ∧
      evaluate engine ctx broken = .error
        ⟨.invalidPattern "(" "regex parse error:\n    (\n    ^\nerror: unclosed group", 1, 6⟩ := by
  intro search engine ctx token found broken
  have hoperand : ∀ column value, (token column value).operator? = none →
      (token column value).IsOperand := fun _ _ h => ⟨nofun, nofun, h⟩
  refine ⟨?_, ?_⟩
  · have hmatches : Derives .term 99 [token 2 "name", token 3 "MATCHES", token 4 "make"]
        (.test (.relation .matchesPattern (token 2 "name") (token 4 "make"))) :=
      .relation (hoperand _ _ rfl) rfl rfl
    have hfound : Derives .expression 100 found _ :=
      .joined (.single (.negation rfl hmatches)) rfl (.operand (hoperand 6 "OFF" rfl))
    have hvalue : (token 2 "name").StandsFor ctx "cmake" := .value rfl (by decide +kernel)
    have hsearch : (Test.relation .matchesPattern (token 2 "name") (token 4 "make")).Gives
        engine ctx (.ok (search "make" "cmake")) := .pattern hvalue rfl
    have hoff : (token 6 "OFF").Truth ctx false := .constant (by decide +kernel)
    have hmeans := Condition.Means.or (.not (.test hsearch)) (.operand hoff)
    have hfalse : (!search "make" "cmake" || false) = false := by decide +kernel
    rw [hfalse] at hmeans
    exact ((evaluate_grammar engine ctx found).1 false).mpr (.inr ⟨_, hfound, hmeans⟩)
  · have hbroken : Derives .expression 100 broken _ :=
      .joined (.single (.predicate rfl rfl)) rfl (.relation (hoperand 4 "name" rfl) rfl rfl)
    refine (((evaluate_grammar engine ctx broken).2 _ hbroken).1 _).mpr ?_
    refine ⟨_, _, [], rfl, .patternFails rfl, ?_⟩
    intro earlier hearlier
    rw [List.mem_singleton.mp hearlier]
    exact ⟨false, .path rfl⟩

end Listfile
