import Listfile.Proofs.ConditionSteps
import Listfile.Proofs.Reparsing
import Listfile.Proofs.Resolving

/-!
# Parentheses of conditions

The arguments of a command have balanced parentheses, since the reader of
statements counts them. This balance goes through to the evaluation of a
condition, which therefore never finds a parenthesis without its partner:

* `closes_of_insideForm` — what stands between the parentheses of an invocation
  is balanced, also without its separators and comments;
* `Closes.resolve` — resolving keeps the parentheses where they are, whatever
  the values are that it puts between them;
* `Closes.step`, `Closes.cause_of_refused` — the invariant of a run: the tokens
  that are left close exactly the parentheses that the reading has open;
* `conditions_balanced` — no condition of a source text is reported as
  unbalanced.
-/

namespace Listfile

open Text

/-! ## Balance -/

/-- `Closes n ts`: the tokens `ts` close `n` parentheses that are open before
them, and all of their own. -/
inductive Closes : Nat → List Token → Prop
  | done : Closes 0 []
  | leftParen {n : Nat} {t : Token} {ts : List Token} (ht : t.kind = .leftParen)
      (hts : Closes (n + 1) ts) : Closes n (t :: ts)
  | rightParen {n : Nat} {t : Token} {ts : List Token} (ht : t.kind = .rightParen)
      (hts : Closes n ts) : Closes (n + 1) (t :: ts)
  | other {n : Nat} {t : Token} {ts : List Token} (hleft : t.kind ≠ .leftParen)
      (hright : t.kind ≠ .rightParen) (hts : Closes n ts) : Closes n (t :: ts)

/-- Tokens that are no parentheses may stand anywhere. -/
theorem Closes.others {n : Nat} {ts us : List Token} (h : Closes n us)
    (hts : ∀ t ∈ ts, t.kind ≠ .leftParen ∧ t.kind ≠ .rightParen) : Closes n (ts ++ us) := by
  induction ts with
  | nil => exact h
  | cons t ts ih =>
      obtain ⟨hleft, hright⟩ := hts t List.mem_cons_self
      exact .other hleft hright (ih fun u hu => hts u (List.mem_cons_of_mem t hu))

/-- The arguments of an invocation are balanced: in front of tokens that close
`n` parentheses they leave that number as it is. -/
theorem closes_of_insideForm {inside : List Token} (h : InsideForm inside) :
    ∀ {n : Nat} {us : List Token}, Closes n us → Closes n (argumentsOf inside ++ us) := by
  induction h with
  | nil =>
      intro n us hus
      exact hus
  | @plain t ts ht _ ih =>
      intro n us hus
      have hsingle : ∀ u ∈ argumentsOf [t], u.kind ≠ .leftParen ∧ u.kind ≠ .rightParen := by
        intro u hu
        obtain rfl := List.mem_singleton.mp (List.mem_filter.mp hu).1
        constructor <;> intro hkind <;> rw [hkind] at ht <;> cases ht
      rw [← List.singleton_append, argumentsOf_append, List.append_assoc]
      exact (ih hus).others hsingle
  | @group left right inner ts hleft _ hright _ ihinner ihrest =>
      intro n us hus
      have hparts : argumentsOf (left :: (inner ++ right :: ts)) =
          left :: (argumentsOf inner ++ right :: argumentsOf ts) := by
        simp [argumentsOf, hleft, hright]
      rw [hparts, List.cons_append, List.append_assoc, List.cons_append]
      exact .leftParen hleft (ihinner (.rightParen hright (ihrest hus)))

/-! ## Resolving -/

/-- Resolving changes what stands between the parentheses, and not them. -/
theorem Closes.resolve {lookup : Store → String → Option String} {n : Nat} {ts us : List Token}
    (h : Closes n ts) (hresolve : Listfile.resolve lookup ts = .ok us) : Closes n us := by
  induction h generalizing us with
  | done =>
      obtain rfl := Except.ok.inj hresolve
      exact .done
  | leftParen ht _ ih =>
      obtain ⟨front, back, hfront, hback, rfl⟩ := resolve_cons_eq_ok hresolve
      rw [Token.resolve_of_ne (by rw [ht]; decide) (by rw [ht]; decide)] at hfront
      obtain rfl := Except.ok.inj hfront
      exact .leftParen ht (ih hback)
  | rightParen ht _ ih =>
      obtain ⟨front, back, hfront, hback, rfl⟩ := resolve_cons_eq_ok hresolve
      rw [Token.resolve_of_ne (by rw [ht]; decide) (by rw [ht]; decide)] at hfront
      obtain rfl := Except.ok.inj hfront
      exact .rightParen ht (ih hback)
  | other hleft hright _ ih =>
      obtain ⟨front, back, hfront, hback, rfl⟩ := resolve_cons_eq_ok hresolve
      refine (ih hback).others fun u hu => ?_
      rw [Token.kind_of_resolve hfront u hu]
      exact ⟨hleft, hright⟩

/-! ## Reading a condition -/

/-- A step of the reading does not blame the parentheses, and `P` holds of what
it comes to. -/
structure Balances {α : Type} (P : α → Prop) (x : Except ConditionError α) : Prop where
  of_ok : ∀ a, x = .ok a → P a
  cause_ne : ∀ e, x = .error e → e.cause ≠ .unbalancedParentheses

namespace Balances

variable {α β : Type} {P : α → Prop} {Q : β → Prop}

theorem ok {a : α} (h : P a) : Balances P (.ok a) := by
  constructor
  · intro b hb
    cases hb
    exact h
  · intro e he
    cases he

theorem error {e : ConditionError} (h : e.cause ≠ .unbalancedParentheses) :
    Balances P (.error e) := by
  constructor
  · intro a ha
    cases ha
  · intro e' he
    cases he
    exact h

theorem map {x : Except ConditionError α} {f : α → β} (hx : Balances P x)
    (hf : ∀ a, P a → Q (f a)) : Balances Q (x.map f) := by
  cases x with
  | error e => exact .error (hx.cause_ne e rfl)
  | ok a => exact .ok (hf a (hx.of_ok a rfl))

theorem imp {P' : α → Prop} {x : Except ConditionError α} (hx : Balances P x)
    (h : ∀ a, P a → P' a) : Balances P' x :=
  ⟨fun a ha => h a (hx.of_ok a ha), hx.cause_ne⟩

theorem of_yields {P' : α → Prop} {E : ConditionError → Prop} {x : Except ConditionError α}
    (h : Yields P E x) (hP : ∀ a, P a → P' a)
    (hE : ∀ e, E e → e.cause ≠ .unbalancedParentheses) : Balances P' x :=
  ⟨fun a ha => hP a (h.of_ok a ha), fun e he => hE e (h.of_error e he)⟩

end Balances

/-- The number of parentheses that are open around an expression. -/
def openParens : List Enclosing → Nat
  | [] => 0
  | ⟨.paren _, _⟩ :: outer => openParens outer + 1
  | ⟨.negation _, _⟩ :: outer => openParens outer
  | ⟨.connective _ _ _, _⟩ :: outer => openParens outer

theorem openParens_eq (enclosing : List Enclosing) :
    openParens enclosing = (levelsOf enclosing).count .paren := by
  induction enclosing with
  | nil => rfl
  | cons e outer ih =>
      obtain ⟨opening, operands⟩ := e
      cases opening <;> simp only [openParens, levelsOf_cons, Opening.level, ih] <;> simp

theorem ConditionCause.AboutOperands.ne_unbalanced {cause : ConditionCause}
    (h : cause.AboutOperands) : cause ≠ .unbalancedParentheses := by
  rintro rfl
  exact h

section Steps

variable {s : ConditionProgress} {n : Nat}

theorem balances_enter (t : Token) (opening : Opening) (operands : List Operand)
    (enclosing : List Enclosing) :
    Balances (fun s => openParens s.enclosing = openParens (⟨opening, operands⟩ :: enclosing))
      (ConditionProgress.enter t opening operands enclosing) := by
  refine .of_yields (ConditionProgress.yields_enter t opening operands enclosing) ?_ ?_
  · rintro s ⟨rfl, -⟩
    rfl
  · rintro e ⟨rfl, -⟩
    nofun

/-- A closing parenthesis finds its partner if one is open. -/
theorem balances_closeParen (t : Token) (h : openParens s.enclosing = n + 1) :
    Balances (fun s' => openParens s'.enclosing = n) (s.closeParen t) := by
  rw [openParens_eq, ← Level.count_paren_endOperands] at h
  refine .of_yields (ConditionProgress.yields_closeParen (t := t)) ?_ ?_
  · rintro s' ⟨-, hlevels⟩
    rw [hlevels, List.count_cons_self] at h
    rw [openParens_eq]
    exact Nat.succ.inj h
  · rintro e (he | ⟨-, hnone⟩)
    · exact he.ne_unbalanced
    · rw [hnone] at h
      cases h

theorem balances_connect (op : Connective) (t : Token) :
    Balances (fun s' => openParens s'.enclosing = openParens s.enclosing) (s.connect op t) := by
  refine .of_yields (ConditionProgress.yields_connect (t := t) op) ?_ ?_
  · rintro s' ⟨-, hlevels, -⟩
    rw [openParens_eq, openParens_eq, hlevels, List.count_cons_of_ne (by decide),
      Level.count_paren_endOperands]
  · rintro e (he | ⟨rfl, -⟩)
    · exact he.ne_unbalanced
    · nofun

theorem balances_relate (r : Relation) (t : Token) :
    Balances (fun s' => openParens s'.enclosing = openParens s.enclosing) (s.relate r t) := by
  refine .of_yields (ConditionProgress.yields_relate (t := t) r) ?_ fun e he => he.ne_unbalanced
  rintro s' ⟨-, henclosing⟩
  rw [henclosing]

theorem balances_takeWord (t : Token) (op : Option Operator) :
    Balances (fun s' => openParens s'.enclosing = openParens s.enclosing) (s.takeWord t op) := by
  cases op with
  | none => exact .ok rfl
  | some op =>
      cases op with
      | negation => exact balances_enter t (.negation t) s.operands s.enclosing
      | connective op => exact balances_connect op t
      | predicate p => exact .ok rfl
      | relation r => exact balances_relate r t

/-- A token that is no argument of a test. -/
theorem Closes.balances_take {t : Token} {ts : List Token} (hopen : openParens s.enclosing = n)
    (h : Closes n (t :: ts)) :
    Balances (fun s' => Closes (openParens s'.enclosing) ts) (s.take t) := by
  cases h with
  | leftParen ht hts =>
      rw [ConditionProgress.take_leftParen ht]
      refine (balances_enter t (.paren t) s.operands s.enclosing).imp fun s' hs' => ?_
      rw [hs']
      show Closes (openParens s.enclosing + 1) ts
      rw [hopen]
      exact hts
  | rightParen ht hts =>
      rw [ConditionProgress.take_rightParen ht]
      refine (balances_closeParen t hopen).imp fun s' hs' => ?_
      rw [hs']
      exact hts
  | other hleft hright hts =>
      rw [ConditionProgress.take_eq_takeWord hleft hright]
      refine (balances_takeWord t t.operator?).imp fun s' hs' => ?_
      rw [hs', hopen]
      exact hts

/-- The invariant of a run: the tokens that are left close the parentheses that
are open. -/
theorem Closes.balances_step {t : Token} {ts : List Token} (hopen : openParens s.enclosing = n)
    (h : Closes n (t :: ts)) :
    Balances (fun r => Closes (openParens r.2.enclosing) ts) (s.step t) := by
  cases hwaiting : s.waiting with
  | none =>
      unfold ConditionProgress.step
      rw [hwaiting]
      exact (h.balances_take hopen).map fun s' hs' => hs'
  | some w =>
      unfold ConditionProgress.step
      rw [hwaiting]
      by_cases harg : t.isArgument = true
      · -- An argument is no parenthesis.
        have hts : Closes n ts := by
          cases h with
          | leftParen ht => simp [Token.isArgument, ht] at harg
          | rightParen ht => simp [Token.isArgument, ht] at harg
          | other _ _ hts => exact hts
        simp only [harg]
        refine .ok ?_
        show Closes (openParens s.enclosing) ts
        rw [hopen]
        exact hts
      · simp only [harg]
        exact .error nofun

/-- A condition may end when no parenthesis is open. -/
theorem balances_finish (h : openParens s.enclosing = 0) :
    Balances (fun _ => True) s.finish := by
  rw [openParens_eq, ← Level.count_paren_endOperands] at h
  refine .of_yields s.yields_finish (fun _ _ => trivial) ?_
  rintro e (he | ⟨-, hparen⟩)
  · exact he.ne_unbalanced
  · rcases hparen with ⟨outer, houter⟩
    rw [houter, List.count_cons_self] at h
    cases h

/-- The form of a condition whose parentheses are closed. -/
theorem Closes.balances_outlineFrom {ts : List Token} (h : Closes (openParens s.enclosing) ts) :
    Balances (fun _ => True) (Condition.outlineFrom s ts).condition := by
  induction ts generalizing s with
  | nil =>
      generalize hopen : openParens s.enclosing = n at h
      cases h
      exact balances_finish hopen
  | cons t ts ih =>
      have hstep := h.balances_step rfl
      unfold Condition.outlineFrom
      split
      · rename_i e he
        exact .error (hstep.cause_ne e he)
      · rename_i s' hs'
        exact ih (hstep.of_ok (none, s') hs')
      · rename_i met s' hs'
        exact ih (hstep.of_ok (some met, s') hs')

end Steps

/-! ## Evaluation -/

/-- Balanced tokens are evaluated without blaming their parentheses. -/
theorem Closes.balances_evaluate {ts : List Token} (h : Closes 0 ts) (engine : PatternEngine)
    (ctx : Context) : Balances (fun _ => True) (evaluate engine ctx ts) := by
  have houtline : Balances (fun _ => True) (Condition.outline ts).condition :=
    Closes.balances_outlineFrom (s := .initial) h
  refine .of_yields (yields_evaluate ?_ ⟨houtline.of_ok, houtline.cause_ne⟩) (fun _ h => h)
    fun _ h => h
  intro t e he
  rcases Test.cause_of_error? he with ⟨path, cause, hcause⟩ | ⟨pattern, message, hcause⟩ <;>
    rw [hcause] <;> nofun

/-- Neither evaluation of the tokens blames the parentheses. -/
structure NeverUnbalanced (engine : PatternEngine) (ctx : Context) (ts : List Token) : Prop where
  evaluate : ∀ e, Listfile.evaluate engine ctx ts = .error e → e.cause ≠ .unbalancedParentheses
  evaluateCondition : ∀ e, Listfile.evaluateCondition engine ctx ts = .error (.condition e) →
    e.cause ≠ .unbalancedParentheses

theorem Closes.neverUnbalanced {ts : List Token} (h : Closes 0 ts) (engine : PatternEngine)
    (ctx : Context) : NeverUnbalanced engine ctx ts := by
  constructor
  · exact (h.balances_evaluate engine ctx).cause_ne
  · intro e he
    unfold Listfile.evaluateCondition at he
    cases hresolve : Listfile.resolve ctx.lookup ts with
    | error e' =>
        rw [hresolve] at he
        cases he
    | ok us =>
        rw [hresolve] at he
        have hus := (h.resolve hresolve).balances_evaluate engine ctx
        cases hevaluate : Listfile.evaluate engine ctx us with
        | error e' =>
            simp only [hevaluate] at he
            cases he
            exact hus.cause_ne e hevaluate
        | ok b =>
            simp only [hevaluate] at he
            cases he

/-! ## Conditions of a source text -/

/-- The arguments that are a condition: those of a conditional and of a
`while`. -/
def Node.condition? : Node → Option Arguments
  | .conditional _ args _ _ => some args
  | .block .whileLoop _ args _ => some args
  | _ => none

theorem Arms.condition_eq {levels : Nat} {opener : Command} {us : List Statement} {n : Node}
    (h : Arms levels opener us n) : n.condition? = some (.ofCondition opener.args) := by
  cases h <;> rfl

/-- A condition is interpreted from the arguments of one of the commands that
the node is made of. -/
theorem Forest.exists_condition {levels : Nat} {stops : List String} {us : List Statement}
    {n : Node} {args : Arguments} (h : Forest levels stops us [n]) (hn : n.condition? = some args) :
    ∃ c, .command c ∈ us ∧ args = .ofCondition c.args := by
  cases h with
  | comment => cases hn
  | command => cases hn
  | jump => cases hn
  | ret => cases hn
  | @block _ _ kind opener _ args' _ _ _ _ _ hargs _ _ _ =>
      cases kind <;> cases hn
      cases hargs
      exact ⟨opener, List.mem_cons_self, rfl⟩
  | @conditional _ _ opener _ _ _ _ _ harms _ =>
      rw [harms.condition_eq] at hn
      cases hn
      exact ⟨opener, List.mem_cons_self, rfl⟩

theorem Excerpt.exists_condition {levels : Nat} {ss : List Statement} {n : Node}
    {args : Arguments} (h : Excerpt levels ss n) (hn : n.condition? = some args) :
    ∃ c, .command c ∈ ss ∧ args = .ofCondition c.args := by
  cases h with
  | @whole below before us after hss _ hforest =>
      obtain ⟨c, hc, hargs⟩ := hforest.exists_condition hn
      refine ⟨c, ?_, hargs⟩
      rw [hss]
      exact List.mem_append_left _ (List.mem_append_right _ hc)
  | @arm below c us hc _ harms =>
      rw [harms.condition_eq] at hn
      cases hn
      exact ⟨c, hc, rfl⟩

theorem Arguments.tokens?_ofCondition (ts : List Token) :
    (Arguments.ofCondition ts).tokens? = some ts := by
  unfold Arguments.ofCondition
  split <;> rfl

/-- The arguments of a command that is read are balanced. -/
theorem Command.closes_args {options : ParseOptions} {tokens : List Token} {c : Command}
    (hc : .command c ∈ (Statement.read options tokens).items) : Closes 0 c.args := by
  obtain ⟨elements, rest, hwf, -, hitems⟩ := exists_elements_of_read options tokens
  rw [hitems] at hc
  obtain ⟨e, he, hes⟩ := List.mem_filterMap.mp hc
  cases e with
  | comment t =>
      simp only [FileElement.statement?] at hes
      split at hes <;> cases hes
  | invocation name left inside right =>
      cases hes
      obtain ⟨-, -, -, hinside, -⟩ := hwf _ he
      have hargs := closes_of_insideForm hinside .done
      rwa [List.append_nil] at hargs

/-- **Conditions of a source text are balanced.** Neither the arguments of a
command nor the condition of a conditional or a `while`, at any depth of the
tree, is ever reported to have unbalanced parentheses, in whatever context it
is evaluated and whether or not it is resolved before. -/
theorem conditions_balanced (engine : PatternEngine) (options : ParseOptions) (source : String)
    (ctx : Context) :
    (∀ c, .command c ∈ (parseFlat options source).items → NeverUnbalanced engine ctx c.args) ∧
    ∀ n ∈ Node.allNodes (parseTree options source).items, ∀ args ts, n.condition? = some args →
      args.tokens? = some ts → NeverUnbalanced engine ctx ts := by
  have hcommands : ∀ c, .command c ∈ (Statement.read options (scan source)).items →
      NeverUnbalanced engine ctx c.args :=
    fun c hc => (Command.closes_args hc).neverUnbalanced engine ctx
  refine ⟨hcommands, ?_⟩
  intro n hn args ts hargs hts
  obtain ⟨before, after, hitems, hforest⟩ :=
    exists_forest_of_fold (Statement.read options (scan source))
  obtain ⟨c, hc, rfl⟩ := (hforest.excerpt hn).exists_condition hargs
  rw [Arguments.tokens?_ofCondition] at hts
  cases hts
  refine hcommands c ?_
  rw [hitems]
  exact List.mem_append_left after hc

/-- An `elseif` inside of a block, with a value and a quoted argument that say
a parenthesis each. -/
theorem conditions_balanced_of_parenthesis_values :
    let engine : PatternEngine := fun _ => .ok fun _ => false
    let ctx := (Context.empty fun _ => .ok false).setVar "X" ")"
    let source := "block()\nif(A)\nelseif(NOT (${X} AND \"(\") OR B # )\n)\nendif()\nendblock()"
    let nodes := Node.allNodes (parseTree ⟨false⟩ source).items
    ∃ n ∈ nodes, ∃ args ts, n.condition? = some args ∧ args.tokens? = some ts ∧
      ts.map (·.value) = ["NOT", "(", "${X}", "AND", "(", ")", "OR", "B"] ∧
      NeverUnbalanced engine ctx ts := by
  intro engine ctx source nodes
  have helseif : nodes[2]?.bind (fun n => n.condition?.bind
      fun args => args.tokens?.map (·.map (·.value))) =
      some ["NOT", "(", "${X}", "AND", "(", ")", "OR", "B"] := by decide +kernel
  obtain ⟨n, hn, hcondition⟩ := Option.bind_eq_some_iff.mp helseif
  obtain ⟨args, hargs, htokens⟩ := Option.bind_eq_some_iff.mp hcondition
  obtain ⟨ts, hts, hvalues⟩ := Option.map_eq_some_iff.mp htokens
  have hmem : n ∈ nodes := List.mem_of_getElem? hn
  exact ⟨n, hmem, args, ts, hargs, hts, hvalues,
    (conditions_balanced engine ⟨false⟩ source ctx).2 n hmem args ts hargs hts⟩

end Listfile
