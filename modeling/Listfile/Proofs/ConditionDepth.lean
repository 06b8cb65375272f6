import Listfile.Proofs.ConditionSteps

/-!
# How deep a condition nests

The levels of a condition can be told from its words alone, without reading it:
a parenthesis, a `NOT`, and an `AND` or `OR` each open one, the last three up to
the next `AND` or `OR`, closing parenthesis or end. `Nesting` follows them from
token to token, and `Nesting.trail` is all that a reader passes.

* `yields_step` — the reading has exactly these levels open, and never more than
  the limit;
* `evaluate_nestingTooDeep` — a condition is too deep only where they exceed
  the limit, with the levels of `AND` and `OR` among them, and whatever exceeds
  it is an error. A parenthesis holds at most one of those, so half as many
  parentheses are always safe;
* `evaluate_conjunction_in_parentheses` — parentheses and `NOT` alone do not
  decide it.
-/

namespace Listfile

/-! ## Levels of a sequence of tokens -/

/-- What is open between two tokens of a condition. -/
structure Nesting where
  /-- The next token is the argument of a test, whatever it says. -/
  beforeArgument : Bool
  /-- The levels around the next token, the innermost first. -/
  levels : List Level
  deriving DecidableEq

namespace Nesting

/-- Nothing is open before the first token. -/
def outermost : Nesting :=
  ⟨false, []⟩

/-- What is open after a word inside of the levels, for the operator that it
stands for. -/
def afterWord (levels : List Level) : Option Operator → Nesting
  | none => ⟨false, levels⟩
  | some .negation => ⟨false, .negation :: levels⟩
  | some (.connective _) => ⟨false, .connective :: Level.endOperands levels⟩
  | some (.predicate _) => ⟨true, levels⟩
  | some (.relation _) => ⟨true, levels⟩

/-- What is open after one more token. -/
def next (σ : Nesting) (t : Token) : Nesting :=
  if σ.beforeArgument then ⟨false, σ.levels⟩
  else
    match t.kind with
    | .leftParen => ⟨false, .paren :: σ.levels⟩
    | .rightParen => ⟨false, (Level.endOperands σ.levels).tail⟩
    | _ => afterWord σ.levels t.operator?

/-- What is open before, between and after the tokens. -/
def trail (σ : Nesting) : List Token → List Nesting
  | [] => [σ]
  | t :: ts => σ :: trail (σ.next t) ts

/-- What is open after the tokens. -/
def after (σ : Nesting) (ts : List Token) : Nesting :=
  ts.foldl next σ

end Nesting

/-- Nowhere before, between and after the tokens are more levels open than the
limit. -/
def Nesting.Within (σ : Nesting) (ts : List Token) : Prop :=
  ∀ ν ∈ σ.trail ts, ν.levels.length ≤ Condition.maxDepth

/-- The token `t` is the first of the tokens that opens a level beyond the
limit. -/
def Nesting.FirstBeyond (σ : Nesting) (ts : List Token) (t : Token) : Prop :=
  ∃ before after, ts = before ++ t :: after ∧ σ.Within before ∧
    (σ.after (before ++ [t])).levels.length = Condition.maxDepth + 1

/-! ## The levels of the reading -/

namespace Nesting

variable {σ : Nesting} {t : Token}

theorem next_of_beforeArgument (h : σ.beforeArgument = true) (t : Token) :
    σ.next t = ⟨false, σ.levels⟩ :=
  if_pos h

theorem next_of_leftParen (h : σ.beforeArgument = false) (ht : t.kind = .leftParen) :
    σ.next t = ⟨false, .paren :: σ.levels⟩ := by
  simp only [next, h, ht]
  rfl

theorem next_of_rightParen (h : σ.beforeArgument = false) (ht : t.kind = .rightParen) :
    σ.next t = ⟨false, (Level.endOperands σ.levels).tail⟩ := by
  simp only [next, h, ht]
  rfl

theorem next_of_word (h : σ.beforeArgument = false) (hleft : t.kind ≠ .leftParen)
    (hright : t.kind ≠ .rightParen) : σ.next t = afterWord σ.levels t.operator? := by
  unfold next
  rw [h, if_neg Bool.false_ne_true]
  split
  · rename_i hkind
    exact absurd hkind hleft
  · rename_i hkind
    exact absurd hkind hright
  · rfl

end Nesting

namespace ConditionProgress

/-- What is open at a stage of the reading. -/
def nesting (s : ConditionProgress) : Nesting :=
  ⟨s.waiting.isSome, levelsOf s.enclosing⟩

/-- If the error `e` at the token `t` blames the depth, then `σ`, which this
token would come to, has one level too many. -/
def BlamesDepth (t : Token) (σ : Nesting) (e : ConditionError) : Prop :=
  ∀ n, e.cause = .nestingTooDeep n →
    e = t.conditionError (.nestingTooDeep Condition.maxDepth) ∧
      σ.levels.length = Condition.maxDepth + 1

/-- The step of the token `t` opens and closes levels as `σ` says, stays within
the limit, and blames the depth where `σ` does not. -/
abbrev Follows (t : Token) (σ : Nesting) : Except ConditionError ConditionProgress → Prop :=
  Yields (fun s => s.nesting = σ ∧ s.enclosing.length ≤ Condition.maxDepth) (BlamesDepth t σ)

variable {s : ConditionProgress} {t : Token} {σ : Nesting} {e : ConditionError}

theorem BlamesDepth.of_aboutOperands (h : e.cause.AboutOperands) : BlamesDepth t σ e := by
  intro n hn
  rw [hn] at h
  exact h.elim

/-- A level inside of at most `maxDepth` others. -/
theorem BlamesDepth.of_tooDeep {level : Level} {levels : List Level} {beforeArgument : Bool}
    (h : TooDeep t levels e) (hroom : levels.length ≤ Condition.maxDepth) :
    BlamesDepth t ⟨beforeArgument, level :: levels⟩ e := by
  obtain ⟨he, hfull⟩ := h
  intro n _
  refine ⟨he, ?_⟩
  show levels.length + 1 = Condition.maxDepth + 1
  omega

theorem follows_enter (opening : Opening) (operands : List Operand) {enclosing : List Enclosing}
    (hroom : enclosing.length ≤ Condition.maxDepth) :
    Follows t ⟨false, opening.level :: levelsOf enclosing⟩
      (enter t opening operands enclosing) := by
  refine (yields_enter t opening operands enclosing).imp ?_ ?_
  · rintro s ⟨rfl, hlt⟩
    exact ⟨rfl, hlt⟩
  · intro e he
    refine .of_tooDeep he ?_
    rwa [length_levelsOf]

theorem follows_takeWord (hroom : s.enclosing.length ≤ Condition.maxDepth)
    (op : Option Operator) :
    Follows t (.afterWord (levelsOf s.enclosing) op) (s.takeWord t op) := by
  cases op with
  | none => exact .ok ⟨rfl, hroom⟩
  | some op =>
      cases op with
      | negation => exact follows_enter (.negation t) s.operands hroom
      | connective op =>
          refine (yields_connect op).imp ?_ ?_
          · rintro s' ⟨hwaiting', hlevels, hroom'⟩
            refine ⟨?_, hroom'⟩
            unfold nesting
            rw [hwaiting', hlevels]
            rfl
          · rintro e (he | he)
            · exact .of_aboutOperands he
            · refine .of_tooDeep he ?_
              have hle := Level.length_endOperands_le (levelsOf s.enclosing)
              rw [length_levelsOf] at hle
              omega
      | predicate p => exact .ok ⟨rfl, hroom⟩
      | relation r =>
          refine (yields_relate r).imp ?_ fun e he => .of_aboutOperands he
          rintro s' ⟨hwaiting', henclosing⟩
          unfold nesting
          rw [hwaiting', henclosing]
          exact ⟨rfl, hroom⟩

theorem follows_take (hwaiting : s.waiting = none)
    (hroom : s.enclosing.length ≤ Condition.maxDepth) :
    Follows t (s.nesting.next t) (s.take t) := by
  have hbefore : s.nesting.beforeArgument = false := by
    show s.waiting.isSome = false
    rw [hwaiting]
    rfl
  by_cases hleft : t.kind = .leftParen
  · rw [take_leftParen hleft, Nesting.next_of_leftParen hbefore hleft]
    exact follows_enter (.paren t) s.operands hroom
  by_cases hright : t.kind = .rightParen
  · rw [take_rightParen hright, Nesting.next_of_rightParen hbefore hright]
    refine yields_closeParen.imp ?_ ?_
    · rintro s' ⟨hwaiting', hlevels⟩
      have hlength := Level.length_endOperands_le (levelsOf s.enclosing)
      rw [hlevels, List.length_cons, length_levelsOf, length_levelsOf] at hlength
      refine ⟨?_, by omega⟩
      show _ = Nesting.mk false (Level.endOperands (levelsOf s.enclosing)).tail
      unfold nesting
      rw [hwaiting', hlevels]
      rfl
    · rintro e (he | ⟨he, -⟩)
      · exact .of_aboutOperands he
      · intro n hn
        rw [he] at hn
        cases hn
  rw [take_eq_takeWord hleft hright, Nesting.next_of_word hbefore hleft hright]
  exact follows_takeWord hroom t.operator?

/-- The invariant of a run: every token opens and closes levels as its word
says. -/
theorem yields_step (hroom : s.enclosing.length ≤ Condition.maxDepth) :
    Yields (fun r => r.2.nesting = s.nesting.next t ∧ r.2.enclosing.length ≤ Condition.maxDepth)
      (BlamesDepth t (s.nesting.next t)) (s.step t) := by
  unfold step
  cases hwaiting : s.waiting with
  | none => exact (follows_take hwaiting hroom).map fun s' hs' => hs'
  | some w =>
      by_cases harg : t.isArgument = true
      · have hbefore : s.nesting.beforeArgument = true := by
          show s.waiting.isSome = true
          rw [hwaiting]
          rfl
        simp only [harg]
        rw [Nesting.next_of_beforeArgument hbefore]
        exact .ok ⟨rfl, hroom⟩
      · simp only [harg]
        exact .error (.of_aboutOperands trivial)

end ConditionProgress

namespace Nesting

variable {σ : Nesting} {t : Token} {ts : List Token}

theorem Within.nil (h : σ.levels.length ≤ Condition.maxDepth) : σ.Within [] := by
  intro ν hν
  rwa [List.mem_singleton.mp hν]

theorem Within.cons (h : σ.levels.length ≤ Condition.maxDepth) (hrest : (σ.next t).Within ts) :
    σ.Within (t :: ts) := by
  intro ν hν
  rcases List.mem_cons.mp hν with rfl | hν
  · exact h
  · exact hrest ν hν

theorem FirstBeyond.cons {u : Token} (h : σ.levels.length ≤ Condition.maxDepth)
    (hrest : (σ.next t).FirstBeyond ts u) : σ.FirstBeyond (t :: ts) u := by
  obtain ⟨before, after, rfl, hwithin, hlength⟩ := hrest
  exact ⟨t :: before, after, rfl, .cons h hwithin, hlength⟩

theorem mem_trail (σ : Nesting) (ts : List Token) : σ ∈ σ.trail ts := by
  cases ts <;> exact List.mem_cons_self

theorem after_mem_trail (σ : Nesting) (ts us : List Token) : σ.after ts ∈ σ.trail (ts ++ us) := by
  induction ts generalizing σ with
  | nil => exact σ.mem_trail us
  | cons t ts ih => exact List.mem_cons_of_mem σ (ih (σ.next t))

end Nesting

/-- The token at which an error that blames the depth stands. -/
def BlamesFirstBeyond (σ : Nesting) (ts : List Token) (e : ConditionError) : Prop :=
  ∀ n, e.cause = .nestingTooDeep n →
    ∃ t, σ.FirstBeyond ts t ∧ e = t.conditionError (.nestingTooDeep Condition.maxDepth)

/-- A reading that succeeds has stayed within the limit, and one that blames
the depth has come to the first token beyond it. -/
theorem Condition.yields_outlineFrom {s : ConditionProgress} {ts : List Token}
    (hroom : s.enclosing.length ≤ Condition.maxDepth) :
    Yields (fun _ => s.nesting.Within ts) (BlamesFirstBeyond s.nesting ts)
      (outlineFrom s ts).condition := by
  have hlevels : s.nesting.levels.length ≤ Condition.maxDepth := by
    show (levelsOf s.enclosing).length ≤ Condition.maxDepth
    rwa [length_levelsOf]
  induction ts generalizing s with
  | nil =>
      refine s.yields_finish.imp (fun _ _ => .nil hlevels) ?_
      rintro e (he | ⟨he, -⟩) n hn
      · rw [hn] at he
        exact he.elim
      · rw [he] at hn
        cases hn
  | cons t ts ih =>
      have hstep := s.yields_step (t := t) hroom
      have hrest : ∀ b s', s.step t = .ok (b, s') →
          Yields (fun _ => s.nesting.Within (t :: ts)) (BlamesFirstBeyond s.nesting (t :: ts))
            (outlineFrom s' ts).condition := by
        intro b s' hs'
        obtain ⟨hnext, hroom'⟩ := hstep.of_ok (b, s') hs'
        have hnext : s'.nesting = s.nesting.next t := hnext
        have hlevels' : s'.nesting.levels.length ≤ Condition.maxDepth := by
          show (levelsOf s'.enclosing).length ≤ Condition.maxDepth
          rwa [length_levelsOf]
        refine (ih hroom' hlevels').imp ?_ ?_ <;> rw [hnext]
        · intro _ hwithin
          exact .cons hlevels hwithin
        · intro e he n hn
          obtain ⟨u, hu, rfl⟩ := he n hn
          exact ⟨u, hu.cons hlevels, rfl⟩
      unfold outlineFrom
      split
      · rename_i e he
        refine .error fun n hn => ?_
        obtain ⟨rfl, hbeyond⟩ := hstep.of_error e he n hn
        exact ⟨t, ⟨[], ts, rfl, .nil hlevels, hbeyond⟩, rfl⟩
      · rename_i s' hs'
        exact hrest none s' hs'
      · rename_i met s' hs'
        exact hrest (some met) s' hs'

/-! ## Counting levels -/

theorem Level.length_eq (levels : List Level) :
    levels.length =
      levels.count .paren + levels.count .negation + levels.count .connective := by
  induction levels with
  | nil => rfl
  | cons level levels ih =>
      cases level <;> simp only [List.length_cons, List.count_cons, ih] <;> simp <;> omega

/-- Between two parentheses there is room for one `AND` or `OR`. -/
def Level.Alternating (levels : List Level) : Prop :=
  ∀ outer, outer <:+ levels → outer.count .connective ≤ outer.count .paren + 1

namespace Level.Alternating

variable {levels : List Level}

theorem outermost : Alternating Nesting.outermost.levels := by
  intro outer houter
  rw [List.suffix_nil.mp houter]
  exact Nat.zero_le _

theorem of_suffix {outer : List Level} (h : Alternating levels) (hsuffix : outer <:+ levels) :
    Alternating outer :=
  fun inner hinner => h inner (hinner.trans hsuffix)

theorem cons_of_ne {level : Level} (h : Alternating levels) (hlevel : level ≠ .connective) :
    Alternating (level :: levels) := by
  intro outer houter
  rcases List.suffix_cons_iff.mp houter with rfl | houter
  · have hle := h levels (List.suffix_refl levels)
    rw [List.count_cons_of_ne hlevel]
    have hparen := List.count_le_count_cons (a := .paren) (b := level) (l := levels)
    omega
  · exact h outer houter

theorem endOperands (h : Alternating levels) : Alternating (endOperands levels) :=
  h.of_suffix (List.dropWhile_suffix _)

/-- An `AND` or `OR` comes right inside of a parenthesis, or outermost. -/
theorem connective (h : Alternating levels) :
    Alternating (.connective :: Level.endOperands levels) := by
  intro outer houter
  rcases List.suffix_cons_iff.mp houter with rfl | houter
  · have hended := h.endOperands
    rcases endOperands_eq levels with hnil | ⟨around, hparen⟩
    · rw [hnil]
      decide
    · rw [hparen] at hended ⊢
      have hle := hended around (List.suffix_cons _ around)
      simp only [List.count_cons_self, List.count_cons_of_ne, ne_eq, reduceCtorEq,
        not_false_eq_true]
      omega
  · exact h.endOperands outer houter

theorem next {σ : Nesting} (h : Alternating σ.levels) (t : Token) :
    Alternating (σ.next t).levels := by
  have hword : ∀ op, Alternating (Nesting.afterWord σ.levels op).levels := by
    intro op
    cases op with
    | none => exact h
    | some op =>
        cases op with
        | negation => exact h.cons_of_ne (by decide)
        | connective op => exact h.connective
        | predicate p => exact h
        | relation r => exact h
  unfold Nesting.next
  split
  · exact h
  split
  · exact h.cons_of_ne (by decide)
  · exact h.endOperands.of_suffix (List.tail_suffix _)
  · exact hword t.operator?

/-- All along the tokens. -/
theorem trail {σ : Nesting} (h : Alternating σ.levels) (ts : List Token) :
    ∀ ν ∈ σ.trail ts, Alternating ν.levels := by
  induction ts generalizing σ with
  | nil =>
      intro ν hν
      rwa [List.mem_singleton.mp hν]
  | cons t ts ih =>
      intro ν hν
      rcases List.mem_cons.mp hν with rfl | hν
      · exact h
      · exact ih (h.next t) ν hν

/-- Twice the parentheses and the levels of `NOT` bound all levels. -/
theorem length_le (h : Alternating levels) :
    levels.length ≤ 2 * levels.count .paren + levels.count .negation + 1 := by
  have hle := h levels (List.suffix_refl levels)
  rw [length_eq]
  omega

end Level.Alternating

/-! ## Evaluation -/

/-- Tokens on one line, each one column wide. -/
def tokensOnLine (words : List (Kind × String)) : List Token :=
  words.zipIdx.map fun ((kind, value), i) => ⟨kind, value, ⟨1, i + 1, ⟨i, i + 1⟩⟩⟩

/-- The conjunction of two constants inside of `n` parentheses. -/
def conjunctionInParentheses (n : Nat) : List Token :=
  tokensOnLine (List.replicate n (.leftParen, "(") ++
    [(.raw, "1"), (.raw, "AND"), (.raw, "1")] ++ List.replicate n (.rightParen, ")"))

/-- **The levels of a condition are limited, those of `AND` and `OR` among
them.** An evaluation that blames the depth stands at the first token that
opens a level beyond the limit, and a condition with such a token is never
evaluated. Less than half as many parentheses and fewer levels of `NOT` are
safe, whatever number of `AND` and `OR` there is. -/
theorem evaluate_nestingTooDeep (engine : PatternEngine) (ctx : Context) (tokens : List Token) :
    (∀ e n, evaluate engine ctx tokens = .error e → e.cause = .nestingTooDeep n →
      ∃ t, Nesting.outermost.FirstBeyond tokens t ∧
        e = t.conditionError (.nestingTooDeep Condition.maxDepth)) ∧
    (∀ σ ∈ Nesting.outermost.trail tokens, Condition.maxDepth < σ.levels.length →
      ∃ e, evaluate engine ctx tokens = .error e) ∧
    ((∀ σ ∈ Nesting.outermost.trail tokens,
        2 * σ.levels.count .paren + σ.levels.count .negation < Condition.maxDepth) →
      ∀ e n, evaluate engine ctx tokens = .error e → e.cause ≠ .nestingTooDeep n) := by
  have htests : ∀ (t : Test) e, t.error? engine ctx = some e →
      BlamesFirstBeyond Nesting.outermost tokens e := by
    intro t e he n hn
    rcases Test.cause_of_error? he with ⟨path, cause, hcause⟩ | ⟨pattern, message, hcause⟩
    · rw [hcause] at hn
      cases hn
    · rw [hcause] at hn
      cases hn
  have hread : Yields (fun _ => Nesting.outermost.Within tokens)
      (BlamesFirstBeyond Nesting.outermost tokens) (evaluate engine ctx tokens) :=
    yields_evaluate htests (Condition.yields_outlineFrom (s := .initial) (Nat.zero_le _))
  refine ⟨fun e n he hn => hread.of_error e he n hn, ?_, ?_⟩
  · intro σ hσ hbeyond
    cases hevaluate : evaluate engine ctx tokens with
    | error e => exact ⟨e, rfl⟩
    | ok b =>
        have hwithin := hread.of_ok b hevaluate σ hσ
        omega
  · intro hsafe e n he hn
    obtain ⟨t, ⟨before, after, rfl, -, hlength⟩, -⟩ := hread.of_error e he n hn
    -- The excess shows in what is open after `t`, which lies on the trail.
    have hmem : Nesting.outermost.after (before ++ [t]) ∈
        Nesting.outermost.trail (before ++ t :: after) := by
      rw [← List.singleton_append, ← List.append_assoc]
      exact Nesting.after_mem_trail _ _ _
    have hle := (Level.Alternating.outermost.trail _ _ hmem).length_le
    have hfew := hsafe _ hmem
    omega

/-- An `AND` one level too deep inside of a hundred parentheses, and one inside of
forty-nine. -/
theorem evaluate_nestingTooDeep_of_conjunction :
    let engine : PatternEngine := fun _ => .ok fun _ => false
    let ctx := Context.empty fun _ => .ok false
    (∃ t, Nesting.outermost.FirstBeyond (conjunctionInParentheses 100) t ∧
      (⟨.nestingTooDeep 100, 1, 102⟩ : ConditionError) =
        t.conditionError (.nestingTooDeep Condition.maxDepth)) ∧
    (∃ e, evaluate engine ctx (conjunctionInParentheses 100) = .error e) ∧
    ∀ e n, evaluate engine ctx (conjunctionInParentheses 49) = .error e →
      e.cause ≠ .nestingTooDeep n := by
  intro engine ctx
  obtain ⟨hfirst, hbeyond, -⟩ :=
    evaluate_nestingTooDeep engine ctx (conjunctionInParentheses 100)
  obtain ⟨-, -, hsafe⟩ := evaluate_nestingTooDeep engine ctx (conjunctionInParentheses 49)
  refine ⟨hfirst _ 100 (by rfl) rfl, ?_, hsafe (by decide +kernel)⟩
  exact hbeyond ⟨false, .connective :: List.replicate 100 .paren⟩ (by decide +kernel) (by decide)

/-- Parentheses and `NOT` alone do not decide it: here only a hundred
parentheses are open, and the `AND` inside of them is too deep. -/
theorem evaluate_conjunction_in_parentheses :
    let engine : PatternEngine := fun _ => .ok fun _ => false
    let ctx := Context.empty fun _ => .ok false
    (∀ σ ∈ Nesting.outermost.trail (conjunctionInParentheses 100),
      σ.levels.count .paren + σ.levels.count .negation ≤ 100) ∧
    evaluate engine ctx (conjunctionInParentheses 100) = .error ⟨.nestingTooDeep 100, 1, 102⟩ :=
  ⟨by decide +kernel, by rfl⟩

end Listfile
