import Listfile.Proofs.ConditionGrammar
import Mathlib.Data.List.Basic

/-!
# What an evaluation observes

The reading of a condition looks at no context, and the condition and its tests
are made of the tokens that are read. So an evaluation asks the context about
the values of these tokens and nothing else, whether it comes to a value or to
an error.

* `Spelled.tokens_subset_of_step` — a test that is met is made of tokens read so
  far;
* `Condition.tests_tokens_subset`, `Derives.tokens_subset` — the tests that are
  met and the condition that is read name no other tokens;
* `Test.error?_congr`, `Condition.holds_congr` — contexts that agree on the
  tokens of a test or condition cannot be told apart by it;
* `Context.agreesAt_setVar` and the lemmas after it — what binds or defines one
  name changes no answer about another;
* `evaluate_observes` — contexts that agree on what the tokens name are
  evaluated alike.
-/

namespace Listfile

open Text

/-! ## The tokens of a condition -/

/-- The tokens that a test looks at. -/
def Test.tokens : Test → List Token
  | .predicate _ arg => [arg]
  | .relation _ lhs rhs => [lhs, rhs]

/-- The tokens that a condition looks at. -/
def Condition.tokens : Condition → List Token
  | .operand t => [t]
  | .test t => t.tokens
  | .not c => c.tokens
  | .joined _ lhs rhs => lhs.tokens ++ rhs.tokens

/-- A condition is made of the tokens that spell it. -/
theorem Derives.tokens_subset {phrase : Phrase} {levels : Nat} {ts : List Token} {c : Condition}
    (h : Derives phrase levels ts c) : c.tokens ⊆ ts := by
  induction h with
  | operand => exact List.Subset.refl _
  | predicate => exact List.subset_cons_self _ _
  | @relation levels lhs op arg r hlhs hop harg =>
      exact List.cons_subset_cons lhs (List.subset_cons_self op [arg])
  | negation _ _ ih => exact List.subset_cons_of_subset _ ih
  | parenthesis _ _ _ ih =>
      exact List.subset_cons_of_subset _ (List.subset_append_of_subset_left _ ih)
  | single _ ih => exact ih
  | joined _ _ _ ihl ihr =>
      refine List.append_subset.mpr ⟨List.subset_append_of_subset_left _ ihl, ?_⟩
      exact List.subset_append_of_subset_right _ (List.subset_cons_of_subset _ ihr)

theorem Condition.tokens_subset_of_outline {ts : List Token} {c : Condition}
    (h : (Condition.outline ts).condition = .ok (some c)) : c.tokens ⊆ ts :=
  (Condition.spellsWhole_of_outline h : Derives .expression Condition.maxDepth ts c).tokens_subset

/-- A test that is met is made of the token that completes it and of one read
before. -/
theorem Spelled.tokens_subset_of_step {s s' : ConditionProgress} {ts : List Token} {t : Token}
    {met : Test} (h : Spelled s ts) (hstep : s.step t = .ok (some met, s')) :
    met.tokens ⊆ ts ++ [t] := by
  have hmet : ∀ w, s.waiting = some w → met = w.test t := by
    intro w hw
    unfold ConditionProgress.step at hstep
    rw [hw] at hstep
    by_cases harg : t.isArgument = true
    · simp only [harg] at hstep
      cases hstep
      rfl
    · simp only [harg] at hstep
      cases hstep
  cases h with
  | @ready _ _ enclosing operands =>
      -- Nothing waits for an argument, so no test is met.
      have hnone : ConditionProgress.step ⟨none, operands, enclosing⟩ t =
          (ConditionProgress.take ⟨none, operands, enclosing⟩ t).map fun s => (none, s) := rfl
      rw [hnone] at hstep
      cases htake : ConditionProgress.take ⟨none, operands, enclosing⟩ t <;>
        rw [htake] at hstep <;> cases hstep
  | predicate =>
      rw [hmet _ rfl]
      exact List.subset_append_right _ _
  | @relation _ _ _ _ ts us r op lhs =>
      rw [hmet _ rfl]
      refine List.cons_subset.mpr ⟨?_, List.subset_append_right _ _⟩
      exact List.mem_append_left _ (List.mem_append_right _ List.mem_cons_self)

/-- The tests that are met are made of the tokens that are read, also when the
form of the condition is at fault further on. -/
theorem Condition.tests_tokens_subset {s : ConditionProgress} {seen ts : List Token}
    (h : Spelled s seen) :
    ∀ met ∈ (Condition.outlineFrom s ts).tests, met.tokens ⊆ seen ++ ts := by
  induction ts generalizing s seen with
  | nil =>
      intro met hmet
      exact absurd hmet List.not_mem_nil
  | cons t ts ih =>
      have hassoc : seen ++ t :: ts = (seen ++ [t]) ++ ts := List.append_cons seen t ts
      rw [hassoc]
      intro met hmet
      unfold outlineFrom at hmet
      split at hmet
      · cases hmet
      · rename_i hstep
        exact ih (h.step hstep) met hmet
      · rename_i hstep
        rcases List.mem_cons.mp hmet with rfl | hmet
        · exact List.subset_append_of_subset_left _ (h.tokens_subset_of_step hstep)
        · exact ih (h.step hstep) met hmet

/-! ## Contexts that agree -/

/-- The contexts give the same answers about a value: as the name of a normal
variable, of a command and of a path, and, when it is written so, as a reference
to an environment or cache variable. -/
structure Context.AgreesAt (ctx ctx' : Context) (value : String) : Prop where
  var : ctx.var? value = ctx'.var? value
  command : ctx.isCommand value = ctx'.isCommand value
  path : ctx.pathExists value = ctx'.pathExists value
  env : ∀ name, value = "ENV\x7b" ++ name ++ "\x7d" → ctx.env? name = ctx'.env? name
  cache : ∀ name, value = "CACHE\x7b" ++ name ++ "\x7d" → ctx.cache? name = ctx'.cache? name

section Agreement

variable {engine : PatternEngine} {ctx ctx' : Context}

theorem Context.AgreesAt.isBound_eq {value : String} (h : ctx.AgreesAt ctx' value) :
    ctx.isBound value = ctx'.isBound value := by
  unfold isBound
  split
  · rename_i inner hinner
    rw [h.env inner (braced?_eq_some_iff.mp hinner)]
  · rename_i inner _ hinner
    rw [h.cache inner (braced?_eq_some_iff.mp hinner)]
  · rw [h.var]

theorem Context.AgreesAt.operandText_eq {t : Token} (h : ctx.AgreesAt ctx' t.value) :
    ctx.operandText t = ctx'.operandText t := by
  unfold operandText
  rw [h.var]

theorem Context.AgreesAt.isTrue_eq {t : Token} (h : ctx.AgreesAt ctx' t.value) :
    ctx.isTrue t = ctx'.isTrue t := by
  unfold isTrue
  rw [h.var]

/-- Whether a test can be performed. -/
theorem Test.error?_congr {test : Test} (h : ∀ t ∈ test.tokens, ctx.AgreesAt ctx' t.value) :
    test.error? engine ctx = test.error? engine ctx' := by
  cases test with
  | predicate p arg =>
      have harg := h arg List.mem_cons_self
      cases p with
      | defined => rfl
      | exists_ =>
          simp only [error?, harg.path]
      | command => rfl
  | relation r lhs rhs => cases r <;> rfl

theorem Test.relationHolds_congr {r : Relation} {lhs rhs : Token}
    (hl : ctx.AgreesAt ctx' lhs.value) (hr : ctx.AgreesAt ctx' rhs.value) :
    relationHolds engine ctx r lhs rhs = relationHolds engine ctx' r lhs rhs := by
  unfold relationHolds
  rw [hl.operandText_eq, hr.operandText_eq, hr.var]

/-- What a test says. -/
theorem Test.holds_congr {test : Test} (h : ∀ t ∈ test.tokens, ctx.AgreesAt ctx' t.value) :
    test.holds engine ctx = test.holds engine ctx' := by
  cases test with
  | predicate p arg =>
      have harg := h arg List.mem_cons_self
      cases p with
      | defined => exact harg.isBound_eq
      | exists_ =>
          simp only [holds, harg.path]
      | command => exact harg.command
  | relation r lhs rhs =>
      have hlhs := h lhs List.mem_cons_self
      have hrhs := h rhs (List.mem_cons_of_mem lhs List.mem_cons_self)
      exact relationHolds_congr hlhs hrhs

/-- What a condition says. -/
theorem Condition.holds_congr {c : Condition} (h : ∀ t ∈ c.tokens, ctx.AgreesAt ctx' t.value) :
    c.holds engine ctx = c.holds engine ctx' := by
  induction c with
  | operand t => exact (h t List.mem_cons_self).isTrue_eq
  | test t => exact Test.holds_congr h
  | not c ih =>
      unfold holds
      rw [ih h]
  | joined op lhs rhs ihl ihr =>
      have hlhs := ihl fun t ht => h t (List.mem_append_left _ ht)
      have hrhs := ihr fun t ht => h t (List.mem_append_right _ ht)
      unfold holds
      rw [hlhs, hrhs]

/-- Contexts that agree on the tokens of a condition evaluate it alike. -/
theorem evaluate_congr {ts : List Token} (h : ∀ t ∈ ts, ctx.AgreesAt ctx' t.value) :
    evaluate engine ctx ts = evaluate engine ctx' ts := by
  have hstart : Spelled .initial [] := .ready .whole .nil
  have hfirst : (Condition.outline ts).tests.findSome? (·.error? engine ctx) =
      (Condition.outline ts).tests.findSome? (·.error? engine ctx') := by
    have htests : ∀ met ∈ (Condition.outline ts).tests, met.tokens ⊆ ts :=
      Condition.tests_tokens_subset hstart
    have herror : ∀ met ∈ (Condition.outline ts).tests,
        met.error? engine ctx = met.error? engine ctx' :=
      fun met hmet => Test.error?_congr fun t ht => h t (htests met hmet ht)
    rw [← List.head?_filterMap, ← List.head?_filterMap, List.filterMap_congr herror]
  unfold evaluate
  simp only [hfirst]
  cases hcondition : (Condition.outline ts).condition with
  | error e => rfl
  | ok c? =>
      cases c? with
      | none => rfl
      | some c =>
          have hholds : c.holds engine ctx = c.holds engine ctx' :=
            Condition.holds_congr fun t ht => h t (Condition.tokens_subset_of_outline hcondition ht)
          simp only [Except.map, Option.any_some, hholds]

end Agreement

/-! ## What does not change an answer -/

theorem getElem?_insert_of_ne {β : Type} (bindings : Std.TreeMap String β) {name value : String}
    (bound : β) (h : name ≠ value) : (bindings.insert name bound)[value]? = bindings[value]? := by
  rw [Std.TreeMap.getElem?_insert, if_neg (mt Std.LawfulEqCmp.compare_eq_iff_eq.mp h)]

theorem getElem?_erase_of_ne {β : Type} (bindings : Std.TreeMap String β) {name value : String}
    (h : name ≠ value) : (bindings.erase name)[value]? = bindings[value]? := by
  rw [Std.TreeMap.getElem?_erase, if_neg (mt Std.LawfulEqCmp.compare_eq_iff_eq.mp h)]

namespace Context

/-- What encloses a scope gives no answers. -/
theorem AgreesAt.of_scope_eq {ctx ctx' : Context} (h : ctx.scope = ctx'.scope) (value : String) :
    ctx.AgreesAt ctx' value := by
  obtain ⟨scope, outer⟩ := ctx
  obtain rfl := h
  exact ⟨rfl, rfl, rfl, fun _ _ => rfl, fun _ _ => rfl⟩

theorem AgreesAt.trans {ctx₁ ctx₂ ctx₃ : Context} {value : String}
    (h : ctx₁.AgreesAt ctx₂ value) (h' : ctx₂.AgreesAt ctx₃ value) : ctx₁.AgreesAt ctx₃ value where
  var := h.var.trans h'.var
  command := h.command.trans h'.command
  path := h.path.trans h'.path
  env name hname := (h.env name hname).trans (h'.env name hname)
  cache name hname := (h.cache name hname).trans (h'.cache name hname)

variable (ctx : Context) {name value : String}

theorem agreesAt_setVar (bound : String) (h : name ≠ value) :
    (ctx.setVar name bound).AgreesAt ctx value where
  var := getElem?_insert_of_ne ctx.scope.vars bound h
  command := rfl
  path := rfl
  env _ _ := rfl
  cache _ _ := rfl

theorem agreesAt_unsetVar (h : name ≠ value) : (ctx.unsetVar name).AgreesAt ctx value where
  var := getElem?_erase_of_ne ctx.scope.vars h
  command := rfl
  path := rfl
  env _ _ := rfl
  cache _ _ := rfl

theorem agreesAt_setEnv (bound : String) (h : "ENV\x7b" ++ name ++ "\x7d" ≠ value) :
    (ctx.setEnv name bound).AgreesAt ctx value where
  var := rfl
  command := rfl
  path := rfl
  env other hother := by
    refine getElem?_insert_of_ne ctx.scope.env bound fun hname => h ?_
    rw [hother, hname]
  cache _ _ := rfl

theorem agreesAt_setCache (bound : String) (h : "CACHE\x7b" ++ name ++ "\x7d" ≠ value) :
    (ctx.setCache name bound).AgreesAt ctx value where
  var := rfl
  command := rfl
  path := rfl
  env _ _ := rfl
  cache other hother := by
    refine getElem?_insert_of_ne ctx.scope.cache bound fun hname => h ?_
    rw [hother, hname]

theorem agreesAt_defineFunction {s : Signature} (h : s.name ≠ lower value) :
    (ctx.defineFunction s).AgreesAt ctx value where
  var := rfl
  command := by
    have hfunction : (ctx.defineFunction s).function? value = ctx.function? value :=
      getElem?_insert_of_ne ctx.scope.functions s h
    unfold isCommand
    rw [hfunction]
    rfl
  path := rfl
  env _ _ := rfl
  cache _ _ := rfl

theorem agreesAt_defineMacro {s : Signature} (h : s.name ≠ lower value) :
    (ctx.defineMacro s).AgreesAt ctx value where
  var := rfl
  command := by
    have hdefined : (ctx.defineMacro s).macro? value = ctx.macro? value :=
      getElem?_insert_of_ne ctx.scope.macros s h
    unfold isCommand
    rw [hdefined]
    rfl
  path := rfl
  env _ _ := rfl
  cache _ _ := rfl

end Context

/-! ## What is observed -/

/-- **An evaluation observes what its tokens name.** Contexts that agree on the
values of the tokens are evaluated alike, also where the evaluation fails. So
nothing depends on the scopes around the innermost one, on variables that no
token names, or on functions and macros that no token names in any case. -/
theorem evaluate_observes (engine : PatternEngine) (ctx : Context) (ts : List Token) :
    (∀ ctx' : Context, (∀ t ∈ ts, ctx.AgreesAt ctx' t.value) →
      evaluate engine ctx ts = evaluate engine ctx' ts) ∧
    (∀ outer, evaluate engine ⟨ctx.scope, outer⟩ ts = evaluate engine ctx ts) ∧
    (∀ name bound, (∀ t ∈ ts, name ≠ t.value) →
      evaluate engine (ctx.setVar name bound) ts = evaluate engine ctx ts ∧
        evaluate engine (ctx.unsetVar name) ts = evaluate engine ctx ts) ∧
    (∀ name bound, (∀ t ∈ ts, "ENV\x7b" ++ name ++ "\x7d" ≠ t.value) →
      evaluate engine (ctx.setEnv name bound) ts = evaluate engine ctx ts) ∧
    (∀ name bound, (∀ t ∈ ts, "CACHE\x7b" ++ name ++ "\x7d" ≠ t.value) →
      evaluate engine (ctx.setCache name bound) ts = evaluate engine ctx ts) ∧
    (∀ s : Signature, (∀ t ∈ ts, s.name ≠ lower t.value) →
      evaluate engine (ctx.defineFunction s) ts = evaluate engine ctx ts ∧
        evaluate engine (ctx.defineMacro s) ts = evaluate engine ctx ts) := by
  refine ⟨fun ctx' => evaluate_congr, fun outer => ?_, ?_, ?_, ?_, ?_⟩
  · have hscope : Context.scope ⟨ctx.scope, outer⟩ = ctx.scope := rfl
    exact evaluate_congr fun t _ => .of_scope_eq hscope t.value
  · intro name bound h
    exact ⟨evaluate_congr fun t ht => ctx.agreesAt_setVar bound (h t ht),
      evaluate_congr fun t ht => ctx.agreesAt_unsetVar (h t ht)⟩
  · exact fun name bound h => evaluate_congr fun t ht => ctx.agreesAt_setEnv bound (h t ht)
  · exact fun name bound h => evaluate_congr fun t ht => ctx.agreesAt_setCache bound (h t ht)
  · intro s h
    exact ⟨evaluate_congr fun t ht => ctx.agreesAt_defineFunction (h t ht),
      evaluate_congr fun t ht => ctx.agreesAt_defineMacro (h t ht)⟩

/-- A context and an inner one that binds other names as well. The condition
asks for a variable of the environment, a command in capitals and a list, all of
them bound in both, and comes to a path that cannot be probed. -/
theorem evaluate_observes_of_other_bindings :
    let engine : PatternEngine := fun _ => .ok fun _ => false
    let probe : Probe := fun path =>
      if path.toList.contains '\x00' then .error "file name contained an unexpected NUL byte"
      else .ok false
    let token (value : String) : Token := ⟨.raw, value, ⟨1, 1, ⟨0, 1⟩⟩⟩
    let ts := ["DEFINED", "ENV\x7bHOME\x7d", "AND", "COMMAND", "F", "AND", "b", "IN_LIST", "L",
      "OR", "EXISTS", "\x00"].map token
    let ctx :=
      (((Context.empty probe).setVar "L" "a;b").setEnv "HOME" "/").defineFunction ⟨"f", []⟩
    let other := ((ctx.setVar "HOME" "b").setCache "HOME" "x").defineMacro ⟨"g", ["x"]⟩
    let inner : Context := ⟨other.scope, [ctx.scope]⟩
    (∀ t ∈ ts, inner.AgreesAt ctx t.value) ∧ evaluate engine inner ts = evaluate engine ctx ts ∧
      (∀ t ∈ ts, "HOME" ≠ t.value) ∧
        evaluate engine (ctx.setVar "HOME" "b") ts = evaluate engine ctx ts ∧
      (∀ t ∈ ts, "ENV\x7b" ++ "PATH" ++ "\x7d" ≠ t.value) ∧
        evaluate engine (ctx.setEnv "PATH" "/") ts = evaluate engine ctx ts ∧
      (∀ t ∈ ts, "CACHE\x7b" ++ "HOME" ++ "\x7d" ≠ t.value) ∧
        evaluate engine (ctx.setCache "HOME" "x") ts = evaluate engine ctx ts ∧
      (∀ t ∈ ts, "g" ≠ lower t.value) ∧
        evaluate engine (ctx.defineMacro ⟨"g", ["x"]⟩) ts = evaluate engine ctx ts ∧
      evaluate engine inner (ts.take 9) = .ok true ∧
      evaluate engine inner ts =
        .error ⟨.existsCheck "\x00" "file name contained an unexpected NUL byte", 1, 1⟩ := by
  intro engine probe token ts ctx other inner
  have hvar : ∀ t ∈ ts, "HOME" ≠ t.value := by decide +kernel
  have henv : ∀ t ∈ ts, "ENV\x7b" ++ "PATH" ++ "\x7d" ≠ t.value := by decide +kernel
  have hcache : ∀ t ∈ ts, "CACHE\x7b" ++ "HOME" ++ "\x7d" ≠ t.value := by decide +kernel
  have hdefined : ∀ t ∈ ts, "g" ≠ lower t.value := by decide +kernel
  have hagrees : ∀ t ∈ ts, inner.AgreesAt ctx t.value := by
    intro t ht
    have hscope : inner.scope = other.scope := rfl
    have hbound : ((ctx.setVar "HOME" "b").setCache "HOME" "x").AgreesAt ctx t.value :=
      (Context.agreesAt_setCache _ "x" (hcache t ht)).trans (ctx.agreesAt_setVar "b" (hvar t ht))
    have hother : other.AgreesAt ctx t.value :=
      (Context.agreesAt_defineMacro _ (hdefined t ht)).trans hbound
    exact (Context.AgreesAt.of_scope_eq hscope t.value).trans hother
  obtain ⟨-, -, hvars, henvs, hcaches, hcommands⟩ := evaluate_observes engine ctx ts
  have houter : evaluate engine inner ts = evaluate engine ctx ts :=
    (evaluate_observes engine inner ts).1 ctx hagrees
  have hvalue : evaluate engine inner (ts.take 9) = .ok true := by decide +kernel
  have herror : evaluate engine inner ts =
      .error ⟨.existsCheck "\x00" "file name contained an unexpected NUL byte", 1, 1⟩ := by
    decide +kernel
  exact ⟨hagrees, houter, hvar, (hvars "HOME" "b" hvar).1, henv, henvs "PATH" "/" henv, hcache,
    hcaches "HOME" "x" hcache, hdefined, (hcommands ⟨"g", ["x"]⟩ hdefined).2, hvalue, herror⟩

end Listfile
