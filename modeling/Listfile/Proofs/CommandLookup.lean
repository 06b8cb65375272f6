import Listfile.Proofs.Observation
import Mathlib.Data.List.Induction

/-!
# Looking up commands

A context keeps functions and macros under the names in their signatures, and a
name is looked up by its small letters. The two meet because every signature is
in small letters, whether it is made for a name or read off the arguments of a
definition.

* `Signature.WrittenAs.eq` — both ways of making a signature come to the same;
* `Context.signature?_define` — what one definition does to a look-up;
* `Context.signature?_performAll` — a look-up finds the last definition of a
  history;
* `lookup_of_history` — which commands there are after a history, and what is
  found under their names.
-/

namespace Listfile

open Text

/-! ## Histories -/

/-- `s.WrittenAs name params`: the signature is made for this name and these
parameters as they were written, by themselves or as the arguments of a
definition. -/
inductive Signature.WrittenAs : Signature → String → List String → Prop
  | named (name : String) (params : List String) : WrittenAs (.named name params) name params
  | arguments {s : Signature} {first : Token} {rest : List Token}
      (h : Arguments.ofSignature (first :: rest) = .ok (.signature s)) :
      WrittenAs s first.value (rest.map (·.value))

/-- The commands that can be defined. -/
inductive CommandKind where
  | function
  | macro_
  deriving DecidableEq

/-- A definition of a command: its signature, and the name and the parameters
that the signature was made for. -/
structure Definition where
  kind : CommandKind
  name : String
  params : List String
  signature : Signature
  written : signature.WrittenAs name params

/-- What can be done to a context. -/
inductive Action where
  | setVar (name value : String)
  | unsetVar (name : String)
  | setEnv (name value : String)
  | setCache (name value : String)
  | define (d : Definition)

/-- The definition that an action is. -/
def Action.definition? : Action → Option Definition
  | .define d => some d
  | _ => none

theorem Action.eq_define {a : Action} {d : Definition} (h : a.definition? = some d) :
    a = .define d := by
  cases a with
  | define d' => exact congrArg Action.define (Option.some.inj h)
  | _ => cases h

/-- The definitions of a history, in order. -/
def definitions (history : List Action) : List Definition :=
  history.filterMap Action.definition?

/-- Actions that are no definitions do not count. -/
theorem definitions_filter (history : List Action) :
    definitions (history.filter (·.definition?.isSome)) = definitions history := by
  rw [definitions, definitions, List.filterMap_filter]
  refine List.filterMap_congr fun a _ => ?_
  cases a.definition? <;> rfl

/-- Whether a definition is of this kind and name, whatever the case of the
name. -/
def Definition.isFor (kind : CommandKind) (name : String) (d : Definition) : Bool :=
  d.kind = kind && sameWord d.name name

/-- The last definition of this kind and name. -/
def lastDefinition? (kind : CommandKind) (name : String) (history : List Action) :
    Option Definition :=
  ((definitions history).filter (·.isFor kind name)).getLast?

namespace Context

/-- The context after a definition. -/
def define (ctx : Context) (d : Definition) : Context :=
  match d.kind with
  | .function => ctx.defineFunction d.signature
  | .macro_ => ctx.defineMacro d.signature

/-- The context after an action. -/
def perform (ctx : Context) : Action → Context
  | .setVar name value => ctx.setVar name value
  | .unsetVar name => ctx.unsetVar name
  | .setEnv name value => ctx.setEnv name value
  | .setCache name value => ctx.setCache name value
  | .define d => ctx.define d

/-- The context after a history. -/
def performAll (ctx : Context) (history : List Action) : Context :=
  history.foldl perform ctx

/-- The signature of a command of this kind. -/
def signature? (ctx : Context) : CommandKind → String → Option Signature
  | .function => ctx.function?
  | .macro_ => ctx.macro?

end Context

/-! ## One action -/

/-- However a signature is made, its name is in small letters and its parameters
are as they were written. -/
theorem Signature.WrittenAs.eq {s : Signature} {name : String} {params : List String}
    (h : s.WrittenAs name params) : s = .named name params := by
  cases h with
  | named => rfl
  | arguments h =>
      unfold Arguments.ofSignature at h
      split at h
      · cases h
      · rename_i heq
        obtain ⟨rfl, rfl⟩ := List.cons.inj heq
        split at h
        · cases h
        · split at h
          · cases h
          · cases h
            rfl

/-- What a table binds to a key after a binding. -/
theorem getElem?_insert_eq_ite {β : Type} (bindings : Std.TreeMap String β) (key other : String)
    (bound : β) : (bindings.insert key bound)[other]? =
      if key = other then some bound else bindings[other]? := by
  by_cases h : key = other
  · subst h
    rw [if_pos rfl, Std.TreeMap.getElem?_insert_self]
  · rw [if_neg h, getElem?_insert_of_ne bindings bound h]

theorem Definition.isFor_iff {d : Definition} {kind : CommandKind} {name : String} :
    d.isFor kind name = true ↔ d.kind = kind ∧ lower d.name = lower name := by
  rw [isFor, Bool.and_eq_true, decide_eq_true_iff]
  exact and_congr_right fun _ => beq_iff_eq

namespace Context

variable (ctx : Context) (kind : CommandKind) (name : String)

theorem isCommand_iff :
    ctx.isCommand name = true ↔ ∃ kind, (ctx.signature? kind name).isSome = true := by
  rw [isCommand, Bool.or_eq_true]
  constructor
  · rintro (h | h)
    · exact ⟨.function, h⟩
    · exact ⟨.macro_, h⟩
  · rintro ⟨kind, h⟩
    cases kind with
    | function => exact .inl h
    | macro_ => exact .inr h

/-- A definition is found under its name and hides what was there, and no other
look-up notices it. -/
theorem signature?_define (d : Definition) : (ctx.define d).signature? kind name =
    if d.isFor kind name then some d.signature else ctx.signature? kind name := by
  obtain ⟨kind', name', params, s, hwritten⟩ := d
  obtain rfl := hwritten.eq
  simp only [Definition.isFor_iff]
  -- The key is the name in small letters, as it is in the signature.
  cases kind' with
  | function =>
      cases kind with
      | function =>
          simp only [true_and]
          exact getElem?_insert_eq_ite ctx.scope.functions (lower name') (lower name) _
      | macro_ => simp only [reduceCtorEq, false_and, if_false]; rfl
  | macro_ =>
      cases kind with
      | function => simp only [reduceCtorEq, false_and, if_false]; rfl
      | macro_ =>
          simp only [true_and]
          exact getElem?_insert_eq_ite ctx.scope.macros (lower name') (lower name) _

/-- Binding variables changes no look-up. -/
theorem signature?_perform {a : Action} (h : a.definition? = none) :
    (ctx.perform a).signature? kind name = ctx.signature? kind name := by
  cases a with
  | define d => cases h
  | _ => cases kind <;> rfl

/-! ## Histories of actions -/

theorem performAll_concat (history : List Action) (a : Action) :
    ctx.performAll (history ++ [a]) = (ctx.performAll history).perform a :=
  List.foldl_concat ..

/-- After a history its last definition is found, or what was there before if it
has none. -/
theorem signature?_performAll (history : List Action) :
    (ctx.performAll history).signature? kind name =
      ((lastDefinition? kind name history).map (·.signature)).or (ctx.signature? kind name) := by
  induction history using List.reverseRecOn with
  | nil => rfl
  | append_singleton history a ih =>
      rw [performAll_concat]
      cases hdefinition : a.definition? with
      | none =>
          have hsame : definitions (history ++ [a]) = definitions history := by
            simp [definitions, hdefinition]
          rw [signature?_perform _ kind name hdefinition, ih, lastDefinition?, lastDefinition?,
            hsame]
      | some d =>
          have hlast : definitions (history ++ [a]) = definitions history ++ [d] := by
            simp [definitions, hdefinition]
          obtain rfl := a.eq_define hdefinition
          show ((ctx.performAll history).define d).signature? kind name = _
          rw [signature?_define, ih, lastDefinition?, lastDefinition?, hlast, List.filter_append]
          by_cases hfor : d.isFor kind name = true
          · rw [if_pos hfor, List.filter_singleton, hfor, cond_true, List.getLast?_concat]
            rfl
          · rw [if_neg hfor, List.filter_singleton, Bool.eq_false_iff.mpr hfor, cond_false,
              List.append_nil]

end Context

theorem isSome_lastDefinition?_iff {kind : CommandKind} {name : String} {history : List Action} :
    (lastDefinition? kind name history).isSome = true ↔
      ∃ d ∈ definitions history, d.isFor kind name = true := by
  rw [lastDefinition?, List.getLast?_isSome, ne_eq, List.filter_eq_nil_iff]
  simp only [not_forall, not_not, exists_prop]

/-- What is found under a name is its last definition, in small letters and with
the parameters as they were written. -/
theorem map_signature_lastDefinition? (kind : CommandKind) (name : String)
    (history : List Action) : (lastDefinition? kind name history).map (·.signature) =
      (lastDefinition? kind name history).map fun d => ⟨lower name, d.params⟩ := by
  refine Option.map_congr fun d hd => ?_
  have hmem := List.mem_of_getLast? hd
  obtain ⟨-, hname⟩ := Definition.isFor_iff.mp (List.mem_filter.mp hmem).2
  rw [d.written.eq, Signature.named, hname]

/-- A lone `COMMAND` asks whether there is a command of the name of its
argument. -/
theorem evaluate_command (engine : PatternEngine) (ctx : Context) (place : Location) {arg : Token}
    (h : arg.isArgument = true) :
    evaluate engine ctx [⟨.raw, "COMMAND", place⟩, arg] = .ok (ctx.isCommand arg.value) := by
  have hoperator : Token.operator? ⟨.raw, "COMMAND", place⟩ = some (.predicate .command) :=
    Token.operator?_of_name rfl rfl
  have hterm : Derives .term Condition.maxDepth [⟨.raw, "COMMAND", place⟩, arg]
      (.test (.predicate .command arg)) := .predicate hoperator h
  exact (Derives.single hterm).evaluate_eq_ok rfl

/-- **Commands are looked up whatever the case of their names.** After any
history of a fresh context, a name is a command exactly if a function or macro
was defined under it in some case, and `COMMAND` tells so. What is found are the
parameters of the last such definition of the kind. Nothing else that was done
to the context matters. -/
theorem lookup_of_history (engine : PatternEngine) (probe : Probe) (outer : List Scope)
    (history : List Action) (name : String) :
    let fresh := Context.mk (.empty probe) outer
    let ctx := fresh.performAll history
    (ctx.isCommand name = true ↔ ∃ d ∈ definitions history, sameWord d.name name = true) ∧
    (∀ place arg, arg.isArgument = true → arg.value = name →
      evaluate engine ctx [⟨.raw, "COMMAND", place⟩, arg] = .ok (ctx.isCommand name)) ∧
    (∀ kind, ctx.signature? kind name =
      (lastDefinition? kind name history).map fun d => ⟨lower name, d.params⟩) ∧
    (∀ kind, ctx.signature? kind name =
      (fresh.performAll (history.filter (·.definition?.isSome))).signature? kind name) := by
  intro fresh ctx
  have hfresh : ∀ kind, fresh.signature? kind name = none := fun kind => by
    cases kind <;> exact Std.TreeMap.getElem?_emptyc
  have hfound : ∀ kind history, (fresh.performAll history).signature? kind name =
      (lastDefinition? kind name history).map fun d => ⟨lower name, d.params⟩ := by
    intro kind history
    rw [Context.signature?_performAll, hfresh, Option.or_none, map_signature_lastDefinition?]
  refine ⟨?_, ?_, fun kind => hfound kind history, fun kind => ?_⟩
  · simp only [Context.isCommand_iff, ctx, hfound, Option.isSome_map, isSome_lastDefinition?_iff]
    constructor
    · rintro ⟨kind, d, hd, hfor⟩
      exact ⟨d, hd, beq_iff_eq.mpr (Definition.isFor_iff.mp hfor).2⟩
    · rintro ⟨d, hd, hname⟩
      exact ⟨d.kind, d, hd, Definition.isFor_iff.mpr ⟨rfl, beq_iff_eq.mp hname⟩⟩
  · rintro place arg harg rfl
    exact evaluate_command engine ctx place harg
  · rw [hfound, hfound, lastDefinition?, lastDefinition?, definitions_filter]

/-- A function is defined twice in different cases, with a variable of its name
bound in between, and a macro by the arguments of its definition. The function
is looked up in a third case. -/
theorem lookup_of_history_of_redefinition :
    let token (value : String) : Token := ⟨.raw, value, ⟨1, 1, ⟨0, 0⟩⟩⟩
    let arg : Token := ⟨.bracketed, "my_FUNC", ⟨1, 1, ⟨0, 0⟩⟩⟩
    let defined : Arguments.ofSignature [token "Helper", token "a", token "B"] =
        .ok (.signature ⟨"helper", ["a", "B"]⟩) := by decide +kernel
    let history : List Action :=
      [.define ⟨.function, "My_Func", ["x"], _, .named _ _⟩, .setVar "my_func" "OFF",
        .define ⟨.macro_, "Helper", ["a", "B"], _, .arguments defined⟩,
        .define ⟨.function, "MY_FUNC", ["Y", "z"], _, .named _ _⟩, .unsetVar "my_func"]
    let engine : PatternEngine := fun _ => .ok fun _ => false
    let probe : Probe := fun _ => .ok false
    let ctx := (Context.mk (.empty probe) []).performAll history
    arg.isArgument = true ∧ arg.value = "my_FUNC" ∧
      evaluate engine ctx [⟨.raw, "COMMAND", arg.location⟩, arg] = .ok true ∧
      ctx.signature? .function "my_FUNC" = some ⟨"my_func", ["Y", "z"]⟩ ∧
      ctx.signature? .macro_ "my_FUNC" = none ∧
      ctx.signature? .macro_ "HELPER" = some ⟨"helper", ["a", "B"]⟩ := by
  intro token arg defined history engine probe ctx
  obtain ⟨hcommand, hpredicate, hfound, -⟩ := lookup_of_history engine probe [] history "my_FUNC"
  obtain ⟨-, -, hhelper, -⟩ := lookup_of_history engine probe [] history "HELPER"
  have hdefined : ctx.isCommand "my_FUNC" = true :=
    hcommand.mpr ⟨_, List.mem_cons_self, by decide +kernel⟩
  have hvalue := hpredicate arg.location arg rfl rfl
  rw [hdefined] at hvalue
  refine ⟨rfl, rfl, hvalue, (hfound .function).trans ?_, (hfound .macro_).trans ?_,
    (hhelper .macro_).trans ?_⟩
  · decide +kernel
  · decide +kernel
  · decide +kernel

end Listfile
