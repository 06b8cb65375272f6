import Listfile.Signature
import Std.Data.TreeMap

/-!
# Contexts

A context holds what references and conditions are evaluated against: normal
variables, environment and cache variables, the commands defined so far, and a
probe that tells whether a path exists. Scopes nest, but evaluation looks at
the innermost one only.
-/

namespace Listfile

open Text

/-- The three stores a reference can name. -/
inductive Store where
  | variables
  | environment
  | cache
  deriving DecidableEq

/-- Tells whether a path exists, or why that cannot be told. -/
abbrev Probe := String → Except String Bool

/-- One scope: variables, definitions and the probe. -/
structure Scope where
  vars : Std.TreeMap String String
  env : Std.TreeMap String String
  cache : Std.TreeMap String String
  functions : Std.TreeMap String Signature
  macros : Std.TreeMap String Signature
  probe : Probe

/-- A scope in which nothing is bound. Paths are looked up with the given probe. -/
def Scope.empty (probe : Probe) : Scope :=
  ⟨∅, ∅, ∅, ∅, ∅, probe⟩

/-- A scope and the scopes around it, the nearest first. -/
structure Context where
  scope : Scope
  outer : List Scope

namespace Context

/-- A context in which nothing is bound. -/
def empty (probe : Probe) : Context :=
  ⟨.empty probe, []⟩

/-- An empty scope inside this one. It takes over nothing, not even the probe. -/
def push (ctx : Context) (probe : Probe) : Context :=
  ⟨.empty probe, ctx.scope :: ctx.outer⟩

/-- The context around this one. -/
def parent? (ctx : Context) : Option Context :=
  match ctx.outer with
  | [] => none
  | scope :: outer => some ⟨scope, outer⟩

/-- Binds a normal variable. -/
def setVar (ctx : Context) (name value : String) : Context :=
  { ctx with scope := { ctx.scope with vars := ctx.scope.vars.insert name value } }

/-- Unbinds a normal variable. -/
def unsetVar (ctx : Context) (name : String) : Context :=
  { ctx with scope := { ctx.scope with vars := ctx.scope.vars.erase name } }

/-- Binds an environment variable. -/
def setEnv (ctx : Context) (name value : String) : Context :=
  { ctx with scope := { ctx.scope with env := ctx.scope.env.insert name value } }

/-- Binds a cache variable. -/
def setCache (ctx : Context) (name value : String) : Context :=
  { ctx with scope := { ctx.scope with cache := ctx.scope.cache.insert name value } }

/-- Registers a function under the name in its signature. -/
def defineFunction (ctx : Context) (s : Signature) : Context :=
  { ctx with scope := { ctx.scope with functions := ctx.scope.functions.insert s.name s } }

/-- Registers a macro under the name in its signature. -/
def defineMacro (ctx : Context) (s : Signature) : Context :=
  { ctx with scope := { ctx.scope with macros := ctx.scope.macros.insert s.name s } }

/-- The same context with another probe. -/
def withProbe (ctx : Context) (probe : Probe) : Context :=
  { ctx with scope := { ctx.scope with probe } }

/-- The value of a normal variable. -/
def var? (ctx : Context) (name : String) : Option String :=
  ctx.scope.vars[name]?

/-- The value of an environment variable. -/
def env? (ctx : Context) (name : String) : Option String :=
  ctx.scope.env[name]?

/-- The value of a cache variable. -/
def cache? (ctx : Context) (name : String) : Option String :=
  ctx.scope.cache[name]?

/-- The value that a store binds to a name. -/
def lookup (ctx : Context) : Store → String → Option String
  | .variables => ctx.var?
  | .environment => ctx.env?
  | .cache => ctx.cache?

/-- The signature of a function, whatever the case of the name. -/
def function? (ctx : Context) (name : String) : Option Signature :=
  ctx.scope.functions[lower name]?

/-- The signature of a macro, whatever the case of the name. -/
def macro? (ctx : Context) (name : String) : Option Signature :=
  ctx.scope.macros[lower name]?

/-- Whether a function or macro of the name is defined. -/
def isCommand (ctx : Context) (name : String) : Bool :=
  (ctx.function? name).isSome || (ctx.macro? name).isSome

/-- Whether the path exists, as far as the probe can tell. -/
def pathExists (ctx : Context) (path : String) : Except String Bool :=
  ctx.scope.probe path

end Context

end Listfile
