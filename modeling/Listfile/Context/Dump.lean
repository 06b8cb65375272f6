import Listfile.Context
import Listfile.Signature.Dump

/-!
# Dumps of contexts

How a context looks on display: its scopes from the inside out, and never a
probe.
-/

namespace Listfile

open Text

/-- A scope on display, inside the scopes that are shown as `parent`. -/
def Scope.dump (parent : Option Dump) (s : Scope) : Dump :=
  .openRecord "Context"
    [("parent", .option parent), ("vars", .table (s.vars.toList.map fun (n, v) => (n, .string v))),
      ("env", .table (s.env.toList.map fun (n, v) => (n, .string v))),
      ("cache", .table (s.cache.toList.map fun (n, v) => (n, .string v))),
      ("functions", .table (s.functions.toList.map fun (n, v) => (n, v.dump))),
      ("macros", .table (s.macros.toList.map fun (n, v) => (n, v.dump)))]

/-- A context on display. -/
def Context.dump (ctx : Context) : Dump :=
  ctx.scope.dump (ctx.outer.foldr (fun scope parent => some (scope.dump parent)) none)

end Listfile
