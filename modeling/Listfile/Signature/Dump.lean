import Listfile.Signature
import Listfile.Token.Dump

/-!
# Dumps of signatures and arguments

How signatures and interpreted arguments look on display.
-/

namespace Listfile

open Text

/-- A signature on display. -/
def Signature.dump (s : Signature) : Dump :=
  .record "CallSignature" [("name", .string s.name), ("params", .list (s.params.map .string))]

/-- Interpreted arguments on display. -/
def Arguments.dump : Arguments → Dump
  | .unparsed tokens => .wrapped "Unparsed" (.list (tokens.map Token.dump))
  | .condition tokens => .wrapped "Condition" (.list (tokens.map Token.dump))
  | .signature s => .wrapped "CallSignature" s.dump

end Listfile
