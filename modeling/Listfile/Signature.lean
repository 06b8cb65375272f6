import Listfile.Text.Ascii
import Listfile.Token

/-!
# Signatures and interpreted arguments

The arguments of a definition are a name followed by parameter names, those of
a conditional are a condition. Arguments that may still refer to variables
cannot be interpreted before these are known and stay as they are.
-/

namespace Listfile

open Text

/-- The name and the parameters of a function or macro. Command names
disregard case, so the name is kept in small letters. -/
structure Signature where
  name : String
  params : List String
  deriving DecidableEq

/-- The signature of a name as it was written. -/
def Signature.named (name : String) (params : List String) : Signature :=
  ⟨lower name, params⟩

/-- Why arguments are no signature. -/
inductive SignatureFault where
  | empty
  | invalidIdentifier (value : String)
  deriving DecidableEq

/-- What is wrong with the arguments. -/
def SignatureFault.message : SignatureFault → String
  | .empty => "argument list must not be empty"
  | .invalidIdentifier value => "argument list has invalid identifier '" ++ value ++ "'"

/-- The arguments of a block, interpreted as far as they can be. -/
inductive Arguments where
  /-- Arguments left as they are. -/
  | unparsed (tokens : List Token)
  /-- A condition that refers to no variable. -/
  | condition (tokens : List Token)
  /-- The signature of a definition. -/
  | signature (signature : Signature)
  deriving DecidableEq

/-- Whether a token is subject to expansion and may refer to a variable. -/
def Token.isUnresolved (t : Token) : Bool :=
  (t.kind = .raw || t.kind = .quoted) && t.hasReference

namespace Arguments

/-- The tokens of arguments that are still tokens. -/
def tokens? : Arguments → Option (List Token)
  | .unparsed tokens => some tokens
  | .condition tokens => some tokens
  | .signature _ => none

/-- The arguments of `if`, `elseif` and `while`. -/
def ofCondition (tokens : List Token) : Arguments :=
  if tokens.any (·.isUnresolved) then .unparsed tokens else .condition tokens

/-- The arguments of `function` and `macro`. -/
def ofSignature (tokens : List Token) : Except SignatureFault Arguments :=
  match tokens with
  | [] => .error .empty
  | name :: params =>
    if tokens.any (·.isUnresolved) then .ok (.unparsed tokens)
    else
      match tokens.find? (!isIdentifier ·.value) with
      | some bad => .error (.invalidIdentifier bad.value)
      | none => .ok (.signature (.named name.value (params.map (·.value))))

end Arguments

end Listfile
