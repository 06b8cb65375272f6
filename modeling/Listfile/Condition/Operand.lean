import Listfile.Condition.Constant
import Listfile.Text.Blank

/-!
# What comparisons compare

The operands of a comparison are texts. Numeric comparisons read them as
64-bit integers, version comparisons as four numbers, and path comparisons
disregard the direction and the number of slashes.
-/

namespace Listfile

open Text

/-- The number of a non-empty run of digits. -/
def natural? (digits : List Char) : Option Nat :=
  if !digits.isEmpty && digits.all Char.isDigit then some (numberOf digits) else none

/-- Reads a 64-bit signed integer with an optional sign; blanks around it do
not count. -/
def integer? (value : String) : Option Int :=
  let (negative, digits) := dropSign (trim value.toList)
  match natural? digits with
  | none => none
  | some n =>
    let i : Int := if negative then -(n : Int) else n
    if -0x8000000000000000 ≤ i ∧ i < 0x8000000000000000 then some i else none

/-- One component of a version: a 64-bit number with an optional plus, and
zero for anything else. -/
def versionComponent (part : List Char) : Nat :=
  let digits := match part with
    | '+' :: cs => cs
    | cs => cs
  match natural? digits with
  | none => 0
  | some n => if n < 0x10000000000000000 then n else 0

/-- The four components of a version. Missing ones are zero, further ones do
not count. -/
def version (value : String) : List Nat :=
  let components := ((value.toList.splitOn '.').map versionComponent).take 4
  components ++ List.replicate (4 - components.length) 0

/-- A path with every run of slashes and backslashes made one slash. `inRun`
says that the character before was one of them. -/
def collapseSlashes (inRun : Bool) : List Char → List Char
  | [] => []
  | c :: cs =>
    if c == '/' || c == '\\' then
      if inRun then collapseSlashes true cs else '/' :: collapseSlashes true cs
    else c :: collapseSlashes false cs

/-- The form in which paths are compared. -/
def normalizePath (path : String) : String :=
  String.ofList (collapseSlashes false path.toList)

end Listfile
