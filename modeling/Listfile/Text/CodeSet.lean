/-!
# Sets of code points

The Unicode properties of this library are sets of code points written as
boundary lists: ascending code points at which membership changes, starting
outside the set.
-/

namespace Listfile.Text

/-- A set of code points, given by the ascending code points at which
membership changes. Below the first one nothing is a member. -/
structure CodeSet where
  bounds : List Nat
  deriving DecidableEq

namespace CodeSet

/-- Whether an odd number of the ascending `bounds` is at most `n`. -/
def inside (n : Nat) : List Nat → Bool
  | [] => false
  | b :: bounds => if n < b then false else !inside n bounds

/-- Whether the set holds the character. -/
def contains (s : CodeSet) (c : Char) : Bool :=
  inside c.toNat s.bounds

end CodeSet

end Listfile.Text
