import Listfile.Text.Ascii

/-!
# Constants

Some texts are true or false by themselves: decimal numerals and a few words.
A numeral counts as a double-precision number does, so one that rounds to zero
is false.
-/

namespace Listfile

open Text

/-- The value of a digit. -/
def digitValue (c : Char) : Nat :=
  c.toNat - '0'.toNat

/-- The number that digits write. -/
def numberOf (digits : List Char) : Nat :=
  digits.foldl (fun n c => 10 * n + digitValue c) 0

/-- A decimal numeral without its sign: `mantissa` times ten to the power of
`exponent`. -/
structure Numeral where
  mantissa : Nat
  exponent : Int
  deriving DecidableEq

/-- A text without the sign in front of it, and whether that sign is minus. -/
def dropSign : List Char → Bool × List Char
  | '-' :: cs => (true, cs)
  | '+' :: cs => (false, cs)
  | cs => (false, cs)

/-- The number that the digits of an exponent write. It is saturated: once it
has reached 65536, further digits change nothing. -/
def exponentOf (digits : List Char) : Nat :=
  digits.foldl (fun n c => if n < 0x10000 then 10 * n + digitValue c else n) 0

/-- The exponent part of a numeral, which may be missing. -/
def exponent? : List Char → Option Int
  | [] => some 0
  | c :: cs =>
    let (negative, digits) := dropSign cs
    if (c == 'e' || c == 'E') && !digits.isEmpty && digits.all Char.isDigit then
      some (if negative then -(exponentOf digits : Int) else exponentOf digits)
    else none

namespace Numeral

/-- Reads a numeral: an optional sign, digits with an optional point and at
least one digit, and an optional exponent. -/
def read? (cs : List Char) : Option Numeral :=
  let unsigned := (dropSign cs).2
  let whole := unsigned.takeWhile Char.isDigit
  let afterWhole := unsigned.dropWhile Char.isDigit
  let (fraction, rest) := match afterWhole with
    | '.' :: cs => (cs.takeWhile Char.isDigit, cs.dropWhile Char.isDigit)
    | cs => ([], cs)
  if whole.isEmpty && fraction.isEmpty then none
  else
    (exponent? rest).map fun exponent => ⟨numberOf (whole ++ fraction), exponent - fraction.length⟩

/-- Whether the nearest double-precision number is zero. The smallest positive
one is two to the power of -1074; half of it is a tie, which goes to zero. -/
def roundsToZero (n : Numeral) : Bool :=
  match n.exponent with
  | .ofNat _ => n.mantissa == 0
  | .negSucc k => n.mantissa * Nat.pow 2 1075 ≤ Nat.pow 10 (k + 1)

end Numeral

/-- The truth of a constant; other texts have none. Words disregard case. -/
def constant? (value : String) : Option Bool :=
  match Numeral.read? value.toList with
  | some n => some (!n.roundsToZero)
  | none =>
    let word := upper value
    if ["ON", "YES", "TRUE", "Y"].contains word then some true
    else if ["", "OFF", "NO", "FALSE", "N", "IGNORE", "NOTFOUND"].contains word then some false
    else if "-NOTFOUND".toList.isSuffixOf word.toList then some false
    else none

end Listfile
