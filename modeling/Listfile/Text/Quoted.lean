import Listfile.Text.Visible

/-!
# Quoted text

Messages and dumps show a text between double quotes, on one line and with
nothing invisible in it: six characters have a two-character escape, and every
other character that is not visible is written by its number.
-/

namespace Listfile.Text

/-- A character by its number, in lower-case hexadecimal without padding. -/
def numbered (c : Char) : List Char :=
  '\\' :: 'u' :: '{' :: (Nat.toDigits 16 c.toNat ++ ['}'])

/-- A character as it stands in quoted text. The single quote is not
escaped. -/
def quotedChar (c : Char) : List Char :=
  if c = '\t' then ['\\', 't']
  else if c = '\r' then ['\\', 'r']
  else if c = '\n' then ['\\', 'n']
  else if c = '\x00' then ['\\', '0']
  else if c = '\\' then ['\\', '\\']
  else if c = '"' then ['\\', '"']
  else if isVisible c then [c]
  else numbered c

/-- A text between double quotes. -/
def quote (s : String) : String :=
  String.ofList ('"' :: (s.toList.flatMap quotedChar ++ ['"']))

end Listfile.Text
