/-!
# ASCII words

Command names compare without regard to the case of ASCII letters, and names
of commands and parameters are ASCII identifiers. Letters outside ASCII are
never folded and never part of an identifier.
-/

namespace Listfile.Text

/-- A text with every ASCII capital replaced by the small letter. -/
def lower (s : String) : String :=
  String.ofList (s.toList.map Char.toLower)

/-- A text with every ASCII small letter replaced by the capital. -/
def upper (s : String) : String :=
  String.ofList (s.toList.map Char.toUpper)

/-- Equality of texts that disregards the case of ASCII letters. -/
def sameWord (a b : String) : Bool :=
  lower a == lower b

/-- A letter or underscore, with which an identifier starts. -/
def isWordStart (c : Char) : Bool :=
  c.isAlpha || c == '_'

/-- A letter, digit or underscore, with which an identifier continues. -/
def isWordPart (c : Char) : Bool :=
  c.isAlphanum || c == '_'

/-- Whether a text is a letter or underscore followed by letters, digits and
underscores, all of them ASCII. -/
def isIdentifier (s : String) : Bool :=
  match s.toList with
  | [] => false
  | c :: cs => isWordStart c && cs.all isWordPart

end Listfile.Text
