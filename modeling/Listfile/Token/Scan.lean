import Listfile.Text.Blank
import Listfile.Token

/-!
# Scanning

`scan` cuts a text into tokens. Between tokens it skips blanks; at any other
character it reads one `Lexeme`: the characters taken, what they mean, and the
characters left. Reading never fails: a text from which no token can be read
becomes one unparseable lexeme that takes all that is left.

* `Lexeme.text_append_rest` — a lexeme takes a piece off the front and loses
  nothing;
* `Lexeme.text_ne_nil` — that piece is never empty, so scanning ends.
-/

namespace Listfile

open Text

/-! ## Long brackets -/

/-- The fill and the inside of a text that starts with a long bracket opener,
that is, with `[`, a number of `=`, and `[`. -/
def bracketOpener : List Char → Option (Nat × List Char)
  | '[' :: cs =>
    match cs.dropWhile (· == '=') with
    | '[' :: body => some ((cs.takeWhile (· == '=')).length, body)
    | _ => none
  | _ => none

/-- The long bracket that opens with the given fill. -/
def openingBracket (fill : Nat) : List Char :=
  '[' :: (List.replicate fill '=' ++ ['['])

/-- The long bracket that closes the given fill. -/
def closingBracket (fill : Nat) : List Char :=
  ']' :: (List.replicate fill '=' ++ [']'])

/-- What stands before and after the first occurrence of `mark`. -/
def splitAtFirst (mark : List Char) : List Char → Option (List Char × List Char)
  | [] => none
  | c :: cs =>
    if mark.isPrefixOf (c :: cs) then some ([], (c :: cs).drop mark.length)
    else (splitAtFirst mark cs).map fun (before, after) => (c :: before, after)

/-- A text without one line break at its front. -/
def dropLineBreak : List Char → List Char
  | '\r' :: '\n' :: cs => cs
  | '\n' :: cs => cs
  | cs => cs

/-- A complete long bracket at the front of a text. -/
structure Bracket where
  fill : Nat
  content : List Char
  rest : List Char

namespace Bracket

/-- Reads a complete long bracket: the first closer of the opener's fill ends
it. -/
def read? (cs : List Char) : Option Bracket :=
  match bracketOpener cs with
  | none => none
  | some (fill, body) =>
    (splitAtFirst (closingBracket fill) body).map fun (content, rest) => ⟨fill, content, rest⟩

/-- The characters of the bracket as they stand in the source. -/
def text (b : Bracket) : List Char :=
  openingBracket b.fill ++ (b.content ++ closingBracket b.fill)

/-- What the bracket says: its content without one leading line break. -/
def value (b : Bracket) : List Char :=
  dropLineBreak b.content

end Bracket

/-! ## Unquoted and quoted text -/

/-- The characters that end unquoted text. -/
def isDelimiter (c : Char) : Bool :=
  c == ' ' || c == '\t' || c == '\r' || c == '\n' || c == '(' || c == ')' ||
    c == '"' || c == '#' || c == ';'

/-- The unquoted text at the front, and what follows it. A backslash takes the
next character with it; one that ends the input is left. -/
def spanRaw : List Char → List Char × List Char
  | [] => ([], [])
  | ['\\'] => ([], ['\\'])
  | '\\' :: c :: cs =>
    let (front, back) := spanRaw cs
    ('\\' :: c :: front, back)
  | c :: cs =>
    if isDelimiter c then ([], c :: cs)
    else
      let (front, back) := spanRaw cs
      (c :: front, back)

/-- The body of quoted text up to the closing quote, and what follows the
quote. A backslash takes the next character with it. -/
def quotedBody : List Char → Option (List Char × List Char)
  | [] => none
  | ['\\'] => none
  | '\\' :: c :: cs => (quotedBody cs).map fun (body, rest) => ('\\' :: c :: body, rest)
  | c :: cs =>
    if c = '"' then some ([], cs)
    else (quotedBody cs).map fun (body, rest) => (c :: body, rest)

/-- A quoted body without its line continuations: an escaping backslash and
the line break after it are dropped, every other escape pair stays. -/
def joinLines : List Char → List Char
  | [] => []
  | '\\' :: '\r' :: '\n' :: cs => joinLines cs
  | '\\' :: '\n' :: cs => joinLines cs
  | '\\' :: c :: cs => '\\' :: c :: joinLines cs
  | c :: cs => c :: joinLines cs

/-- A line without the carriage return that ends it. -/
def dropFinalReturn (cs : List Char) : List Char :=
  if cs.getLast? = some '\r' then cs.dropLast else cs

/-! ## Lexemes -/

/-- One token's worth of source: its kind, the characters it takes, what they
mean, and what is left. -/
structure Lexeme where
  kind : Kind
  text : List Char
  value : List Char
  rest : List Char

namespace Lexeme

/-- A lexeme of one character. -/
def single (kind : Kind) (c : Char) (cs : List Char) : Lexeme :=
  ⟨kind, [c], [c], cs⟩

/-- All that is left, as an unparseable region. -/
def unparseable (cs : List Char) : Lexeme :=
  ⟨.unparseable, cs, [], []⟩

/-- Unquoted text. It is an unmatched bracket when it starts like a long
bracket, and unparseable when there is nothing to take. -/
def raw (cs : List Char) : Lexeme :=
  match spanRaw cs with
  | ([], _) => unparseable cs
  | (text, rest) =>
    ⟨if (bracketOpener cs).isSome then .unmatchedBracket else .raw, text, text, rest⟩

/-- Text after an opening quote. -/
def quoted (cs : List Char) : Lexeme :=
  match quotedBody cs with
  | some (body, rest) => ⟨.quoted, '"' :: (body ++ ['"']), joinLines body, rest⟩
  | none => unparseable ('"' :: cs)

/-- Text after a `#`: a bracket comment, the opener of one that is never
closed, or a comment up to the end of the line. -/
def hash (cs : List Char) : Lexeme :=
  if (bracketOpener cs).isSome then
    match Bracket.read? cs with
    | some b => ⟨.comment, '#' :: b.text, b.value, b.rest⟩
    | none =>
      let (text, rest) := spanRaw cs
      ⟨.unmatchedBracket, '#' :: text, '#' :: text, rest⟩
  else
    let line := cs.takeWhile (· != '\n')
    ⟨.comment, '#' :: line, dropFinalReturn line, cs.dropWhile (· != '\n')⟩

/-- Text that starts with `[`: a bracket argument if it is complete, unquoted
text otherwise. -/
def bracket (cs : List Char) : Lexeme :=
  match Bracket.read? cs with
  | some b => ⟨.bracketed, b.text, b.value, b.rest⟩
  | none => raw cs

/-- The lexeme that starts with the character `c` and goes on into `cs`. -/
def read (c : Char) (cs : List Char) : Lexeme :=
  match c with
  | '(' => single .leftParen c cs
  | ')' => single .rightParen c cs
  | ';' => single .semicolon c cs
  | '"' => quoted cs
  | '#' => hash cs
  | '[' => bracket (c :: cs)
  | _ => raw (c :: cs)

end Lexeme

/-! ## Lexemes lose nothing -/

theorem openingBracket_append_of_bracketOpener {cs body : List Char} {fill : Nat}
    (h : bracketOpener cs = some (fill, body)) : openingBracket fill ++ body = cs := by
  unfold bracketOpener at h
  split at h
  · rename_i tail
    split at h
    · rename_i body' hdrop
      simp only [Option.some.injEq, Prod.mk.injEq] at h
      obtain ⟨rfl, rfl⟩ := h
      have hfill : tail.takeWhile (· == '=')
          = List.replicate (tail.takeWhile (· == '=')).length '=' := by
        apply List.eq_replicate_of_mem
        intro b hb
        simpa using List.all_eq_true.mp (List.all_takeWhile (l := tail) (p := (· == '='))) b hb
      have hsplit := List.takeWhile_append_dropWhile (p := (· == '=')) (l := tail)
      rw [hdrop] at hsplit
      simp only [openingBracket, List.cons_append, List.append_assoc, List.nil_append]
      rw [← hfill, hsplit]
    · simp at h
  · simp at h

theorem append_of_splitAtFirst {mark cs before after : List Char}
    (h : splitAtFirst mark cs = some (before, after)) : before ++ (mark ++ after) = cs := by
  induction cs generalizing before with
  | nil => simp [splitAtFirst] at h
  | cons c cs ih =>
    unfold splitAtFirst at h
    split at h
    · rename_i hmark
      simp only [Option.some.injEq, Prod.mk.injEq] at h
      obtain ⟨rfl, rfl⟩ := h
      obtain ⟨t, ht⟩ := List.isPrefixOf_iff_prefix.mp hmark
      rw [← ht]
      simp
    · obtain ⟨⟨b, a⟩, hs, hp⟩ := Option.map_eq_some_iff.mp h
      simp only [Prod.mk.injEq] at hp
      obtain ⟨rfl, rfl⟩ := hp
      simp [ih hs]

theorem Bracket.text_append_rest {cs : List Char} {b : Bracket} (h : Bracket.read? cs = some b) :
    b.text ++ b.rest = cs := by
  unfold Bracket.read? at h
  split at h
  · simp at h
  · rename_i fill body hopen
    obtain ⟨⟨content, rest⟩, hs, rfl⟩ := Option.map_eq_some_iff.mp h
    rw [← openingBracket_append_of_bracketOpener hopen, ← append_of_splitAtFirst hs]
    simp [Bracket.text]

theorem spanRaw_append (cs : List Char) : (spanRaw cs).1 ++ (spanRaw cs).2 = cs := by
  fun_induction spanRaw cs <;> simp_all

theorem append_of_quotedBody {cs body rest : List Char} (h : quotedBody cs = some (body, rest)) :
    body ++ '"' :: rest = cs := by
  fun_induction quotedBody cs generalizing body with
  | case1 => simp at h
  | case2 => simp at h
  | case3 c cs ih =>
    obtain ⟨⟨b, r⟩, hs, hp⟩ := Option.map_eq_some_iff.mp h
    simp only [Prod.mk.injEq] at hp
    obtain ⟨rfl, rfl⟩ := hp
    simp [ih hs]
  | case4 cs => simp_all
  | case5 c cs _ _ _ ih =>
    obtain ⟨⟨b, r⟩, hs, hp⟩ := Option.map_eq_some_iff.mp h
    simp only [Prod.mk.injEq] at hp
    obtain ⟨rfl, rfl⟩ := hp
    simp [ih hs]

namespace Lexeme

theorem raw_text_append_rest (cs : List Char) : (raw cs).text ++ (raw cs).rest = cs := by
  have h := spanRaw_append cs
  unfold raw
  split <;> simp_all [unparseable]

theorem quoted_text_append_rest (cs : List Char) :
    (quoted cs).text ++ (quoted cs).rest = '"' :: cs := by
  unfold quoted
  split
  · rename_i body rest h
    simp [append_of_quotedBody h]
  · simp [unparseable]

theorem hash_text_append_rest (cs : List Char) :
    (hash cs).text ++ (hash cs).rest = '#' :: cs := by
  unfold hash
  split
  · split
    · rename_i b h
      simp [Bracket.text_append_rest h]
    · simp [spanRaw_append]
  · simp

theorem bracket_text_append_rest (cs : List Char) :
    (bracket cs).text ++ (bracket cs).rest = cs := by
  unfold bracket
  split
  · rename_i b h
    exact Bracket.text_append_rest h
  · exact raw_text_append_rest cs

/-- A lexeme is a piece off the front of the text: what it takes and what it
leaves are the text again. -/
theorem text_append_rest (c : Char) (cs : List Char) :
    (read c cs).text ++ (read c cs).rest = c :: cs := by
  unfold read
  split
  · rfl
  · rfl
  · rfl
  · exact quoted_text_append_rest cs
  · exact hash_text_append_rest cs
  · exact bracket_text_append_rest _
  · exact raw_text_append_rest _

theorem raw_text_ne_nil (c : Char) (cs : List Char) : (raw (c :: cs)).text ≠ [] := by
  unfold raw
  split
  · simp [unparseable]
  · rename_i h
    simp_all

theorem quoted_text_ne_nil (cs : List Char) : (quoted cs).text ≠ [] := by
  unfold quoted
  split <;> simp [unparseable]

theorem hash_text_ne_nil (cs : List Char) : (hash cs).text ≠ [] := by
  unfold hash
  split
  · split <;> simp
  · simp

theorem bracket_text_ne_nil (c : Char) (cs : List Char) : (bracket (c :: cs)).text ≠ [] := by
  unfold bracket
  split
  · simp [Bracket.text, openingBracket]
  · exact raw_text_ne_nil c cs

/-- A lexeme takes at least one character. -/
theorem text_ne_nil (c : Char) (cs : List Char) : (read c cs).text ≠ [] := by
  unfold read
  split
  · simp [single]
  · simp [single]
  · simp [single]
  · exact quoted_text_ne_nil cs
  · exact hash_text_ne_nil cs
  · exact bracket_text_ne_nil _ cs
  · exact raw_text_ne_nil _ cs

/-- What a lexeme leaves is shorter than what it was read from. -/
theorem length_rest_lt (c : Char) (cs : List Char) :
    (read c cs).rest.length < (c :: cs).length := by
  have hlen := congrArg List.length (text_append_rest c cs)
  have hpos := List.length_pos_iff.mpr (text_ne_nil c cs)
  simp only [List.length_append] at hlen
  omega

/-- The token of a lexeme that starts at `p`. -/
def token (l : Lexeme) (p : Position) : Token :=
  ⟨l.kind, String.ofList l.value, .between p (p.advance l.text)⟩

end Lexeme

/-! ## Scanning -/

/-- The tokens of the characters that stand at position `p`. -/
def scanFrom (p : Position) (cs : List Char) : List Token :=
  match _hrest : cs.dropWhile isBlank with
  | [] => []
  | c :: tail =>
    let start := p.advance (cs.takeWhile isBlank)
    let lexeme := Lexeme.read c tail
    lexeme.token start :: scanFrom (start.advance lexeme.text) lexeme.rest
termination_by cs.length
decreasing_by
  have hrest := Lexeme.length_rest_lt c tail
  have hdrop := (List.dropWhile_sublist (l := cs) isBlank).length_le
  rw [_hrest] at hdrop
  omega

/-- The byte-order mark, which may stand once at the front of a text. -/
def byteOrderMark : Char :=
  '\ufeff'

/-- The tokens of a text. A byte-order mark at the front is passed over
without moving the column. -/
def scan (text : String) : List Token :=
  match text.toList with
  | [] => []
  | c :: cs =>
    if c = byteOrderMark then scanFrom { Position.origin with offset := c.utf8Size } cs
    else scanFrom .origin (c :: cs)

end Listfile
