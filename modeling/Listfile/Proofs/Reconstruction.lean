import Listfile.Proofs.Lexing

/-!
# Texts put together again from their tokens

A token keeps its decoded value and the length of its span, but not the
characters that decoding dropped. `Kind.render` writes a token from these three
alone: the number of bytes dropped tells how far a bracket was filled, whether
a line feed stood at its front, and which sort of comment a comment was.
`reconstruct` writes all tokens of a text and copies what stands between them.

* `LexicalShape.render_eq` — a token is written as it stood, unless decoding
  dropped something that cannot be counted back: a line continuation, or a
  carriage return with its line feed at the front of a bracket;
* `reconstruct_eq` — a text without such tokens is what `reconstruct` makes.
-/

namespace Listfile

open Text

/-! ## Writing tokens -/

/-- A long bracket around a value, when the value is `dropped` bytes shorter
than the bracket. Opener and closer are of one length, so an odd number says
that a line feed stood in front of the value. -/
def bracketAround (value : List Char) (dropped : Nat) : List Char :=
  let lead := if dropped % 2 = 1 then ['\n'] else []
  let fill := (dropped - 4 - dropped % 2) / 2
  openingBracket fill ++ (lead ++ (value ++ closingBracket fill))

/-- A token as it is written, from its kind, its value and the bytes that it
takes. -/
def Kind.render (kind : Kind) (value : List Char) (size : Nat) : List Char :=
  let dropped := size - byteLength value
  match kind with
  | .quoted => '"' :: (value ++ ['"'])
  | .bracketed => bracketAround value dropped
  | .comment =>
    if dropped = 1 then '#' :: value
    else if dropped = 2 then '#' :: (value ++ ['\r'])
    else '#' :: bracketAround value (dropped - 1)
  | _ => value

/-- The token as it is written. -/
def Token.render (t : Token) : String :=
  String.ofList (t.kind.render t.value.toList t.span.size)

/-- The text from an offset on: the tokens as they are written, and what stands
before, between and after them as it is in the source. -/
def reconstructFrom (source : String) (start : Nat) : List Token → String
  | [] => (⟨start, source.utf8ByteSize⟩ : Span).slice source
  | t :: ts =>
    (⟨start, t.span.start⟩ : Span).slice source ++ t.render ++
      reconstructFrom source t.span.stop ts

/-- The text put together from its tokens. -/
def reconstruct (source : String) : String :=
  reconstructFrom source 0 (scan source)

/-! ## What cannot be counted back -/

/-- Whether an escape pair of the text continues a line: a backslash with a
line feed, or with a carriage return and a line feed after it. -/
def hasContinuation : List Char → Bool
  | [] => false
  | '\\' :: '\r' :: '\n' :: _ => true
  | '\\' :: '\n' :: _ => true
  | '\\' :: _ :: cs => hasContinuation cs
  | _ :: cs => hasContinuation cs

/-- Whether the text opens a long bracket and goes on with a carriage return
and a line feed. -/
def opensOnReturn (cs : List Char) : Bool :=
  match bracketOpener cs with
  | some (_, '\r' :: '\n' :: _) => true
  | _ => false

theorem hasContinuation_of_escape {c : Char} {cs : List Char}
    (h : hasContinuation ('\\' :: c :: cs) = false) : hasContinuation cs = false := by
  by_cases hfeed : c = '\n'
  · subst hfeed
    cases h
  by_cases hreturn : ∃ ds, c = '\r' ∧ cs = '\n' :: ds
  · obtain ⟨ds, rfl, rfl⟩ := hreturn
    cases h
  · rwa [hasContinuation.eq_4 _ _ (fun ds hc hcs => hreturn ⟨ds, hc, hcs⟩) hfeed] at h

theorem hasContinuation_of_plain {c : Char} {cs : List Char} (hc : c ≠ '\\')
    (h : hasContinuation (c :: cs) = false) : hasContinuation cs = false := by
  rwa [hasContinuation.eq_5 _ _ (fun _ h _ => hc h) (fun _ h _ => hc h) (fun _ _ h _ => hc h)] at h

/-- Without continuations nothing is dropped from a quoted body. -/
theorem LinesJoined.value_eq {body value : List Char} (h : LinesJoined body value)
    (after : List Char) (hnone : hasContinuation (body ++ after) = false) : value = body := by
  induction h with
  | nil => rfl
  | lineFeed => cases hnone
  | returnLineFeed => cases hnone
  | escape _ _ _ ih => rw [ih (hasContinuation_of_escape hnone)]
  | plain hc _ ih => rw [ih (hasContinuation_of_plain hc hnone)]

/-! ## Counting brackets -/

theorem byteLength_replicate_equals (fill : Nat) : byteLength (List.replicate fill '=') = fill := by
  induction fill with
  | zero => rfl
  | succ n ih =>
      rw [List.replicate_succ, byteLength, ih]
      show 1 + n = n + 1
      omega

theorem byteLength_openingBracket (fill : Nat) : byteLength (openingBracket fill) = fill + 2 := by
  unfold openingBracket
  rw [byteLength, byteLength_append, byteLength_replicate_equals]
  show 1 + (fill + 1) = fill + 2
  omega

theorem byteLength_closingBracket (fill : Nat) : byteLength (closingBracket fill) = fill + 2 := by
  unfold closingBracket
  rw [byteLength, byteLength_append, byteLength_replicate_equals]
  show 1 + (fill + 1) = fill + 2
  omega

/-- The fill and the line feed of a bracket are counted back. -/
theorem bracketAround_eq (fill : Nat) {lead : List Char} (hlead : lead = [] ∨ lead = ['\n'])
    (value : List Char) :
    bracketAround value (4 + 2 * fill + byteLength lead) =
      openingBracket fill ++ (lead ++ (value ++ closingBracket fill)) := by
  unfold bracketAround
  rcases hlead with rfl | rfl
  · have hodd : (4 + 2 * fill + byteLength []) % 2 = 0 := by
      simp only [byteLength]
      omega
    have hfill : (4 + 2 * fill + byteLength [] - 4 - 0) / 2 = fill := by
      simp only [byteLength]
      omega
    simp only [hodd, hfill]
    rfl
  · have hodd : (4 + 2 * fill + byteLength ['\n']) % 2 = 1 := by
      show (4 + 2 * fill + 1) % 2 = 1
      omega
    have hfill : (4 + 2 * fill + byteLength ['\n'] - 4 - 1) / 2 = fill := by
      show (4 + 2 * fill + 1 - 4 - 1) / 2 = fill
      omega
    simp only [hodd, hfill]
    rfl

/-- A bracket, unless a carriage return and line feed were dropped. -/
theorem BracketForm.exists_lead {s value : List Char} (h : BracketForm s value)
    (hreturn : opensOnReturn s = false) :
    ∃ fill lead, (lead = [] ∨ lead = ['\n']) ∧
      s = openingBracket fill ++ (lead ++ (value ++ closingBracket fill)) := by
  obtain ⟨fill, content, rfl, -, hvalue⟩ := h
  rcases hvalue with rfl | rfl | ⟨rfl, -, -⟩
  · exact ⟨fill, ['\n'], .inr rfl, rfl⟩
  · unfold opensOnReturn at hreturn
    rw [bracketOpener_openingBracket] at hreturn
    cases hreturn
  · exact ⟨fill, [], .inl rfl, rfl⟩

/-! ## Tokens are written as they stood -/

section Comments

variable {value s : List Char}

/-- A comment that lost its mark only. -/
theorem render_comment_of_one (h : byteLength s - byteLength value = 1) :
    Kind.comment.render value (byteLength s) = '#' :: value :=
  if_pos h

/-- A comment that lost a carriage return too. -/
theorem render_comment_of_two (h : byteLength s - byteLength value = 2) :
    Kind.comment.render value (byteLength s) = '#' :: (value ++ ['\r']) := by
  have hone : ¬ byteLength s - byteLength value = 1 := by omega
  exact (if_neg hone).trans (if_pos h)

/-- A comment that lost more is a bracket behind its mark. -/
theorem render_comment_of_bracket {dropped : Nat} (hdropped : 2 ≤ dropped)
    (h : byteLength s - byteLength value = 1 + dropped) :
    Kind.comment.render value (byteLength s) = '#' :: bracketAround value dropped := by
  have hone : ¬ byteLength s - byteLength value = 1 := by omega
  have htwo : ¬ byteLength s - byteLength value = 2 := by omega
  have hbracket : byteLength s - byteLength value - 1 = dropped := by omega
  refine (if_neg hone).trans ((if_neg htwo).trans ?_)
  rw [hbracket]

end Comments

/-- A piece of some shape is written as it stood. -/
theorem LexicalShape.render_eq {kind : Kind} {s value after : List Char}
    (h : LexicalShape kind s value after) (hparsed : kind ≠ .unparseable)
    (hquoted : kind = .quoted → hasContinuation s = false)
    (hbracketed : kind = .bracketed → opensOnReturn s = false)
    (hcomment : kind = .comment → opensOnReturn (s.drop 1) = false) :
    kind.render value (byteLength s) = s := by
  have hmark : '#'.utf8Size = 1 := rfl
  cases h with
  | leftParen => rfl
  | rightParen => rfl
  | semicolon => rfl
  | raw => rfl
  | @quoted body value _ hbody hvalue =>
      have hnone : hasContinuation (body ++ ['"']) = false :=
        hasContinuation_of_plain (by decide) (hquoted rfl)
      rw [hvalue.value_eq ['"'] hnone]
      rfl
  | bracketed hform =>
      obtain ⟨fill, lead, hlead, rfl⟩ := hform.exists_lead (hbracketed rfl)
      have hdropped : byteLength (openingBracket fill ++ (lead ++ (value ++ closingBracket fill))) -
          byteLength value = 4 + 2 * fill + byteLength lead := by
        simp only [byteLength_append, byteLength_openingBracket, byteLength_closingBracket]
        omega
      show bracketAround value _ = _
      rw [hdropped, bracketAround_eq fill hlead]
  | bracketComment hform =>
      obtain ⟨fill, lead, hlead, rfl⟩ := hform.exists_lead (hcomment rfl)
      have hdropped : byteLength ('#' :: (openingBracket fill ++
          (lead ++ (value ++ closingBracket fill)))) - byteLength value =
            1 + (4 + 2 * fill + byteLength lead) := by
        simp only [byteLength, byteLength_append, byteLength_openingBracket,
          byteLength_closingBracket, hmark]
        omega
      rw [render_comment_of_bracket (by omega) hdropped, bracketAround_eq fill hlead]
  | @lineComment line _ _ _ _ _ hvalue =>
      rcases hvalue with rfl | ⟨rfl, -⟩
      · refine render_comment_of_two ?_
        have hreturn : '\r'.utf8Size = 1 := rfl
        simp only [byteLength, byteLength_append, hmark, hreturn]
        omega
      · refine render_comment_of_one ?_
        simp only [byteLength, hmark]
        omega
  | unmatchedArgument => rfl
  | unmatchedComment => rfl
  | loneBackslash => exact absurd rfl hparsed
  | unclosedQuote => exact absurd rfl hparsed

/-! ## Texts -/

/-- What decoding a token of the source dropped can be counted back. -/
structure Token.Restorable (source : String) (t : Token) : Prop where
  parsed : t.kind ≠ .unparseable
  quoted : t.kind = .quoted → hasContinuation (t.span.slice source).toList = false
  bracketed : t.kind = .bracketed → opensOnReturn (t.span.slice source).toList = false
  comment : t.kind = .comment → opensOnReturn ((t.span.slice source).toList.drop 1) = false

instance (source : String) (t : Token) : Decidable (t.Restorable source) :=
  decidable_of_iff (t.kind ≠ .unparseable ∧
      (t.kind = .quoted → hasContinuation (t.span.slice source).toList = false) ∧
      (t.kind = .bracketed → opensOnReturn (t.span.slice source).toList = false) ∧
      (t.kind = .comment → opensOnReturn ((t.span.slice source).toList.drop 1) = false))
    ⟨fun ⟨hparsed, hquoted, hbracketed, hcomment⟩ => ⟨hparsed, hquoted, hbracketed, hcomment⟩,
      fun h => ⟨h.parsed, h.quoted, h.bracketed, h.comment⟩⟩

/-- A token that is cut out of the text is written as it stood. -/
theorem render_tokenAt {p : Position} {source : String} {before s value after : List Char}
    {kind : Kind} (hsource : source.toList = before ++ (s ++ after))
    (hp : p.offset = byteLength before) (hshape : LexicalShape kind s value after)
    (h : (tokenAt p kind s value).Restorable source) :
    (tokenAt p kind s value).render = String.ofList s := by
  have hslice := (tokenAt_covers kind value hsource hp).slice_eq
  obtain ⟨hparsed, hquoted, hbracketed, hcomment⟩ := h
  rw [hslice, String.toList_ofList] at hquoted hbracketed hcomment
  have hsize : (tokenAt p kind s value).span.size = byteLength s := by
    show (p.advance s).offset - p.offset = byteLength s
    rw [Position.offset_advance]
    omega
  unfold Token.render
  rw [hsize]
  show String.ofList (kind.render (String.ofList value).toList (byteLength s)) = _
  rw [String.toList_ofList, hshape.render_eq hparsed hquoted hbracketed hcomment]

/-- What stands between two offsets of a text. -/
theorem slice_between {source : String} {before piece : List Char} (after : List Char)
    (hsource : source.toList = before ++ (piece ++ after)) {stop : Nat}
    (hstop : stop = byteLength before + byteLength piece) :
    (⟨byteLength before, stop⟩ : Span).slice source = String.ofList piece :=
  (Span.covers_of_toList before piece after hsource rfl hstop).slice_eq

/-- From the end of a token on, the rest of the text is put together. The
scanner stands behind a gap that is not yet copied. -/
theorem reconstructFrom_scanFrom {source : String} {tokens : List Token}
    (h : ∀ t ∈ tokens, t.Restorable source) (before gap cs : List Char) (p : Position)
    (hsource : source.toList = before ++ (gap ++ cs))
    (hp : p.offset = byteLength before + byteLength gap) (hscan : scanFrom p cs = tokens) :
    reconstructFrom source (byteLength before) tokens = String.ofList (gap ++ cs) := by
  induction tokens generalizing before gap cs p with
  | nil =>
      refine slice_between [] ?_ ?_
      · rw [List.append_nil, hsource]
      · rw [← byteLength_append, ← hsource, byteLength_toList]
  | cons t ts ih =>
      obtain ⟨blanks, c, s, value, after, rfl, -, -, hshape, ht, hrest⟩ := scanFrom_eq_cons hscan
      have hstart : (p.advance blanks).offset = byteLength (before ++ (gap ++ blanks)) := by
        rw [Position.offset_advance, hp, byteLength_append, byteLength_append, Nat.add_assoc]
      have hparts : source.toList = (before ++ (gap ++ blanks)) ++ (c :: s ++ after) := by
        rw [hsource]
        simp only [List.append_assoc]
      have hstop : t.span.stop = byteLength (before ++ (gap ++ blanks) ++ (c :: s)) := by
        rw [ht, byteLength_append, ← hstart]
        exact Position.offset_advance _ _
      -- The gap is copied, the token is written, and the rest follows.
      have hgap : (⟨byteLength before, t.span.start⟩ : Span).slice source =
          String.ofList (gap ++ blanks) := by
        refine slice_between (c :: s ++ after) ?_ ?_
        · rw [hparts, List.append_assoc]
        · rw [ht, ← byteLength_append, ← hstart]
          rfl
      have htoken : t.render = String.ofList (c :: s) := by
        have hrestorable := h t List.mem_cons_self
        rw [ht] at hrestorable ⊢
        exact render_tokenAt hparts hstart hshape hrestorable
      have hafter : reconstructFrom source t.span.stop ts = String.ofList after := by
        rw [hstop]
        refine ih (fun u hu => h u (List.mem_cons_of_mem t hu)) _ [] after _ ?_ ?_ hrest
        · rw [hparts]
          simp only [List.append_assoc, List.nil_append]
        · rw [Position.offset_advance, hstart, byteLength_append _ (c :: s)]
          rfl
      show _ ++ _ ++ _ = _
      rw [hgap, htoken, hafter, ← String.ofList_append, ← String.ofList_append]
      simp only [List.append_assoc]

/-- **Texts are put together from their tokens.** Writing every token from its
kind, its value and the length of its span, and copying what stands between the
spans, gives back the source: of a text that is cut into tokens to its end, in
which no quoted token continues a line and no bracket argument or comment has a
carriage return and line feed at its front. -/
theorem reconstruct_eq (source : String) (h : ∀ t ∈ scan source, t.Restorable source) :
    reconstruct source = source := by
  obtain ⟨cs, hsource, hscan⟩ := scan_eq_scanFrom source
  have hall := reconstructFrom_scanFrom h [] (leadingMark source.toList) cs
    (firstPosition source.toList) hsource (Nat.zero_add _).symm hscan.symm
  rw [← hsource, String.ofList_toList] at hall
  exact hall

/-- Every sort of token that loses something: behind a byte-order mark a quoted
token with an escaped backslash in front of a line feed, a filled bracket with
a line feed at its front, a line comment with a carriage return at its end and
a bracket comment with one at its front. -/
theorem reconstruct_eq_of_lineBreaks :
    let source := "\ufeffset(\"é\\\\\n\" [=[\n]]]=]) # c\r\n#[[\rx]]\t[=["
    (scan source).map (·.value) = ["set", "(", "é\\\\\n", "]]", ")", " c", "\rx", "[=["] ∧
      (∀ t ∈ scan source, t.Restorable source) ∧ reconstruct source = source :=
  ⟨by decide +kernel, by decide +kernel, reconstruct_eq _ (by decide +kernel)⟩

end Listfile
