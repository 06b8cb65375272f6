import Listfile.Token.Scan

/-!
# The shapes of lexemes

`LexicalShape kind s value after` says what a piece `s` of a text looks like
when it is a token of the kind: how it begins and ends, what may follow it, and
which value it decodes to. Reading agrees with it in both directions:

* `Lexeme.shape_read` — whatever is read has the shape of its kind;
* `Lexeme.read_of_shape` — a piece of some shape is read as just that;
* `LexicalShape.truncate`, `LexicalShape.extend` — how far the shape depends on
  what follows: text behind it may be cut off, and a line break may be added
  unless the token is one that its text does not close.
-/

namespace Listfile

open Text

/-! ## Escape pairs -/

/-- A text made of escape pairs, a backslash with any character after it, and
of other characters that are allowed. -/
inductive EscapedText (allowed : Char → Prop) : List Char → Prop
  | nil : EscapedText allowed []
  | escape {c : Char} {cs : List Char} (hrest : EscapedText allowed cs) :
      EscapedText allowed ('\\' :: c :: cs)
  | plain {c : Char} {cs : List Char} (hc : c ≠ '\\') (hallowed : allowed c)
      (hrest : EscapedText allowed cs) : EscapedText allowed (c :: cs)

/-- The characters that cannot stand in unquoted text without a backslash. -/
def IsDelimiter (c : Char) : Prop :=
  c ∈ [' ', '\t', '\r', '\n', '(', ')', '"', '#', ';']

/-- What may follow unquoted text: a delimiter, the end of the input, or a
backslash with nothing after it. -/
def EndsRaw (after : List Char) : Prop :=
  after = [] ∨ after = ['\\'] ∨ ∃ c cs, after = c :: cs ∧ IsDelimiter c

/-- Unquoted text. -/
abbrev RawText : List Char → Prop :=
  EscapedText fun c => ¬ IsDelimiter c

/-- The body of quoted text. -/
abbrev QuotedText : List Char → Prop :=
  EscapedText fun c => c ≠ '"'

/-- `LinesJoined body value`: the value is the body without its line
continuations. A continuation is an escape pair of backslash and line feed, or
one of backslash and carriage return together with the line feed after it. -/
inductive LinesJoined : List Char → List Char → Prop
  | nil : LinesJoined [] []
  | lineFeed {cs value : List Char} (hrest : LinesJoined cs value) :
      LinesJoined ('\\' :: '\n' :: cs) value
  | returnLineFeed {cs value : List Char} (hrest : LinesJoined cs value) :
      LinesJoined ('\\' :: '\r' :: '\n' :: cs) value
  | escape {c : Char} {cs value : List Char} (hc : c ≠ '\n')
      (hreturn : c = '\r' → cs.head? ≠ some '\n') (hrest : LinesJoined cs value) :
      LinesJoined ('\\' :: c :: cs) ('\\' :: c :: value)
  | plain {c : Char} {cs value : List Char} (hc : c ≠ '\\') (hrest : LinesJoined cs value) :
      LinesJoined (c :: cs) (c :: value)

/-! ## Long brackets -/

/-- The text begins with `[`, a number of `=`, and `[`. -/
def OpensBracket (cs : List Char) : Prop :=
  ∃ fill body, cs = openingBracket fill ++ body

/-- In the text `content ++ mark` the mark does not begin before its end. -/
def IsFirst (mark content : List Char) : Prop :=
  ∀ before after, content ++ mark = before ++ (mark ++ after) → content.length ≤ before.length

/-- The value is the content without one line feed, or one carriage return with
a line feed, at its front. -/
def LineBreakDropped (content value : List Char) : Prop :=
  content = '\n' :: value ∨ content = '\r' :: '\n' :: value ∨
    (value = content ∧ content.head? ≠ some '\n' ∧ ¬ ['\r', '\n'] <+: content)

/-- A complete long bracket with its value. The closer that ends it is the
first one of the opener's fill. -/
def BracketForm (s value : List Char) : Prop :=
  ∃ fill content, s = openingBracket fill ++ (content ++ closingBracket fill) ∧
    IsFirst (closingBracket fill) content ∧ LineBreakDropped content value

/-- Unquoted text that opens a long bracket which the whole input never
closes. -/
def UnclosedForm (s after : List Char) : Prop :=
  RawText s ∧ EndsRaw after ∧
    ∃ fill body, s = openingBracket fill ++ body ∧ ¬ closingBracket fill <:+: body ++ after

/-! ## Shapes -/

/-- `LexicalShape kind s value after`: the characters `s`, with `after` behind
them, are a token of the kind that says `value`. -/
inductive LexicalShape : Kind → List Char → List Char → List Char → Prop
  | leftParen {after : List Char} : LexicalShape .leftParen ['('] ['('] after
  | rightParen {after : List Char} : LexicalShape .rightParen [')'] [')'] after
  | semicolon {after : List Char} : LexicalShape .semicolon [';'] [';'] after
  | raw {s after : List Char} (hne : s ≠ []) (htext : RawText s) (hopen : ¬ OpensBracket s)
      (hafter : EndsRaw after) : LexicalShape .raw s s after
  | quoted {body value after : List Char} (hbody : QuotedText body)
      (hvalue : LinesJoined body value) :
      LexicalShape .quoted ('"' :: (body ++ ['"'])) value after
  | bracketed {s value after : List Char} (h : BracketForm s value) :
      LexicalShape .bracketed s value after
  | bracketComment {s value after : List Char} (h : BracketForm s value) :
      LexicalShape .comment ('#' :: s) value after
  | lineComment {line value after : List Char} (hline : '\n' ∉ line)
      (hopen : ¬ OpensBracket line) (hafter : after = [] ∨ after.head? = some '\n')
      (hvalue : line = value ++ ['\r'] ∨ (value = line ∧ line.getLast? ≠ some '\r')) :
      LexicalShape .comment ('#' :: line) value after
  | unmatchedArgument {s after : List Char} (h : UnclosedForm s after) :
      LexicalShape .unmatchedBracket s s after
  | unmatchedComment {s after : List Char} (h : UnclosedForm s after) :
      LexicalShape .unmatchedBracket ('#' :: s) ('#' :: s) after
  /-- A backslash at the very end. -/
  | loneBackslash : LexicalShape .unparseable ['\\'] [] []
  /-- A quote that is never closed; the input may end in half an escape pair. -/
  | unclosedQuote {body half : List Char} (hbody : QuotedText body)
      (hhalf : half = [] ∨ half = ['\\']) :
      LexicalShape .unparseable ('"' :: (body ++ half)) [] []

/-! ## Reading unquoted and quoted text -/

theorem isDelimiter_iff (c : Char) : isDelimiter c = true ↔ IsDelimiter c := by
  simp [isDelimiter, IsDelimiter, or_assoc]

/-- A delimiter is never the backslash. -/
theorem IsDelimiter.ne_backslash {c : Char} (h : IsDelimiter c) : c ≠ '\\' := by
  rintro rfl
  simp [IsDelimiter] at h

theorem EndsRaw.append_of_ne {after : List Char} (h : EndsRaw after) (hne : after ≠ ['\\'])
    {more : List Char} (hmore : EndsRaw more) : EndsRaw (after ++ more) := by
  rcases h with rfl | hback | ⟨c, cs, rfl, hc⟩
  · exact hmore
  · exact absurd hback hne
  · exact .inr (.inr ⟨c, cs ++ more, rfl, hc⟩)

theorem EndsRaw.of_append {front back : List Char} (h : EndsRaw (front ++ back)) :
    EndsRaw front := by
  cases front with
  | nil => exact .inl rfl
  | cons d front =>
      rcases h with h | h | ⟨c, cs, h, hc⟩
      · cases h
      · -- A single character has nothing behind it.
        rw [List.cons_append, List.cons.injEq, List.append_eq_nil_iff] at h
        obtain ⟨rfl, rfl, -⟩ := h
        exact .inr (.inl rfl)
      · rw [List.cons_append, List.cons.injEq] at h
        exact .inr (.inr ⟨d, front, rfl, h.1 ▸ hc⟩)

theorem spanRaw_spec (cs : List Char) : RawText (spanRaw cs).1 ∧ EndsRaw (spanRaw cs).2 := by
  fun_induction spanRaw cs with
  | case1 => exact ⟨.nil, .inl rfl⟩
  | case2 => exact ⟨.nil, .inr (.inl rfl)⟩
  | case3 c cs front back hspan ih =>
      rw [hspan] at ih
      exact ⟨.escape ih.1, ih.2⟩
  | case4 c cs _ _ hdelim =>
      exact ⟨.nil, .inr (.inr ⟨c, cs, rfl, (isDelimiter_iff c).mp hdelim⟩)⟩
  | case5 c cs hlone hpair hdelim front back hspan ih =>
      rw [hspan] at ih
      refine ⟨.plain (ne_backslash_of_not_pair hlone hpair) ?_ ih.1, ih.2⟩
      intro h
      exact hdelim ((isDelimiter_iff c).mpr h)

theorem spanRaw_of_endsRaw {after : List Char} (h : EndsRaw after) :
    spanRaw after = ([], after) := by
  rcases h with rfl | rfl | ⟨c, cs, rfl, hc⟩
  · rfl
  · rfl
  · have hback := hc.ne_backslash
    have hdelim := (isDelimiter_iff c).mpr hc
    unfold spanRaw
    split <;> simp_all

/-- Unquoted text is taken up to where it ends. -/
theorem RawText.spanRaw_append {s after : List Char} (hs : RawText s) (hafter : EndsRaw after) :
    spanRaw (s ++ after) = (s, after) := by
  induction hs with
  | nil => exact spanRaw_of_endsRaw hafter
  | @escape c s _ ih =>
      rw [List.cons_append, List.cons_append, spanRaw, ih]
  | @plain c s hc hallowed _ ih =>
      have hdelim : ¬ isDelimiter c = true := fun h => hallowed ((isDelimiter_iff c).mp h)
      rw [List.cons_append, spanRaw.eq_4 _ _ (fun h => absurd h hc) (fun _ _ h => absurd h hc),
        if_neg hdelim, ih]

theorem quotedBody_spec {cs body rest : List Char} (h : quotedBody cs = some (body, rest)) :
    QuotedText body := by
  fun_induction quotedBody cs generalizing body with
  | case1 => cases h
  | case2 => cases h
  | case3 c cs ih =>
      obtain ⟨⟨b, r⟩, hbody, hpair⟩ := Option.map_eq_some_iff.mp h
      cases hpair
      exact .escape (ih hbody)
  | case4 => cases h; exact .nil
  | case5 c cs hlone hpair hquote ih =>
      obtain ⟨⟨b, r⟩, hbody, hsplit⟩ := Option.map_eq_some_iff.mp h
      cases hsplit
      exact .plain (ne_backslash_of_not_pair hlone hpair) hquote (ih hbody)

/-- The body is taken up to the first quote that no backslash escapes. -/
theorem QuotedText.quotedBody_append {body : List Char} (h : QuotedText body)
    (after : List Char) : quotedBody (body ++ '"' :: after) = some (body, after) := by
  induction h with
  | nil => rfl
  | @escape c cs _ ih => rw [List.cons_append, List.cons_append, quotedBody, ih]; rfl
  | @plain c cs hc hallowed _ ih =>
      rw [List.cons_append, quotedBody.eq_4 _ _ (fun h => absurd h hc) (fun _ _ h => absurd h hc),
        if_neg hallowed, ih]
      rfl

/-- Without a closing quote the text is escape pairs and other characters to
the end, but for half a pair. -/
theorem quotedBody_eq_none {cs : List Char} (h : quotedBody cs = none) :
    ∃ body half, cs = body ++ half ∧ QuotedText body ∧ (half = [] ∨ half = ['\\']) := by
  fun_induction quotedBody cs with
  | case1 => exact ⟨[], [], rfl, .nil, .inl rfl⟩
  | case2 => exact ⟨[], ['\\'], rfl, .nil, .inr rfl⟩
  | case3 c cs ih =>
      obtain ⟨body, half, rfl, hbody, hhalf⟩ := ih (Option.map_eq_none_iff.mp h)
      exact ⟨'\\' :: c :: body, half, rfl, .escape hbody, hhalf⟩
  | case4 => cases h
  | case5 c cs hlone hpair hquote ih =>
      obtain ⟨body, half, rfl, hbody, hhalf⟩ := ih (Option.map_eq_none_iff.mp h)
      have hc : c ≠ '\\' := ne_backslash_of_not_pair hlone hpair
      exact ⟨c :: body, half, rfl, .plain hc hquote hbody, hhalf⟩

theorem QuotedText.quotedBody_half {body half : List Char} (h : QuotedText body)
    (hhalf : half = [] ∨ half = ['\\']) : quotedBody (body ++ half) = none := by
  induction h with
  | nil => rcases hhalf with rfl | rfl <;> rfl
  | @escape c cs _ ih => rw [List.cons_append, List.cons_append, quotedBody, ih]; rfl
  | @plain c cs hc hallowed _ ih =>
      rw [List.cons_append, quotedBody.eq_4 _ _ (fun h => absurd h hc) (fun _ _ h => absurd h hc),
        if_neg hallowed, ih]
      rfl

theorem EscapedText.of_escape {allowed : Char → Prop} {c : Char} {cs : List Char}
    (h : EscapedText allowed ('\\' :: c :: cs)) : EscapedText allowed cs := by
  cases h with
  | escape hrest => exact hrest
  | plain hc => exact absurd rfl hc

theorem EscapedText.of_plain {allowed : Char → Prop} {c : Char} {cs : List Char}
    (h : EscapedText allowed (c :: cs)) (hc : c ≠ '\\') : allowed c ∧ EscapedText allowed cs := by
  cases h with
  | escape => exact absurd rfl hc
  | plain _ hallowed hrest => exact ⟨hallowed, hrest⟩

theorem EscapedText.not_lone {allowed : Char → Prop} : ¬ EscapedText allowed ['\\'] := by
  intro h
  cases h with
  | plain hc => exact hc rfl

/-- Joining lines walks over the escape pairs of the body. -/
theorem linesJoined_joinLines {allowed : Char → Prop} {body : List Char}
    (h : EscapedText allowed body) : LinesJoined body (joinLines body) := by
  fun_induction joinLines body with
  | case1 => exact .nil
  | case2 cs ih => exact .returnLineFeed (ih (h.of_escape.of_plain (by decide)).2)
  | case3 cs ih => exact .lineFeed (ih h.of_escape)
  | case4 c cs hreturn hfeed ih =>
      refine .escape ?_ ?_ (ih h.of_escape)
      · rintro rfl
        exact hfeed rfl
      · rintro rfl hhead
        obtain ⟨ds, rfl⟩ := List.head?_eq_some_iff.mp hhead
        exact hreturn ds rfl rfl
  | case5 c cs hreturn hfeed hpair ih =>
      have hc : c ≠ '\\' := by
        rintro rfl
        cases cs with
        | nil => exact EscapedText.not_lone h
        | cons d ds => exact hpair d ds rfl rfl
      exact .plain hc (ih (h.of_plain hc).2)

theorem LinesJoined.joinLines_eq {body value : List Char} (h : LinesJoined body value) :
    joinLines body = value := by
  induction h with
  | nil => rfl
  | lineFeed _ ih => rw [joinLines, ih]
  | returnLineFeed _ ih => rw [joinLines, ih]
  | @escape c cs value hc hreturn _ ih =>
      rw [joinLines.eq_4, ih]
      · rintro ds rfl rfl
        exact hreturn rfl rfl
      · exact hc
  | @plain c cs value hc _ ih =>
      rw [joinLines.eq_5, ih]
      all_goals
        intros
        exact absurd ‹_› hc

/-! ## Reading long brackets -/

theorem bracketOpener_openingBracket (fill : Nat) (body : List Char) :
    bracketOpener (openingBracket fill ++ body) = some (fill, body) := by
  have hdrop : (List.replicate fill '=' ++ '[' :: body).dropWhile (· == '=') = '[' :: body := by
    rw [List.dropWhile_append_of_pos (by simp)]
    rfl
  have htake : (List.replicate fill '=' ++ '[' :: body).takeWhile (· == '=') =
      List.replicate fill '=' := by
    rw [List.takeWhile_append_of_pos (by simp)]
    simp
  rw [openingBracket, List.cons_append, List.append_assoc, List.singleton_append, bracketOpener,
    hdrop, htake, List.length_replicate]
  rfl

theorem bracketOpener_eq_some_iff {cs body : List Char} {fill : Nat} :
    bracketOpener cs = some (fill, body) ↔ cs = openingBracket fill ++ body := by
  constructor
  · intro h
    exact (openingBracket_append_of_bracketOpener h).symm
  · rintro rfl
    exact bracketOpener_openingBracket fill body

theorem opensBracket_iff {cs : List Char} : OpensBracket cs ↔ (bracketOpener cs).isSome = true := by
  constructor
  · rintro ⟨fill, body, rfl⟩
    rw [bracketOpener_openingBracket]
    rfl
  · intro h
    obtain ⟨⟨fill, body⟩, hopen⟩ := Option.isSome_iff_exists.mp h
    exact ⟨fill, body, bracketOpener_eq_some_iff.mp hopen⟩

section Marks

variable {mark cs : List Char} {c : Char}

theorem splitAtFirst_cons_of_prefix (h : mark <+: c :: cs) :
    splitAtFirst mark (c :: cs) = some ([], (c :: cs).drop mark.length) := by
  rw [splitAtFirst, if_pos (List.isPrefixOf_iff_prefix.mpr h)]

theorem splitAtFirst_cons_of_not_prefix (h : ¬ mark <+: c :: cs) :
    splitAtFirst mark (c :: cs) =
      (splitAtFirst mark cs).map fun (before, after) => (c :: before, after) := by
  rw [splitAtFirst, if_neg fun hpre => h (List.isPrefixOf_iff_prefix.mp hpre)]

end Marks

theorem isFirst_of_splitAtFirst {mark cs before after : List Char}
    (h : splitAtFirst mark cs = some (before, after)) : IsFirst mark before := by
  induction cs generalizing before with
  | nil => cases h
  | cons c cs ih =>
      have hcs := append_of_splitAtFirst h
      unfold splitAtFirst at h
      split at h
      · cases h
        intro _ _ _
        exact Nat.zero_le _
      · rename_i hmark
        obtain ⟨⟨b, a⟩, hsplit, hpair⟩ := Option.map_eq_some_iff.mp h
        cases hpair
        intro front back heq
        cases front with
        | nil =>
            -- The mark would stand at the very front.
            refine absurd (List.isPrefixOf_iff_prefix.mpr ?_) hmark
            rw [← hcs, ← List.append_assoc, heq, List.nil_append, List.append_assoc]
            exact List.prefix_append _ _
        | cons d front =>
            rw [List.cons_append, List.cons_append, List.cons.injEq] at heq
            exact Nat.succ_le_succ (ih hsplit front back heq.2)

theorem IsFirst.splitAtFirst_append {mark content : List Char} (h : IsFirst mark content)
    (hne : mark ≠ []) (after : List Char) :
    splitAtFirst mark (content ++ (mark ++ after)) = some (content, after) := by
  induction content with
  | nil =>
      cases mark with
      | nil => exact absurd rfl hne
      | cons m mark =>
          have hprefix : m :: mark <+: m :: (mark ++ after) := List.prefix_append _ _
          rw [List.nil_append, List.cons_append, splitAtFirst_cons_of_prefix hprefix,
            ← List.cons_append, List.drop_left]
  | cons c content ih =>
      have hmark : ¬ mark <+: c :: (content ++ (mark ++ after)) := by
        intro hpre
        -- The mark fits into the content and the mark behind it.
        have hshort : mark <+: c :: content ++ mark := by
          refine List.prefix_of_prefix_length_le hpre ⟨after, by simp⟩ ?_
          simp only [List.length_append, List.length_cons]
          omega
        obtain ⟨back, hback⟩ := hshort
        have hle := h [] back hback.symm
        simp at hle
      have hrest : IsFirst mark content := by
        intro front back heq
        have hle := h (c :: front) back (by rw [List.cons_append, List.cons_append, heq])
        exact Nat.le_of_succ_le_succ hle
      rw [List.cons_append, splitAtFirst_cons_of_not_prefix hmark, ih hrest]
      rfl

theorem splitAtFirst_eq_none_iff {mark cs : List Char} (hne : mark ≠ []) :
    splitAtFirst mark cs = none ↔ ¬ mark <:+: cs := by
  induction cs with
  | nil => simp [splitAtFirst, hne]
  | cons c cs ih =>
      rw [List.infix_cons_iff, ← List.isPrefixOf_iff_prefix, splitAtFirst]
      split <;> simp_all

theorem closingBracket_ne_nil (fill : Nat) : closingBracket fill ≠ [] :=
  List.cons_ne_nil _ _

theorem lineBreakDropped_dropLineBreak (content : List Char) :
    LineBreakDropped content (dropLineBreak content) := by
  unfold dropLineBreak
  split
  · exact .inr (.inl rfl)
  · exact .inl rfl
  · rename_i hreturn hfeed
    refine .inr (.inr ⟨rfl, ?_, ?_⟩)
    · intro hhead
      obtain ⟨cs, rfl⟩ := List.head?_eq_some_iff.mp hhead
      exact hfeed cs rfl
    · rintro ⟨cs, rfl⟩
      exact hreturn cs rfl

theorem LineBreakDropped.eq_dropLineBreak {content value : List Char}
    (h : LineBreakDropped content value) : dropLineBreak content = value := by
  rcases h with rfl | rfl | ⟨rfl, hfeed, hreturn⟩
  · rfl
  · rfl
  · unfold dropLineBreak
    split
    · exact absurd ⟨_, rfl⟩ hreturn
    · exact absurd rfl hfeed
    · rfl

theorem Bracket.form_of_read? {cs : List Char} {b : Bracket} (h : Bracket.read? cs = some b) :
    BracketForm b.text b.value := by
  unfold Bracket.read? at h
  split at h
  · cases h
  · obtain ⟨⟨content, rest⟩, hsplit, rfl⟩ := Option.map_eq_some_iff.mp h
    exact ⟨_, content, rfl, isFirst_of_splitAtFirst hsplit, lineBreakDropped_dropLineBreak content⟩

theorem BracketForm.read?_append {s value : List Char} (h : BracketForm s value)
    (after : List Char) :
    ∃ b, Bracket.read? (s ++ after) = some b ∧ b.text = s ∧ b.value = value ∧ b.rest = after := by
  obtain ⟨fill, content, rfl, hfirst, hvalue⟩ := h
  refine ⟨⟨fill, content, after⟩, ?_, rfl, hvalue.eq_dropLineBreak, rfl⟩
  unfold Bracket.read?
  rw [List.append_assoc, List.append_assoc, bracketOpener_openingBracket]
  show (splitAtFirst _ _).map _ = _
  rw [hfirst.splitAtFirst_append (closingBracket_ne_nil fill)]
  rfl

/-- No bracket is complete in a text that opens none or closes none. -/
theorem Bracket.read?_eq_none_iff {cs : List Char} :
    Bracket.read? cs = none ↔ ∀ fill body, cs = openingBracket fill ++ body →
      ¬ closingBracket fill <:+: body := by
  unfold Bracket.read?
  split
  · rename_i hopen
    refine iff_of_true rfl ?_
    rintro fill body rfl
    rw [bracketOpener_openingBracket] at hopen
    cases hopen
  · rename_i fill body hopen
    have hcs := bracketOpener_eq_some_iff.mp hopen
    rw [Option.map_eq_none_iff, splitAtFirst_eq_none_iff (closingBracket_ne_nil fill)]
    constructor
    · intro hclose fill' body' hcs'
      rw [bracketOpener_eq_some_iff.mpr hcs'] at hopen
      cases hopen
      exact hclose
    · intro h
      exact h fill body hcs

/-! ## Reading line comments -/

theorem dropFinalReturn_spec (line : List Char) : line = dropFinalReturn line ++ ['\r'] ∨
    (dropFinalReturn line = line ∧ line.getLast? ≠ some '\r') := by
  unfold dropFinalReturn
  split
  · rename_i hlast
    obtain ⟨front, rfl⟩ := List.getLast?_eq_some_iff.mp hlast
    rw [List.dropLast_concat]
    exact .inl rfl
  · rename_i hlast
    exact .inr ⟨rfl, hlast⟩

theorem dropFinalReturn_eq {line value : List Char} (h : line = value ++ ['\r'] ∨
    (value = line ∧ line.getLast? ≠ some '\r')) : dropFinalReturn line = value := by
  unfold dropFinalReturn
  rcases h with rfl | ⟨rfl, hlast⟩
  · rw [if_pos List.getLast?_concat, List.dropLast_concat]
  · rw [if_neg hlast]

/-! ## Where a bracket opens -/

/-- No opener goes on into the text. -/
def CutsOpener (after : List Char) : Prop :=
  ∀ c ∈ after.head?, c ≠ '[' ∧ c ≠ '='

theorem EndsRaw.cutsOpener {after : List Char} (h : EndsRaw after) : CutsOpener after := by
  rcases h with rfl | rfl | ⟨d, ds, rfl, hd⟩
  · simp [CutsOpener]
  · simp [CutsOpener]
  · intro c hc
    cases hc
    constructor <;> rintro rfl <;> simp [IsDelimiter] at hd

theorem cutsOpener_of_lineFeed {after : List Char} (h : after = [] ∨ after.head? = some '\n') :
    CutsOpener after := by
  rcases h with rfl | h
  · simp [CutsOpener]
  · simp [CutsOpener, h]

theorem mem_openingBracket {c : Char} {fill : Nat} (h : c ∈ openingBracket fill) :
    c = '[' ∨ c = '=' := by
  simp only [openingBracket, List.mem_cons, List.mem_append, List.mem_replicate] at h
  rcases h with h | ⟨-, h⟩ | h | h
  · exact .inl h
  · exact .inr h
  · exact .inl h
  · cases h

/-- An opener then stays within the text before. -/
theorem CutsOpener.opener_within {s after body : List Char} {fill : Nat} (hcut : CutsOpener after)
    (h : s ++ after = openingBracket fill ++ body) :
    ∃ front, s = openingBracket fill ++ front ∧ body = front ++ after := by
  rcases List.append_eq_append_iff.mp h with ⟨beyond, hopening, hafter⟩ | ⟨front, hs, hbody⟩
  · cases beyond with
    | nil => exact ⟨[], by rw [List.append_nil, hopening, List.append_nil], hafter.symm⟩
    | cons c beyond =>
        have hc := hcut c (by rw [hafter]; rfl)
        have hmem : c ∈ openingBracket fill := by simp [hopening]
        rcases mem_openingBracket hmem with rfl | rfl
        · exact absurd rfl hc.1
        · exact absurd rfl hc.2
  · exact ⟨front, hs, hbody⟩

theorem OpensBracket.append {s : List Char} (h : OpensBracket s) (after : List Char) :
    OpensBracket (s ++ after) := by
  obtain ⟨fill, body, rfl⟩ := h
  exact ⟨fill, body ++ after, List.append_assoc ..⟩

theorem OpensBracket.of_append {s after : List Char} (h : OpensBracket (s ++ after))
    (hcut : CutsOpener after) : OpensBracket s := by
  obtain ⟨fill, body, heq⟩ := h
  obtain ⟨front, hs, -⟩ := hcut.opener_within heq
  exact ⟨fill, front, hs⟩

/-- A text that opens a bracket opens it with one fill. -/
theorem openingBracket_inj {fill fill' : Nat} {body body' : List Char}
    (h : openingBracket fill ++ body = openingBracket fill' ++ body') :
    fill = fill' ∧ body = body' := by
  have hopen := bracketOpener_openingBracket fill body
  rw [h, bracketOpener_openingBracket] at hopen
  cases hopen
  exact ⟨rfl, rfl⟩

theorem UnclosedForm.truncate {s front back : List Char} (h : UnclosedForm s (front ++ back)) :
    UnclosedForm s front := by
  obtain ⟨htext, hends, fill, body, hs, hclose⟩ := h
  refine ⟨htext, hends.of_append, fill, body, hs, fun hinfix => hclose ?_⟩
  rw [← List.append_assoc]
  exact hinfix.trans (List.prefix_append _ _).isInfix

theorem UnclosedForm.opensBracket {s after : List Char} (h : UnclosedForm s after) :
    OpensBracket (s ++ after) := by
  obtain ⟨-, -, fill, body, rfl, -⟩ := h
  exact ⟨fill, body ++ after, List.append_assoc ..⟩

theorem UnclosedForm.read?_eq_none {s after : List Char} (h : UnclosedForm s after) :
    Bracket.read? (s ++ after) = none := by
  obtain ⟨-, -, fill, body, rfl, hclose⟩ := h
  refine Bracket.read?_eq_none_iff.mpr fun fill' body' heq => ?_
  rw [List.append_assoc] at heq
  obtain ⟨rfl, rfl⟩ := openingBracket_inj heq
  exact hclose

/-- Unquoted text from which no bracket can be read, though it opens one. -/
theorem unclosedForm_spanRaw {cs : List Char} (hopen : OpensBracket cs)
    (hread : Bracket.read? cs = none) : UnclosedForm (spanRaw cs).1 (spanRaw cs).2 := by
  obtain ⟨htext, hends⟩ := spanRaw_spec cs
  refine ⟨htext, hends, ?_⟩
  obtain ⟨fill, body, hcs⟩ := hopen
  obtain ⟨front, hfront, hbody⟩ := hends.cutsOpener.opener_within ((spanRaw_append cs).trans hcs)
  refine ⟨fill, front, hfront, ?_⟩
  rw [← hbody]
  exact Bracket.read?_eq_none_iff.mp hread fill body hcs

theorem read?_eq_none_of_not_opensBracket {cs : List Char} (h : ¬ OpensBracket cs) :
    Bracket.read? cs = none :=
  Bracket.read?_eq_none_iff.mpr fun fill body hcs => absurd ⟨fill, body, hcs⟩ h

/-! ## What is read has a shape -/

namespace Lexeme

theorem raw_shape {c : Char} {cs : List Char} (hc : ¬ IsDelimiter c)
    (hread : Bracket.read? (c :: cs) = none) :
    LexicalShape (raw (c :: cs)).kind (raw (c :: cs)).text (raw (c :: cs)).value
      (raw (c :: cs)).rest := by
  obtain ⟨htext, hends⟩ := spanRaw_spec (c :: cs)
  have hcs := spanRaw_append (c :: cs)
  unfold raw
  split
  · rename_i rest hspan
    rw [hspan, List.nil_append] at hcs
    rw [hspan] at hends
    -- Nothing can be taken, so the text is a backslash that ends the input.
    have hends : EndsRaw (c :: cs) := hcs ▸ hends
    rcases hends with h | h | ⟨d, ds, h, hd⟩
    · cases h
    · rw [h]
      exact .loneBackslash
    · cases h
      exact absurd hd hc
  · rename_i text rest hnil hspan
    by_cases hopen : OpensBracket (c :: cs)
    · have hform := unclosedForm_spanRaw hopen hread
      rw [hspan] at hform
      simp only [opensBracket_iff.mp hopen, if_true]
      exact .unmatchedArgument hform
    · rw [hspan] at htext hends hcs
      have hnot : ¬ OpensBracket text := fun h => hopen (hcs ▸ h.append rest)
      simp only [if_neg (fun h => hopen (opensBracket_iff.mpr h))]
      exact .raw hnil htext hnot hends

theorem quoted_shape (cs : List Char) :
    LexicalShape (quoted cs).kind (quoted cs).text (quoted cs).value (quoted cs).rest := by
  unfold quoted
  split
  · rename_i body rest hbody
    have hquoted := quotedBody_spec hbody
    exact .quoted hquoted (linesJoined_joinLines hquoted)
  · rename_i hnone
    obtain ⟨body, half, rfl, hbody, hhalf⟩ := quotedBody_eq_none hnone
    exact .unclosedQuote hbody hhalf

theorem hash_shape (cs : List Char) :
    LexicalShape (hash cs).kind (hash cs).text (hash cs).value (hash cs).rest := by
  unfold hash
  split
  · rename_i hopen
    split
    · rename_i b hb
      exact .bracketComment (Bracket.form_of_read? hb)
    · rename_i hnone
      exact .unmatchedComment (unclosedForm_spanRaw (opensBracket_iff.mpr hopen) hnone)
  · rename_i hopen
    have hcs := List.takeWhile_append_dropWhile (p := (· != '\n')) (l := cs)
    refine .lineComment ?_ ?_ ?_ (dropFinalReturn_spec _)
    · intro hmem
      exact absurd (List.all_eq_true.mp List.all_takeWhile _ hmem) (by decide)
    · intro hline
      rw [← hcs] at hopen
      exact hopen (opensBracket_iff.mp (hline.append _))
    · by_cases hrest : cs.dropWhile (· != '\n') = []
      · exact .inl hrest
      · have hhead := List.head_dropWhile_not (p := (· != '\n')) hrest
        rw [bne_eq_false_iff_eq] at hhead
        exact .inr (by rw [List.head?_eq_some_head hrest, hhead])

theorem bracket_shape {c : Char} (hc : ¬ IsDelimiter c) (cs : List Char) :
    LexicalShape (bracket (c :: cs)).kind (bracket (c :: cs)).text (bracket (c :: cs)).value
      (bracket (c :: cs)).rest := by
  unfold bracket
  split
  · rename_i b hb
    exact .bracketed (Bracket.form_of_read? hb)
  · rename_i hnone
    exact raw_shape hc hnone

/-- Whatever is read has the shape of its kind. -/
theorem shape_read {c : Char} (hblank : isBlank c = false) (cs : List Char) :
    LexicalShape (read c cs).kind (read c cs).text (read c cs).value (read c cs).rest := by
  unfold read
  split
  · exact .leftParen
  · exact .rightParen
  · exact .semicolon
  · exact quoted_shape cs
  · exact hash_shape cs
  · exact bracket_shape (by simp [IsDelimiter]) cs
  · rename_i hleft hright hsemi hquote hhash hopen
    refine raw_shape ?_ (read?_eq_none_of_not_opensBracket ?_)
    · intro hdelim
      -- A delimiter is blank or has a case of its own.
      simp only [IsDelimiter, List.mem_cons, List.not_mem_nil, or_false] at hdelim
      rcases hdelim with rfl | rfl | rfl | rfl | rfl | rfl | rfl | rfl | rfl
      · exact absurd hblank (by decide)
      · exact absurd hblank (by decide)
      · exact absurd hblank (by decide)
      · exact absurd hblank (by decide)
      · exact hleft rfl
      · exact hright rfl
      · exact hquote rfl
      · exact hhash rfl
      · exact hsemi rfl
    · rintro ⟨fill, body, h⟩
      cases h
      exact hopen rfl

/-! ## What has a shape is read -/

theorem raw_of_rawText {s after : List Char} (hne : s ≠ []) (hs : RawText s)
    (hafter : EndsRaw after) (kind : Kind)
    (hkind : (if (bracketOpener (s ++ after)).isSome then Kind.unmatchedBracket else .raw) = kind) :
    raw (s ++ after) = ⟨kind, s, s, after⟩ := by
  unfold raw
  rw [hs.spanRaw_append hafter]
  split
  · rename_i heq
    exact absurd (Prod.mk.inj heq).1 hne
  · rename_i heq
    obtain ⟨rfl, rfl⟩ := Prod.mk.inj heq
    rw [hkind]

/-- Unquoted text is read as such, unless a bracket can be read from it. -/
theorem read_eq_raw {c : Char} {cs : List Char} (hc : ¬ IsDelimiter c)
    (hread : Bracket.read? (c :: cs) = none) : read c cs = raw (c :: cs) := by
  unfold read
  split
  · exact absurd (by simp [IsDelimiter]) hc
  · exact absurd (by simp [IsDelimiter]) hc
  · exact absurd (by simp [IsDelimiter]) hc
  · exact absurd (by simp [IsDelimiter]) hc
  · exact absurd (by simp [IsDelimiter]) hc
  · unfold bracket
    rw [hread]
  · rfl

theorem not_isDelimiter_of_rawText {c : Char} {cs : List Char} (h : RawText (c :: cs)) :
    ¬ IsDelimiter c := by
  intro hc
  exact (h.of_plain hc.ne_backslash).1 hc

theorem hash_of_lineComment {line value after : List Char} (hline : '\n' ∉ line)
    (hopen : ¬ OpensBracket line) (hafter : after = [] ∨ after.head? = some '\n')
    (hvalue : dropFinalReturn line = value) :
    hash (line ++ after) = ⟨.comment, '#' :: line, value, after⟩ := by
  have hall : ∀ c ∈ line, (c != '\n') = true := by
    intro c hc
    simp only [bne_iff_ne, ne_eq]
    rintro rfl
    exact hline hc
  have htake : (line ++ after).takeWhile (· != '\n') = line := by
    rw [List.takeWhile_append_of_pos hall]
    rcases hafter with rfl | hafter
    · simp
    · obtain ⟨cs, rfl⟩ := List.head?_eq_some_iff.mp hafter
      simp
  have hdrop : (line ++ after).dropWhile (· != '\n') = after := by
    rw [List.dropWhile_append_of_pos hall]
    rcases hafter with rfl | hafter
    · rfl
    · obtain ⟨cs, rfl⟩ := List.head?_eq_some_iff.mp hafter
      rfl
  have hnone : ¬ (bracketOpener (line ++ after)).isSome = true := by
    intro h
    exact hopen ((opensBracket_iff.mpr h).of_append (cutsOpener_of_lineFeed hafter))
  unfold hash
  rw [if_neg hnone, htake, hdrop, ← hvalue]

theorem hash_of_unclosedForm {s after : List Char} (h : UnclosedForm s after) :
    hash (s ++ after) = ⟨.unmatchedBracket, '#' :: s, '#' :: s, after⟩ := by
  unfold hash
  rw [if_pos (opensBracket_iff.mp h.opensBracket), h.read?_eq_none]
  show Lexeme.mk _ _ _ _ = _
  rw [h.1.spanRaw_append h.2.1]

theorem hash_of_bracketForm {s value : List Char} (h : BracketForm s value) (after : List Char) :
    hash (s ++ after) = ⟨.comment, '#' :: s, value, after⟩ := by
  obtain ⟨b, hread, rfl, rfl, rfl⟩ := h.read?_append after
  have hopen : OpensBracket (b.text ++ b.rest) :=
    OpensBracket.append ⟨b.fill, b.content ++ closingBracket b.fill, rfl⟩ b.rest
  unfold hash
  rw [if_pos (opensBracket_iff.mp hopen), hread]

/-- A piece of some shape is read as just that. -/
theorem read_of_shape {kind : Kind} {c : Char} {s value after : List Char}
    (h : LexicalShape kind (c :: s) value after) :
    read c (s ++ after) = ⟨kind, c :: s, value, after⟩ := by
  generalize hcs : c :: s = cs at h
  cases h with
  | leftParen => cases hcs; rfl
  | rightParen => cases hcs; rfl
  | semicolon => cases hcs; rfl
  | raw hne htext hopen hafter =>
      subst hcs
      have hnone : ¬ OpensBracket (c :: s ++ after) := fun h =>
        hopen (h.of_append hafter.cutsOpener)
      have hread : Bracket.read? (c :: (s ++ after)) = none :=
        read?_eq_none_of_not_opensBracket hnone
      rw [read_eq_raw (not_isDelimiter_of_rawText htext) hread]
      exact raw_of_rawText hne htext hafter _ (if_neg fun h => hnone (opensBracket_iff.mpr h))
  | @quoted body value _ hbody hvalue =>
      cases hcs
      show quoted (body ++ ['"'] ++ after) = _
      unfold quoted
      rw [List.append_assoc, List.singleton_append, hbody.quotedBody_append, ← hvalue.joinLines_eq]
  | bracketed hform =>
      subst hcs
      obtain ⟨b, hread, htext, rfl, rfl⟩ := hform.read?_append after
      -- The opener is all that begins with this character.
      obtain rfl : '[' = c := (List.cons.inj htext).1
      show bracket ('[' :: s ++ b.rest) = _
      unfold bracket
      rw [hread, ← htext]
  | bracketComment hform => cases hcs; exact hash_of_bracketForm hform after
  | lineComment hline hopen hafter hvalue =>
      cases hcs
      exact hash_of_lineComment hline hopen hafter (dropFinalReturn_eq hvalue)
  | unmatchedArgument hform =>
      subst hcs
      have hread : Bracket.read? (c :: (s ++ after)) = none := hform.read?_eq_none
      rw [read_eq_raw (not_isDelimiter_of_rawText hform.1) hread]
      exact raw_of_rawText (List.cons_ne_nil _ _) hform.1 hform.2.1 _
        (if_pos (opensBracket_iff.mp hform.opensBracket))
  | unmatchedComment hform => cases hcs; exact hash_of_unclosedForm hform
  | loneBackslash => cases hcs; rfl
  | @unclosedQuote body half hbody hhalf =>
      cases hcs
      show quoted (body ++ half ++ []) = _
      unfold quoted
      rw [List.append_nil, hbody.quotedBody_half hhalf]
      rfl

end Lexeme

/-! ## What stands behind a token -/

namespace LexicalShape

variable {kind : Kind} {s value front back : List Char}

/-- Text behind a token can be cut off. -/
theorem truncate (h : LexicalShape kind s value (front ++ back)) :
    LexicalShape kind s value front := by
  generalize hafter : front ++ back = after at h
  cases h with
  | leftParen => exact .leftParen
  | rightParen => exact .rightParen
  | semicolon => exact .semicolon
  | raw hne htext hopen hends => exact .raw hne htext hopen (EndsRaw.of_append (hafter ▸ hends))
  | quoted hbody hvalue => exact .quoted hbody hvalue
  | bracketed hform => exact .bracketed hform
  | bracketComment hform => exact .bracketComment hform
  | lineComment hline hopen hends hvalue =>
      refine .lineComment hline hopen ?_ hvalue
      subst hafter
      cases front with
      | nil => exact .inl rfl
      | cons c front => exact hends.imp_left fun h => absurd h (List.cons_ne_nil _ _)
  | unmatchedArgument hform => exact .unmatchedArgument (UnclosedForm.truncate (hafter ▸ hform))
  | unmatchedComment hform => exact .unmatchedComment (UnclosedForm.truncate (hafter ▸ hform))
  | loneBackslash =>
      obtain ⟨rfl, -⟩ := List.append_eq_nil_iff.mp hafter
      exact .loneBackslash
  | unclosedQuote hbody hhalf =>
      obtain ⟨rfl, -⟩ := List.append_eq_nil_iff.mp hafter
      exact .unclosedQuote hbody hhalf

/-- A line break and more can be put behind a token, unless it is one that the
end of the input leaves open or a lone backslash follows. -/
theorem extend {after : List Char} (h : LexicalShape kind s value after)
    (hbracket : kind ≠ .unmatchedBracket) (hunparseable : kind ≠ .unparseable)
    (hafter : after ≠ ['\\']) (more : List Char) :
    LexicalShape kind s value (after ++ '\n' :: more) := by
  cases h with
  | leftParen => exact .leftParen
  | rightParen => exact .rightParen
  | semicolon => exact .semicolon
  | raw hne htext hopen hends =>
      have hfeed : EndsRaw ('\n' :: more) := .inr (.inr ⟨'\n', more, rfl, by simp [IsDelimiter]⟩)
      exact .raw hne htext hopen (hends.append_of_ne hafter hfeed)
  | quoted hbody hvalue => exact .quoted hbody hvalue
  | bracketed hform => exact .bracketed hform
  | bracketComment hform => exact .bracketComment hform
  | lineComment hline hopen hends hvalue =>
      refine .lineComment hline hopen (.inr ?_) hvalue
      rcases hends with rfl | hfeed
      · rfl
      · rw [List.head?_append, hfeed]
        rfl
  | unmatchedArgument => exact absurd rfl hbracket
  | unmatchedComment => exact absurd rfl hbracket
  | loneBackslash => exact absurd rfl hunparseable
  | unclosedQuote => exact absurd rfl hunparseable

end LexicalShape

end Listfile
