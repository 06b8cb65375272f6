import Listfile.Proofs.Lexing

/-!
# Line endings

A text may end its lines by line feeds alone or by a carriage return before
each of them. The scanner reads the same tokens from both.

* `toCrlf` — the text with a carriage return before every line feed;
* `IsPlainMark.splitAtFirst_toCrlf` — marks without line breaks stay where they are;
* `LexicalShape.crlf` — a token keeps its shape, but for the carriage return
  that a line comment takes from the line break behind it (`BeginsToken`);
* `scanFrom_toCrlf` — the run over the tokens;
* `scan_toCrlf` — the same for whole texts.
-/

namespace Listfile

open Text

/-! ## A carriage return before every line feed -/

/-- The characters with a carriage return before every line feed. -/
def toCrlf (cs : List Char) : List Char :=
  cs.flatMap fun c => if c = '\n' then ['\r', '\n'] else [c]

section Characters

variable {c : Char} {cs ds : List Char}

@[simp] theorem toCrlf_nil : toCrlf [] = [] := rfl

@[simp] theorem toCrlf_lineFeed : toCrlf ('\n' :: cs) = '\r' :: '\n' :: toCrlf cs := rfl

theorem toCrlf_cons (hc : c ≠ '\n') : toCrlf (c :: cs) = c :: toCrlf cs := by
  simp [toCrlf, hc]

@[simp] theorem toCrlf_append : toCrlf (cs ++ ds) = toCrlf cs ++ toCrlf ds :=
  List.flatMap_append

theorem toCrlf_eq_self (h : '\n' ∉ cs) : toCrlf cs = cs := by
  induction cs with
  | nil => rfl
  | cons c cs ih =>
      rw [List.mem_cons, not_or] at h
      rw [toCrlf_cons (Ne.symm h.1), ih h.2]

theorem blank_toCrlf (h : ∀ c ∈ cs, isBlank c = true) : ∀ c ∈ toCrlf cs, isBlank c = true := by
  intro c hc
  obtain ⟨d, hd, hcd⟩ := List.mem_flatMap.mp hc
  by_cases hfeed : d = '\n'
  · rw [if_pos hfeed] at hcd
    simp only [List.mem_cons, List.not_mem_nil, or_false] at hcd
    rcases hcd with rfl | rfl <;> decide
  · rw [if_neg hfeed, List.mem_singleton] at hcd
    exact hcd ▸ h d hd

end Characters

/-! ## Lines and columns -/

/-- The two positions are on the same line and column. -/
structure Position.SamePlace (p p' : Position) : Prop where
  line : p'.line = p.line
  column : p'.column = p.column

namespace Position.SamePlace

variable {p p' : Position}

theorem next (h : p.SamePlace p') (c : Char) : (p.next c).SamePlace (p'.next c) := by
  by_cases hc : c = '\n'
  · constructor <;> simp [Position.next, hc, h.line]
  · constructor <;> simp [Position.next, hc, h.line, h.column]

theorem lineBreak (h : p.SamePlace p') : (p.next '\n').SamePlace ((p'.next '\r').next '\n') := by
  constructor <;> simp [Position.next, h.line]

/-- Columns are counted from the last line feed, so what ends the line before
does not count. -/
theorem advance_toCrlf (h : p.SamePlace p') (cs : List Char) :
    (p.advance cs).SamePlace (p'.advance (toCrlf cs)) := by
  induction cs generalizing p p' with
  | nil => exact h
  | cons c cs ih =>
      by_cases hc : c = '\n'
      · subst hc
        exact ih h.lineBreak
      · rw [toCrlf_cons hc]
        exact ih (h.next c)

end Position.SamePlace

/-! ## Marks -/

section Marks

variable {c : Char} {cs mark : List Char}

/-- The mark holds no character of a line break. -/
def IsPlainMark (mark : List Char) : Prop :=
  '\r' ∉ mark ∧ '\n' ∉ mark

theorem isPlainMark_closingBracket (fill : Nat) : IsPlainMark (closingBracket fill) := by
  simp [IsPlainMark, closingBracket]

theorem IsPlainMark.not_prefix_cons (hmark : IsPlainMark mark) (hne : mark ≠ [])
    (hc : c = '\r' ∨ c = '\n') (cs : List Char) : ¬ mark <+: c :: cs := by
  intro hpre
  cases mark with
  | nil => exact hne rfl
  | cons m mark =>
      obtain ⟨rfl, -⟩ := List.cons_prefix_cons.mp hpre
      rcases hc with rfl | rfl
      · exact hmark.1 List.mem_cons_self
      · exact hmark.2 List.mem_cons_self

theorem IsPlainMark.prefix_toCrlf_iff (hmark : IsPlainMark mark) :
    mark <+: toCrlf cs ↔ mark <+: cs := by
  constructor
  · intro h
    induction mark generalizing cs with
    | nil => exact List.nil_prefix
    | cons m mark ih =>
        have hrest : IsPlainMark mark := by
          simp only [IsPlainMark, List.mem_cons, not_or] at hmark ⊢
          exact ⟨hmark.1.2, hmark.2.2⟩
        cases cs with
        | nil => exact h
        | cons c cs =>
            by_cases hc : c = '\n'
            · subst hc
              exact absurd h (hmark.not_prefix_cons (List.cons_ne_nil _ _) (.inl rfl) _)
            · rw [toCrlf_cons hc, List.cons_prefix_cons] at h
              exact List.cons_prefix_cons.mpr ⟨h.1, ih hrest h.2⟩
  · rintro ⟨back, rfl⟩
    rw [toCrlf_append, toCrlf_eq_self hmark.2]
    exact List.prefix_append _ _

/-- The first occurrence of a mark stays the first. -/
theorem IsPlainMark.splitAtFirst_toCrlf (hmark : IsPlainMark mark) (hne : mark ≠ [])
    (cs : List Char) :
    splitAtFirst mark (toCrlf cs) = (splitAtFirst mark cs).map (Prod.map toCrlf toCrlf) := by
  induction cs with
  | nil => rfl
  | cons c cs ih =>
      by_cases hc : c = '\n'
      · subst hc
        have hreturn := hmark.not_prefix_cons hne (.inl rfl)
        have hfeed := hmark.not_prefix_cons hne (.inr rfl)
        rw [toCrlf_lineFeed, splitAtFirst_cons_of_not_prefix (hreturn _),
          splitAtFirst_cons_of_not_prefix (hfeed _), splitAtFirst_cons_of_not_prefix (hfeed _), ih]
        cases splitAtFirst mark cs <;> rfl
      · by_cases hpre : mark <+: c :: cs
        · have hpre' : mark <+: c :: toCrlf cs := by
            rw [← toCrlf_cons hc]
            exact hmark.prefix_toCrlf_iff.mpr hpre
          rw [toCrlf_cons hc, splitAtFirst_cons_of_prefix hpre, splitAtFirst_cons_of_prefix hpre',
            ← toCrlf_cons hc]
          obtain ⟨back, hback⟩ := hpre
          rw [← hback, toCrlf_append, toCrlf_eq_self hmark.2, List.drop_left, Option.map_some,
            List.drop_left]
          rfl
        · have hpre' : ¬ mark <+: c :: toCrlf cs := by
            rw [← toCrlf_cons hc]
            exact fun h => hpre (hmark.prefix_toCrlf_iff.mp h)
          rw [toCrlf_cons hc, splitAtFirst_cons_of_not_prefix hpre,
            splitAtFirst_cons_of_not_prefix hpre', ih]
          cases splitAtFirst mark cs with
          | none => rfl
          | some split => simp [Prod.map, toCrlf_cons hc]

theorem IsPlainMark.isFirst_toCrlf (hmark : IsPlainMark mark) (hne : mark ≠ [])
    (h : IsFirst mark cs) : IsFirst mark (toCrlf cs) := by
  have hsplit := hmark.splitAtFirst_toCrlf hne (cs ++ (mark ++ []))
  rw [h.splitAtFirst_append hne, toCrlf_append, toCrlf_append, toCrlf_eq_self hmark.2] at hsplit
  exact isFirst_of_splitAtFirst hsplit

theorem IsPlainMark.infix_of_toCrlf (hmark : IsPlainMark mark) (hne : mark ≠ [])
    (h : mark <:+: toCrlf cs) : mark <:+: cs := by
  by_cases hinfix : mark <:+: cs
  · exact hinfix
  · have hsplit := hmark.splitAtFirst_toCrlf hne cs
    rw [(splitAtFirst_eq_none_iff hne).mpr hinfix] at hsplit
    exact absurd h ((splitAtFirst_eq_none_iff hne).mp hsplit)

end Marks

/-! ## Shapes -/

section Shapes

variable {s body value content after : List Char} {kind : Kind}

theorem EscapedText.crlf {allowed : Char → Prop} (hbreak : allowed '\r' ∧ allowed '\n')
    (h : EscapedText allowed s) : EscapedText allowed (toCrlf s) := by
  induction h with
  | nil => exact .nil
  | @escape c cs _ ih =>
      rw [toCrlf_cons (by decide)]
      by_cases hc : c = '\n'
      · subst hc
        exact .escape (.plain (by decide) hbreak.2 ih)
      · rw [toCrlf_cons hc]
        exact .escape ih
  | @plain c cs hc hallowed _ ih =>
      by_cases hfeed : c = '\n'
      · subst hfeed
        exact .plain (by decide) hbreak.1 (.plain hc hbreak.2 ih)
      · rw [toCrlf_cons hfeed]
        exact .plain hc hallowed ih

/-- A line continuation of two characters becomes one of three. -/
theorem LinesJoined.crlf (h : LinesJoined body value) (hreturn : '\r' ∉ body) :
    LinesJoined (toCrlf body) (toCrlf value) := by
  induction h with
  | nil => exact .nil
  | lineFeed _ ih =>
      simp only [List.mem_cons, not_or] at hreturn
      exact .returnLineFeed (ih hreturn.2.2)
  | returnLineFeed => simp at hreturn
  | @escape c cs value hc _ _ ih =>
      simp only [List.mem_cons, not_or] at hreturn
      have hback : '\\' ≠ '\n' := by decide
      rw [toCrlf_cons hback, toCrlf_cons hback, toCrlf_cons hc, toCrlf_cons hc]
      refine .escape hc ?_ (ih hreturn.2.2)
      rintro rfl
      exact absurd rfl hreturn.2.1
  | @plain c cs value hc _ ih =>
      simp only [List.mem_cons, not_or] at hreturn
      by_cases hfeed : c = '\n'
      · subst hfeed
        exact .plain (by decide) (.plain hc (ih hreturn.2))
      · rw [toCrlf_cons hfeed, toCrlf_cons hfeed]
        exact .plain hc (ih hreturn.2)

theorem EndsRaw.crlf (h : EndsRaw after) : EndsRaw (toCrlf after) := by
  rcases h with rfl | rfl | ⟨c, cs, rfl, hc⟩
  · exact .inl rfl
  · exact .inr (.inl rfl)
  · by_cases hfeed : c = '\n'
    · subst hfeed
      exact .inr (.inr ⟨'\r', '\n' :: toCrlf cs, rfl, by simp [IsDelimiter]⟩)
    · exact .inr (.inr ⟨c, toCrlf cs, toCrlf_cons hfeed, hc⟩)

theorem LineBreakDropped.crlf (h : LineBreakDropped content value) (hreturn : '\r' ∉ content) :
    LineBreakDropped (toCrlf content) (toCrlf value) := by
  rcases h with rfl | rfl | ⟨rfl, hfeed, -⟩
  · exact .inr (.inl rfl)
  · simp at hreturn
  · refine .inr (.inr ⟨rfl, ?_⟩)
    cases value with
    | nil => simp
    | cons c cs =>
        have hc : c ≠ '\n' := by simpa using hfeed
        have hc' : '\r' ≠ c := by
          rintro rfl
          simp at hreturn
        simp [toCrlf_cons hc, hc, hc']

theorem BracketForm.crlf (h : BracketForm s value) (hreturn : '\r' ∉ s) :
    BracketForm (toCrlf s) (toCrlf value) := by
  obtain ⟨fill, content, rfl, hfirst, hvalue⟩ := h
  simp only [List.mem_append, not_or] at hreturn
  have hopener : '\n' ∉ openingBracket fill := by simp [openingBracket]
  have hmark := isPlainMark_closingBracket fill
  refine ⟨fill, toCrlf content, ?_, ?_, hvalue.crlf hreturn.2.1⟩
  · rw [toCrlf_append, toCrlf_append, toCrlf_eq_self hopener, toCrlf_eq_self hmark.2]
  · exact hmark.isFirst_toCrlf (closingBracket_ne_nil fill) hfirst

/-- What is never closed on one line is not closed by other line endings. -/
theorem UnclosedForm.crlf (h : UnclosedForm s after) (hfeed : '\n' ∉ s) :
    UnclosedForm s (toCrlf after) := by
  obtain ⟨htext, hends, fill, body, rfl, hclose⟩ := h
  refine ⟨htext, hends.crlf, fill, body, rfl, ?_⟩
  intro hinfix
  have hbody : '\n' ∉ body := fun hmem => hfeed (List.mem_append_right _ hmem)
  rw [← toCrlf_eq_self hbody, ← toCrlf_append] at hinfix
  exact hclose
    ((isPlainMark_closingBracket fill).infix_of_toCrlf (closingBracket_ne_nil fill) hinfix)

/-- The characters `s` begin a token that says `value`. The token is over
behind them, or behind some blanks with which `after` begins. -/
def BeginsToken (kind : Kind) (s value after : List Char) : Prop :=
  ∃ tail rest, after = tail ++ rest ∧ (∀ c ∈ tail, isBlank c = true) ∧
    LexicalShape kind (s ++ tail) value rest

theorem LexicalShape.beginsToken (h : LexicalShape kind s value after) :
    BeginsToken kind s value after :=
  ⟨[], after, rfl, by simp, by rwa [List.append_nil]⟩

/-- The carriage return behind a line comment becomes part of it, and is no part
of what it says. -/
theorem beginsToken_lineComment {line : List Char} (hline : '\n' ∉ line) (hreturn : '\r' ∉ line)
    (hopen : ¬ OpensBracket line) (hafter : after = [] ∨ after.head? = some '\n') :
    BeginsToken .comment ('#' :: line) line (toCrlf after) := by
  rcases hafter with rfl | hhead
  · have hlast : line.getLast? ≠ some '\r' := by
      intro h
      exact hreturn (List.mem_of_getLast? h)
    exact LexicalShape.beginsToken (.lineComment hline hopen (.inl rfl) (.inr ⟨rfl, hlast⟩))
  · obtain ⟨more, rfl⟩ := List.head?_eq_some_iff.mp hhead
    have hopen' : ¬ OpensBracket (line ++ ['\r']) := by
      intro h
      exact hopen (h.of_append (by simp [CutsOpener]))
    refine ⟨['\r'], '\n' :: toCrlf more, rfl, ?_, ?_⟩
    · intro c hc
      rw [List.mem_singleton.mp hc]
      decide
    · exact .lineComment (by simp [hline]) hopen' (.inr rfl) (.inl rfl)

/-- Every token begins with other line endings as it does with these. -/
theorem LexicalShape.crlf (h : LexicalShape kind s value after) (hreturn : '\r' ∉ s)
    (hfeed : kind = .raw ∨ kind = .unmatchedBracket → '\n' ∉ value) :
    BeginsToken kind (toCrlf s) (toCrlf value) (toCrlf after) := by
  have hhash : ∀ cs, toCrlf ('#' :: cs) = '#' :: toCrlf cs := by
    intro cs
    exact toCrlf_cons (by decide)
  have hquote : ∀ cs, toCrlf ('"' :: cs) = '"' :: toCrlf cs := by
    intro cs
    exact toCrlf_cons (by decide)
  cases h with
  | leftParen => exact beginsToken .leftParen
  | rightParen => exact beginsToken .rightParen
  | semicolon => exact beginsToken .semicolon
  | raw hne htext hopen hafter =>
      rw [toCrlf_eq_self (hfeed (.inl rfl))]
      exact beginsToken (.raw hne htext hopen hafter.crlf)
  | quoted hbody hvalue =>
      simp only [List.mem_cons, List.mem_append, not_or] at hreturn
      rw [hquote, toCrlf_append]
      exact beginsToken (.quoted (hbody.crlf (by decide)) (hvalue.crlf hreturn.2.1))
  | bracketed hform => exact beginsToken (.bracketed (hform.crlf hreturn))
  | bracketComment hform =>
      simp only [List.mem_cons, not_or] at hreturn
      rw [hhash]
      exact beginsToken (.bracketComment (hform.crlf hreturn.2))
  | lineComment hline hopen hafter hvalue =>
      simp only [List.mem_cons, not_or] at hreturn
      rcases hvalue with rfl | ⟨rfl, -⟩
      · simp at hreturn
      · rw [hhash, toCrlf_eq_self hline]
        exact beginsToken_lineComment hline hreturn.2 hopen hafter
  | unmatchedArgument hform =>
      have hfeed := hfeed (.inr rfl)
      rw [toCrlf_eq_self hfeed]
      exact beginsToken (.unmatchedArgument (hform.crlf hfeed))
  | unmatchedComment hform =>
      have hfeed := hfeed (.inr rfl)
      rw [toCrlf_eq_self hfeed]
      simp only [List.mem_cons, not_or] at hfeed
      exact beginsToken (.unmatchedComment (hform.crlf hfeed.2))
  | loneBackslash => exact beginsToken .loneBackslash
  | @unclosedQuote body half hbody hhalf =>
      have hhalf' : toCrlf half = half := by
        rcases hhalf with rfl | rfl <;> rfl
      rw [hquote, toCrlf_append, hhalf']
      exact beginsToken (.unclosedQuote (hbody.crlf (by decide)) hhalf)

end Shapes

/-! ## Tokens -/

/-- Scanning goes on behind the characters that begin the token: what it takes
beyond them would be skipped. -/
theorem BeginsToken.scanFrom_eq {gap s value after : List Char} {c : Char} {kind : Kind}
    (h : BeginsToken kind (c :: s) value after) (hgap : ∀ d ∈ gap, isBlank d = true)
    (hc : isBlank c = false) (p : Position) :
    ∃ t : Token, t.kind = kind ∧ t.value = String.ofList value ∧
      t.line = (p.advance gap).line ∧ t.column = (p.advance gap).column ∧
      scanFrom p (gap ++ (c :: s ++ after)) =
        t :: scanFrom ((p.advance gap).advance (c :: s)) after := by
  obtain ⟨tail, rest, rfl, htail, hshape⟩ := h
  have hshape : LexicalShape kind (c :: (s ++ tail)) value rest := hshape
  refine ⟨tokenAt (p.advance gap) kind (c :: (s ++ tail)) value, rfl, rfl, rfl, rfl, ?_⟩
  rw [scanFrom_blanks htail, ← Position.advance_append, ← List.append_assoc (c :: s)]
  exact scanFrom_of_shape hgap hc hshape p

/-- The tokens of a text are those of the text with other line endings: of the
same kinds, at the same lines and columns, with other line endings in what they
say. -/
theorem scanFrom_toCrlf {p p' q : Position} {cs rest : List Char} {ts : List Token}
    (h : Lexed p cs ts q rest) (hrest : scanFrom q rest = []) (hreturn : '\r' ∉ cs)
    (hfeed : ∀ t ∈ ts, t.kind = .raw ∨ t.kind = .unmatchedBracket → '\n' ∉ t.value.toList)
    (hplace : p.SamePlace p') :
    (scanFrom p' (toCrlf cs)).map (fun t => (t.kind, t.value, t.line, t.column)) =
      ts.map fun t => (t.kind, String.ofList (toCrlf t.value.toList), t.line, t.column) := by
  induction h generalizing p' with
  | @done p cs =>
      have hblank := blank_toCrlf (blank_of_scanFrom_eq_nil hrest)
      rw [← List.append_nil (toCrlf cs), scanFrom_blanks hblank, scanFrom_nil]
      rfl
  | @token p q gap s value after rest c kind ts hgap hc hshape _ ih =>
      simp only [List.mem_append, not_or] at hreturn
      have hvalue := hfeed _ List.mem_cons_self
      simp only [tokenAt, String.toList_ofList] at hvalue
      have hbegins := hshape.crlf hreturn.2.1 hvalue
      have hc' : c ≠ '\n' := by
        rintro rfl
        exact absurd hc (by decide)
      have hstart := hplace.advance_toCrlf gap
      have hbehind := hstart.advance_toCrlf (c :: s)
      rw [toCrlf_cons hc'] at hbegins hbehind
      obtain ⟨t, hkind, hsaid, hline, hcolumn, hscan⟩ :=
        hbegins.scanFrom_eq (blank_toCrlf hgap) hc p'
      have hothers := ih hrest hreturn.2.2 (fun t ht => hfeed t (List.mem_cons_of_mem _ ht)) hbehind
      rw [toCrlf_append, toCrlf_append, toCrlf_cons hc', hscan, List.map_cons, List.map_cons,
        hothers, hkind, hsaid, hline, hcolumn, hstart.line, hstart.column]
      simp [tokenAt, Token.line, Token.column, Location.between]

theorem leadingMark_toCrlf (cs : List Char) : leadingMark (toCrlf cs) = leadingMark cs := by
  cases cs with
  | nil => rfl
  | cons c cs =>
      by_cases hc : c = '\n'
      · subst hc
        rfl
      · rw [toCrlf_cons hc]
        rfl

/-- **Line endings do not matter.** Let a text have no carriage return, and no
line feed in an unquoted token or an unmatched bracket. With a carriage return
before every line feed it has as many tokens, of the same kinds, on the same
lines and columns, and with the same values but for their line feeds, which have
a carriage return before them too. -/
theorem scan_toCrlf (text : String) (hreturn : '\r' ∉ text.toList)
    (hfeed : ∀ t ∈ scan text, t.kind = .raw ∨ t.kind = .unmatchedBracket → '\n' ∉ t.value.toList) :
    (scan (String.ofList (toCrlf text.toList))).map
        (fun t => (t.kind, t.value, t.line, t.column)) =
      (scan text).map fun t =>
        (t.kind, String.ofList (toCrlf t.value.toList), t.line, t.column) := by
  obtain ⟨cs, q, rest, htext, hlexed, hrest⟩ := lexed_scan text
  obtain ⟨cs', htext', hscan⟩ := scan_eq_scanFrom (String.ofList (toCrlf text.toList))
  rw [String.toList_ofList, leadingMark_toCrlf] at htext'
  rw [String.toList_ofList, firstPosition, leadingMark_toCrlf, ← firstPosition] at hscan
  have hmark : toCrlf (leadingMark text.toList) = leadingMark text.toList :=
    toCrlf_eq_self (not_mem_leadingMark (by decide) text.toList)
  obtain rfl : cs' = toCrlf cs := by
    refine List.append_cancel_left (htext'.symm.trans ?_)
    rw [← hmark, ← toCrlf_append, ← htext]
  rw [hscan]
  refine scanFrom_toCrlf hlexed hrest ?_ hfeed ⟨rfl, rfl⟩
  intro hmem
  rw [htext] at hreturn
  exact hreturn (List.mem_append_right _ hmem)

/-- A byte-order mark, a quote with a line continuation and a line feed, a
bracket that begins with a line break, a comment, an unmatched bracket and a
quote that is never closed. -/
theorem scan_toCrlf_of_continuation :
    let text := "\ufeffx(\"é\\\nü\n\" [=[\ny\n]=]) # c\n\n[[z \"\n"
    let crlf := "\ufeffx(\"é\\\r\nü\r\n\" [=[\r\ny\r\n]=]) # c\r\n\r\n[[z \"\r\n"
    '\r' ∉ text.toList ∧ String.ofList (toCrlf text.toList) = crlf ∧
    (scan crlf).map (fun t => (t.kind, t.value, t.line, t.column)) =
      (scan text).map fun t =>
        (t.kind, String.ofList (toCrlf t.value.toList), t.line, t.column) := by
  have hreturn : '\r' ∉ "\ufeffx(\"é\\\nü\n\" [=[\ny\n]=]) # c\n\n[[z \"\n".toList := by decide
  have hcrlf : String.ofList (toCrlf "\ufeffx(\"é\\\nü\n\" [=[\ny\n]=]) # c\n\n[[z \"\n".toList) =
      "\ufeffx(\"é\\\r\nü\r\n\" [=[\r\ny\r\n]=]) # c\r\n\r\n[[z \"\r\n" := by decide
  refine ⟨hreturn, hcrlf, ?_⟩
  rw [← hcrlf]
  exact scan_toCrlf _ hreturn (by decide +kernel)

end Listfile
