import Listfile.Proofs.Lexing

/-!
# Layout

How the tokens of a text are laid out does not matter to the scanner: each of
them alone on a line is still the same token.

* `Replaces` — what can stand behind a token in place of what stands there;
* `Replaces.lexicalShape` — then the token keeps its shape;
* `replaces_onLines` — the tokens of a text, line after line, stand for the text;
* `scan_onLines` — so they are read as they were.
-/

namespace Listfile

open Text

/-! ## In place of what follows -/

/-- A mark lies on one side of a character that it does not hold. -/
theorem infix_of_not_mem {mark front back : List Char} {c : Char} (hc : c ∉ mark)
    (h : mark <:+: front ++ c :: back) : mark <:+: front ∨ mark <:+: back := by
  have hpre : ∀ piece, piece <+: c :: back → c ∉ piece → piece = [] := by
    intro piece hpiece hmem
    cases piece with
    | nil => rfl
    | cons d piece =>
        have hd : d = c := (List.cons_prefix_cons.mp hpiece).1
        simp [hd] at hmem
  rcases List.infix_append_iff.mp h with hfront | hback | ⟨left, right, rfl, hleft, hright⟩
  · exact .inl hfront
  · rcases List.infix_cons_iff.mp hback with hfirst | hback
    · rw [hpre mark hfirst hc]
      exact .inl List.nil_infix
    · exact .inr hback
  · have hnil : right = [] := hpre right hright fun hmem => hc (List.mem_append_right _ hmem)
    subst hnil
    rw [List.append_nil]
    exact .inl hleft.isInfix

/-- `after'` can stand behind a token in place of `after`: it begins on a new
line, closes no bracket that was open, and is there only if something was. -/
structure Replaces (after' after : List Char) : Prop where
  begins : after' = [] ∨ after'.head? = some '\n'
  closes : ∀ fill front, closingBracket fill <:+: front ++ after' →
    closingBracket fill <:+: front ++ after
  ends : after = [] → after' = []

namespace Replaces

variable {after' after s value : List Char} {kind : Kind}

theorem endsRaw (h : Replaces after' after) : EndsRaw after' := by
  rcases h.begins with hnil | hhead
  · exact .inl hnil
  · obtain ⟨cs, rfl⟩ := List.head?_eq_some_iff.mp hhead
    exact .inr (.inr ⟨'\n', cs, rfl, by simp [IsDelimiter]⟩)

theorem unclosedForm (h : Replaces after' after) (hform : UnclosedForm s after) :
    UnclosedForm s after' := by
  obtain ⟨htext, -, fill, body, hs, hclose⟩ := hform
  refine ⟨htext, h.endsRaw, fill, body, hs, ?_⟩
  intro hinfix
  exact hclose (h.closes fill body hinfix)

/-- A token keeps its shape. -/
theorem lexicalShape (h : Replaces after' after) (hshape : LexicalShape kind s value after) :
    LexicalShape kind s value after' := by
  cases hshape with
  | leftParen => exact .leftParen
  | rightParen => exact .rightParen
  | semicolon => exact .semicolon
  | raw hne htext hopen _ => exact .raw hne htext hopen h.endsRaw
  | quoted hbody hvalue => exact .quoted hbody hvalue
  | bracketed hform => exact .bracketed hform
  | bracketComment hform => exact .bracketComment hform
  | lineComment hline hopen _ hvalue => exact .lineComment hline hopen h.begins hvalue
  | unmatchedArgument hform => exact .unmatchedArgument (h.unclosedForm hform)
  | unmatchedComment hform => exact .unmatchedComment (h.unclosedForm hform)
  | loneBackslash =>
      rw [h.ends rfl]
      exact .loneBackslash
  | unclosedQuote hbody hhalf =>
      rw [h.ends rfl]
      exact .unclosedQuote hbody hhalf

end Replaces

/-! ## One token on a line -/

/-- The pieces that the tokens cut out of the text, a line feed before each. -/
def onLines (text : String) (ts : List Token) : List Char :=
  ts.flatMap fun t => '\n' :: (t.span.slice text).toList

section Lines

variable {text : String} {before cs gap s after rest : List Char} {p q : Position}
  {ts : List Token}

theorem onLines_cons (htext : text.toList = before ++ (gap ++ (s ++ after)))
    (hp : p.offset = byteLength before) (kind : Kind) (value : List Char) (ts : List Token) :
    onLines text (tokenAt (p.advance gap) kind s value :: ts) = '\n' :: (s ++ onLines text ts) := by
  have htext : text.toList = (before ++ gap) ++ (s ++ after) := by
    rw [htext, List.append_assoc]
  have hp : (p.advance gap).offset = byteLength (before ++ gap) := by
    rw [Position.offset_advance, byteLength_append, hp]
  have hcovers := tokenAt_covers kind value htext hp
  unfold onLines
  rw [List.flatMap_cons, hcovers.slice_eq, String.toList_ofList]
  rfl

/-- Where the scanner goes on behind a token. -/
theorem offset_behind (hp : p.offset = byteLength before) (gap s : List Char) :
    ((p.advance gap).advance s).offset = byteLength (before ++ (gap ++ s)) := by
  simp only [Position.offset_advance, byteLength_append, hp, Nat.add_assoc]

/-- The tokens of a text, line after line, can stand in place of the text. -/
theorem replaces_onLines (h : Lexed p cs ts q rest) (htext : text.toList = before ++ cs)
    (hp : p.offset = byteLength before) (hrest : scanFrom q rest = []) :
    Replaces (onLines text ts) cs := by
  have hbegins : onLines text ts = [] ∨ (onLines text ts).head? = some '\n' := by
    cases ts with
    | nil => exact .inl rfl
    | cons t ts => exact .inr rfl
  have hends : cs = [] → onLines text ts = [] := by
    rintro rfl
    have hnil := h.scanFrom_eq
    rw [scanFrom_nil, hrest, List.append_nil] at hnil
    rw [← hnil]
    rfl
  refine ⟨hbegins, ?_, hends⟩
  clear hbegins hends
  induction h generalizing before with
  | done =>
      intro fill front hinfix
      rw [onLines, List.flatMap_nil, List.append_nil] at hinfix
      exact hinfix.trans (List.prefix_append _ _).isInfix
  | @token p q gap s value after rest c kind ts hgap hc hshape hlexed ih =>
      intro fill front hinfix
      have hfeed : '\n' ∉ closingBracket fill := by simp [closingBracket]
      rw [onLines_cons htext hp] at hinfix
      -- A closer is in front of the line or begins in the token.
      rcases infix_of_not_mem hfeed hinfix with hfront | hline
      · exact hfront.trans (List.prefix_append _ _).isInfix
      · refine (ih ?_ (offset_behind hp gap (c :: s)) hrest fill (c :: s) hline).trans ?_
        · rw [htext]
          simp only [List.append_assoc]
        · rw [← List.append_assoc]
          exact (List.suffix_append _ _).isInfix

/-- Tokens line after line are read again, each as what it was. -/
theorem scanFrom_onLines (h : Lexed p cs ts q rest) (htext : text.toList = before ++ cs)
    (hp : p.offset = byteLength before) (hrest : scanFrom q rest = []) (p' : Position) :
    (scanFrom p' (onLines text ts)).map (fun t => (t.kind, t.value)) =
      ts.map fun t => (t.kind, t.value) := by
  induction h generalizing before p' with
  | done => rw [onLines, List.flatMap_nil, scanFrom_nil]
  | @token p q gap s value after rest c kind ts hgap hc hshape hlexed ih =>
      have hafter : text.toList = before ++ (gap ++ c :: s) ++ after := by
        rw [htext]
        simp only [List.append_assoc]
      have hbehind := offset_behind hp gap (c :: s)
      have hshape' := (replaces_onLines hlexed hafter hbehind hrest).lexicalShape hshape
      have hfeed : ∀ d ∈ ['\n'], isBlank d = true := by
        intro d hd
        rw [List.mem_singleton.mp hd]
        decide
      have hscan := scanFrom_of_shape hfeed hc hshape' p'
      rw [onLines_cons htext hp]
      rw [List.singleton_append] at hscan
      rw [hscan, List.map_cons, ih hafter hbehind hrest]
      rfl

end Lines

/-- **Scanning is insensitive to layout.** The tokens of a text, each with a
line feed before it and nothing else, are as many tokens of the same kinds with
the same values in the same order. -/
theorem scan_onLines (text : String) :
    (scan (String.ofList (onLines text (scan text)))).map (fun t => (t.kind, t.value)) =
      (scan text).map fun t => (t.kind, t.value) := by
  obtain ⟨cs, q, rest, htext, hlexed, hrest⟩ := lexed_scan text
  have hmark : (String.ofList (onLines text (scan text))).toList.head? ≠ some '\ufeff' := by
    rw [String.toList_ofList]
    cases scan text with
    | nil => simp [onLines]
    | cons t ts => simp [onLines]
  rw [scan_of_not_mark hmark, String.toList_ofList]
  exact scanFrom_onLines hlexed htext rfl hrest .origin

end Listfile
