import Listfile.Proofs.LexicalShape
import Listfile.Proofs.Offsets

/-!
# Runs of the scanner

A run of the scanner over the front of a text is an inductive relation, `Lexed`.
What is left of the text stays in view, so that each token has its shape before
everything that follows it.

* `Lexed.scanFrom_eq`, `lexed_of_scanFrom_eq` — scanning is following this
  relation;
* `Lexed.truncate` — whatever is left can be cut off;
* `scan_lexicalShape` — every token of a text has the shape of its kind, where
  it stands.
-/

namespace Listfile

open Text

/-- The token that the characters `s` at `p` are. -/
def tokenAt (p : Position) (kind : Kind) (s value : List Char) : Token :=
  ⟨kind, String.ofList value, .between p (p.advance s)⟩

/-- `Lexed p cs ts q rest`: from the characters `cs` at `p` the scanner takes
blanks and the tokens `ts`, and comes to `q` with `rest` left. -/
inductive Lexed : Position → List Char → List Token → Position → List Char → Prop
  | done {p : Position} {cs : List Char} : Lexed p cs [] p cs
  | token {p q : Position} {gap s value after rest : List Char} {c : Char} {kind : Kind}
      {ts : List Token} (hgap : ∀ d ∈ gap, isBlank d = true) (hc : isBlank c = false)
      (hshape : LexicalShape kind (c :: s) value after)
      (hrest : Lexed ((p.advance gap).advance (c :: s)) after ts q rest) :
      Lexed p (gap ++ (c :: s ++ after)) (tokenAt (p.advance gap) kind (c :: s) value :: ts) q rest

/-! ## Positions -/

theorem Position.advance_append (p : Position) (cs ds : List Char) :
    p.advance (cs ++ ds) = (p.advance cs).advance ds :=
  List.foldl_append

/-- Lines and columns count from one. -/
def Position.Counted (p : Position) : Prop :=
  1 ≤ p.line ∧ 1 ≤ p.column

theorem Position.Counted.advance {p : Position} (h : p.Counted) (cs : List Char) :
    (p.advance cs).Counted := by
  induction cs generalizing p with
  | nil => exact h
  | cons c cs ih =>
      refine ih ?_
      unfold Position.next
      split
      · exact ⟨Nat.le_add_left _ _, Nat.le_refl _⟩
      · exact ⟨h.1, Nat.le_add_left _ _⟩

/-! ## Steps of the scanner -/

theorem scanFrom_nil (p : Position) : scanFrom p [] = [] := by
  rw [scanFrom]
  rfl

theorem scanFrom_cons {c : Char} (hc : isBlank c = false) (p : Position) (cs : List Char) :
    scanFrom p (c :: cs) = (Lexeme.read c cs).token p ::
      scanFrom (p.advance (Lexeme.read c cs).text) (Lexeme.read c cs).rest := by
  have hdrop : (c :: cs).dropWhile isBlank = c :: cs := by simp [hc]
  have htake : (c :: cs).takeWhile isBlank = [] := by simp [hc]
  rw [scanFrom]
  split
  · rename_i hnil
    rw [hdrop] at hnil
    cases hnil
  · rename_i d tail hcons
    rw [hdrop] at hcons
    cases hcons
    rw [htake]
    rfl

theorem isBlank_of_dropWhile {cs tail : List Char} {c : Char}
    (h : cs.dropWhile isBlank = c :: tail) : isBlank c = false := by
  have hhead := List.head_dropWhile_not (p := isBlank) (l := cs) (by rw [h]; simp)
  simpa only [h, List.head_cons] using hhead

theorem scanFrom_skip (p : Position) (cs : List Char) :
    scanFrom p cs = scanFrom (p.advance (cs.takeWhile isBlank)) (cs.dropWhile isBlank) := by
  rw [scanFrom]
  split
  · rename_i hnil
    rw [hnil, scanFrom_nil]
  · rename_i c tail hcons
    rw [hcons, scanFrom_cons (isBlank_of_dropWhile hcons)]

/-- Blanks only move the position. -/
theorem scanFrom_blanks {gap : List Char} (hgap : ∀ c ∈ gap, isBlank c = true) (p : Position)
    (cs : List Char) : scanFrom p (gap ++ cs) = scanFrom (p.advance gap) cs := by
  rw [scanFrom_skip, List.takeWhile_append_of_pos hgap, List.dropWhile_append_of_pos hgap,
    Position.advance_append, ← scanFrom_skip]

/-- Behind blanks, a piece of some shape is a token. -/
theorem scanFrom_of_shape {gap s value after : List Char} {c : Char} {kind : Kind}
    (hgap : ∀ d ∈ gap, isBlank d = true) (hc : isBlank c = false)
    (hshape : LexicalShape kind (c :: s) value after) (p : Position) :
    scanFrom p (gap ++ (c :: s ++ after)) = tokenAt (p.advance gap) kind (c :: s) value ::
      scanFrom ((p.advance gap).advance (c :: s)) after := by
  rw [scanFrom_blanks hgap, List.cons_append, scanFrom_cons hc, Lexeme.read_of_shape hshape]
  rfl

/-- Only blanks have no tokens. -/
theorem blank_of_scanFrom_eq_nil {p : Position} {cs : List Char} (h : scanFrom p cs = []) :
    ∀ c ∈ cs, isBlank c = true := by
  rw [scanFrom] at h
  split at h
  · rename_i hnil
    have hcs := List.takeWhile_append_dropWhile (p := isBlank) (l := cs)
    rw [hnil, List.append_nil] at hcs
    rw [← hcs]
    exact List.all_eq_true.mp List.all_takeWhile
  · cases h

/-- The first token is cut from the text after the blanks. -/
theorem scanFrom_eq_cons {p : Position} {cs : List Char} {t : Token} {ts : List Token}
    (h : scanFrom p cs = t :: ts) :
    ∃ gap c s value after, cs = gap ++ (c :: s ++ after) ∧ (∀ d ∈ gap, isBlank d = true) ∧
      isBlank c = false ∧ LexicalShape t.kind (c :: s) value after ∧
      t = tokenAt (p.advance gap) t.kind (c :: s) value ∧
      scanFrom ((p.advance gap).advance (c :: s)) after = ts := by
  have hgap : ∀ d ∈ cs.takeWhile isBlank, isBlank d = true :=
    List.all_eq_true.mp List.all_takeWhile
  have hcs := List.takeWhile_append_dropWhile (p := isBlank) (l := cs)
  rw [scanFrom_skip] at h
  cases hrest : cs.dropWhile isBlank with
  | nil =>
      rw [hrest, scanFrom_nil] at h
      cases h
  | cons c tail =>
      have hc := isBlank_of_dropWhile hrest
      rw [hrest, scanFrom_cons hc] at h
      obtain ⟨rfl, rfl⟩ := List.cons.inj h
      -- What is read begins with the character at which reading starts.
      have htail := Lexeme.text_append_rest c tail
      obtain ⟨s, hs⟩ : ∃ s, (Lexeme.read c tail).text = c :: s := by
        obtain ⟨d, s, hs⟩ := List.exists_cons_of_ne_nil (Lexeme.text_ne_nil c tail)
        rw [hs, List.cons_append, List.cons.injEq] at htail
        exact ⟨s, htail.1 ▸ hs⟩
      have hshape := Lexeme.shape_read hc tail
      rw [hs] at htail hshape
      refine ⟨cs.takeWhile isBlank, c, s, _, _, ?_, hgap, hc, hshape, ?_, ?_⟩
      · rw [htail, ← hrest, hcs]
      · rw [tokenAt, ← hs]
        rfl
      · rw [hs]

/-! ## Runs -/

namespace Lexed

variable {p q : Position} {cs rest : List Char} {ts : List Token}

theorem scanFrom_eq (h : Lexed p cs ts q rest) : scanFrom p cs = ts ++ scanFrom q rest := by
  induction h with
  | done => rfl
  | @token p q gap s value after rest c kind ts hgap hc hshape _ ih =>
      rw [scanFrom_of_shape hgap hc hshape, ih]
      rfl

/-- The run takes a piece off the front and moves by it. -/
theorem exists_taken (h : Lexed p cs ts q rest) : ∃ taken, cs = taken ++ rest ∧
    q = p.advance taken := by
  induction h with
  | done => exact ⟨[], rfl, rfl⟩
  | @token p q gap s value after rest c kind ts _ _ _ _ ih =>
      obtain ⟨taken, rfl, rfl⟩ := ih
      refine ⟨gap ++ (c :: s ++ taken), ?_, ?_⟩
      · simp only [List.append_assoc]
      · rw [Position.advance_append, Position.advance_append]

/-- The end of what is left can be cut off. -/
theorem truncate {front back : List Char} (h : Lexed p cs ts q (front ++ back)) :
    ∃ taken, cs = taken ++ (front ++ back) ∧ Lexed p (taken ++ front) ts q front := by
  generalize hleft : front ++ back = left at h
  induction h with
  | done => exact ⟨[], rfl, .done⟩
  | @token p q gap s value after left c kind ts hgap hc hshape hrest ih =>
      obtain ⟨taken, hafter, hlexed⟩ := ih hleft
      refine ⟨gap ++ (c :: s ++ taken), ?_, ?_⟩
      · rw [hafter]
        simp only [List.append_assoc]
      · rw [hafter, ← hleft, ← List.append_assoc] at hshape
        rw [List.append_assoc, List.append_assoc]
        exact .token hgap hc hshape.truncate hlexed

end Lexed

/-- Tokens in front of others are taken by a run. -/
theorem lexed_of_scanFrom_eq {p : Position} {cs : List Char} {ts us : List Token}
    (h : scanFrom p cs = ts ++ us) : ∃ q rest, Lexed p cs ts q rest ∧ scanFrom q rest = us := by
  induction ts generalizing p cs with
  | nil => exact ⟨p, cs, .done, h⟩
  | cons t ts ih =>
      obtain ⟨gap, c, s, value, after, rfl, hgap, hc, hshape, ht, hafter⟩ := scanFrom_eq_cons h
      obtain ⟨q, rest, hlexed, hus⟩ := ih hafter
      refine ⟨q, rest, ?_, hus⟩
      rw [ht]
      exact .token hgap hc hshape hlexed

/-! ## The beginning of a text -/

/-- The byte-order mark in front of a text, if there is one. -/
def leadingMark : List Char → List Char
  | [] => []
  | c :: _ => if c = byteOrderMark then [c] else []

theorem not_mem_leadingMark {c : Char} (hc : c ≠ byteOrderMark) (cs : List Char) :
    c ∉ leadingMark cs := by
  cases cs with
  | nil => exact List.not_mem_nil
  | cons d cs =>
      by_cases hd : d = byteOrderMark
      · simp [leadingMark, hd, hc]
      · simp [leadingMark, hd]

/-- Scanning starts behind the mark, on the first line and column. -/
def firstPosition (text : List Char) : Position :=
  { Position.origin with offset := byteLength (leadingMark text) }

theorem firstPosition_counted (text : List Char) : (firstPosition text).Counted :=
  ⟨Nat.le_refl _, Nat.le_refl _⟩

theorem scan_eq_scanFrom (text : String) : ∃ cs, text.toList = leadingMark text.toList ++ cs ∧
    scan text = scanFrom (firstPosition text.toList) cs := by
  unfold scan
  cases htext : text.toList with
  | nil =>
      refine ⟨[], rfl, ?_⟩
      rw [scanFrom_nil]
  | cons c cs =>
      by_cases hmark : c = byteOrderMark
      · have hlead : leadingMark (c :: cs) = [c] := if_pos hmark
        refine ⟨cs, by rw [hlead]; rfl, ?_⟩
        rw [firstPosition, hlead]
        exact if_pos hmark
      · have hlead : leadingMark (c :: cs) = [] := if_neg hmark
        refine ⟨c :: cs, by rw [hlead]; rfl, ?_⟩
        rw [firstPosition, hlead]
        exact if_neg hmark

theorem scan_of_not_mark {text : String} (h : text.toList.head? ≠ some '\ufeff') :
    scan text = scanFrom .origin text.toList := by
  obtain ⟨cs, htext, hscan⟩ := scan_eq_scanFrom text
  have hmark : leadingMark text.toList = [] := by
    cases hcs : text.toList with
    | nil => rfl
    | cons c cs =>
        rw [hcs] at h
        refine if_neg fun hc => h ?_
        rw [hc]
        rfl
  rw [hmark, List.nil_append] at htext
  rw [hscan, ← htext, firstPosition, hmark]
  rfl

/-- A run takes all tokens of a text. -/
theorem lexed_scan (text : String) : ∃ cs q rest, text.toList = leadingMark text.toList ++ cs ∧
    Lexed (firstPosition text.toList) cs (scan text) q rest ∧ scanFrom q rest = [] := by
  obtain ⟨cs, htext, hscan⟩ := scan_eq_scanFrom text
  rw [← List.append_nil (scan text)] at hscan
  obtain ⟨q, rest, hlexed, hrest⟩ := lexed_of_scanFrom_eq hscan.symm
  exact ⟨cs, q, rest, htext, hlexed, hrest⟩

/-- A token stands in the text where it says, and scanning from there goes on
with it. -/
theorem scan_split {text : String} {ts us : List Token} {t : Token}
    (h : scan text = ts ++ t :: us) :
    ∃ p before s value after, text.toList = before ++ (s ++ after) ∧
      p.offset = byteLength before ∧ p.Counted ∧ LexicalShape t.kind s value after ∧
      t = tokenAt p t.kind s value ∧ scanFrom p (s ++ after) = t :: us := by
  obtain ⟨cs, htext, hscan⟩ := scan_eq_scanFrom text
  rw [hscan] at h
  obtain ⟨q, rest, hlexed, hus⟩ := lexed_of_scanFrom_eq h
  obtain ⟨taken, rfl, rfl⟩ := hlexed.exists_taken
  obtain ⟨gap, c, s, value, after, rfl, hgap, -, hshape, ht, -⟩ := scanFrom_eq_cons hus
  rw [scanFrom_blanks hgap] at hus
  refine ⟨_, leadingMark text.toList ++ (taken ++ gap), c :: s, value, after, ?_, ?_, ?_, hshape,
    ht, hus⟩
  · rw [List.append_assoc, List.append_assoc]
    exact htext
  · rw [← Position.advance_append, Position.offset_advance,
      byteLength_append (leadingMark text.toList)]
    rfl
  · exact ((firstPosition_counted _).advance taken).advance gap

/-! ## Shapes of tokens -/

theorem tokenAt_covers {p : Position} {text : String} {before s after : List Char} (kind : Kind)
    (value : List Char) (htext : text.toList = before ++ (s ++ after))
    (hp : p.offset = byteLength before) :
    (tokenAt p kind s value).span.Covers text (String.ofList s) := by
  refine Span.covers_of_toList before s after htext hp ?_
  show (p.advance s).offset = _
  rw [Position.offset_advance, hp]

/-- **Tokens have the shape of their kind.** Each token of a text cuts out a
piece of it. The piece, with what stands behind it, has the lexical shape of
the token's kind, and the token says what that shape decodes to. -/
theorem scan_lexicalShape (text : String) (t : Token) (ht : t ∈ scan text) :
    ∃ before after : String, text = before ++ t.span.slice text ++ after ∧
      before.utf8ByteSize = t.span.start ∧
      LexicalShape t.kind (t.span.slice text).toList t.value.toList after.toList := by
  obtain ⟨ts, us, hscan⟩ := List.append_of_mem ht
  obtain ⟨p, before, s, value, after, htext, hp, -, hshape, htoken, -⟩ := scan_split hscan
  have hslice : t.span.slice text = String.ofList s := by
    rw [htoken]
    exact (tokenAt_covers _ value htext hp).slice_eq
  refine ⟨String.ofList before, String.ofList after, ?_, ?_, ?_⟩
  · rw [hslice, ← String.ofList_append, ← String.ofList_append, List.append_assoc, ← htext,
      String.ofList_toList]
  · rw [byteLength_ofList, ← hp, htoken]
    rfl
  · have hvalue : t.value.toList = value := by
      rw [htoken]
      exact String.toList_ofList
    rw [hslice, hvalue, String.toList_ofList, String.toList_ofList]
    exact hshape

/-- A quoted token with a line continuation and an escape pair that stays, at
the end of a text and behind a bracket that is one character short of open. -/
theorem scan_lexicalShape_of_continuation :
    let text := "[=\"a\\\r\nb\\\\\""
    let t : Token := ⟨.quoted, "ab\\\\", ⟨1, 3, ⟨2, 11⟩⟩⟩
    t ∈ scan text ∧ ∃ before after : String, text = before ++ t.span.slice text ++ after ∧
      before.utf8ByteSize = t.span.start ∧
      LexicalShape t.kind (t.span.slice text).toList t.value.toList after.toList :=
  ⟨by decide +kernel, scan_lexicalShape _ _ (by decide +kernel)⟩

end Listfile
