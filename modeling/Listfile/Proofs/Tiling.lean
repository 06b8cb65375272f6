import Listfile.Proofs.Offsets
import Listfile.Token.Scan

/-!
# Tokens tile their text

Scanning accounts for every character of a text. `Tiled` says how: each token
covers a piece that is not empty and begins and ends on character boundaries,
the pieces stand in order without overlap, what is left between them is white
space, and an unparseable token takes all the rest.

The scanner is followed by `Tiles`, which takes a text apart from the front:
blanks, a piece, and the tiles of what remains. `scanFrom_tiles` is its run
lemma; `Tiles.tiled` reads the properties of a text off its tiles.
-/

namespace Listfile

open Text

/-! ## White space -/

/-- The characters of the Unicode property `White_Space`. -/
def IsWhiteSpace (c : Char) : Prop :=
  (0x9 ≤ c.toNat ∧ c.toNat ≤ 0xD) ∨ c.toNat = 0x20 ∨ c.toNat = 0x85 ∨ c.toNat = 0xA0 ∨
    c.toNat = 0x1680 ∨ (0x2000 ≤ c.toNat ∧ c.toNat ≤ 0x200A) ∨ c.toNat = 0x2028 ∨
    c.toNat = 0x2029 ∨ c.toNat = 0x202F ∨ c.toNat = 0x205F ∨ c.toNat = 0x3000

/-- Two boundaries at a time: a code point is between them or beyond them. -/
theorem CodeSet.inside_pair (n first after : Nat) (bounds : List Nat) :
    CodeSet.inside n (first :: after :: bounds) = true ↔
      first ≤ n ∧ (n < after ∨ CodeSet.inside n bounds = true) := by
  simp only [CodeSet.inside]
  by_cases hfirst : n < first <;> by_cases hafter : n < after <;> simp [hfirst, hafter] <;> omega

/-- The boundary list of the blanks describes white space. -/
theorem isBlank_iff (c : Char) : isBlank c = true ↔ IsWhiteSpace c := by
  unfold isBlank blankCodes CodeSet.contains IsWhiteSpace
  generalize c.toNat = n
  simp only [CodeSet.inside_pair]
  simp only [CodeSet.inside, Bool.false_eq_true, or_false]
  omega

/-! ## What a tiling is -/

/-- Where tokens may begin: after the byte-order mark, if there is one. -/
def contentStart (text : String) : Nat :=
  match text.toList with
  | [] => 0
  | c :: _ => if c = byteOrderMark then c.utf8Size else 0

/-- The spans before, between and after the tokens of the stretch from `start`
to `stop`. -/
def gaps (start stop : Nat) : List Token → List Span
  | [] => [⟨start, stop⟩]
  | t :: ts => ⟨start, t.span.start⟩ :: gaps t.span.stop stop ts

/-- The tokens account for the whole text. -/
structure Tiled (text : String) (tokens : List Token) : Prop where
  /-- No token is empty. -/
  nonempty : ∀ t ∈ tokens, t.span.start < t.span.stop
  /-- Every token lies inside the text. -/
  inside : ∀ t ∈ tokens, t.span.stop ≤ text.utf8ByteSize
  /-- No token cuts a character. -/
  boundaries : ∀ t ∈ tokens, String.Pos.Raw.IsValid text ⟨t.span.start⟩ ∧
    String.Pos.Raw.IsValid text ⟨t.span.stop⟩
  /-- Tokens stand in the order of the text and do not overlap. -/
  ordered : tokens.Pairwise fun t u => t.span.stop ≤ u.span.start
  /-- Whatever no token covers is white space. -/
  blank : ∀ g ∈ gaps (contentStart text) text.utf8ByteSize tokens,
    g.Covers text (g.slice text) ∧ ∀ c ∈ (g.slice text).toList, IsWhiteSpace c
  /-- An unparseable token is the last one and takes all that is left. -/
  unparseable_last : ∀ before t after, tokens = before ++ t :: after → t.kind = .unparseable →
    after = [] ∧ t.span.stop = text.utf8ByteSize
  /-- There is at most one of them. -/
  unparseable_once : tokens.countP (·.kind = .unparseable) ≤ 1

/-! ## Unparseable lexemes -/

namespace Lexeme

theorem raw_rest_of_unparseable {cs : List Char} (h : (raw cs).kind = .unparseable) :
    (raw cs).rest = [] := by
  unfold raw at h ⊢
  split
  · rfl
  · rename_i text rest hne hspan
    rw [hspan] at h
    simp only at h
    split at h <;> simp at h

theorem quoted_rest_of_unparseable {cs : List Char} (h : (quoted cs).kind = .unparseable) :
    (quoted cs).rest = [] := by
  unfold quoted at h ⊢
  split
  · rename_i body rest hbody
    rw [hbody] at h
    simp at h
  · rfl

theorem hash_kind_ne_unparseable (cs : List Char) : (hash cs).kind ≠ .unparseable := by
  unfold hash
  split
  · split <;> simp
  · simp

theorem bracket_rest_of_unparseable {cs : List Char} (h : (bracket cs).kind = .unparseable) :
    (bracket cs).rest = [] := by
  unfold bracket at h ⊢
  split
  · rename_i b hb
    rw [hb] at h
    simp at h
  · rename_i hb
    rw [hb] at h
    exact raw_rest_of_unparseable h

/-- Nothing is left after an unparseable lexeme. -/
theorem rest_of_unparseable {c : Char} {cs : List Char} (h : (read c cs).kind = .unparseable) :
    (read c cs).rest = [] := by
  unfold read at h ⊢
  split at h
  · exact absurd h (by simp [single])
  · exact absurd h (by simp [single])
  · exact absurd h (by simp [single])
  · exact quoted_rest_of_unparseable h
  · exact absurd h (hash_kind_ne_unparseable cs)
  · exact bracket_rest_of_unparseable h
  · exact raw_rest_of_unparseable h

end Lexeme

/-! ## Tiles -/

/-- `Tiles n cs tokens`: the text `cs`, which begins at the offset `n`, is made
of the pieces of the tokens with blanks before, between and after them. -/
inductive Tiles : Nat → List Char → List Token → Prop
  | done {n gap} (hgap : ∀ c ∈ gap, isBlank c = true) : Tiles n gap []
  | token {n gap piece rest t ts} (hgap : ∀ c ∈ gap, isBlank c = true) (hpiece : piece ≠ [])
      (hspan : t.span = ⟨n + byteLength gap, n + byteLength gap + byteLength piece⟩)
      (hlast : t.kind = .unparseable → rest = [])
      (htiles : Tiles (n + byteLength gap + byteLength piece) rest ts) :
      Tiles n (gap ++ (piece ++ rest)) (t :: ts)

/-- The scanner makes tiles of the characters that stand at `p`. -/
theorem scanFrom_tiles (p : Position) (cs : List Char) :
    Tiles p.offset cs (scanFrom p cs) := by
  fun_induction scanFrom p cs with
  | case1 p cs hrest =>
      refine .done fun c hc => ?_
      -- Nothing but blanks is left.
      have hall : cs.takeWhile isBlank = cs := by
        have happend := List.takeWhile_append_dropWhile (p := isBlank) (l := cs)
        rwa [hrest, List.append_nil] at happend
      rw [← hall] at hc
      exact List.all_eq_true.mp List.all_takeWhile c hc
  | case2 p cs c tail hrest start lexeme ih =>
      have hstart : start.offset = p.offset + byteLength (cs.takeWhile isBlank) :=
        Position.offset_advance p _
      have hstop : (start.advance lexeme.text).offset = start.offset + byteLength lexeme.text :=
        Position.offset_advance start _
      -- The blanks, the lexeme and what it leaves are the whole stretch.
      have htext : cs = cs.takeWhile isBlank ++ (lexeme.text ++ lexeme.rest) := by
        rw [Lexeme.text_append_rest, ← hrest, List.takeWhile_append_dropWhile]
      rw [hstop, hstart] at ih
      rw [htext]
      refine .token ?_ (Lexeme.text_ne_nil c tail) ?_ Lexeme.rest_of_unparseable ?_
      · exact List.all_eq_true.mp List.all_takeWhile
      · rw [← hstart, ← hstop]
        rfl
      · exact ih

namespace Tiles

variable {n : Nat} {cs : List Char} {tokens : List Token} {text : String}

/-- No tokens come from nothing: every piece takes a character. -/
theorem tokens_of_nil (h : Tiles n [] tokens) : tokens = [] := by
  generalize hcs : ([] : List Char) = cs at h
  cases h with
  | done => rfl
  | token _ hpiece =>
      have hrest := (List.append_eq_nil_iff.mp hcs.symm).2
      exact absurd (List.append_eq_nil_iff.mp hrest).1 hpiece

/-- Every token covers its piece of the whole text, in which the tiles begin
after `before`. -/
theorem covers (before : List Char) (h : Tiles n cs tokens)
    (htext : text.toList = before ++ cs) (hn : byteLength before = n) :
    ∀ t ∈ tokens, ∃ piece, piece ≠ "" ∧ t.span.Covers text piece := by
  induction h generalizing before with
  | done => simp
  | @token n gap piece rest t ts _ hpiece hspan _ _ ih =>
      intro u hu
      rcases List.mem_cons.mp hu with rfl | hu
      · refine ⟨String.ofList piece, ?_, ?_⟩
        · intro hempty
          refine hpiece ?_
          rw [← String.toList_ofList (l := piece), hempty]
          rfl
        · refine Span.covers_of_toList (before ++ gap) piece rest ?_ ?_ ?_
          · rw [htext, List.append_assoc]
          · rw [hspan, byteLength_append, hn]
          · rw [hspan, byteLength_append, hn]
      · refine ih (before ++ (gap ++ piece)) ?_ ?_ u hu
        · rw [htext]
          simp only [List.append_assoc]
        · rw [byteLength_append, byteLength_append, hn, Nat.add_assoc]

/-- No token begins before the tiles do. -/
theorem le_start (h : Tiles n cs tokens) : ∀ t ∈ tokens, n ≤ t.span.start := by
  induction h with
  | done => simp
  | token _ _ hspan _ _ ih =>
      intro u hu
      rcases List.mem_cons.mp hu with rfl | hu
      · rw [hspan]
        exact Nat.le_add_right _ _
      · have hle := ih u hu
        omega

theorem ordered (h : Tiles n cs tokens) :
    tokens.Pairwise fun t u => t.span.stop ≤ u.span.start := by
  induction h with
  | done => exact .nil
  | token _ _ hspan _ htiles ih =>
      refine .cons (fun u hu => ?_) ih
      rw [hspan]
      exact htiles.le_start u hu

/-- What stands before, between and after the tokens is blank. -/
theorem gaps_blank (before : List Char) (h : Tiles n cs tokens)
    (htext : text.toList = before ++ cs) (hn : byteLength before = n) :
    ∀ g ∈ gaps n text.utf8ByteSize tokens,
      ∃ gap : List Char, g.Covers text (String.ofList gap) ∧ ∀ c ∈ gap, isBlank c = true := by
  induction h generalizing before with
  | @done n gap hgap =>
      intro g hg
      rw [List.mem_singleton.mp hg]
      refine ⟨gap, Span.covers_of_toList before gap [] ?_ hn.symm ?_, hgap⟩
      · rw [htext, List.append_nil]
      · rw [← byteLength_toList, htext, byteLength_append]
  | @token n gap piece rest t ts hgap _ hspan _ _ ih =>
      intro g hg
      rcases List.mem_cons.mp hg with rfl | hg
      · refine ⟨gap, Span.covers_of_toList before gap (piece ++ rest) htext hn.symm ?_, hgap⟩
        rw [hspan, hn]
      · rw [hspan] at hg
        refine ih (before ++ (gap ++ piece)) ?_ ?_ g hg
        · rw [htext]
          simp only [List.append_assoc]
        · rw [byteLength_append, byteLength_append, hn, Nat.add_assoc]

/-- An unparseable token is the last one and ends where the tiles end. -/
theorem unparseable_last (h : Tiles n cs tokens) {first : List Token} {t : Token}
    {others : List Token} (htokens : tokens = first ++ t :: others)
    (hkind : t.kind = .unparseable) : others = [] ∧ t.span.stop = n + byteLength cs := by
  induction h generalizing first with
  | done => simp at htokens
  | @token n gap piece rest u us _ _ hspan hlast htiles ih =>
      cases first with
      | nil =>
          simp only [List.nil_append, List.cons.injEq] at htokens
          obtain ⟨rfl, rfl⟩ := htokens
          -- The piece takes all that is left, so no token can follow.
          have hrest := hlast hkind
          subst hrest
          refine ⟨htiles.tokens_of_nil, ?_⟩
          rw [hspan, List.append_nil, byteLength_append, Nat.add_assoc]
      | cons v first =>
          simp only [List.cons_append, List.cons.injEq] at htokens
          obtain ⟨hothers, hstop⟩ := ih htokens.2
          refine ⟨hothers, ?_⟩
          rw [hstop]
          simp only [byteLength_append]
          omega

end Tiles

/-- What can only stand at the end of a list stands there at most once. -/
theorem countP_le_one_of_last {α : Type} {p : α → Bool} {l : List α}
    (h : ∀ before a after, l = before ++ a :: after → p a = true → after = []) :
    l.countP p ≤ 1 := by
  induction l with
  | nil => simp
  | cons a l ih =>
      by_cases ha : p a = true
      · have hnil : l = [] := h [] a l rfl ha
        subst hnil
        exact List.countP_le_length
      · rw [List.countP_cons_of_neg ha]
        exact ih fun before b after hl hb => h (a :: before) b after (by rw [hl]; rfl) hb

/-- Tiles of the content of a text, which starts after `before`, are a tiling
of the text. -/
theorem Tiles.tiled {text : String} {tokens : List Token} (before cs : List Char)
    (h : Tiles (contentStart text) cs tokens) (htext : text.toList = before ++ cs)
    (hbefore : byteLength before = contentStart text) : Tiled text tokens := by
  have hcovers := h.covers before htext hbefore
  have hlast : ∀ first t others, tokens = first ++ t :: others → t.kind = .unparseable →
      others = [] ∧ t.span.stop = text.utf8ByteSize := by
    intro first t others htokens hkind
    obtain ⟨hothers, hstop⟩ := h.unparseable_last htokens hkind
    refine ⟨hothers, ?_⟩
    rw [hstop, ← byteLength_toList, htext, byteLength_append, hbefore]
  refine ⟨?_, ?_, ?_, h.ordered, ?_, hlast, ?_⟩
  · intro t ht
    obtain ⟨piece, hne, hpiece⟩ := hcovers t ht
    exact hpiece.start_lt_stop hne
  · intro t ht
    obtain ⟨piece, -, hpiece⟩ := hcovers t ht
    exact hpiece.stop_le
  · intro t ht
    obtain ⟨piece, -, hpiece⟩ := hcovers t ht
    exact ⟨hpiece.isValid_start, hpiece.isValid_stop⟩
  · intro g hg
    obtain ⟨gap, hgap, hblank⟩ := h.gaps_blank before htext hbefore g hg
    rw [hgap.slice_eq]
    refine ⟨hgap, fun c hc => ?_⟩
    rw [String.toList_ofList] at hc
    exact (isBlank_iff c).mp (hblank c hc)
  · refine countP_le_one_of_last fun first t others htokens hkind => ?_
    exact (hlast first t others htokens (of_decide_eq_true hkind)).1

/-- The tokens of a text are tiles of what follows its byte-order mark. -/
theorem exists_tiles (text : String) : ∃ before cs, text.toList = before ++ cs ∧
    byteLength before = contentStart text ∧ Tiles (contentStart text) cs (scan text) := by
  unfold scan
  split
  · rename_i htext
    have hstart : contentStart text = 0 := by
      unfold contentStart
      rw [htext]
    rw [hstart]
    exact ⟨[], [], htext, rfl, .done (by simp)⟩
  · rename_i c cs htext
    have hstart : contentStart text = if c = byteOrderMark then c.utf8Size else 0 := by
      unfold contentStart
      rw [htext]
    split
    · rename_i hmark
      rw [if_pos hmark] at hstart
      rw [hstart]
      exact ⟨[c], cs, htext, rfl, scanFrom_tiles { Position.origin with offset := c.utf8Size } cs⟩
    · rename_i hmark
      rw [if_neg hmark] at hstart
      rw [hstart]
      exact ⟨[], c :: cs, htext, rfl, scanFrom_tiles .origin (c :: cs)⟩

/-- **Tokens tile their text.** The tokens that scanning yields account for the
whole text: each is a non-empty piece between character boundaries, they stand
in order without overlap, everything else but a byte-order mark in front is
white space, and an unparseable token is the last one and ends with the text. -/
theorem scan_tiled (text : String) : Tiled text (scan text) := by
  obtain ⟨before, cs, htext, hbefore, htiles⟩ := exists_tiles text
  exact htiles.tiled before cs htext hbefore

end Listfile
