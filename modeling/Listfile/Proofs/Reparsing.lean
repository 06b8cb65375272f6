import Listfile.Proofs.Lexing
import Listfile.Proofs.Shift
import Listfile.Proofs.StatementGrammar
import Listfile.Proofs.Subtrees

/-!
# Parsing the text of a node

The span of a node cuts out the text that the node was read from, no more and
no less: that text by itself is read as the same node, at the places it would
have there.

* `scan_slice` — neighbouring tokens are the tokens of the text they span;
* `read_slice` — so are neighbouring statements, comments left out or not;
* `parseTree_slice` — and so is a node at any depth of a tree, but for the arms
  of a conditional that `elseif` divides.
-/

namespace Listfile

open Text

variable {options : ParseOptions} {source : String}

/-- What moves the beginning of a text to a location. -/
def Shift.to (l : Location) : Shift :=
  ⟨l.span.start, l.line - 1, l.column - 1⟩

/-! ## Tokens -/

theorem Lexed.stop_getLast {p q : Position} {cs rest : List Char} {ts : List Token} {t : Token}
    (h : Lexed p cs ts q rest) (ht : ts.getLast? = some t) : t.span.stop = q.offset := by
  induction h with
  | done => cases ht
  | @token p q gap s value after rest c kind ts _ _ _ hrest ih =>
      cases ts with
      | nil =>
          cases hrest
          obtain rfl := Option.some.inj ht
          rfl
      | cons u ts =>
          rw [List.getLast?_cons_cons] at ht
          exact ih ht

/-- Tokens in front of others are all the tokens of the piece of text that ends
with the last of them. -/
theorem exists_piece_of_scanFrom {p : Position} {cs : List Char} {ts us : List Token}
    (h : scanFrom p cs = ts ++ us) :
    ∃ piece back, cs = piece ++ back ∧ scanFrom p piece = ts ∧
      ∀ t, ts.getLast? = some t → t.span.stop = p.offset + byteLength piece := by
  obtain ⟨q, back, hlexed, -⟩ := lexed_of_scanFrom_eq h
  -- The run over the tokens does not depend on what is left behind them.
  have hlexed : Lexed p cs ts q ([] ++ back) := hlexed
  obtain ⟨piece, hpiece, hlexed⟩ := hlexed.truncate
  rw [List.append_nil] at hlexed
  have htokens := hlexed.scanFrom_eq
  rw [scanFrom_nil, List.append_nil] at htokens
  refine ⟨piece, back, hpiece, htokens, fun t ht => ?_⟩
  obtain ⟨taken, htaken, hq⟩ := hlexed.exists_taken
  rw [List.append_nil] at htaken
  rw [hlexed.stop_getLast ht, hq, Position.offset_advance, htaken]

theorem Position.shift_origin {p : Position} (hp : p.Counted) :
    origin.shift ⟨p.offset, p.line - 1, p.column - 1⟩ = p := by
  obtain ⟨hline, hcolumn⟩ := hp
  show (⟨0 + p.offset, 1 + (p.line - 1), 1 + (p.column - 1)⟩ : Position) = p
  obtain ⟨offset, line, column⟩ := p
  rw [mk.injEq]
  dsimp only at hline hcolumn ⊢
  omega

/-- A token with which a statement can begin: a comment or the name of a
command. -/
def Token.OpensStatement (t : Token) : Prop :=
  t.kind = .comment ∨ t.kind = .raw ∧ isIdentifier t.value = true

/-- Such a token does not begin with a byte-order mark. -/
theorem Token.OpensStatement.ne_mark {t : Token} {p : Position} {s value after : List Char}
    (h : t.OpensStatement) (ht : t = tokenAt p t.kind s value)
    (hshape : LexicalShape t.kind s value after) : ∃ c cs, s = c :: cs ∧ c ≠ '\ufeff' := by
  rcases h with hkind | ⟨hkind, hident⟩
  · rw [hkind] at hshape
    cases hshape <;> exact ⟨'#', _, rfl, by decide⟩
  · have hvalue : t.value = String.ofList value := congrArg Token.value ht
    rw [hkind] at hshape
    cases hshape with
    | raw hne _ _ _ =>
        obtain ⟨c, cs, rfl⟩ := List.exists_cons_of_ne_nil hne
        refine ⟨c, cs, rfl, ?_⟩
        rintro rfl
        rw [hvalue, isIdentifier, String.toList_ofList] at hident
        exact absurd (Bool.and_eq_true_iff.mp hident).1 (by decide)

/-- The location runs from the first of the tokens to the last. -/
def SpansTokens (ts : List Token) (l : Location) : Prop :=
  ∃ first last, ts.head? = some first ∧ ts.getLast? = some last ∧
    l = first.location.through last.span

/-- Neighbouring tokens are the tokens of the text that they span. -/
theorem scan_slice {before ts after : List Token} {l : Location}
    (hscan : scan source = before ++ (ts ++ after)) (hspans : SpansTokens ts l)
    (hopens : ∀ t, ts.head? = some t → t.OpensStatement) :
    (scan (l.span.slice source)).map (·.shift (.to l)) = ts := by
  obtain ⟨first, last, hfirst, hlast, rfl⟩ := hspans
  obtain ⟨us, rfl⟩ : ∃ us, ts = first :: us := List.head?_eq_some_iff.mp hfirst
  obtain ⟨p, front, s, value, rest, htext, hp, hcounted, hshape, htoken, hrest⟩ := scan_split hscan
  have hrest : scanFrom p (s ++ rest) = (first :: us) ++ after := hrest
  obtain ⟨piece, back, hpiece, htokens, hstop⟩ := exists_piece_of_scanFrom hrest
  have hstop := hstop last hlast
  rw [hp] at hstop
  have hlocation : first.location = .between p (p.advance s) := congrArg Token.location htoken
  have hslice : (first.location.through last.span).span.slice source = String.ofList piece := by
    rw [hpiece] at htext
    have hcovers : (first.location.through last.span).span.Covers source (String.ofList piece) := by
      refine Span.covers_of_toList front piece back htext ?_ hstop
      rw [hlocation]
      exact hp
    exact hcovers.slice_eq
  have hmark : (String.ofList piece).toList.head? ≠ some '\ufeff' := by
    obtain ⟨c, cs, rfl, hc⟩ := (hopens first rfl).ne_mark htoken hshape
    cases piece with
    | nil => simp
    | cons d ds =>
        obtain ⟨rfl, -⟩ := List.cons.inj hpiece
        rw [String.toList_ofList]
        simpa using hc
  have horigin : Position.origin.shift (.to (first.location.through last.span)) = p := by
    rw [hlocation]
    exact Position.shift_origin hcounted
  rw [hslice, scan_of_not_mark hmark, String.toList_ofList, ← scanFrom_shift _ (Nat.le_refl 1),
    horigin, htokens]

/-! ## Statements -/

theorem FileElement.spansTokens {e : FileElement} {s : Statement}
    (h : e.statement? options = some s) : SpansTokens e.tokens s.location := by
  cases e with
  | comment t =>
      simp only [statement?] at h
      split at h
      · cases h
      · cases h
        exact ⟨t, t, rfl, rfl, rfl⟩
  | invocation name left inside right =>
      obtain rfl := Option.some.inj h
      refine ⟨name, right, rfl, ?_, rfl⟩
      show (name :: left :: (inside ++ [right])).getLast? = some right
      rw [List.getLast?_cons_cons, ← List.cons_append, List.getLast?_append,
        List.getLast?_singleton]
      rfl

theorem FileElement.WellFormed.opensStatement {e : FileElement} (h : e.WellFormed) :
    ∀ t, e.tokens.head? = some t → t.OpensStatement := by
  intro t ht
  cases e with
  | comment u =>
      obtain rfl := Option.some.inj ht
      exact .inl h
  | invocation name left inside right =>
      obtain rfl := Option.some.inj ht
      exact .inr ⟨h.1, h.2.1⟩

/-- The statements that are delivered are those of elements at the front of the
tokens, whatever ends them. -/
theorem exists_elements_of_read (options : ParseOptions) (tokens : List Token) :
    ∃ (elements : List FileElement) (rest : List Token), (∀ e ∈ elements, e.WellFormed) ∧
      tokens = elements.flatMap FileElement.tokens ++ rest ∧
      (Statement.read options tokens).items = elements.filterMap (·.statement? options) := by
  by_cases hfile : IsFile tokens
  · obtain ⟨elements, hderives⟩ := hfile
    refine ⟨elements, [], hderives.wellFormed, ?_, ?_⟩
    · rw [List.append_nil, hderives.tokens_eq]
    · rw [read_of_derivesFile hderives]
  · obtain ⟨elements, rest, fault, hlast, hread, -⟩ := read_of_not_isFile options hfile
    refine ⟨elements, rest, hlast.wellFormed, hlast.tokens_eq, ?_⟩
    rw [hread]

/-- A command that is read is an invocation among the tokens. -/
theorem exists_invocation_of_mem {options : ParseOptions} {tokens : List Token} {c : Command}
    (hc : .command c ∈ (Statement.read options tokens).items) :
    ∃ before after name left inside right,
      tokens = before ++ (FileElement.invocation name left inside right).tokens ++ after ∧
      c = ⟨name.location.through right.span, name.value, argumentsOf inside⟩ := by
  obtain ⟨elements, rest, -, htokens, hitems⟩ := exists_elements_of_read options tokens
  rw [hitems] at hc
  obtain ⟨e, he, hes⟩ := List.mem_filterMap.mp hc
  obtain ⟨front, back, rfl⟩ := List.append_of_mem he
  rw [List.flatMap_append, List.flatMap_cons] at htokens
  cases e with
  | comment t =>
      simp only [FileElement.statement?] at hes
      split at hes <;> cases hes
  | invocation name left inside right =>
      cases hes
      refine ⟨front.flatMap FileElement.tokens, back.flatMap FileElement.tokens ++ rest, name, left,
        inside, right, ?_, rfl⟩
      rw [htokens]
      simp only [List.append_assoc]

/-- A part of what is left of a list comes from a part of the list, which can
be chosen to begin and to end with something that is left. -/
theorem exists_part_of_filterMap {α β : Type} {f : α → Option β} {l : List α}
    {before bs after : List β} {b b' : β} (h : l.filterMap f = before ++ bs ++ after)
    (hfirst : bs.head? = some b) (hlast : bs.getLast? = some b') :
    ∃ front part back a a', l = front ++ (part ++ back) ∧ part.filterMap f = bs ∧
      part.head? = some a ∧ f a = some b ∧ part.getLast? = some a' ∧ f a' = some b' := by
  obtain ⟨l', back, rfl, hl', -⟩ := List.filterMap_eq_append_iff.mp h
  obtain ⟨front, part, rfl, -, hpart⟩ := List.filterMap_eq_append_iff.mp hl'
  obtain ⟨bs', rfl⟩ := List.head?_eq_some_iff.mp hfirst
  obtain ⟨skipped, a, part, rfl, hskipped, ha, hrest⟩ := List.filterMap_eq_cons_iff.mp hpart
  -- Nothing before `a` is left, so the part may begin with it.
  have hpart : (a :: part).filterMap f = b :: bs' := by
    rw [List.filterMap_cons_some ha, hrest]
  obtain ⟨bs'', hbs⟩ := List.getLast?_eq_some_iff.mp hlast
  rw [hbs] at hpart ⊢
  obtain ⟨part', ends, hparts, hpart', hends⟩ := List.filterMap_eq_append_iff.mp hpart
  obtain ⟨skipped', a', back', rfl, hskipped', ha', -⟩ := List.filterMap_eq_cons_iff.mp hends
  refine ⟨front ++ skipped, part' ++ skipped' ++ [a'], back' ++ back, a, a', ?_, ?_, ?_, ha, ?_,
    ha'⟩
  · rw [hparts]
    simp only [List.append_assoc, List.cons_append, List.nil_append]
  · rw [List.filterMap_append, List.filterMap_append, hpart',
      List.filterMap_eq_nil_iff.mpr hskipped', List.append_nil, List.filterMap_cons_some ha',
      List.filterMap_nil]
  · have hhead := congrArg List.head? hparts
    simp only [List.head?_append, List.head?_cons] at hhead ⊢
    rw [hhead, Option.or_assoc]
  · rw [List.getLast?_concat]

/-- Elements run from the first token of the first one to the last token of the
last one. -/
theorem spansTokens_flatMap {elements : List FileElement} {e e' : FileElement} {s s' : Statement}
    (he : elements.head? = some e) (hs : e.statement? options = some s)
    (he' : elements.getLast? = some e') (hs' : e'.statement? options = some s') :
    SpansTokens (elements.flatMap FileElement.tokens) (s.location.through s'.location.span) := by
  obtain ⟨first, _, hfirst, -, hlocation⟩ := e.spansTokens hs
  obtain ⟨_, last, -, hlast, hlocation'⟩ := e'.spansTokens hs'
  refine ⟨first, last, ?_, ?_, ?_⟩
  · obtain ⟨others, rfl⟩ := List.head?_eq_some_iff.mp he
    rw [List.flatMap_cons, List.head?_append, hfirst]
    rfl
  · obtain ⟨others, rfl⟩ := List.getLast?_eq_some_iff.mp he'
    rw [List.flatMap_append, List.flatMap_singleton, List.getLast?_append, hlast]
    rfl
  · rw [hlocation, hlocation']
    rfl

/-- Neighbouring statements are the statements of the text that they span. -/
theorem read_slice {before us after : List Statement} {l : Location}
    (hread : (Statement.read options (scan source)).items = before ++ us ++ after)
    (hspans : SpansStatements us l) :
    (Statement.read options (scan (l.span.slice source))).items.map (·.shift (.to l)) = us ∧
      (Statement.read options (scan (l.span.slice source))).error = none := by
  obtain ⟨first, last, hfirst, hlast, rfl⟩ := hspans
  obtain ⟨elements, rest, hwf, htokens, hitems⟩ := exists_elements_of_read options (scan source)
  rw [hitems] at hread
  obtain ⟨front, part, back, e, e', rfl, hpart, he, hes, he', hes'⟩ :=
    exists_part_of_filterMap hread hfirst hlast
  have hwf : ∀ x ∈ part, x.WellFormed := fun x hx =>
    hwf x (List.mem_append_right _ (List.mem_append_left _ hx))
  rw [List.flatMap_append, List.flatMap_append, List.append_assoc, List.append_assoc] at htokens
  have hopens : ∀ t, (part.flatMap FileElement.tokens).head? = some t → t.OpensStatement := by
    intro t ht
    obtain ⟨others, rfl⟩ := List.head?_eq_some_iff.mp he
    obtain ⟨u, -, hu, -, -⟩ := e.spansTokens hes
    rw [List.flatMap_cons, List.head?_append, hu, Option.some_or] at ht
    exact (hwf e List.mem_cons_self).opensStatement t (hu.trans ht)
  have hslice := scan_slice htokens (spansTokens_flatMap he hes he' hes') hopens
  have hshift := Statement.read_shift (.to (first.location.through last.location.span)) options
    (scan ((first.location.through last.location.span).span.slice source))
  rw [hslice, read_of_derivesFile ⟨hwf, rfl⟩, hpart] at hshift
  obtain ⟨hsame, herror⟩ := Reading.mk.inj hshift
  exact ⟨hsame.symm, Option.map_eq_none_iff.mp herror.symm⟩

/-! ## Nodes -/

/-- Whether the token where the location begins is the word, whatever the case
of its letters. -/
def Location.beginsWith (l : Location) (source word : String) : Bool :=
  (scan source).any fun t => t.span.start == l.span.start && sameWord t.value word

/-- Whether the node was folded from an `elseif`: a conditional whose first
token is that word. -/
def Node.isElseif (source : String) : Node → Bool
  | .conditional l _ _ _ => l.beginsWith source "elseif"
  | _ => false

/-- Whether the false branch of the node was folded from an `elseif`. -/
def Node.hasElseif (source : String) : Node → Bool
  | .conditional _ _ _ (some [next]) => next.isElseif source
  | _ => false

/-- A command that is read begins with its name. -/
theorem Command.beginsWith_of_mem {c : Command} {word : String}
    (hc : .command c ∈ (Statement.read options (scan source)).items) (h : c.IsCalled word) :
    c.location.beginsWith source word = true := by
  obtain ⟨before, after, name, left, inside, right, htokens, rfl⟩ := exists_invocation_of_mem hc
  have hname : name ∈ scan source := by
    rw [htokens]
    exact List.mem_append_left _ (List.mem_append_right _ List.mem_cons_self)
  refine List.any_eq_true.mpr ⟨name, hname, ?_⟩
  exact Bool.and_eq_true_iff.mpr ⟨beq_self_eq_true _, h⟩

/-- What an `elseif` opens is folded from it. -/
theorem Arms.isElseif {levels : Nat} {c : Command} {us : List Statement} {n : Node}
    (h : Arms levels c us n) (hc : .command c ∈ (Statement.read options (scan source)).items)
    (hcalled : c.IsCalled "elseif") : n.isElseif source = true := by
  obtain ⟨l, args, ifTrue, ifFalse, rfl, hstart⟩ := h.start_eq
  have hbegins := Command.beginsWith_of_mem hc hcalled
  unfold Location.beginsWith at hbegins
  rwa [← hstart] at hbegins

theorem GoesOnWithElseif.hasElseif {us : List Statement} {n : Node} (h : GoesOnWithElseif us n)
    (hus : us ⊆ (Statement.read options (scan source)).items) : n.hasElseif source = true := by
  unfold GoesOnWithElseif at h
  split at h
  · obtain ⟨below, c, tail, hc, hcalled, harms⟩ := h
    exact harms.isElseif (hus hc) hcalled
  · exact h.elim

/-- **The span of a node is its source.** The text that the span of a node cuts
out is read by itself as this node and nothing else, at the places that it has
there. The node may stand at any depth of the tree and in front of an error;
only a conditional that was folded from an `elseif`, or whose false branch was,
is not read back. -/
theorem parseTree_slice (options : ParseOptions) (source : String) (n : Node)
    (hn : n ∈ Node.allNodes (parseTree options source).items)
    (helseif : n.isElseif source = false) (hbranch : n.hasElseif source = false) :
    ∃ m, parseTree options (n.location.span.slice source) = ⟨[m], none⟩ ∧
      m.shift (.to n.location) = n := by
  have hn : n ∈ Node.allNodes (Node.fold (Statement.read options (scan source))).items := hn
  obtain ⟨ss, more, hitems, hforest⟩ := exists_forest_of_fold (Statement.read options (scan source))
  have hss : ss ⊆ (Statement.read options (scan source)).items := by
    rw [hitems]
    exact List.subset_append_left ss more
  cases hforest.excerpt hn with
  | arm hc hcalled harms =>
      rw [harms.isElseif (hss hc) hcalled] at helseif
      cases helseif
  | @whole below before us after hparts hlevels hnode =>
      rcases hnode.spans with hspans | hgoesOn
      · rw [hparts, List.append_assoc] at hitems
        obtain ⟨hsame, herror⟩ := read_slice hitems hspans
        have hfold := Node.fold_shift (.to n.location)
          (Statement.read options (scan (n.location.span.slice source)))
        rw [hsame, herror, Option.map_none, hnode.fold_eq hlevels] at hfold
        obtain ⟨hnodes, hnone⟩ := Reading.mk.inj hfold
        obtain ⟨m, hm, hmn⟩ := List.map_eq_singleton_iff.mp hnodes.symm
        refine ⟨m, ?_, hmn⟩
        rw [parseTree, Reading.mapError_eq_ok_iff, Reading.eq_of_error_eq_none
          (Option.map_eq_none_iff.mp hnone.symm), hm]
      · have hus : us ⊆ ss := by
          rw [hparts]
          exact fun s hs => List.mem_append_left _ (List.mem_append_right _ hs)
        rw [hgoesOn.hasElseif fun s hs => hss (hus hs)] at hbranch
        cases hbranch

/-- A loop between an `elseif` and an error, with a comment that is skipped. -/
theorem parseTree_slice_of_loop :
    let source := "if(A)\nELSEIF(B)\n  While([[é]]) # c\n    return(1)\n  endwhile()\nendif() x("
    let n := (Node.allNodes (parseTree ⟨true⟩ source).items).get ⟨2, by decide +kernel⟩
    n.location = ⟨3, 3, ⟨18, 62⟩⟩ ∧
      ∃ m, parseTree ⟨true⟩ (n.location.span.slice source) = ⟨[m], none⟩ ∧
        m.shift (.to n.location) = n :=
  ⟨by decide +kernel, parseTree_slice _ _ _ (List.get_mem _ _) (by decide +kernel)
    (by decide +kernel)⟩

end Listfile
