import Listfile.Proofs.NodeSpans
import Listfile.Proofs.Repair

/-!
# Exact locations

A location counts the same place three times: in bytes from the beginning of
the text, in lines, and in characters from the beginning of its line.

* `Counts` — what line and column say of the text before a place;
* `Counts.advance` — a reader keeps them right over whatever it passes;
* `scan_exact` — so tokens begin where they say, and all else begins with a
  token: statements, nodes at any depth and faults;
* `firstLine_spec` — the text that is shown of a fault;
* `locations_exact` — all of these together.
-/

namespace Listfile

open Text OpenBlocks

/-! ## Counting lines and columns -/

/-- A place behind the text `before` has this line and column: every line feed
ends a line, and what follows the last of them stands on the line of the
place. -/
def Counts (before : List Char) (line column : Nat) : Prop :=
  ∃ earlier front, before = earlier ++ front ∧ (earlier = [] ∨ earlier.getLast? = some '\n') ∧
    '\n' ∉ front ∧ line = 1 + before.count '\n' ∧ column = 1 + front.length

/-- The location begins where it says. Neither its line nor its column counts a
byte-order mark in front of the text. -/
def Location.Exact (source : String) (l : Location) : Prop :=
  ∃ before after, source.toList = leadingMark source.toList ++ (before ++ after) ∧
    l.span.start = byteLength (leadingMark source.toList ++ before) ∧
    Counts before l.line l.column

theorem Counts.next {before : List Char} {p : Position} (h : Counts before p.line p.column)
    (c : Char) : Counts (before ++ [c]) (p.next c).line (p.next c).column := by
  obtain ⟨earlier, front, rfl, hearlier, hfront, hline, hcolumn⟩ := h
  by_cases hc : c = '\n'
  · subst hc
    refine ⟨earlier ++ front ++ ['\n'], [], ?_, ?_, ?_, ?_, ?_⟩ <;>
      simp [Position.next, hline, Nat.add_assoc]
  · refine ⟨earlier, front ++ [c], ?_, hearlier, ?_, ?_, ?_⟩
    · simp
    · simp [hfront, Ne.symm hc]
    · simp [Position.next, hline, hc]
    · simp [Position.next, hc, hcolumn, Nat.add_assoc]

/-- Whatever a reader passes, its line and column stay right. -/
theorem Counts.advance {before : List Char} {p : Position} (h : Counts before p.line p.column)
    (cs : List Char) : Counts (before ++ cs) (p.advance cs).line (p.advance cs).column := by
  induction cs generalizing before p with
  | nil => simpa [Position.advance] using h
  | cons c cs ih =>
      have hall := ih (h.next c)
      rwa [List.append_assoc, List.singleton_append] at hall

theorem Location.Exact.of_beginning {source : String} {l m : Location} (hm : m.Exact source)
    (h : l.beginning = m.beginning) : l.Exact source := by
  obtain ⟨before, after, hsource, hstart, hcounts⟩ := hm
  simp only [beginning, Prod.mk.injEq] at h
  obtain ⟨hline, hcolumn, hoffset⟩ := h
  refine ⟨before, after, hsource, ?_, ?_⟩
  · rw [hoffset, hstart]
  · rwa [hline, hcolumn]

/-! ## Tokens -/

/-- Tokens begin where they say. -/
theorem scan_exact {source : String} {t : Token} (ht : t ∈ scan source) :
    t.location.Exact source := by
  obtain ⟨cs, hsource, hscan⟩ := scan_eq_scanFrom source
  obtain ⟨ts, us, hsplit⟩ := List.append_of_mem ht
  rw [hscan] at hsplit
  obtain ⟨q, rest, hlexed, hus⟩ := lexed_of_scanFrom_eq hsplit
  obtain ⟨taken, rfl, rfl⟩ := hlexed.exists_taken
  obtain ⟨gap, c, s, value, after, rfl, -, -, -, htoken, -⟩ := scanFrom_eq_cons hus
  have hfirst : Counts [] (firstPosition source.toList).line (firstPosition source.toList).column :=
    ⟨[], [], rfl, .inl rfl, List.not_mem_nil, rfl, rfl⟩
  refine ⟨taken ++ gap, c :: s ++ after, ?_, ?_, ?_⟩
  · rw [List.append_assoc]
    exact hsource
  · rw [htoken, byteLength_append]
    show (((firstPosition source.toList).advance taken).advance gap).offset = _
    rw [← Position.advance_append, Position.offset_advance]
    rfl
  · rw [htoken]
    exact (hfirst.advance taken).advance gap

/-! ## Statements and nodes -/

section Statements

variable {options : ParseOptions} {source : String} {s : Statement}

/-- The argument tokens of a statement. -/
def Statement.args : Statement → List Token
  | .comment _ => []
  | .command c => c.args

theorem Statement.beginning_eq (s : Statement) : s.beginning = s.location.beginning := by
  cases s <;> rfl

/-- A statement begins with a token. -/
theorem exists_first_token (hs : s ∈ (Statement.read options (scan source)).items) :
    ∃ t ∈ scan source, s.beginning = t.location.beginning := by
  obtain ⟨elements, rest, -, htokens, hitems⟩ := exists_elements_of_read options (scan source)
  rw [hitems] at hs
  obtain ⟨e, he, hes⟩ := List.mem_filterMap.mp hs
  obtain ⟨first, last, hfirst, -, hlocation⟩ := e.spansTokens hes
  have hmem : first ∈ elements.flatMap FileElement.tokens :=
    List.mem_flatMap.mpr ⟨e, he, List.mem_of_head? hfirst⟩
  refine ⟨first, ?_, ?_⟩
  · rw [htokens]
    exact List.mem_append_left _ hmem
  · rw [s.beginning_eq, hlocation]
    rfl

/-- Its arguments are tokens of the text. -/
theorem Statement.args_subset (hs : s ∈ (Statement.read options (scan source)).items) :
    s.args ⊆ scan source := by
  cases s with
  | comment c => exact List.nil_subset _
  | command c =>
      obtain ⟨before, after, name, left, inside, right, htokens, rfl⟩ := exists_invocation_of_mem hs
      intro t ht
      have hinside : t ∈ inside := (List.mem_filter.mp ht).1
      rw [htokens]
      simp [FileElement.tokens, hinside]

/-- The node begins where the statement does, and its arguments are among those of
the statement. -/
structure Node.OpenedBy (n : Node) (s : Statement) : Prop where
  beginning : n.location.beginning = s.beginning
  args : n.argTokens ⊆ s.args

theorem Arms.openedBy {levels : Nat} {c : Command} {us : List Statement} {n : Node}
    (h : Arms levels c us n) : n.OpenedBy (.command c) := by
  have hargs : (Arguments.ofCondition c.args).tokens?.getD [] ⊆ c.args := by
    rw [Arguments.tokens_ofCondition]
    exact List.Subset.refl _
  cases h with
  | endif => exact ⟨rfl, hargs⟩
  | otherwise => exact ⟨rfl, hargs⟩
  | elseif => exact ⟨rfl, hargs⟩

/-- A node is opened by the first of its statements. -/
theorem Forest.openedBy {levels : Nat} {stops : List String} {us : List Statement} {n : Node}
    (h : Forest levels stops us [n]) : ∃ s ∈ us, n.OpenedBy s := by
  cases h with
  | comment => exact ⟨_, List.mem_cons_self, rfl, List.nil_subset _⟩
  | command => exact ⟨_, List.mem_cons_self, rfl, List.Subset.refl _⟩
  | jump => exact ⟨_, List.mem_cons_self, rfl, List.nil_subset _⟩
  | ret => exact ⟨_, List.mem_cons_self, rfl, List.Subset.refl _⟩
  | block _ hargs => exact ⟨_, List.mem_cons_self, rfl, interpret_tokens hargs⟩
  | conditional _ harms => exact ⟨_, List.mem_cons_self, harms.openedBy⟩

theorem Excerpt.openedBy {levels : Nat} {ss : List Statement} {n : Node}
    (h : Excerpt levels ss n) : ∃ s ∈ ss, n.OpenedBy s := by
  cases h with
  | whole hss _ hforest =>
      obtain ⟨s, hs, hopened⟩ := hforest.openedBy
      refine ⟨s, ?_, hopened⟩
      rw [hss]
      simp [hs]
  | arm hc _ harms => exact ⟨_, hc, harms.openedBy⟩

/-- Every node of a tree is opened by one of the statements. -/
theorem exists_opener_of_mem {n : Node}
    (hn : n ∈ Node.allNodes (parseTree options source).items) :
    ∃ s ∈ (Statement.read options (scan source)).items, n.OpenedBy s := by
  obtain ⟨before, after, hitems, hforest⟩ :=
    exists_forest_of_fold (Statement.read options (scan source))
  obtain ⟨s, hs, hopened⟩ := (hforest.excerpt hn).openedBy
  refine ⟨s, ?_, hopened⟩
  rw [hitems]
  exact List.mem_append_left _ hs

theorem Statement.exact (hs : s ∈ (Statement.read options (scan source)).items) :
    s.location.Exact source ∧ ∀ t ∈ s.args, t.location.Exact source := by
  obtain ⟨t, ht, hbeginning⟩ := exists_first_token hs
  rw [s.beginning_eq] at hbeginning
  refine ⟨(scan_exact ht).of_beginning hbeginning, ?_⟩
  intro u hu
  exact scan_exact (Statement.args_subset hs hu)

theorem Node.exact {n : Node} (hn : n ∈ Node.allNodes (parseTree options source).items) :
    n.location.Exact source ∧ ∀ t ∈ n.argTokens, t.location.Exact source := by
  obtain ⟨s, hs, hopened⟩ := exists_opener_of_mem hn
  obtain ⟨hlocation, hargs⟩ := Statement.exact hs
  refine ⟨hlocation.of_beginning (hopened.beginning.trans s.beginning_eq), ?_⟩
  intro t ht
  exact hargs t (hopened.args ht)

end Statements

/-! ## Faults -/

/-- The line is the first one of the text. It ends before the first line feed,
and before a carriage return that stands directly in front of that line feed. -/
inductive FirstLine (line : List Char) : List Char → Prop
  | whole (hline : '\n' ∉ line) : FirstLine line line
  | lineFeed {rest : List Char} (hline : '\n' ∉ line) (hreturn : line.getLast? ≠ some '\r') :
      FirstLine line (line ++ '\n' :: rest)
  | returnLineFeed {rest : List Char} (hline : '\n' ∉ line) :
      FirstLine line (line ++ '\r' :: '\n' :: rest)

theorem firstLine_spec (cs : List Char) : FirstLine (firstLine cs) cs := by
  have hsplit := List.takeWhile_append_dropWhile (p := (· != '\n')) (l := cs)
  have hfront : '\n' ∉ cs.takeWhile (· != '\n') := by
    intro hmem
    exact absurd (List.all_eq_true.mp List.all_takeWhile _ hmem) (by decide)
  generalize hline : cs.takeWhile (· != '\n') = line at hsplit hfront
  cases hrest : cs.dropWhile (· != '\n') with
  | nil =>
      rw [hrest, List.append_nil] at hsplit
      have hfirst : firstLine cs = cs := by
        unfold firstLine
        rw [hline, hsplit]
        exact if_neg fun h => Nat.lt_irrefl _ h.1
      rw [hfirst]
      exact .whole (hsplit ▸ hfront)
  | cons c rest =>
      have hhead := List.head_dropWhile_not (p := (· != '\n')) (l := cs) (by simp [hrest])
      simp only [hrest, List.head_cons, bne_eq_false_iff_eq] at hhead
      rw [hrest, hhead] at hsplit
      have hshorter : line.length < cs.length := by simp [← hsplit]
      by_cases hreturn : line.getLast? = some '\r'
      · obtain ⟨front, rfl⟩ := List.getLast?_eq_some_iff.mp hreturn
        have hfirst : firstLine cs = front := by
          unfold firstLine
          rw [hline]
          exact (if_pos ⟨hshorter, hreturn⟩).trans List.dropLast_concat
        rw [hfirst, ← hsplit, List.append_assoc]
        exact .returnLineFeed fun h => hfront (List.mem_append_left _ h)
      · have hfirst : firstLine cs = line := by
          unfold firstLine
          rw [hline]
          exact if_neg fun h => hreturn h.2
        rw [hfirst, ← hsplit]
        exact .lineFeed hfront hreturn

section Faults

variable {options : ParseOptions} {source : String} {fault : Fault}

/-- A fault of the reader of statements is at a token. -/
theorem exists_token_of_read_error
    (h : (Statement.read options (scan source)).error = some fault) :
    ∃ t ∈ scan source, fault.location = t.location := by
  by_cases hfile : IsFile (scan source)
  · obtain ⟨elements, hderives⟩ := hfile
    rw [read_of_derivesFile hderives] at h
    cases h
  · obtain ⟨elements, rest, fault', hlast, hread, hfails⟩ := read_of_not_isFile options hfile
    rw [hread] at h
    obtain rfl := Option.some.inj h
    generalize hlocation : fault'.location = l at hfails
    cases hfails with
    | @refused before after t htokens _ _ =>
        refine ⟨t, ?_, rfl⟩
        rw [htokens]
        simp
    | @unfinished name left right inside more _ hrest _ htokens =>
        obtain ⟨t, ts, rfl⟩ := List.exists_cons_of_ne_nil hrest
        obtain rfl : name = t := (List.cons.inj htokens).1
        refine ⟨name, ?_, rfl⟩
        rw [hlast.tokens_eq]
        simp

/-- A fault of the fold is one of the reader of statements, or it is at a
statement. -/
theorem exists_statement_of_fold_error
    (h : (Node.fold (Statement.read options (scan source))).error = some fault) :
    (Statement.read options (scan source)).error = some fault ∨
      ∃ s ∈ (Statement.read options (scan source)).items, fault.location = s.location := by
  rcases Reader.error_of_run h with
    ⟨open_, s, hs, hrefused⟩ | hcut | ⟨open_, -, hreach, hfinish⟩
  · obtain ⟨c, cause, rfl, rfl, -⟩ := refuses_of_step hrefused
    exact .inr ⟨_, hs, rfl⟩
  · exact .inl hcut
  · cases open_ with
    | nil => cases hfinish
    | cons b outer =>
        have hmem : Statement.command b.blamed ∈ OpenBlocks.blamed (b :: outer) := by
          simp [OpenBlocks.blamed]
        obtain rfl := Option.some.inj hfinish
        exact .inr ⟨_, (blamed_sublist_of_reaches hreach).subset hmem, rfl⟩

/-- Where a fault is, of whichever reader. -/
theorem Fault.exact (h : (Statement.read options (scan source)).error = some fault ∨
      (Node.fold (Statement.read options (scan source))).error = some fault) :
    fault.location.Exact source ∧ fault.location.span.Fits source := by
  have hplace : (∃ t ∈ scan source, fault.location = t.location) ∨
      ∃ s ∈ (Statement.read options (scan source)).items, fault.location = s.location := by
    rcases h with hread | hfold
    · exact .inl (exists_token_of_read_error hread)
    · exact (exists_statement_of_fold_error hfold).imp_left exists_token_of_read_error
  rcases hplace with ⟨t, ht, hlocation⟩ | ⟨s, hs, hlocation⟩
  · rw [hlocation]
    exact ⟨scan_exact ht, (scan_inOrder source).fits _ (List.mem_map_of_mem ht)⟩
  · rw [hlocation]
    exact ⟨(Statement.exact hs).1, (items_inOrder options source).fits _ (List.mem_map_of_mem hs)⟩

end Faults

/-! ## Everywhere -/

/-- **Locations are exact.** Every token of a text, every statement and every
node at any depth with its argument tokens, and every error begin at the byte,
the line and the column that they say. An error covers a stretch of the text and
shows the first line of it. -/
theorem locations_exact (options : ParseOptions) (source : String) :
    (∀ t ∈ scan source, t.location.Exact source) ∧
    (∀ s ∈ (parseFlat options source).items,
      s.location.Exact source ∧ ∀ t ∈ s.args, t.location.Exact source) ∧
    (∀ n ∈ Node.allNodes (parseTree options source).items,
      n.location.Exact source ∧ ∀ t ∈ n.argTokens, t.location.Exact source) ∧
    (∀ e, (parseFlat options source).error = some e ∨ (parseTree options source).error = some e →
      e.location.Exact source ∧ e.location.span.Fits source ∧
        FirstLine e.text.toList (e.location.span.slice source).toList) := by
  refine ⟨?_, ?_, ?_, ?_⟩
  · intro t ht
    exact scan_exact ht
  · intro s hs
    exact Statement.exact hs
  · intro n hn
    exact Node.exact hn
  · intro e he
    obtain ⟨fault, hfault, rfl⟩ : ∃ fault, ((Statement.read options (scan source)).error =
        some fault ∨ (Node.fold (Statement.read options (scan source))).error = some fault) ∧
          fault.inSource source = e := by
      rcases he with he | he
      · obtain ⟨fault, hfault, hshown⟩ := Option.map_eq_some_iff.mp he
        exact ⟨fault, .inl hfault, hshown⟩
      · obtain ⟨fault, hfault, hshown⟩ := Option.map_eq_some_iff.mp he
        exact ⟨fault, .inr hfault, hshown⟩
    obtain ⟨hexact, hfits⟩ := Fault.exact hfault
    refine ⟨hexact, hfits, ?_⟩
    have hspec := firstLine_spec (fault.location.span.sliceChars source.toList)
    unfold Fault.inSource Span.slice ParseError.location
    rwa [String.toList_ofList, String.toList_ofList]

/-- A conditional without its `endif`, behind a byte-order mark and a quote over
two lines, with arguments over two lines itself. -/
theorem locations_exact_of_unclosed_conditional :
    let source := "\ufeffx(\"é\nü\")  if(A\r\nB)"
    let e : ParseError :=
      ⟨⟨.missingTerminator ["else", "elseif", "endif"], ⟨2, 6, ⟨15, 23⟩⟩⟩, "if(A"⟩
    (parseTree ⟨false⟩ source).error = some e ∧ e.location.Exact source ∧
      FirstLine e.text.toList (e.location.span.slice source).toList := by
  have herror : (parseTree ⟨false⟩ "\ufeffx(\"é\nü\")  if(A\r\nB)").error = some
      ⟨⟨.missingTerminator ["else", "elseif", "endif"], ⟨2, 6, ⟨15, 23⟩⟩⟩, "if(A"⟩ := by
    decide +kernel
  obtain ⟨hexact, -, hline⟩ := (locations_exact ⟨false⟩ _).2.2.2 _ (.inr herror)
  exact ⟨herror, hexact, hline⟩

end Listfile
