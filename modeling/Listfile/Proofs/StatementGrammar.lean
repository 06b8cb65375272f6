import Listfile.Parse
import Listfile.Proofs.ReaderRuns

/-!
# The grammar of statements

A file is a sequence of elements: comments, and invocations of an identifier
with balanced parentheses. `FileElement` is a syntax tree of one element,
`DerivesFile` says which tokens a file is made of, and `ViablePrefix` which
tokens can still become a file.

Reading statements agrees with this grammar in both directions:

* `reaches_of_wellFormed` — the reader takes the tokens of elements and
  delivers their statements;
* `LastElements`, `Pending` — the invariant of a run: the tokens taken are the
  longest file among their prefixes followed by an element that has begun;
* `parseFlat_grammar` — what is delivered, and where the reading fails.
-/

namespace Listfile

open Text

/-! ## Elements of a file -/

/-- The kinds that may stand anywhere inside the arguments. Parentheses come
in pairs, and an opened bracket or a stretch without tokens has no place. -/
def Kind.isPlain : Kind → Bool
  | .raw | .quoted | .bracketed | .semicolon | .comment => true
  | _ => false

/-- What may stand between the parentheses of an invocation. -/
inductive InsideForm : List Token → Prop
  | nil : InsideForm []
  | plain {t : Token} {ts : List Token} (ht : t.kind.isPlain = true) (hts : InsideForm ts) :
      InsideForm (t :: ts)
  | group {left right : Token} {inner ts : List Token} (hleft : left.kind = .leftParen)
      (hinner : InsideForm inner) (hright : right.kind = .rightParen) (hts : InsideForm ts) :
      InsideForm (left :: (inner ++ right :: ts))

/-- The arguments among the tokens between the parentheses: all but semicolons
and comments. -/
def argumentsOf (inside : List Token) : List Token :=
  inside.filter fun t => t.kind ≠ .semicolon ∧ t.kind ≠ .comment

/-- An element of a file. -/
inductive FileElement where
  | comment (t : Token)
  | invocation (name left : Token) (inside : List Token) (right : Token)

namespace FileElement

/-- The tokens of an element. -/
def tokens : FileElement → List Token
  | .comment t => [t]
  | .invocation name left inside right => name :: left :: (inside ++ [right])

/-- Whether the tokens are what the grammar asks for. -/
def WellFormed : FileElement → Prop
  | .comment t => t.kind = .comment
  | .invocation name left inside right =>
      name.kind = .raw ∧ isIdentifier name.value = true ∧ left.kind = .leftParen ∧
        InsideForm inside ∧ right.kind = .rightParen

/-- The statement that an element stands for. Comments may be left out. An
invocation runs from the start of its name to the end of its last
parenthesis. -/
def statement? (options : ParseOptions) : FileElement → Option Statement
  | .comment t =>
      if options.skipComments then none else some (.comment ⟨t.location, t.value⟩)
  | .invocation name _ inside right =>
      some (.command ⟨⟨name.line, name.column, ⟨name.span.start, right.span.stop⟩⟩, name.value,
        argumentsOf inside⟩)

end FileElement

/-- The tokens are those of the elements, which are all well-formed. -/
structure DerivesFile (elements : List FileElement) (tokens : List Token) : Prop where
  wellFormed : ∀ e ∈ elements, e.WellFormed
  tokens_eq : tokens = elements.flatMap FileElement.tokens

/-- The tokens are a complete file. -/
def IsFile (tokens : List Token) : Prop :=
  ∃ elements, DerivesFile elements tokens

/-- Something can follow the tokens that makes them a complete file. -/
def ViablePrefix (tokens : List Token) : Prop :=
  ∃ more, IsFile (tokens ++ more)

/-- The elements are the longest complete file that the tokens begin with, and
`rest` is what follows it. -/
structure LastElements (tokens : List Token) (elements : List FileElement)
    (rest : List Token) : Prop where
  wellFormed : ∀ e ∈ elements, e.WellFormed
  tokens_eq : tokens = elements.flatMap FileElement.tokens ++ rest
  longest : ∀ file, file <+: tokens → IsFile file →
    file <+: elements.flatMap FileElement.tokens

/-- Where reading must fail when `rest` is left of the tokens after their
longest complete file. -/
inductive FailsAt (tokens rest : List Token) : Location → Prop
  /-- At the first token that no file can go on with. -/
  | refused {before after : List Token} {t : Token} (htokens : tokens = before ++ t :: after)
      (hviable : ViablePrefix before) (hnot : ¬ ViablePrefix (before ++ [t])) :
      FailsAt tokens rest t.location
  /-- At the name of the invocation inside which the tokens run out. -/
  | unfinished {name left right : Token} {inside more : List Token}
      (hform : (FileElement.invocation name left inside right).WellFormed)
      (hrest : rest ≠ []) (hmore : more ≠ [])
      (htokens : (FileElement.invocation name left inside right).tokens = rest ++ more) :
      FailsAt tokens rest name.location

/-! ## What stands inside parentheses -/

theorem InsideForm.append {ts us : List Token} (hts : InsideForm ts) (hus : InsideForm us) :
    InsideForm (ts ++ us) := by
  induction hts with
  | nil => exact hus
  | plain ht _ ih => exact .plain ht ih
  | group hleft hinner hright _ _ ih =>
      rw [List.cons_append, List.append_assoc, List.cons_append]
      exact .group hleft hinner hright ih

/-- What may stand before the closing parenthesis when `depth` inner ones are
open. -/
inductive OpenInside : Nat → List Token → Prop
  | closed {ts : List Token} (hts : InsideForm ts) : OpenInside 0 ts
  | group {depth : Nat} {left : Token} {ts us : List Token} (hts : OpenInside depth ts)
      (hleft : left.kind = .leftParen) (hus : InsideForm us) :
      OpenInside (depth + 1) (ts ++ left :: us)

namespace OpenInside

variable {depth : Nat} {ts us : List Token} {t : Token}

theorem append (hts : OpenInside depth ts) (hus : InsideForm us) :
    OpenInside depth (ts ++ us) := by
  cases hts with
  | closed hts => exact .closed (hts.append hus)
  | group hts hleft hvs =>
      rw [List.append_assoc, List.cons_append]
      exact .group hts hleft (hvs.append hus)

theorem openParen (hts : OpenInside depth ts) (ht : t.kind = .leftParen) :
    OpenInside (depth + 1) (ts ++ [t]) :=
  .group hts ht .nil

/-- A closing parenthesis makes one group of all since the last opening one. -/
theorem closeParen (hts : OpenInside (depth + 1) ts) (ht : t.kind = .rightParen) :
    OpenInside depth (ts ++ [t]) := by
  cases hts with
  | group hts hleft hus =>
      rw [List.append_assoc, List.cons_append]
      exact hts.append (.group hleft hus ht .nil)

/-- Enough closing parentheses complete the inside. -/
theorem complete (hts : OpenInside depth ts) : ∃ closing, InsideForm (ts ++ closing) := by
  induction depth generalizing ts with
  | zero =>
      cases hts with
      | closed hts => exact ⟨[], hts.append .nil⟩
  | succ depth ih =>
      obtain ⟨closing, hclosing⟩ := ih
        (hts.closeParen (t := ⟨.rightParen, ")", ⟨1, 1, ⟨0, 1⟩⟩⟩) rfl)
      rw [List.append_assoc] at hclosing
      exact ⟨_, hclosing⟩

end OpenInside

theorem argumentsOf_append (ts us : List Token) :
    argumentsOf (ts ++ us) = argumentsOf ts ++ argumentsOf us :=
  List.filter_append ..

/-! ## Steps of the reader -/

namespace Statement

variable {options : ParseOptions} {name t : Token} {depth : Nat} {taken : List Token}

/-- Inside the arguments a plain token is kept if it is an argument. -/
theorem argument_of_isPlain (ht : t.kind.isPlain = true) :
    argument name depth taken t =
      .ok (none, .arguments name depth ((argumentsOf [t]).reverse ++ taken)) := by
  cases hkind : t.kind <;> simp only [hkind, Kind.isPlain, Bool.false_eq_true] at ht <;>
    simp [argument, argumentsOf, hkind]

theorem argument_of_leftParen (ht : t.kind = .leftParen) :
    argument name depth taken t =
      .ok (none, .arguments name (depth + 1) ((argumentsOf [t]).reverse ++ taken)) := by
  simp [argument, argumentsOf, ht]

theorem argument_of_rightParen_inner (ht : t.kind = .rightParen) :
    argument name (depth + 1) taken t =
      .ok (none, .arguments name depth ((argumentsOf [t]).reverse ++ taken)) := by
  simp [argument, argumentsOf, ht]

theorem argument_of_rightParen_last (ht : t.kind = .rightParen) :
    argument name 0 taken t = .ok (some (ofParts name taken t), .between) := by
  simp [argument, ht]

/-- Balanced tokens leave the reader inside the same parentheses. -/
theorem reaches_of_insideForm (options : ParseOptions) {name : Token} {depth : Nat}
    {taken ts : List Token} (hts : InsideForm ts) :
    (reader options).Reaches (.arguments name depth taken) ts []
      (.arguments name depth ((argumentsOf ts).reverse ++ taken)) := by
  induction hts generalizing depth taken with
  | nil => exact .refl _
  | @plain t ts ht _ ih =>
      have hrest := @ih depth ((argumentsOf [t]).reverse ++ taken)
      rw [← List.append_assoc, ← List.reverse_append, ← argumentsOf_append] at hrest
      exact .silent (argument_of_isPlain ht) hrest
  | @group left right inner ts hleft _ hright _ ihinner ihrest =>
      have hall : left :: (inner ++ right :: ts) = [left] ++ (inner ++ ([right] ++ ts)) := rfl
      rw [hall]
      simp only [argumentsOf_append, List.reverse_append, List.append_assoc]
      refine .silent (argument_of_leftParen hleft) ?_
      refine ihinner.trans (.silent (argument_of_rightParen_inner hright) ?_)
      exact ihrest

/-- The reader takes the tokens of one element and delivers its statement. -/
theorem reaches_of_element (options : ParseOptions) {e : FileElement} (he : e.WellFormed) :
    (reader options).Reaches .between e.tokens (e.statement? options).toList .between := by
  cases e with
  | comment t =>
      have hkind : t.kind = .comment := he
      have hstep : (reader options).step .between t =
          .ok ((FileElement.comment t).statement? options, .between) := by
        show start options t = _
        simp only [start, hkind, FileElement.statement?]
        split <;> rfl
      exact .single hstep
  | invocation name left inside right =>
      obtain ⟨hname, hident, hleft, hinside, hright⟩ := he
      have hstart : (reader options).step .between name = .ok (none, .named name) := by
        show start options name = _
        unfold start
        rw [hname]
        exact if_pos hident
      have hopen : (reader options).step (.named name) left = .ok (none, .arguments name 0 []) := by
        show openArguments name left = _
        unfold openArguments
        rw [hleft]
      refine .silent hstart (.silent hopen ?_)
      have hlast : (reader options).step
          (.arguments name 0 ((argumentsOf inside).reverse ++ [])) right = _ :=
        argument_of_rightParen_last hright
      have hreach := (reaches_of_insideForm options hinside).trans (.single hlast)
      rwa [List.append_nil, ofParts, List.reverse_reverse] at hreach

/-- The reader takes the tokens of well-formed elements and delivers their
statements. -/
theorem reaches_of_wellFormed (options : ParseOptions) {elements : List FileElement}
    (h : ∀ e ∈ elements, e.WellFormed) :
    (reader options).Reaches .between (elements.flatMap FileElement.tokens)
      (elements.filterMap (·.statement? options)) .between := by
  induction elements with
  | nil => exact .refl _
  | cons e elements ih =>
      have hfirst := reaches_of_element options (h e List.mem_cons_self)
      have hrest := ih fun x hx => h x (List.mem_cons_of_mem _ hx)
      have hall := hfirst.trans hrest
      rw [List.flatMap_cons, List.filterMap_cons]
      -- A comment that is skipped delivers nothing.
      cases hs : e.statement? options <;> rw [hs] at hall <;> exact hall

/-- What a token may be refused for. -/
inductive RefusedFor : FaultCause → Prop
  | unmatchedBracket : RefusedFor .unmatchedBracket
  | unparseable : RefusedFor .unparseable
  | expectedCommandName : RefusedFor .expectedCommandName
  | invalidCommandName : RefusedFor .invalidCommandName
  | expectedOpenParen (found : Option String) : RefusedFor (.expectedOpenParen found)

/-- A refused token is to blame itself. -/
theorem refusedFor_of_step {p : Progress} {fault : Fault}
    (h : (reader options).step p t = .error fault) :
    ∃ cause, fault = t.fault cause ∧ RefusedFor cause := by
  cases p with
  | between =>
      have h : start options t = .error fault := h
      unfold start at h
      split at h
      · split at h <;> cases h
      · exact ⟨_, (Except.error.inj h).symm, .unmatchedBracket⟩
      · exact ⟨_, (Except.error.inj h).symm, .unparseable⟩
      · split at h
        · cases h
        · exact ⟨_, (Except.error.inj h).symm, .invalidCommandName⟩
      · exact ⟨_, (Except.error.inj h).symm, .expectedCommandName⟩
  | named name =>
      have h : openArguments name t = .error fault := h
      unfold openArguments at h
      split at h
      · cases h
      · exact ⟨_, (Except.error.inj h).symm, .unparseable⟩
      · exact ⟨_, (Except.error.inj h).symm, .unmatchedBracket⟩
      · exact ⟨_, (Except.error.inj h).symm, .expectedOpenParen _⟩
  | arguments name depth taken =>
      have h : argument name depth taken t = .error fault := h
      unfold argument at h
      split at h
      · cases h
      · cases h
      · cases h
      · cases h
      · cases h
      · exact ⟨_, (Except.error.inj h).symm, .unmatchedBracket⟩
      · exact ⟨_, (Except.error.inj h).symm, .unparseable⟩
      · cases h

theorem location_of_refused {p : Progress} {fault : Fault}
    (h : (reader options).step p t = .error fault) : fault.location = t.location := by
  obtain ⟨cause, rfl, -⟩ := refusedFor_of_step h
  rfl

end Statement

/-! ## Files and the reader -/

open Statement

variable {options : ParseOptions}

/-- The reader takes a complete file. -/
theorem IsFile.reaches {tokens : List Token} (h : IsFile tokens) (options : ParseOptions) :
    ∃ statements, (reader options).Reaches .between tokens statements .between := by
  obtain ⟨elements, hwf, rfl⟩ := h
  exact ⟨_, reaches_of_wellFormed options hwf⟩

/-- No file goes on with a token that the reader refuses. -/
theorem not_viablePrefix_of_refused {before : List Token} {t : Token}
    {statements : List Statement} {p : Progress} {fault : Fault}
    (hreach : (reader options).Reaches .between before statements p)
    (hrefused : (reader options).step p t = .error fault) : ¬ ViablePrefix (before ++ [t]) := by
  rintro ⟨more, hfile⟩
  rw [List.append_assoc] at hfile
  obtain ⟨all, hall⟩ := hfile.reaches options
  exact hreach.not_refused hrefused hall

/-- The element that has begun at a stage of the reader: what was taken of it
so far. -/
inductive Pending : List Token → Progress → Prop
  | between : Pending [] .between
  | named {name : Token} (hname : name.kind = .raw) (hident : isIdentifier name.value = true) :
      Pending [name] (.named name)
  | arguments {name left : Token} {inside : List Token} {depth : Nat} (hname : name.kind = .raw)
      (hident : isIdentifier name.value = true) (hleft : left.kind = .leftParen)
      (hinside : OpenInside depth inside) :
      Pending (name :: left :: inside) (.arguments name depth (argumentsOf inside).reverse)

/-- What one token does to the element that has begun: it completes an element
or goes on with this one. -/
theorem Pending.step {rest : List Token} {p p' : Progress} {t : Token} {s : Option Statement}
    (h : Pending rest p) (hstep : (reader options).step p t = .ok (s, p')) :
    (∃ e : FileElement, e.WellFormed ∧ e.tokens = rest ++ [t] ∧ e.statement? options = s ∧
      p' = .between) ∨ (s = none ∧ p' ≠ .between ∧ Pending (rest ++ [t]) p') := by
  cases h with
  | between =>
      have hstep : start options t = .ok (s, p') := hstep
      unfold start at hstep
      split at hstep
      · rename_i hkind
        refine .inl ⟨.comment t, hkind, rfl, ?_, ?_⟩ <;> split at hstep <;> cases hstep
        all_goals simp_all [FileElement.statement?]
      · cases hstep
      · cases hstep
      · rename_i hkind
        split at hstep
        · rename_i hident
          cases hstep
          exact .inr ⟨rfl, by simp, .named hkind hident⟩
        · cases hstep
      · cases hstep
  | named hname hident =>
      rename_i name
      have hstep : openArguments name t = .ok (s, p') := hstep
      unfold openArguments at hstep
      split at hstep
      · rename_i hleft
        cases hstep
        exact .inr ⟨rfl, by simp, .arguments hname hident hleft (.closed .nil)⟩
      all_goals cases hstep
  | @arguments name left inside depth hname hident hleft hinside =>
      have hstep : argument name depth (argumentsOf inside).reverse t = .ok (s, p') := hstep
      by_cases hplain : t.kind.isPlain = true
      · rw [argument_of_isPlain hplain] at hstep
        rw [← List.reverse_append, ← argumentsOf_append] at hstep
        cases hstep
        exact .inr ⟨rfl, by simp,
          .arguments hname hident hleft (hinside.append (.plain hplain .nil))⟩
      by_cases hopen : t.kind = .leftParen
      · rw [argument_of_leftParen hopen, ← List.reverse_append, ← argumentsOf_append] at hstep
        cases hstep
        exact .inr ⟨rfl, by simp, .arguments hname hident hleft (hinside.openParen hopen)⟩
      by_cases hclose : t.kind = .rightParen
      · cases depth with
        | zero =>
            rw [argument_of_rightParen_last hclose] at hstep
            cases hinside with
            | closed hinside =>
                cases hstep
                refine .inl ⟨.invocation name left inside t,
                  ⟨hname, hident, hleft, hinside, hclose⟩, rfl, ?_, rfl⟩
                rw [ofParts, List.reverse_reverse]
                rfl
        | succ depth =>
            rw [argument_of_rightParen_inner hclose, ← List.reverse_append,
              ← argumentsOf_append] at hstep
            cases hstep
            exact .inr ⟨rfl, by simp, .arguments hname hident hleft (hinside.closeParen hclose)⟩
      · -- The two kinds that are left are never taken.
        unfold argument at hstep
        cases hkind : t.kind <;> simp_all [Kind.isPlain]

/-- An element that has begun and is not complete is an invocation, and the
reader blames its name if nothing follows. -/
theorem Pending.unfinished {rest : List Token} {p : Progress} (h : Pending rest p)
    (hp : p ≠ .between) (options : ParseOptions) : ∃ name left inside right more fault,
      (FileElement.invocation name left inside right).WellFormed ∧ rest ≠ [] ∧ more ≠ [] ∧
        (FileElement.invocation name left inside right).tokens = rest ++ more ∧
        (reader options).finish p = some fault ∧ fault.location = name.location := by
  cases h with
  | between => exact absurd rfl hp
  | @named name hname hident =>
      let left : Token := ⟨.leftParen, "(", ⟨1, 1, ⟨0, 1⟩⟩⟩
      let right : Token := ⟨.rightParen, ")", ⟨1, 2, ⟨1, 2⟩⟩⟩
      exact ⟨name, left, [], right, [left, right], _, ⟨hname, hident, rfl, .nil, rfl⟩, by simp,
        by simp, rfl, rfl, rfl⟩
  | @arguments name left inside depth hname hident hleft hinside =>
      obtain ⟨closing, hclosing⟩ := hinside.complete
      let right : Token := ⟨.rightParen, ")", ⟨1, 1, ⟨0, 1⟩⟩⟩
      refine ⟨name, left, inside ++ closing, right, closing ++ [right], _,
        ⟨hname, hident, hleft, hclosing, rfl⟩, by simp, by simp, ?_, rfl, rfl⟩
      simp only [FileElement.tokens, List.cons_append, List.append_assoc]

/-- Whatever has been taken can become a file. -/
theorem Pending.viablePrefix {elements : List FileElement} {rest : List Token} {p : Progress}
    (hwf : ∀ e ∈ elements, e.WellFormed) (h : Pending rest p) :
    ViablePrefix (elements.flatMap FileElement.tokens ++ rest) := by
  by_cases hp : p = .between
  · subst hp
    cases h
    exact ⟨[], elements, hwf, by rw [List.append_nil, List.append_nil]⟩
  · obtain ⟨name, left, inside, right, more, -, hform, -, -, htokens, -, -⟩ :=
      h.unfinished hp ⟨false⟩
    refine ⟨more, elements ++ [.invocation name left inside right], ?_, ?_⟩
    · intro e he
      rcases List.mem_append.mp he with he | he
      · exact hwf e he
      · rw [List.mem_singleton.mp he]
        exact hform
    · rw [List.flatMap_append, List.flatMap_singleton, htokens, List.append_assoc]

/-- The run lemma: wherever the reader comes to, it has taken a longest file
and delivered its statements, and then the beginning of one element. -/
theorem lastElements_of_reaches {tokens : List Token} {statements : List Statement}
    {p : Progress} (h : (reader options).Reaches .between tokens statements p) :
    ∃ elements rest, LastElements tokens elements rest ∧
      statements = elements.filterMap (·.statement? options) ∧ Pending rest p := by
  refine h.invariant (P := fun tokens statements p => ∃ elements rest,
    LastElements tokens elements rest ∧
      statements = elements.filterMap (·.statement? options) ∧ Pending rest p) ?_ ?_
  · refine ⟨[], [], ⟨by simp, rfl, ?_⟩, rfl, .between⟩
    intro file hfile _
    exact hfile
  · rintro tokens statements p t s p' hreach ⟨elements, rest, hlast, rfl, hpending⟩ hstep
    rcases hpending.step hstep with ⟨e, he, htokens, rfl, rfl⟩ | ⟨rfl, hp', hpending'⟩
    · -- The token completes an element, so all that was taken is a file.
      have hall : tokens ++ [t] = (elements ++ [e]).flatMap FileElement.tokens := by
        rw [List.flatMap_append, List.flatMap_singleton, htokens, hlast.tokens_eq,
          List.append_assoc]
      refine ⟨elements ++ [e], [], ⟨?_, ?_, ?_⟩, ?_, .between⟩
      · intro x hx
        rcases List.mem_append.mp hx with hx | hx
        · exact hlast.wellFormed x hx
        · rw [List.mem_singleton.mp hx]
          exact he
      · rw [hall, List.append_nil]
      · intro file hfile _
        rwa [hall] at hfile
      · rw [List.filterMap_append]
        cases hs : e.statement? options <;> simp [hs]
    · refine ⟨elements, rest ++ [t], ⟨hlast.wellFormed, ?_, ?_⟩, ?_, hpending'⟩
      · rw [hlast.tokens_eq, List.append_assoc]
      · intro file hfile hisFile
        rcases List.prefix_concat_iff.mp hfile with rfl | hfile
        · -- A file brings the reader between elements, where it is not.
          obtain ⟨all, hall⟩ := hisFile.reaches options
          exact absurd ((hreach.trans (.single hstep)).unique hall).2 hp'
        · exact hlast.longest file hfile hisFile
      · rw [Option.toList_none, List.append_nil]

/-- A complete file is read as the statements of its elements. -/
theorem read_of_derivesFile {elements : List FileElement} {tokens : List Token}
    (h : DerivesFile elements tokens) :
    Statement.read options tokens = ⟨elements.filterMap (·.statement? options), none⟩ := by
  have hreach := reaches_of_wellFormed options h.wellFormed
  rw [← h.tokens_eq] at hreach
  exact Reader.runFrom_of_reaches none hreach

/-- Anything else is read up to its longest complete file and one error. -/
theorem read_of_not_isFile (options : ParseOptions) {tokens : List Token}
    (h : ¬ IsFile tokens) :
    ∃ elements rest fault, LastElements tokens elements rest ∧
      Statement.read options tokens = ⟨elements.filterMap (·.statement? options), some fault⟩ ∧
      FailsAt tokens rest fault.location := by
  rcases Reader.reaches_or_refused (reader options) .between tokens with
    ⟨statements, p, hreach⟩ | ⟨before, t, after, statements, p, fault, htokens, hreach, hrefused⟩
  · -- All tokens are taken, so they run out inside an invocation.
    obtain ⟨elements, rest, hlast, rfl, hpending⟩ := lastElements_of_reaches hreach
    have hp : p ≠ .between := by
      rintro rfl
      cases hpending
      exact h ⟨elements, hlast.wellFormed, by rw [hlast.tokens_eq, List.append_nil]⟩
    obtain ⟨name, left, inside, right, more, fault, hform, hrest, hmore, hname, hfinish,
      hlocation⟩ := hpending.unfinished hp options
    refine ⟨elements, rest, fault, hlast, ?_, ?_⟩
    · show (reader options).runFrom none .between tokens = _
      rw [Reader.runFrom_of_reaches none hreach, hfinish]
      rfl
    · rw [hlocation]
      exact .unfinished hform hrest hmore hname
  · obtain ⟨elements, rest, hlast, rfl, hpending⟩ := lastElements_of_reaches hreach
    have hnot := not_viablePrefix_of_refused hreach hrefused
    refine ⟨elements, rest ++ t :: after, fault, ⟨hlast.wellFormed, ?_, ?_⟩, ?_, ?_⟩
    · rw [htokens, hlast.tokens_eq, List.append_assoc]
    · intro file hfile hisFile
      have hbefore : before ++ [t] <+: tokens := ⟨after, by rw [htokens, List.append_assoc]; rfl⟩
      -- A longer file would go on with the token that is refused.
      rcases List.prefix_or_prefix_of_prefix hbefore hfile with ⟨more, hlonger⟩ | hshorter
      · exact absurd ⟨more, by rw [hlonger]; exact hisFile⟩ hnot
      · rcases List.prefix_concat_iff.mp hshorter with rfl | hshorter
        · exact absurd ⟨[], by rw [List.append_nil]; exact hisFile⟩ hnot
        · exact hlast.longest file hshorter hisFile
    · show (reader options).runFrom none .between tokens = _
      rw [htokens]
      exact Reader.runFrom_of_refused none hreach hrefused
    · rw [location_of_refused hrefused]
      refine .refused htokens ?_ hnot
      rw [hlast.tokens_eq]
      exact hpending.viablePrefix hlast.wellFormed

/-- **Statements are read as the grammar says.** Reading ends without an error
exactly on the complete files, and delivers the statements of their elements.
On other tokens it delivers the statements of the longest complete file in
front and then one error, at the first token that no file can go on with or,
when the tokens run out, at the name of the invocation that is not complete. -/
theorem parseFlat_grammar (options : ParseOptions) (source : String) :
    ((parseFlat options source).error = none ↔ IsFile (scan source)) ∧
    (∀ elements, DerivesFile elements (scan source) →
      (parseFlat options source).items = elements.filterMap (·.statement? options)) ∧
    (¬ IsFile (scan source) → ∃ elements rest e, LastElements (scan source) elements rest ∧
      (parseFlat options source).outcomes =
        (elements.filterMap (·.statement? options)).map .ok ++ [.error e] ∧
      FailsAt (scan source) rest e.location) := by
  refine ⟨⟨fun hnone => ?_, ?_⟩, ?_, ?_⟩
  · refine Classical.byContradiction fun hnot => ?_
    obtain ⟨elements, rest, fault, -, hread, -⟩ := read_of_not_isFile options hnot
    rw [parseFlat, hread] at hnone
    exact absurd hnone (by simp [Reading.mapError])
  · rintro ⟨elements, hderives⟩
    rw [parseFlat, read_of_derivesFile hderives]
    rfl
  · intro elements hderives
    rw [parseFlat, read_of_derivesFile hderives]
    rfl
  · intro hnot
    obtain ⟨elements, rest, fault, hlast, hread, hfails⟩ :=
      read_of_not_isFile options hnot
    refine ⟨elements, rest, fault.inSource source, hlast, ?_, hfails⟩
    rw [parseFlat, hread]
    rfl

end Listfile
