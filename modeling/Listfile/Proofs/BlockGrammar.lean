import Listfile.Node.Fold

/-!
# The grammar of blocks

A file is a forest of comments, plain commands, jumps, returns, blocks and
conditionals. `Forest` and `Arms` derive a sequence of statements from this
grammar together with the nodes that it stands for; their first argument bounds
the levels of the derivation.

* `Forest.append` — derivations follow one another;
* `Forest.usedUp` — a derivation uses up every statement: each is the beginning
  of one node, in order, or it closes a body.
-/

namespace Listfile

open Text OpenBlocks

/-! ## The grammar -/

/-- The command goes by this word, whatever the case of its ASCII letters. -/
abbrev Command.IsCalled (c : Command) (word : String) : Prop :=
  sameWord c.name word = true

/-- The words that a command of no structure cannot go by. -/
def structureWords : List String :=
  ["block", "macro", "function", "foreach", "while", "if", "break", "continue", "return"]

/-- Where the span of an arm ends that an `elseif` follows: with its last
element, or with its opener if it has none. -/
def armEnd (opener : Command) (body : List Node) : Span :=
  match body.getLast? with
  | some last => last.location.span
  | none => opener.location.span

mutual

/-- `Forest levels stops ss ns`: the statements `ss` make the nodes `ns`. They
nest at most `levels` deep, and none of them goes by one of the words `stops`
at the outermost level. -/
inductive Forest : Nat → List String → List Statement → List Node → Prop
  | nil {levels : Nat} {stops : List String} : Forest levels stops [] []
  | comment {levels : Nat} {stops : List String} {c : Comment} {ss : List Statement}
      {ns : List Node} (hrest : Forest levels stops ss ns) :
      Forest levels stops (.comment c :: ss) (.comment c :: ns)
  | command {levels : Nat} {stops : List String} {c : Command} {ss : List Statement}
      {ns : List Node} (hname : ∀ word ∈ stops ++ structureWords, ¬ c.IsCalled word)
      (hrest : Forest levels stops ss ns) :
      Forest levels stops (.command c :: ss) (.command c :: ns)
  | jump {levels : Nat} {stops : List String} {kind : JumpKind} {c : Command}
      {ss : List Statement} {ns : List Node} (hname : c.IsCalled kind.keyword)
      (hargs : c.args = []) (hrest : Forest levels stops ss ns) :
      Forest levels stops (.command c :: ss) (.jump kind c.location :: ns)
  | ret {levels : Nat} {stops : List String} {c : Command} {ss : List Statement}
      {ns : List Node} (hname : c.IsCalled "return") (hrest : Forest levels stops ss ns) :
      Forest levels stops (.command c :: ss) (.ret c.location c.args :: ns)
  | block {levels : Nat} {stops : List String} {kind : BlockKind} {opener closer : Command}
      {args : Arguments} {inner ss : List Statement} {body ns : List Node}
      (hname : opener.IsCalled kind.keyword) (hargs : interpret kind opener = .ok args)
      (hbody : Forest levels [kind.terminator] inner body)
      (hcloser : closer.IsCalled kind.terminator) (hrest : Forest (levels + 1) stops ss ns) :
      Forest (levels + 1) stops (.command opener :: (inner ++ .command closer :: ss))
        (.block kind (opener.location.through closer.location.span) args body :: ns)
  | conditional {levels : Nat} {stops : List String} {opener : Command}
      {inner ss : List Statement} {node : Node} {ns : List Node}
      (hname : opener.IsCalled "if") (harms : Arms levels opener inner node)
      (hrest : Forest (levels + 1) stops ss ns) :
      Forest (levels + 1) stops (.command opener :: (inner ++ ss)) (node :: ns)

/-- `Arms levels opener ss node`: the statements `ss` go on with the
conditional, or the part of one, that `opener` opens, up to its `endif`, and
make of it the conditional `node`. An `elseif` opens a conditional of its own,
one level deeper. -/
inductive Arms : Nat → Command → List Statement → Node → Prop
  | endif {levels : Nat} {opener closer : Command} {inner : List Statement} {body : List Node}
      (hbody : Forest levels ["else", "elseif", "endif"] inner body)
      (hcloser : closer.IsCalled "endif") :
      Arms levels opener (inner ++ [.command closer])
        (.conditional (opener.location.through closer.location.span) (.ofCondition opener.args)
          body none)
  | otherwise {levels : Nat} {opener other closer : Command} {inner inner' : List Statement}
      {body body' : List Node} (hbody : Forest levels ["else", "elseif", "endif"] inner body)
      (hother : other.IsCalled "else") (hbody' : Forest levels ["endif"] inner' body')
      (hcloser : closer.IsCalled "endif") :
      Arms levels opener (inner ++ .command other :: (inner' ++ [.command closer]))
        (.conditional (opener.location.through closer.location.span) (.ofCondition opener.args)
          body (some body'))
  | elseif {levels : Nat} {opener next : Command} {inner inner' : List Statement}
      {body : List Node} {node : Node}
      (hbody : Forest (levels + 1) ["else", "elseif", "endif"] inner body)
      (hnext : next.IsCalled "elseif") (harms : Arms levels next inner' node) :
      Arms (levels + 1) opener (inner ++ .command next :: inner')
        (.conditional (opener.location.through (armEnd opener body)) (.ofCondition opener.args)
          body (some [node]))

end

theorem Forest.append {us : List Statement} {ms : List Node} :
    ∀ {levels : Nat} {stops : List String} {ss : List Statement} {ns : List Node},
      Forest levels stops ss ns → Forest levels stops us ms →
        Forest levels stops (ss ++ us) (ns ++ ms)
  | _, _, _, _, .nil, h' => h'
  | _, _, _, _, .comment hrest, h' => .comment (hrest.append h')
  | _, _, _, _, .command hname hrest, h' => .command hname (hrest.append h')
  | _, _, _, _, .jump hname hargs hrest, h' => .jump hname hargs (hrest.append h')
  | _, _, _, _, .ret hname hrest, h' => .ret hname (hrest.append h')
  | _, _, _, _, .block hname hargs hbody hcloser hrest, h' => by
      -- What follows goes behind the closer, the body stays as it is.
      rw [List.cons_append, List.append_assoc, List.cons_append]
      exact .block hname hargs hbody hcloser (hrest.append h')
  | _, _, _, _, .conditional hname harms hrest, h' => by
      rw [List.cons_append, List.append_assoc]
      exact .conditional hname harms (hrest.append h')

/-! ## What becomes of the statements -/

/-- Line, column and offset at which something begins. -/
def Location.beginning (l : Location) : Nat × Nat × Nat :=
  (l.line, l.column, l.span.start)

/-- Where a statement begins. -/
def Statement.beginning : Statement → Nat × Nat × Nat
  | .comment c => c.location.beginning
  | .command c => c.location.beginning

mutual

/-- Where the nodes of a tree begin, from the outside in and in order. -/
def Node.beginnings : Node → List (Nat × Nat × Nat)
  | .comment c => [c.location.beginning]
  | .command c => [c.location.beginning]
  | .block _ l _ body => l.beginning :: Node.beginningsList body
  | .conditional l _ ifTrue ifFalse =>
      l.beginning :: (Node.beginningsList ifTrue ++ Node.beginningsBranch ifFalse)
  | .jump _ l => [l.beginning]
  | .ret l _ => [l.beginning]

/-- Where the nodes of a sequence of trees begin. -/
def Node.beginningsList : List Node → List (Nat × Nat × Nat)
  | [] => []
  | n :: ns => n.beginnings ++ Node.beginningsList ns

/-- Where the nodes of a branch begin, which may be missing. -/
def Node.beginningsBranch : Option (List Node) → List (Nat × Nat × Nat)
  | none => []
  | some ns => Node.beginningsList ns

end

/-- A command that only ends a body: the terminator of a block, `else` or
`endif`. -/
def Statement.IsCloser : Statement → Prop
  | .comment _ => False
  | .command c => c.IsCalled "else" ∨ c.IsCalled "endif" ∨
      ∃ kind : BlockKind, c.IsCalled kind.terminator

/-- `UsedUp ss marks`: from the statements `ss` a choice of closers is taken
away, and `marks` is where the others begin, in order. -/
inductive UsedUp : List Statement → List (Nat × Nat × Nat) → Prop
  | nil : UsedUp [] []
  | node {s : Statement} {ss : List Statement} {marks : List (Nat × Nat × Nat)}
      (hrest : UsedUp ss marks) : UsedUp (s :: ss) (s.beginning :: marks)
  | closer {s : Statement} {ss : List Statement} {marks : List (Nat × Nat × Nat)}
      (hs : s.IsCloser) (hrest : UsedUp ss marks) : UsedUp (s :: ss) marks

theorem UsedUp.append {ss us : List Statement} {marks marks' : List (Nat × Nat × Nat)}
    (h : UsedUp ss marks) (h' : UsedUp us marks') : UsedUp (ss ++ us) (marks ++ marks') := by
  induction h with
  | nil => exact h'
  | node _ ih => exact .node ih
  | closer hs _ ih => exact .closer hs ih

mutual

/-- Every statement of a derivation is the beginning of one node, in order, or
it is a closer. -/
theorem Forest.usedUp : ∀ {levels : Nat} {stops : List String} {ss : List Statement}
    {ns : List Node}, Forest levels stops ss ns → UsedUp ss (Node.beginningsList ns)
  | _, _, _, _, .nil => .nil
  | _, _, _, _, .comment hrest => .node hrest.usedUp
  | _, _, _, _, .command _ hrest => .node hrest.usedUp
  | _, _, _, _, .jump _ _ hrest => .node hrest.usedUp
  | _, _, _, _, .ret _ hrest => .node hrest.usedUp
  | _, _, _, _, @Forest.block _ _ kind _ _ _ _ _ _ _ _ _ hbody hcloser hrest =>
      .node (hbody.usedUp.append (.closer (.inr (.inr ⟨kind, hcloser⟩)) hrest.usedUp))
  | _, _, _, _, .conditional _ harms hrest => harms.usedUp.append hrest.usedUp

/-- So is every statement of a conditional, its opener included. -/
theorem Arms.usedUp : ∀ {levels : Nat} {opener : Command} {ss : List Statement} {node : Node},
    Arms levels opener ss node → UsedUp (.command opener :: ss) node.beginnings
  | _, _, _, _, .endif hbody hcloser =>
      .node (hbody.usedUp.append (.closer (.inr (.inl hcloser)) .nil))
  | _, _, _, _, .otherwise hbody hother hbody' hcloser => by
      have hcloser : Statement.IsCloser (.command _) := .inr (.inl hcloser)
      have hlast := hbody'.usedUp.append (.closer hcloser .nil)
      rw [List.append_nil] at hlast
      exact .node (hbody.usedUp.append (.closer (.inl hother) hlast))
  | _, _, _, _, .elseif hbody _ harms => by
      -- The `elseif` is no closer: it begins the node of the next arm.
      have hnext := harms.usedUp
      rw [← List.append_nil (Node.beginnings _)] at hnext
      exact .node (hbody.usedUp.append hnext)

end

end Listfile
