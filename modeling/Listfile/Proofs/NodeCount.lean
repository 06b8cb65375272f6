import Listfile.Proofs.Locating
import Listfile.Proofs.NodeSpans

/-!
# How many nodes a tree has

Every statement of a text that parses begins a node of its tree, or it closes a
body and is used up. So the nodes can be counted in the statements.

* `Node.length_beginningsList` — the nodes are as many as the places where one
  begins;
* `UsedUp.length_add` — these places and the closers make up all statements;
* `Forest.length_eq` — a tree says by itself how many closers it has used up;
* `sizeList_parseTree` — the number of nodes in the tree of a text.
-/

namespace Listfile

/-! ## Nodes and their beginnings -/

mutual

theorem Node.length_beginnings : ∀ n : Node, n.beginnings.length = n.size
  | .comment _ => rfl
  | .command _ => rfl
  | .block _ _ _ body => by
      rw [beginnings, size, List.length_cons, Node.length_beginningsList body, Nat.add_comm]
  | .conditional _ _ ifTrue ifFalse => by
      rw [beginnings, size, List.length_cons, List.length_append,
        Node.length_beginningsList ifTrue, Node.length_beginningsBranch ifFalse, Nat.add_comm,
        Nat.add_assoc]
  | .jump _ _ => rfl
  | .ret _ _ => rfl

theorem Node.length_beginningsList : ∀ ns : List Node,
    (Node.beginningsList ns).length = Node.sizeList ns
  | [] => rfl
  | n :: ns => by
      rw [beginningsList, sizeList, List.length_append, Node.length_beginnings n,
        Node.length_beginningsList ns]

theorem Node.length_beginningsBranch : ∀ ns? : Option (List Node),
    (Node.beginningsBranch ns?).length = Node.sizeBranch ns?
  | none => rfl
  | some ns => Node.length_beginningsList ns

end

/-! ## Statements and closers -/

/-- The statements at which no node of the tree begins. -/
def usedClosers (ss : List Statement) (ns : List Node) : List Statement :=
  ss.filter fun s => s.beginning ∉ Node.beginningsList ns

namespace UsedUp

variable {ss : List Statement} {marks : List (Nat × Nat × Nat)}

theorem subset (h : UsedUp ss marks) : marks ⊆ ss.map Statement.beginning := by
  induction h with
  | nil => exact List.Subset.refl _
  | node _ ih => exact List.cons_subset_cons _ ih
  | closer _ _ ih => exact List.subset_cons_of_subset _ ih

/-- Only a closer begins no node. -/
theorem isCloser (h : UsedUp ss marks) :
    ∀ s ∈ ss, s.beginning ∉ marks → s.IsCloser := by
  induction h with
  | nil =>
      intro s hs
      exact absurd hs List.not_mem_nil
  | node _ ih =>
      intro t ht hmark
      rw [List.mem_cons, not_or] at hmark
      rcases List.mem_cons.mp ht with rfl | ht
      · exact absurd rfl hmark.1
      · exact ih t ht hmark.2
  | closer hs _ ih =>
      intro t ht hmark
      rcases List.mem_cons.mp ht with rfl | ht
      · exact hs
      · exact ih t ht hmark

/-- Every statement is counted once, if no two begin at the same place. -/
theorem length_add (h : UsedUp ss marks) (hdistinct : (ss.map Statement.beginning).Nodup) :
    marks.length + (ss.filter fun s => s.beginning ∉ marks).length = ss.length := by
  induction h with
  | nil => rfl
  | @node s ss marks hrest ih =>
      obtain ⟨hs, hdistinct⟩ := List.nodup_cons.mp hdistinct
      have hothers : ∀ t ∈ ss, decide (t.beginning ∉ s.beginning :: marks) =
          decide (t.beginning ∉ marks) := by
        intro t ht
        have hne : t.beginning ≠ s.beginning := fun heq =>
          hs (heq ▸ List.mem_map_of_mem ht)
        simp [hne]
      rw [List.filter_cons_of_neg (by simp), List.filter_congr hothers, List.length_cons,
        List.length_cons, ← ih hdistinct]
      omega
  | @closer s ss marks _ hrest ih =>
      obtain ⟨hs, hdistinct⟩ := List.nodup_cons.mp hdistinct
      have hmark : s.beginning ∉ marks := fun hmem => hs (hrest.subset hmem)
      rw [List.filter_cons_of_pos (by simpa using hmark), List.length_cons, List.length_cons,
        ← ih hdistinct]
      omega

end UsedUp

/-! ## The closers of a tree -/

section Closers

variable (source : String)

mutual

/-- How many closers were used up for a node and inside of it: a block has its
terminator, a conditional its `endif` and perhaps an `else`. One that goes on
with an `elseif` leaves them to the conditional folded from it. -/
def Node.closers : Node → Nat
  | .comment _ => 0
  | .command _ => 0
  | .block _ _ _ body => Node.closersList body + 1
  | .conditional _ _ ifTrue none => Node.closersList ifTrue + 1
  | .conditional l args ifTrue (some ifFalse) =>
      Node.closersList ifTrue + Node.closersList ifFalse +
        (if (Node.conditional l args ifTrue (some ifFalse)).hasElseif source then 0 else 2)
  | .jump _ _ => 0
  | .ret _ _ => 0

/-- The closers of all of the nodes. -/
def Node.closersList : List Node → Nat
  | [] => 0
  | n :: ns => Node.closers n + Node.closersList ns

end

end Closers

section Derivations

variable {options : ParseOptions} {source : String}

theorem length_leaf {s : Statement} {ss : List Statement} {n : Node} {ns : List Node}
    (hsize : n.size = 1) (hclosers : n.closers source = 0)
    (hlength : ss.length = Node.sizeList ns + Node.closersList source ns) :
    (s :: ss).length = Node.sizeList (n :: ns) + Node.closersList source (n :: ns) := by
  rw [List.length_cons, Node.sizeList, Node.closersList]
  omega

theorem Node.hasElseif_eq_false {ifFalse : List Node}
    (h : ∀ n ∈ ifFalse, n.isElseif source = false) (l : Location) (args : Arguments)
    (ifTrue : List Node) :
    (Node.conditional l args ifTrue (some ifFalse)).hasElseif source = false := by
  unfold hasElseif
  split
  · rename_i hbranch
    cases hbranch
    exact h _ List.mem_cons_self
  · rfl

mutual

/-- The statements of a derivation are its nodes and the closers used up. -/
theorem Forest.length_eq : ∀ {levels : Nat} {stops : List String} {ss : List Statement}
    {ns : List Node}, Forest levels stops ss ns →
    ss ⊆ (Statement.read options (scan source)).items →
    ss.length = Node.sizeList ns + Node.closersList source ns
  | _, _, _, _, .nil, _ => rfl
  | _, _, _, _, .comment hrest, hss =>
      length_leaf rfl rfl (hrest.length_eq (List.cons_subset.mp hss).2)
  | _, _, _, _, .command _ hrest, hss =>
      length_leaf rfl rfl (hrest.length_eq (List.cons_subset.mp hss).2)
  | _, _, _, _, .jump _ _ hrest, hss =>
      length_leaf rfl rfl (hrest.length_eq (List.cons_subset.mp hss).2)
  | _, _, _, _, .ret _ hrest, hss =>
      length_leaf rfl rfl (hrest.length_eq (List.cons_subset.mp hss).2)
  | _, _, _, _, .block _ _ hbody _ hrest, hss => by
      rw [List.cons_subset, List.append_subset, List.cons_subset] at hss
      have hinner := hbody.length_eq hss.2.1
      have hlength := hrest.length_eq hss.2.2.2
      simp only [List.length_cons, List.length_append, Node.sizeList, Node.size,
        Node.closersList, Node.closers]
      omega
  | _, _, _, _, .conditional _ harms hrest, hss => by
      rw [List.cons_subset, List.append_subset] at hss
      have hinner := harms.length_eq hss.2.1
      have hlength := hrest.length_eq hss.2.2
      simp only [List.length_cons, List.length_append, Node.sizeList, Node.closersList]
      omega

/-- So are those of a conditional, with its opener. -/
theorem Arms.length_eq : ∀ {levels : Nat} {opener : Command} {ss : List Statement} {node : Node},
    Arms levels opener ss node → ss ⊆ (Statement.read options (scan source)).items →
    ss.length + 1 = node.size + node.closers source
  | _, _, _, _, .endif hbody _, hss => by
      rw [List.append_subset] at hss
      have hinner := hbody.length_eq hss.1
      simp only [List.length_append, List.length_singleton, Node.size, Node.sizeBranch,
        Node.closers]
      omega
  | _, _, _, _, .otherwise hbody _ hbody' _, hss => by
      rw [List.append_subset, List.cons_subset, List.append_subset] at hss
      have hinner := hbody.length_eq hss.1
      have hinner' := hbody'.length_eq hss.2.2.1
      have hplain := Node.hasElseif_eq_false (hbody'.not_isElseif hss.2.2.1)
      simp only [List.length_append, List.length_cons, List.length_nil, Node.size,
        Node.sizeBranch, Node.closers, hplain, Bool.false_eq_true, if_false]
      omega
  | _, _, _, _, .elseif hbody hnext harms, hss => by
      rw [List.append_subset, List.cons_subset] at hss
      have hinner := hbody.length_eq hss.1
      have hinner' := harms.length_eq hss.2.2
      have helseif := harms.isElseif hss.2.1 hnext
      simp only [List.length_append, List.length_cons, Node.size, Node.sizeBranch, Node.sizeList,
        Node.closers, Node.closersList, Node.hasElseif, helseif, if_true]
      omega

end

end Derivations

/-! ## The nodes of a text -/

section Counting

variable (options : ParseOptions) (source : String)

/-- No two statements of a text begin at the same place. -/
theorem nodup_beginnings :
    ((Statement.read options (scan source)).items.map Statement.beginning).Nodup := by
  have hordered := items_inOrder options source
  have hfits := hordered.fits
  have hpairwise := hordered.pairwise
  rw [List.forall_mem_map] at hfits
  rw [List.pairwise_map] at hpairwise
  rw [List.Nodup, List.pairwise_map]
  apply hpairwise.imp_of_mem
  intro s t hs _ hle heq
  have hne := (hfits s hs).nonempty
  have hstart : s.location.span.start = t.location.span.start := by
    rw [s.beginning_eq, t.beginning_eq] at heq
    exact congrArg (·.2.2) heq
  omega

/-- The nodes of a text that parses are its statements, but for the closers that
are used up. -/
theorem sizeList_parseTree (h : (parseTree options source).error = none) :
    let statements := (parseFlat options source).items
    let nodes := (parseTree options source).items
    Node.sizeList nodes = statements.length - (usedClosers statements nodes).length ∧
      (∀ s ∈ usedClosers statements nodes, s.IsCloser) ∧
      (usedClosers statements nodes).length = Node.closersList source nodes := by
  intro statements nodes
  have hfold : Node.fold (Statement.read options (scan source)) = ⟨nodes, none⟩ :=
    congrArg (Reading.mk nodes) (Option.map_eq_none_iff.mp h)
  have hforest := (Node.fold_eq_ok_iff.mp hfold).2
  have hused : UsedUp statements (Node.beginningsList nodes) := hforest.usedUp
  have hcount := hused.length_add (nodup_beginnings options source)
  have hlength : statements.length = _ := hforest.length_eq (List.Subset.refl _)
  rw [Node.length_beginningsList] at hcount
  refine ⟨?_, fun s hs => ?_, ?_⟩
  · rw [usedClosers]
    omega
  · obtain ⟨hs, hmark⟩ := List.mem_filter.mp hs
    exact hused.isCloser s hs (of_decide_eq_true hmark)
  · rw [usedClosers]
    omega

end Counting

end Listfile
