import Listfile.Proofs.Folding

/-!
# Nodes at any depth

A node is made of statements that stand next to each other, and these make the
same node when they stand alone. The exception is a conditional that an
`elseif` opened: it shares its `endif` with the conditional around it.

* `Forest.excerpt` — which statements a node inside of a tree is made of;
* `Forest.spans` — that the node runs from the first of them to the last;
* `exists_forest_of_fold` — the nodes in front of an error are a forest too.
-/

namespace Listfile

open Text OpenBlocks

mutual

/-- The nodes inside of a node. -/
def Node.descendants : Node → List Node
  | .comment _ => []
  | .command _ => []
  | .block _ _ _ body => Node.allNodes body
  | .conditional _ _ ifTrue ifFalse => Node.allNodes ifTrue ++ Node.allNodesBranch ifFalse
  | .jump _ _ => []
  | .ret _ _ => []

/-- The nodes of a sequence of trees at any depth, each one before those inside
of it. -/
def Node.allNodes : List Node → List Node
  | [] => []
  | n :: ns => n :: (Node.descendants n ++ Node.allNodes ns)

/-- The nodes of a branch that may be missing. -/
def Node.allNodesBranch : Option (List Node) → List Node
  | none => []
  | some ns => Node.allNodes ns

end

/-! ## The statements of a node -/

/-- What a node that stands for a part of the statements `ss` is made of. -/
inductive Excerpt (levels : Nat) (ss : List Statement) (n : Node) : Prop
  /-- Statements that make this node alone. -/
  | whole {below : Nat} {before us after : List Statement} (hss : ss = before ++ us ++ after)
      (hlevels : below ≤ levels) (hforest : Forest below [] us [n])
  /-- The rest of a conditional from an `elseif` on. -/
  | arm {below : Nat} {c : Command} {us : List Statement} (hc : .command c ∈ ss)
      (hcalled : c.IsCalled "elseif") (harms : Arms below c us n)

theorem Excerpt.extend {levels levels' : Nat} {ss : List Statement} {n : Node}
    (h : Excerpt levels ss n) (hle : levels ≤ levels') (front back : List Statement) :
    Excerpt levels' (front ++ ss ++ back) n := by
  cases h with
  | @whole below before us after hss hlevels hforest =>
      have hparts : front ++ ss ++ back = front ++ before ++ us ++ (after ++ back) := by
        rw [hss]
        simp only [List.append_assoc]
      exact .whole hparts (Nat.le_trans hlevels hle) hforest
  | arm hc hcalled harms =>
      exact .arm (List.mem_append_left _ (List.mem_append_right _ hc)) hcalled harms

/-- A statement in front of the excerpt. -/
theorem Excerpt.cons {levels : Nat} {ss : List Statement} {n : Node} (h : Excerpt levels ss n)
    (s : Statement) : Excerpt levels (s :: ss) n := by
  have hmore := h.extend (Nat.le_refl _) [s] []
  rwa [List.append_nil] at hmore

/-- The first statements of a forest make its first node. -/
theorem Excerpt.first {below levels : Nat} {us ss : List Statement} {n : Node}
    (h : Forest below [] us [n]) (hle : below ≤ levels) : Excerpt levels (us ++ ss) n :=
  .whole (show us ++ ss = [] ++ us ++ ss from rfl) hle h

mutual

theorem Forest.excerpt {n : Node} : ∀ {levels : Nat} {stops : List String} {ss : List Statement}
    {ns : List Node}, Forest levels stops ss ns → n ∈ Node.allNodes ns → Excerpt levels ss n
  | _, _, _, _, .nil, hn => absurd hn List.not_mem_nil
  | _, _, _, _, .comment hrest, hn => by
      rcases List.mem_cons.mp hn with rfl | hn
      · exact .first (.comment .nil) (Nat.le_refl _)
      · exact (hrest.excerpt hn).cons _
  | _, _, _, _, .command hname hrest, hn => by
      rcases List.mem_cons.mp hn with rfl | hn
      · refine .first (.command (fun word hword => ?_) .nil) (Nat.le_refl _)
        exact hname word (List.mem_append_right _ hword)
      · exact (hrest.excerpt hn).cons _
  | _, _, _, _, .jump hname hargs hrest, hn => by
      rcases List.mem_cons.mp hn with rfl | hn
      · exact .first (.jump hname hargs .nil) (Nat.le_refl _)
      · exact (hrest.excerpt hn).cons _
  | _, _, _, _, .ret hname hrest, hn => by
      rcases List.mem_cons.mp hn with rfl | hn
      · exact .first (.ret hname .nil) (Nat.le_refl _)
      · exact (hrest.excerpt hn).cons _
  | _, _, _, _, @Forest.block levels _ _ opener closer _ inner ss _ _ hname hargs hbody hcloser
      hrest, hn => by
      have hparts : .command opener :: (inner ++ .command closer :: ss) =
          .command opener :: (inner ++ [.command closer]) ++ ss := by
        rw [List.cons_append, List.append_assoc, List.singleton_append]
      rcases List.mem_cons.mp hn with rfl | hn
      · rw [hparts]
        exact .first (.block hname hargs hbody hcloser .nil) (Nat.le_refl _)
      rcases List.mem_append.mp hn with hinside | hn
      · have hinner := (hbody.excerpt hinside).extend (Nat.le_succ levels) [.command opener]
          (.command closer :: ss)
        rwa [List.append_assoc] at hinner
      · have hafter := (hrest.excerpt hn).extend (Nat.le_refl _)
          (.command opener :: (inner ++ [.command closer])) []
        rwa [List.append_nil, ← hparts] at hafter
  | _, _, _, _, @Forest.conditional levels _ opener inner ss _ _ hname harms hrest, hn => by
      rcases List.mem_cons.mp hn with rfl | hn
      · have hwhole : Forest (levels + 1) [] (.command opener :: (inner ++ [])) [n] :=
          .conditional hname harms .nil
        rw [List.append_nil] at hwhole
        exact .first hwhole (Nat.le_refl _)
      rcases List.mem_append.mp hn with hinside | hn
      · exact (harms.excerpt hinside).extend (Nat.le_succ levels) [.command opener] ss
      · have hafter := (hrest.excerpt hn).extend (Nat.le_refl _) (.command opener :: inner) []
        rwa [List.append_nil] at hafter

theorem Arms.excerpt {n : Node} : ∀ {levels : Nat} {opener : Command} {ss : List Statement}
    {node : Node}, Arms levels opener ss node → n ∈ node.descendants → Excerpt levels ss n
  | _, _, _, _, @Arms.endif _ _ closer _ _ hbody _, hn => by
      rcases List.mem_append.mp hn with hn | hn
      · exact (hbody.excerpt hn).extend (Nat.le_refl _) [] [.command closer]
      · exact absurd hn List.not_mem_nil
  | _, _, _, _, @Arms.otherwise _ _ other closer inner inner' _ _ hbody _ hbody' _, hn => by
      rcases List.mem_append.mp hn with hn | hn
      · exact (hbody.excerpt hn).extend (Nat.le_refl _) []
          (.command other :: (inner' ++ [.command closer]))
      · have hafter := (hbody'.excerpt hn).extend (Nat.le_refl _) (inner ++ [.command other])
          [.command closer]
        rwa [List.append_assoc, List.append_assoc] at hafter
  | _, _, _, _, @Arms.elseif levels _ next inner inner' _ _ hbody hnext harms, hn => by
      rcases List.mem_append.mp hn with hn | hn
      · exact (hbody.excerpt hn).extend (Nat.le_refl _) [] (.command next :: inner')
      -- The false branch is the conditional that the `elseif` opens.
      rcases List.mem_cons.mp hn with rfl | hn
      · exact .arm (List.mem_append_right _ List.mem_cons_self) hnext harms
      · have hinside : n ∈ Node.descendants _ ++ [] := hn
        rw [List.append_nil] at hinside
        have hafter := (harms.excerpt hinside).extend (Nat.le_succ levels)
          (inner ++ [.command next]) []
        rwa [List.append_nil, List.append_assoc] at hafter

end

/-! ## Where a node ends -/

/-- Where a statement stands. -/
def Statement.location : Statement → Location
  | .comment c => c.location
  | .command c => c.location

/-- The location runs from the first of the statements to the last. -/
def SpansStatements (us : List Statement) (l : Location) : Prop :=
  ∃ first last, us.head? = some first ∧ us.getLast? = some last ∧
    l = first.location.through last.location.span

theorem SpansStatements.single (s : Statement) : SpansStatements [s] s.location :=
  ⟨s, s, rfl, rfl, rfl⟩

theorem SpansStatements.of_ends (first last : Statement) (inner : List Statement) :
    SpansStatements (first :: (inner ++ [last])) (first.location.through last.location.span) := by
  refine ⟨first, last, rfl, ?_, rfl⟩
  rw [← List.cons_append, List.getLast?_append, List.getLast?_singleton]
  rfl

/-- The false branch of the node is a conditional that one of the statements
opens, an `elseif`. -/
def GoesOnWithElseif (us : List Statement) : Node → Prop
  | .conditional _ _ _ (some [next]) => ∃ below c tail, .command c ∈ us ∧
      c.IsCalled "elseif" ∧ Arms below c tail next
  | _ => False

theorem Forest.eq_nil_of_nodes {levels : Nat} {stops : List String} {ss : List Statement}
    (h : Forest levels stops ss []) : ss = [] := by
  cases h
  rfl

theorem Arms.spans {levels : Nat} {opener : Command} {us : List Statement} {n : Node}
    (h : Arms levels opener us n) : SpansStatements (.command opener :: us) n.location ∨
      GoesOnWithElseif (.command opener :: us) n := by
  cases h with
  | @endif _ _ closer inner _ _ _ => exact .inl (.of_ends (.command opener) (.command closer) inner)
  | @otherwise _ _ other closer inner inner' _ _ _ _ _ _ =>
      have hspans := SpansStatements.of_ends (.command opener) (.command closer)
        (inner ++ .command other :: inner')
      rw [List.append_assoc, List.cons_append] at hspans
      exact .inl hspans
  | elseif _ hnext harms =>
      exact .inr ⟨_, _, _, .tail _ (List.mem_append_right _ List.mem_cons_self), hnext, harms⟩

/-- A conditional begins where its opener does. -/
theorem Arms.start_eq {levels : Nat} {opener : Command} {us : List Statement} {n : Node}
    (h : Arms levels opener us n) :
    ∃ l args ifTrue ifFalse, n = .conditional l args ifTrue ifFalse ∧
      l.span.start = opener.location.span.start := by
  cases h <;> exact ⟨_, _, _, _, rfl, rfl⟩

/-- A node runs from the first of its statements to the last, unless an
`elseif` takes over. -/
theorem Forest.spans {levels : Nat} {stops : List String} {us : List Statement} {n : Node}
    (h : Forest levels stops us [n]) : SpansStatements us n.location ∨ GoesOnWithElseif us n := by
  cases h with
  | comment hrest =>
      rw [hrest.eq_nil_of_nodes]
      exact .inl (.single (.comment _))
  | command _ hrest =>
      rw [hrest.eq_nil_of_nodes]
      exact .inl (.single (.command _))
  | @jump _ _ _ c _ _ _ _ hrest =>
      rw [hrest.eq_nil_of_nodes]
      exact .inl (.single (.command c))
  | @ret _ _ c _ _ _ hrest =>
      rw [hrest.eq_nil_of_nodes]
      exact .inl (.single (.command c))
  | @block _ _ _ opener closer _ inner _ _ _ _ _ _ _ hrest =>
      rw [hrest.eq_nil_of_nodes]
      exact .inl (.of_ends (.command opener) (.command closer) inner)
  | @conditional _ _ opener inner _ _ _ _ harms hrest =>
      rw [hrest.eq_nil_of_nodes, List.append_nil]
      exact harms.spans

/-! ## Folding -/

/-- What is folded while blocks are open ends with these blocks. -/
theorem Folded.exists_forest {limit : Nat} {open_ : OpenBlocks} {ss : List Statement}
    {ns : List Node} (h : Folded limit open_ ss ns) :
    ∃ before after, ss = before ++ after ∧ Forest limit [] before ns := by
  induction h with
  | top h => exact ⟨_, [], (List.append_nil _).symm, h⟩
  | plain _ _ _ _ _ ih =>
      obtain ⟨before, after, rfl, h⟩ := ih
      exact ⟨before, _, List.append_assoc .., h⟩
  | arm _ _ _ _ _ ih =>
      obtain ⟨before, after, rfl, h⟩ := ih
      exact ⟨before, _, List.append_assoc .., h⟩
  | alternative _ _ _ _ _ _ _ ih =>
      obtain ⟨before, after, rfl, h⟩ := ih
      exact ⟨before, _, List.append_assoc .., h⟩

/-- The nodes that are delivered are a forest, whatever ends them. -/
theorem exists_forest_of_fold (r : Reading Statement Fault) :
    ∃ before after, r.items = before ++ after ∧
      Forest Node.maxDepth [] before (Node.fold r).items := by
  unfold Node.fold Reader.run
  rcases Reader.reaches_or_refused (Node.reader (some Node.maxDepth)) [] r.items with
    ⟨ns, open_, hreach⟩ | ⟨taken, s, rest, ns, open_, fault, hitems, hreach, hrefused⟩
  · rw [Reader.runFrom_of_reaches r.error hreach]
    exact (Folded.of_reaches hreach).exists_forest
  · obtain ⟨before, after, rfl, hforest⟩ := (Folded.of_reaches hreach).exists_forest
    rw [hitems, Reader.runFrom_of_refused r.error hreach hrefused]
    exact ⟨before, after ++ s :: rest, List.append_assoc .., hforest⟩

/-- A forest that is not too deep is folded by itself. -/
theorem Forest.fold_eq {levels : Nat} {us : List Statement} {ns : List Node}
    (h : Forest levels [] us ns) (hle : levels ≤ Node.maxDepth) :
    Node.fold ⟨us, none⟩ = ⟨ns, none⟩ := by
  rw [Node.fold_eq_ok_iff, ← reaches_nil_iff]
  refine ⟨rfl, h.reaches [] rfl fun limit hlimit => ?_⟩
  rw [← Option.some.inj hlimit]
  show 0 + levels ≤ Node.maxDepth
  omega

end Listfile
