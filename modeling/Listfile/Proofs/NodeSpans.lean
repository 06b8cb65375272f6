import Listfile.Proofs.Placement

/-!
# Where nodes stand

A node begins with its first statement. It ends with its last one, unless an
`elseif` takes over: then it ends with the last element of its arm, and the
conditional of the `elseif` stands behind it.

* `WellPlaced` — how a node stands to its text, its arguments and the nodes
  inside of it;
* `LaidOut` — how the nodes stand that some stretch of the text is made of;
* `Forest.laidOut`, `Arms.laidOut` — the nodes of a derivation stand where its
  statements do;
* `parseTree_wellPlaced` — so do all nodes of a tree.
-/

namespace Listfile

open Text OpenBlocks

/-! ## What a good place is -/

/-- The argument tokens that a node keeps. -/
def Node.argTokens : Node → List Token
  | .comment _ => []
  | .command c => c.args
  | .block _ _ args _ => args.tokens?.getD []
  | .conditional _ args _ _ => args.tokens?.getD []
  | .jump _ _ => []
  | .ret _ args => args

/-- The lists of siblings right inside of a node. -/
def Node.bodies : Node → List (List Node)
  | .block _ _ _ body => [body]
  | .conditional _ _ ifTrue ifFalse => ifTrue :: ifFalse.toList
  | _ => []

/-- The node and its arguments lie inside of the span. -/
def Node.Within (n : Node) (s : Span) : Prop :=
  n.location.span.Within s ∧ ∀ t ∈ n.argTokens, t.span.Within s

/-- Each of the nodes ends before the next one begins. -/
def SiblingsInOrder (ns : List Node) : Prop :=
  ns.Pairwise fun m n => m.location.span.stop ≤ n.location.span.start

/-- Where the false branch stands of a conditional with the span `s`. -/
inductive BranchPlaced (source : String) (s : Span) : Option (List Node) → Prop
  | missing : BranchPlaced source s none
  /-- What follows an `else` is inside of the conditional. -/
  | inside {ms : List Node} (hfits : ∀ m ∈ ms, m.location.span.Fits source)
      (hinside : ∀ m ∈ ms, m.Within s) (hif : ∀ m ∈ ms, m.isElseif source = false) :
      BranchPlaced source s (some ms)
  /-- What an `elseif` opens is behind the conditional. -/
  | behind {m : Node} (hbehind : s.stop ≤ m.location.span.start)
      (hif : m.isElseif source = true) : BranchPlaced source s (some [m])

/-- All nodes at any depth lie inside of a block. Of a conditional this is true
only of the nodes right inside of it, for these may end before their false
branch. -/
def Node.Encloses (source : String) : Node → Prop
  | .block _ l _ body => ∀ m ∈ Node.allNodes body, m.Within l.span
  | .conditional l _ ifTrue ifFalse =>
      (∀ m ∈ ifTrue, m.Within l.span) ∧ BranchPlaced source l.span ifFalse
  | _ => True

/-- The node stands where it should in its text, and so does what is right inside
of it. -/
structure WellPlaced (source : String) (n : Node) : Prop where
  fits : n.location.span.Fits source
  args : ∀ t ∈ n.argTokens, t.span.Within n.location.span
  siblings : ∀ ns ∈ n.bodies, SiblingsInOrder ns
  encloses : n.Encloses source

theorem WellPlaced.within {source : String} {n : Node} {s : Span} (h : WellPlaced source n)
    (hs : n.location.span.Within s) : n.Within s := by
  refine ⟨hs, ?_⟩
  intro t ht
  exact (h.args t ht).trans hs

/-- A false branch of one node tells by its place whether it is an `elseif`. -/
theorem BranchPlaced.isElseif_iff {source : String} {s : Span} {m : Node}
    (h : BranchPlaced source s (some [m])) :
    m.isElseif source = true ↔
      ¬ (s.start ≤ m.location.span.start ∧ m.location.span.start < s.stop) := by
  cases h with
  | inside hfits hinside hif =>
      have hm : m ∈ [m] := List.mem_cons_self
      have hne := (hfits m hm).nonempty
      have hwithin := (hinside m hm).1
      have hfalse := hif m hm
      constructor
      · intro htrue
        rw [hfalse] at htrue
        cases htrue
      · intro hnot
        exact absurd ⟨hwithin.1, Nat.lt_of_lt_of_le hne hwithin.2⟩ hnot
  | behind hbehind hif =>
      constructor
      · rintro - ⟨-, hbefore⟩
        omega
      · intro _
        exact hif

/-! ## Arguments -/

theorem Arguments.tokens_ofCondition (tokens : List Token) :
    (Arguments.ofCondition tokens).tokens?.getD [] = tokens := by
  unfold ofCondition
  split <;> rfl

theorem Arguments.tokens_ofSignature {tokens : List Token} {args : Arguments}
    (h : Arguments.ofSignature tokens = .ok args) : args.tokens?.getD [] ⊆ tokens := by
  unfold ofSignature at h
  split at h
  · cases h
  · split at h
    · cases h
      exact List.Subset.refl _
    · split at h
      · cases h
      · cases h
        exact List.nil_subset _

/-- Interpreting the arguments of a block makes up no tokens. -/
theorem interpret_tokens {kind : BlockKind} {c : Command} {args : Arguments}
    (h : interpret kind c = .ok args) : args.tokens?.getD [] ⊆ c.args := by
  unfold interpret at h
  split at h
  · split at h
    · rename_i hargs
      cases h
      exact Arguments.tokens_ofSignature hargs
    · cases h
  · split at h
    · rename_i hargs
      cases h
      exact Arguments.tokens_ofSignature hargs
    · cases h
  · cases h
    rw [Arguments.tokens_ofCondition]
    exact List.Subset.refl _
  · cases h
    exact List.Subset.refl _
  · cases h
    exact List.Subset.refl _

/-! ## Nodes of a stretch -/

theorem Node.allNodes_append (ns ms : List Node) :
    Node.allNodes (ns ++ ms) = Node.allNodes ns ++ Node.allNodes ms := by
  induction ns with
  | nil => rfl
  | cons n ns ih =>
      rw [List.cons_append, Node.allNodes, Node.allNodes, ih, List.cons_append, List.append_assoc]

theorem Node.mem_allNodes {n : Node} {ns : List Node} (h : n ∈ ns) : n ∈ Node.allNodes ns := by
  induction ns with
  | nil => exact absurd h List.not_mem_nil
  | cons m ns ih =>
      rcases List.mem_cons.mp h with rfl | h
      · exact List.mem_cons_self
      · exact .tail _ (List.mem_append_right _ (ih h))

/-- The nodes `ns` are laid out between the offsets `lo` and `hi`. -/
structure LaidOut (source : String) (lo hi : Nat) (ns : List Node) : Prop where
  inOrder : InOrder source lo (ns.map (·.location.span)) hi
  within : ∀ n ∈ Node.allNodes ns, n.location.span.Within ⟨lo, hi⟩
  placed : ∀ n ∈ Node.allNodes ns, WellPlaced source n

namespace LaidOut

variable {source : String} {lo lo' mid hi hi' : Nat} {ns ms : List Node} {n : Node} {s : Span}

theorem le (h : LaidOut source lo hi ns) : lo ≤ hi :=
  h.inOrder.le

theorem nil (h : lo ≤ hi) : LaidOut source lo hi [] :=
  ⟨.nil h, fun _ hn => absurd hn List.not_mem_nil, fun _ hn => absurd hn List.not_mem_nil⟩

theorem mono (h : LaidOut source lo hi ns) (hlo : lo' ≤ lo) (hhi : hi ≤ hi') :
    LaidOut source lo' hi' ns :=
  ⟨h.inOrder.mono hlo hhi, fun n hn => (h.within n hn).trans ⟨hlo, hhi⟩, h.placed⟩

theorem append (h : LaidOut source lo mid ns) (h' : LaidOut source mid hi ms) :
    LaidOut source lo hi (ns ++ ms) := by
  have hfront := h.mono (Nat.le_refl lo) h'.le
  have hback := h'.mono h.le (Nat.le_refl hi)
  constructor
  · rw [List.map_append]
    exact h.inOrder.append h'.inOrder
  · rw [Node.allNodes_append, List.forall_mem_append]
    exact ⟨hfront.within, hback.within⟩
  · rw [Node.allNodes_append, List.forall_mem_append]
    exact ⟨hfront.placed, hback.placed⟩

theorem single (hspan : InOrder source lo [n.location.span] hi) (hn : WellPlaced source n)
    (hinside : ∀ m ∈ n.descendants, WellPlaced source m ∧ m.location.span.Within ⟨lo, hi⟩) :
    LaidOut source lo hi [n] := by
  have hall : Node.allNodes [n] = n :: n.descendants := by
    rw [Node.allNodes, Node.allNodes, List.append_nil]
  constructor
  · exact hspan
  · rw [hall]
    intro m hm
    rcases List.mem_cons.mp hm with rfl | hm
    · exact hspan.within _ List.mem_cons_self
    · exact (hinside m hm).2
  · rw [hall]
    intro m hm
    rcases List.mem_cons.mp hm with rfl | hm
    · exact hn
    · exact (hinside m hm).1

/-- A node without structure. -/
theorem leaf (hspan : InOrder source lo [n.location.span] hi)
    (hargs : ∀ t ∈ n.argTokens, t.span.Within n.location.span) (hn : n.bodies = []) :
    LaidOut source lo hi [n] := by
  have hencloses : n.Encloses source ∧ n.descendants = [] := by
    cases n with
    | comment c => exact ⟨trivial, rfl⟩
    | command c => exact ⟨trivial, rfl⟩
    | block kind l args body => cases hn
    | conditional l args ifTrue ifFalse => cases hn
    | jump kind l => exact ⟨trivial, rfl⟩
    | ret l args => exact ⟨trivial, rfl⟩
  apply single hspan
  · refine ⟨hspan.fits _ List.mem_cons_self, hargs, ?_, hencloses.1⟩
    simp [hn]
  · simp [hencloses.2]

theorem siblings (h : LaidOut source lo hi ns) : SiblingsInOrder ns :=
  List.pairwise_map.mp h.inOrder.pairwise

theorem fits (h : LaidOut source lo hi ns) : ∀ n ∈ ns, n.location.span.Fits source := by
  intro n hn
  exact (h.placed n (Node.mem_allNodes hn)).fits

/-- All nodes lie inside of whatever the stretch lies in. -/
theorem within_span (h : LaidOut source lo hi ns) (hs : Span.Within ⟨lo, hi⟩ s) :
    ∀ n ∈ Node.allNodes ns, n.Within s := by
  intro n hn
  exact (h.placed n hn).within ((h.within n hn).trans hs)

/-- The nodes themselves end with the last of them. -/
theorem within_last (h : LaidOut source lo hi ns) {last : Node} (hlast : ns.getLast? = some last)
    (hs : Span.Within ⟨lo, last.location.span.stop⟩ s) : ∀ n ∈ ns, n.Within s := by
  have hmap : (ns.map (·.location.span)).getLast? = some last.location.span := by
    rw [List.getLast?_map, hlast]
    rfl
  intro n hn
  have hupTo := (h.inOrder.upTo_last hmap).within _ (List.mem_map_of_mem hn)
  exact (h.placed n (Node.mem_allNodes hn)).within (hupTo.trans hs)

end LaidOut

/-! ## Blocks and conditionals -/

section Composing

variable {source : String} {lo mid mid' hi : Nat} {args : Arguments} {l : Location}

/-- A block around its body. -/
theorem laidOut_block {kind : BlockKind} {body : List Node}
    (hspan : InOrder source lo [l.span] hi)
    (hargs : ∀ t ∈ args.tokens?.getD [], t.span.Within l.span)
    (hbody : LaidOut source mid mid' body) (hinside : Span.Within ⟨mid, mid'⟩ l.span) :
    LaidOut source lo hi [.block kind l args body] := by
  have hwithin := hspan.within l.span List.mem_cons_self
  apply LaidOut.single hspan
  · refine ⟨hspan.fits _ List.mem_cons_self, hargs, ?_, hbody.within_span hinside⟩
    exact List.forall_mem_singleton.mpr hbody.siblings
  · intro m hm
    exact ⟨hbody.placed m hm, (hbody.within m hm).trans (hinside.trans hwithin)⟩

/-- A conditional around its true branch and around or before its false one. -/
theorem laidOut_conditional {ifTrue : List Node} {ifFalse : Option (List Node)}
    (hspan : InOrder source lo [l.span] hi)
    (hargs : ∀ t ∈ args.tokens?.getD [], t.span.Within l.span)
    (htrue : LaidOut source mid mid' ifTrue) (hlo : lo ≤ mid) (hhi : mid' ≤ hi)
    (hinside : ∀ m ∈ ifTrue, m.Within l.span) (hbranch : BranchPlaced source l.span ifFalse)
    (hfalse : ∀ ms ∈ ifFalse, LaidOut source lo hi ms) :
    LaidOut source lo hi [.conditional l args ifTrue ifFalse] := by
  apply LaidOut.single hspan
  · refine ⟨hspan.fits _ List.mem_cons_self, hargs, ?_, hinside, hbranch⟩
    intro ms hms
    rcases List.mem_cons.mp hms with rfl | hms
    · exact htrue.siblings
    · exact (hfalse ms (Option.mem_toList.mp hms)).siblings
  · intro m hm
    rcases List.mem_append.mp hm with hm | hm
    · exact ⟨htrue.placed m hm, (htrue.within m hm).trans ⟨hlo, hhi⟩⟩
    · cases ifFalse with
      | none => exact absurd hm List.not_mem_nil
      | some ms =>
          have hms := hfalse ms rfl
          exact ⟨hms.placed m hm, hms.within m hm⟩

end Composing

/-! ## Derivations -/

section Derivations

variable {options : ParseOptions} {source : String}

/-- What begins with another word was not folded from an `elseif`. -/
theorem Arms.not_isElseif {levels : Nat} {c : Command} {us : List Statement} {n : Node}
    (h : Arms levels c us n) (hc : .command c ∈ (Statement.read options (scan source)).items)
    (hcalled : ¬ c.IsCalled "elseif") : n.isElseif source = false := by
  obtain ⟨l, args, ifTrue, ifFalse, rfl, hstart⟩ := h.start_eq
  have hbegins := (Command.beginsWith_iff hc).not.mpr hcalled
  unfold Location.beginsWith at hbegins
  rw [← hstart] at hbegins
  exact Bool.eq_false_iff.mpr hbegins

/-- No node of a sequence was folded from an `elseif`. -/
theorem Forest.not_isElseif : ∀ {levels : Nat} {stops : List String} {ss : List Statement}
    {ns : List Node}, Forest levels stops ss ns →
    ss ⊆ (Statement.read options (scan source)).items → ∀ n ∈ ns, n.isElseif source = false
  | _, _, _, _, .nil, _ => by simp
  | _, _, _, _, .comment hrest, hss => by
      rw [List.cons_subset] at hss
      exact List.forall_mem_cons.mpr ⟨rfl, hrest.not_isElseif hss.2⟩
  | _, _, _, _, .command _ hrest, hss => by
      rw [List.cons_subset] at hss
      exact List.forall_mem_cons.mpr ⟨rfl, hrest.not_isElseif hss.2⟩
  | _, _, _, _, .jump _ _ hrest, hss => by
      rw [List.cons_subset] at hss
      exact List.forall_mem_cons.mpr ⟨rfl, hrest.not_isElseif hss.2⟩
  | _, _, _, _, .ret _ hrest, hss => by
      rw [List.cons_subset] at hss
      exact List.forall_mem_cons.mpr ⟨rfl, hrest.not_isElseif hss.2⟩
  | _, _, _, _, .block _ _ _ _ hrest, hss => by
      rw [List.cons_subset, List.append_subset, List.cons_subset] at hss
      exact List.forall_mem_cons.mpr ⟨rfl, hrest.not_isElseif hss.2.2.2⟩
  | _, _, _, _, .conditional hname harms hrest, hss => by
      rw [List.cons_subset, List.append_subset] at hss
      have hnode := harms.not_isElseif hss.1 (hname.not_of_ne (by decide))
      exact List.forall_mem_cons.mpr ⟨hnode, hrest.not_isElseif hss.2.2⟩

/-- The statements `ss` were read from the text and stand between the offsets `lo`
and `hi`. -/
structure StandsIn (options : ParseOptions) (source : String) (lo : Nat) (ss : List Statement)
    (hi : Nat) : Prop where
  read : ss ⊆ (Statement.read options (scan source)).items
  inOrder : InOrder source lo (ss.map (·.location.span)) hi

namespace StandsIn

variable {lo hi : Nat} {s : Statement} {ss us : List Statement}

theorem le (h : StandsIn options source lo ss hi) : lo ≤ hi :=
  h.inOrder.le

theorem mem (h : StandsIn options source lo (s :: ss) hi) :
    s ∈ (Statement.read options (scan source)).items :=
  h.read List.mem_cons_self

theorem uncons (h : StandsIn options source lo (s :: ss) hi) :
    StandsIn options source lo [s] s.location.span.stop ∧
      StandsIn options source s.location.span.stop ss hi := by
  obtain ⟨hhere, hrest⟩ := h.inOrder.uncons
  have hread := List.cons_subset.mp h.read
  exact ⟨⟨List.cons_subset.mpr ⟨hread.1, List.nil_subset _⟩, hhere⟩, ⟨hread.2, hrest⟩⟩

theorem split (h : StandsIn options source lo (ss ++ us) hi) :
    ∃ mid, StandsIn options source lo ss mid ∧ StandsIn options source mid us hi := by
  obtain ⟨mid, hfront, hback⟩ := h.inOrder.split_map
  have hread := List.append_subset.mp h.read
  exact ⟨mid, ⟨hread.1, hfront⟩, ⟨hread.2, hback⟩⟩

end StandsIn

/-- The arguments of a conditional lie where its opener does. -/
theorem condition_args_within {c : Command} {s : Span}
    (hc : .command c ∈ (Statement.read options (scan source)).items)
    (hs : c.location.span.Within s) :
    ∀ t ∈ (Arguments.ofCondition c.args).tokens?.getD [], t.span.Within s := by
  rw [Arguments.tokens_ofCondition]
  intro t ht
  exact (Command.args_within hc t ht).trans hs

/-- A conditional that an `elseif` goes on ends with its true branch. -/
theorem armEnd_inOrder {lo mid mid' : Nat} {opener : Command} {body : List Node}
    (hopener : InOrder source lo [opener.location.span] mid)
    (hbody : LaidOut source mid mid' body) :
    InOrder source lo [opener.location.span.through (armEnd opener body)] mid' ∧
      opener.location.span.Within (opener.location.span.through (armEnd opener body)) ∧
      ∀ m ∈ body, m.Within (opener.location.span.through (armEnd opener body)) := by
  unfold armEnd
  cases hlast : body.getLast? with
  | none =>
      rw [List.getLast?_eq_none_iff.mp hlast]
      exact ⟨hopener.mono (Nat.le_refl _) hbody.le, ⟨Nat.le_refl _, Nat.le_refl _⟩, by simp⟩
  | some last =>
      have hmem := List.mem_of_getLast? hlast
      have hspan := hbody.inOrder.within _ (List.mem_map_of_mem hmem)
      have hfits := hbody.fits last hmem
      obtain ⟨hspan, hwithin, hinside⟩ := hopener.around (Nat.le_refl mid) (.single hfits hspan)
      exact ⟨hspan, hwithin, hbody.within_last hlast ⟨hinside.1, Nat.le_refl _⟩⟩

mutual

/-- The nodes of a derivation stand where its statements do. -/
theorem Forest.laidOut : ∀ {levels : Nat} {stops : List String} {ss : List Statement}
    {ns : List Node} {lo hi : Nat}, Forest levels stops ss ns →
    StandsIn options source lo ss hi → LaidOut source lo hi ns
  | _, _, _, _, _, _, .nil, h => .nil h.le
  | _, _, _, _, _, _, @Forest.comment _ _ c _ _ hrest, h => by
      obtain ⟨hhere, hafter⟩ := h.uncons
      have hleaf := LaidOut.leaf (n := .comment c) hhere.inOrder (by simp [Node.argTokens]) rfl
      exact hleaf.append (hrest.laidOut hafter)
  | _, _, _, _, _, _, @Forest.command _ _ c _ _ _ hrest, h => by
      obtain ⟨hhere, hafter⟩ := h.uncons
      have hargs := Command.args_within hhere.mem
      have hleaf := LaidOut.leaf (n := .command c) hhere.inOrder hargs rfl
      exact hleaf.append (hrest.laidOut hafter)
  | _, _, _, _, _, _, @Forest.jump _ _ kind c _ _ _ _ hrest, h => by
      obtain ⟨hhere, hafter⟩ := h.uncons
      have hleaf := LaidOut.leaf (n := .jump kind c.location) hhere.inOrder
        (by simp [Node.argTokens]) rfl
      exact hleaf.append (hrest.laidOut hafter)
  | _, _, _, _, _, _, @Forest.ret _ _ c _ _ _ hrest, h => by
      obtain ⟨hhere, hafter⟩ := h.uncons
      have hargs := Command.args_within hhere.mem
      have hleaf := LaidOut.leaf (n := .ret c.location c.args) hhere.inOrder hargs rfl
      exact hleaf.append (hrest.laidOut hafter)
  | _, _, _, _, _, _, .block _ hargs hbody _ hrest, h => by
      obtain ⟨hopener, h⟩ := h.uncons
      obtain ⟨mid, hinner, h⟩ := h.split
      obtain ⟨hcloser, hafter⟩ := h.uncons
      obtain ⟨hspan, hwithin, hinside⟩ := hopener.inOrder.around hinner.le hcloser.inOrder
      have hopens := Command.args_within hopener.mem
      refine (laidOut_block hspan ?_ (hbody.laidOut hinner) hinside).append (hrest.laidOut hafter)
      intro t ht
      exact (hopens t (interpret_tokens hargs ht)).trans hwithin
  | _, _, _, _, _, _, @Forest.conditional _ _ opener inner ss _ _ _ harms hrest, h => by
      have h : StandsIn options source _ (.command opener :: inner ++ ss) _ := h
      obtain ⟨mid, harm, hafter⟩ := h.split
      exact (harms.laidOut harm).append (hrest.laidOut hafter)

/-- So does the conditional that an opener and what follows it make. -/
theorem Arms.laidOut : ∀ {levels : Nat} {opener : Command} {ss : List Statement} {node : Node}
    {lo hi : Nat}, Arms levels opener ss node →
    StandsIn options source lo (.command opener :: ss) hi → LaidOut source lo hi [node]
  | _, _, _, _, _, _, .endif hbody _, h => by
      obtain ⟨hopener, h⟩ := h.uncons
      obtain ⟨mid, hinner, hcloser⟩ := h.split
      obtain ⟨hspan, hwithin, hinside⟩ := hopener.inOrder.around hinner.le hcloser.inOrder
      have hbody := hbody.laidOut hinner
      have hargs := condition_args_within hopener.mem hwithin
      apply laidOut_conditional hspan hargs hbody hopener.le hcloser.le
      · intro m hm
        exact hbody.within_span hinside m (Node.mem_allNodes hm)
      · exact .missing
      · simp
  | _, _, _, _, _, _, .otherwise hbody _ hbody' _, h => by
      obtain ⟨hopener, h⟩ := h.uncons
      obtain ⟨mid, hinner, h⟩ := h.split
      obtain ⟨hother, h⟩ := h.uncons
      obtain ⟨mid', hinner', hcloser⟩ := h.split
      have hbefore := Nat.le_trans hinner.le hother.le
      have hbehind := Nat.le_trans hother.le hinner'.le
      obtain ⟨hspan, hwithin, hinside⟩ :=
        hopener.inOrder.around (Nat.le_trans hbefore hinner'.le) hcloser.inOrder
      have htrue := hbody.laidOut hinner
      have hfalse := hbody'.laidOut hinner'
      have hargs := condition_args_within hopener.mem hwithin
      have hinsideTrue := htrue.within_span ⟨hinside.1, Nat.le_trans hbehind hinside.2⟩
      have hinsideFalse := hfalse.within_span ⟨Nat.le_trans hinside.1 hbefore, hinside.2⟩
      apply laidOut_conditional hspan hargs htrue hopener.le (Nat.le_trans hbehind hcloser.le)
      · intro m hm
        exact hinsideTrue m (Node.mem_allNodes hm)
      · apply BranchPlaced.inside hfalse.fits
        · intro m hm
          exact hinsideFalse m (Node.mem_allNodes hm)
        · exact hbody'.not_isElseif hinner'.read
      · rintro ms ⟨⟩
        exact hfalse.mono (Nat.le_trans hopener.le hbefore) hcloser.le
  | _, _, _, _, _, _, .elseif hbody hnext harms, h => by
      obtain ⟨hopener, h⟩ := h.uncons
      obtain ⟨mid, hinner, hafter⟩ := h.split
      have htrue := hbody.laidOut hinner
      have hnode := harms.laidOut hafter
      obtain ⟨hspan, hwithin, hinside⟩ := armEnd_inOrder hopener.inOrder htrue
      have hargs := condition_args_within hopener.mem hwithin
      have hwider := hspan.mono (Nat.le_refl _) hnode.le
      apply laidOut_conditional hwider hargs htrue hopener.le hnode.le hinside
      · -- The next conditional begins behind the arm, where this one ends.
        have hstart := (hnode.inOrder.within _ List.mem_cons_self).1
        have hstop := (hspan.within _ List.mem_cons_self).2
        exact .behind (Nat.le_trans hstop hstart) (harms.isElseif hafter.mem hnext)
      · rintro ms ⟨⟩
        exact hnode.mono (Nat.le_trans hopener.le htrue.le) (Nat.le_refl _)

end

end Derivations

/-! ## Trees -/

/-- The nodes of a tree stand in order, and all of them, at any depth, are well
placed: their spans are stretches of the text, their arguments and what they
enclose lie inside, and siblings follow one another. A node that is alone in
the false branch of a conditional was folded from an `elseif` exactly if it
does not begin inside of the conditional. -/
theorem parseTree_wellPlaced (options : ParseOptions) (source : String) :
    SiblingsInOrder (parseTree options source).items ∧
    ∀ n ∈ Node.allNodes (parseTree options source).items, WellPlaced source n ∧
      ∀ l args ifTrue m, n = .conditional l args ifTrue (some [m]) →
        (m.isElseif source = true ↔
          ¬ (l.span.start ≤ m.location.span.start ∧ m.location.span.start < l.span.stop)) := by
  obtain ⟨before, after, hitems, hforest⟩ :=
    exists_forest_of_fold (Statement.read options (scan source))
  have hall : StandsIn options source 0 (before ++ after) source.utf8ByteSize := by
    rw [← hitems]
    exact ⟨List.Subset.refl _, items_inOrder options source⟩
  obtain ⟨mid, hbefore, -⟩ := hall.split
  have hlaid : LaidOut source 0 mid (parseTree options source).items := hforest.laidOut hbefore
  refine ⟨hlaid.siblings, ?_⟩
  intro n hn
  refine ⟨hlaid.placed n hn, ?_⟩
  rintro l args ifTrue m rfl
  exact (hlaid.placed _ hn).encloses.2.isElseif_iff

/-- A conditional in a loop ends before its `elseif` begins, and that is still
inside of the loop. -/
theorem parseTree_wellPlaced_of_elseif :
    let source := "while(A)\nif(B)\nx(1)\nelseif(C)\nendif()\nendwhile()"
    let nodes := Node.allNodes (parseTree ⟨false⟩ source).items
    nodes.map (·.location.span) = [⟨0, 48⟩, ⟨9, 19⟩, ⟨15, 19⟩, ⟨20, 37⟩] ∧
      WellPlaced source (nodes.get ⟨1, by decide +kernel⟩) :=
  ⟨by decide +kernel, ((parseTree_wellPlaced _ _).2 _ (List.get_mem _ _)).1⟩

end Listfile
