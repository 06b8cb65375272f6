import Mathlib.Data.List.Forall2
import Listfile.Proofs.Reparsing

/-!
# Comments left out

Leaving comments out while a text is read comes to the same as reading all of it
and deleting the comments afterwards. There is one exception: an arm of a
conditional that an `elseif` follows ends with its last element, which may be a
comment.

* `Statement.read_skipping` — the readers of statements differ in nothing but
  the comments that they deliver;
* `ArmsAgree.chain` — conditionals of the same arms are the same but for the
  ends of those that `elseif` follows;
* `BlocksAgree.step` — a command does the same to open blocks that agree;
* `BlocksAgree.runFrom` — so the fold over all statements and the fold over the
  commands alone stay in agreement, where a comment moves only the first;
* `skipComments_eq_withoutComments` — reading without comments is deleting them.
-/

namespace Listfile

open Text OpenBlocks

/-! ## Deleting comments -/

/-- Whether the statement is a comment. -/
def Statement.isComment : Statement → Bool
  | .comment _ => true
  | .command _ => false

mutual

/-- The node without the comments inside of it. Of a comment nothing is left. -/
def Node.withoutComments? : Node → Option Node
  | .comment _ => none
  | .command c => some (.command c)
  | .block kind l args body => some (.block kind l args (Node.withoutComments body))
  | .conditional l args ifTrue ifFalse =>
      some (.conditional l args (Node.withoutComments ifTrue) (Node.branchWithoutComments ifFalse))
  | .jump kind l => some (.jump kind l)
  | .ret l args => some (.ret l args)

/-- The nodes without the comments among them and inside of them. -/
def Node.withoutComments : List Node → List Node
  | [] => []
  | n :: ns => (Node.withoutComments? n).toList ++ Node.withoutComments ns

/-- A branch of which nothing is left stays a branch. -/
def Node.branchWithoutComments : Option (List Node) → Option (List Node)
  | none => none
  | some ns => some (Node.withoutComments ns)

end

theorem Node.withoutComments_eq_filterMap (ns : List Node) :
    Node.withoutComments ns = ns.filterMap Node.withoutComments? := by
  induction ns with
  | nil => rfl
  | cons n ns ih =>
      rw [withoutComments, ih, List.filterMap_cons]
      cases n.withoutComments? <;> rfl

/-! ## Forgetting where arms end -/

/-- The place without its end. -/
def Location.withoutEnd (l : Location) : Location :=
  ⟨l.line, l.column, ⟨l.span.start, l.span.start⟩⟩

section Forgetting

variable (source : String)

mutual

/-- The node without the ends of the conditionals whose false branch is an
`elseif`. -/
def Node.forgetArmEnds : Node → Node
  | .comment c => .comment c
  | .command c => .command c
  | .block kind l args body => .block kind l args (Node.forgetArmEndsList body)
  | .conditional l args ifTrue ifFalse =>
      .conditional
        (if (Node.conditional l args ifTrue ifFalse).hasElseif source then l.withoutEnd else l)
        args (Node.forgetArmEndsList ifTrue) (Node.forgetArmEndsBranch ifFalse)
  | .jump kind l => .jump kind l
  | .ret l args => .ret l args

/-- `Node.forgetArmEnds` of each of the nodes. -/
def Node.forgetArmEndsList : List Node → List Node
  | [] => []
  | n :: ns => Node.forgetArmEnds n :: Node.forgetArmEndsList ns

/-- `Node.forgetArmEnds` of each node of a branch, if there is one. -/
def Node.forgetArmEndsBranch : Option (List Node) → Option (List Node)
  | none => none
  | some ns => some (Node.forgetArmEndsList ns)

end

theorem Node.forgetArmEndsList_eq_map (ns : List Node) :
    Node.forgetArmEndsList source ns = ns.map (·.forgetArmEnds source) := by
  induction ns with
  | nil => rfl
  | cons n ns ih => rw [forgetArmEndsList, ih, List.map_cons]

/-- Where a node begins is not forgotten. -/
theorem Node.isElseif_forgetArmEnds (n : Node) :
    (n.forgetArmEnds source).isElseif source = n.isElseif source := by
  cases n with
  | conditional l args ifTrue ifFalse =>
      unfold forgetArmEnds
      split <;> rfl
  | _ => rfl

theorem Node.hasElseif_forgetArmEnds (l l' : Location) (args args' : Arguments)
    (ifTrue ifTrue' : List Node) (ifFalse : Option (List Node)) :
    (Node.conditional l args ifTrue (Node.forgetArmEndsBranch source ifFalse)).hasElseif source =
      (Node.conditional l' args' ifTrue' ifFalse).hasElseif source := by
  match ifFalse with
  | none => rfl
  | some [] => rfl
  | some [next] => exact next.isElseif_forgetArmEnds source
  | some (_ :: _ :: _) => rfl

end Forgetting

/-! ## Agreement of trees -/

section Agreement

variable {source : String}

/-- The second node is what the first one is without its comments, but for the
ends that are forgotten. -/
def SameNode (source : String) (n n' : Node) : Prop :=
  n.withoutComments?.map (·.forgetArmEnds source) = some (n'.forgetArmEnds source)

/-- The same of sequences of nodes. -/
def SameNodes (source : String) (ns ns' : List Node) : Prop :=
  Node.forgetArmEndsList source (Node.withoutComments ns) = Node.forgetArmEndsList source ns'

/-- The same of branches that may be missing. -/
def SameBranch (source : String) (ns? ns?' : Option (List Node)) : Prop :=
  Node.forgetArmEndsBranch source (Node.branchWithoutComments ns?) =
    Node.forgetArmEndsBranch source ns?'

theorem SameNodes.nil : SameNodes source [] [] :=
  rfl

theorem SameNodes.comment {c : Comment} {ns ns' : List Node} (h : SameNodes source ns ns') :
    SameNodes source (.comment c :: ns) ns' :=
  h

theorem SameNodes.cons {n n' : Node} {ns ns' : List Node} (hn : SameNode source n n')
    (h : SameNodes source ns ns') : SameNodes source (n :: ns) (n' :: ns') := by
  obtain ⟨m, hm, hforget⟩ := Option.map_eq_some_iff.mp hn
  unfold SameNodes at h ⊢
  rw [Node.withoutComments, hm]
  show _ :: Node.forgetArmEndsList source (Node.withoutComments ns) = _
  rw [hforget, h]
  rfl

theorem SameNodes.reverse {ns ns' : List Node} (h : SameNodes source ns ns') :
    SameNodes source ns.reverse ns'.reverse := by
  unfold SameNodes at h ⊢
  rw [Node.withoutComments_eq_filterMap, Node.forgetArmEndsList_eq_map,
    Node.forgetArmEndsList_eq_map] at h ⊢
  rw [List.filterMap_reverse, List.map_reverse, List.map_reverse, h]

theorem SameBranch.some {ns ns' : List Node} (h : SameNodes source ns ns') :
    SameBranch source (some ns) (some ns') :=
  congrArg Option.some h

theorem SameNode.block {kind : BlockKind} {l : Location} {args : Arguments}
    {body body' : List Node} (h : SameNodes source body body') :
    SameNode source (.block kind l args body) (.block kind l args body') :=
  congrArg (fun ns => Option.some (Node.block kind l args ns)) h

/-- Conditionals are the same if their branches are. The end of one that an
`elseif` follows does not matter. -/
theorem SameNode.conditional {l l' : Location} {args : Arguments} {ifTrue ifTrue' : List Node}
    {ifFalse ifFalse' : Option (List Node)} (hstart : l.withoutEnd = l'.withoutEnd)
    (hl : (Node.conditional l' args ifTrue' ifFalse').hasElseif source = false → l = l')
    (htrue : SameNodes source ifTrue ifTrue') (hfalse : SameBranch source ifFalse ifFalse') :
    SameNode source (.conditional l args ifTrue ifFalse)
      (.conditional l' args ifTrue' ifFalse') := by
  have helseif : (Node.conditional l args (Node.withoutComments ifTrue)
      (Node.branchWithoutComments ifFalse)).hasElseif source =
      (Node.conditional l' args ifTrue' ifFalse').hasElseif source := by
    rw [← Node.hasElseif_forgetArmEnds source l l args args [] _ _, hfalse,
      Node.hasElseif_forgetArmEnds]
  have hends : (if (Node.conditional l' args ifTrue' ifFalse').hasElseif source then l.withoutEnd
      else l) = if (Node.conditional l' args ifTrue' ifFalse').hasElseif source then l'.withoutEnd
      else l' := by
    split
    · exact hstart
    · rename_i hplain
      exact hl (Bool.eq_false_iff.mpr hplain)
  unfold SameNode
  rw [Node.withoutComments?, Option.map_some, Node.forgetArmEnds, Node.forgetArmEnds, helseif,
    hends, htrue, hfalse]

/-! ## Agreement of arms -/

/-- The node is a conditional that begins where the command does. -/
def Node.BeginsAt (n : Node) (c : Command) : Prop :=
  ∃ stop args ifTrue ifFalse, n = .conditional (c.location.through stop) args ifTrue ifFalse

theorem Node.BeginsAt.isElseif {n : Node} {c : Command} (h : n.BeginsAt c)
    (hc : c.location.beginsWith source "elseif" = true) : n.isElseif source = true := by
  obtain ⟨stop, args, ifTrue, ifFalse, rfl⟩ := h
  exact hc

/-- `ArmsAgree source c earlier earlier'`: the arms before the one that `c`
opens have the same openers and the same bodies, and every opener but the first
one is an `elseif` of the source. -/
inductive ArmsAgree (source : String) : Command → List Arm → List Arm → Prop
  | first {c : Command} : ArmsAgree source c [] []
  | next {c opener : Command} {body body' : List Node} {rest rest' : List Arm}
      (hc : c.location.beginsWith source "elseif" = true) (hbody : SameNodes source body body')
      (hrest : ArmsAgree source opener rest rest') :
      ArmsAgree source c (⟨opener, body⟩ :: rest) (⟨opener, body'⟩ :: rest')

theorem ArmsAgree.length_eq {c : Command} {earlier earlier' : List Arm}
    (h : ArmsAgree source c earlier earlier') : earlier.length = earlier'.length := by
  induction h with
  | first => rfl
  | next _ _ _ ih => rw [List.length_cons, List.length_cons, ih]

/-- The last arm of a conditional ends with the whole of it. -/
theorem SameNode.lastArm {opener : Command} {body body' : List Node} {stop : Span}
    {ifFalse ifFalse' : Option (List Node)} (hbody : SameNodes source body body')
    (hfalse : SameBranch source ifFalse ifFalse') :
    SameNode source (Arm.node ⟨opener, body⟩ stop ifFalse)
      (Arm.node ⟨opener, body'⟩ stop ifFalse') :=
  .conditional rfl (fun _ => rfl) hbody hfalse

/-- Any other arm has the arm that an `elseif` opens for its false branch. -/
theorem SameNode.before {c opener : Command} {body body' : List Node} {next next' : Node}
    (hc : c.location.beginsWith source "elseif" = true) (hbody : SameNodes source body body')
    (hnext : SameNode source next next') (hbegins : next'.BeginsAt c) :
    SameNode source (Arm.before ⟨opener, body⟩ next) (Arm.before ⟨opener, body'⟩ next') := by
  have helseif : next'.isElseif source = true := hbegins.isElseif hc
  refine .conditional rfl (fun hplain => ?_) hbody (.some (.cons hnext .nil))
  have hplain : next'.isElseif source = false := hplain
  rw [helseif] at hplain
  cases hplain

theorem ArmsAgree.chain {c : Command} {earlier earlier' : List Arm} {n n' : Node}
    (h : ArmsAgree source c earlier earlier') (hn : SameNode source n n') (hc : n'.BeginsAt c) :
    SameNode source (Arm.chain earlier n) (Arm.chain earlier' n') := by
  induction h generalizing n n' with
  | first => exact hn
  | next helseif hbody _ ih => exact ih (hn.before helseif hbody hc) ⟨_, _, _, _, rfl⟩

/-! ## Agreement of open blocks -/

/-- The second block is open where the first one is, and holds the same nodes
but for comments. -/
inductive BlockAgrees (source : String) : OpenBlock → OpenBlock → Prop
  | plain {kind : BlockKind} {opener : Command} {args : Arguments} {body body' : List Node}
      (hbody : SameNodes source body body') :
      BlockAgrees source (.plain kind opener args body) (.plain kind opener args body')
  | arm {earlier earlier' : List Arm} {opener : Command} {body body' : List Node}
      (hearlier : ArmsAgree source opener earlier earlier')
      (hbody : SameNodes source body body') :
      BlockAgrees source (.arm earlier opener body) (.arm earlier' opener body')
  | alternative {earlier earlier' : List Arm} {opener : Command}
      {last last' body body' : List Node} (hearlier : ArmsAgree source opener earlier earlier')
      (hlast : SameNodes source last last') (hbody : SameNodes source body body') :
      BlockAgrees source (.alternative earlier ⟨opener, last⟩ body)
        (.alternative earlier' ⟨opener, last'⟩ body')

namespace BlockAgrees

variable {b b' : OpenBlock}

theorem levels_eq (h : BlockAgrees source b b') : b.levels = b'.levels := by
  cases h with
  | plain => rfl
  | arm hearlier => exact congrArg (· + 1) hearlier.length_eq
  | alternative hearlier => exact congrArg (· + 1) hearlier.length_eq

theorem expected_eq (h : BlockAgrees source b b') : b.expected = b'.expected := by
  cases h <;> rfl

theorem blamed_eq (h : BlockAgrees source b b') : b.blamed = b'.blamed := by
  cases h <;> rfl

theorem push {n n' : Node} (h : BlockAgrees source b b') (hn : SameNode source n n') :
    BlockAgrees source (b.push n) (b'.push n') := by
  cases h with
  | plain hbody => exact .plain (.cons hn hbody)
  | arm hearlier hbody => exact .arm hearlier (.cons hn hbody)
  | alternative hearlier hlast hbody => exact .alternative hearlier hlast (.cons hn hbody)

theorem pushComment (h : BlockAgrees source b b') (c : Comment) :
    BlockAgrees source (b.push (.comment c)) b' := by
  cases h with
  | plain hbody => exact .plain hbody.comment
  | arm hearlier hbody => exact .arm hearlier hbody.comment
  | alternative hearlier hlast hbody => exact .alternative hearlier hlast hbody.comment

end BlockAgrees

/-- Stacks of blocks that agree one by one. -/
abbrev BlocksAgree (source : String) : OpenBlocks → OpenBlocks → Prop :=
  List.Forall₂ (BlockAgrees source)

/-- What two steps come to: the same error, or stacks that agree and nodes that
are the same. -/
inductive StepsAgree (source : String) :
    Except Fault (Option Node × OpenBlocks) → Except Fault (Option Node × OpenBlocks) → Prop
  | refused (fault : Fault) : StepsAgree source (.error fault) (.error fault)
  | silent {open_ open' : OpenBlocks} (h : BlocksAgree source open_ open') :
      StepsAgree source (.ok (none, open_)) (.ok (none, open'))
  | delivered {n n' : Node} {open_ open' : OpenBlocks} (hn : SameNode source n n')
      (h : BlocksAgree source open_ open') :
      StepsAgree source (.ok (some n, open_)) (.ok (some n', open'))

namespace BlocksAgree

variable {open_ open' : OpenBlocks}

theorem depth_eq (h : BlocksAgree source open_ open') : depth open_ = depth open' := by
  induction h with
  | nil => rfl
  | cons hb _ ih => rw [depth, depth, hb.levels_eq, ih]

theorem checkDepth_eq (h : BlocksAgree source open_ open') (limit : Option Nat) (c : Command) :
    checkDepth limit c open_ = checkDepth limit c open' := by
  unfold checkDepth
  rw [h.depth_eq]

theorem finish_eq (h : BlocksAgree source open_ open') : finish open_ = finish open' := by
  cases h with
  | nil => rfl
  | cons hb _ => rw [finish, finish, hb.blamed_eq, hb.expected_eq]

theorem deliver {n n' : Node} (h : BlocksAgree source open_ open') (hn : SameNode source n n') :
    StepsAgree source (.ok (OpenBlocks.deliver n open_)) (.ok (OpenBlocks.deliver n' open')) := by
  cases h with
  | nil => exact .delivered hn .nil
  | cons hb hrest => exact .silent (.cons (hb.push hn) hrest)

/-- A command that opens something opens it in both, unless it is too deep. -/
theorem opens {new new' : OpenBlocks} (h : BlocksAgree source open_ open')
    (hnew : BlocksAgree source new new') (limit : Option Nat) (c : Command) :
    StepsAgree source (checkDepth limit c open_ >>= fun _ => pure (none, new))
      (checkDepth limit c open' >>= fun _ => pure (none, new')) := by
  rw [h.checkDepth_eq]
  cases checkDepth limit c open' with
  | error fault => exact .refused fault
  | ok => exact .silent hnew

theorem enter (h : BlocksAgree source open_ open') (limit : Option Nat) (c : Command) :
    StepsAgree source (OpenBlocks.enter limit c open_) (OpenBlocks.enter limit c open') := by
  unfold OpenBlocks.enter
  split
  · exact h.deliver rfl
  · exact h.deliver rfl
  · split
    · exact h.deliver rfl
    · exact .refused _
  · rename_i kind _
    cases interpret kind c with
    | error fault => exact .refused fault
    | ok args => exact h.opens (.cons (.plain .nil) h) limit c
  · exact h.opens (.cons (.arm .first .nil) h) limit c

theorem close {b b' : OpenBlock} (h : BlocksAgree source open_ open')
    (hb : BlockAgrees source b b') (limit : Option Nat) {c : Command}
    (hc : c.IsCalled "elseif" → c.location.beginsWith source "elseif" = true) :
    StepsAgree source (OpenBlocks.close limit c b open_) (OpenBlocks.close limit c b' open') := by
  cases hb with
  | plain hbody => exact h.deliver (.block hbody.reverse)
  | alternative hearlier hlast hbody =>
      exact h.deliver (hearlier.chain (.lastArm hlast (.some hbody.reverse)) ⟨_, _, _, _, rfl⟩)
  | arm hearlier hbody =>
      have hb := BlockAgrees.arm hearlier hbody
      unfold OpenBlocks.close
      by_cases helseif : sameWord c.name "elseif" = true
      · have harms := ArmsAgree.next (hc helseif) hbody.reverse hearlier
        simp only [helseif, if_true]
        exact opens (.cons hb h) (.cons (.arm harms .nil) h) limit c
      by_cases helse : sameWord c.name "else" = true
      · simp only [helseif, helse]
        exact .silent (.cons (.alternative hearlier hbody.reverse .nil) h)
      · simp only [helseif, helse]
        exact h.deliver (hearlier.chain (.lastArm hbody.reverse rfl) ⟨_, _, _, _, rfl⟩)

/-- A command does the same to both stacks. -/
theorem step (h : BlocksAgree source open_ open') (limit : Option Nat) {c : Command}
    (hc : c.IsCalled "elseif" → c.location.beginsWith source "elseif" = true) :
    StepsAgree source (OpenBlocks.step limit open_ (.command c))
      (OpenBlocks.step limit open' (.command c)) := by
  cases h with
  | nil => exact enter .nil limit c
  | @cons b b' outer outer' hb hrest =>
      have hends : ends c b = ends c b' := by
        unfold ends
        rw [hb.expected_eq]
      simp only [OpenBlocks.step, hends]
      split
      · exact BlocksAgree.close hrest hb limit hc
      · exact enter (.cons hb hrest) limit c

/-- A comment leaves the second stack alone. -/
theorem comment (h : BlocksAgree source open_ open') (c : Comment) :
    BlocksAgree source (OpenBlocks.deliver (.comment c) open_).2 open' := by
  cases h with
  | nil => exact .nil
  | cons hb hrest => exact .cons (hb.pushComment c) hrest

end BlocksAgree

/-- Readings with the same error, and with the same nodes but for comments. -/
structure SameReading (source : String) (r r' : Reading Node Fault) : Prop where
  items : SameNodes source r.items r'.items
  error : r.error = r'.error

/-- The fold over statements and the fold over their commands alone agree from
wherever they agree. -/
theorem BlocksAgree.runFrom {open_ open' : OpenBlocks} (h : BlocksAgree source open_ open')
    (limit : Option Nat) (cut : Option Fault) {ss : List Statement}
    (hss : ∀ c, .command c ∈ ss → c.IsCalled "elseif" →
      c.location.beginsWith source "elseif" = true) :
    SameReading source ((Node.reader limit).runFrom cut open_ ss)
      ((Node.reader limit).runFrom cut open' (ss.filter (!·.isComment))) := by
  induction ss generalizing open_ open' with
  | nil =>
      refine ⟨.nil, ?_⟩
      show (cut <|> finish open_) = (cut <|> finish open')
      rw [h.finish_eq]
  | cons s ss ih =>
      have hrest := fun {o o' : OpenBlocks} (ho : BlocksAgree source o o') =>
        ih ho fun c hc => hss c (List.mem_cons_of_mem s hc)
      cases s with
      | comment c =>
          have hstays := hrest (h.comment c)
          cases h with
          | nil => exact ⟨hstays.items.comment, hstays.error⟩
          | cons => exact hstays
      | command c =>
          have hstep := h.step limit (hss c List.mem_cons_self)
          rw [List.filter_cons_of_pos rfl]
          simp only [Reader.runFrom, Node.reader]
          generalize OpenBlocks.step limit open_ (.command c) = result at hstep
          generalize OpenBlocks.step limit open' (.command c) = result' at hstep
          cases hstep with
          | refused fault => exact ⟨.nil, rfl⟩
          | silent hnew => exact hrest hnew
          | delivered hn hnew => exact ⟨.cons hn (hrest hnew).items, (hrest hnew).error⟩

end Agreement

/-! ## Reading without comments -/

/-- Only between statements does it matter whether comments are left out. -/
theorem Statement.step_skipping (progress : Progress) (t : Token) :
    (reader ⟨true⟩).step progress t =
      ((reader ⟨false⟩).step progress t).map (Prod.map (Option.filter (!·.isComment)) id) := by
  cases progress with
  | between =>
      show start ⟨true⟩ t = (start ⟨false⟩ t).map _
      unfold start
      split
      · rfl
      · rfl
      · rfl
      · split <;> rfl
      · rfl
  | named name =>
      show openArguments name t = (openArguments name t).map _
      unfold openArguments
      split <;> rfl
  | arguments name depth taken =>
      show argument name depth taken t = (argument name depth taken t).map _
      unfold argument
      split <;> rfl

theorem Statement.read_skipping (tokens : List Token) :
    read ⟨true⟩ tokens =
      ⟨(read ⟨false⟩ tokens).items.filter (!·.isComment), (read ⟨false⟩ tokens).error⟩ :=
  Reader.runFrom_filter _ step_skipping (fun _ => rfl) none .between tokens

/-- The trees of a text, read with its comments and without them. -/
theorem sameReading_fold (source : String) :
    SameReading source (Node.fold (Statement.read ⟨false⟩ (scan source)))
      (Node.fold (Statement.read ⟨true⟩ (scan source))) := by
  rw [Statement.read_skipping]
  exact BlocksAgree.runFrom .nil _ _ fun c hc hcalled => Command.beginsWith_of_mem hc hcalled

/-- **Leaving comments out is deleting them.** The statements of a text read
without comments are its statements without the comments, and its tree is its
tree without the comments at any depth, but for the ends of the conditionals
whose false branch is an `elseif`. The same error, if any, ends all of them. -/
theorem skipComments_eq_withoutComments (source : String) :
    parseFlat ⟨true⟩ source =
      ⟨(parseFlat ⟨false⟩ source).items.filter (!·.isComment), (parseFlat ⟨false⟩ source).error⟩ ∧
    (parseTree ⟨true⟩ source).items.map (·.forgetArmEnds source) =
      (Node.withoutComments (parseTree ⟨false⟩ source).items).map (·.forgetArmEnds source) ∧
    (parseTree ⟨true⟩ source).error = (parseTree ⟨false⟩ source).error := by
  obtain ⟨hitems, herror⟩ := sameReading_fold source
  refine ⟨?_, ?_, ?_⟩
  · unfold parseFlat
    rw [Statement.read_skipping]
    rfl
  · unfold SameNodes at hitems
    rw [Node.forgetArmEndsList_eq_map, Node.forgetArmEndsList_eq_map] at hitems
    exact hitems.symm
  · show Option.map _ _ = Option.map _ _
    rw [herror]

/-- The comment in the first arm is its end, unless it is left out. -/
example :
    let source := "if(A)\n# c\nelseif(B)\n# d\nelse()\n# e\nendif()"
    (parseTree ⟨false⟩ source).items.map (·.location.span) = [⟨0, 9⟩] ∧
      (parseTree ⟨true⟩ source).items.map (·.location.span) = [⟨0, 5⟩] := by
  decide +kernel

end Listfile
