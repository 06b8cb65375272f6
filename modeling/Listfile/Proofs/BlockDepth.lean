import Listfile.Proofs.BlockSteps
import Listfile.Proofs.Subtrees

/-!
# The limit on the depth of blocks

* `Forest.height_le` — a derivation of so many levels makes trees of at most
  this height;
* `TooDeep` — the places where the limit shows;
* `parseTree_depthLimit` — up to the first of them a tree is read as if there
  were no limit, and there the reading ends.
-/

namespace Listfile

open Text OpenBlocks

/-! ## Height -/

mutual

/-- The levels of blocks in a node. The conditional of an `elseif` is inside of
the one before it. -/
def Node.height : Node → Nat
  | .comment _ => 0
  | .command _ => 0
  | .block _ _ _ body => Node.heightList body + 1
  | .conditional _ _ ifTrue ifFalse =>
      max (Node.heightList ifTrue) (Node.heightBranch ifFalse) + 1
  | .jump _ _ => 0
  | .ret _ _ => 0

/-- The levels of the highest tree of a sequence. -/
def Node.heightList : List Node → Nat
  | [] => 0
  | n :: ns => max n.height (Node.heightList ns)

/-- The levels of a branch that may be missing. -/
def Node.heightBranch : Option (List Node) → Nat
  | none => 0
  | some ns => Node.heightList ns

end

theorem Node.height_le_heightList {n : Node} {ns : List Node} (h : n ∈ ns) :
    n.height ≤ Node.heightList ns := by
  induction ns with
  | nil => exact absurd h List.not_mem_nil
  | cons m ns ih =>
      simp only [Node.heightList]
      rcases List.mem_cons.mp h with rfl | h
      · exact Nat.le_max_left _ _
      · have hrest := ih h
        omega

mutual

theorem Forest.height_le : ∀ {levels : Nat} {stops : List String} {ss : List Statement}
    {ns : List Node}, Forest levels stops ss ns → Node.heightList ns ≤ levels
  | _, _, _, _, .nil => by simp [Node.heightList]
  | _, _, _, _, .comment hrest => by simpa [Node.heightList, Node.height] using hrest.height_le
  | _, _, _, _, .command _ hrest => by simpa [Node.heightList, Node.height] using hrest.height_le
  | _, _, _, _, .jump _ _ hrest => by simpa [Node.heightList, Node.height] using hrest.height_le
  | _, _, _, _, .ret _ hrest => by simpa [Node.heightList, Node.height] using hrest.height_le
  | _, _, _, _, .block _ _ hbody _ hrest => by
      have hinside := hbody.height_le
      have hafter := hrest.height_le
      simp only [Node.heightList, Node.height]
      omega
  | _, _, _, _, .conditional _ harms hrest => by
      have hnode := harms.height_le
      have hafter := hrest.height_le
      simp only [Node.heightList]
      omega

theorem Arms.height_le : ∀ {levels : Nat} {opener : Command} {ss : List Statement} {node : Node},
    Arms levels opener ss node → node.height ≤ levels + 1
  | _, _, _, _, .endif hbody _ => by
      have hinside := hbody.height_le
      simp only [Node.height, Node.heightBranch]
      omega
  | _, _, _, _, .otherwise hbody _ hbody' _ => by
      have hinside := hbody.height_le
      have hinside' := hbody'.height_le
      simp only [Node.height, Node.heightBranch]
      omega
  | _, _, _, _, .elseif hbody _ harms => by
      -- The conditional that goes on is alone in the false branch.
      have hinside := hbody.height_le
      have hnode := harms.height_le
      simp only [Node.height, Node.heightBranch, Node.heightList]
      omega

end

/-! ## Where the limit shows -/

/-- The statement opens one more level where `limit` of them are open. -/
def TooDeep (limit : Nat) (open_ : OpenBlocks) : Statement → Prop
  | .comment _ => False
  | .command c => limit ≤ open_.depth ∧ ∃ open', OpensLevel c open_ open'

/-- The limit changes nothing in other places. -/
theorem step_eq_of_not_tooDeep {limit : Nat} {open_ : OpenBlocks} {s : Statement}
    (h : ¬ TooDeep limit open_ s) :
    (Node.reader (some limit)).step open_ s = (Node.reader none).step open_ s := by
  cases s with
  | comment c => rfl
  | command c =>
      by_cases hopens : ∃ open', OpensLevel c open_ open'
      · have hroom : open_.depth < limit := by
          by_cases hfull : limit ≤ open_.depth
          · exact absurd ⟨hfull, hopens⟩ h
          · omega
        obtain ⟨open', hopens⟩ := hopens
        exact (hopens.step_of_lt hroom).trans hopens.step_none.symm
      · apply step_eq_of_not_opensLevel
        intro open' hopens'
        exact hopens ⟨open', hopens'⟩

theorem step_of_tooDeep {limit : Nat} {open_ : OpenBlocks} {c : Command}
    (h : TooDeep limit open_ (.command c)) :
    (Node.reader (some limit)).step open_ (.command c) =
      .error (c.fault (.nestingTooDeep limit)) := by
  obtain ⟨hfull, open', hopens⟩ := h
  exact hopens.step_of_le hfull

/-- Folding with a limit is folding without one up to the first command that
goes too deep. At that command exactly `limit` levels are open. -/
theorem runFrom_limit (limit : Nat) (cut : Option Fault) (ss : List Statement) :
    ((Node.reader none).Avoids (TooDeep limit) [] ss ∧
      (Node.reader (some limit)).runFrom cut [] ss = (Node.reader none).runFrom cut [] ss) ∨
    ∃ before c after ns open_, ss = before ++ .command c :: after ∧
      (Node.reader none).Avoids (TooDeep limit) [] before ∧
      (Node.reader none).Reaches [] before ns open_ ∧
      open_.depth = limit ∧ (∃ open', OpensLevel c open_ open') ∧
      (Node.reader (some limit)).runFrom cut [] ss =
        ⟨ns, some (c.fault (.nestingTooDeep limit))⟩ := by
  have hagree : ∀ open_ s, ¬ TooDeep limit open_ s →
      (Node.reader (some limit)).step open_ s = (Node.reader none).step open_ s := by
    intro open_ s h
    exact step_eq_of_not_tooDeep h
  rcases (Node.reader none).avoids_or_meets (TooDeep limit) [] ss with
    hall | ⟨before, s, after, ns, open_, rfl, hbefore, hreach, hdeep⟩
  · left
    exact ⟨hall, hall.runFrom_eq hagree rfl cut⟩
  · right
    cases s with
    | comment c => exact hdeep.elim
    | command c =>
        have hlimited := hbefore.reaches hagree hreach
        have hdepth : open_.depth = limit := by
          have hle := (Folded.of_reaches hlimited).depth_le
          have hge := hdeep.1
          omega
        refine ⟨before, c, after, ns, open_, rfl, hbefore, hreach, hdepth, hdeep.2, ?_⟩
        exact Reader.runFrom_of_refused cut hlimited (step_of_tooDeep hdeep)

/-! ## Trees -/

/-- The tree of a source text in which blocks may nest as deep as they like. -/
def unlimitedTree (options : ParseOptions) (source : String) : Reading Node ParseError :=
  ((Node.reader none).run [] (Statement.read options (scan source))).mapError (·.inSource source)

/-- No node is higher than the limit. The tree is the one without a limit unless
some command opens a level where a hundred are open: the nodes are then those
delivered before the first such command, and it is to blame. -/
theorem parseTree_depthLimit (options : ParseOptions) (source : String) :
    (∀ n ∈ (parseTree options source).items, n.height ≤ Node.maxDepth) ∧
    (((Node.reader none).Avoids (TooDeep Node.maxDepth) [] (parseFlat options source).items ∧
        parseTree options source = unlimitedTree options source) ∨
      ∃ before c after nodes open_,
        (parseFlat options source).items = before ++ .command c :: after ∧
        (Node.reader none).Avoids (TooDeep Node.maxDepth) [] before ∧
        (Node.reader none).Reaches [] before nodes open_ ∧
        open_.depth = Node.maxDepth ∧ (∃ open', OpensLevel c open_ open') ∧
        parseTree options source =
          ⟨nodes, some ((c.fault (.nestingTooDeep Node.maxDepth)).inSource source)⟩ ∧
        nodes <+: (unlimitedTree options source).items) := by
  constructor
  · intro n hn
    obtain ⟨before, after, -, hforest⟩ :=
      exists_forest_of_fold (Statement.read options (scan source))
    have hnode := Node.height_le_heightList hn
    have hall := hforest.height_le
    exact Nat.le_trans hnode hall
  · rcases runFrom_limit Node.maxDepth (Statement.read options (scan source)).error
      (Statement.read options (scan source)).items with
      ⟨havoids, hsame⟩ | ⟨before, c, after, ns, open_, hss, hbefore, hreach, hdepth, hopens, hrun⟩
    · left
      exact ⟨havoids, congrArg (·.mapError (·.inSource source)) hsame⟩
    · right
      refine ⟨before, c, after, ns, open_, hss, hbefore, hreach, hdepth, hopens, ?_, ?_⟩
      · exact congrArg (·.mapError (·.inSource source)) hrun
      · show ns <+: ((Node.reader none).runFrom _ [] _).items
        rw [hss, Reader.runFrom_append_of_reaches _ hreach]
        exact List.prefix_append _ _

/-- A loop in the second arm of a conditional is on its third level. -/
theorem parseTree_depthLimit_of_elseif :
    let nodes := (parseTree ⟨true⟩ "if(A)\nelseif(B)\nwhile(C)\nendwhile()\nendif()").items
    ∃ n ∈ nodes, n.height = 3 ∧ n.height ≤ Node.maxDepth := by
  intro nodes
  have hheights : nodes.map Node.height = [3] := by decide +kernel
  obtain ⟨n, hn, hheight⟩ := List.mem_map.mp (hheights ▸ List.mem_cons_self : 3 ∈ nodes.map _)
  exact ⟨n, hn, hheight, (parseTree_depthLimit _ _).1 n hn⟩

end Listfile
