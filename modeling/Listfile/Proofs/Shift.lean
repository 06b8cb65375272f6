import Listfile.Parse
import Listfile.Proofs.Offsets
import Listfile.Proofs.ReaderRuns

/-!
# Shifted places

A text that stands inside of another one is read as it would be by itself, but
for the places: offsets and lines grow by what stands before it, and so do the
columns of its first line. `Shift` is such a change of places. It goes along
with every stage of reading:

* `scanFrom_shift` — with the scanner;
* `Statement.read_shift` — with the reader of statements;
* `Node.fold_shift` — with the fold of statements into a tree;
* `Fault.inSource_shift` — with the text that is shown of a fault.
-/

namespace Listfile

open Text OpenBlocks

/-- How far places move. Columns move on the first line only. -/
structure Shift where
  bytes : Nat
  lines : Nat
  columns : Nat

section Shifting

variable (d : Shift)

/-! ## Shifted data -/

/-- Both ends grow by the bytes in front. -/
def Span.shift (s : Span) : Span :=
  ⟨s.start + d.bytes, s.stop + d.bytes⟩

/-- The column, in the shifted text, of a place that was in the given line and
column. -/
def Shift.column (line column : Nat) : Nat :=
  if line = 1 then column + d.columns else column

/-- The same position counted from an earlier start. -/
def Position.shift (p : Position) : Position :=
  ⟨p.offset + d.bytes, p.line + d.lines, d.column p.line p.column⟩

/-- The location with its beginning and its span shifted alike. -/
def Location.shift (l : Location) : Location :=
  ⟨l.line + d.lines, d.column l.line l.column, l.span.shift d⟩

/-- Kind and value of a token stay. -/
def Token.shift (t : Token) : Token :=
  ⟨t.kind, t.value, t.location.shift d⟩

/-- The text of a comment stays. -/
def Comment.shift (c : Comment) : Comment :=
  ⟨c.location.shift d, c.text⟩

/-- The name of a command stays; each of its arguments is shifted. -/
def Command.shift (c : Command) : Command :=
  ⟨c.location.shift d, c.name, c.args.map (·.shift d)⟩

/-- A statement of the same sort, shifted. -/
def Statement.shift : Statement → Statement
  | .comment c => .comment (c.shift d)
  | .command c => .command (c.shift d)

/-- Arguments that are kept as tokens are shifted. A signature has no place. -/
def Arguments.shift : Arguments → Arguments
  | .unparsed tokens => .unparsed (tokens.map (·.shift d))
  | .condition tokens => .condition (tokens.map (·.shift d))
  | .signature s => .signature s

mutual

/-- A node with every place in it shifted, at any depth. -/
def Node.shift : Node → Node
  | .comment c => .comment (c.shift d)
  | .command c => .command (c.shift d)
  | .block kind l args body => .block kind (l.shift d) (args.shift d) (Node.shiftList body)
  | .conditional l args ifTrue ifFalse =>
      .conditional (l.shift d) (args.shift d) (Node.shiftList ifTrue) (Node.shiftBranch ifFalse)
  | .jump kind l => .jump kind (l.shift d)
  | .ret l args => .ret (l.shift d) (args.map (·.shift d))

/-- Each of the nodes shifted. -/
def Node.shiftList : List Node → List Node
  | [] => []
  | n :: ns => Node.shift n :: Node.shiftList ns

/-- The nodes of a branch shifted, if there is one. -/
def Node.shiftBranch : Option (List Node) → Option (List Node)
  | none => none
  | some ns => some (Node.shiftList ns)

end

/-- A fault has the same cause elsewhere. -/
def Fault.shift (f : Fault) : Fault :=
  ⟨f.cause, f.location.shift d⟩

/-- The text that an error shows stays. -/
def ParseError.shift (e : ParseError) : ParseError :=
  ⟨e.fault.shift d, e.text⟩

theorem Node.shiftList_eq_map (ns : List Node) : Node.shiftList d ns = ns.map (·.shift d) := by
  induction ns with
  | nil => rfl
  | cons n ns ih => rw [shiftList, ih, List.map_cons]

/-! ## Places -/

@[simp] theorem Token.kind_shift (t : Token) : (t.shift d).kind = t.kind := rfl

@[simp] theorem Command.name_shift (c : Command) : (c.shift d).name = c.name := rfl

@[simp] theorem Command.args_shift (c : Command) :
    (c.shift d).args = c.args.map (·.shift d) := rfl

theorem Node.location_shift (n : Node) : (n.shift d).location = n.location.shift d := by
  cases n <;> rfl

/-- Moving on goes along with a shift: a line that begins later is not the
first one. -/
theorem Position.next_shift {p : Position} (hp : 1 ≤ p.line) (c : Char) :
    (p.shift d).next c = (p.next c).shift d := by
  unfold next
  split
  · have hline : p.line + 1 ≠ 1 := by omega
    simp only [shift, Shift.column, if_neg hline, mk.injEq, and_true]
    omega
  · simp only [shift, Shift.column, mk.injEq, true_and]
    refine ⟨by omega, ?_⟩
    split <;> omega

theorem Position.line_next (p : Position) (c : Char) : p.line ≤ (p.next c).line := by
  unfold next
  split
  · exact Nat.le_succ _
  · exact Nat.le_refl _

theorem Position.advance_shift {p : Position} (hp : 1 ≤ p.line) (cs : List Char) :
    (p.shift d).advance cs = (p.advance cs).shift d := by
  induction cs generalizing p with
  | nil => rfl
  | cons c cs ih =>
      show ((p.shift d).next c).advance cs = ((p.next c).advance cs).shift d
      rw [next_shift d hp, ih (Nat.le_trans hp (p.line_next c))]

theorem Position.le_line_advance (p : Position) (cs : List Char) :
    p.line ≤ (p.advance cs).line := by
  induction cs generalizing p with
  | nil => exact Nat.le_refl _
  | cons c cs ih => exact Nat.le_trans (p.line_next c) (ih (p.next c))

/-! ## The scanner -/

theorem Lexeme.token_shift (l : Lexeme) {p : Position} (hp : 1 ≤ p.line) :
    l.token (p.shift d) = (l.token p).shift d := by
  unfold token
  rw [Position.advance_shift d hp]
  rfl

theorem scanFrom_shift {p : Position} (hp : 1 ≤ p.line) (cs : List Char) :
    scanFrom (p.shift d) cs = (scanFrom p cs).map (·.shift d) := by
  fun_induction scanFrom p cs with
  | case1 p cs hrest =>
      rw [scanFrom]
      split
      · rfl
      · rename_i hcons
        rw [hrest] at hcons
        cases hcons
  | case2 p cs c tail hrest start lexeme ih =>
      have hstart : 1 ≤ start.line := Nat.le_trans hp (p.le_line_advance _)
      have hnext : 1 ≤ (start.advance lexeme.text).line :=
        Nat.le_trans hstart (start.le_line_advance _)
      rw [scanFrom]
      split
      · rename_i hnil
        rw [hrest] at hnil
        cases hnil
      · rename_i c' tail' hcons
        rw [hrest] at hcons
        cases hcons
        have hmoved : (p.shift d).advance (cs.takeWhile isBlank) = start.shift d :=
          Position.advance_shift d hp _
        show lexeme.token ((p.shift d).advance _) ::
          scanFrom (((p.shift d).advance _).advance lexeme.text) lexeme.rest = _
        rw [hmoved, Position.advance_shift d hstart, List.map_cons, ← ih hnext,
          Lexeme.token_shift d lexeme hstart]

/-! ## Statements -/

/-- A stage of the reader of statements with its tokens shifted. -/
def Statement.Progress.shift : Statement.Progress → Statement.Progress
  | .between => .between
  | .named name => .named (name.shift d)
  | .arguments name depth taken => .arguments (name.shift d) depth (taken.map (·.shift d))

theorem Statement.ofParts_shift (name close : Token) (taken : List Token) :
    Statement.ofParts (name.shift d) (taken.map (·.shift d)) (close.shift d) =
      (Statement.ofParts name taken close).shift d := by
  unfold Statement.ofParts
  rw [← List.map_reverse]
  rfl

/-- Reading statements looks at kinds and values only. -/
def Statement.shiftSymmetry (options : ParseOptions) : (Statement.reader options).Symmetry where
  stage := Statement.Progress.shift d
  input := Token.shift d
  item := Statement.shift d
  error := Fault.shift d
  step_eq s t := by
    cases s with
    | between =>
        show Statement.start options (t.shift d) = ((Statement.start options t).map _).mapError _
        simp only [Statement.start, Token.kind_shift]
        split
        · split <;> rfl
        · rfl
        · rfl
        · by_cases hident : isIdentifier t.value = true
          · have hshifted : isIdentifier (t.shift d).value = true := hident
            rw [if_pos hident, if_pos hshifted]
            rfl
          · have hshifted : ¬ isIdentifier (t.shift d).value = true := hident
            rw [if_neg hident, if_neg hshifted]
            rfl
        · rfl
    | named name =>
        show Statement.openArguments (name.shift d) (t.shift d) =
          ((Statement.openArguments name t).map _).mapError _
        simp only [Statement.openArguments, Token.kind_shift]
        split <;> rfl
    | arguments name depth taken =>
        show Statement.argument (name.shift d) depth (taken.map (·.shift d)) (t.shift d) =
          ((Statement.argument name depth taken t).map _).mapError _
        simp only [Statement.argument, Token.kind_shift]
        split
        · rfl
        · show Except.ok (some (Statement.ofParts _ _ _), _) =
            Except.ok (some (Statement.shift d (Statement.ofParts _ _ _)), _)
          rw [Statement.ofParts_shift]
          rfl
        all_goals rfl
  finish_eq s := by
    cases s <;> rfl

theorem Statement.read_shift (options : ParseOptions) (tokens : List Token) :
    Statement.read options (tokens.map (·.shift d)) =
      ⟨(Statement.read options tokens).items.map (·.shift d),
        (Statement.read options tokens).error.map (·.shift d)⟩ :=
  (Statement.shiftSymmetry d options).runFrom_eq none .between tokens

/-! ## Trees -/

/-- An arm with its opener and its body shifted. -/
def Arm.shift (a : Arm) : Arm :=
  ⟨a.opener.shift d, a.body.map (·.shift d)⟩

/-- An open block of the same sort, with all that was read of it shifted. -/
def OpenBlock.shift : OpenBlock → OpenBlock
  | .plain kind opener args body =>
      .plain kind (opener.shift d) (args.shift d) (body.map (·.shift d))
  | .arm earlier opener body =>
      .arm (earlier.map (·.shift d)) (opener.shift d) (body.map (·.shift d))
  | .alternative earlier last body =>
      .alternative (earlier.map (·.shift d)) (last.shift d) (body.map (·.shift d))

/-- Each of the open blocks shifted. -/
def OpenBlocks.shift (open_ : OpenBlocks) : OpenBlocks :=
  open_.map (·.shift d)

/-- What a step of the fold delivers and leaves open, shifted. -/
def shiftFolded : Option Node × OpenBlocks → Option Node × OpenBlocks :=
  Prod.map (Option.map (·.shift d)) (OpenBlocks.shift d)

theorem any_isUnresolved_shift (tokens : List Token) :
    (tokens.map (·.shift d)).any (·.isUnresolved) = tokens.any (·.isUnresolved) := by
  rw [List.any_map]
  rfl

theorem Arguments.ofCondition_shift (tokens : List Token) :
    Arguments.ofCondition (tokens.map (·.shift d)) = (Arguments.ofCondition tokens).shift d := by
  unfold ofCondition
  rw [any_isUnresolved_shift]
  split <;> rfl

theorem Arguments.ofSignature_shift (tokens : List Token) :
    Arguments.ofSignature (tokens.map (·.shift d)) =
      (Arguments.ofSignature tokens).map (·.shift d) := by
  cases tokens with
  | nil => rfl
  | cons name params =>
      have hfind : ((name :: params).map (·.shift d)).find? (!isIdentifier ·.value) =
          ((name :: params).find? (!isIdentifier ·.value)).map (·.shift d) := by
        rw [List.find?_map]
        rfl
      have hany := any_isUnresolved_shift d (name :: params)
      rw [List.map_cons] at hfind hany ⊢
      unfold ofSignature
      simp only [hany, hfind]
      split
      · rfl
      · cases (name :: params).find? (!isIdentifier ·.value) with
        | none =>
            simp only [Option.map_none, List.map_map]
            rfl
        | some bad => rfl

theorem interpret_shift (kind : BlockKind) (c : Command) :
    interpret kind (c.shift d) = ((interpret kind c).map (·.shift d)).mapError (·.shift d) := by
  cases kind with
  | macroDefinition =>
      simp only [interpret, Command.args_shift, Arguments.ofSignature_shift]
      cases Arguments.ofSignature c.args <;> rfl
  | functionDefinition =>
      simp only [interpret, Command.args_shift, Arguments.ofSignature_shift]
      cases Arguments.ofSignature c.args <;> rfl
  | whileLoop =>
      simp only [interpret, Command.args_shift, Arguments.ofCondition_shift]
      rfl
  | scope => rfl
  | forEach => rfl

theorem OpenBlock.levels_shift (b : OpenBlock) : (b.shift d).levels = b.levels := by
  cases b <;> simp [shift, levels]

theorem OpenBlocks.depth_shift (open_ : OpenBlocks) : (open_.shift d).depth = open_.depth := by
  induction open_ with
  | nil => rfl
  | cons b outer ih =>
      show (b.shift d).levels + (OpenBlocks.shift d outer).depth = _
      rw [OpenBlock.levels_shift, ih]
      rfl

theorem checkDepth_shift (limit : Option Nat) (c : Command) (open_ : OpenBlocks) :
    checkDepth limit (c.shift d) (open_.shift d) =
      (checkDepth limit c open_).mapError (·.shift d) := by
  unfold checkDepth
  cases limit with
  | none => rfl
  | some n =>
      simp only [OpenBlocks.depth_shift]
      split <;> rfl

theorem deliver_shift (n : Node) (open_ : OpenBlocks) :
    deliver (n.shift d) (open_.shift d) = shiftFolded d (deliver n open_) := by
  cases open_ with
  | nil => rfl
  | cons b outer => cases b <;> rfl

theorem Arm.node_shift (a : Arm) (stop : Span) (ifFalse : Option (List Node)) :
    (a.shift d).node (stop.shift d) (Node.shiftBranch d ifFalse) =
      (a.node stop ifFalse).shift d := by
  unfold node shift
  rw [Command.args_shift, Arguments.ofCondition_shift, ← Node.shiftList_eq_map]
  rfl

theorem Arm.before_shift (a : Arm) (next : Node) :
    (a.shift d).before (next.shift d) = (a.before next).shift d := by
  have hlast : (a.shift d).body.getLast? = a.body.getLast?.map (·.shift d) := List.getLast?_map
  unfold before
  rw [hlast]
  cases a.body.getLast? with
  | none => exact Arm.node_shift d a a.opener.location.span (some [next])
  | some last =>
      simp only [Option.map_some, Node.location_shift]
      exact Arm.node_shift d a last.location.span (some [next])

theorem Arm.chain_shift (earlier : List Arm) (last : Node) :
    Arm.chain (earlier.map (·.shift d)) (last.shift d) = (Arm.chain earlier last).shift d := by
  unfold chain
  induction earlier generalizing last with
  | nil => rfl
  | cons a earlier ih =>
      rw [List.map_cons, List.foldl_cons, List.foldl_cons, Arm.before_shift, ih]

/-- A step that only delivers a node. -/
theorem ok_deliver_shift (n : Node) (open_ : OpenBlocks) :
    Except.ok (deliver (n.shift d) (open_.shift d)) =
      ((Except.ok (deliver n open_)).map (shiftFolded d)).mapError (Fault.shift d) := by
  rw [deliver_shift]
  rfl

/-- A step that opens a level. -/
theorem opened_shift (limit : Option Nat) (c : Command) (open_ : OpenBlocks)
    (opened : Option Node × OpenBlocks) :
    (do checkDepth limit (c.shift d) (open_.shift d); return shiftFolded d opened) =
      ((do checkDepth limit c open_; return opened : Except Fault _).map
        (shiftFolded d)).mapError (Fault.shift d) := by
  rw [checkDepth_shift]
  cases checkDepth limit c open_ <;> rfl

theorem enter_shift (limit : Option Nat) (c : Command) (open_ : OpenBlocks) :
    enter limit (c.shift d) (open_.shift d) =
      ((enter limit c open_).map (shiftFolded d)).mapError (Fault.shift d) := by
  unfold enter
  rw [Command.name_shift]
  split
  · exact ok_deliver_shift d (.command c) open_
  · exact ok_deliver_shift d (.ret c.location c.args) open_
  · rename_i kind _
    have hempty : (c.shift d).args.isEmpty = c.args.isEmpty := List.isEmpty_map
    rw [hempty]
    split
    · exact ok_deliver_shift d (.jump kind c.location) open_
    · rfl
  · rename_i kind _
    rw [interpret_shift]
    cases interpret kind c with
    | error fault => rfl
    | ok args => exact opened_shift d limit c open_ (none, .plain kind c args [] :: open_)
  · exact opened_shift d limit c open_ (none, .arm [] c [] :: open_)

theorem close_shift (limit : Option Nat) (c : Command) (b : OpenBlock) (outer : OpenBlocks) :
    close limit (c.shift d) (b.shift d) (outer.shift d) =
      ((close limit c b outer).map (shiftFolded d)).mapError (Fault.shift d) := by
  cases b with
  | plain kind opener args body =>
      have hnode : Node.shift d (.block kind (opener.location.through c.location.span) args
          body.reverse) = .block kind ((opener.shift d).location.through (c.shift d).location.span)
            (args.shift d) (body.map (·.shift d)).reverse := by
        rw [← List.map_reverse, ← Node.shiftList_eq_map]
        rfl
      have h := ok_deliver_shift d (.block kind (opener.location.through c.location.span) args
        body.reverse) outer
      rw [hnode] at h
      exact h
  | alternative earlier last body =>
      have h := ok_deliver_shift d
        (Arm.chain earlier (last.node c.location.span (some body.reverse))) outer
      rw [← Arm.chain_shift, ← Arm.node_shift] at h
      show Except.ok (deliver (Arm.chain _ (Arm.node _ _ (some (body.map _).reverse))) _) = _
      rw [← List.map_reverse, ← Node.shiftList_eq_map]
      exact h
  | arm earlier opener body =>
      have hdone : Arm.shift d ⟨opener, body.reverse⟩ =
          ⟨opener.shift d, (body.map (·.shift d)).reverse⟩ := by
        rw [← List.map_reverse]
        rfl
      simp only [close, OpenBlock.shift]
      rw [Command.name_shift]
      split
      · rw [← hdone]
        exact opened_shift d limit c (.arm earlier opener body :: outer)
          (none, .arm (⟨opener, body.reverse⟩ :: earlier) c [] :: outer)
      · split
        · rw [← hdone]
          rfl
        · have h := ok_deliver_shift d
            (Arm.chain earlier (Arm.node ⟨opener, body.reverse⟩ c.location.span none)) outer
          rw [← Arm.chain_shift, ← Arm.node_shift, hdone] at h
          exact h

theorem ends_shift (c : Command) (b : OpenBlock) : ends (c.shift d) (b.shift d) = ends c b := by
  cases b <;> rfl

/-- Folding looks at names and arguments only. -/
def Node.shiftSymmetry (limit : Option Nat) : (Node.reader limit).Symmetry where
  stage := OpenBlocks.shift d
  input := Statement.shift d
  item := Node.shift d
  error := Fault.shift d
  step_eq open_ s := by
    show step limit (open_.shift d) (s.shift d) =
      ((step limit open_ s).map (shiftFolded d)).mapError (Fault.shift d)
    cases s with
    | comment c => exact ok_deliver_shift d (.comment c) open_
    | command c =>
        cases open_ with
        | nil => exact enter_shift d limit c []
        | cons b outer =>
            show (if ends (c.shift d) (b.shift d) then _ else _) = _
            rw [ends_shift]
            simp only [step]
            split
            · exact close_shift d limit c b outer
            · exact enter_shift d limit c (b :: outer)
  finish_eq open_ := by
    cases open_ with
    | nil => rfl
    | cons b outer => cases b <;> rfl

theorem Node.fold_shift (statements : Reading Statement Fault) :
    Node.fold ⟨statements.items.map (·.shift d), statements.error.map (·.shift d)⟩ =
      ⟨(Node.fold statements).items.map (·.shift d),
        (Node.fold statements).error.map (·.shift d)⟩ :=
  (Node.shiftSymmetry d (some Node.maxDepth)).runFrom_eq statements.error [] statements.items

/-! ## Faults in their source -/

theorem splitBytes_append (front cs : List Char) (n : Nat) :
    splitBytes (n + byteLength front) (front ++ cs) =
      (splitBytes n cs).map fun (before, after) => (front ++ before, after) := by
  induction front with
  | nil =>
      show splitBytes n cs = _
      cases splitBytes n cs <;> rfl
  | cons c front ih =>
      have hc := c.utf8Size_pos
      obtain ⟨m, hm⟩ : ∃ m, n + byteLength (c :: front) = m + 1 :=
        ⟨n + byteLength (c :: front) - 1, by simp only [byteLength]; omega⟩
      have hsum : n + (c.utf8Size + byteLength front) = m + 1 := hm
      have hcut : m + 1 - c.utf8Size = n + byteLength front := by omega
      rw [hm, List.cons_append, splitBytes, if_pos (by omega), hcut, ih, Option.map_map]
      rfl

/-- A shifted span cuts the same piece out of a longer text. -/
theorem Span.sliceChars_shift {front : List Char} (hd : d.bytes = byteLength front) (s : Span)
    (cs : List Char) : (s.shift d).sliceChars (front ++ cs) = s.sliceChars cs := by
  have hsize : (s.shift d).size = s.size := Nat.add_sub_add_right ..
  have hle : (s.shift d).start ≤ (s.shift d).stop ↔ s.start ≤ s.stop := Nat.add_le_add_iff_right
  have hsplit : splitBytes (s.shift d).start (front ++ cs) = _ :=
    hd ▸ splitBytes_append front cs s.start
  unfold sliceChars
  simp only [hle, hsize, hsplit]
  cases splitBytes s.start cs <;> rfl

theorem Fault.inSource_shift {front : String} (hd : d.bytes = front.utf8ByteSize) (f : Fault)
    (source : String) : (f.shift d).inSource (front ++ source) = (f.inSource source).shift d := by
  unfold inSource
  rw [String.toList_append]
  show ParseError.mk _ (String.ofList (firstLine ((f.location.span.shift d).sliceChars _))) = _
  rw [Span.sliceChars_shift d (hd.trans (byteLength_toList front).symm)]
  rfl

end Shifting

end Listfile
