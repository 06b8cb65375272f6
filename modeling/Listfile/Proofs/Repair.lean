import Mathlib.Logic.Function.Iterate
import Listfile.Proofs.BlockSteps
import Listfile.Proofs.Concatenation
import Listfile.Proofs.Placement

/-!
# Texts that end inside of blocks

When a text ends inside of blocks, the innermost one is to blame. Its last
terminator, put behind the text, closes it and nothing else, and then the block
around it is to blame.

* `EndsInside` — the blocks that are open at the end of a text;
* `EndsInside.start_lt` — they stand in the order in which they were opened;
* `EndsInside.repaired` — what one repair does to them;
* `EndsInside.iterate_repair` — as many repairs as there are blocks do it all;
* `parseTree_repair` — from the error of a tree to the tree of the repaired
  text.
-/

namespace Listfile

open Text OpenBlocks

/-! ## Errors about terminators -/

/-- The commands of which one is missing at the end of the input. -/
def FaultCause.expected? : FaultCause → Option (List String)
  | .missingTerminator expected => some expected
  | _ => none

section Causes

variable {options : ParseOptions} {fault : Fault}

/-- Reading statements knows nothing of terminators. -/
theorem Statement.expected?_of_read {ts : List Token}
    (h : (Statement.read options ts).error = some fault) : fault.cause.expected? = none := by
  rcases Reader.error_of_run h with ⟨p, t, -, hrefused⟩ | hcut | ⟨p, -, -, hfinish⟩
  · obtain ⟨cause, rfl, hcause⟩ := Statement.refusedFor_of_step hrefused
    cases hcause <;> rfl
  · cases hcut
  · cases p with
    | between => cases hfinish
    | named name =>
        cases hfinish
        rfl
    | arguments name depth taken =>
        cases hfinish
        rfl

/-- Nor is a statement refused for one. -/
theorem expected?_of_step {limit : Option Nat} {open_ : OpenBlocks} {s : Statement}
    (h : step limit open_ s = .error fault) : fault.cause.expected? = none := by
  obtain ⟨c, cause, -, rfl, hcause⟩ := refuses_of_step h
  cases hcause <;> rfl

end Causes

/-! ## The blocks that are open at the end -/

/-- The text is read to its end: it delivers the nodes `ns`, and the blocks
`open_` are still open. -/
structure EndsInside (options : ParseOptions) (source : String) (ns : List Node)
    (open_ : OpenBlocks) : Prop where
  error_eq : (Statement.read options (scan source)).error = none
  reaches : (Node.reader (some Node.maxDepth)).Reaches []
    (Statement.read options (scan source)).items ns open_

/-- The commands to blame for the open blocks, the outermost first. -/
def OpenBlocks.blamed (open_ : OpenBlocks) : List Statement :=
  (open_.map fun b => Statement.command b.blamed).reverse

theorem OpenBlocks.blamed_cons (b : OpenBlock) (outer : OpenBlocks) :
    OpenBlocks.blamed (b :: outer) = outer.blamed ++ [.command b.blamed] :=
  List.reverse_cons

/-- A node in the innermost body does not change who is to blame. -/
theorem OpenBlocks.blamed_deliver (n : Node) (open_ : OpenBlocks) :
    (deliver n open_).2.blamed = open_.blamed := by
  cases open_ with
  | nil => rfl
  | cons b outer => cases b <;> rfl

theorem OpenBlocks.length_deliver (n : Node) (open_ : OpenBlocks) :
    (deliver n open_).2.length = open_.length := by
  cases open_ <;> rfl

/-- The commands to blame are among those that were taken, in their order. -/
theorem Moves.blamed_sublist {s : Statement} {ss : List Statement} {open_ : OpenBlocks}
    {r : Option Node × OpenBlocks} (h : Moves s open_ r) (hss : open_.blamed.Sublist ss) :
    r.2.blamed.Sublist (ss ++ [s]) := by
  have hmore := hss.trans (List.sublist_append_left ss [s])
  cases h with
  | joins n =>
      rw [blamed_deliver]
      exact hmore
  | opens hs hopens =>
      subst hs
      cases hopens with
      | block =>
          rw [blamed_cons]
          exact hss.append (List.Sublist.refl _)
      | conditional =>
          rw [blamed_cons]
          exact hss.append (List.Sublist.refl _)
      | elseif =>
          -- The command takes the place of the opener of the arm before it.
          rw [blamed_cons] at hss ⊢
          exact ((List.sublist_append_left _ _).trans hss).append (List.Sublist.refl _)
  | alternative => exact hmore
  | closes n =>
      rw [blamed_deliver]
      rw [blamed_cons] at hmore
      exact (List.sublist_append_left _ _).trans hmore

theorem blamed_sublist_of_reaches {limit : Option Nat} {ss : List Statement} {ns : List Node}
    {open_ : OpenBlocks} (h : (Node.reader limit).Reaches [] ss ns open_) :
    open_.blamed.Sublist ss :=
  Reader.Reaches.invariant (P := fun ss _ open_ => open_.blamed.Sublist ss) (List.Sublist.refl _)
    (fun _ _ _ _ _ _ _ hss hstep => (moves_of_step hstep).blamed_sublist hss) h

namespace EndsInside

variable {options : ParseOptions} {source : String} {ns : List Node} {open_ outer : OpenBlocks}
  {b : OpenBlock} {word : String}

theorem parseTree_eq (h : EndsInside options source ns open_) :
    parseTree options source = ⟨ns, (finish open_).map (·.inSource source)⟩ := by
  unfold parseTree Node.fold Reader.run
  rw [Reader.runFrom_of_reaches _ h.reaches, h.error_eq]
  rfl

/-- A tree whose error is about terminators has been read to the end. -/
theorem of_error {e : ParseError} {expected : List String}
    (herror : (parseTree options source).error = some e)
    (hcause : e.cause = .missingTerminator expected) :
    ∃ b outer, EndsInside options source (parseTree options source).items (b :: outer) ∧
      e.fault = b.blamed.fault (.missingTerminator b.expected) := by
  obtain ⟨fault, hfault, rfl⟩ := Option.map_eq_some_iff.mp herror
  have hexpected : fault.cause.expected? = some expected :=
    congrArg FaultCause.expected? hcause
  rcases Reader.error_of_run hfault with
    ⟨open_, s, -, hrefused⟩ | hcut | ⟨open_, hok, hreach, hfinish⟩
  · rw [expected?_of_step hrefused] at hexpected
    cases hexpected
  · rw [Statement.expected?_of_read hcut] at hexpected
    cases hexpected
  · cases open_ with
    | nil => cases hfinish
    | cons b outer => exact ⟨b, outer, ⟨hok, hreach⟩, (Option.some.inj hfinish).symm⟩

/-- Outer blocks were opened before the innermost one. -/
theorem start_lt (h : EndsInside options source ns (b :: outer)) :
    ∀ b' ∈ outer, b'.blamed.location.span.start < b.blamed.location.span.start := by
  have hsublist := blamed_sublist_of_reaches h.reaches
  have hinOrder := items_inOrder options source
  have hpairwise := (List.pairwise_map.mp hinOrder.pairwise).sublist hsublist
  rw [blamed_cons] at hpairwise
  intro b' hb'
  have hmem : Statement.command b'.blamed ∈ outer.blamed :=
    List.mem_reverse.mpr (List.mem_map_of_mem hb')
  have hbefore := (List.pairwise_append.mp hpairwise).2.2 _ hmem _ List.mem_cons_self
  have hitem : Statement.command b'.blamed ∈ (Statement.read options (scan source)).items := by
    refine hsublist.subset ?_
    rw [blamed_cons]
    exact List.mem_append_left _ hmem
  have hne := (hinOrder.fits _ (List.mem_map_of_mem hitem)).nonempty
  exact Nat.lt_of_lt_of_le hne hbefore

/-- There are at most a hundred of them. -/
theorem length_le (h : EndsInside options source ns open_) : open_.length ≤ Node.maxDepth :=
  Nat.le_trans open_.length_le_depth (Folded.of_reaches h.reaches).depth_le

end EndsInside

/-! ## Repairs -/

/-- Every word that can end a body is read as a command by itself. -/
theorem read_closingWord (options : ParseOptions) : ∀ word ∈ closingWords,
    (∃ c, c.name = word ∧
      Statement.read options (scan (word ++ "()")) = ⟨[.command c], none⟩) ∧
    (word ++ "()").toList.head? ≠ some '\ufeff' := by
  obtain ⟨skip⟩ := options
  have hread : ∀ skip : Bool, ∀ word ∈ closingWords,
      (Statement.read ⟨skip⟩ (scan (word ++ "()"))).items =
        [.command ⟨⟨1, 1, ⟨0, word.utf8ByteSize + 2⟩⟩, word, []⟩] ∧
      (Statement.read ⟨skip⟩ (scan (word ++ "()"))).error = none ∧
      (word ++ "()").toList.head? ≠ some '\ufeff' := by decide +kernel
  intro word hword
  obtain ⟨hitems, herror, hmark⟩ := hread skip word hword
  refine ⟨⟨⟨⟨1, 1, ⟨0, word.utf8ByteSize + 2⟩⟩, word, []⟩, rfl, ?_⟩, hmark⟩
  rw [Reading.eq_of_error_eq_none herror, hitems]

theorem OpenBlock.exists_last (b : OpenBlock) : ∃ word, b.expected.getLast? = some word := by
  cases b <;> exact ⟨_, rfl⟩

/-- The last of the commands that a block expects closes it, a conditional with
all its arms. -/
theorem step_last {limit : Option Nat} {c : Command} {b : OpenBlock} {outer : OpenBlocks}
    {word : String} (hword : b.expected.getLast? = some word) (hc : c.IsCalled word) :
    ∃ n, step limit (b :: outer) (.command c) = .ok (deliver n outer) := by
  rw [step_of_stopWord (List.mem_of_getLast? hword) hc]
  cases b with
  | plain kind opener args body => exact ⟨_, rfl⟩
  | alternative earlier last body => exact ⟨_, rfl⟩
  | arm earlier opener body =>
      obtain rfl : "endif" = word := Option.some.inj hword
      exact ⟨_, close_endif hc⟩

/-- The text with one more command on a line of its own. -/
def withCommand (source word : String) : String :=
  source ++ "\n" ++ (word ++ "()")

/-- The text with the last terminator put behind it that is missing, if one
is. -/
def repair (options : ParseOptions) (source : String) : String :=
  match (parseTree options source).error.bind (·.cause.expected?.bind List.getLast?) with
  | some word => withCommand source word
  | none => source

namespace EndsInside

variable {options : ParseOptions} {source : String} {ns : List Node} {open_ outer : OpenBlocks}
  {b : OpenBlock} {word : String}

/-- A repair closes the innermost block. -/
theorem repaired (h : EndsInside options source ns (b :: outer))
    (hword : b.expected.getLast? = some word) :
    ∃ n, EndsInside options (withCommand source word) (ns ++ (deliver n outer).1.toList)
      (deliver n outer).2 := by
  obtain ⟨⟨c, rfl, hread⟩, hmark⟩ :=
    read_closingWord options word (b.expected_subset (List.mem_of_getLast? hword))
  have happend := read_scan_append h.error_eq hmark
  rw [hread] at happend
  have hcalled : (c.shift (.behind source)).IsCalled c.name := beq_self_eq_true _
  obtain ⟨n, hstep⟩ := step_last hword hcalled
  refine ⟨n, ⟨congrArg Reading.error happend, ?_⟩⟩
  have hitems := congrArg Reading.items happend
  unfold withCommand
  rw [hitems]
  exact h.reaches.trans (.single hstep)

theorem repair_eq (h : EndsInside options source ns (b :: outer))
    (hword : b.expected.getLast? = some word) :
    repair options source = withCommand source word := by
  have hlast : (parseTree options source).error.bind
      (·.cause.expected?.bind List.getLast?) = some word := by
    rw [h.parseTree_eq]
    exact hword
  unfold repair
  rw [hlast]

/-- One repair for each block that is open, and the text has a tree. -/
theorem iterate_repair (h : EndsInside options source ns open_) :
    (parseTree options ((repair options)^[open_.length] source)).error = none := by
  generalize hlength : open_.length = k
  induction k generalizing source ns open_ with
  | zero =>
      rw [List.length_eq_zero_iff.mp hlength] at h
      rw [Function.iterate_zero_apply, h.parseTree_eq]
      rfl
  | succ k ih =>
      cases open_ with
      | nil => cases hlength
      | cons b outer =>
          obtain ⟨word, hword⟩ := b.exists_last
          obtain ⟨n, hrepaired⟩ := h.repaired hword
          rw [Function.iterate_succ_apply, h.repair_eq hword]
          refine ih hrepaired ?_
          rw [length_deliver]
          exact Nat.succ.inj hlength

end EndsInside

/-- The innermost of the blocks that are open at the end is to blame, the last
one opened, and its last terminator closes it: behind the text with that
terminator there are the same nodes, and after them the node of the block and
no error, or a block that begins before is to blame. So at most a hundred
repairs make a text have a tree. -/
theorem parseTree_repair (options : ParseOptions) (source : String) (e : ParseError)
    (expected : List String) (herror : (parseTree options source).error = some e)
    (hcause : e.cause = .missingTerminator expected) :
    (∃ b outer, EndsInside options source (parseTree options source).items (b :: outer) ∧
      e.fault = b.blamed.fault (.missingTerminator b.expected) ∧
      ∀ b' ∈ outer, b'.blamed.location.span.start < e.location.span.start) ∧
    (∃ last, expected.getLast? = some last ∧
      ((∃ n, parseTree options (source ++ "\n" ++ (last ++ "()")) =
          ⟨(parseTree options source).items ++ [n], none⟩) ∨
        ∃ e' expected', parseTree options (source ++ "\n" ++ (last ++ "()")) =
          ⟨(parseTree options source).items, some e'⟩ ∧
          e'.cause = .missingTerminator expected' ∧
          e'.location.span.start < e.location.span.start)) ∧
    ∃ k ≤ Node.maxDepth, (parseTree options ((repair options)^[k] source)).error = none := by
  obtain ⟨b, outer, hends, hfault⟩ := EndsInside.of_error herror hcause
  have hlocation : e.location = b.blamed.location := congrArg Fault.location hfault
  have hbefore := hends.start_lt
  rw [← hlocation] at hbefore
  refine ⟨⟨b, outer, hends, hfault, hbefore⟩, ?_, _, hends.length_le, hends.iterate_repair⟩
  have hexpected : b.expected = expected := by
    have hcauses := (congrArg Fault.cause hfault).symm.trans hcause
    exact FaultCause.missingTerminator.inj hcauses
  obtain ⟨last, hlast⟩ := b.exists_last
  obtain ⟨n, hrepaired⟩ := hends.repaired hlast
  refine ⟨last, hexpected ▸ hlast, ?_⟩
  have htree := hrepaired.parseTree_eq
  cases outer with
  | nil => exact .inl ⟨n, htree⟩
  | cons b' outer =>
      have hstart := hbefore b' List.mem_cons_self
      refine .inr ⟨((b'.push n).blamed.fault (.missingTerminator (b'.push n).expected)).inSource
        (withCommand source last), (b'.push n).expected, ?_, rfl, ?_⟩
      · rw [deliver, Option.toList_none, List.append_nil] at htree
        exact htree
      · have hblamed : (b'.push n).blamed = b'.blamed := by cases b' <;> rfl
        show (b'.push n).blamed.location.span.start < _
        rw [hblamed]
        exact hstart

/-- Behind the third arm of a conditional in a loop, `endif` closes all of
them. -/
theorem parseTree_repair_of_elseif :
    let source := "while(A)\nif(B)\nelseif(C)\nelse()\nx()"
    let e : ParseError := ⟨⟨.missingTerminator ["endif"], ⟨3, 1, ⟨15, 24⟩⟩⟩, "elseif(C)"⟩
    (parseTree ⟨false⟩ source).error = some e ∧
      ∃ k ≤ Node.maxDepth, (parseTree ⟨false⟩ ((repair ⟨false⟩)^[k] source)).error = none := by
  intro source e
  have herror : (parseTree ⟨false⟩ source).error = some e := by decide +kernel
  exact ⟨herror, (parseTree_repair _ _ e ["endif"] herror rfl).2.2⟩

end Listfile
