import Listfile.Parse
import Listfile.Proofs.BlockGrammar
import Listfile.Proofs.ReaderRuns

/-!
# Folding statements is recognising the grammar of blocks

* `Forest.reaches`, `Arms.reaches` — the machine takes whatever is derived and
  puts its nodes where they belong;
* `Folded` — the invariant of a run: the statements taken so far are derived,
  up to the blocks that are open;
* `reaches_nil_iff` — the machine comes back to where no block is open exactly
  on the forests;
* `parseTree_grammar` — a tree is delivered exactly when it is derived.
-/

namespace Listfile

open Text OpenBlocks

/-! ## Words -/

theorem Command.IsCalled.lower_eq {c : Command} {word : String} (h : c.IsCalled word) :
    lower c.name = lower word :=
  eq_of_beq h

/-- A command does not go by two different words. -/
theorem Command.IsCalled.not_of_ne {c : Command} {word other : String} (h : c.IsCalled word)
    (hne : lower word ≠ lower other) : ¬ c.IsCalled other :=
  fun hother => hne (h.lower_eq.symm.trans hother.lower_eq)

/-- The word of a keyword. -/
def Keyword.word : Keyword → String
  | .block kind => kind.keyword
  | .conditional => "if"
  | .jump kind => kind.keyword
  | .ret => "return"

/-- The table of keywords lists every keyword once, under its word. -/
theorem Keyword.mem_all (k : Keyword) : (k.word, k) ∈ Keyword.all := by
  cases k with
  | block kind => cases kind <;> decide
  | conditional => decide
  | jump kind => cases kind <;> decide
  | ret => decide

theorem Keyword.eq_of_mem_all : ∀ p ∈ Keyword.all, ∀ q ∈ Keyword.all,
    lower p.1 = lower q.1 → p = q := by decide

/-- A name stands for the keyword by whose word it goes. -/
theorem Keyword.ofName?_of_isCalled {c : Command} {k : Keyword} (h : c.IsCalled k.word) :
    Keyword.ofName? c.name = some k := by
  show (Keyword.all.find? fun p => sameWord c.name p.1).map (·.2) = some k
  cases hfind : Keyword.all.find? fun p => sameWord c.name p.1 with
  | none =>
      -- The entry of `k` itself would have been found.
      have hnone := List.find?_eq_none.mp hfind _ k.mem_all
      exact absurd h hnone
  | some p =>
      obtain ⟨word, k'⟩ := p
      have hword := List.find?_some hfind
      have hword : c.IsCalled word := hword
      -- Both words are in the table and say the same, so it is one entry.
      have hp := Keyword.eq_of_mem_all (word, k') (List.mem_of_find?_eq_some hfind) (k.word, k)
        k.mem_all (hword.lower_eq.symm.trans h.lower_eq)
      rw [hp]
      rfl

theorem Keyword.isCalled_of_ofName? {c : Command} {k : Keyword}
    (h : Keyword.ofName? c.name = some k) : c.IsCalled k.word := by
  unfold Keyword.ofName? at h
  obtain ⟨⟨word, k'⟩, hfind, rfl⟩ := Option.map_eq_some_iff.mp h
  have hword := List.find?_some hfind
  have hword : c.IsCalled word := hword
  have hall : ∀ p ∈ Keyword.all, p.2.word = p.1 := by decide
  show c.IsCalled (word, k').2.word
  rw [hall (word, k') (List.mem_of_find?_eq_some hfind)]
  exact hword

/-- A name stands for no keyword if it is none of the words. -/
theorem Keyword.ofName?_eq_none_iff {c : Command} :
    Keyword.ofName? c.name = none ↔ ∀ word ∈ structureWords, ¬ c.IsCalled word := by
  have hwords : structureWords = Keyword.all.map Prod.fst := rfl
  unfold Keyword.ofName?
  rw [Option.map_eq_none_iff, List.find?_eq_none, hwords]
  simp only [List.forall_mem_map]

/-- The words that can end a body. -/
def closingWords : List String :=
  ["endmacro", "endfunction", "endblock", "endforeach", "endwhile", "else", "elseif", "endif"]

theorem OpenBlock.expected_subset (b : OpenBlock) : b.expected ⊆ closingWords := by
  cases b with
  | plain kind _ _ _ =>
      show [kind.terminator] ⊆ closingWords
      cases kind <;> decide
  | arm _ _ _ =>
      show ["else", "elseif", "endif"] ⊆ closingWords
      decide
  | alternative _ _ _ =>
      show ["endif"] ⊆ closingWords
      decide

/-- Commands of structure never end a body. -/
theorem not_isCalled_expected {c : Command} {k : Keyword} (h : c.IsCalled k.word) (b : OpenBlock) :
    ∀ word ∈ b.expected, ¬ c.IsCalled word := by
  have hwords : ∀ p ∈ Keyword.all, ∀ word ∈ closingWords, lower p.1 ≠ lower word := by decide
  intro word hword
  exact h.not_of_ne (hwords _ k.mem_all word (b.expected_subset hword))

/-! ## The machine takes what is derived -/

/-- The words that end the innermost body; none do outside of all blocks. -/
def stopWords : OpenBlocks → List String
  | [] => []
  | b :: _ => b.expected

/-- A command ends the innermost body exactly if it goes by a stop word. -/
theorem ends_iff {c : Command} {b : OpenBlock} :
    ends c b = true ↔ ∃ word ∈ b.expected, c.IsCalled word :=
  List.any_eq_true

/-- A command that goes by no stop word is entered. -/
theorem step_of_not_stopWord {limit : Option Nat} {c : Command} {open_ : OpenBlocks}
    (h : ∀ word ∈ stopWords open_, ¬ c.IsCalled word) :
    step limit open_ (.command c) = enter limit c open_ := by
  cases open_ with
  | nil => rfl
  | cons b outer =>
      have hends : ¬ ends c b = true := by
        rintro hends
        obtain ⟨word, hword, hcalled⟩ := ends_iff.mp hends
        exact h word hword hcalled
      exact if_neg hends

theorem step_of_stopWord {limit : Option Nat} {c : Command} {b : OpenBlock} {outer : OpenBlocks}
    {word : String} (hword : word ∈ b.expected) (h : c.IsCalled word) :
    step limit (b :: outer) (.command c) = close limit c b outer :=
  if_pos (ends_iff.mpr ⟨word, hword, h⟩)

/-- A keyword is entered. -/
theorem step_of_keyword {limit : Option Nat} {c : Command} {k : Keyword} (h : c.IsCalled k.word)
    (open_ : OpenBlocks) : step limit open_ (.command c) = enter limit c open_ := by
  refine step_of_not_stopWord ?_
  cases open_ with
  | nil => simp [stopWords]
  | cons b outer => exact not_isCalled_expected h b

/-- There is room for more levels inside the open blocks. -/
def HasRoom (limit : Option Nat) (open_ : OpenBlocks) (levels : Nat) : Prop :=
  ∀ n, limit = some n → open_.depth + levels ≤ n

theorem HasRoom.checkDepth {limit : Option Nat} {open_ : OpenBlocks} {levels : Nat}
    (h : HasRoom limit open_ (levels + 1)) (opener : Command) :
    checkDepth limit opener open_ = .ok () := by
  unfold OpenBlocks.checkDepth
  cases limit with
  | none => rfl
  | some n =>
      have hn := h n rfl
      exact if_neg (by omega)

/-- The block with more nodes in its body. -/
def OpenBlock.pushAll (ns : List Node) : OpenBlock → OpenBlock
  | .plain kind opener args body => .plain kind opener args (ns.reverse ++ body)
  | .arm earlier opener body => .arm earlier opener (ns.reverse ++ body)
  | .alternative earlier last body => .alternative earlier last (ns.reverse ++ body)

theorem OpenBlock.pushAll_nil (b : OpenBlock) : b.pushAll [] = b := by
  cases b <;> rfl

theorem OpenBlock.pushAll_cons (n : Node) (ns : List Node) (b : OpenBlock) :
    b.pushAll (n :: ns) = (b.push n).pushAll ns := by
  cases b <;> simp only [pushAll, push, List.reverse_cons, List.append_assoc, List.cons_append,
    List.nil_append]

/-- Puts complete nodes where they belong, one after the other. -/
def deliverAll (ns : List Node) : OpenBlocks → List Node × OpenBlocks
  | [] => (ns, [])
  | b :: outer => ([], b.pushAll ns :: outer)

theorem deliverAll_nil (open_ : OpenBlocks) : deliverAll [] open_ = ([], open_) := by
  cases open_ with
  | nil => rfl
  | cons b outer => rw [deliverAll, b.pushAll_nil]

theorem deliverAll_cons (n : Node) (ns : List Node) (open_ : OpenBlocks) :
    deliverAll (n :: ns) open_ =
      ((deliver n open_).1.toList ++ (deliverAll ns (deliver n open_).2).1,
        (deliverAll ns (deliver n open_).2).2) := by
  cases open_ with
  | nil => rfl
  | cons b outer => rw [deliverAll, b.pushAll_cons, deliver, deliverAll, Option.toList_none,
      List.append_nil]

/-- The inputs before a node and those after it, put together. -/
theorem reaches_deliverAll_cons {limit : Option Nat} {open_ : OpenBlocks} {ss us : List Statement}
    {n : Node} {ns : List Node}
    (hfirst : (Node.reader limit).Reaches open_ ss (deliver n open_).1.toList (deliver n open_).2)
    (hrest : (Node.reader limit).Reaches (deliver n open_).2 us
      (deliverAll ns (deliver n open_).2).1 (deliverAll ns (deliver n open_).2).2) :
    (Node.reader limit).Reaches open_ (ss ++ us) (deliverAll (n :: ns) open_).1
      (deliverAll (n :: ns) open_).2 := by
  rw [deliverAll_cons]
  exact hfirst.trans hrest

/-- A statement that delivers a node, and the inputs after it. -/
theorem reaches_deliverAll_step {limit : Option Nat} {open_ : OpenBlocks} {s : Statement}
    {ss : List Statement} {n : Node} {ns : List Node}
    (hstep : step limit open_ s = .ok (deliver n open_))
    (hrest : (Node.reader limit).Reaches (deliver n open_).2 ss
      (deliverAll ns (deliver n open_).2).1 (deliverAll ns (deliver n open_).2).2) :
    (Node.reader limit).Reaches open_ (s :: ss) (deliverAll (n :: ns) open_).1
      (deliverAll (n :: ns) open_).2 :=
  reaches_deliverAll_cons (.single hstep) hrest

/-- Delivering a node changes neither what ends the innermost body nor how deep
it is. -/
theorem stopWords_deliver (n : Node) (open_ : OpenBlocks) :
    stopWords (deliver n open_).2 = stopWords open_ := by
  cases open_ with
  | nil => rfl
  | cons b outer => cases b <;> rfl

theorem depth_deliver (n : Node) (open_ : OpenBlocks) :
    (deliver n open_).2.depth = open_.depth := by
  cases open_ with
  | nil => rfl
  | cons b outer => cases b <;> rfl

theorem HasRoom.deliver {limit : Option Nat} {open_ : OpenBlocks} {levels : Nat}
    (h : HasRoom limit open_ levels) (n : Node) :
    HasRoom limit (OpenBlocks.deliver n open_).2 levels := by
  intro k hk
  rw [depth_deliver]
  exact h k hk

/-- Opening a block takes one level of the room. -/
theorem HasRoom.inside {limit : Option Nat} {open_ : OpenBlocks} {levels : Nat} {b : OpenBlock}
    (h : HasRoom limit open_ (levels + 1)) (hb : b.levels = 1) :
    HasRoom limit (b :: open_) levels := by
  intro n hn
  have hle := h n hn
  show b.levels + open_.depth + levels ≤ n
  omega

/-! ### What single commands do -/

section Entering

variable {limit : Option Nat} {c : Command} {open_ : OpenBlocks}

theorem enter_plain (h : Keyword.ofName? c.name = none) :
    enter limit c open_ = .ok (deliver (.command c) open_) := by
  unfold enter
  rw [h]

theorem enter_ret (h : c.IsCalled "return") :
    enter limit c open_ = .ok (deliver (.ret c.location c.args) open_) := by
  unfold enter
  rw [Keyword.ofName?_of_isCalled (k := .ret) h]

theorem enter_jump {kind : JumpKind} (h : c.IsCalled kind.keyword) (hargs : c.args = []) :
    enter limit c open_ = .ok (deliver (.jump kind c.location) open_) := by
  unfold enter
  rw [Keyword.ofName?_of_isCalled (k := .jump kind) h, hargs]
  rfl

theorem enter_block {kind : BlockKind} {args : Arguments} {levels : Nat}
    (h : c.IsCalled kind.keyword) (hargs : interpret kind c = .ok args)
    (hroom : HasRoom limit open_ (levels + 1)) :
    enter limit c open_ = .ok (none, .plain kind c args [] :: open_) := by
  unfold enter
  rw [Keyword.ofName?_of_isCalled (k := .block kind) h]
  show (do
    let args ← interpret kind c
    checkDepth limit c open_
    return (none, OpenBlock.plain kind c args [] :: open_)) = _
  rw [hargs, hroom.checkDepth c]
  rfl

theorem enter_conditional {levels : Nat} (h : c.IsCalled "if")
    (hroom : HasRoom limit open_ (levels + 1)) :
    enter limit c open_ = .ok (none, .arm [] c [] :: open_) := by
  unfold enter
  rw [Keyword.ofName?_of_isCalled (k := .conditional) h]
  show (do
    checkDepth limit c open_
    return (none, OpenBlock.arm [] c [] :: open_)) = _
  rw [hroom.checkDepth c]
  rfl

end Entering

section Closing

variable {limit : Option Nat} {c opener : Command} {body : List Node} {earlier : List Arm}
  {outer : OpenBlocks}

theorem close_elseif (h : c.IsCalled "elseif")
    (hdepth : checkDepth limit c (.arm earlier opener body :: outer) = .ok ()) :
    close limit c (.arm earlier opener body) outer =
      .ok (none, .arm (⟨opener, body.reverse⟩ :: earlier) c [] :: outer) := by
  simp only [close]
  rw [if_pos h, hdepth]
  rfl

theorem close_else (h : c.IsCalled "else") :
    close limit c (.arm earlier opener body) outer =
      .ok (none, .alternative earlier ⟨opener, body.reverse⟩ [] :: outer) := by
  have helseif : ¬ c.IsCalled "elseif" := h.not_of_ne (by decide)
  simp only [close]
  rw [if_neg helseif, if_pos h]

theorem close_endif (h : c.IsCalled "endif") :
    close limit c (.arm earlier opener body) outer =
      .ok (deliver (Arm.chain earlier (Arm.node ⟨opener, body.reverse⟩ c.location.span none))
        outer) := by
  have helseif : ¬ c.IsCalled "elseif" := h.not_of_ne (by decide)
  have helse : ¬ c.IsCalled "else" := h.not_of_ne (by decide)
  simp only [close]
  rw [if_neg helseif, if_neg helse]

end Closing

/-! ### Runs over derivations -/

section Runs

variable {limit : Option Nat} {open_ outer : OpenBlocks} {opener closer next : Command}
  {inner inner' : List Statement} {body body' : List Node} {earlier : List Arm}

/-- A block is taken from its opener to its terminator. -/
theorem reaches_block {kind : BlockKind} {args : Arguments}
    (hopen : step limit open_ (.command opener) =
      .ok (none, .plain kind opener args [] :: open_))
    (hinside : (Node.reader limit).Reaches (.plain kind opener args [] :: open_) inner []
      (.plain kind opener args (body.reverse ++ []) :: open_))
    (hcloser : closer.IsCalled kind.terminator) :
    (Node.reader limit).Reaches open_ (.command opener :: (inner ++ [.command closer]))
      (deliver (.block kind (opener.location.through closer.location.span) args body)
        open_).1.toList
      (deliver (.block kind (opener.location.through closer.location.span) args body)
        open_).2 := by
  have hclose : step limit (.plain kind opener args (body.reverse ++ []) :: open_)
      (.command closer) = .ok (deliver (.block kind
        (opener.location.through closer.location.span) args body) open_) := by
    rw [step_of_stopWord List.mem_cons_self hcloser, List.append_nil]
    show Except.ok (deliver (.block _ _ _ body.reverse.reverse) open_) = _
    rw [List.reverse_reverse]
  exact .silent hopen (hinside.trans (.single hclose))

/-- The last arm of a conditional is taken up to `endif`. -/
theorem reaches_endif
    (hinside : (Node.reader limit).Reaches (.arm earlier opener [] :: outer) inner []
      (.arm earlier opener (body.reverse ++ []) :: outer))
    (hcloser : closer.IsCalled "endif") :
    (Node.reader limit).Reaches (.arm earlier opener [] :: outer) (inner ++ [.command closer])
      (deliver (Arm.chain earlier (Arm.node ⟨opener, body⟩ closer.location.span none))
        outer).1.toList
      (deliver (Arm.chain earlier (Arm.node ⟨opener, body⟩ closer.location.span none))
        outer).2 := by
  have hclose : step limit (.arm earlier opener (body.reverse ++ []) :: outer)
      (.command closer) = .ok (deliver (Arm.chain earlier
        (Arm.node ⟨opener, body⟩ closer.location.span none)) outer) := by
    rw [step_of_stopWord (List.mem_of_getLast? rfl) hcloser, close_endif hcloser,
      List.append_nil, List.reverse_reverse]
  exact hinside.trans (.single hclose)

/-- A conditional with an alternative is taken through `else` to `endif`. -/
theorem reaches_otherwise
    (hinside : (Node.reader limit).Reaches (.arm earlier opener [] :: outer) inner []
      (.arm earlier opener (body.reverse ++ []) :: outer))
    (hnext : next.IsCalled "else")
    (hinside' : (Node.reader limit).Reaches (.alternative earlier ⟨opener, body⟩ [] :: outer)
      inner' [] (.alternative earlier ⟨opener, body⟩ (body'.reverse ++ []) :: outer))
    (hcloser : closer.IsCalled "endif") :
    (Node.reader limit).Reaches (.arm earlier opener [] :: outer)
      (inner ++ .command next :: (inner' ++ [.command closer]))
      (deliver (Arm.chain earlier (Arm.node ⟨opener, body⟩ closer.location.span (some body')))
        outer).1.toList
      (deliver (Arm.chain earlier (Arm.node ⟨opener, body⟩ closer.location.span (some body')))
        outer).2 := by
  have hturn : step limit (.arm earlier opener (body.reverse ++ []) :: outer) (.command next) =
      .ok (none, .alternative earlier ⟨opener, body⟩ [] :: outer) := by
    rw [step_of_stopWord List.mem_cons_self hnext, close_else hnext, List.append_nil,
      List.reverse_reverse]
  have hclose : step limit (.alternative earlier ⟨opener, body⟩ (body'.reverse ++ []) :: outer)
      (.command closer) = .ok (deliver (Arm.chain earlier
        (Arm.node ⟨opener, body⟩ closer.location.span (some body'))) outer) := by
    rw [step_of_stopWord List.mem_cons_self hcloser, List.append_nil]
    show Except.ok (deliver (Arm.chain _ (Arm.node _ _ (some body'.reverse.reverse))) outer) = _
    rw [List.reverse_reverse]
  exact hinside.trans (.silent hturn (hinside'.trans (.single hclose)))

/-- An arm is taken up to `elseif`, which opens the next one. -/
theorem reaches_elseif {bs : List Node} {after : OpenBlocks}
    (hinside : (Node.reader limit).Reaches (.arm earlier opener [] :: outer) inner []
      (.arm earlier opener (body.reverse ++ []) :: outer))
    (hnext : next.IsCalled "elseif")
    (hdepth : checkDepth limit next (.arm earlier opener (body.reverse ++ []) :: outer) = .ok ())
    (hinside' : (Node.reader limit).Reaches (.arm (⟨opener, body⟩ :: earlier) next [] :: outer)
      inner' bs after) :
    (Node.reader limit).Reaches (.arm earlier opener [] :: outer)
      (inner ++ .command next :: inner') bs after := by
  have hturn : step limit (.arm earlier opener (body.reverse ++ []) :: outer) (.command next) =
      .ok (none, .arm (⟨opener, body⟩ :: earlier) next [] :: outer) := by
    rw [step_of_stopWord (List.mem_cons_of_mem _ List.mem_cons_self) hnext,
      close_elseif hnext hdepth, List.append_nil, List.reverse_reverse]
  exact hinside.trans (.silent hturn hinside')

end Runs

mutual

/-- The machine takes the statements of a forest and puts its nodes where they
belong. -/
theorem Forest.reaches {limit : Option Nat} : ∀ {levels : Nat} {stops : List String}
    {ss : List Statement} {ns : List Node}, Forest levels stops ss ns → ∀ open_ : OpenBlocks,
      stopWords open_ = stops → HasRoom limit open_ levels →
        (Node.reader limit).Reaches open_ ss (deliverAll ns open_).1 (deliverAll ns open_).2
  | _, _, _, _, .nil, open_, _, _ => by
      rw [deliverAll_nil]
      exact .refl open_
  | _, _, _, _, .comment hrest, open_, hstops, hroom =>
      reaches_deliverAll_step rfl
        (hrest.reaches _ ((stopWords_deliver _ open_).trans hstops) (hroom.deliver _))
  | _, _, _, _, .command hname hrest, open_, hstops, hroom => by
      refine reaches_deliverAll_step ?_
        (hrest.reaches _ ((stopWords_deliver _ open_).trans hstops) (hroom.deliver _))
      rw [step_of_not_stopWord fun word hword =>
        hname word (List.mem_append_left _ (hstops ▸ hword))]
      exact enter_plain (Keyword.ofName?_eq_none_iff.mpr fun word hword =>
        hname word (List.mem_append_right _ hword))
  | _, _, _, _, @Forest.jump _ _ kind _ _ _ hname hargs hrest, open_, hstops, hroom => by
      refine reaches_deliverAll_step ?_
        (hrest.reaches _ ((stopWords_deliver _ open_).trans hstops) (hroom.deliver _))
      rw [step_of_keyword (k := .jump kind) hname]
      exact enter_jump hname hargs
  | _, _, _, _, .ret hname hrest, open_, hstops, hroom => by
      refine reaches_deliverAll_step ?_
        (hrest.reaches _ ((stopWords_deliver _ open_).trans hstops) (hroom.deliver _))
      rw [step_of_keyword (k := .ret) hname]
      exact enter_ret hname
  | _, _, _, _, @Forest.block _ _ kind opener closer args _ ss _ _ hname hargs hbody hcloser hrest,
      open_, hstops, hroom => by
      have hopen : step limit open_ (.command opener) =
          .ok (none, .plain kind opener args [] :: open_) := by
        rw [step_of_keyword (k := .block kind) hname]
        exact enter_block hname hargs hroom
      have hinside := hbody.reaches (.plain kind opener args [] :: open_) rfl (hroom.inside rfl)
      -- The body is read with the block on top; then the rest follows below.
      have hall := reaches_deliverAll_cons (reaches_block hopen hinside hcloser)
        (hrest.reaches _ ((stopWords_deliver _ open_).trans hstops) (hroom.deliver _))
      rw [List.cons_append, List.append_assoc] at hall
      exact hall
  | _, _, _, _, @Forest.conditional _ _ opener inner _ _ _ hname harms hrest, open_, hstops,
      hroom => by
      have hopen : step limit open_ (.command opener) = .ok (none, .arm [] opener [] :: open_) := by
        rw [step_of_keyword (k := .conditional) hname]
        exact enter_conditional hname hroom
      have hinside := harms.reaches [] open_ (hroom.inside rfl)
      have hfirst : (Node.reader limit).Reaches open_ (.command opener :: inner) _ _ :=
        .silent hopen hinside
      exact reaches_deliverAll_cons hfirst
        (hrest.reaches _ ((stopWords_deliver _ open_).trans hstops) (hroom.deliver _))

/-- The machine takes the statements of a conditional and delivers it, with the
arms before it around it. -/
theorem Arms.reaches {limit : Option Nat} : ∀ {levels : Nat} {opener : Command}
    {ss : List Statement} {node : Node}, Arms levels opener ss node →
      ∀ (earlier : List Arm) (outer : OpenBlocks),
        HasRoom limit (.arm earlier opener [] :: outer) levels →
          (Node.reader limit).Reaches (.arm earlier opener [] :: outer) ss
            (deliver (Arm.chain earlier node) outer).1.toList
            (deliver (Arm.chain earlier node) outer).2
  | _, opener, _, _, .endif hbody hcloser, earlier, outer, hroom =>
      reaches_endif (hbody.reaches (.arm earlier opener [] :: outer) rfl hroom) hcloser
  | _, opener, _, _, @Arms.otherwise _ _ _ _ _ _ body _ hbody hnext hbody' hcloser,
      earlier, outer, hroom =>
      reaches_otherwise (hbody.reaches (.arm earlier opener [] :: outer) rfl hroom) hnext
        (hbody'.reaches (.alternative earlier ⟨opener, body⟩ [] :: outer) rfl hroom) hcloser
  | _, opener, _, _, @Arms.elseif _ _ next _ _ body _ hbody hnext harms, earlier, outer, hroom => by
      have hinside := hbody.reaches (.arm earlier opener [] :: outer) rfl hroom
      refine reaches_elseif hinside hnext (HasRoom.checkDepth hroom next) ?_
      -- The arm that is complete takes the level that the `elseif` adds.
      refine harms.reaches (⟨opener, body⟩ :: earlier) outer fun n hn => ?_
      have hle := hroom n hn
      simp only [depth, OpenBlock.levels, List.length_cons] at hle ⊢
      omega

end

/-! ## What the machine takes is derived -/

/-- `Folded limit open_ ss ns`: the statements `ss` are derived, as far as they
go, by the delivered nodes `ns` and by the bodies of the open blocks. An open
arm comes with a way to complete the conditional around it: whatever goes on
with the arm goes on with the first one. -/
inductive Folded (limit : Nat) : OpenBlocks → List Statement → List Node → Prop
  | top {ss : List Statement} {ns : List Node} (h : Forest limit [] ss ns) : Folded limit [] ss ns
  | plain {outer : OpenBlocks} {ss inner : List Statement} {ns body : List Node}
      {kind : BlockKind} {opener : Command} {args : Arguments} {levels : Nat}
      (houter : Folded limit outer ss ns) (hlevels : outer.depth + (levels + 1) = limit)
      (hname : opener.IsCalled kind.keyword) (hargs : interpret kind opener = .ok args)
      (hbody : Forest levels [kind.terminator] inner body.reverse) :
      Folded limit (.plain kind opener args body :: outer) (ss ++ .command opener :: inner) ns
  | arm {outer : OpenBlocks} {ss before inner : List Statement} {ns body : List Node}
      {first opener : Command} {earlier : List Arm} {levels : Nat}
      (houter : Folded limit outer ss ns)
      (hlevels : outer.depth + (levels + earlier.length + 1) = limit)
      (hname : first.IsCalled "if")
      (hchain : ∀ tail node, Arms levels opener tail node →
        Arms (levels + earlier.length) first (before ++ tail) (Arm.chain earlier node))
      (hbody : Forest levels ["else", "elseif", "endif"] inner body.reverse) :
      Folded limit (.arm earlier opener body :: outer)
        (ss ++ .command first :: (before ++ inner)) ns
  | alternative {outer : OpenBlocks} {ss before inner inner' : List Statement}
      {ns body : List Node} {first next : Command} {earlier : List Arm} {last : Arm}
      {levels : Nat} (houter : Folded limit outer ss ns)
      (hlevels : outer.depth + (levels + earlier.length + 1) = limit)
      (hname : first.IsCalled "if")
      (hchain : ∀ tail node, Arms levels last.opener tail node →
        Arms (levels + earlier.length) first (before ++ tail) (Arm.chain earlier node))
      (hlast : Forest levels ["else", "elseif", "endif"] inner last.body)
      (hnext : next.IsCalled "else") (hbody : Forest levels ["endif"] inner' body.reverse) :
      Folded limit (.alternative earlier last body :: outer)
        (ss ++ .command first :: (before ++ (inner ++ .command next :: inner'))) ns

namespace Folded

variable {limit : Nat} {open_ open' outer : OpenBlocks} {ss us : List Statement} {ns : List Node}
  {n : Node} {c : Command} {b : OpenBlock} {delivered : Option Node}

/-- Statements that derive a node of the innermost body go to that body. -/
theorem deliver (h : Folded limit open_ ss ns)
    (hdeliver : OpenBlocks.deliver n open_ = (delivered, open'))
    (hnode : ∀ levels, open_.depth + levels = limit → Forest levels (stopWords open_) us [n]) :
    Folded limit open' (ss ++ us) (ns ++ delivered.toList) := by
  obtain ⟨rfl, rfl⟩ := Prod.ext_iff.mp hdeliver
  cases h with
  | top h => exact .top (h.append (hnode limit (Nat.zero_add limit)))
  | plain houter hlevels hname hargs hbody =>
      have hmore := hbody.append (hnode _ (by simp only [depth, OpenBlock.levels]; omega))
      rw [← List.reverse_cons] at hmore
      rw [List.append_assoc, List.cons_append]
      show Folded limit _ _ (ns ++ [])
      rw [List.append_nil]
      exact .plain houter hlevels hname hargs hmore
  | arm houter hlevels hname hchain hbody =>
      have hmore := hbody.append (hnode _ (by simp only [depth, OpenBlock.levels]; omega))
      rw [← List.reverse_cons] at hmore
      rw [List.append_assoc, List.cons_append, List.append_assoc]
      show Folded limit _ _ (ns ++ [])
      rw [List.append_nil]
      exact .arm houter hlevels hname hchain hmore
  | alternative houter hlevels hname hchain hlast hnext hbody =>
      have hmore := hbody.append (hnode _ (by simp only [depth, OpenBlock.levels]; omega))
      rw [← List.reverse_cons] at hmore
      rw [List.append_assoc, List.cons_append, List.append_assoc, List.append_assoc,
        List.cons_append]
      show Folded limit _ _ (ns ++ [])
      rw [List.append_nil]
      exact .alternative houter hlevels hname hchain hlast hnext hmore

/-- A level is opened only while there is room for one. -/
theorem room_of_checkDepth (opened : Option Node × OpenBlocks) {r : Option Node × OpenBlocks}
    (h : (do checkDepth (some limit) c open_; return opened) = Except.ok r) :
    ∃ levels, open_.depth + (levels + 1) = limit ∧ opened = r := by
  by_cases hle : limit ≤ open_.depth
  · have hdepth : checkDepth (some limit) c open_ = .error (c.fault (.nestingTooDeep limit)) :=
      if_pos hle
    rw [hdepth] at h
    exact absurd h (by simp [bind, Except.bind])
  · have hdepth : checkDepth (some limit) c open_ = .ok () := if_neg hle
    rw [hdepth] at h
    exact ⟨limit - open_.depth - 1, by omega, Except.ok.inj h⟩

/-- A command that opens something or stands for itself. -/
theorem enter (h : Folded limit open_ ss ns)
    (hstops : ∀ word ∈ stopWords open_, ¬ c.IsCalled word)
    (hstep : OpenBlocks.enter (some limit) c open_ = .ok (delivered, open')) :
    Folded limit open' (ss ++ [.command c]) (ns ++ delivered.toList) := by
  unfold OpenBlocks.enter at hstep
  split at hstep
  · rename_i hnone
    refine h.deliver (Except.ok.inj hstep) fun levels _ => .command (fun word hword => ?_) .nil
    rcases List.mem_append.mp hword with hword | hword
    · exact hstops word hword
    · exact Keyword.ofName?_eq_none_iff.mp hnone word hword
  · rename_i hret
    have hname : c.IsCalled "return" := Keyword.isCalled_of_ofName? (k := .ret) hret
    refine h.deliver (Except.ok.inj hstep) fun levels _ => ?_
    exact .ret hname .nil
  · rename_i kind hjump
    have hname : c.IsCalled kind.keyword := Keyword.isCalled_of_ofName? (k := .jump kind) hjump
    split at hstep
    · rename_i hargs
      refine h.deliver (Except.ok.inj hstep) fun levels _ => ?_
      exact .jump hname (List.isEmpty_iff.mp hargs) .nil
    · cases hstep
  · rename_i kind hblock
    have hname : c.IsCalled kind.keyword := Keyword.isCalled_of_ofName? (k := .block kind) hblock
    cases hargs : interpret kind c with
    | error fault =>
        rw [hargs] at hstep
        cases hstep
    | ok args =>
        rw [hargs] at hstep
        obtain ⟨levels, hlevels, hopened⟩ := room_of_checkDepth
          (none, .plain kind c args [] :: open_) hstep
        cases hopened
        rw [Option.toList_none, List.append_nil]
        exact .plain h hlevels hname hargs .nil
  · rename_i hif
    have hname : c.IsCalled "if" := Keyword.isCalled_of_ofName? (k := .conditional) hif
    obtain ⟨levels, hlevels, hopened⟩ := room_of_checkDepth
      (none, .arm [] c [] :: open_) hstep
    cases hopened
    rw [Option.toList_none, List.append_nil]
    have hopened : Folded limit (.arm [] c [] :: open_) (ss ++ .command c :: ([] ++ [])) ns :=
      .arm h hlevels hname (fun _ _ harms => harms) .nil
    exact hopened

/-- What completes the conditional around an arm goes to the body around it. -/
theorem complete {before rest : List Statement} {first opener : Command} {earlier : List Arm}
    {levels : Nat} {node : Node} (houter : Folded limit outer ss ns)
    (hlevels : outer.depth + (levels + earlier.length + 1) = limit)
    (hname : first.IsCalled "if")
    (hchain : ∀ tail node, Arms levels opener tail node →
      Arms (levels + earlier.length) first (before ++ tail) (Arm.chain earlier node))
    (harms : Arms levels opener rest node)
    (hdeliver : OpenBlocks.deliver (Arm.chain earlier node) outer = (delivered, open')) :
    Folded limit open' (ss ++ .command first :: (before ++ rest)) (ns ++ delivered.toList) := by
  refine houter.deliver hdeliver fun levels' hlevels' => ?_
  -- The levels inside and the arms before fill what the limit leaves here.
  have hsame : levels' = levels + earlier.length + 1 := by omega
  subst hsame
  have hall : Forest (levels + earlier.length + 1) (stopWords outer)
      (.command first :: (before ++ rest ++ [])) [Arm.chain earlier node] :=
    .conditional hname (hchain _ _ harms) .nil
  rwa [List.append_nil] at hall

/-- A command that ends the innermost body. -/
theorem close (h : Folded limit (b :: outer) ss ns) (hends : ends c b = true)
    (hstep : OpenBlocks.close (some limit) c b outer = .ok (delivered, open')) :
    Folded limit open' (ss ++ [.command c]) (ns ++ delivered.toList) := by
  obtain ⟨word, hword, hcalled⟩ := ends_iff.mp hends
  cases h with
  | @plain _ _ _ _ _ _ _ _ levels houter hlevels hname hargs hbody =>
      have hsame := List.mem_singleton.mp hword
      subst hsame
      rw [List.append_assoc, List.cons_append]
      refine houter.deliver (Except.ok.inj hstep) fun levels' hlevels' => ?_
      have hsame : levels' = levels + 1 := by omega
      subst hsame
      exact .block hname hargs hbody hcalled .nil
  | alternative houter hlevels hname hchain hlast hnext hbody =>
      have hsame := List.mem_singleton.mp hword
      subst hsame
      rw [List.append_assoc, List.cons_append, List.append_assoc, List.append_assoc,
        List.cons_append]
      exact complete houter hlevels hname hchain (.otherwise hlast hnext hbody hcalled)
        (Except.ok.inj hstep)
  | @arm _ ss before inner _ body first opener earlier levels houter hlevels hname hchain hbody =>
      by_cases helseif : c.IsCalled "elseif"
      · simp only [OpenBlocks.close] at hstep
        rw [if_pos helseif] at hstep
        obtain ⟨more, hmore, hopened⟩ := room_of_checkDepth
          (none, .arm (⟨opener, body.reverse⟩ :: earlier) c [] :: outer) hstep
        cases hopened
        simp only [depth, OpenBlock.levels] at hmore
        -- The new arm goes one level deeper, and the old one joins the chain.
        have hsame : levels = more + 1 := by omega
        subst hsame
        have hnext : ∀ tail node, Arms more c tail node →
            Arms (more + (earlier.length + 1)) first ((before ++ (inner ++ [.command c])) ++ tail)
              (Arm.chain (⟨opener, body.reverse⟩ :: earlier) node) := by
          intro tail node harms
          have hall := hchain _ _ (.elseif hbody helseif harms)
          rw [show more + (earlier.length + 1) = more + 1 + earlier.length by omega,
            List.append_assoc, List.append_assoc]
          exact hall
        have hroom : outer.depth + (more + (earlier.length + 1) + 1) = limit := by omega
        have hopened : Folded limit (.arm (⟨opener, body.reverse⟩ :: earlier) c [] :: outer)
            (ss ++ .command first :: ((before ++ (inner ++ [.command c])) ++ [])) ns :=
          .arm houter hroom hname hnext .nil
        rw [List.append_nil] at hopened
        rw [Option.toList_none, List.append_nil, List.append_assoc, List.cons_append,
          List.append_assoc]
        exact hopened
      · by_cases helse : c.IsCalled "else"
        · rw [close_else helse] at hstep
          cases hstep
          rw [Option.toList_none, List.append_nil, List.append_assoc, List.cons_append,
            List.append_assoc]
          exact .alternative houter hlevels hname hchain hbody helse .nil
        · -- Only one of the words that end an arm is left.
          have hendif : c.IsCalled "endif" := by
            rcases List.mem_cons.mp hword with rfl | hword
            · exact absurd hcalled helse
            rcases List.mem_cons.mp hword with rfl | hword
            · exact absurd hcalled helseif
            rw [List.mem_singleton.mp hword] at hcalled
            exact hcalled
          rw [close_endif hendif] at hstep
          rw [List.append_assoc, List.cons_append, List.append_assoc]
          exact complete houter hlevels hname hchain (.endif hbody hendif) (Except.ok.inj hstep)

/-- Every statement that the machine takes. -/
theorem step {s : Statement} (h : Folded limit open_ ss ns)
    (hstep : OpenBlocks.step (some limit) open_ s = .ok (delivered, open')) :
    Folded limit open' (ss ++ [s]) (ns ++ delivered.toList) := by
  cases s with
  | comment c => exact h.deliver (Except.ok.inj hstep) fun levels _ => .comment .nil
  | command c =>
      cases open_ with
      | nil => exact h.enter (by simp [stopWords]) hstep
      | cons b outer =>
          by_cases hends : ends c b = true
          · have hclose : OpenBlocks.close (some limit) c b outer = .ok (delivered, open') := by
              rw [← hstep]
              exact (if_pos hends).symm
            exact h.close hends hclose
          · have henter :
                OpenBlocks.enter (some limit) c (b :: outer) = .ok (delivered, open') := by
              rw [← hstep]
              exact (if_neg hends).symm
            exact h.enter (fun word hword hcalled => hends (ends_iff.mpr ⟨word, hword, hcalled⟩))
              henter

/-- The invariant of a run. -/
theorem of_reaches (h : (Node.reader (some limit)).Reaches [] ss ns open_) :
    Folded limit open_ ss ns :=
  Reader.Reaches.invariant (P := fun ss ns open_ => Folded limit open_ ss ns) (.top .nil)
    (fun _ _ _ _ _ _ _ hbefore hstep => hbefore.step hstep) h

end Folded

/-! ## Trees -/

/-- A machine that starts and ends outside of all blocks has taken a forest. -/
theorem reaches_nil_iff {limit : Nat} {ss : List Statement} {ns : List Node} :
    (Node.reader (some limit)).Reaches [] ss ns [] ↔ Forest limit [] ss ns := by
  constructor
  · intro hreach
    cases Folded.of_reaches hreach with
    | top h => exact h
  · intro h
    refine h.reaches [] rfl fun n hn => ?_
    rw [← Option.some.inj hn]
    exact Nat.le_of_eq (Nat.zero_add limit)

/-- Folding a reading succeeds exactly on the forests. -/
theorem Node.fold_eq_ok_iff {r : Reading Statement Fault} {ns : List Node} :
    Node.fold r = ⟨ns, none⟩ ↔ r.error = none ∧ Forest Node.maxDepth [] r.items ns := by
  rw [Node.fold, Reader.run_eq_ok_iff, ← reaches_nil_iff]
  refine and_congr_right fun _ => ⟨?_, fun hreach => ⟨[], hreach, rfl⟩⟩
  rintro ⟨open_, hreach, hfinish⟩
  cases open_ with
  | nil => exact hreach
  | cons b outer => exact absurd hfinish (by simp [Node.reader, OpenBlocks.finish])

/-- A source text has a tree exactly if it is read without an error and its
statements are a forest of at most a hundred levels. The tree is then what is
derived, and its nodes begin where the statements do, one after the other, but
for the closers. -/
theorem parseTree_grammar (options : ParseOptions) (source : String) (nodes : List Node) :
    ((parseTree options source).toExcept = .ok nodes ↔
      (parseFlat options source).error = none ∧
        Forest Node.maxDepth [] (parseFlat options source).items nodes) ∧
    ((parseTree options source).toExcept = .ok nodes →
      UsedUp (parseFlat options source).items (Node.beginningsList nodes)) := by
  have hiff : (parseTree options source).toExcept = .ok nodes ↔
      (parseFlat options source).error = none ∧
        Forest Node.maxDepth [] (parseFlat options source).items nodes := by
    rw [Reading.toExcept_eq_ok_iff, parseTree, Reading.mapError_eq_ok_iff, Node.fold_eq_ok_iff]
    have herror : (parseFlat options source).error = none ↔
        (Statement.read options (scan source)).error = none := Option.map_eq_none_iff
    rw [herror]
    rfl
  exact ⟨hiff, fun h => (hiff.mp h).2.usedUp⟩

end Listfile
