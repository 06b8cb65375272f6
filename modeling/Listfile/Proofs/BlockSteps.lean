import Listfile.Proofs.Folding

/-!
# Steps of the folding machine

What a statement can do to the blocks that are open, said once.

* `OpensLevel` — the commands that open one more level, and what is open then;
* `opensLevel_iff` — they are those that lead a machine without a limit deeper;
* `OpensLevel.step_eq`, `step_eq_of_not_opensLevel` — the limit on the depth
  speaks only to these;
* `Moves` — all that any statement does;
* `Refuses` — all that one can be refused for.
-/

namespace Listfile

open Text OpenBlocks

/-! ## Opening a level -/

/-- Where the blocks `open_` are open, the command `c` opens one more level, and
then it is `open'` that are open. An `elseif` completes the arm before it. -/
inductive OpensLevel (c : Command) : OpenBlocks → OpenBlocks → Prop
  | block {open_ : OpenBlocks} {kind : BlockKind} {args : Arguments}
      (hname : c.IsCalled kind.keyword) (hargs : interpret kind c = .ok args) :
      OpensLevel c open_ (.plain kind c args [] :: open_)
  | conditional {open_ : OpenBlocks} (hname : c.IsCalled "if") :
      OpensLevel c open_ (.arm [] c [] :: open_)
  | elseif {outer : OpenBlocks} {earlier : List Arm} {opener : Command} {body : List Node}
      (hname : c.IsCalled "elseif") :
      OpensLevel c (.arm earlier opener body :: outer)
        (.arm (⟨opener, body.reverse⟩ :: earlier) c [] :: outer)

section Opening

variable {c : Command} {open_ open' : OpenBlocks}

theorem OpensLevel.depth_eq (h : OpensLevel c open_ open') : open'.depth = open_.depth + 1 := by
  cases h with
  | block => exact Nat.add_comm 1 _
  | conditional => exact Nat.add_comm 1 _
  | elseif =>
      simp only [depth, OpenBlock.levels, List.length_cons]
      omega

/-- The limit is all that can keep such a command from doing so. -/
theorem OpensLevel.step_eq (h : OpensLevel c open_ open') (limit : Option Nat) :
    step limit open_ (.command c) = (do checkDepth limit c open_; return (none, open')) := by
  cases h with
  | @block _ kind args hname hargs =>
      rw [step_of_keyword (k := .block kind) hname]
      unfold enter
      rw [Keyword.ofName?_of_isCalled (k := .block kind) hname]
      show (do
        let args ← interpret kind c
        checkDepth limit c open_
        return (none, OpenBlock.plain kind c args [] :: open_)) = _
      rw [hargs]
      rfl
  | conditional hname =>
      rw [step_of_keyword (k := .conditional) hname]
      unfold enter
      rw [Keyword.ofName?_of_isCalled (k := .conditional) hname]
  | @elseif outer earlier opener body hname =>
      have hword : "elseif" ∈ (OpenBlock.arm earlier opener body).expected :=
        .tail _ List.mem_cons_self
      rw [step_of_stopWord hword hname]
      exact if_pos hname

theorem OpensLevel.step_none (h : OpensLevel c open_ open') :
    step none open_ (.command c) = .ok (none, open') :=
  h.step_eq none

theorem OpensLevel.step_of_lt {limit : Nat} (h : OpensLevel c open_ open')
    (hroom : open_.depth < limit) : step (some limit) open_ (.command c) = .ok (none, open') := by
  have hdepth : checkDepth (some limit) c open_ = .ok () := if_neg (Nat.not_le.mpr hroom)
  rw [h.step_eq, hdepth]
  rfl

theorem OpensLevel.step_of_le {limit : Nat} (h : OpensLevel c open_ open')
    (hfull : limit ≤ open_.depth) :
    step (some limit) open_ (.command c) = .error (c.fault (.nestingTooDeep limit)) := by
  have hdepth : checkDepth (some limit) c open_ = .error (c.fault (.nestingTooDeep limit)) :=
    if_pos hfull
  rw [h.step_eq, hdepth]
  rfl

/-- No other command is subject to the limit. -/
theorem step_eq_of_not_opensLevel (h : ∀ open', ¬ OpensLevel c open_ open')
    (limit : Option Nat) : step limit open_ (.command c) = step none open_ (.command c) := by
  have henter : enter limit c open_ = enter none c open_ := by
    unfold enter
    split
    · rfl
    · rfl
    · rfl
    · rename_i kind hname
      -- A block is not opened only because its arguments are wrong.
      cases hargs : interpret kind c with
      | error fault => rfl
      | ok args =>
          have hcalled : c.IsCalled kind.keyword :=
            Keyword.isCalled_of_ofName? (k := .block kind) hname
          exact absurd (.block hcalled hargs) (h _)
    · rename_i hname
      have hcalled : c.IsCalled "if" := Keyword.isCalled_of_ofName? (k := .conditional) hname
      exact absurd (.conditional hcalled) (h _)
  cases open_ with
  | nil => exact henter
  | cons b outer =>
      have hclose : close limit c b outer = close none c b outer := by
        cases b with
        | plain kind opener args body => rfl
        | alternative earlier last body => rfl
        | arm earlier opener body =>
            have helseif : ¬ c.IsCalled "elseif" := by
              intro hname
              exact h _ (.elseif hname)
            simp only [close]
            rw [if_neg helseif, if_neg helseif]
      show (if ends c b then close limit c b outer else enter limit c (b :: outer)) =
        if ends c b then close none c b outer else enter none c (b :: outer)
      rw [hclose, henter]

end Opening

/-! ## All steps -/

/-- `Moves s open_ r`: where the blocks `open_` are open, the statement `s` may
lead to the delivery and the open blocks `r`. -/
inductive Moves (s : Statement) : OpenBlocks → Option Node × OpenBlocks → Prop
  /-- A node joins the innermost body. -/
  | joins {open_ : OpenBlocks} (n : Node) : Moves s open_ (deliver n open_)
  | opens {c : Command} {open_ open' : OpenBlocks} (hs : s = .command c)
      (h : OpensLevel c open_ open') : Moves s open_ (none, open')
  /-- The last arm of a conditional is complete and its alternative begins. -/
  | alternative {outer : OpenBlocks} {earlier : List Arm} {opener : Command} {body : List Node} :
      Moves s (.arm earlier opener body :: outer)
        (none, .alternative earlier ⟨opener, body.reverse⟩ [] :: outer)
  /-- The innermost block is complete, and its node joins the body around it. -/
  | closes {b : OpenBlock} {outer : OpenBlocks} (n : Node) :
      Moves s (b :: outer) (deliver n outer)

section Moving

variable {limit : Option Nat} {c : Command} {open_ outer : OpenBlocks} {b : OpenBlock}
  {r : Option Node × OpenBlocks}

/-- What is left of a step that passes the limit. -/
theorem eq_of_checkDepth (opened : Option Node × OpenBlocks)
    (h : (do checkDepth limit c open_; return opened) = Except.ok r) : opened = r := by
  cases hdepth : checkDepth limit c open_ with
  | error fault =>
      rw [hdepth] at h
      cases h
  | ok _ =>
      rw [hdepth] at h
      exact Except.ok.inj h

theorem moves_of_enter (h : enter limit c open_ = .ok r) : Moves (.command c) open_ r := by
  unfold enter at h
  split at h
  · exact Except.ok.inj h ▸ .joins _
  · exact Except.ok.inj h ▸ .joins _
  · split at h
    · exact Except.ok.inj h ▸ .joins _
    · cases h
  · rename_i kind hname
    cases hargs : interpret kind c with
    | error fault =>
        rw [hargs] at h
        cases h
    | ok args =>
        rw [hargs] at h
        obtain rfl := eq_of_checkDepth (none, .plain kind c args [] :: open_) h
        have hcalled : c.IsCalled kind.keyword :=
          Keyword.isCalled_of_ofName? (k := .block kind) hname
        exact .opens rfl (.block hcalled hargs)
  · rename_i hname
    obtain rfl := eq_of_checkDepth _ h
    have hcalled : c.IsCalled "if" := Keyword.isCalled_of_ofName? (k := .conditional) hname
    exact .opens rfl (.conditional hcalled)

theorem moves_of_close (h : close limit c b outer = .ok r) : Moves (.command c) (b :: outer) r := by
  cases b with
  | plain kind opener args body => exact Except.ok.inj h ▸ .closes _
  | alternative earlier last body => exact Except.ok.inj h ▸ .closes _
  | arm earlier opener body =>
      simp only [close] at h
      split at h
      · rename_i hname
        obtain rfl := eq_of_checkDepth _ h
        exact .opens rfl (.elseif hname)
      split at h
      · exact Except.ok.inj h ▸ .alternative
      · exact Except.ok.inj h ▸ .closes _

/-- Every step is one of these. -/
theorem moves_of_step {s : Statement} (h : step limit open_ s = .ok r) : Moves s open_ r := by
  cases s with
  | comment c => exact Except.ok.inj h ▸ .joins _
  | command c =>
      cases open_ with
      | nil => exact moves_of_enter h
      | cons b outer =>
          by_cases hends : ends c b = true
          · exact moves_of_close ((if_pos hends).symm.trans h)
          · exact moves_of_enter ((if_neg hends).symm.trans h)

end Moving

/-- A statement that opens no level does not lead deeper. -/
theorem Moves.depth_le {s : Statement} {open_ : OpenBlocks} {r : Option Node × OpenBlocks}
    (h : Moves s open_ r) (hs : ∀ c, s = .command c → ∀ open', ¬ OpensLevel c open_ open') :
    r.2.depth ≤ open_.depth := by
  cases h with
  | joins n => simp [depth_deliver]
  | opens hc hopens => exact absurd hopens (hs _ hc _)
  | alternative => simp [depth, OpenBlock.levels]
  | @closes b outer n =>
      rw [depth_deliver]
      simp [depth]

/-- A level is opened exactly by what leads the machine without a limit one
level deeper. -/
theorem opensLevel_iff {c : Command} {open_ open' : OpenBlocks} :
    OpensLevel c open_ open' ↔
      step none open_ (.command c) = .ok (none, open') ∧ open_.depth < open'.depth := by
  constructor
  · intro h
    refine ⟨h.step_none, ?_⟩
    rw [h.depth_eq]
    exact Nat.lt_succ_self _
  · rintro ⟨hstep, hdeeper⟩
    by_cases hopens : ∃ other, OpensLevel c open_ other
    · obtain ⟨other, hother⟩ := hopens
      have hsame : (none, other) = (none, open') :=
        Except.ok.inj (hother.step_none.symm.trans hstep)
      obtain rfl := (Prod.ext_iff.mp hsame).2
      exact hother
    · have hle : open'.depth ≤ open_.depth := by
        apply (moves_of_step hstep).depth_le
        rintro c' ⟨⟩ other hother
        exact hopens ⟨other, hother⟩
      omega

/-! ## Refused statements -/

/-- What a command may be refused for. -/
inductive Refuses (limit : Option Nat) : FaultCause → Prop
  | arguments : Refuses limit .unexpectedArguments
  | signature (fault : SignatureFault) : Refuses limit (.invalidSignature fault)
  | depth {n : Nat} (h : limit = some n) : Refuses limit (.nestingTooDeep n)

section Refusing

variable {limit : Option Nat} {c : Command} {open_ outer : OpenBlocks} {b : OpenBlock}
  {fault : Fault}

/-- A level is refused only for the limit. -/
theorem refuses_of_checkDepth {opened : Option Node × OpenBlocks}
    (h : (do checkDepth limit c open_; return opened) = Except.error fault) :
    ∃ cause, fault = c.fault cause ∧ Refuses limit cause := by
  cases limit with
  | none => cases h
  | some n =>
      by_cases hfull : n ≤ open_.depth
      · have hdepth : checkDepth (some n) c open_ = .error (c.fault (.nestingTooDeep n)) :=
          if_pos hfull
        rw [hdepth] at h
        exact ⟨_, (Except.error.inj h).symm, .depth rfl⟩
      · have hdepth : checkDepth (some n) c open_ = .ok () := if_neg hfull
        rw [hdepth] at h
        cases h

theorem refuses_of_interpret {kind : BlockKind} (h : interpret kind c = .error fault) :
    ∃ cause, fault = c.fault cause ∧ Refuses limit cause := by
  unfold interpret at h
  split at h
  · split at h
    · cases h
    · exact ⟨_, (Except.error.inj h).symm, .signature _⟩
  · split at h
    · cases h
    · exact ⟨_, (Except.error.inj h).symm, .signature _⟩
  · cases h
  · cases h
  · cases h

theorem refuses_of_enter (h : enter limit c open_ = .error fault) :
    ∃ cause, fault = c.fault cause ∧ Refuses limit cause := by
  unfold enter at h
  split at h
  · cases h
  · cases h
  · split at h
    · cases h
    · exact ⟨_, (Except.error.inj h).symm, .arguments⟩
  · rename_i kind _
    cases hargs : interpret kind c with
    | error fault' =>
        rw [hargs] at h
        cases h
        exact refuses_of_interpret hargs
    | ok args =>
        rw [hargs] at h
        exact refuses_of_checkDepth h
  · exact refuses_of_checkDepth h

theorem refuses_of_close (h : close limit c b outer = .error fault) :
    ∃ cause, fault = c.fault cause ∧ Refuses limit cause := by
  cases b with
  | plain kind opener args body => cases h
  | alternative earlier last body => cases h
  | arm earlier opener body =>
      simp only [close] at h
      split at h
      · exact refuses_of_checkDepth h
      split at h
      · cases h
      · cases h

/-- A statement that is refused is a command, and it is to blame itself. -/
theorem refuses_of_step {s : Statement} (h : step limit open_ s = .error fault) :
    ∃ c cause, s = .command c ∧ fault = c.fault cause ∧ Refuses limit cause := by
  cases s with
  | comment c => cases h
  | command c =>
      have hrefuses : ∃ cause, fault = c.fault cause ∧ Refuses limit cause := by
        cases open_ with
        | nil => exact refuses_of_enter h
        | cons b outer =>
            by_cases hends : ends c b = true
            · exact refuses_of_close ((if_pos hends).symm.trans h)
            · exact refuses_of_enter ((if_neg hends).symm.trans h)
      obtain ⟨cause, hfault, hcause⟩ := hrefuses
      exact ⟨c, cause, rfl, hfault, hcause⟩

end Refusing

/-! ## The depth of a run -/

/-- Every open block takes a level. -/
theorem OpenBlocks.length_le_depth (open_ : OpenBlocks) : open_.length ≤ open_.depth := by
  induction open_ with
  | nil => simp
  | cons b outer ih =>
      cases b <;> simp only [List.length_cons, depth, OpenBlock.levels] <;> omega

/-- The blocks that are open keep to the limit. -/
theorem Folded.depth_le {limit : Nat} {open_ : OpenBlocks} {ss : List Statement} {ns : List Node}
    (h : Folded limit open_ ss ns) : open_.depth ≤ limit := by
  cases h with
  | top => exact Nat.zero_le _
  | plain _ hlevels =>
      simp only [depth, OpenBlock.levels]
      omega
  | arm _ hlevels =>
      simp only [depth, OpenBlock.levels]
      omega
  | alternative _ hlevels =>
      simp only [depth, OpenBlock.levels]
      omega

end Listfile
