import Listfile.Proofs.Lexing
import Listfile.Proofs.Shift

/-!
# Texts one after the other

Reading a text, a line break and a second text is reading both one after the
other, the second at shifted places, if nothing of the first is left open.

* `Lexed.extend` — a line break and more behind a text changes none of its
  tokens, unless one of them runs to the end because it is never closed;
* `read_append`, `fold_append` — a reader that has come to an end without an
  error is where it began;
* `concatenation` — scanning, reading statements and reading a tree of two
  texts.
-/

namespace Listfile

open Text

/-! ## Tokens -/

/-- The token is closed in its text: nothing behind could go on with it. -/
def Kind.IsClosed (kind : Kind) : Prop :=
  kind ≠ .unmatchedBracket ∧ kind ≠ .unparseable

namespace Lexed

variable {p q : Position} {cs rest : List Char} {ts : List Token}

/-- A lone backslash is no closed token and no blank. -/
theorem ne_backslash (h : Lexed p cs ts q rest) (hrest : ∀ c ∈ rest, isBlank c = true)
    (hts : ∀ t ∈ ts, t.kind.IsClosed) : cs ≠ ['\\'] := by
  rintro rfl
  generalize hcs : ['\\'] = cs at h
  cases h with
  | done =>
      subst hcs
      exact absurd (hrest '\\' List.mem_cons_self) (by decide)
  | @token _ _ gap s value after _ c kind ts hgap hc hshape _ =>
      cases gap with
      | cons d gap =>
          have hd : d = '\\' := (List.cons.inj hcs).1.symm
          exact absurd (hgap d List.mem_cons_self) (by rw [hd]; decide)
      | nil =>
          obtain ⟨rfl, hnil⟩ := List.cons.inj hcs
          obtain ⟨rfl, rfl⟩ := List.append_eq_nil_iff.mp hnil.symm
          -- Nothing but the end of the input can follow the backslash.
          have hread := Lexeme.read_of_shape hshape
          have hkind : kind = .unparseable := (congrArg Lexeme.kind hread).symm
          exact (hts _ List.mem_cons_self).2 hkind

/-- A line break and more behind a text keeps the run over it. -/
theorem extend (h : Lexed p cs ts q rest) (hrest : ∀ c ∈ rest, isBlank c = true)
    (hts : ∀ t ∈ ts, t.kind.IsClosed) (more : List Char) :
    Lexed p (cs ++ '\n' :: more) ts q (rest ++ '\n' :: more) := by
  induction h with
  | done => exact .done
  | @token p q gap s value after rest c kind ts hgap hc hshape hlexed ih =>
      have hclosed : kind.IsClosed := hts _ List.mem_cons_self
      have hothers : ∀ t ∈ ts, t.kind.IsClosed := fun t ht => hts t (List.mem_cons_of_mem _ ht)
      have hafter := hlexed.ne_backslash hrest hothers
      rw [List.append_assoc, List.append_assoc]
      exact .token hgap hc (hshape.extend hclosed.1 hclosed.2 hafter more) (ih hrest hothers)

end Lexed

/-- How far places move behind a text and a line break. -/
def Shift.behind (text : String) : Shift :=
  ⟨text.utf8ByteSize + 1, 1 + text.toList.count '\n', 0⟩

theorem Position.line_advance (p : Position) (cs : List Char) :
    (p.advance cs).line = p.line + cs.count '\n' := by
  induction cs generalizing p with
  | nil => rfl
  | cons c cs ih =>
      show ((p.next c).advance cs).line = _
      rw [ih, List.count_cons]
      unfold next
      by_cases hc : c = '\n'
      · subst hc
        show p.line + 1 + _ = p.line + (_ + 1)
        omega
      · simp [hc]

theorem count_leadingMark (cs : List Char) : (leadingMark cs).count '\n' = 0 :=
  List.count_eq_zero.mpr (not_mem_leadingMark (by decide) cs)

/-- Behind a text and a line break the reader stands where it would begin, but
for the shift. -/
theorem Position.advance_lineBreak {text : String} {cs : List Char}
    (htext : text.toList = leadingMark text.toList ++ cs) :
    (firstPosition text.toList).advance (cs ++ ['\n']) = origin.shift (.behind text) := by
  have hlines : cs.count '\n' = text.toList.count '\n' := by
    have hcount := congrArg (List.count '\n') htext
    rw [List.count_append, count_leadingMark, Nat.zero_add] at hcount
    exact hcount.symm
  have hbytes : (firstPosition text.toList).offset + byteLength cs = text.utf8ByteSize := by
    rw [← byteLength_toList, htext, byteLength_append, ← htext]
    rfl
  have hoffset := Position.offset_advance (firstPosition text.toList) cs
  have hline := Position.line_advance (firstPosition text.toList) cs
  rw [hbytes] at hoffset
  rw [hlines] at hline
  rw [advance_append]
  generalize (firstPosition text.toList).advance cs = p at hoffset hline
  show (⟨p.offset + 1, p.line + 1, 1⟩ : Position) = ⟨0 + (_ + 1), 1 + (1 + _), 1⟩
  rw [hoffset, hline]
  simp only [mk.injEq, and_true]
  refine ⟨by omega, ?_⟩
  show 1 + _ + 1 = _
  omega

theorem leadingMark_append (cs more : List Char) :
    leadingMark (cs ++ '\n' :: more) = leadingMark cs := by
  cases cs <;> rfl

/-- The tokens of two texts with a line break between them. -/
theorem scan_append {a b : String} (ha : ∀ t ∈ scan a, t.kind.IsClosed)
    (hb : b.toList.head? ≠ some '\ufeff') :
    scan (a ++ "\n" ++ b) = scan a ++ (scan b).map (·.shift (.behind a)) := by
  obtain ⟨cs, hcs, hscan⟩ := scan_eq_scanFrom a
  obtain ⟨all, hall, hscanAll⟩ := scan_eq_scanFrom (a ++ "\n" ++ b)
  have htext : (a ++ "\n" ++ b).toList = a.toList ++ '\n' :: b.toList := by
    simp only [String.toList_append, List.append_assoc]
    rfl
  have hmark : leadingMark (a ++ "\n" ++ b).toList = leadingMark a.toList := by
    rw [htext, leadingMark_append]
  have hfirst : firstPosition (a ++ "\n" ++ b).toList = firstPosition a.toList := by
    rw [firstPosition, hmark, firstPosition]
  -- Both texts have the same mark in front.
  obtain rfl : all = cs ++ '\n' :: b.toList := by
    rw [hmark, htext] at hall
    refine List.append_cancel_left (hall.symm.trans ?_)
    rw [← List.append_assoc, ← hcs]
  rw [hscan] at ha
  obtain ⟨q, rest, hlexed, hrest⟩ :=
    lexed_of_scanFrom_eq (List.append_nil (scanFrom (firstPosition a.toList) cs)).symm
  have hblank := blank_of_scanFrom_eq_nil hrest
  have hgap : ∀ c ∈ rest ++ ['\n'], isBlank c = true := by
    intro c hc
    rcases List.mem_append.mp hc with hc | hc
    · exact hblank c hc
    · rw [List.mem_singleton.mp hc]
      decide
  have hwhole := (hlexed.extend hblank ha b.toList).scanFrom_eq
  obtain ⟨taken, rfl, rfl⟩ := hlexed.exists_taken
  rw [hscanAll, hfirst, hwhole, hscan, scan_of_not_mark hb, ← scanFrom_shift _ (Nat.le_refl 1)]
  -- Only blanks are left before the second text.
  rw [← Position.advance_lineBreak hcs, List.append_assoc, Position.advance_append,
    ← scanFrom_blanks hgap, List.append_assoc, List.singleton_append]

/-! ## Statements and nodes -/

/-- A reader of statements takes closed tokens only. -/
theorem Statement.isClosed_of_step {options : ParseOptions} {p p' : Statement.Progress} {t : Token}
    {s : Option Statement} (h : (Statement.reader options).step p t = .ok (s, p')) :
    t.kind.IsClosed := by
  cases p with
  | between =>
      have h : Statement.start options t = .ok (s, p') := h
      constructor <;>
      · intro hkind
        rw [Statement.start, hkind] at h
        cases h
  | named name =>
      have h : Statement.openArguments name t = .ok (s, p') := h
      constructor <;>
      · intro hkind
        rw [Statement.openArguments, hkind] at h
        cases h
  | arguments name depth taken =>
      have h : Statement.argument name depth taken t = .ok (s, p') := h
      constructor <;>
      · intro hkind
        simp [Statement.argument, hkind] at h

theorem Statement.isClosed_of_reaches {options : ParseOptions} {p p' : Statement.Progress}
    {ts : List Token} {ss : List Statement} (h : (Statement.reader options).Reaches p ts ss p') :
    ∀ t ∈ ts, t.kind.IsClosed := by
  induction h with
  | refl => simp
  | step hstep _ ih =>
      intro t ht
      rcases List.mem_cons.mp ht with rfl | ht
      · exact Statement.isClosed_of_step hstep
      · exact ih t ht

variable {options : ParseOptions}

/-- Tokens that are read without an error end between two statements. -/
theorem reaches_of_read {ts : List Token} (h : (Statement.read options ts).error = none) :
    (Statement.reader options).Reaches .between ts (Statement.read options ts).items .between := by
  obtain ⟨-, p, hreach, hfinish⟩ := Reader.run_eq_ok_iff.mp (Reading.eq_of_error_eq_none h)
  cases p with
  | between => exact hreach
  | named name => cases hfinish
  | arguments name depth taken => cases hfinish

theorem read_append {ts us : List Token} (h : (Statement.read options ts).error = none) :
    Statement.read options (ts ++ us) =
      ⟨(Statement.read options ts).items ++ (Statement.read options us).items,
        (Statement.read options us).error⟩ :=
  Reader.runFrom_append_of_reaches none (reaches_of_read h)

theorem fold_append {r : Reading Statement Fault} (more : Reading Statement Fault)
    (h : (Node.fold r).error = none) :
    Node.fold ⟨r.items ++ more.items, more.error⟩ =
      ⟨(Node.fold r).items ++ (Node.fold more).items, (Node.fold more).error⟩ := by
  obtain ⟨-, open_, hreach, hfinish⟩ := Reader.run_eq_ok_iff.mp (Reading.eq_of_error_eq_none h)
  cases open_ with
  | nil => exact Reader.runFrom_append_of_reaches more.error hreach
  | cons b outer => cases hfinish

/-- A tree without an error is made of statements without an error. -/
theorem error_of_fold {r : Reading Statement Fault} (h : (Node.fold r).error = none) :
    r.error = none :=
  (Reader.run_eq_ok_iff.mp (Reading.eq_of_error_eq_none h)).1

/-- The statements of two texts with a line break between them. -/
theorem read_scan_append {a b : String} (ha : (Statement.read options (scan a)).error = none)
    (hb : b.toList.head? ≠ some '\ufeff') :
    Statement.read options (scan (a ++ "\n" ++ b)) =
      ⟨(Statement.read options (scan a)).items ++
        (Statement.read options (scan b)).items.map (·.shift (.behind a)),
        (Statement.read options (scan b)).error.map (·.shift (.behind a))⟩ := by
  have hclosed := Statement.isClosed_of_reaches (reaches_of_read ha)
  rw [scan_append hclosed hb, read_append ha, Statement.read_shift]

/-- A fault of the second text shows the same text. -/
theorem mapError_inSource_behind {α : Type} (a b : String) (items : List α) (error : Option Fault) :
    Reading.mapError (·.inSource (a ++ "\n" ++ b))
        ⟨items, error.map (·.shift (.behind a))⟩ =
      ⟨items, (error.map (·.inSource b)).map (·.shift (.behind a))⟩ := by
  cases error with
  | none => rfl
  | some fault =>
      show Reading.mk items (some (Fault.inSource _ _)) = _
      rw [Fault.inSource_shift]
      · rfl
      · rw [String.utf8ByteSize_append]
        rfl

/-- **Reading goes along with concatenation.** Let `b` not begin with a
byte-order mark. Behind a text `a` whose tokens are all closed and a line
break, the tokens of `b` are what they are by themselves at shifted places; so
are the statements and the error of `b` if the statements of `a` end without an
error, and the nodes and the error of `b` if the tree of `a` does. -/
theorem concatenation (options : ParseOptions) (a b : String)
    (hb : b.toList.head? ≠ some '\ufeff') :
    ((∀ t ∈ scan a, t.kind ≠ .unmatchedBracket ∧ t.kind ≠ .unparseable) →
      scan (a ++ "\n" ++ b) = scan a ++ (scan b).map (·.shift (.behind a))) ∧
    ((parseFlat options a).error = none →
      parseFlat options (a ++ "\n" ++ b) =
        ⟨(parseFlat options a).items ++ (parseFlat options b).items.map (·.shift (.behind a)),
          (parseFlat options b).error.map (·.shift (.behind a))⟩) ∧
    ((parseTree options a).error = none →
      parseTree options (a ++ "\n" ++ b) =
        ⟨(parseTree options a).items ++ (parseTree options b).items.map (·.shift (.behind a)),
          (parseTree options b).error.map (·.shift (.behind a))⟩) := by
  refine ⟨fun ha => scan_append ha hb, fun ha => ?_, fun ha => ?_⟩
  · have ha : (Statement.read options (scan a)).error = none := Option.map_eq_none_iff.mp ha
    rw [parseFlat, read_scan_append ha hb, mapError_inSource_behind]
    rfl
  · have hfold : (Node.fold (Statement.read options (scan a))).error = none :=
      Option.map_eq_none_iff.mp ha
    rw [parseTree, read_scan_append (error_of_fold hfold) hb]
    rw [fold_append ⟨_, _⟩ hfold, Node.fold_shift, mapError_inSource_behind]
    rfl

/-- A conditional with a comment that the end of its text closes, and behind it
a command and a quote that is never closed. -/
theorem concatenation_of_unclosed_quote :
    let a := "\ufeffif(A)\n x(\"é\\\n\" [[]\n]])\nendif() # c\r"
    let b := " y(1\n2) \"ü\n"
    scan (a ++ "\n" ++ b) = scan a ++ (scan b).map (·.shift (.behind a)) ∧
    parseFlat ⟨false⟩ (a ++ "\n" ++ b) =
      ⟨(parseFlat ⟨false⟩ a).items ++ (parseFlat ⟨false⟩ b).items.map (·.shift (.behind a)),
        (parseFlat ⟨false⟩ b).error.map (·.shift (.behind a))⟩ ∧
    parseTree ⟨false⟩ (a ++ "\n" ++ b) =
      ⟨(parseTree ⟨false⟩ a).items ++ (parseTree ⟨false⟩ b).items.map (·.shift (.behind a)),
        (parseTree ⟨false⟩ b).error.map (·.shift (.behind a))⟩ := by
  obtain ⟨hscan, hflat, htree⟩ := concatenation ⟨false⟩
    "\ufeffif(A)\n x(\"é\\\n\" [[]\n]])\nendif() # c\r" " y(1\n2) \"ü\n" (by decide)
  exact ⟨hscan (by decide +kernel), hflat (by decide +kernel), htree (by decide +kernel)⟩

end Listfile
