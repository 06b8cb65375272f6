import Listfile.Proofs.ConditionGrammar
import Mathlib.Data.List.Chain

/-!
# The form of paths

A path is taken apart into runs of slashes and backslashes and the parts between
them. Its normal form writes every run as one slash and every part as it is, so
two paths have the same normal form exactly if they have the same pieces, where
of a run only its presence counts.

* `exists_splitsInto`, `SplitsInto.unique` — every path is taken apart in one
  way;
* `SplitsInto.collapseSlashes_eq` — the normal form is written piece by piece;
* `SplitsInto.written` — it has the pieces of the path;
* `normalizePath_canonical` — it is a canonical form, and `PATH_EQUAL` compares
  by it.
-/

namespace Listfile

/-! ## The pieces of a path -/

/-- Both slashes separate the parts of a path. -/
def isSlash (c : Char) : Bool :=
  c == '/' || c == '\\'

/-- A piece of a path. Nothing is kept of a run of slashes but that there is
one. -/
inductive PathPiece where
  | slashes
  | part (cs : List Char)

namespace PathPiece

/-- Whether the piece is a run of slashes. -/
def isRun : PathPiece → Bool
  | .slashes => true
  | .part _ => false

/-- The piece as a normal form writes it. -/
def written : PathPiece → List Char
  | .slashes => ['/']
  | .part cs => cs

/-- `piece.Spells cs`: the characters are a piece of this kind, and not none. -/
inductive Spells : PathPiece → List Char → Prop
  | slashes {run : List Char} (hne : run ≠ []) (hslash : ∀ c ∈ run, isSlash c = true) :
      Spells .slashes run
  | part {cs : List Char} (hne : cs ≠ []) (hfree : ∀ c ∈ cs, isSlash c = false) :
      Spells (.part cs) cs

end PathPiece

/-- `SplitsInto cs pieces`: the characters are these pieces one after the other,
runs of slashes and parts in turns. -/
inductive SplitsInto : List Char → List PathPiece → Prop
  | nil : SplitsInto [] []
  | cons {cs rest : List Char} {piece : PathPiece} {pieces : List PathPiece}
      (hpiece : piece.Spells cs) (hturn : ∀ next ∈ pieces.head?, next.isRun ≠ piece.isRun)
      (hrest : SplitsInto rest pieces) : SplitsInto (cs ++ rest) (piece :: pieces)

namespace PathPiece.Spells

variable {piece piece' : PathPiece} {cs : List Char}

theorem ne_nil (h : piece.Spells cs) : cs ≠ [] := by
  cases h with
  | slashes hne => exact hne
  | part hne => exact hne

/-- The characters of a piece are of one kind. -/
theorem isSlash_eq (h : piece.Spells cs) : ∀ c ∈ cs, isSlash c = piece.isRun := by
  cases h with
  | slashes _ hslash => exact hslash
  | part _ hfree => exact hfree

theorem unique (h : piece.Spells cs) (h' : piece'.Spells cs)
    (hkind : piece.isRun = piece'.isRun) : piece = piece' := by
  cases h with
  | slashes =>
      cases h' with
      | slashes => rfl
      | part => cases hkind
  | part =>
      cases h' with
      | slashes => cases hkind
      | part => rfl

/-- What a normal form writes is the same piece. -/
theorem written (h : piece.Spells cs) : piece.Spells piece.written := by
  cases h with
  | slashes => exact .slashes (by simp [PathPiece.written]) (by simp [PathPiece.written, isSlash])
  | part hne hfree => exact .part hne hfree

end PathPiece.Spells

namespace SplitsInto

variable {cs : List Char} {pieces pieces' : List PathPiece}

/-- The first character is of the kind of the first piece. -/
theorem exists_head (h : SplitsInto cs pieces) :
    ∀ c ∈ cs.head?, ∃ piece ∈ pieces.head?, isSlash c = piece.isRun := by
  cases h with
  | nil => simp
  | @cons cs rest piece pieces hpiece =>
      intro c hc
      rw [List.head?_append_of_ne_nil cs hpiece.ne_nil] at hc
      exact ⟨piece, rfl, hpiece.isSlash_eq c (List.mem_of_mem_head? hc)⟩

/-- Where a piece ends is determined by the kinds of the characters. -/
theorem append_inj {first first' rest rest' : List Char} {b : Bool}
    (h : first ++ rest = first' ++ rest') (hfirst : ∀ c ∈ first, isSlash c = b)
    (hfirst' : ∀ c ∈ first', isSlash c = b) (hrest : ∀ c ∈ rest.head?, isSlash c ≠ b)
    (hrest' : ∀ c ∈ rest'.head?, isSlash c ≠ b) : first = first' ∧ rest = rest' := by
  have htake : ∀ {us vs : List Char}, (∀ c ∈ us, isSlash c = b) →
      (∀ c ∈ vs.head?, isSlash c ≠ b) → (us ++ vs).takeWhile (isSlash · == b) = us := by
    intro us vs hus hvs
    rw [List.takeWhile_append_of_pos fun c hc => beq_iff_eq.mpr (hus c hc)]
    cases vs with
    | nil => simp
    | cons v vs =>
        have hv : (isSlash v == b) = false := beq_false_of_ne (hvs v rfl)
        rw [List.takeWhile_cons_of_neg (by simp [hv]), List.append_nil]
  have hsame : first = first' := by
    rw [← htake hfirst hrest, h, htake hfirst' hrest']
  subst hsame
  exact ⟨rfl, List.append_cancel_left h⟩

/-- A path is taken apart in one way only. -/
theorem unique (h : SplitsInto cs pieces) (h' : SplitsInto cs pieces') : pieces = pieces' := by
  induction h generalizing pieces' with
  | nil =>
      generalize hcs : ([] : List Char) = cs at h'
      cases h' with
      | nil => rfl
      | cons hpiece => exact absurd (List.append_eq_nil_iff.mp hcs.symm).1 hpiece.ne_nil
  | @cons cs rest piece pieces hpiece hturn hrest ih =>
      generalize hall : cs ++ rest = all at h'
      cases h' with
      | nil => exact absurd (List.append_eq_nil_iff.mp hall).1 hpiece.ne_nil
      | @cons cs' rest' piece' pieces' hpiece' hturn' hrest' =>
          have hkind : piece'.isRun = piece.isRun := by
            obtain ⟨c, us, rfl⟩ := List.exists_cons_of_ne_nil hpiece.ne_nil
            obtain ⟨c', us', rfl⟩ := List.exists_cons_of_ne_nil hpiece'.ne_nil
            obtain rfl : c = c' := (List.cons.inj hall).1
            rw [← hpiece.isSlash_eq c List.mem_cons_self, ← hpiece'.isSlash_eq c List.mem_cons_self]
          have hends : ∀ c ∈ rest.head?, isSlash c ≠ piece.isRun := by
            intro c hc
            obtain ⟨next, hnext, hc⟩ := hrest.exists_head c hc
            rw [hc]
            exact hturn next hnext
          have hends' : ∀ c ∈ rest'.head?, isSlash c ≠ piece.isRun := by
            intro c hc
            obtain ⟨next, hnext, hc⟩ := hrest'.exists_head c hc
            rw [hc, ← hkind]
            exact hturn' next hnext
          have hfirst' : ∀ c ∈ cs', isSlash c = piece.isRun := hkind ▸ hpiece'.isSlash_eq
          obtain ⟨rfl, rfl⟩ := append_inj hall hpiece.isSlash_eq hfirst' hends hends'
          rw [hpiece.unique hpiece' hkind.symm, ih hrest']

end SplitsInto

/-- Characters of one kind are a piece of that kind. -/
theorem PathPiece.exists_spells {cs : List Char} {b : Bool} (hne : cs ≠ [])
    (h : ∀ c ∈ cs, isSlash c = b) : ∃ piece : PathPiece, piece.Spells cs ∧ piece.isRun = b := by
  cases b with
  | true => exact ⟨.slashes, .slashes hne h, rfl⟩
  | false => exact ⟨.part cs, .part hne h, rfl⟩

/-- Every path can be taken apart. A character joins the first piece of what
follows if it is of its kind, and makes a piece of its own otherwise. -/
theorem exists_splitsInto (cs : List Char) : ∃ pieces, SplitsInto cs pieces := by
  induction cs with
  | nil => exact ⟨[], .nil⟩
  | cons c cs ih =>
      obtain ⟨pieces, h⟩ := ih
      by_cases hjoins : ∃ piece ∈ pieces.head?, piece.isRun = isSlash c
      · obtain ⟨piece, hpiece, hkind⟩ := hjoins
        cases h with
        | nil => cases hpiece
        | @cons cs rest first pieces hfirst hturn hrest =>
            obtain rfl : first = piece := Option.some.inj hpiece
            have hsame : ∀ d ∈ c :: cs, isSlash d = first.isRun :=
              List.forall_mem_cons.mpr ⟨hkind.symm, hfirst.isSlash_eq⟩
            obtain ⟨longer, hlonger, hrun⟩ :=
              PathPiece.exists_spells (List.cons_ne_nil c cs) hsame
            exact ⟨longer :: pieces, .cons hlonger (hrun ▸ hturn) hrest⟩
      · obtain ⟨piece, hpiece, hrun⟩ :=
          PathPiece.exists_spells (List.cons_ne_nil c []) (List.forall_mem_singleton.mpr rfl)
        refine ⟨piece :: pieces, .cons hpiece (fun next hnext hkind => hjoins ?_) h⟩
        exact ⟨next, hnext, hkind.trans hrun⟩

/-! ## The normal form -/

section Collapsing

variable {c : Char} {cs rest : List Char} {pieces : List PathPiece} {inRun : Bool}

/-- Only the first slash of a run is written. -/
theorem collapseSlashes_slash (hc : isSlash c = true) :
    collapseSlashes inRun (c :: cs) = (if inRun then [] else ['/']) ++ collapseSlashes true cs := by
  have hc : (c == '/' || c == '\\') = true := hc
  rw [collapseSlashes, if_pos hc]
  cases inRun <;> rfl

theorem collapseSlashes_other (hc : isSlash c = false) :
    collapseSlashes inRun (c :: cs) = c :: collapseSlashes false cs := by
  have hc : ¬ (c == '/' || c == '\\') = true := Bool.eq_false_iff.mp hc
  rw [collapseSlashes, if_neg hc]

theorem collapseSlashes_run (h : ∀ c ∈ cs, isSlash c = true) :
    collapseSlashes true (cs ++ rest) = collapseSlashes true rest := by
  induction cs with
  | nil => rfl
  | cons c cs ih =>
      obtain ⟨hc, hcs⟩ := List.forall_mem_cons.mp h
      rw [List.cons_append, collapseSlashes_slash hc, ih hcs]
      rfl

theorem collapseSlashes_part (hne : cs ≠ []) (h : ∀ c ∈ cs, isSlash c = false) :
    collapseSlashes inRun (cs ++ rest) = cs ++ collapseSlashes false rest := by
  induction cs generalizing inRun with
  | nil => exact absurd rfl hne
  | cons c cs ih =>
      obtain ⟨hc, hcs⟩ := List.forall_mem_cons.mp h
      rw [List.cons_append, collapseSlashes_other hc, List.cons_append]
      cases cs with
      | nil => rfl
      | cons d ds => rw [ih (List.cons_ne_nil d ds) hcs]

/-- The flag says that the piece before was a run. Runs and parts take turns, so
it is down when a run begins. -/
theorem SplitsInto.collapseSlashes_eq (h : SplitsInto cs pieces)
    (hturn : ∀ next ∈ pieces.head?, next.isRun = true → inRun = false) :
    collapseSlashes inRun cs = pieces.flatMap PathPiece.written := by
  induction h generalizing inRun with
  | nil => rfl
  | cons hpiece hnext _ ih =>
      rw [List.flatMap_cons]
      cases hpiece with
      | slashes hne hslash =>
          obtain rfl : inRun = false := hturn _ rfl rfl
          obtain ⟨c, cs, rfl⟩ := List.exists_cons_of_ne_nil hne
          obtain ⟨hc, hcs⟩ := List.forall_mem_cons.mp hslash
          rw [List.cons_append, collapseSlashes_slash hc, collapseSlashes_run hcs,
            ih fun next hmem hrun => absurd hrun (hnext next hmem)]
          rfl
      | part hne hfree =>
          rw [collapseSlashes_part hne hfree, ih fun _ _ _ => rfl]
          rfl

theorem SplitsInto.normalizePath_eq {p : String} (h : SplitsInto p.toList pieces) :
    normalizePath p = String.ofList (pieces.flatMap PathPiece.written) := by
  unfold normalizePath
  rw [h.collapseSlashes_eq fun _ _ _ => rfl]

/-- The normal form has the pieces of the path. -/
theorem SplitsInto.written (h : SplitsInto cs pieces) :
    SplitsInto (pieces.flatMap PathPiece.written) pieces := by
  induction h with
  | nil => exact .nil
  | cons hpiece hturn _ ih => exact .cons hpiece.written hturn ih

theorem SplitsInto.normalizePath {p : String} (h : SplitsInto p.toList pieces) :
    SplitsInto (normalizePath p).toList pieces := by
  rw [h.normalizePath_eq, String.toList_ofList]
  exact h.written

theorem not_mem_collapseSlashes : '\\' ∉ collapseSlashes inRun cs := by
  induction cs generalizing inRun with
  | nil => exact List.not_mem_nil
  | cons c cs ih =>
      cases hc : isSlash c with
      | true =>
          rw [collapseSlashes_slash hc, List.mem_append, not_or]
          exact ⟨by cases inRun <;> simp, ih⟩
      | false =>
          rw [collapseSlashes_other hc, List.mem_cons, not_or]
          refine ⟨?_, ih⟩
          rintro rfl
          cases hc

/-- Neither two slashes in a row nor a slash directly behind a run are
written. -/
theorem collapseSlashes_apart :
    (collapseSlashes inRun cs).IsChain (fun c d => ¬ (c = '/' ∧ d = '/')) ∧
      (inRun = true → (collapseSlashes inRun cs).head? ≠ some '/') := by
  induction cs generalizing inRun with
  | nil => exact ⟨.nil, fun _ => by simp [collapseSlashes]⟩
  | cons c cs ih =>
      cases hc : isSlash c with
      | true =>
          obtain ⟨hchain, hhead⟩ := @ih true
          rw [collapseSlashes_slash hc]
          cases inRun with
          | true => exact ⟨hchain, hhead⟩
          | false =>
              refine ⟨hchain.cons ?_, fun h => by cases h⟩
              rintro d hd ⟨-, rfl⟩
              exact hhead rfl hd
      | false =>
          obtain ⟨hchain, -⟩ := @ih false
          have hne : c ≠ '/' := by
            rintro rfl
            cases hc
          rw [collapseSlashes_other hc]
          exact ⟨hchain.cons fun d _ hboth => hne hboth.1, fun _ => by simpa using hne⟩

end Collapsing

/-! ## Comparing paths -/

/-- Quoted paths are compared by their normal forms. -/
theorem evaluate_samePath (engine : PatternEngine) (ctx : Context) (p q : String)
    (left middle right : Location) :
    evaluate engine ctx [⟨.quoted, p, left⟩, ⟨.raw, "PATH_EQUAL", middle⟩, ⟨.quoted, q, right⟩] =
      .ok (decide (normalizePath p = normalizePath q)) := by
  have hoperand : Token.IsOperand ⟨.quoted, p, left⟩ :=
    ⟨by simp, by simp, Token.operator?_of_ne (by simp)⟩
  have hoperator : Token.operator? ⟨.raw, "PATH_EQUAL", middle⟩ = some (.relation .samePath) :=
    Token.operator?_of_name rfl rfl
  rw [evaluate_relation hoperand hoperator rfl rfl]
  exact congrArg Except.ok (beq_eq_decide _ _)

/-- **The normal form of paths is canonical.** Making a path normal again
changes nothing, and no backslash and no two slashes in a row are left. Every
path is taken apart into runs of slashes and the parts between them in one way,
and two paths have the same normal form, which is what `PATH_EQUAL` asks, exactly
if the same pieces follow one another in them. -/
theorem normalizePath_canonical (p q : String) :
    normalizePath (normalizePath p) = normalizePath p ∧
    '\\' ∉ (normalizePath p).toList ∧
    ¬ ['/', '/'] <:+: (normalizePath p).toList ∧
    (∃! pieces, SplitsInto p.toList pieces) ∧
    (normalizePath p = normalizePath q ↔
      ∃ pieces, SplitsInto p.toList pieces ∧ SplitsInto q.toList pieces) ∧
    (∀ engine ctx left middle right,
      evaluate engine ctx [⟨.quoted, p, left⟩, ⟨.raw, "PATH_EQUAL", middle⟩, ⟨.quoted, q, right⟩] =
        .ok (decide (normalizePath p = normalizePath q))) := by
  obtain ⟨pieces, hp⟩ := exists_splitsInto p.toList
  refine ⟨?_, ?_, ?_, ⟨pieces, hp, fun _ h => h.unique hp⟩, ⟨?_, ?_⟩, ?_⟩
  · rw [hp.normalizePath.normalizePath_eq, hp.normalizePath_eq]
  · unfold normalizePath
    rw [String.toList_ofList]
    exact not_mem_collapseSlashes
  · unfold normalizePath
    rw [String.toList_ofList]
    rintro ⟨front, back, hsplit⟩
    have hapart := (@collapseSlashes_apart p.toList false).1
    rw [← hsplit] at hapart
    exact hapart.left_of_append.right_of_append.rel ⟨rfl, rfl⟩
  · intro heq
    obtain ⟨pieces', hq⟩ := exists_splitsInto q.toList
    have hsame : pieces = pieces' := (heq ▸ hp.normalizePath).unique hq.normalizePath
    exact ⟨pieces, hp, hsame ▸ hq⟩
  · rintro ⟨pieces', hp', hq⟩
    rw [hp'.normalizePath_eq, hq.normalizePath_eq]
  · exact fun engine ctx left middle right => evaluate_samePath engine ctx p q left middle right

/-- Runs in front, between two parts and behind them. -/
example : normalizePath "\\/a//b\\c/" = "/a/b/c/" := by
  decide

end Listfile
