import Listfile.Expansion
import Listfile.Proofs.Lexing

/-!
# Escape pairs of arguments

Three readers go over escape pairs, each in its own way: the one that looks for
the end of a token, the one that joins continued lines, and the one that expands
the value later. They agree on which character a backslash goes with, since what
one of them drops or passes on is a sequence of whole units.

* `Piece.flatMap_taken_ofChars` — the pieces of an expansion are cut between
  units;
* `EscapedText.not_mem_units` — the text of a token leaves no backslash over;
* `LinesJoined.units_eq` — joining lines drops the units of the continuations
  and keeps all others as they are;
* `scan_escapesPaired` — the values of unquoted and quoted tokens.
-/

namespace Listfile

open Text

/-- What a text in which backslashes escape is made of. -/
inductive TextUnit where
  | char (c : Char)
  /-- A backslash with the character after it. -/
  | pair (c : Char)
  deriving DecidableEq

/-- The characters of a unit. -/
def TextUnit.text : TextUnit → List Char
  | .char c => [c]
  | .pair c => ['\\', c]

/-- The units of a text, read from the left. A backslash with nothing after it
is left over as a character. -/
def units : List Char → List TextUnit
  | [] => []
  | '\\' :: c :: cs => .pair c :: units cs
  | c :: cs => .char c :: units cs

/-- The units without the line continuations: an escaped line feed, or an
escaped carriage return with a line feed behind it. -/
def withoutContinuations : List TextUnit → List TextUnit
  | [] => []
  | .pair '\n' :: us => withoutContinuations us
  | .pair '\r' :: .char '\n' :: us => withoutContinuations us
  | u :: us => u :: withoutContinuations us

theorem units_cons {c : Char} (hc : c ≠ '\\') (cs : List Char) :
    units (c :: cs) = .char c :: units cs :=
  units.eq_3 _ _ fun _ _ h => absurd h hc

theorem units_append {cs : List Char} (h : '\\' ∉ cs) (ds : List Char) :
    units (cs ++ ds) = cs.map .char ++ units ds := by
  induction cs with
  | nil => rfl
  | cons c cs ih =>
      simp only [List.mem_cons, not_or] at h
      rw [List.cons_append, units_cons (Ne.symm h.1), ih h.2]
      rfl

/-- The units of a text are the text cut up. -/
theorem flatMap_text_units (cs : List Char) : (units cs).flatMap TextUnit.text = cs := by
  fun_induction units cs <;> simp_all [TextUnit.text]

theorem head?_of_head?_units {cs : List Char} {c : Char}
    (h : (units cs).head? = some (.char c)) : cs.head? = some c := by
  fun_induction units cs with
  | case1 => cases h
  | case2 => cases h
  | case3 d cs _ _ =>
      cases h
      rfl

/-! ## Pieces -/

/-- The units that a piece takes. -/
def Piece.taken : Piece → List TextUnit
  | .escape c => [.pair c]
  | p => p.text.map .char

/-- No piece begins or ends inside of an escape pair. -/
theorem Piece.flatMap_taken_ofChars (cs : List Char) :
    (ofChars cs).flatMap Piece.taken = units cs := by
  fun_induction ofChars cs with
  | case1 => rfl
  | case2 c cs ih =>
      rw [List.flatMap_cons, ih]
      rfl
  | case3 cs ih =>
      rw [List.flatMap_cons, ih, units_cons (by decide)]
      rfl
  | case4 cs ih =>
      rw [List.flatMap_cons, ih]
      exact (units_append (by decide : '\\' ∉ ['$', '{']) cs).symm
  | case5 cs ih =>
      rw [List.flatMap_cons, ih]
      exact (units_append (by decide : '\\' ∉ ['$', 'E', 'N', 'V', '{']) cs).symm
  | case6 cs ih =>
      rw [List.flatMap_cons, ih]
      exact (units_append (by decide : '\\' ∉ ['$', 'C', 'A', 'C', 'H', 'E', '{']) cs).symm
  | case7 c cs hpair _ _ _ _ ih =>
      rw [List.flatMap_cons, ih, units.eq_3 _ _ hpair]
      rfl

/-- A piece that is a lone backslash is one that the units leave over. -/
theorem Piece.literal_backslash_not_mem {cs : List Char} (h : TextUnit.char '\\' ∉ units cs) :
    Piece.literal '\\' ∉ ofChars cs := by
  intro hmem
  apply h
  rw [← Piece.flatMap_taken_ofChars, List.mem_flatMap]
  exact ⟨_, hmem, List.mem_cons_self⟩

/-! ## Tokens -/

/-- A text of escape pairs and other characters leaves no backslash over. -/
theorem EscapedText.not_mem_units {allowed : Char → Prop} {cs : List Char}
    (h : EscapedText allowed cs) : TextUnit.char '\\' ∉ units cs := by
  induction h with
  | nil => exact List.not_mem_nil
  | escape _ ih => simpa [units] using ih
  | @plain c cs hc _ _ ih =>
      rw [units_cons hc]
      simpa [Ne.symm hc] using ih

theorem withoutContinuations_subset (us : List TextUnit) : withoutContinuations us ⊆ us := by
  fun_induction withoutContinuations us with
  | case1 => exact List.Subset.refl _
  | case2 us ih => exact List.subset_cons_of_subset _ ih
  | case3 us ih => exact List.subset_cons_of_subset _ (List.subset_cons_of_subset _ ih)
  | case4 u us _ _ ih => exact List.cons_subset_cons u ih

/-- Joining lines drops whole units, and those behind them are paired as
before. -/
theorem LinesJoined.units_eq {body value : List Char} (h : LinesJoined body value) :
    units value = withoutContinuations (units body) := by
  induction h with
  | nil => rfl
  | lineFeed _ ih => exact ih
  | @returnLineFeed cs value _ ih =>
      rw [units, units_cons (by decide), withoutContinuations, ih]
  | @escape c cs value hc hreturn _ ih =>
      rw [units, units, ih, withoutContinuations.eq_4]
      · rintro h
        exact hc (TextUnit.pair.inj h)
      · rintro us h hus
        refine hreturn (TextUnit.pair.inj h) (head?_of_head?_units ?_)
        rw [hus]
        rfl
  | @plain c cs value hc _ ih =>
      rw [units_cons hc, units_cons hc, ih, withoutContinuations.eq_4]
      · exact nofun
      · exact nofun

/-- **Escapes of arguments are paired.** Read from the left, the value of every
unquoted or quoted token falls into escape pairs and other characters with no
backslash left over, and so expansion never comes upon a backslash alone. For a
quoted token these are the units of the text between the quotes, without exactly
the line continuations. -/
theorem scan_escapesPaired (text : String) (t : Token) (ht : t ∈ scan text) :
    (t.kind = .raw ∨ t.kind = .quoted →
      (units t.value.toList).flatMap TextUnit.text = t.value.toList ∧
        TextUnit.char '\\' ∉ units t.value.toList ∧
        Piece.literal '\\' ∉ Piece.ofChars t.value.toList) ∧
    (t.kind = .quoted → ∃ body, (t.span.slice text).toList = '"' :: (body ++ ['"']) ∧
      TextUnit.char '\\' ∉ units body ∧
      units t.value.toList = withoutContinuations (units body)) := by
  obtain ⟨ts, us, hscan⟩ := List.append_of_mem ht
  obtain ⟨p, before, s, value, after, htext, hp, -, hshape, htoken, -⟩ := scan_split hscan
  have hvalue : t.value.toList = value := by
    rw [htoken]
    exact String.toList_ofList
  have hslice : t.span.slice text = String.ofList s := by
    rw [htoken]
    exact (tokenAt_covers _ value htext hp).slice_eq
  rw [hvalue, hslice, String.toList_ofList]
  have hquoted : t.kind = .quoted → ∃ body, s = '"' :: (body ++ ['"']) ∧
      TextUnit.char '\\' ∉ units body ∧ units value = withoutContinuations (units body) := by
    intro hkind
    rw [hkind] at hshape
    cases hshape with
    | @quoted body _ _ hbody hjoined => exact ⟨body, rfl, hbody.not_mem_units, hjoined.units_eq⟩
  have hpaired : t.kind = .raw ∨ t.kind = .quoted → TextUnit.char '\\' ∉ units value := by
    rintro (hkind | hkind)
    · rw [hkind] at hshape
      cases hshape with
      | raw _ hraw _ _ => exact hraw.not_mem_units
    · obtain ⟨body, -, hbody, hunits⟩ := hquoted hkind
      rw [hunits]
      exact fun hmem => hbody (withoutContinuations_subset _ hmem)
  refine ⟨fun hkind => ⟨flatMap_text_units value, hpaired hkind, ?_⟩, hquoted⟩
  exact Piece.literal_backslash_not_mem (hpaired hkind)

/-- Behind an unquoted token that escapes a character of two bytes: an escaped
backslash in front of a continuation, another continuation, and an escaped
carriage return that no line feed follows. -/
theorem scan_escapesPaired_of_continuations :
    let text := "a\\é\"b\\\\\\\r\nc\\\n\\\rd\""
    let t : Token := ⟨.quoted, "b\\\\c\\\rd", ⟨1, 4, ⟨4, 18⟩⟩⟩
    t ∈ scan text ∧ t.kind = .quoted ∧
      ((units t.value.toList).flatMap TextUnit.text = t.value.toList ∧
        TextUnit.char '\\' ∉ units t.value.toList ∧
        Piece.literal '\\' ∉ Piece.ofChars t.value.toList) ∧
      (∃ body, (t.span.slice text).toList = '"' :: (body ++ ['"']) ∧
        TextUnit.char '\\' ∉ units body ∧
        units t.value.toList = withoutContinuations (units body)) ∧
      units t.value.toList = [.char 'b', .pair '\\', .char 'c', .pair '\r', .char 'd'] := by
  intro text t
  have hmem : t ∈ scan text := by decide +kernel
  obtain ⟨hpaired, hquoted⟩ := scan_escapesPaired text t hmem
  exact ⟨hmem, rfl, hpaired (.inr rfl), hquoted rfl, by decide +kernel⟩

end Listfile
