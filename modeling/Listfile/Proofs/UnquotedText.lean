import Listfile.Proofs.Lexing
import Listfile.Proofs.Tiling

/-!
# White space in unquoted text

The scanner skips all white space between tokens, but only some of it ends an
unquoted token: the rest stands in the middle of one like any other character.

* `unescaped` — the characters of a text that no backslash escapes;
* `EscapedText.allowed_of_mem` — in unquoted text none of them is a delimiter;
* `scan_rawText` — unquoted text is one token;
* `scan_raw_whiteSpace` — which white space unquoted tokens can hold.
-/

namespace Listfile

open Text

/-- The characters outside of escape pairs. A backslash with nothing after it
begins no pair. -/
def unescaped : List Char → List Char
  | [] => []
  | ['\\'] => ['\\']
  | '\\' :: _ :: cs => unescaped cs
  | c :: cs => c :: unescaped cs

theorem unescaped_cons {c : Char} (hc : c ≠ '\\') (cs : List Char) :
    unescaped (c :: cs) = c :: unescaped cs :=
  unescaped.eq_4 _ _ (fun h => absurd h hc) (fun _ _ h => absurd h hc)

theorem EscapedText.allowed_of_mem {allowed : Char → Prop} {cs : List Char}
    (h : EscapedText allowed cs) : ∀ c ∈ unescaped cs, allowed c := by
  induction h with
  | nil => simp [unescaped]
  | escape _ ih => simpa [unescaped] using ih
  | @plain c cs hc hallowed _ ih =>
      intro d hd
      rw [unescaped_cons hc] at hd
      rcases List.mem_cons.mp hd with rfl | hd
      · exact hallowed
      · exact ih d hd

/-! ## White space that delimits -/

/-- Of all white space only the space, the tab and the two characters of line
breaks are delimiters. -/
theorem IsWhiteSpace.isDelimiter_iff {c : Char} (h : IsWhiteSpace c) :
    IsDelimiter c ↔ c ∈ [' ', '\t', '\r', '\n'] := by
  constructor
  · intro hc
    simp only [IsDelimiter, List.mem_cons, List.not_mem_nil, or_false] at hc
    rcases hc with rfl | rfl | rfl | rfl | rfl | rfl | rfl | rfl | rfl <;>
      simp [IsWhiteSpace] at h ⊢
  · intro hc
    simp only [List.mem_cons, List.not_mem_nil, or_false] at hc
    rcases hc with rfl | rfl | rfl | rfl <;> simp [IsDelimiter]

/-- Unquoted text by itself is one token. -/
theorem scan_rawText {c : Char} {cs : List Char} (htext : RawText (c :: cs))
    (hopen : ¬ OpensBracket (c :: cs)) (hc : isBlank c = false) (hmark : c ≠ '\ufeff') :
    scan (String.ofList (c :: cs)) = [tokenAt .origin .raw (c :: cs) (c :: cs)] := by
  have hshape : LexicalShape .raw (c :: cs) (c :: cs) [] :=
    .raw (List.cons_ne_nil _ _) htext hopen (.inl rfl)
  have hscan := scanFrom_of_shape (fun d hd => absurd hd List.not_mem_nil) hc hshape .origin
  rw [List.nil_append, List.append_nil, scanFrom_nil] at hscan
  rw [scan_of_not_mark, String.toList_ofList, hscan]
  · rfl
  · simpa [String.toList_ofList] using hmark

/-- **White space in unquoted tokens.** A white-space character stands in
unquoted tokens only behind a backslash exactly if it is the space, the tab, the
carriage return or the line feed. -/
theorem scan_raw_whiteSpace (c : Char) (hc : IsWhiteSpace c) :
    (∀ text, ∀ t ∈ scan text, t.kind = .raw → c ∉ unescaped t.value.toList) ↔
      c ∈ [' ', '\t', '\r', '\n'] := by
  have hback : c ≠ '\\' := by
    rintro rfl
    simp [IsWhiteSpace] at hc
  rw [← hc.isDelimiter_iff]
  constructor
  · intro hnever
    by_cases hdelim : IsDelimiter c
    · exact hdelim
    · -- Behind a letter the character goes on with the token.
      have htext : RawText ['a', c] :=
        .plain (by decide) (by simp [IsDelimiter]) (.plain hback hdelim .nil)
      have hopen : ¬ OpensBracket ['a', c] := by
        rintro ⟨fill, body, h⟩
        simp [openingBracket] at h
      have hscan := scan_rawText htext hopen (by decide) (by decide)
      refine absurd ?_ (hnever _ _ (hscan ▸ List.mem_cons_self) rfl)
      show c ∈ unescaped (String.ofList ['a', c]).toList
      rw [String.toList_ofList, unescaped_cons (by decide), unescaped_cons hback]
      simp
  · intro hdelim text t ht hkind hmem
    obtain ⟨ts, us, hscan⟩ := List.append_of_mem ht
    obtain ⟨p, before, s, value, after, -, -, -, hshape, htoken, -⟩ := scan_split hscan
    have hvalue : t.value.toList = value := by
      rw [htoken]
      exact String.toList_ofList
    rw [hvalue] at hmem
    rw [hkind] at hshape
    cases hshape with
    | raw _ htext _ _ => exact htext.allowed_of_mem c hmem hdelim

/-- A tab ends an unquoted token, a no-break space does not. -/
theorem scan_raw_whiteSpace_of_tab :
    IsWhiteSpace '\t' ∧ IsWhiteSpace '\u00a0' ∧
    (∀ text, ∀ t ∈ scan text, t.kind = .raw → '\t' ∉ unescaped t.value.toList) ∧
    ¬ ∀ text, ∀ t ∈ scan text, t.kind = .raw → '\u00a0' ∉ unescaped t.value.toList := by
  have htab : IsWhiteSpace '\t' := by simp [IsWhiteSpace]
  have hspace : IsWhiteSpace '\u00a0' := by simp [IsWhiteSpace]
  refine ⟨htab, hspace, ?_, ?_⟩
  · exact (scan_raw_whiteSpace '\t' htab).mpr (by decide)
  · intro hnever
    exact absurd ((scan_raw_whiteSpace '\u00a0' hspace).mp hnever) (by decide)

/-- A form feed is skipped between tokens, and yet it stands in the middle of one
with no backslash before it. -/
theorem scan_raw_formFeed :
    ¬ ∀ text, ∀ t ∈ scan text, t.kind = .raw →
      ∀ c ∈ unescaped t.value.toList, isBlank c = false := by
  intro hnever
  have hmem : '\x0c' ∈ unescaped "a\x0cb".toList := by decide
  have hscan : (⟨.raw, "a\x0cb", ⟨1, 1, ⟨0, 3⟩⟩⟩ : Token) ∈ scan "a\x0cb" := by decide +kernel
  exact absurd (hnever _ _ hscan rfl _ hmem) (by decide)

end Listfile
