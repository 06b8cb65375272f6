import Mathlib.Algebra.Group.Nat.Even
import Mathlib.Data.List.DropRight
import Listfile.ListValue
import Listfile.Token

/-!
# Writing list values

A list value is written from its elements by escaping the semicolons inside of
them and putting a semicolon between two of them. Splitting takes the escapes of
semicolons away and keeps every other escape pair, so it forgets which
semicolons were escaped and not every sequence of texts comes from a value:
whether a semicolon separates is decided by the number of backslashes in front
of it.

* `areElements_splitElements` — what splitting yields: no backslash that is left
  over stands in front of a semicolon or at the end of an element that another
  one follows;
* `EvenBeforeSemicolons.paired` — such an element is made of whole escape pairs,
  but for a backslash at its very end;
* `Paired.splitElements_escapeSemicolons` — whole escape pairs are read back as
  they were written, whatever stands behind them;
* `splitList_encodeList` — splitting undoes the writing of exactly these
  elements.
-/

namespace Listfile

/-! ## Writing elements -/

/-- The text with a backslash in front of every semicolon. -/
def escapeSemicolons (cs : List Char) : List Char :=
  cs.flatMap fun c => if c = ';' then ['\\', ';'] else [c]

/-- The characters of the list value with the given elements. -/
def encodeElements (xs : List (List Char)) : List Char :=
  [';'].intercalate (xs.map escapeSemicolons)

/-- The list value with the given elements. -/
def encodeList (elements : List String) : String :=
  String.ofList (encodeElements (elements.map String.toList))

/-- The length of the run of backslashes at the end of a text. -/
def endingBackslashes (cs : List Char) : Nat :=
  (cs.rtakeWhile (· = '\\')).length

/-- Every run of backslashes in front of a semicolon has an even length. -/
def EvenBeforeSemicolons (cs : List Char) : Prop :=
  ∀ before after, cs = before ++ ';' :: after → Even (endingBackslashes before)

/-- What texts have to be like to be the elements of a list value. -/
structure AreElements (xs : List (List Char)) : Prop where
  nonempty : ∀ x ∈ xs, x ≠ []
  semicolons : ∀ x ∈ xs, EvenBeforeSemicolons x
  /-- Only the last element can end with a backslash that would escape the
  semicolon behind it. -/
  separated : ∀ x ∈ xs.dropLast, Even (endingBackslashes x)

/-! ## Runs of backslashes -/

theorem endingBackslashes_backslash (cs : List Char) :
    endingBackslashes (cs ++ ['\\']) = endingBackslashes cs + 1 := by
  unfold endingBackslashes
  rw [List.rtakeWhile_concat_pos _ _ _ (by decide), List.length_append, List.length_singleton]

theorem endingBackslashes_of_ne {c : Char} (cs : List Char) (hc : c ≠ '\\') :
    endingBackslashes (cs ++ [c]) = 0 := by
  unfold endingBackslashes
  rw [List.rtakeWhile_concat_neg _ _ _ (by simpa using hc), List.length_nil]

theorem EvenBeforeSemicolons.nil : EvenBeforeSemicolons [] := by
  intro before after h
  simp at h

theorem EvenBeforeSemicolons.concat {cs : List Char} {c : Char} (h : EvenBeforeSemicolons cs)
    (hc : c = ';' → Even (endingBackslashes cs)) : EvenBeforeSemicolons (cs ++ [c]) := by
  intro before after heq
  rcases List.eq_nil_or_concat' after with rfl | ⟨after, d, rfl⟩
  · obtain ⟨rfl, hlast⟩ := List.append_inj' heq rfl
    exact hc (List.singleton_inj.mp hlast)
  · have hassoc : before ++ ';' :: (after ++ [d]) = (before ++ ';' :: after) ++ [d] := by simp
    obtain ⟨hfront, -⟩ := List.append_inj' (heq.trans hassoc) rfl
    exact h before after hfront

theorem EvenBeforeSemicolons.of_concat {cs : List Char} {c : Char}
    (h : EvenBeforeSemicolons (cs ++ [c])) : EvenBeforeSemicolons cs := by
  rintro before after rfl
  exact h before (after ++ [c]) (by simp)

/-- The beginning of an element, up to where an escape pair can begin. -/
structure IsWhole (cs : List Char) : Prop where
  semicolons : EvenBeforeSemicolons cs
  ending : Even (endingBackslashes cs)

namespace IsWhole

variable {cs : List Char} {c : Char}

theorem nil : IsWhole [] :=
  ⟨.nil, Even.zero⟩

theorem char (h : IsWhole cs) (hc : c ≠ '\\') : IsWhole (cs ++ [c]) := by
  refine ⟨h.semicolons.concat fun _ => h.ending, ?_⟩
  rw [endingBackslashes_of_ne cs hc]
  exact Even.zero

/-- A backslash alone at the end. -/
theorem backslash (h : IsWhole cs) : EvenBeforeSemicolons (cs ++ ['\\']) :=
  h.semicolons.concat fun _ => h.ending

theorem pair (h : IsWhole cs) (hc : c ≠ ';') : IsWhole (cs ++ ['\\', c]) := by
  rw [List.append_cons cs '\\' [c]]
  refine ⟨h.backslash.concat fun hsemicolon => absurd hsemicolon hc, ?_⟩
  by_cases hescape : c = '\\'
  · rw [hescape, endingBackslashes_backslash, endingBackslashes_backslash]
    exact Nat.even_add_one.mpr fun hodd => Nat.even_add_one.mp hodd h.ending
  · rw [endingBackslashes_of_ne _ hescape]
    exact Even.zero

end IsWhole

/-! ## What splitting yields -/

theorem listElement_of_ne_nil {current : List Char} (h : current ≠ []) :
    listElement current = [current.reverse] := by
  unfold listElement
  rw [if_neg]
  simpa using h

theorem AreElements.nil : AreElements [] :=
  ⟨nofun, nofun, nofun⟩

/-- The last element. -/
theorem AreElements.listElement {current : List Char}
    (h : EvenBeforeSemicolons current.reverse) : AreElements (listElement current) := by
  by_cases hempty : current = []
  · rw [hempty]
    exact .nil
  · rw [listElement_of_ne_nil hempty]
    refine ⟨?_, ?_, nofun⟩
    · intro x hx
      rw [List.mem_singleton.mp hx]
      simpa using hempty
    · intro x hx
      rw [List.mem_singleton.mp hx]
      exact h

/-- An element in front of others. -/
theorem AreElements.cons {x : List Char} {xs : List (List Char)} (hx : x ≠ []) (h : IsWhole x)
    (hxs : AreElements xs) : AreElements (x :: xs) := by
  constructor
  · intro y hy
    rcases List.mem_cons.mp hy with rfl | hy
    · exact hx
    · exact hxs.nonempty y hy
  · intro y hy
    rcases List.mem_cons.mp hy with rfl | hy
    · exact h.semicolons
    · exact hxs.semicolons y hy
  · intro y hy
    cases xs with
    | nil => cases hy
    | cons z zs =>
        rw [List.dropLast_cons_cons] at hy
        rcases List.mem_cons.mp hy with rfl | hy
        · exact h.ending
        · exact hxs.separated y hy

/-- The invariant of splitting: what was read of an element is whole. -/
theorem areElements_splitElements {current cs : List Char} (h : IsWhole current.reverse) :
    AreElements (splitElements current cs) := by
  fun_induction splitElements current cs with
  | case1 current => exact .listElement h.semicolons
  | case2 current =>
      refine .listElement ?_
      rw [List.reverse_cons]
      exact h.backslash
  | case3 current cs ih =>
      refine ih ?_
      rw [List.reverse_cons]
      exact h.char (by decide)
  | case4 current c cs hc ih =>
      refine ih ?_
      rw [List.reverse_cons, List.reverse_cons, List.append_assoc]
      exact h.pair hc
  | case5 current cs hlast hpair ih =>
      have hrest : AreElements (splitElements [] cs) := ih .nil
      by_cases hempty : current = []
      · rw [hempty]
        exact hrest
      · rw [listElement_of_ne_nil hempty]
        refine .cons ?_ h hrest
        simpa using hempty
  | case6 current c cs hlast hpair hc ih =>
      refine ih ?_
      rw [List.reverse_cons]
      exact h.char (ne_backslash_of_not_pair hlast hpair)

/-! ## Reading elements back -/

/-- The text is made of escape pairs, none of them of a semicolon, and of other
characters. -/
inductive Paired : List Char → Prop
  | nil : Paired []
  | pair {c : Char} {cs : List Char} (hc : c ≠ ';') (hrest : Paired cs) : Paired ('\\' :: c :: cs)
  | char {c : Char} {cs : List Char} (hc : c ≠ '\\') (hrest : Paired cs) : Paired (c :: cs)

theorem Paired.append {cs ds : List Char} (h : Paired cs) (hds : Paired ds) :
    Paired (cs ++ ds) := by
  induction h with
  | nil => exact hds
  | pair hc _ ih => exact .pair hc ih
  | char hc _ ih => exact .char hc ih

/-- An even number of backslashes at the end pairs up with itself, and from an
odd number one is left over. -/
theorem EvenBeforeSemicolons.paired_or {cs : List Char} (h : EvenBeforeSemicolons cs) :
    (Paired cs ∧ Even (endingBackslashes cs)) ∨
      ∃ front, cs = front ++ ['\\'] ∧ Paired front ∧ ¬ Even (endingBackslashes cs) := by
  induction cs using List.reverseRecOn with
  | nil => exact .inl ⟨.nil, Even.zero⟩
  | append_singleton cs c ih =>
      rcases ih h.of_concat with ⟨hpaired, heven⟩ | ⟨front, rfl, hpaired, hodd⟩
      · by_cases hc : c = '\\'
        · subst hc
          refine .inr ⟨cs, rfl, hpaired, ?_⟩
          rw [endingBackslashes_backslash, Nat.even_add_one]
          exact fun hodd => hodd heven
        · refine .inl ⟨hpaired.append (.char hc .nil), ?_⟩
          rw [endingBackslashes_of_ne cs hc]
          exact Even.zero
      · -- The backslash that was left over pairs up with this character.
        have hsemicolon : c ≠ ';' := by
          rintro rfl
          exact hodd (h _ [] rfl)
        refine .inl ⟨?_, ?_⟩
        · rw [List.append_assoc]
          exact hpaired.append (.pair hsemicolon .nil)
        · by_cases hc : c = '\\'
          · rw [hc, endingBackslashes_backslash]
            exact Nat.even_add_one.mpr hodd
          · rw [endingBackslashes_of_ne _ hc]
            exact Even.zero

theorem escapeSemicolons_append (cs ds : List Char) :
    escapeSemicolons (cs ++ ds) = escapeSemicolons cs ++ escapeSemicolons ds :=
  List.flatMap_append

theorem escapeSemicolons_semicolon (cs : List Char) :
    escapeSemicolons (';' :: cs) = '\\' :: ';' :: escapeSemicolons cs :=
  rfl

theorem escapeSemicolons_of_ne {c : Char} (cs : List Char) (hc : c ≠ ';') :
    escapeSemicolons (c :: cs) = c :: escapeSemicolons cs := by
  unfold escapeSemicolons
  rw [List.flatMap_cons, if_neg hc]
  rfl

/-- Whole escape pairs are read back as they were written. -/
theorem Paired.splitElements_escapeSemicolons {cs : List Char} (h : Paired cs)
    (current rest : List Char) :
    splitElements current (escapeSemicolons cs ++ rest) =
      splitElements (cs.reverse ++ current) rest := by
  induction h generalizing current with
  | nil => rfl
  | @pair c cs hc _ ih =>
      have hstep : splitElements current ('\\' :: c :: (escapeSemicolons cs ++ rest)) =
          splitElements (c :: '\\' :: current) (escapeSemicolons cs ++ rest) := by
        rw [splitElements, if_neg hc]
      rw [escapeSemicolons_of_ne _ (by decide), escapeSemicolons_of_ne _ hc]
      show splitElements current ('\\' :: c :: (escapeSemicolons cs ++ rest)) = _
      rw [hstep, ih]
      simp
  | @char c cs hc _ ih =>
      by_cases hsemicolon : c = ';'
      · subst hsemicolon
        rw [escapeSemicolons_semicolon]
        show splitElements (';' :: current) (escapeSemicolons cs ++ rest) = _
        rw [ih]
        simp
      · have hstep : splitElements current (c :: (escapeSemicolons cs ++ rest)) =
            splitElements (c :: current) (escapeSemicolons cs ++ rest) := by
          rw [splitElements.eq_4 _ _ _ (by simp [hc]) (by simp [hc]), if_neg hsemicolon]
        rw [escapeSemicolons_of_ne _ hsemicolon]
        show splitElements current (c :: (escapeSemicolons cs ++ rest)) = _
        rw [hstep, ih]
        simp

/-- The last element may end with a backslash that is left over. -/
theorem EvenBeforeSemicolons.splitElements_escapeSemicolons {cs : List Char}
    (h : EvenBeforeSemicolons cs) :
    splitElements [] (escapeSemicolons cs) = listElement cs.reverse := by
  rcases h.paired_or with ⟨hpaired, -⟩ | ⟨front, rfl, hpaired, -⟩
  · have hread := hpaired.splitElements_escapeSemicolons [] []
    rwa [List.append_nil, List.append_nil] at hread
  · have hread := hpaired.splitElements_escapeSemicolons [] ['\\']
    rw [List.append_nil] at hread
    rw [escapeSemicolons_append, List.reverse_append]
    exact hread

theorem splitElements_encodeElements {xs : List (List Char)} (h : AreElements xs) :
    splitElements [] (encodeElements xs) = xs := by
  induction xs with
  | nil => rfl
  | cons x xs ih =>
      have hx : x.reverse ≠ [] := by
        simpa using h.nonempty x List.mem_cons_self
      have hsemicolons := h.semicolons x List.mem_cons_self
      cases xs with
      | nil =>
          show splitElements [] (escapeSemicolons x ++ []) = [x]
          rw [List.append_nil, hsemicolons.splitElements_escapeSemicolons,
            listElement_of_ne_nil hx, List.reverse_reverse]
      | cons y ys =>
          have hrest : AreElements (y :: ys) :=
            ⟨fun z hz => h.nonempty z (List.mem_cons_of_mem x hz),
              fun z hz => h.semicolons z (List.mem_cons_of_mem x hz),
              fun z hz => h.separated z (List.mem_cons_of_mem x hz)⟩
          have hpaired : Paired x := by
            rcases hsemicolons.paired_or with ⟨hpaired, -⟩ | ⟨front, -, -, hodd⟩
            · exact hpaired
            · exact absurd (h.separated x List.mem_cons_self) hodd
          have hencode : encodeElements (x :: y :: ys) =
              escapeSemicolons x ++ ';' :: encodeElements (y :: ys) := by
            unfold encodeElements
            rw [List.map_cons, List.map_cons, List.intercalate_cons_cons, List.append_assoc]
            rfl
          rw [hencode, hpaired.splitElements_escapeSemicolons, List.append_nil]
          show listElement x.reverse ++ splitElements [] (encodeElements (y :: ys)) = _
          rw [ih hrest, listElement_of_ne_nil hx, List.reverse_reverse]
          rfl

/-! ## List values -/

theorem areElements_splitList (value : String) :
    AreElements ((splitList value).map String.toList) := by
  have hsplit : (splitList value).map String.toList = splitElements [] value.toList := by
    unfold splitList
    rw [List.map_map]
    exact List.map_id'' (fun _ => String.toList_ofList) _
  rw [hsplit]
  exact areElements_splitElements .nil

theorem splitList_encodeList_of_areElements {elements : List String}
    (h : AreElements (elements.map String.toList)) :
    splitList (encodeList elements) = elements := by
  unfold splitList encodeList
  rw [String.toList_ofList, splitElements_encodeElements h, List.map_map]
  exact List.map_id'' (fun _ => String.ofList_toList) _

/-- **Splitting undoes writing on its image.** The elements of a list value are
read back from what is written of them. Texts are the elements of some value
exactly if none of them is empty, every run of backslashes in front of a
semicolon is even, and so is the run at the end of each but the last; and these
are the texts that are read back as they were. -/
theorem splitList_encodeList :
    (∀ value, splitList (encodeList (splitList value)) = splitList value) ∧
    ∀ elements : List String,
      ((∃ value, splitList value = elements) ↔ AreElements (elements.map String.toList)) ∧
      (AreElements (elements.map String.toList) ↔
        splitList (encodeList elements) = elements) := by
  refine ⟨fun value => ?_, fun elements => ⟨⟨?_, ?_⟩, ?_, ?_⟩⟩
  · exact splitList_encodeList_of_areElements (areElements_splitList value)
  · rintro ⟨value, rfl⟩
    exact areElements_splitList value
  · intro h
    exact ⟨encodeList elements, splitList_encodeList_of_areElements h⟩
  · exact splitList_encodeList_of_areElements
  · intro h
    rw [← h]
    exact areElements_splitList (encodeList elements)

/-- A backslash at the end of an element that another one follows takes the
semicolon between them away. -/
example : splitList (encodeList ["a\\", "b"]) = ["a;b"] := by decide +kernel

end Listfile
