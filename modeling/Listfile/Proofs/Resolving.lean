import Mathlib.Data.List.Basic
import Listfile.Condition.Evaluation
import Listfile.Proofs.ConditionGrammar
import Listfile.Proofs.ReferenceMeaning

/-!
# Resolving

Resolving goes argument by argument. What it yields need not be stable under
being resolved again: each pass decodes the escape pairs and splits at the
semicolons that the pass before has left.

* `resolve_eq_reread` — arguments without references are resolved to what they
  say, whatever the context is;
* `Token.length_reread` — a further pass drops a character for every escape
  pair that is decoded and for every semicolon that separates or is escaped;
* `Token.reread_of_settled` — where there is none of them, it changes nothing;
* `resolve_again` — a resolved condition can be resolved again, and it stays the
  same condition exactly if its arguments are settled.
-/

namespace Listfile

open Text

theorem exists_of_map_eq_ok {ε α β : Type} {x : Except ε α} {f : α → β} {b : β}
    (h : x.map f = .ok b) : ∃ a, x = .ok a ∧ f a = b := by
  cases x with
  | error e => cases h
  | ok a => exact ⟨a, rfl, Except.ok.inj h⟩

section Tokens

variable {lookup : Store → String → Option String} {t : Token} {ts us : List Token}

/-- Resolving goes token by token. -/
theorem resolve_cons_eq_ok (h : resolve lookup (t :: ts) = .ok us) :
    ∃ front back, t.resolve lookup = .ok front ∧ resolve lookup ts = .ok back ∧
      us = front ++ back := by
  obtain ⟨front, hfront, h⟩ := exists_of_bind_eq_ok h
  obtain ⟨back, hback, h⟩ := exists_of_bind_eq_ok h
  exact ⟨front, back, hfront, hback, (Except.ok.inj h).symm⟩

/-- Tokens that are not expanded stay as they are. -/
theorem Token.resolve_of_ne (hraw : t.kind ≠ .raw) (hquoted : t.kind ≠ .quoted) :
    t.resolve lookup = .ok [t] := by
  unfold Token.resolve
  split
  · rename_i hkind
    exact absurd hkind hraw
  · rename_i hkind
    exact absurd hkind hquoted
  · rfl

/-- What becomes of a token has its kind. -/
theorem Token.kind_of_resolve (h : t.resolve lookup = .ok us) : ∀ u ∈ us, u.kind = t.kind := by
  intro u hu
  unfold Token.resolve at h
  split at h
  · obtain ⟨value, -, rfl⟩ := exists_of_map_eq_ok h
    obtain ⟨v, -, rfl⟩ := List.mem_map.mp hu
    rfl
  · obtain ⟨value, -, rfl⟩ := exists_of_map_eq_ok h
    rw [List.mem_singleton.mp hu]
    rfl
  · obtain rfl := Except.ok.inj h
    rw [List.mem_singleton.mp hu]

end Tokens

/-! ## Text without references -/

/-- The text with its escape pairs decoded. -/
def decodeEscapes : List Char → List Char
  | [] => []
  | ['\\'] => ['\\']
  | '\\' :: c :: cs => decoded c ++ decodeEscapes cs
  | c :: cs => c :: decodeEscapes cs

/-- The second characters of the escape pairs of a text. -/
def escapedChars : List Char → List Char
  | [] => []
  | ['\\'] => []
  | '\\' :: c :: cs => c :: escapedChars cs
  | _ :: cs => escapedChars cs

theorem Store.opener_eq_cons (store : Store) : ∃ cs, store.opener = '$' :: cs := by
  cases store <;> exact ⟨_, rfl⟩

theorem not_opensReference_of_ne {c : Char} (cs : List Char) (hc : c ≠ '$') :
    ¬ OpensReference (c :: cs) := by
  rintro ⟨store, inside, hopen⟩
  obtain ⟨ds, hds⟩ := store.opener_eq_cons
  rw [hds] at hopen
  exact hc (List.cons.inj hopen).1

/-- No reference begins in the text. -/
def ReferenceFree (cs : List Char) : Prop :=
  ∀ store, .opener store ∉ Piece.ofChars cs

namespace ReferenceFree

variable {c : Char} {cs : List Char}

theorem not_opensReference (h : ReferenceFree cs) : ¬ OpensReference cs := by
  rintro ⟨store, inside, rfl⟩
  refine h store ?_
  rw [Piece.ofChars_opener]
  exact List.mem_cons_self

theorem of_escape (h : ReferenceFree ('\\' :: c :: cs)) : ReferenceFree cs :=
  fun store hmem => h store (List.mem_cons_of_mem _ hmem)

theorem of_char (h : ReferenceFree (c :: cs)) (hc : c ≠ '\\') : ReferenceFree cs := by
  intro store hmem
  refine h store ?_
  by_cases hbrace : c = '}'
  · rw [hbrace]
    exact List.mem_cons_of_mem _ hmem
  · rw [Piece.ofChars_literal hc hbrace h.not_opensReference]
    exact List.mem_cons_of_mem _ hmem

end ReferenceFree

/-- A reference begins with a dollar sign that is not escaped. -/
theorem referenceFree_of_hasDollar {cs : List Char} (h : hasDollar cs = false) :
    ReferenceFree cs := by
  fun_induction hasDollar cs with
  | case1 => exact fun store => List.not_mem_nil
  | case2 => exact fun store => by simp [Piece.ofChars]
  | case3 c cs ih =>
      intro store hmem
      rcases List.mem_cons.mp hmem with hpiece | hmem
      · cases hpiece
      · exact ih h store hmem
  | case4 c cs hlast hpair ih =>
      rw [Bool.or_eq_false_iff, beq_eq_false_iff_ne] at h
      obtain ⟨hdollar, hcs⟩ := h
      have hescape : c ≠ '\\' := ne_backslash_of_not_pair hlast hpair
      have hopen := not_opensReference_of_ne cs hdollar
      have hpiece : ∃ p, Piece.ofChars (c :: cs) = p :: Piece.ofChars cs ∧
          ∀ store, p ≠ .opener store := by
        by_cases hbrace : c = '}'
        · subst hbrace
          exact ⟨.closer, rfl, fun store h => by cases h⟩
        · exact ⟨.literal c, Piece.ofChars_literal hescape hbrace hopen, fun store h => by cases h⟩
      obtain ⟨p, hp, hne⟩ := hpiece
      intro store hmem
      rw [hp] at hmem
      rcases List.mem_cons.mp hmem with hsame | hmem
      · exact hne store hsame.symm
      · exact ih hcs store hmem

/-- A text without references means what it says. -/
theorem expands_decodeEscapes (ctx : Context) {cs : List Char} (h : ReferenceFree cs) :
    Expands ctx .outside cs (decodeEscapes cs) [] := by
  fun_induction decodeEscapes cs with
  | case1 => exact .done
  | case2 => exact .lastBackslash
  | case3 c cs ih => exact .escape (ih h.of_escape)
  | case4 c cs hlast hpair ih =>
      have hescape : c ≠ '\\' := ne_backslash_of_not_pair hlast hpair
      have hrest := ih (h.of_char hescape)
      by_cases hbrace : c = '}'
      · subst hbrace
        exact .strayBrace hrest
      · exact .literal hescape hbrace h.not_opensReference hrest

theorem expand_eq_decodeEscapes (ctx : Context) {text : String}
    (h : ReferenceFree text.toList) :
    expand ctx.lookup text = .ok (String.ofList (decodeEscapes text.toList)) :=
  expand_eq_ok_of_expands (expands_decodeEscapes ctx h)

/-- What resolving makes of an argument without references. -/
def Token.reread (t : Token) : List Token :=
  match t.kind with
  | .raw => (splitList (String.ofList (decodeEscapes t.value.toList))).map t.withValue
  | .quoted => [t.withValue (String.ofList (decodeEscapes t.value.toList))]
  | _ => [t]

theorem Token.resolve_eq_reread (ctx : Context) {t : Token}
    (h : t.kind = .raw ∨ t.kind = .quoted → ReferenceFree t.value.toList) :
    t.resolve ctx.lookup = .ok t.reread := by
  by_cases hraw : t.kind = .raw
  · have hexpand := expand_eq_decodeEscapes ctx (h (.inl hraw))
    simp only [Token.resolve, Token.expand, reread, hraw, hexpand]
    rfl
  by_cases hquoted : t.kind = .quoted
  · have hexpand := expand_eq_decodeEscapes ctx (h (.inr hquoted))
    simp only [Token.resolve, Token.expand, reread, hquoted, hexpand]
    rfl
  · rw [Token.resolve_of_ne hraw hquoted]
    unfold reread
    split
    · rename_i hkind
      exact absurd hkind hraw
    · rename_i hkind
      exact absurd hkind hquoted
    · rfl

/-- No context matters to arguments without references. -/
theorem resolve_eq_reread (ctx : Context) {ts : List Token}
    (h : ∀ t ∈ ts, t.kind = .raw ∨ t.kind = .quoted → t.hasReference = false) :
    resolve ctx.lookup ts = .ok (ts.flatMap Token.reread) := by
  induction ts with
  | nil => rfl
  | cons t ts ih =>
      have ht := Token.resolve_eq_reread ctx fun hkind =>
        referenceFree_of_hasDollar (h t List.mem_cons_self hkind)
      have hts := ih fun u hu => h u (List.mem_cons_of_mem t hu)
      unfold resolve
      rw [ht, hts]
      rfl

/-! ## What a further pass drops -/

theorem length_decodeEscapes (cs : List Char) :
    (decodeEscapes cs).length + (escapedChars cs).countP (· != ';') = cs.length := by
  fun_induction escapedChars cs with
  | case1 => rfl
  | case2 => rfl
  | case3 c cs ih =>
      have hdecoded : (decoded c).length + (if c != ';' then 1 else 0) = 2 := by
        unfold decoded
        split <;> simp_all
      simp only [decodeEscapes, List.length_append, List.length_cons, List.countP_cons]
      omega
  | case4 c cs hlast hpair ih =>
      rw [decodeEscapes.eq_4 c cs hlast hpair, List.length_cons, List.length_cons]
      omega

/-- Decoding leaves every semicolon in its place. -/
theorem count_semicolon_decodeEscapes (cs : List Char) :
    (decodeEscapes cs).count ';' = cs.count ';' := by
  fun_induction escapedChars cs with
  | case1 => rfl
  | case2 => rfl
  | case3 c cs ih =>
      have hdecoded : (decoded c).count ';' = [c].count ';' := by
        unfold decoded
        split <;> simp_all
      rw [decodeEscapes, List.count_append, hdecoded, ih, ← List.count_append]
      rfl
  | case4 c cs hlast hpair ih =>
      rw [decodeEscapes.eq_4 c cs hlast hpair, List.count_cons, List.count_cons, ih]

theorem decodeEscapes_eq_self {cs : List Char} (h : ∀ c ∈ escapedChars cs, c = ';') :
    decodeEscapes cs = cs := by
  fun_induction escapedChars cs with
  | case1 => rfl
  | case2 => rfl
  | case3 c cs ih =>
      obtain rfl := h c List.mem_cons_self
      rw [decodeEscapes, ih fun d hd => h d (List.mem_cons_of_mem _ hd)]
      rfl
  | case4 c cs hlast hpair ih => rw [decodeEscapes.eq_4 c cs hlast hpair, ih h]

theorem length_flatten_listElement (current : List Char) :
    (listElement current).flatten.length = current.length := by
  unfold listElement
  split
  · rename_i hempty
    rw [List.isEmpty_iff.mp hempty]
    rfl
  · rw [List.flatten_singleton, List.length_reverse]

/-- Splitting drops a character for each semicolon: the separator itself, or
the backslash in front of it. -/
theorem length_flatten_splitElements (current cs : List Char) :
    (splitElements current cs).flatten.length + cs.count ';' = current.length + cs.length := by
  fun_induction splitElements current cs with
  | case1 current => exact length_flatten_listElement current
  | case2 current => exact length_flatten_listElement ('\\' :: current)
  | case3 current cs ih =>
      simp only [List.count_cons, List.length_cons] at ih ⊢
      simp [-List.length_flatten]
      omega
  | case4 current c cs hc ih =>
      simp only [List.count_cons, List.length_cons] at ih ⊢
      simp [hc, -List.length_flatten]
      omega
  | case5 current cs hlast hpair ih =>
      simp only [List.flatten_append, List.length_append, length_flatten_listElement,
        List.count_cons, List.length_cons, List.length_nil] at ih ⊢
      simp [-List.length_flatten]
      omega
  | case6 current c cs hlast hpair hc ih =>
      simp only [List.count_cons, List.length_cons] at ih ⊢
      simp [hc, -List.length_flatten]
      omega

theorem splitElements_of_not_mem {current cs : List Char} (h : ';' ∉ cs) :
    splitElements current cs = listElement (cs.reverse ++ current) := by
  fun_induction splitElements current cs <;> simp_all

theorem ne_nil_of_mem_listElement {current x : List Char} (h : x ∈ listElement current) :
    x ≠ [] := by
  unfold listElement at h
  split at h <;> simp_all

theorem ne_nil_of_mem_splitElements {current cs x : List Char} (h : x ∈ splitElements current cs) :
    x ≠ [] := by
  fun_induction splitElements current cs with
  | case1 current => exact ne_nil_of_mem_listElement h
  | case2 current => exact ne_nil_of_mem_listElement h
  | case3 current cs ih => exact ih h
  | case4 current c cs hc ih => exact ih h
  | case5 current cs hlast hpair ih =>
      rcases List.mem_append.mp h with h | h
      · exact ne_nil_of_mem_listElement h
      · exact ih h
  | case6 current c cs hlast hpair hc ih => exact ih h

/-- A further pass finds nothing to do: the argument escapes nothing but
semicolons, and an unquoted one has no semicolon at all. -/
def Token.Settled (t : Token) : Prop :=
  (t.kind = .raw ∨ t.kind = .quoted → ∀ c ∈ escapedChars t.value.toList, c = ';') ∧
    (t.kind = .raw → ';' ∉ t.value.toList)

instance (t : Token) : Decidable t.Settled :=
  -- The characters of the value are looked through, and not all characters there are.
  haveI : Decidable (∀ c ∈ escapedChars t.value.toList, c = ';') := List.decidableBAll _ _
  inferInstanceAs (Decidable (_ ∧ _))

/-- How many characters a further pass drops. -/
def Token.excess (t : Token) : Nat :=
  match t.kind with
  | .raw => (escapedChars t.value.toList).countP (· != ';') + t.value.toList.count ';'
  | .quoted => (escapedChars t.value.toList).countP (· != ';')
  | _ => 0

theorem Token.settled_of_excess_eq_zero {t : Token} (h : t.excess = 0) : t.Settled := by
  have hescaped : (escapedChars t.value.toList).countP (· != ';') = 0 →
      ∀ c ∈ escapedChars t.value.toList, c = ';' := by
    intro hcount c hc
    have hne := List.countP_eq_zero.mp hcount c hc
    simpa using hne
  unfold excess at h
  split at h
  · obtain ⟨hcount, hsemicolon⟩ := Nat.add_eq_zero_iff.mp h
    exact ⟨fun _ => hescaped hcount, fun _ => List.count_eq_zero.mp hsemicolon⟩
  · rename_i hquoted
    refine ⟨fun _ => hescaped h, fun hraw => ?_⟩
    rw [hquoted] at hraw
    cases hraw
  · rename_i hraw hquoted
    exact ⟨fun hkind => (hkind.elim hraw hquoted).elim, fun hkind => (hraw hkind).elim⟩

/-- How many characters the values have. -/
def valueLength (ts : List Token) : Nat :=
  (ts.flatMap (·.value.toList)).length

theorem valueLength_append (ts us : List Token) :
    valueLength (ts ++ us) = valueLength ts + valueLength us := by
  unfold valueLength
  rw [List.flatMap_append, List.length_append]

theorem valueLength_singleton (t : Token) : valueLength [t] = t.value.toList.length := by
  unfold valueLength
  rw [List.flatMap_singleton]

theorem valueLength_withValue (t : Token) (values : List (List Char)) :
    valueLength ((values.map String.ofList).map t.withValue) = values.flatten.length := by
  induction values with
  | nil => rfl
  | cons value values ih =>
      rw [List.map_cons, List.map_cons, ← List.singleton_append, valueLength_append, ih,
        valueLength_singleton, List.flatten_cons, List.length_append]
      show (String.ofList value).toList.length + _ = _
      rw [String.toList_ofList]

theorem Token.length_reread (t : Token) :
    valueLength t.reread + t.excess = valueLength [t] := by
  have hdecode := length_decodeEscapes t.value.toList
  rw [valueLength_singleton]
  unfold reread excess
  split
  · have hsplit := length_flatten_splitElements [] (decodeEscapes t.value.toList)
    rw [count_semicolon_decodeEscapes, List.length_nil] at hsplit
    rw [splitList, String.toList_ofList, valueLength_withValue]
    omega
  · rw [valueLength_singleton]
    show (String.ofList _).toList.length + _ = _
    rw [String.toList_ofList]
    exact hdecode
  · rw [valueLength_singleton]
    rfl

theorem valueLength_flatMap_reread_le (ts : List Token) :
    valueLength (ts.flatMap Token.reread) ≤ valueLength ts := by
  induction ts with
  | nil => exact Nat.le_refl _
  | cons t ts ih =>
      have ht := t.length_reread
      rw [List.flatMap_cons, valueLength_append, ← List.singleton_append, valueLength_append]
      omega

/-- If no character is lost, then none is lost of any argument. -/
theorem Token.excess_eq_zero_of_mem {ts : List Token} {t : Token}
    (h : valueLength ts ≤ valueLength (ts.flatMap Token.reread)) (ht : t ∈ ts) :
    t.excess = 0 := by
  induction ts with
  | nil => cases ht
  | cons u us ih =>
      have hu := u.length_reread
      have hus := valueLength_flatMap_reread_le us
      rw [List.flatMap_cons, valueLength_append, ← List.singleton_append, valueLength_append] at h
      rcases List.mem_cons.mp ht with rfl | ht
      · omega
      · exact ih (by omega) ht

/-- An argument that is settled stays as it is, unless it is empty. -/
theorem Token.reread_of_settled {t : Token} (h : t.Settled)
    (hempty : t.kind = .raw → t.value ≠ "") : t.reread = [t] := by
  obtain ⟨hescaped, hsemicolon⟩ := h
  unfold reread
  split
  · rename_i hraw
    have helements : splitElements [] t.value.toList = [t.value.toList] := by
      rw [splitElements_of_not_mem (hsemicolon hraw), List.append_nil, listElement,
        List.isEmpty_reverse, List.reverse_reverse]
      refine if_neg ?_
      rw [List.isEmpty_iff, String.toList_eq_nil_iff]
      exact hempty hraw
    rw [splitList, decodeEscapes_eq_self (hescaped (.inl hraw)), String.toList_ofList, helements,
      List.map_singleton, String.ofList_toList]
    rfl
  · rename_i hquoted
    rw [decodeEscapes_eq_self (hescaped (.inr hquoted)), String.ofList_toList]
    rfl
  · rfl

/-! ## Resolving again -/

/-- Splitting yields no empty argument. -/
theorem Token.value_ne_empty_of_resolve {lookup : Store → String → Option String} {t u : Token}
    {us : List Token} (h : t.resolve lookup = .ok us) (hu : u ∈ us) (hraw : u.kind = .raw) :
    u.value ≠ "" := by
  have hkind := Token.kind_of_resolve h u hu
  rw [hraw] at hkind
  unfold Token.resolve at h
  rw [← hkind] at h
  obtain ⟨value, -, rfl⟩ := exists_of_map_eq_ok h
  obtain ⟨v, hv, rfl⟩ := List.mem_map.mp hu
  obtain ⟨cs, hcs, rfl⟩ := List.mem_map.mp hv
  intro hempty
  exact ne_nil_of_mem_splitElements hcs (String.ofList_eq_empty_iff.mp hempty)

theorem value_ne_empty_of_resolve {lookup : Store → String → Option String} {ts us : List Token}
    (h : resolve lookup ts = .ok us) : ∀ u ∈ us, u.kind = .raw → u.value ≠ "" := by
  induction ts generalizing us with
  | nil =>
      cases h
      nofun
  | cons t ts ih =>
      obtain ⟨front, back, hfront, hback, rfl⟩ := resolve_cons_eq_ok h
      intro u hu hraw
      rcases List.mem_append.mp hu with hu | hu
      · exact Token.value_ne_empty_of_resolve hfront hu hraw
      · exact ih hback u hu hraw

/-- **Resolving a resolved condition.** Once no reference is left in it, a
condition can always be resolved again: the escape pairs that are left in its
arguments are decoded, and those that are not quoted are split at their
semicolons. It is the same condition afterwards exactly if its arguments are
settled, and then it is evaluated as before. -/
theorem resolve_again {engine : PatternEngine} {ctx : Context} {ts resolved : List Token}
    (h : resolve ctx.lookup ts = .ok resolved)
    (hrefs : ∀ t ∈ resolved, t.kind = .raw ∨ t.kind = .quoted → t.hasReference = false) :
    ∃ again, resolve ctx.lookup resolved = .ok again ∧
      again = resolved.flatMap Token.reread ∧
      (again = resolved ↔ ∀ t ∈ resolved, t.Settled) ∧
      ((∀ t ∈ resolved, t.Settled) →
        evaluate engine ctx again = evaluate engine ctx resolved) := by
  have hnonempty := value_ne_empty_of_resolve h
  have hstays : (∀ t ∈ resolved, t.Settled) → resolved.flatMap Token.reread = resolved := by
    intro hsettled
    have hreread : ∀ t ∈ resolved, t.reread = [t] := fun t ht =>
      Token.reread_of_settled (hsettled t ht) (hnonempty t ht)
    rw [List.flatMap_congr hreread, List.flatMap_singleton']
  refine ⟨resolved.flatMap Token.reread, resolve_eq_reread ctx hrefs, rfl, ⟨?_, hstays⟩, ?_⟩
  · intro hsame t ht
    -- The values have not become shorter, so no argument has lost a character.
    have hlength : valueLength resolved ≤ valueLength (resolved.flatMap Token.reread) :=
      Nat.le_of_eq (congrArg valueLength hsame.symm)
    exact Token.settled_of_excess_eq_zero (Token.excess_eq_zero_of_mem hlength ht)
  · intro hsettled
    rw [hstays hsettled]

/-- A list value and an escaped semicolon: the condition stays the same. -/
theorem resolve_again_of_list :
    let engine : PatternEngine := fun _ => .ok fun _ => false
    let ctx := (Context.empty fun _ => .ok false).setVar "L" "NOT;OFF"
    let place : Location := ⟨1, 1, ⟨0, 4⟩⟩
    let ts : List Token :=
      [⟨.raw, "${L}", place⟩, ⟨.raw, "OR", place⟩, ⟨.quoted, "a\\;", place⟩]
    let resolved : List Token :=
      [⟨.raw, "NOT", place⟩, ⟨.raw, "OFF", place⟩, ⟨.raw, "OR", place⟩,
        ⟨.quoted, "a\\;", place⟩]
    resolve ctx.lookup ts = .ok resolved ∧
      (∀ t ∈ resolved, t.kind = .raw ∨ t.kind = .quoted → t.hasReference = false) ∧
      ∃ again, resolve ctx.lookup resolved = .ok again ∧ evaluate engine ctx again = .ok true := by
  intro engine ctx place ts resolved
  have hresolve : resolve ctx.lookup ts = .ok resolved := by decide +kernel
  have hrefs : ∀ t ∈ resolved, t.kind = .raw ∨ t.kind = .quoted → t.hasReference = false := by
    decide +kernel
  have hsettled : ∀ t ∈ resolved, t.Settled := by decide +kernel
  have htrue : evaluate engine ctx resolved = .ok true := by decide +kernel
  obtain ⟨again, hagain, -, -, hevaluate⟩ := resolve_again hresolve hrefs
  exact ⟨hresolve, hrefs, again, hagain, (hevaluate hsettled).trans htrue⟩

/-- A quoted argument `\\1` says `\1` once it is resolved, which is false, and
`1` when it is resolved again, which is true. -/
theorem resolve_again_decodes :
    let engine : PatternEngine := fun _ => .ok fun _ => false
    let ctx := Context.empty fun _ => .ok false
    let place : Location := ⟨1, 1, ⟨0, 3⟩⟩
    let ts : List Token := [⟨.quoted, "\\\\1", place⟩]
    let resolved : List Token := [⟨.quoted, "\\1", place⟩]
    resolve ctx.lookup ts = .ok resolved ∧
      (∀ t ∈ resolved, t.kind = .raw ∨ t.kind = .quoted → t.hasReference = false) ∧
      ¬ ∃ again, resolve ctx.lookup resolved = .ok again ∧
        evaluate engine ctx again = evaluate engine ctx resolved := by
  intro engine ctx place ts resolved
  refine ⟨by decide +kernel, by decide +kernel, ?_⟩
  rintro ⟨again, hagain, hevaluate⟩
  have hdecoded : resolve ctx.lookup resolved = .ok [⟨.quoted, "1", place⟩] := by
    decide +kernel
  rw [hdecoded] at hagain
  cases hagain
  have hfalse : evaluate engine ctx resolved = .ok false := by decide +kernel
  have htrue : evaluate engine ctx [⟨.quoted, "1", place⟩] = .ok true := by decide +kernel
  rw [hfalse, htrue] at hevaluate
  cases hevaluate

end Listfile
