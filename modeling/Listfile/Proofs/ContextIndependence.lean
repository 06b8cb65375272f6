import Listfile.Proofs.Resolving

/-!
# Arguments that no context changes

Some arguments are resolved alike in every context. Those that are kept as a
condition hold no dollar sign that is not escaped, so no reference begins in
them. Others stay as they are altogether: nothing in them is replaced, decoded,
split or left out.

That nothing else stays as it is can be told from the context in which nothing
is bound. There no argument is resolved to a longer text, so a sequence of
arguments that is resolved to itself has not lost a character anywhere, even
though one argument may vanish while another is split.

* `resolve_of_condition` — no variable matters to the arguments of a condition;
* `Expands.length_le` — where nothing is bound, a text does not grow;
* `Expands.verbatim` — a text that does not shrink either stands for itself;
* `resolve_eq_self_iff` — the arguments that every context leaves alone.
-/

namespace Listfile

/-! ## Arguments of conditions -/

theorem Arguments.hasReference_of_ofCondition {ts : List Token}
    (h : ofCondition ts = .condition ts) :
    ∀ t ∈ ts, t.kind = .raw ∨ t.kind = .quoted → t.hasReference = false := by
  unfold ofCondition at h
  split at h
  · cases h
  · rename_i hresolved
    intro t ht hkind
    by_contra href
    refine hresolved (List.any_eq_true.mpr ⟨t, ht, ?_⟩)
    unfold Token.isUnresolved
    rw [Bool.not_eq_false] at href
    rw [href, Bool.and_true, Bool.or_eq_true]
    simpa using hkind

/-- **Conditions do not depend on variables.** Arguments that are kept as a
condition can be resolved, and they are resolved alike in any two contexts. -/
theorem resolve_of_condition {ts : List Token} (h : Arguments.ofCondition ts = .condition ts)
    (ctx₁ ctx₂ : Context) :
    ∃ us, resolve ctx₁.lookup ts = .ok us ∧ resolve ctx₂.lookup ts = .ok us := by
  have hrefs := Arguments.hasReference_of_ofCondition h
  exact ⟨ts.flatMap Token.reread, resolve_eq_reread ctx₁ hrefs, resolve_eq_reread ctx₂ hrefs⟩

/-- Dollar signs that are escaped, one of them behind an escaped backslash, and
one that a bracket argument keeps from being read. -/
theorem resolve_of_condition_of_escaped_dollars :
    let place : Location := ⟨1, 1, ⟨0, 9⟩⟩
    let ts : List Token :=
      [⟨.raw, "\\${A}", place⟩, ⟨.quoted, "\\\\\\$ENV{A}", place⟩, ⟨.bracketed, "${A}", place⟩]
    let empty := Context.empty fun _ => .ok false
    let bound := (empty.setVar "A" "x;y").setEnv "A" "z"
    Arguments.ofCondition ts = .condition ts ∧
      ∃ us, resolve bound.lookup ts = .ok us ∧ resolve empty.lookup ts = .ok us := by
  intro place ts empty bound
  have hcondition : Arguments.ofCondition ts = .condition ts := by decide +kernel
  exact ⟨hcondition, resolve_of_condition hcondition bound empty⟩

/-! ## Text that stands for itself -/

/-- The text escapes nothing but semicolons, and no reference is written in
it. -/
structure Verbatim (cs : List Char) : Prop where
  escapes : ∀ c ∈ escapedChars cs, c = ';'
  openers : ∀ store : Store, ¬ store.opener <:+: cs

/-- A reference that begins in a text is written there. -/
theorem referenceFree_of_not_infix {cs : List Char}
    (h : ∀ store : Store, ¬ store.opener <:+: cs) : ReferenceFree cs := by
  intro store hmem
  obtain ⟨before, after, hpieces⟩ := List.append_of_mem hmem
  refine h store ⟨before.flatMap Piece.text, after.flatMap Piece.text, ?_⟩
  rw [← Piece.flatMap_text_ofChars cs, hpieces, ← Piece.text_opener, List.append_assoc,
    List.flatMap_append, List.flatMap_cons]

theorem Verbatim.referenceFree {cs : List Char} (h : Verbatim cs) : ReferenceFree cs :=
  referenceFree_of_not_infix h.openers

theorem escapedChars_of_ne {c : Char} (cs : List Char) (hc : c ≠ '\\') :
    escapedChars (c :: cs) = escapedChars cs := by
  cases cs <;> simp [escapedChars, hc]

namespace Verbatim

variable {c : Char} {cs : List Char}

theorem nil : Verbatim [] := by
  refine ⟨nofun, fun store h => ?_⟩
  have hpos := store.opener_length_pos
  rw [List.infix_nil.mp h] at hpos
  exact Nat.lt_irrefl 0 hpos

/-- What stands in front of a text that stands for itself and begins no
reference. -/
theorem openers_cons (hopen : ¬ OpensReference (c :: cs))
    (h : ∀ store : Store, ¬ store.opener <:+: cs) (store : Store) :
    ¬ store.opener <:+: c :: cs := by
  intro hinfix
  rcases List.infix_cons_iff.mp hinfix with ⟨inside, hinside⟩ | hinfix
  · exact hopen ⟨store, inside, hinside.symm⟩
  · exact h store hinfix

theorem lastBackslash : Verbatim ['\\'] :=
  ⟨nofun, openers_cons (not_opensReference_of_ne [] (by decide)) nil.openers⟩

theorem escape (h : Verbatim cs) : Verbatim ('\\' :: ';' :: cs) := by
  refine ⟨List.forall_mem_cons.mpr ⟨rfl, h.escapes⟩, ?_⟩
  have hsemicolon := openers_cons (not_opensReference_of_ne cs (by decide : ';' ≠ '$')) h.openers
  exact openers_cons (not_opensReference_of_ne _ (by decide)) hsemicolon

theorem char (hc : c ≠ '\\') (hopen : ¬ OpensReference (c :: cs)) (h : Verbatim cs) :
    Verbatim (c :: cs) := by
  refine ⟨?_, openers_cons hopen h.openers⟩
  rw [escapedChars_of_ne cs hc]
  exact h.escapes

end Verbatim

/-! ### Where nothing is bound -/

theorem Context.value_empty (probe : Probe) (store : Store) (name : String) :
    (empty probe).value store name = "" := by
  cases store <;> exact Std.TreeMap.getD_emptyc

theorem length_decoded_le (c : Char) : (decoded c).length ≤ 2 := by
  unfold decoded
  split <;> simp

/-- An escape pair that keeps its length is one of a semicolon. -/
theorem eq_semicolon_of_two_le {c : Char} (h : 2 ≤ (decoded c).length) : c = ';' := by
  unfold decoded at h
  split at h <;> simp_all

section Unbound

variable {probe : Probe} {place : Place} {cs value rest : List Char}

/-- Where nothing is bound, a text does not grow. -/
theorem Expands.length_le (h : Expands (.empty probe) place cs value rest) :
    value.length + rest.length ≤ cs.length := by
  induction h with
  | done => simp
  | @escape place c cs value rest _ ih =>
      have hc := length_decoded_le c
      simp only [List.length_append, List.length_cons]
      omega
  | lastBackslash => simp
  | strayBrace _ ih =>
      simp only [List.length_cons]
      omega
  | literal _ _ _ _ ih =>
      simp only [List.length_cons]
      omega
  | @reference place store cs name after value rest _ _ ihinside ihrest =>
      rw [Context.value_empty]
      simp only [List.length_append, List.length_cons] at ihinside ⊢
      simp
      omega

/-- A text that does not shrink either stands for itself. -/
theorem Expands.verbatim (h : Expands (.empty probe) place cs value rest) (hrest : rest = [])
    (hlength : cs.length ≤ value.length) : value = cs ∧ Verbatim cs := by
  induction h with
  | done =>
      rw [hrest]
      exact ⟨rfl, .nil⟩
  | @escape place c cs value rest hcs ih =>
      have hc := length_decoded_le c
      have hcs := hcs.length_le
      simp only [List.length_append, List.length_cons] at hlength
      obtain rfl := eq_semicolon_of_two_le (c := c) (by omega)
      obtain ⟨rfl, hverbatim⟩ := ih hrest (by omega)
      exact ⟨rfl, hverbatim.escape⟩
  | lastBackslash => exact ⟨rfl, .lastBackslash⟩
  | strayBrace _ ih =>
      simp only [List.length_cons] at hlength
      obtain ⟨rfl, hverbatim⟩ := ih hrest (by omega)
      exact ⟨rfl, hverbatim.char (by decide) (not_opensReference_of_ne _ (by decide))⟩
  | literal hescape _ hopen _ ih =>
      simp only [List.length_cons] at hlength
      obtain ⟨rfl, hverbatim⟩ := ih hrest (by omega)
      exact ⟨rfl, hverbatim.char hescape hopen⟩
  | @reference place store cs name after value rest hinside hafter =>
      -- The name is dropped together with the braces around it.
      have hinside := hinside.length_le
      have hafter := hafter.length_le
      rw [Context.value_empty] at hlength
      simp only [List.length_append, List.length_cons] at hinside hlength
      simp at hlength
      omega

end Unbound

/-! ## Arguments that stay as they are -/

/-- Nothing in the argument can be replaced, decoded, split or left out. -/
def Token.IsFinal (t : Token) : Prop :=
  match t.kind with
  | .raw => t.value ≠ "" ∧ ';' ∉ t.value.toList ∧ '\\' ∉ t.value.toList.dropLast ∧
      ∀ store : Store, ¬ store.opener <:+: t.value.toList
  | .quoted => Verbatim t.value.toList
  | _ => True

theorem escapedChars_subset (cs : List Char) : escapedChars cs ⊆ cs := by
  fun_induction escapedChars cs with
  | case1 => exact List.Subset.refl _
  | case2 => exact List.nil_subset _
  | case3 c cs ih =>
      refine List.subset_cons_of_subset _ ?_
      exact List.cons_subset_cons c ih
  | case4 c cs hlast hpair ih => exact List.subset_cons_of_subset c ih

/-- Escape pairs are what backslashes before the last character make. -/
theorem escapedChars_eq_nil_iff {cs : List Char} :
    escapedChars cs = [] ↔ '\\' ∉ cs.dropLast := by
  fun_induction escapedChars cs with
  | case1 => simp
  | case2 => simp
  | case3 c cs ih => simp
  | case4 c cs hlast hpair ih =>
      have hescape : '\\' ≠ c := (ne_backslash_of_not_pair hlast hpair).symm
      cases cs with
      | nil => simp [escapedChars]
      | cons d ds =>
          rw [ih, List.dropLast_cons_cons, List.mem_cons]
          simp [hescape]

namespace Token

variable {ctx : Context} {t : Token} {us : List Token}

theorem IsFinal.verbatim (h : t.IsFinal) (hkind : t.kind = .raw ∨ t.kind = .quoted) :
    Verbatim t.value.toList := by
  unfold IsFinal at h
  rcases hkind with hraw | hquoted
  · simp only [hraw] at h
    obtain ⟨-, -, hescape, hopeners⟩ := h
    refine ⟨?_, hopeners⟩
    rw [escapedChars_eq_nil_iff.mpr hescape]
    exact nofun
  · simp only [hquoted] at h
    exact h

theorem IsFinal.raw (h : t.IsFinal) (hraw : t.kind = .raw) :
    t.value ≠ "" ∧ ';' ∉ t.value.toList := by
  unfold IsFinal at h
  simp only [hraw] at h
  exact ⟨h.1, h.2.1⟩

/-- Such an argument stays as it is in every context. -/
theorem IsFinal.resolve_eq (ctx : Context) (h : t.IsFinal) : t.resolve ctx.lookup = .ok [t] := by
  have hsettled : t.Settled :=
    ⟨fun hkind => (h.verbatim hkind).escapes, fun hraw => (h.raw hraw).2⟩
  rw [resolve_eq_reread ctx fun hkind => (h.verbatim hkind).referenceFree,
    reread_of_settled hsettled fun hraw => (h.raw hraw).1]

theorem expands_of_expand_eq_ok {value : String} (h : t.expand ctx.lookup = .ok value) :
    Expands ctx .outside t.value.toList value.toList [] := by
  unfold Token.expand at h
  split at h
  · rename_i hexpand
    cases h
    exact Listfile.expands_of_expand_eq_ok hexpand
  · cases h

/-- An unquoted argument is expanded, and splitting drops a character for each
semicolon. -/
theorem exists_expands_of_raw (hraw : t.kind = .raw) (h : t.resolve ctx.lookup = .ok us) :
    ∃ value, Expands ctx .outside t.value.toList value [] ∧
      valueLength us + value.count ';' = value.length := by
  unfold Token.resolve at h
  simp only [hraw] at h
  obtain ⟨value, hexpand, rfl⟩ := exists_of_map_eq_ok h
  refine ⟨value.toList, expands_of_expand_eq_ok hexpand, ?_⟩
  have hsplit := length_flatten_splitElements [] value.toList
  rw [splitList, valueLength_withValue, hsplit, List.length_nil, Nat.zero_add]

theorem exists_expands_of_quoted (hquoted : t.kind = .quoted)
    (h : t.resolve ctx.lookup = .ok us) :
    ∃ value, Expands ctx .outside t.value.toList value [] ∧ valueLength us = value.length := by
  unfold Token.resolve at h
  simp only [hquoted] at h
  obtain ⟨value, hexpand, rfl⟩ := exists_of_map_eq_ok h
  exact ⟨value.toList, expands_of_expand_eq_ok hexpand, valueLength_singleton _⟩

/-- Where nothing is bound, an argument does not grow. -/
theorem valueLength_le_of_resolve {probe : Probe}
    (h : t.resolve (Context.empty probe).lookup = .ok us) :
    valueLength us ≤ valueLength [t] := by
  rw [valueLength_singleton]
  by_cases hraw : t.kind = .raw
  · obtain ⟨value, hexpands, hvalue⟩ := exists_expands_of_raw hraw h
    have hle := hexpands.length_le
    rw [List.length_nil] at hle
    omega
  by_cases hquoted : t.kind = .quoted
  · obtain ⟨value, hexpands, hvalue⟩ := exists_expands_of_quoted hquoted h
    have hle := hexpands.length_le
    rw [List.length_nil] at hle
    omega
  · rw [resolve_of_ne hraw hquoted] at h
    cases h
    exact Nat.le_of_eq (valueLength_singleton t)

/-- An argument that loses no character is final, unless it is empty. -/
theorem isFinal_of_resolve {probe : Probe} (h : t.resolve (Context.empty probe).lookup = .ok us)
    (hlength : valueLength [t] ≤ valueLength us) (hempty : t.kind = .raw → t.value ≠ "") :
    t.IsFinal := by
  rw [valueLength_singleton] at hlength
  unfold IsFinal
  split
  · rename_i hraw
    obtain ⟨value, hexpands, hvalue⟩ := exists_expands_of_raw hraw h
    have hle := hexpands.length_le
    rw [List.length_nil] at hle
    obtain ⟨rfl, hverbatim⟩ := hexpands.verbatim rfl (by omega)
    have hsemicolon : ';' ∉ t.value.toList := List.count_eq_zero.mp (by omega)
    refine ⟨hempty hraw, hsemicolon, escapedChars_eq_nil_iff.mp ?_, hverbatim.openers⟩
    -- What is escaped can only be a semicolon, and there is none.
    refine List.eq_nil_iff_forall_not_mem.mpr fun c hc => hsemicolon ?_
    rw [← hverbatim.escapes c hc]
    exact escapedChars_subset _ hc
  · rename_i hquoted
    obtain ⟨value, hexpands, hvalue⟩ := exists_expands_of_quoted hquoted h
    exact (hexpands.verbatim rfl (by omega)).2
  · trivial

end Token

theorem valueLength_le_of_resolve {probe : Probe} {ts us : List Token}
    (h : resolve (Context.empty probe).lookup ts = .ok us) :
    valueLength us ≤ valueLength ts := by
  induction ts generalizing us with
  | nil =>
      cases h
      exact Nat.le_refl _
  | cons t ts ih =>
      obtain ⟨front, back, hfront, hback, rfl⟩ := resolve_cons_eq_ok h
      have ht := Token.valueLength_le_of_resolve hfront
      have hts := ih hback
      rw [valueLength_append, ← List.singleton_append, valueLength_append]
      omega

/-- Where no character is lost, none is lost of any argument. -/
theorem isFinal_of_resolve {probe : Probe} {ts us : List Token}
    (h : resolve (Context.empty probe).lookup ts = .ok us)
    (hlength : valueLength ts ≤ valueLength us)
    (hempty : ∀ t ∈ ts, t.kind = .raw → t.value ≠ "") : ∀ t ∈ ts, t.IsFinal := by
  induction ts generalizing us with
  | nil => exact nofun
  | cons t ts ih =>
      obtain ⟨front, back, hfront, hback, rfl⟩ := resolve_cons_eq_ok h
      have ht := Token.valueLength_le_of_resolve hfront
      have hts := valueLength_le_of_resolve hback
      rw [valueLength_append, ← List.singleton_append, valueLength_append] at hlength
      have hfinal := Token.isFinal_of_resolve hfront (by omega) (hempty t List.mem_cons_self)
      have hrest := ih hback (by omega) fun u hu => hempty u (List.mem_cons_of_mem t hu)
      exact List.forall_mem_cons.mpr ⟨hfinal, hrest⟩

theorem resolve_eq_self {ctx : Context} {ts : List Token} (h : ∀ t ∈ ts, t.IsFinal) :
    resolve ctx.lookup ts = .ok ts := by
  induction ts with
  | nil => rfl
  | cons t ts ih =>
      have ht := (h t List.mem_cons_self).resolve_eq ctx
      have hts := ih fun u hu => h u (List.mem_cons_of_mem t hu)
      unfold resolve
      rw [ht, hts]
      rfl

/-- **What resolving leaves alone.** Arguments stay as they are in every context
exactly if each of them is final: an unquoted one is not empty, has no semicolon
and at most one backslash, at its end; a quoted one escapes nothing but
semicolons; and no reference is written in either. -/
theorem resolve_eq_self_iff (ts : List Token) :
    (∀ ctx : Context, resolve ctx.lookup ts = .ok ts) ↔ ∀ t ∈ ts, t.IsFinal := by
  constructor
  · intro h
    have hempty := h (.empty fun _ => .ok false)
    exact isFinal_of_resolve hempty (Nat.le_refl _) (value_ne_empty_of_resolve hempty)
  · exact fun h ctx => resolve_eq_self h

end Listfile
