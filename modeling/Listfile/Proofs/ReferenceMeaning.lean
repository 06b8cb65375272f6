import Listfile.Expansion
import Listfile.Proofs.Offsets

/-!
# What a text with references means

`Expands` is the meaning of a text by recursive descent: the inside of a
reference is expanded by itself, and the value that is bound to the result
stands for the whole reference. `LeavesOpen` says that a text ends inside a
reference, and where the innermost one of those begins.

The expansion keeps a stack of open references in place of the recursion:

* `Expands.after_eq` — over a stretch that expands, the machine writes its
  meaning and leaves the stack as it was;
* `LeavesOpen.result_eq` — a text that is left open is an error there;
* `comes` — there is no third way for a text to end;
* `expand_meaning` — expansion is this meaning.
-/

namespace Listfile

/-! ## Meaning -/

/-- How a reference to a store begins. -/
def Store.opener : Store → List Char
  | .variables => ['$', '{']
  | .environment => ['$', 'E', 'N', 'V', '{']
  | .cache => ['$', 'C', 'A', 'C', 'H', 'E', '{']

/-- The text begins with a reference. -/
def OpensReference (cs : List Char) : Prop :=
  ∃ (store : Store) (inside : List Char), cs = store.opener ++ inside

/-- What an escape pair with this second character stands for. -/
def decoded : Char → List Char
  | 'r' => ['\r']
  | 'n' => ['\n']
  | 't' => ['\t']
  | ';' => ['\\', ';']
  | c => [c]

/-- The value bound to a name in the innermost scope, empty if there is none. -/
def Context.value (ctx : Context) (store : Store) (name : String) : String :=
  match store with
  | .variables => ctx.scope.vars.getD name ""
  | .environment => ctx.scope.env.getD name ""
  | .cache => ctx.scope.cache.getD name ""

/-- Whether a text stands outside of all references or inside of one. -/
inductive Place where
  | outside
  | inside

/-- `Expands ctx place cs value rest`: the characters `cs`, up to where `rest`
is left, stand for `value`. A closing brace ends the inside of a reference and
stands for itself outside. -/
inductive Expands (ctx : Context) : Place → List Char → List Char → List Char → Prop
  | done {place : Place} {cs : List Char} : Expands ctx place cs [] cs
  | escape {place : Place} {c : Char} {cs value rest : List Char}
      (hrest : Expands ctx place cs value rest) :
      Expands ctx place ('\\' :: c :: cs) (decoded c ++ value) rest
  /-- A backslash at the very end stands for itself. -/
  | lastBackslash {place : Place} : Expands ctx place ['\\'] ['\\'] []
  | strayBrace {cs value rest : List Char} (hrest : Expands ctx .outside cs value rest) :
      Expands ctx .outside ('}' :: cs) ('}' :: value) rest
  | literal {place : Place} {c : Char} {cs value rest : List Char} (hescape : c ≠ '\\')
      (hbrace : c ≠ '}') (hopen : ¬ OpensReference (c :: cs))
      (hrest : Expands ctx place cs value rest) :
      Expands ctx place (c :: cs) (c :: value) rest
  | reference {place : Place} {store : Store} {cs name after value rest : List Char}
      (hinside : Expands ctx .inside cs name ('}' :: after))
      (hrest : Expands ctx place after value rest) :
      Expands ctx place (store.opener ++ cs)
        ((ctx.value store (String.ofList name)).toList ++ value) rest

/-- `LeavesOpen ctx place cs tail`: the text `cs` ends inside of references, and
the last one opened of those begins where `tail` does. -/
inductive LeavesOpen (ctx : Context) : Place → List Char → List Char → Prop
  | last {place : Place} {store : Store} {cs value inside name : List Char}
      (hbefore : Expands ctx place cs value (store.opener ++ inside))
      (hinside : Expands ctx .inside inside name []) :
      LeavesOpen ctx place cs (store.opener ++ inside)
  | within {place : Place} {store : Store} {cs value inside tail : List Char}
      (hbefore : Expands ctx place cs value (store.opener ++ inside))
      (hinside : LeavesOpen ctx .inside inside tail) : LeavesOpen ctx place cs tail

theorem LeavesOpen.opensReference {ctx : Context} {place : Place} {cs tail : List Char}
    (h : LeavesOpen ctx place cs tail) : OpensReference tail := by
  induction h with
  | @last place store cs value inside name _ _ => exact ⟨store, inside, rfl⟩
  | within _ _ ih => exact ih

/-! ## The pieces of a text -/

theorem decoded_eq_unescape (c : Char) : decoded c = unescape c := by
  unfold decoded unescape
  split <;> simp_all

theorem Context.value_eq (ctx : Context) (store : Store) (name : String) :
    ctx.value store name = (ctx.lookup store name).getD "" := by
  cases store <;> exact Std.TreeMap.getD_eq_getD_getElem?

theorem Piece.ofChars_opener (store : Store) (cs : List Char) :
    Piece.ofChars (store.opener ++ cs) = .opener store :: Piece.ofChars cs := by
  cases store <;> rfl

theorem Piece.text_opener (store : Store) : (Piece.opener store).text = store.opener := by
  cases store <;> rfl

theorem Piece.ofChars_literal {c : Char} {cs : List Char} (hescape : c ≠ '\\') (hbrace : c ≠ '}')
    (hopen : ¬ OpensReference (c :: cs)) : ofChars (c :: cs) = .literal c :: ofChars cs := by
  rw [ofChars.eq_7]
  · rintro d ds rfl
    exact absurd rfl hescape
  · exact hbrace
  · rintro ds rfl rfl
    exact hopen ⟨.variables, ds, rfl⟩
  · rintro ds rfl rfl
    exact hopen ⟨.environment, ds, rfl⟩
  · rintro ds rfl rfl
    exact hopen ⟨.cache, ds, rfl⟩

/-! ## The machine -/

/-- The machine stands inside a reference exactly if one is open. -/
def Expansion.StandsAt (e : Expansion) : Place → Prop
  | .outside => e.opened = []
  | .inside => e.opened ≠ []

/-- The machine after it has read `taken` and written `value`. -/
def Expansion.past (e : Expansion) (taken value : List Char) : Expansion :=
  ⟨e.offset + byteLength taken, value.reverse ++ e.written, e.opened⟩

theorem Expansion.StandsAt.past {e : Expansion} {place : Place} (h : e.StandsAt place)
    (taken value : List Char) : (e.past taken value).StandsAt place := by
  cases place <;> exact h

theorem Expansion.past_past (e : Expansion) (taken taken' value value' : List Char) :
    (e.past taken value).past taken' value' = e.past (taken ++ taken') (value ++ value') := by
  simp only [past, byteLength_append, List.reverse_append, List.append_assoc, Nat.add_assoc]

/-- The machine after some more characters. -/
def Expansion.after (ctx : Context) (e : Expansion) (cs : List Char) : Expansion :=
  (Piece.ofChars cs).foldl (Expansion.step ctx.lookup) e

/-- The machine after the opener of a reference. -/
def Expansion.pushed (e : Expansion) (store : Store) : Expansion :=
  ⟨e.offset + byteLength store.opener, [], ⟨store, e.offset, e.written⟩ :: e.opened⟩

theorem Expansion.after_opener (ctx : Context) (e : Expansion) (store : Store) (cs : List Char) :
    e.after ctx (store.opener ++ cs) = (e.pushed store).after ctx cs := by
  unfold after
  rw [Piece.ofChars_opener, List.foldl_cons, step, Piece.text_opener]
  rfl

/-- A closer puts the value that is bound to the written name in place of the
reference. -/
theorem Expansion.after_closer (ctx : Context) (e : Expansion) (store : Store)
    (inside name cs : List Char) :
    ((e.pushed store).past inside name).after ctx ('}' :: cs) =
      (e.past (store.opener ++ (inside ++ ['}']))
        (ctx.value store (String.ofList name)).toList).after ctx cs := by
  show (step ctx.lookup ((e.pushed store).past inside name) .closer).after ctx cs = _
  unfold step close pushed past
  simp only [List.append_nil, List.reverse_reverse, Context.value_eq, byteLength_append,
    Nat.add_assoc]
  rfl

section Machine

variable {ctx : Context} {place : Place} {cs value rest : List Char}

/-- Over a stretch that expands, the machine writes its meaning and leaves the
open references as they were. -/
theorem Expands.after_eq (h : Expands ctx place cs value rest) : ∃ taken, cs = taken ++ rest ∧
    ∀ e : Expansion, e.StandsAt place → e.after ctx cs = (e.past taken value).after ctx rest := by
  induction h with
  | done => exact ⟨[], rfl, fun e _ => rfl⟩
  | @escape place c cs value rest _ ih =>
      obtain ⟨taken, rfl, hafter⟩ := ih
      refine ⟨'\\' :: c :: taken, rfl, fun e he => ?_⟩
      have hstep : e.after ctx ('\\' :: c :: (taken ++ rest)) =
          (e.past ['\\', c] (decoded c)).after ctx (taken ++ rest) := by
        rw [decoded_eq_unescape]
        rfl
      rw [hstep, hafter _ (he.past _ _), Expansion.past_past]
      rfl
  | lastBackslash => exact ⟨['\\'], rfl, fun e _ => rfl⟩
  | @strayBrace cs value rest _ ih =>
      obtain ⟨taken, rfl, hafter⟩ := ih
      refine ⟨'}' :: taken, rfl, fun e he => ?_⟩
      have he' : e.opened = [] := he
      have hstep : e.after ctx ('}' :: (taken ++ rest)) =
          (e.past ['}'] ['}']).after ctx (taken ++ rest) := by
        show (Expansion.step _ e .closer).after ctx _ = _
        unfold Expansion.step Expansion.close
        simp only [he']
        rfl
      rw [hstep, hafter _ (he.past _ _), Expansion.past_past]
      rfl
  | @literal place c cs value rest hescape hbrace hopen _ ih =>
      obtain ⟨taken, rfl, hafter⟩ := ih
      refine ⟨c :: taken, rfl, fun e he => ?_⟩
      have hstep : e.after ctx (c :: (taken ++ rest)) =
          (e.past [c] [c]).after ctx (taken ++ rest) := by
        unfold Expansion.after
        rw [Piece.ofChars_literal hescape hbrace hopen]
        rfl
      rw [hstep, hafter _ (he.past _ _), Expansion.past_past]
      rfl
  | @reference place store cs name after value rest _ _ ihinside ihrest =>
      obtain ⟨inside, rfl, hinside⟩ := ihinside
      obtain ⟨taken, rfl, hafter⟩ := ihrest
      refine ⟨store.opener ++ (inside ++ '}' :: taken), by simp, fun e he => ?_⟩
      -- The reference is pushed, its name is written, and its value replaces the name.
      have hopened : (e.pushed store).StandsAt .inside := List.cons_ne_nil _ _
      rw [Expansion.after_opener, hinside _ hopened, Expansion.after_closer, hafter _ (he.past _ _),
        Expansion.past_past, List.append_assoc, List.append_assoc]
      rfl

/-- A text that is left open is an error at the reference that began last. -/
theorem LeavesOpen.result_eq {tail : List Char} (h : LeavesOpen ctx place cs tail) :
    ∃ taken, cs = taken ++ tail ∧ ∀ e : Expansion, e.StandsAt place →
      (e.after ctx cs).result = .error (e.offset + byteLength taken) := by
  induction h with
  | @last place store cs value inside name hbefore hinside =>
      obtain ⟨taken, rfl, hafter⟩ := hbefore.after_eq
      obtain ⟨_, -, hname⟩ := hinside.after_eq
      refine ⟨taken, rfl, fun e he => ?_⟩
      have hopened : ((e.past taken value).pushed store).StandsAt .inside := List.cons_ne_nil _ _
      rw [hafter e he, Expansion.after_opener, hname _ hopened]
      rfl
  | @within place store cs value inside tail hbefore _ ih =>
      obtain ⟨taken, rfl, hafter⟩ := hbefore.after_eq
      obtain ⟨more, rfl, hresult⟩ := ih
      refine ⟨taken ++ (store.opener ++ more), by simp, fun e he => ?_⟩
      have hopened : ((e.past taken value).pushed store).StandsAt .inside := List.cons_ne_nil _ _
      rw [hafter e he, Expansion.after_opener, hresult _ hopened]
      simp only [Expansion.pushed, Expansion.past, byteLength_append, Nat.add_assoc]

end Machine

/-! ## Every text comes to an end -/

section Totality

variable {ctx : Context} {place : Place} {cs ds : List Char}

/-- How the reading of a text can end: with the text, at the brace that closes
the reference around it, or inside a reference of its own. -/
def Comes (ctx : Context) (place : Place) (cs : List Char) : Prop :=
  (∃ value, Expands ctx place cs value []) ∨
    (place = .inside ∧ ∃ value after, Expands ctx .inside cs value ('}' :: after)) ∨
    ∃ tail, LeavesOpen ctx place cs tail

/-- What is in front of a text does not change how it ends. -/
theorem Comes.prepend (front : List Char) (h : Comes ctx place ds)
    (hfront : ∀ value rest, Expands ctx place ds value rest →
      Expands ctx place cs (front ++ value) rest) : Comes ctx place cs := by
  rcases h with ⟨value, hall⟩ | ⟨rfl, value, after, hclosed⟩ | ⟨tail, hopen⟩
  · exact .inl ⟨_, hfront _ _ hall⟩
  · exact .inr (.inl ⟨rfl, _, after, hfront _ _ hclosed⟩)
  · refine .inr (.inr ⟨tail, ?_⟩)
    cases hopen with
    | last hbefore hinside => exact .last (hfront _ _ hbefore) hinside
    | within hbefore hinside => exact .within (hfront _ _ hbefore) hinside

theorem Store.opener_length_pos (store : Store) : 0 < store.opener.length := by
  cases store <;> decide

theorem comes (ctx : Context) (place : Place) (cs : List Char) : Comes ctx place cs := by
  induction hlength : cs.length using Nat.strongRecOn generalizing place cs with
  | ind n ih =>
      have hshorter : ∀ (place : Place) (ds : List Char), ds.length < n → Comes ctx place ds := by
        intro place ds hds
        exact ih ds.length hds place ds rfl
      by_cases hopen : OpensReference cs
      · obtain ⟨store, inside, rfl⟩ := hopen
        have hpos := store.opener_length_pos
        rw [List.length_append] at hlength
        rcases hshorter .inside inside (by omega) with
          ⟨name, hall⟩ | ⟨-, name, after, hclosed⟩ | ⟨tail, htail⟩
        · exact .inr (.inr ⟨_, .last .done hall⟩)
        · obtain ⟨taken, rfl, -⟩ := hclosed.after_eq
          rw [List.length_append, List.length_cons] at hlength
          have hafter := hshorter place after (by omega)
          exact hafter.prepend _ fun value rest hrest => .reference hclosed hrest
        · exact .inr (.inr ⟨tail, .within .done htail⟩)
      cases cs with
      | nil => exact .inl ⟨[], .done⟩
      | cons c cs =>
          rw [List.length_cons] at hlength
          by_cases hescape : c = '\\'
          · subst hescape
            cases cs with
            | nil => exact .inl ⟨['\\'], .lastBackslash⟩
            | cons c cs =>
                rw [List.length_cons] at hlength
                have hrest := hshorter place cs (by omega)
                exact hrest.prepend _ fun value rest hrest => .escape hrest
          have hrest := hshorter place cs (by omega)
          by_cases hbrace : c = '}'
          · subst hbrace
            cases place with
            | inside => exact .inr (.inl ⟨rfl, [], cs, .done⟩)
            | outside =>
                exact hrest.prepend ['}'] fun value rest hrest => .strayBrace hrest
          · exact hrest.prepend [c]
              fun value rest hrest => .literal hescape hbrace hopen hrest

end Totality

/-! ## Expansion -/

theorem expand_eq_ok_of_expands {ctx : Context} {text : String} {value : List Char}
    (h : Expands ctx .outside text.toList value []) :
    expand ctx.lookup text = .ok (String.ofList value) := by
  obtain ⟨taken, -, hafter⟩ := h.after_eq
  show (Expansion.initial.after ctx text.toList).result = _
  rw [hafter .initial rfl]
  show Except.ok (String.ofList (value.reverse ++ []).reverse) = _
  rw [List.append_nil, List.reverse_reverse]

theorem expand_eq_error_of_leavesOpen {ctx : Context} {before tail : String}
    (h : LeavesOpen ctx .outside (before ++ tail).toList tail.toList) :
    expand ctx.lookup (before ++ tail) = .error before.utf8ByteSize := by
  obtain ⟨taken, htaken, hresult⟩ := h.result_eq
  rw [String.toList_append] at htaken
  have hbefore : before.toList = taken := List.append_cancel_right htaken
  show (Expansion.initial.after ctx (before ++ tail).toList).result = _
  rw [hresult .initial rfl, ← hbefore, byteLength_toList]
  show Except.error (0 + before.utf8ByteSize) = _
  rw [Nat.zero_add]

/-- A text has a meaning or it is left open. -/
theorem expands_or_leavesOpen (ctx : Context) (text : String) :
    (∃ value, Expands ctx .outside text.toList value []) ∨
      ∃ before tail, text = before ++ tail ∧ LeavesOpen ctx .outside text.toList tail.toList := by
  rcases comes ctx .outside text.toList with h | ⟨hplace, -⟩ | ⟨tail, hopen⟩
  · exact .inl h
  · cases hplace
  · obtain ⟨taken, htaken, -⟩ := hopen.result_eq
    refine .inr ⟨String.ofList taken, String.ofList tail, ?_, ?_⟩
    · rw [← String.ofList_append, ← htaken, String.ofList_toList]
    · rw [String.toList_ofList]
      exact hopen

theorem expands_of_expand_eq_ok {ctx : Context} {text value : String}
    (h : expand ctx.lookup text = .ok value) :
    Expands ctx .outside text.toList value.toList [] := by
  rcases expands_or_leavesOpen ctx text with ⟨value', hall⟩ | ⟨before, tail, rfl, hopen⟩
  · rw [expand_eq_ok_of_expands hall] at h
    cases h
    rw [String.toList_ofList]
    exact hall
  · rw [expand_eq_error_of_leavesOpen hopen] at h
    cases h

/-- **Expansion is meaning by recursive descent.** A text in which every
reference is closed expands to what it means. Otherwise expansion fails with
the offset of the reference that was opened last among those never closed, and
the text begins with that reference there. -/
theorem expand_meaning (ctx : Context) (text : String) :
    (∀ value, expand ctx.lookup text = .ok value ↔
      Expands ctx .outside text.toList value.toList []) ∧
    (∀ offset, expand ctx.lookup text = .error offset ↔
      ∃ before tail, text = before ++ tail ∧ before.utf8ByteSize = offset ∧
        LeavesOpen ctx .outside text.toList tail.toList) ∧
    ∀ offset, expand ctx.lookup text = .error offset →
      OpensReference ((⟨offset, text.utf8ByteSize⟩ : Span).slice text).toList := by
  have herror : ∀ offset, expand ctx.lookup text = .error offset →
      ∃ before tail, text = before ++ tail ∧ before.utf8ByteSize = offset ∧
        LeavesOpen ctx .outside text.toList tail.toList := by
    intro offset h
    rcases expands_or_leavesOpen ctx text with ⟨value, hall⟩ | ⟨before, tail, rfl, hopen⟩
    · rw [expand_eq_ok_of_expands hall] at h
      cases h
    · rw [expand_eq_error_of_leavesOpen hopen] at h
      cases h
      exact ⟨before, tail, rfl, rfl, hopen⟩
  refine ⟨fun value => ⟨fun h => ?_, fun h => ?_⟩, fun offset => ⟨herror offset, ?_⟩, ?_⟩
  · rcases expands_or_leavesOpen ctx text with ⟨value', hall⟩ | ⟨before, tail, rfl, hopen⟩
    · rw [expand_eq_ok_of_expands hall] at h
      cases h
      rw [String.toList_ofList]
      exact hall
    · rw [expand_eq_error_of_leavesOpen hopen] at h
      cases h
  · rw [expand_eq_ok_of_expands h, String.ofList_toList]
  · rintro ⟨before, tail, rfl, rfl, hopen⟩
    exact expand_eq_error_of_leavesOpen hopen
  · intro offset h
    obtain ⟨before, tail, rfl, rfl, hopen⟩ := herror offset h
    have hcovers : (⟨before.utf8ByteSize, (before ++ tail).utf8ByteSize⟩ : Span).Covers
        (before ++ tail) tail :=
      ⟨before, "", by rw [String.append_empty], rfl, rfl⟩
    rw [hcovers.slice_eq]
    exact hopen.opensReference

end Listfile
