import Mathlib.Data.List.Nodup
import Listfile.Proofs.Reparsing
import Listfile.Proofs.Tiling

/-!
# Where statements stand

Tokens stand in their text one after the other, and so do the statements that
are made of them.

* `InOrder` — stretches of a text between two offsets, one after the other;
* `InOrder.through` — what runs from the first of them to the last is such a
  stretch too;
* `items_inOrder` — the statements of a text stand in order;
* `Command.args_within`, `Command.beginsWith_iff` — where the arguments and the
  name of a command stand.
-/

namespace Listfile

open Text

/-! ## Spans in order -/

/-- The span is a stretch of the text: it is not empty, lies inside and cuts no
character. -/
structure Span.Fits (s : Span) (text : String) : Prop where
  nonempty : s.start < s.stop
  inside : s.stop ≤ text.utf8ByteSize
  boundaries : String.Pos.Raw.IsValid text ⟨s.start⟩ ∧ String.Pos.Raw.IsValid text ⟨s.stop⟩

/-- All of `s` lies inside of `t`. -/
def Span.Within (s t : Span) : Prop :=
  t.start ≤ s.start ∧ s.stop ≤ t.stop

theorem Span.Within.trans {s t u : Span} (h : s.Within t) (h' : t.Within u) : s.Within u :=
  ⟨Nat.le_trans h'.1 h.1, Nat.le_trans h.2 h'.2⟩

theorem Span.Fits.through {text : String} {s t : Span} (hs : s.Fits text) (ht : t.Fits text)
    (h : s.start < t.stop) : (s.through t).Fits text :=
  ⟨h, ht.inside, hs.boundaries.1, ht.boundaries.2⟩

/-- `InOrder text lo ss hi`: the spans `ss` are stretches of the text between
the offsets `lo` and `hi`, and each ends before the next one begins. -/
inductive InOrder (text : String) : Nat → List Span → Nat → Prop
  | nil {lo hi : Nat} (h : lo ≤ hi) : InOrder text lo [] hi
  | cons {lo hi : Nat} {s : Span} {ss : List Span} (hlo : lo ≤ s.start) (hs : s.Fits text)
      (hrest : InOrder text s.stop ss hi) : InOrder text lo (s :: ss) hi

namespace InOrder

variable {text : String} {lo lo' mid mid' hi hi' : Nat} {s t : Span} {ss us : List Span}

theorem le (h : InOrder text lo ss hi) : lo ≤ hi := by
  induction h with
  | nil h => exact h
  | cons hlo hs _ ih =>
      have hne := hs.nonempty
      omega

theorem mono (h : InOrder text lo ss hi) (hlo : lo' ≤ lo) (hhi : hi ≤ hi') :
    InOrder text lo' ss hi' := by
  induction h generalizing lo' with
  | nil h =>
      apply InOrder.nil
      omega
  | cons hle hs _ ih => exact .cons (Nat.le_trans hlo hle) hs (ih (Nat.le_refl _) hhi)

theorem append (h : InOrder text lo ss mid) (h' : InOrder text mid us hi) :
    InOrder text lo (ss ++ us) hi := by
  induction h with
  | nil h => exact h'.mono h (Nat.le_refl _)
  | cons hlo hs _ ih => exact .cons hlo hs (ih h')

theorem split (h : InOrder text lo (ss ++ us) hi) :
    ∃ mid, InOrder text lo ss mid ∧ InOrder text mid us hi := by
  induction ss generalizing lo with
  | nil => exact ⟨lo, .nil (Nat.le_refl _), h⟩
  | cons s ss ih =>
      cases h with
      | cons hlo hs hrest =>
          obtain ⟨mid, hfront, hback⟩ := ih hrest
          exact ⟨mid, .cons hlo hs hfront, hback⟩

theorem split_map {α : Type} {f : α → Span} {as bs : List α}
    (h : InOrder text lo ((as ++ bs).map f) hi) :
    ∃ mid, InOrder text lo (as.map f) mid ∧ InOrder text mid (bs.map f) hi := by
  rw [List.map_append] at h
  exact h.split

theorem single (hs : s.Fits text) (h : s.Within ⟨lo, hi⟩) : InOrder text lo [s] hi :=
  .cons h.1 hs (.nil h.2)

theorem uncons (h : InOrder text lo (s :: ss) hi) :
    InOrder text lo [s] s.stop ∧ InOrder text s.stop ss hi := by
  cases h with
  | cons hlo hs hrest => exact ⟨.single hs ⟨hlo, Nat.le_refl _⟩, hrest⟩

theorem fits (h : InOrder text lo ss hi) : ∀ s ∈ ss, s.Fits text := by
  induction h with
  | nil => simp
  | cons _ hs _ ih => exact List.forall_mem_cons.mpr ⟨hs, ih⟩

theorem within (h : InOrder text lo ss hi) : ∀ s ∈ ss, s.Within ⟨lo, hi⟩ := by
  induction h with
  | nil => simp
  | @cons lo hi s ss hlo hs hrest ih =>
      have hne := hs.nonempty
      have hle := hrest.le
      intro t ht
      rcases List.mem_cons.mp ht with rfl | ht
      · exact ⟨hlo, hle⟩
      · obtain ⟨hstart, hstop⟩ := ih t ht
        exact ⟨by simp only at hstart ⊢; omega, hstop⟩

theorem pairwise (h : InOrder text lo ss hi) : ss.Pairwise fun s t => s.stop ≤ t.start := by
  induction h with
  | nil => exact .nil
  | cons _ _ hrest ih =>
      refine .cons ?_ ih
      intro t ht
      exact (hrest.within t ht).1

theorem of_pairwise (hfits : ∀ s ∈ ss, s.Fits text)
    (hpairwise : ss.Pairwise fun s t => s.stop ≤ t.start) (hwithin : ∀ s ∈ ss, s.Within ⟨lo, hi⟩)
    (hle : lo ≤ hi) : InOrder text lo ss hi := by
  induction ss generalizing lo with
  | nil => exact .nil hle
  | cons s ss ih =>
      obtain ⟨hs, hfits⟩ := List.forall_mem_cons.mp hfits
      obtain ⟨hbefore, hpairwise⟩ := List.pairwise_cons.mp hpairwise
      obtain ⟨hhere, hwithin⟩ := List.forall_mem_cons.mp hwithin
      refine .cons hhere.1 hs (ih hfits hpairwise ?_ hhere.2)
      intro t ht
      exact ⟨hbefore t ht, (hwithin t ht).2⟩

/-- None of the spans ends behind the last one. -/
theorem upTo_last (h : InOrder text lo ss hi) (ht : ss.getLast? = some t) :
    InOrder text lo ss t.stop := by
  obtain ⟨front, rfl⟩ := List.getLast?_eq_some_iff.mp ht
  obtain ⟨mid, hfront, hlast⟩ := h.split
  cases hlast with
  | cons hlo ht hnil => exact hfront.append (.cons hlo ht (.nil (Nat.le_refl _)))

/-- All of the spans lie between the start of the first and the end of the
last. -/
theorem within_through (h : InOrder text lo ss hi) (hs : ss.head? = some s)
    (ht : ss.getLast? = some t) : ∀ u ∈ ss, u.Within (s.through t) := by
  obtain ⟨us, rfl⟩ := List.head?_eq_some_iff.mp hs
  cases h.upTo_last ht with
  | cons _ hs hrest => exact (InOrder.cons (Nat.le_refl _) hs hrest).within

/-- The stretch from the start of the first span to the end of the last. -/
theorem through (h : InOrder text lo ss hi) (hs : ss.head? = some s)
    (ht : ss.getLast? = some t) : InOrder text lo [s.through t] hi := by
  obtain ⟨us, rfl⟩ := List.head?_eq_some_iff.mp hs
  have hfits := h.fits
  have hstop := (h.within t (List.mem_of_getLast? ht)).2
  cases h.upTo_last ht with
  | cons hlo hs hrest =>
      have hlt : s.start < t.stop := Nat.lt_of_lt_of_le hs.nonempty hrest.le
      exact .single (hs.through (hfits t (List.mem_of_getLast? ht)) hlt) ⟨hlo, hstop⟩

/-- A stretch around whatever is between two others. -/
theorem around (hs : InOrder text lo [s] mid) (hle : mid ≤ mid') (ht : InOrder text mid' [t] hi) :
    InOrder text lo [s.through t] hi ∧ s.Within (s.through t) ∧
      Span.Within ⟨mid, mid'⟩ (s.through t) := by
  have hboth : InOrder text lo [s, t] hi := hs.append (ht.mono hle (Nat.le_refl _))
  refine ⟨hboth.through rfl rfl, hboth.within_through rfl rfl s List.mem_cons_self, ?_⟩
  cases hs with
  | cons _ hs hafter =>
      cases ht with
      | cons hbefore ht _ =>
          have hstart := hs.nonempty
          have hmid := hafter.le
          have hstop := ht.nonempty
          constructor
          · show s.start ≤ mid
            omega
          · show mid' ≤ t.stop
            omega

end InOrder

/-! ## Tokens -/

theorem scan_inOrder (text : String) :
    InOrder text 0 ((scan text).map (·.span)) text.utf8ByteSize := by
  obtain ⟨before, cs, htext, hbefore, htiles⟩ := exists_tiles text
  have htiled := htiles.tiled before cs htext hbefore
  apply InOrder.of_pairwise
  · rw [List.forall_mem_map]
    intro t ht
    exact ⟨htiled.nonempty t ht, htiled.inside t ht, htiled.boundaries t ht⟩
  · rw [List.pairwise_map]
    exact htiled.ordered
  · rw [List.forall_mem_map]
    intro t ht
    exact ⟨Nat.zero_le _, htiled.inside t ht⟩
  · exact Nat.zero_le _

/-- Tokens are told apart by where they begin. -/
theorem eq_of_start_eq {text : String} {t u : Token} (ht : t ∈ scan text) (hu : u ∈ scan text)
    (h : t.span.start = u.span.start) : t = u := by
  obtain ⟨before, cs, htext, hbefore, htiles⟩ := exists_tiles text
  have htiled := htiles.tiled before cs htext hbefore
  have hnodup : ((scan text).map (·.span.start)).Nodup := by
    rw [List.Nodup, List.pairwise_map]
    apply htiled.ordered.imp_of_mem
    intro t u ht _ hle
    have hne := htiled.nonempty t ht
    omega
  exact List.inj_on_of_nodup_map hnodup ht hu h

section Spanning

variable {text : String} {ts : List Token} {l : Location} {lo hi : Nat}

theorem SpansTokens.ends (h : SpansTokens ts l) : ∃ s t,
    (ts.map (·.span)).head? = some s ∧ (ts.map (·.span)).getLast? = some t ∧
      l.span = s.through t := by
  obtain ⟨first, last, hfirst, hlast, rfl⟩ := h
  refine ⟨first.span, last.span, ?_, ?_, rfl⟩
  · rw [List.head?_map, hfirst]
    rfl
  · rw [List.getLast?_map, hlast]
    rfl

theorem SpansTokens.inOrder (hspans : SpansTokens ts l)
    (h : InOrder text lo (ts.map (·.span)) hi) : InOrder text lo [l.span] hi := by
  obtain ⟨s, t, hs, ht, hl⟩ := hspans.ends
  rw [hl]
  exact h.through hs ht

theorem SpansTokens.within (hspans : SpansTokens ts l)
    (h : InOrder text lo (ts.map (·.span)) hi) : ∀ t ∈ ts, t.span.Within l.span := by
  obtain ⟨s, t, hs, ht, hl⟩ := hspans.ends
  rw [hl]
  intro u hu
  exact h.within_through hs ht u.span (List.mem_map_of_mem hu)

end Spanning

/-! ## Statements -/

section Statements

variable {options : ParseOptions} {source : String} {c : Command}

/-- Statements stand in order if their tokens do. -/
theorem statements_inOrder {text : String} {lo hi : Nat} {elements : List FileElement}
    (h : InOrder text lo ((elements.flatMap FileElement.tokens).map (·.span)) hi) :
    InOrder text lo ((elements.filterMap (·.statement? options)).map (·.location.span)) hi := by
  induction elements generalizing lo with
  | nil => exact h
  | cons e elements ih =>
      rw [List.flatMap_cons] at h
      obtain ⟨mid, hhere, hrest⟩ := h.split_map
      cases hs : e.statement? options with
      | none =>
          rw [List.filterMap_cons_none hs]
          exact (ih hrest).mono hhere.le (Nat.le_refl _)
      | some s =>
          rw [List.filterMap_cons_some hs, List.map_cons]
          exact ((e.spansTokens hs).inOrder hhere).append (ih hrest)

/-- The statements of a text stand in order. -/
theorem items_inOrder (options : ParseOptions) (source : String) :
    InOrder source 0 ((Statement.read options (scan source)).items.map (·.location.span))
      source.utf8ByteSize := by
  obtain ⟨elements, rest, -, htokens, hitems⟩ := exists_elements_of_read options (scan source)
  have hscan := scan_inOrder source
  rw [htokens] at hscan
  obtain ⟨mid, hread, hrest⟩ := hscan.split_map
  rw [hitems]
  exact (statements_inOrder hread).mono (Nat.le_refl _) hrest.le

/-- The arguments of a command stand inside of it. -/
theorem Command.args_within (hc : .command c ∈ (Statement.read options (scan source)).items) :
    ∀ t ∈ c.args, t.span.Within c.location.span := by
  obtain ⟨before, after, name, left, inside, right, htokens, rfl⟩ := exists_invocation_of_mem hc
  intro t ht
  have hinside : t ∈ inside := (List.mem_filter.mp ht).1
  have hscan := scan_inOrder source
  rw [htokens] at hscan
  obtain ⟨_, hscan, -⟩ := hscan.split_map
  obtain ⟨_, -, hscan⟩ := hscan.split_map
  have hmem : t ∈ (FileElement.invocation name left inside right).tokens :=
    .tail _ (.tail _ (List.mem_append_left _ hinside))
  have hspans := FileElement.spansTokens
    (show (FileElement.invocation name left inside right).statement? options = some _ from rfl)
  exact hspans.within hscan t hmem

/-- A command that is read begins with its own name and no other. -/
theorem Command.beginsWith_iff {word : String}
    (hc : .command c ∈ (Statement.read options (scan source)).items) :
    c.location.beginsWith source word = true ↔ c.IsCalled word := by
  refine ⟨?_, Command.beginsWith_of_mem hc⟩
  intro h
  obtain ⟨before, after, name, left, inside, right, htokens, rfl⟩ := exists_invocation_of_mem hc
  obtain ⟨t, ht, hstart, hword⟩ : ∃ t ∈ scan source, t.span.start = name.span.start ∧
      sameWord t.value word = true := by
    obtain ⟨t, ht, hbegins⟩ := List.any_eq_true.mp h
    obtain ⟨hstart, hword⟩ := Bool.and_eq_true_iff.mp hbegins
    exact ⟨t, ht, eq_of_beq hstart, hword⟩
  have hname : name ∈ scan source := by
    rw [htokens]
    exact List.mem_append_left _ (List.mem_append_right _ List.mem_cons_self)
  obtain rfl := eq_of_start_eq ht hname hstart
  exact hword

end Statements

end Listfile
