import Listfile.Reading

/-!
# Runs of a reader

`Reader.Reaches` follows a reader over inputs that it takes: what it delivers
on the way and the stage it comes to. A run of the machine is determined by it:

* `Reaches.unique` — the machine is deterministic;
* `Reaches.invariant` — what holds at the start and is kept by every step
  holds wherever the machine comes to;
* `runFrom_of_reaches`, `runFrom_of_refused` — the reading of inputs that are
  all taken, and of inputs of which one is refused;
* `reaches_or_refused` — there is no third case;
* `run_eq_ok_iff`, `error_of_run` — when a run ends without an error, and where
  its error comes from if it does not;
* `runFrom_append_of_reaches` — a run goes on from where it has come to;
* `Avoids.runFrom_eq`, `avoids_or_meets` — a machine with steps of its own in
  some places runs like the first one up to the first of these places;
* `runFrom_filter` — a machine that holds items back reads the other ones;
* `Symmetry.runFrom_eq` — maps that keep the steps of a machine keep its runs.
-/

namespace Listfile

namespace Reader

variable {σ α β ε : Type} {m : Reader σ α β ε}

/-- From the stage `s` the machine takes the inputs `as`, delivers `bs` and
comes to the stage `s'`. -/
inductive Reaches (m : Reader σ α β ε) : σ → List α → List β → σ → Prop
  | refl (s : σ) : Reaches m s [] [] s
  | step {s s' s'' : σ} {a : α} {b : Option β} {as : List α} {bs : List β}
      (hstep : m.step s a = .ok (b, s')) (hrest : Reaches m s' as bs s'') :
      Reaches m s (a :: as) (b.toList ++ bs) s''

namespace Reaches

variable {s s' s'' : σ} {as as' : List α} {bs bs' : List β}

theorem single {a : α} {b : Option β} (hstep : m.step s a = .ok (b, s')) :
    m.Reaches s [a] b.toList s' := by
  have h := Reaches.step hstep (.refl s')
  rwa [List.append_nil] at h

/-- An input that delivers nothing. -/
theorem silent {a : α} (hstep : m.step s a = .ok (none, s')) (h : m.Reaches s' as bs s'') :
    m.Reaches s (a :: as) bs s'' :=
  Reaches.step hstep h

theorem trans (h : m.Reaches s as bs s') (h' : m.Reaches s' as' bs' s'') :
    m.Reaches s (as ++ as') (bs ++ bs') s'' := by
  induction h with
  | refl => exact h'
  | step hstep _ ih =>
      rw [List.append_assoc]
      exact .step hstep (ih h')

/-- Inputs taken one after the other are taken each in its turn. -/
theorem split {cs : List β} (h : m.Reaches s (as ++ as') cs s'') :
    ∃ bs bs' s', cs = bs ++ bs' ∧ m.Reaches s as bs s' ∧ m.Reaches s' as' bs' s'' := by
  induction as generalizing s cs with
  | nil => exact ⟨[], cs, s, rfl, .refl s, h⟩
  | cons a as ih =>
      cases h with
      | @step _ s₁ _ _ b _ cs hstep hrest =>
          obtain ⟨bs, bs', s', rfl, hfirst, hsecond⟩ := ih hrest
          exact ⟨b.toList ++ bs, bs', s', by rw [List.append_assoc], .step hstep hfirst, hsecond⟩

/-- What is delivered and where the machine comes to depends on the inputs
alone. -/
theorem unique (h : m.Reaches s as bs s') (h' : m.Reaches s as bs' s'') : bs = bs' ∧ s' = s'' := by
  induction h generalizing bs' with
  | refl =>
      cases h'
      exact ⟨rfl, rfl⟩
  | step hstep _ ih =>
      cases h' with
      | step hstep' hrest' =>
          rw [hstep] at hstep'
          simp only [Except.ok.injEq, Prod.mk.injEq] at hstep'
          obtain ⟨rfl, rfl⟩ := hstep'
          obtain ⟨rfl, rfl⟩ := ih hrest'
          exact ⟨rfl, rfl⟩

/-- An input is not taken at a stage that refuses it. -/
theorem not_refused {a : α} {e : ε} {cs : List β} (h : m.Reaches s as bs s')
    (hrefused : m.step s' a = .error e) : ¬ m.Reaches s (as ++ a :: as') cs s'' := by
  intro hall
  obtain ⟨_, _, t, -, hfirst, hsecond⟩ := hall.split
  obtain ⟨-, rfl⟩ := h.unique hfirst
  cases hsecond with
  | step hstep _ =>
      rw [hrefused] at hstep
      exact absurd hstep (by simp)

/-- The invariant principle. `P` speaks of the inputs taken, the items
delivered and the stage. -/
theorem invariant {P : List α → List β → σ → Prop} (hstart : P [] [] s)
    (hkeep : ∀ as bs t a b t', m.Reaches s as bs t → P as bs t → m.step t a = .ok (b, t') →
      P (as ++ [a]) (bs ++ b.toList) t')
    (h : m.Reaches s as bs s') : P as bs s' := by
  -- From any point of the run, `P` of what came before carries to the end.
  have hfrom : ∀ {t t' : σ} {as as' : List α} {bs bs' : List β}, m.Reaches s as bs t →
      P as bs t → m.Reaches t as' bs' t' → P (as ++ as') (bs ++ bs') t' := by
    intro t t' as as' bs bs' hbefore hP hafter
    induction hafter generalizing as bs with
    | refl => simpa using hP
    | @step t t₁ t' a b as' bs' hstep _ ih =>
        have hnext := ih (hbefore.trans (.single hstep)) (hkeep as bs t a b t₁ hbefore hP hstep)
        simpa using hnext
  exact hfrom (.refl s) hstart h

end Reaches

/-- The reading of inputs that are all taken. -/
theorem runFrom_of_reaches {s s' : σ} {as : List α} {bs : List β} (cut : Option ε)
    (h : m.Reaches s as bs s') : m.runFrom cut s as = ⟨bs, cut <|> m.finish s'⟩ := by
  induction h with
  | refl => rfl
  | @step s s₁ s'' a b as bs hstep _ ih =>
      cases b with
      | none => simp only [runFrom, hstep, ih, Option.toList_none, List.nil_append]
      | some b =>
          simp only [runFrom, hstep, ih, Reading.cons, Option.toList_some, List.cons_append,
            List.nil_append]

/-- The reading of inputs of which one is refused. -/
theorem runFrom_of_refused {s s' : σ} {before after : List α} {a : α} {bs : List β} {e : ε}
    (cut : Option ε) (h : m.Reaches s before bs s') (hrefused : m.step s' a = .error e) :
    m.runFrom cut s (before ++ a :: after) = ⟨bs, some e⟩ := by
  induction h with
  | refl => simp only [List.nil_append, runFrom, hrefused]
  | @step s s₁ s'' a b as bs hstep _ ih =>
      have hrest := ih hrefused
      cases b with
      | none => simp only [List.cons_append, runFrom, hstep, hrest, Option.toList_none,
          List.nil_append]
      | some b => simp only [List.cons_append, runFrom, hstep, hrest, Reading.cons,
          Option.toList_some, List.nil_append]

/-- The machine takes all inputs or refuses one of them. -/
theorem reaches_or_refused (m : Reader σ α β ε) (s : σ) (as : List α) :
    (∃ bs s', m.Reaches s as bs s') ∨
      ∃ before a after bs s' e, as = before ++ a :: after ∧ m.Reaches s before bs s' ∧
        m.step s' a = .error e := by
  induction as generalizing s with
  | nil => exact .inl ⟨[], s, .refl s⟩
  | cons a as ih =>
      cases hstep : m.step s a with
      | error e => exact .inr ⟨[], a, as, [], s, e, rfl, .refl s, hstep⟩
      | ok result =>
          obtain ⟨b, s₁⟩ := result
          rcases ih s₁ with ⟨bs, s', hreach⟩ | ⟨before, c, after, bs, s', e, has, hreach, herr⟩
          · exact .inl ⟨b.toList ++ bs, s', .step hstep hreach⟩
          · exact .inr ⟨a :: before, c, after, b.toList ++ bs, s', e, by rw [has]; rfl,
              .step hstep hreach, herr⟩

/-- A run ends without an error if its inputs were not cut short, all of them
are taken and the machine may stop after them. -/
theorem run_eq_ok_iff {s : σ} {r : Reading α ε} {bs : List β} :
    m.run s r = ⟨bs, none⟩ ↔
      r.error = none ∧ ∃ s', m.Reaches s r.items bs s' ∧ m.finish s' = none := by
  unfold run
  constructor
  · intro hrun
    -- Either every input is taken or the error shows in the reading.
    rcases m.reaches_or_refused s r.items with
      ⟨cs, s', hreach⟩ | ⟨before, a, after, cs, s', e, hitems, hreach, hrefused⟩
    · rw [runFrom_of_reaches _ hreach] at hrun
      obtain ⟨rfl, herror⟩ := Reading.mk.inj hrun
      rw [Option.orElse_eq_orElse, Option.orElse_eq_or, Option.or_eq_none_iff] at herror
      exact ⟨herror.1, s', hreach, herror.2⟩
    · rw [hitems, runFrom_of_refused _ hreach hrefused] at hrun
      exact absurd (Reading.mk.inj hrun).2 (by simp)
  · rintro ⟨hcut, s', hreach, hfinish⟩
    rw [runFrom_of_reaches _ hreach, hcut, hfinish]
    rfl

/-- Where the error of a run comes from: from an input that is refused, from
what cut the inputs short, or from the end of the inputs. -/
theorem error_of_run {s : σ} {r : Reading α ε} {e : ε} (h : (m.run s r).error = some e) :
    (∃ t, ∃ a ∈ r.items, m.step t a = .error e) ∨ r.error = some e ∨
      ∃ t, r.error = none ∧ m.Reaches s r.items (m.run s r).items t ∧ m.finish t = some e := by
  unfold run at h ⊢
  rcases m.reaches_or_refused s r.items with
    ⟨bs, t, hreach⟩ | ⟨before, a, after, bs, t, e', hitems, hreach, hrefused⟩
  · rw [runFrom_of_reaches _ hreach] at h ⊢
    cases hcut : r.error with
    | none =>
        rw [hcut] at h
        exact .inr (.inr ⟨t, rfl, hreach, h⟩)
    | some cut =>
        rw [hcut] at h
        exact .inr (.inl h)
  · rw [hitems, runFrom_of_refused _ hreach hrefused] at h
    have ha : a ∈ r.items := by simp [hitems]
    exact .inl ⟨t, a, ha, Option.some.inj h ▸ hrefused⟩

/-- Inputs that are all taken leave the rest of a run to what follows them. -/
theorem runFrom_append_of_reaches {s s' : σ} {as as' : List α} {bs : List β} (cut : Option ε)
    (h : m.Reaches s as bs s') :
    m.runFrom cut s (as ++ as') =
      ⟨bs ++ (m.runFrom cut s' as').items, (m.runFrom cut s' as').error⟩ := by
  induction h with
  | refl => rfl
  | @step s s₁ s'' a b as bs hstep _ ih =>
      cases b with
      | none => simp only [List.cons_append, runFrom, hstep, ih, Option.toList_none,
          List.nil_append]
      | some b => simp only [List.cons_append, runFrom, hstep, ih, Reading.cons,
          Option.toList_some, List.nil_append]

/-- None of the inputs meets the machine in a place where `P` holds. -/
def Avoids (m : Reader σ α β ε) (P : σ → α → Prop) (s : σ) (as : List α) : Prop :=
  ∀ before a after bs t, as = before ++ a :: after → m.Reaches s before bs t → ¬ P t a

theorem avoids_nil (m : Reader σ α β ε) (P : σ → α → Prop) (s : σ) : m.Avoids P s [] := by
  intro before a after bs t has
  simp at has

theorem avoids_cons_iff {P : σ → α → Prop} {s : σ} {a : α} {as : List α} :
    m.Avoids P s (a :: as) ↔
      ¬ P s a ∧ ∀ b s', m.step s a = .ok (b, s') → m.Avoids P s' as := by
  constructor
  · intro h
    constructor
    · exact h [] a as [] s rfl (.refl s)
    · intro b s' hstep before c after bs t has hreach
      have hall : a :: as = (a :: before) ++ c :: after := by rw [has, List.cons_append]
      exact h (a :: before) c after _ t hall (.step hstep hreach)
  · rintro ⟨hhere, hthere⟩ before c after bs t has hreach
    cases hreach with
    | refl =>
        obtain ⟨rfl, -⟩ := List.cons.inj has
        exact hhere
    | @step _ s' _ a' b before bs hstep hrest =>
        obtain ⟨rfl, rfl⟩ := List.cons.inj has
        exact hthere b s' hstep before c after bs t rfl hrest

/-- Either all the places are avoided or there is a first one that is not. -/
theorem avoids_or_meets (m : Reader σ α β ε) (P : σ → α → Prop) (s : σ) (as : List α) :
    m.Avoids P s as ∨ ∃ before a after bs t, as = before ++ a :: after ∧ m.Avoids P s before ∧
      m.Reaches s before bs t ∧ P t a := by
  induction as generalizing s with
  | nil => exact .inl (m.avoids_nil P s)
  | cons a as ih =>
      by_cases hhere : P s a
      · exact .inr ⟨[], a, as, [], s, rfl, m.avoids_nil P s, .refl s, hhere⟩
      · cases hstep : m.step s a with
        | error e =>
            left
            rw [avoids_cons_iff]
            refine ⟨hhere, ?_⟩
            intro b s' hok
            rw [hstep] at hok
            cases hok
        | ok result =>
            obtain ⟨b, s'⟩ := result
            have hcons : ∀ {as}, m.Avoids P s' as → m.Avoids P s (a :: as) := by
              intro as h
              rw [avoids_cons_iff]
              refine ⟨hhere, ?_⟩
              intro b' t hok
              rw [hstep] at hok
              cases hok
              exact h
            rcases ih s' with h | ⟨before, c, after, bs, t, rfl, h, hreach, hmeets⟩
            · exact .inl (hcons h)
            · exact .inr ⟨a :: before, c, after, _, t, rfl, hcons h, .step hstep hreach, hmeets⟩

section Agreement

variable {m' : Reader σ α β ε} {P : σ → α → Prop} {s s' : σ} {as as' : List α} {bs : List β}

/-- What avoids the places does so from the beginning. -/
theorem Avoids.front (h : m.Avoids P s (as ++ as')) : m.Avoids P s as := by
  intro before a after bs t has
  refine h before a (after ++ as') bs t ?_
  rw [has, List.append_assoc, List.cons_append]

/-- Two machines that agree outside of some places reach the same stages while
they avoid these. -/
theorem Avoids.reaches (h : m.Avoids P s as) (hagree : ∀ t a, ¬ P t a → m'.step t a = m.step t a)
    (hreach : m.Reaches s as bs s') : m'.Reaches s as bs s' := by
  induction hreach with
  | refl s => exact .refl s
  | @step s s₁ _ a b _ _ hstep _ ih =>
      obtain ⟨hhere, hthere⟩ := avoids_cons_iff.mp h
      have hstep' : m'.step s a = .ok (b, s₁) := by rw [hagree s a hhere, hstep]
      exact .step hstep' (ih (hthere b s₁ hstep))

/-- They deliver the same reading. -/
theorem Avoids.runFrom_eq (h : m.Avoids P s as)
    (hagree : ∀ t a, ¬ P t a → m'.step t a = m.step t a) (hfinish : m'.finish = m.finish)
    (cut : Option ε) : m'.runFrom cut s as = m.runFrom cut s as := by
  rcases m.reaches_or_refused s as with
    ⟨bs, t, hreach⟩ | ⟨before, a, after, bs, t, e, rfl, hreach, hrefused⟩
  · have hreach' := h.reaches hagree hreach
    rw [runFrom_of_reaches cut hreach, runFrom_of_reaches cut hreach', hfinish]
  · have hreach' := h.front.reaches hagree hreach
    have hhere : ¬ P t a := h before a after bs t rfl hreach
    have hrefused' : m'.step t a = .error e := by rw [hagree t a hhere, hrefused]
    rw [runFrom_of_refused cut hreach hrefused, runFrom_of_refused cut hreach' hrefused']

end Agreement

/-- A machine that goes the same way and holds back some of the items. -/
theorem runFrom_filter {m' : Reader σ α β ε} (p : β → Bool)
    (hstep : ∀ s a, m'.step s a = (m.step s a).map (Prod.map (Option.filter p) id))
    (hfinish : ∀ s, m'.finish s = m.finish s) (cut : Option ε) (s : σ) (as : List α) :
    m'.runFrom cut s as =
      ⟨(m.runFrom cut s as).items.filter p, (m.runFrom cut s as).error⟩ := by
  induction as generalizing s with
  | nil =>
      show Reading.mk [] (cut <|> m'.finish s) = Reading.mk [] (cut <|> m.finish s)
      rw [hfinish]
  | cons a as ih =>
      have ha := hstep s a
      simp only [runFrom]
      cases hresult : m.step s a with
      | error e =>
          rw [hresult] at ha
          rw [ha]
          rfl
      | ok result =>
          obtain ⟨b, s'⟩ := result
          rw [hresult] at ha
          rw [ha]
          cases b with
          | none => exact ih s'
          | some b =>
              simp only [Except.map, Prod.map, id_eq]
              by_cases hb : p b = true
              · rw [Option.filter_some_pos hb]
                show Reading.cons b _ = _
                rw [ih s', Reading.cons, Reading.cons, List.filter_cons_of_pos hb]
              · rw [Option.filter_some_neg (Bool.eq_false_iff.mpr hb)]
                show m'.runFrom cut s' as = _
                rw [ih s', Reading.cons, List.filter_cons_of_neg hb]

/-- Maps of the stages, inputs, items and errors of a machine that go along with
every step. -/
structure Symmetry (m : Reader σ α β ε) where
  stage : σ → σ
  input : α → α
  item : β → β
  error : ε → ε
  step_eq : ∀ s a, m.step (stage s) (input a) =
    ((m.step s a).map (Prod.map (Option.map item) stage)).mapError error
  finish_eq : ∀ s, m.finish (stage s) = (m.finish s).map error

/-- They go along with whole runs. -/
theorem Symmetry.runFrom_eq (f : m.Symmetry) (cut : Option ε) (s : σ) (as : List α) :
    m.runFrom (cut.map f.error) (f.stage s) (as.map f.input) =
      ⟨(m.runFrom cut s as).items.map f.item, (m.runFrom cut s as).error.map f.error⟩ := by
  induction as generalizing s with
  | nil =>
      show Reading.mk [] _ = Reading.mk [] _
      rw [f.finish_eq]
      cases cut <;> rfl
  | cons a as ih =>
      have hstep := f.step_eq s a
      simp only [List.map_cons, runFrom]
      cases hresult : m.step s a with
      | error e =>
          rw [hresult] at hstep
          rw [hstep]
          rfl
      | ok result =>
          obtain ⟨b, s'⟩ := result
          rw [hresult] at hstep
          rw [hstep]
          cases b with
          | none => exact ih s'
          | some b =>
              show Reading.cons _ _ = _
              rw [ih s']
              rfl

end Reader

namespace Reading

variable {α ε ε' : Type} {r : Reading α ε} {items : List α}

theorem eq_of_error_eq_none (h : r.error = none) : r = ⟨r.items, none⟩ := by
  obtain ⟨found, error⟩ := r
  cases h
  rfl

theorem toExcept_eq_ok_iff : r.toExcept = .ok items ↔ r = ⟨items, none⟩ := by
  obtain ⟨found, error⟩ := r
  cases error <;> simp [toExcept]

theorem mapError_eq_ok_iff {f : ε → ε'} : r.mapError f = ⟨items, none⟩ ↔ r = ⟨items, none⟩ := by
  obtain ⟨found, error⟩ := r
  cases error <;> simp [mapError]

end Reading

end Listfile
