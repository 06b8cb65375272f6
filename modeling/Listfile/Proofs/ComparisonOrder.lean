import Listfile.Proofs.ConditionGrammar
import Listfile.Proofs.Numerals
import Listfile.Proofs.Tiling

/-!
# The order of comparisons

Integers, texts and versions each have five comparisons, which belong to one
order. All of them follow from what the operands are compared by: an integer, the
text itself, or the four numbers of a version.

* `ComparesCoherently` — the laws of the five comparisons of an order;
* `ComparesCoherently.of_key` — they hold as soon as operands are compared by keys;
* `integer?_eq_some_iff` — which texts are integers for a comparison;
* `IsVersion.version_eq` — the four numbers of a version;
* `evaluate_comparisons` — the three families, and what they do with operands
  that are no integers.
-/

namespace Listfile

open Text

/-! ## Comparisons between tokens -/

/-- What can be compared: quoted and bracketed texts, and unquoted words that are
no operators. -/
def Token.IsComparand (t : Token) : Prop :=
  t.kind = .quoted ∨ t.kind = .bracketed ∨ (t.kind = .raw ∧ t.operator? = none)

theorem Token.IsComparand.isArgument {t : Token} (h : t.IsComparand) : t.isArgument = true := by
  unfold Token.isArgument
  rcases h with h | h | ⟨h, -⟩ <;> simp [h]

theorem Token.IsComparand.isOperand {t : Token} (h : t.IsComparand) : t.IsOperand := by
  rcases h with h | h | ⟨h, hword⟩
  · exact ⟨by simp [h], by simp [h], operator?_of_ne (by simp [h])⟩
  · exact ⟨by simp [h], by simp [h], operator?_of_ne (by simp [h])⟩
  · exact ⟨by simp [h], by simp [h], hword⟩

/-- The condition that relates the two tokens is evaluated to `b`, wherever the
name of the relation stands. -/
def Verdict (engine : PatternEngine) (ctx : Context) (r : Relation) (lhs rhs : Token)
    (b : Bool) : Prop :=
  ∀ place, evaluate engine ctx [lhs, ⟨.raw, r.name, place⟩, rhs] = .ok b

/-- The laws of five comparisons that belong to one order of the tokens that are
values. -/
structure ComparesCoherently (engine : PatternEngine) (ctx : Context)
    (family : Comparison → Relation) (IsValue : Token → Prop) : Prop where
  /-- Exactly one of less, equal and greater is true. -/
  trichotomy : ∀ l r, IsValue l → IsValue r →
    ∃ c ∈ [Comparison.less, .equal, .greater], ∀ d ∈ [Comparison.less, .equal, .greater],
      Verdict engine ctx (family d) l r (decide (d = c))
  lessEqual : ∀ l r b, IsValue l → IsValue r →
    (Verdict engine ctx (family .lessEqual) l r b ↔ Verdict engine ctx (family .greater) l r !b)
  greaterEqual : ∀ l r b, IsValue l → IsValue r →
    (Verdict engine ctx (family .greaterEqual) l r b ↔ Verdict engine ctx (family .less) l r !b)
  swap : ∀ l r b, IsValue l → IsValue r →
    (Verdict engine ctx (family .less) l r b ↔ Verdict engine ctx (family .greater) r l b)
  trans : ∀ l m r, IsValue l → IsValue m → IsValue r →
    Verdict engine ctx (family .lessEqual) l m true →
      Verdict engine ctx (family .lessEqual) m r true →
        Verdict engine ctx (family .lessEqual) l r true

namespace Comparison

theorem less_holds_iff {o : Ordering} : less.holds o = true ↔ o = .lt :=
  Ordering.isLT_iff_eq_lt

theorem equal_holds_iff {o : Ordering} : equal.holds o = true ↔ o = .eq :=
  Ordering.isEq_iff_eq_eq

theorem greater_holds_iff {o : Ordering} : greater.holds o = true ↔ o = .gt :=
  Ordering.isGT_iff_eq_gt

theorem holds_lessEqual (o : Ordering) : lessEqual.holds o = !greater.holds o := by
  cases o <;> rfl

theorem holds_greaterEqual (o : Ordering) : greaterEqual.holds o = !less.holds o := by
  cases o <;> rfl

theorem holds_swap (o : Ordering) : less.holds o.swap = greater.holds o := by
  cases o <;> rfl

/-- The comparison that is true of values in the given order. -/
def ofOrdering : Ordering → Comparison
  | .lt => less
  | .eq => equal
  | .gt => greater

theorem ofOrdering_mem (o : Ordering) : ofOrdering o ∈ [less, equal, greater] := by
  cases o <;> decide

theorem holds_eq_decide {c : Comparison} (h : c ∈ [less, equal, greater]) (o : Ordering) :
    c.holds o = decide (c = ofOrdering o) := by
  revert c
  cases o <;> decide

end Comparison

section Evaluation

variable {engine : PatternEngine} {ctx : Context} {lhs rhs : Token}

/-- A comparison is always evaluated, and to whether it holds. -/
theorem verdict_iff {r : Relation} {b : Bool} (hlhs : lhs.IsComparand) (hrhs : rhs.IsComparand)
    (htest : (Test.relation r lhs rhs).error? engine ctx = none) :
    Verdict engine ctx r lhs rhs b ↔ Test.relationHolds engine ctx r lhs rhs = b := by
  have hevaluate : ∀ place, evaluate engine ctx [lhs, ⟨.raw, r.name, place⟩, rhs] =
      .ok (Test.relationHolds engine ctx r lhs rhs) := by
    intro place
    have hop : Token.operator? ⟨.raw, r.name, place⟩ = some (.relation r) :=
      Token.operator?_of_name rfl rfl
    exact evaluate_relation hlhs.isOperand hop hrhs.isArgument htest
  constructor
  · intro h
    -- The place of the name does not matter, so any one will do.
    have hplace := h ⟨0, 0, ⟨0, 0⟩⟩
    rwa [hevaluate, Except.ok.injEq] at hplace
  · rintro rfl
    exact hevaluate

/-- Tokens that are compared by their keys are compared coherently. -/
theorem ComparesCoherently.of_key {α : Type} [Ord α] [Std.TransOrd α] (key : Token → α)
    {family : Comparison → Relation} {IsValue : Token → Prop}
    (hkey : ∀ {c l r b}, IsValue l → IsValue r →
      (Verdict engine ctx (family c) l r b ↔ c.holds (compare (key l) (key r)) = b)) :
    ComparesCoherently engine ctx family IsValue where
  trichotomy l r hl hr := by
    refine ⟨.ofOrdering (compare (key l) (key r)), Comparison.ofOrdering_mem _, ?_⟩
    intro d hd
    rw [hkey hl hr]
    exact Comparison.holds_eq_decide hd _
  lessEqual l r b hl hr := by
    rw [hkey hl hr, hkey hl hr, Comparison.holds_lessEqual, Bool.not_eq_eq_eq_not]
  greaterEqual l r b hl hr := by
    rw [hkey hl hr, hkey hl hr, Comparison.holds_greaterEqual, Bool.not_eq_eq_eq_not]
  swap l r b hl hr := by
    rw [hkey hl hr, hkey hr hl, Std.OrientedOrd.eq_swap, Comparison.holds_swap]
  trans l m r hl hm hr := by
    rw [hkey hl hm, hkey hm hr, hkey hl hr]
    exact Std.TransCmp.isLE_trans

end Evaluation

/-! ## Integers -/

/-- `IsInteger cs i`: the text is a decimal number with an optional sign, maybe
with white space around it, and writes the 64-bit signed integer `i`. -/
inductive IsInteger : List Char → Int → Prop
  | mk {before sign digits after : List Char} {factor : Int}
      (hbefore : ∀ c ∈ before, IsWhiteSpace c) (hsign : IsSign sign factor)
      (hdigits : IsDigits digits) (hafter : ∀ c ∈ after, IsWhiteSpace c)
      (hlow : -2 ^ 63 ≤ factor * digitsValue digits)
      (hhigh : factor * digitsValue digits < 2 ^ 63) :
      IsInteger (before ++ ((sign ++ digits) ++ after)) (factor * digitsValue digits)

/-- Blanks around a text that has none inside are all that is trimmed. -/
theorem trim_append {before cs after : List Char} (hbefore : ∀ c ∈ before, isBlank c = true)
    (hcs : ∀ c ∈ cs, isBlank c = false) (hafter : ∀ c ∈ after, isBlank c = true) :
    trim (before ++ (cs ++ after)) = cs := by
  have hkeep : ∀ ds : List Char, (∀ c ∈ ds, isBlank c = false) → ds.dropWhile isBlank = ds := by
    intro ds hds
    cases ds with
    | nil => rfl
    | cons d ds => exact List.dropWhile_cons_of_neg (by simp [hds d List.mem_cons_self])
  unfold trim
  rw [List.dropWhile_append_of_pos hbefore]
  cases cs with
  | nil =>
      rw [List.nil_append, List.dropWhile_eq_nil_iff.mpr hafter]
      rfl
  | cons c cs =>
      have hc : ¬ isBlank c = true := by
        rw [hcs c List.mem_cons_self]
        exact Bool.false_ne_true
      rw [List.cons_append, List.dropWhile_cons_of_neg hc, ← List.cons_append, List.reverse_append,
        List.dropWhile_append_of_pos (fun d hd => hafter d (List.mem_reverse.mp hd)),
        hkeep _ (fun d hd => hcs d (List.mem_reverse.mp hd)), List.reverse_reverse]

/-- A text is what is left when it is trimmed, with blanks around it. -/
theorem exists_trim (cs : List Char) :
    ∃ before after, cs = before ++ (trim cs ++ after) ∧ (∀ c ∈ before, isBlank c = true) ∧
      ∀ c ∈ after, isBlank c = true := by
  let rest := cs.dropWhile isBlank
  refine ⟨cs.takeWhile isBlank, (rest.reverse.takeWhile isBlank).reverse, ?_,
    fun c hc => List.mem_takeWhile_imp hc,
    fun c hc => List.mem_takeWhile_imp (List.mem_reverse.mp hc)⟩
  have hrest : trim cs ++ (rest.reverse.takeWhile isBlank).reverse = rest := by
    unfold trim
    rw [← List.reverse_append, List.takeWhile_append_dropWhile, List.reverse_reverse]
  rw [hrest, List.takeWhile_append_dropWhile]

theorem not_isBlank_of_isDigit {c : Char} (h : c.isDigit = true) : isBlank c = false := by
  rw [← Bool.not_eq_true, isBlank_iff]
  have hrange : 48 ≤ c.toNat ∧ c.toNat ≤ 57 := by
    simpa [Char.isDigit, UInt32.le_iff_toNat_le] using h
  unfold IsWhiteSpace
  omega

theorem IsSign.not_isBlank {sign : List Char} {factor : Int} (h : IsSign sign factor) :
    ∀ c ∈ sign, isBlank c = false := by
  cases h with
  | missing => exact List.forall_mem_nil _
  | plus => exact List.forall_mem_singleton.mpr rfl
  | minus => exact List.forall_mem_singleton.mpr rfl

/-- Comparisons read exactly the integers. -/
theorem integer?_eq_some_iff {v : String} {i : Int} :
    integer? v = some i ↔ IsInteger v.toList i := by
  unfold integer?
  generalize v.toList = cs
  constructor
  · intro h
    obtain ⟨before, after, hcs, hbefore, hafter⟩ := exists_trim cs
    obtain ⟨sign, factor, htrim, hsign, hminus⟩ := exists_isSign_of_dropSign (trim cs)
    simp only [hminus] at h
    generalize (dropSign (trim cs)).2 = digits at htrim h
    split at h
    · cases h
    · rename_i n hn
      obtain ⟨hdigits, rfl⟩ := natural?_eq_some_iff.mp hn
      rw [← hsign.mul_eq] at h
      split at h
      · rename_i hrange
        cases h
        rw [hcs, htrim]
        exact .mk (fun c hc => (isBlank_iff c).mp (hbefore c hc)) hsign hdigits
          (fun c hc => (isBlank_iff c).mp (hafter c hc)) hrange.1 hrange.2
      · cases h
  · rintro @⟨before, sign, digits, after, factor, hbefore, hsign, hdigits, hafter, hlow, hhigh⟩
    -- Neither the sign nor a digit is blank, so trimming stops there.
    have hcore : ∀ c ∈ sign ++ digits, isBlank c = false := by
      intro c hc
      rcases List.mem_append.mp hc with hc | hc
      · exact hsign.not_isBlank c hc
      · exact not_isBlank_of_isDigit (hdigits.digits c hc)
    rw [trim_append (fun c hc => (isBlank_iff c).mpr (hbefore c hc)) hcore
      (fun c hc => (isBlank_iff c).mpr (hafter c hc))]
    simp only [hsign.dropSign_append hdigits.unsigned, natural?_eq_some_iff.mpr ⟨hdigits, rfl⟩,
      ← hsign.mul_eq]
    exact if_pos ⟨hlow, hhigh⟩

/-! ## Versions -/

/-- `IsVersion cs numbers`: the text is made of these numbers, written in decimal
with any number of zeros in front, and of a dot between any two. -/
inductive IsVersion : List Char → List Nat → Prop
  | mk {parts : List (List Char)} (hne : parts ≠ [])
      (hparts : ∀ p ∈ parts, IsDigits p ∧ digitsValue p < 2 ^ 64) :
      IsVersion (['.'].intercalate parts) (parts.map digitsValue)

theorem versionComponent_of_isDigits {part : List Char} (h : IsDigits part)
    (hsmall : digitsValue part < 2 ^ 64) : versionComponent part = digitsValue part := by
  have hplus : ∀ cs, part ≠ '+' :: cs := by
    rintro cs rfl
    exact (h.unsigned '+' rfl).1 rfl
  have hnatural := natural?_eq_some_iff.mpr ⟨h, rfl⟩
  simp only [versionComponent, hnatural]
  exact if_pos hsmall

/-- The first four numbers of a list, with zeros for those that are missing. -/
theorem take_append_replicate (ns : List Nat) :
    ns.take 4 ++ List.replicate (4 - (ns.take 4).length) 0 =
      (List.range 4).map fun i => ns.getD i 0 := by
  match ns with
  | [] => rfl
  | [_] => rfl
  | [_, _] => rfl
  | [_, _, _] => rfl
  | _ :: _ :: _ :: _ :: _ => rfl

/-- A version is its first four numbers. -/
theorem IsVersion.version_eq {v : String} {ns : List Nat} (h : IsVersion v.toList ns) :
    version v = (List.range 4).map fun i => ns.getD i 0 := by
  unfold version
  generalize v.toList = cs at h
  cases h with
  | @mk parts hne hparts =>
      have hdot : ∀ p ∈ parts, '.' ∉ p := by
        intro p hp hmem
        cases (hparts p hp).1.digits '.' hmem
      have hcomponents : parts.map versionComponent = parts.map digitsValue :=
        List.map_congr_left fun p hp =>
          versionComponent_of_isDigits (hparts p hp).1 (hparts p hp).2
      rw [List.splitOn_intercalate '.' hdot hne, hcomponents]
      exact take_append_replicate _

/-- The first of the first four numbers that differ is the smaller one. -/
def Precedes (ns ms : List Nat) : Prop :=
  ∃ i < 4, (∀ j < i, ns.getD j 0 = ms.getD j 0) ∧ ns.getD i 0 < ms.getD i 0

/-- The order of lists of the same length is the one of their first numbers that
differ. -/
theorem compare_map_range_eq_lt_iff (f g : Nat → Nat) (n : Nat) :
    compare ((List.range n).map f) ((List.range n).map g) = .lt ↔
      ∃ i < n, (∀ j < i, f j = g j) ∧ f i < g i := by
  induction n generalizing f g with
  | zero => simp
  | succ n ih =>
      -- Either the first numbers differ, or the others decide.
      rw [List.range_succ_eq_map, List.map_cons, List.map_cons, List.map_map, List.map_map,
        List.compare_cons_cons, Ordering.then_eq_lt, Nat.compare_eq_lt, Nat.compare_eq_eq, ih,
        Nat.exists_lt_succ_left]
      simp only [Nat.forall_lt_succ_left, Nat.not_lt_zero, false_imp_iff, forall_const, true_and,
        Function.comp_apply]
      by_cases hzero : f 0 = g 0 <;> simp [hzero]

theorem compare_version_eq_lt_iff {v w : String} {ns ms : List Nat} (hv : IsVersion v.toList ns)
    (hw : IsVersion w.toList ms) : compare (version v) (version w) = .lt ↔ Precedes ns ms := by
  rw [hv.version_eq, hw.version_eq]
  exact compare_map_range_eq_lt_iff _ _ 4

theorem compare_version_eq_eq_iff {v w : String} {ns ms : List Nat} (hv : IsVersion v.toList ns)
    (hw : IsVersion w.toList ms) :
    compare (version v) (version w) = .eq ↔ ∀ i < 4, ns.getD i 0 = ms.getD i 0 := by
  rw [hv.version_eq, hw.version_eq, Std.compare_eq_iff_eq, List.map_inj_left]
  simp only [List.mem_range]

/-! ## The three families -/

/-- The token is a comparand and stands for an integer. -/
def IsIntegral (ctx : Context) (t : Token) : Prop :=
  t.IsComparand ∧ ∃ i, IsInteger (ctx.operandText t).toList i

section Families

variable {engine : PatternEngine} {ctx : Context} {l r : Token}

theorem compareIntegers_eq {v w : String} {i j : Int} (c : Comparison)
    (hi : IsInteger v.toList i) (hj : IsInteger w.toList j) :
    Test.compareIntegers c v w = c.holds (compare i j) := by
  unfold Test.compareIntegers
  rw [integer?_eq_some_iff.mpr hi, integer?_eq_some_iff.mpr hj]

/-- Two integers are always compared. -/
theorem numeric_coherent (engine : PatternEngine) (ctx : Context) :
    ComparesCoherently engine ctx .numeric (IsIntegral ctx) := by
  apply ComparesCoherently.of_key fun t => (integer? (ctx.operandText t)).getD 0
  rintro c l r b ⟨hl, i, hi⟩ ⟨hr, j, hj⟩
  rw [verdict_iff hl hr rfl, Test.relationHolds, compareIntegers_eq c hi hj,
    integer?_eq_some_iff.mpr hi, integer?_eq_some_iff.mpr hj]
  rfl

/-- Without two integers no numeric comparison is true. -/
theorem numeric_false (hl : l.IsComparand) (hr : r.IsComparand)
    (h : ¬ (IsIntegral ctx l ∧ IsIntegral ctx r)) (c : Comparison) :
    Verdict engine ctx (.numeric c) l r false := by
  rw [verdict_iff hl hr rfl, Test.relationHolds, Test.compareIntegers]
  split
  · rename_i i j hi hj
    exact absurd ⟨⟨hl, i, integer?_eq_some_iff.mp hi⟩, hr, j, integer?_eq_some_iff.mp hj⟩ h
  · rfl

end Families

/-- **The comparisons of each family belong to one order.** Texts and versions can
always be compared, and the laws of an order hold for all operands; for integers
they hold between the operands that are integers, and with others every comparison
is false and no error. Numbers and texts are in their usual order. Versions are in
the order of their first four numbers, where missing ones are zero. -/
theorem evaluate_comparisons (engine : PatternEngine) (ctx : Context) :
    ComparesCoherently engine ctx .text Token.IsComparand ∧
      ComparesCoherently engine ctx .version Token.IsComparand ∧
      ComparesCoherently engine ctx .numeric (IsIntegral ctx) ∧
      (∀ l r, l.IsComparand → r.IsComparand → ¬ (IsIntegral ctx l ∧ IsIntegral ctx r) →
        ∀ c, Verdict engine ctx (.numeric c) l r false) ∧
      (∀ l r, l.IsComparand → r.IsComparand →
        Verdict engine ctx (.text .less) l r (decide (ctx.operandText l < ctx.operandText r))) ∧
      (∀ l r i j, l.IsComparand → r.IsComparand → IsInteger (ctx.operandText l).toList i →
        IsInteger (ctx.operandText r).toList j →
          Verdict engine ctx (.numeric .less) l r (decide (i < j))) ∧
      (∀ l r ns ms, l.IsComparand → r.IsComparand → IsVersion (ctx.operandText l).toList ns →
        IsVersion (ctx.operandText r).toList ms →
          (Verdict engine ctx (.version .less) l r true ↔ Precedes ns ms) ∧
          (Verdict engine ctx (.version .greater) l r true ↔ Precedes ms ns) ∧
          (Verdict engine ctx (.version .equal) l r true ↔
            ∀ i < 4, ns.getD i 0 = ms.getD i 0)) := by
  have htext : ∀ {c l r b}, l.IsComparand → r.IsComparand →
      (Verdict engine ctx (.text c) l r b ↔
        c.holds (compare (ctx.operandText l) (ctx.operandText r)) = b) := by
    intro c l r b hl hr
    exact verdict_iff hl hr rfl
  have hversion : ∀ {c l r b}, l.IsComparand → r.IsComparand →
      (Verdict engine ctx (.version c) l r b ↔
        c.holds (compare (version (ctx.operandText l)) (version (ctx.operandText r))) = b) := by
    intro c l r b hl hr
    exact verdict_iff hl hr rfl
  refine ⟨.of_key ctx.operandText htext, .of_key (fun t => version (ctx.operandText t)) hversion,
    numeric_coherent engine ctx, ?_, ?_, ?_, ?_⟩
  · intro l r hl hr hnot c
    exact numeric_false hl hr hnot c
  · intro l r hl hr
    rw [verdict_iff hl hr rfl, Bool.eq_iff_iff, decide_eq_true_eq]
    exact Test.relationHolds_text engine
  · intro l r i j hl hr hi hj
    rw [verdict_iff hl hr rfl, Bool.eq_iff_iff, decide_eq_true_eq]
    exact Test.relationHolds_numeric engine (integer?_eq_some_iff.mpr hi)
      (integer?_eq_some_iff.mpr hj)
  · intro l r ns ms hl hr hns hms
    refine ⟨?_, ?_, ?_⟩
    · rw [hversion hl hr, Comparison.less_holds_iff]
      exact compare_version_eq_lt_iff hns hms
    · rw [hversion hl hr, Comparison.greater_holds_iff, Std.OrientedCmp.gt_iff_lt]
      exact compare_version_eq_lt_iff hms hns
    · rw [hversion hl hr, Comparison.equal_holds_iff]
      exact compare_version_eq_eq_iff hns hms

/-- A version behind a variable, one that is greater only by the number after the
dot, and one that differs in its zeros; a number with white space around it. -/
theorem evaluate_comparisons_of_versions :
    let engine : PatternEngine := fun _ => .ok fun _ => false
    let ctx := (Context.empty fun _ => .ok false).setVar "found" "007.2"
    let place : Location := ⟨1, 1, ⟨0, 0⟩⟩
    let found : Token := ⟨.raw, "found", place⟩
    let wanted : Token := ⟨.quoted, "7.10.0.0.5", place⟩
    let same : Token := ⟨.bracketed, "7.02.0", place⟩
    let count : Token := ⟨.quoted, " +12\n", place⟩
    let debt : Token := ⟨.quoted, "-3", place⟩
    Verdict engine ctx (.version .less) found wanted true ∧
      Verdict engine ctx (.version .equal) found same true ∧
      Verdict engine ctx (.version .lessEqual) wanted found false ∧
      Verdict engine ctx (.numeric .less) debt count true ∧
      Verdict engine ctx (.numeric .greater) count debt true ∧
      Verdict engine ctx (.numeric .equal) found count false ∧
      Verdict engine ctx (.text .less) found wanted true := by
  intro engine ctx place found wanted same count debt
  obtain ⟨-, hversions, hintegers, hothers, htexts, hinteger, hversion⟩ :=
    evaluate_comparisons engine ctx
  have hfound : found.IsComparand := .inr (.inr ⟨rfl, rfl⟩)
  have hwanted : wanted.IsComparand := .inl rfl
  have hsame : same.IsComparand := .inr (.inl rfl)
  have hcount : count.IsComparand := .inl rfl
  have hdebt : debt.IsComparand := .inl rfl
  have hform : ∀ (t : Token) (parts : List (List Char)), parts ≠ [] →
      (∀ p ∈ parts, IsDigits p ∧ digitsValue p < 2 ^ 64) →
      (ctx.operandText t).toList = ['.'].intercalate parts →
      IsVersion (ctx.operandText t).toList (parts.map digitsValue) := by
    intro t parts hne hparts htext
    rw [htext]
    exact .mk hne hparts
  have hfound' := hform found ["007".toList, ['2']] (by decide) (by decide) (by decide)
  have hsame' := hform same [['7'], "02".toList, ['0']] (by decide) (by decide) (by decide)
  have hwanted' := hform wanted [['7'], "10".toList, ['0'], ['0'], ['5']] (by decide) (by decide)
    (by decide)
  have hcount' : IsInteger (ctx.operandText count).toList 12 :=
    integer?_eq_some_iff.mp (by decide)
  have hdebt' : IsInteger (ctx.operandText debt).toList (-3) :=
    integer?_eq_some_iff.mp (by decide)
  have hnot : ¬ (IsIntegral ctx found ∧ IsIntegral ctx count) := by
    rintro ⟨⟨-, i, hi⟩, -⟩
    have hnone : integer? (ctx.operandText found) = none := by decide
    rw [integer?_eq_some_iff.mpr hi] at hnone
    cases hnone
  have hbefore : Verdict engine ctx (.version .less) found wanted true :=
    (hversion _ _ _ _ hfound hwanted hfound' hwanted').1.mpr ⟨1, by decide⟩
  have hafter : Verdict engine ctx (.version .greater) wanted found true :=
    (hversions.swap _ _ _ hfound hwanted).mp hbefore
  have hless : Verdict engine ctx (.numeric .less) debt count true :=
    hinteger debt count (-3) 12 hdebt hcount hdebt' hcount'
  have htext := htexts found wanted hfound hwanted
  rw [(by decide : decide (ctx.operandText found < ctx.operandText wanted) = true)] at htext
  exact ⟨hbefore, (hversion _ _ _ _ hfound hsame hfound' hsame').2.2.mpr (by decide),
    (hversions.lessEqual _ _ _ hwanted hfound).mpr hafter, hless,
    (hintegers.swap _ _ _ ⟨hdebt, _, hdebt'⟩ ⟨hcount, _, hcount'⟩).mp hless,
    hothers _ _ hfound hcount hnot .equal, htext⟩

end Listfile
