import Mathlib.Data.Int.Order.Basic
import Mathlib.Data.String.Basic
import Listfile.Condition.Evaluation

/-!
# The meaning of conditions

What conditions mean, given by rules that do not refer to their evaluation. The
rules ask the context for bindings, commands and paths, and the pattern engine
for searches; whatever these answer, every test has one result.

* `Token.Truth`, `Token.StandsFor` — what a lone token and an operand of a
  relation stand for;
* `Test.Gives` — the value of a test, or the error if it cannot be performed;
* `Condition.Means` — the truth tables of `NOT`, `AND` and `OR` above the tests;
* `Condition.Fails` — the first test that cannot be performed;
* `Test.gives_iff`, `Condition.means_iff`, `Condition.fails_iff` — how tests and
  conditions are evaluated agrees with the rules.
-/

namespace Listfile

open Text

/-! ## The rules -/

/-- `Token.Truth ctx t b`: standing alone, the token is true or false, as `b`
says. A constant is what it is. Of other tokens only unquoted names can be true:
those of variables that are bound to anything but a false constant. -/
inductive Token.Truth (ctx : Context) (t : Token) : Bool → Prop
  | constant {b : Bool} (h : constant? t.value = some b) : Token.Truth ctx t b
  | literal (h : constant? t.value = none) (hkind : t.kind ≠ .raw) : Token.Truth ctx t false
  | unbound (h : constant? t.value = none) (hkind : t.kind = .raw)
      (hvar : ctx.var? t.value = none) : Token.Truth ctx t false
  | boundFalse {value : String} (h : constant? t.value = none) (hkind : t.kind = .raw)
      (hvar : ctx.var? t.value = some value) (hvalue : constant? value = some false) :
      Token.Truth ctx t false
  | bound {value : String} (h : constant? t.value = none) (hkind : t.kind = .raw)
      (hvar : ctx.var? t.value = some value) (hvalue : constant? value ≠ some false) :
      Token.Truth ctx t true

/-- `Token.StandsFor ctx t text`: as an operand of a relation, the token stands
for the text. -/
inductive Token.StandsFor (ctx : Context) (t : Token) : String → Prop
  | value {text : String} (hkind : t.kind = .raw) (hvar : ctx.var? t.value = some text) :
      Token.StandsFor ctx t text
  | itself (h : t.kind = .raw → ctx.var? t.value = none) : Token.StandsFor ctx t t.value

/-- Whether two values compare as asked. -/
def Comparison.Relates {α : Type} [LT α] : Comparison → α → α → Prop
  | .equal, a, b => a = b
  | .less, a, b => a < b
  | .lessEqual, a, b => a < b ∨ a = b
  | .greater, a, b => b < a
  | .greaterEqual, a, b => b < a ∨ a = b

/-- `Test.Gives engine ctx t result`: the test has this value, or cannot be
performed because of this error. -/
inductive Test.Gives (engine : PatternEngine) (ctx : Context) :
    Test → Except ConditionError Bool → Prop
  | environmentVariable {arg : Token} {name : String}
      (h : arg.value = "ENV\x7b" ++ name ++ "\x7d") :
      Test.Gives engine ctx (.predicate .defined arg) (.ok (ctx.env? name).isSome)
  | cacheVariable {arg : Token} {name : String} (h : arg.value = "CACHE\x7b" ++ name ++ "\x7d") :
      Test.Gives engine ctx (.predicate .defined arg) (.ok (ctx.cache? name).isSome)
  | normalVariable {arg : Token} (henv : ∀ name, arg.value ≠ "ENV\x7b" ++ name ++ "\x7d")
      (hcache : ∀ name, arg.value ≠ "CACHE\x7b" ++ name ++ "\x7d") :
      Test.Gives engine ctx (.predicate .defined arg) (.ok (ctx.var? arg.value).isSome)
  | path {arg : Token} {found : Bool} (h : ctx.pathExists arg.value = .ok found) :
      Test.Gives engine ctx (.predicate .exists_ arg) (.ok found)
  | pathFails {arg : Token} {cause : String} (h : ctx.pathExists arg.value = .error cause) :
      Test.Gives engine ctx (.predicate .exists_ arg)
        (.error ⟨.existsCheck arg.value cause, arg.line, arg.column⟩)
  | command {arg : Token} :
      Test.Gives engine ctx (.predicate .command arg) (.ok (ctx.isCommand arg.value))
  | integers {c : Comparison} {lhs rhs : Token} {l r : String} {i j : Int} {b : Bool}
      (hl : lhs.StandsFor ctx l) (hr : rhs.StandsFor ctx r) (hi : integer? l = some i)
      (hj : integer? r = some j) (hb : b = true ↔ c.Relates i j) :
      Test.Gives engine ctx (.relation (.numeric c) lhs rhs) (.ok b)
  | noIntegers {c : Comparison} {lhs rhs : Token} {l r : String} (hl : lhs.StandsFor ctx l)
      (hr : rhs.StandsFor ctx r) (h : integer? l = none ∨ integer? r = none) :
      Test.Gives engine ctx (.relation (.numeric c) lhs rhs) (.ok false)
  | texts {c : Comparison} {lhs rhs : Token} {l r : String} {b : Bool}
      (hl : lhs.StandsFor ctx l) (hr : rhs.StandsFor ctx r) (hb : b = true ↔ c.Relates l r) :
      Test.Gives engine ctx (.relation (.text c) lhs rhs) (.ok b)
  | versions {c : Comparison} {lhs rhs : Token} {l r : String} {b : Bool}
      (hl : lhs.StandsFor ctx l) (hr : rhs.StandsFor ctx r)
      (hb : b = true ↔ c.Relates (version l) (version r)) :
      Test.Gives engine ctx (.relation (.version c) lhs rhs) (.ok b)
  | paths {lhs rhs : Token} {l r : String} {b : Bool} (hl : lhs.StandsFor ctx l)
      (hr : rhs.StandsFor ctx r) (hb : b = true ↔ normalizePath l = normalizePath r) :
      Test.Gives engine ctx (.relation .samePath lhs rhs) (.ok b)
  | pattern {lhs rhs : Token} {l : String} {search : String → Bool} (hl : lhs.StandsFor ctx l)
      (h : engine rhs.value = .ok search) :
      Test.Gives engine ctx (.relation .matchesPattern lhs rhs) (.ok (search l))
  | patternFails {lhs rhs : Token} {message : String} (h : engine rhs.value = .error message) :
      Test.Gives engine ctx (.relation .matchesPattern lhs rhs)
        (.error ⟨.invalidPattern rhs.value message, rhs.line, rhs.column⟩)
  | list {lhs rhs : Token} {l : String} {b : Bool} (hl : lhs.StandsFor ctx l)
      (hb : b = true ↔ l ∈ splitList ((ctx.var? rhs.value).getD "")) :
      Test.Gives engine ctx (.relation .inList lhs rhs) (.ok b)

/-- `Condition.Means engine ctx c b`: all tests of the condition can be performed,
and it is true or false, as `b` says. -/
inductive Condition.Means (engine : PatternEngine) (ctx : Context) : Condition → Bool → Prop
  | operand {t : Token} {b : Bool} (h : t.Truth ctx b) : Condition.Means engine ctx (.operand t) b
  | test {t : Test} {b : Bool} (h : t.Gives engine ctx (.ok b)) :
      Condition.Means engine ctx (.test t) b
  | not {c : Condition} {b : Bool} (h : Condition.Means engine ctx c b) :
      Condition.Means engine ctx (.not c) !b
  | and {lhs rhs : Condition} {a b : Bool} (hl : Condition.Means engine ctx lhs a)
      (hr : Condition.Means engine ctx rhs b) :
      Condition.Means engine ctx (.joined .and lhs rhs) (a && b)
  | or {lhs rhs : Condition} {a b : Bool} (hl : Condition.Means engine ctx lhs a)
      (hr : Condition.Means engine ctx rhs b) :
      Condition.Means engine ctx (.joined .or lhs rhs) (a || b)

/-- The tests of a condition, from left to right. -/
def Condition.tests : Condition → List Test
  | .operand _ => []
  | .test t => [t]
  | .not c => c.tests
  | .joined _ lhs rhs => lhs.tests ++ rhs.tests

/-- The first test of the condition that cannot be performed fails with the error. -/
def Condition.Fails (engine : PatternEngine) (ctx : Context) (c : Condition)
    (e : ConditionError) : Prop :=
  ∃ before t after, c.tests = before ++ t :: after ∧ t.Gives engine ctx (.error e) ∧
    ∀ earlier ∈ before, ∃ b, earlier.Gives engine ctx (.ok b)

/-! ## What tokens stand for -/

section Tokens

variable {ctx : Context} {t : Token}

/-- What is no false constant counts as true. -/
theorem getD_true_iff {constant : Option Bool} :
    constant.getD true = true ↔ constant ≠ some false := by
  cases constant with
  | none => simp
  | some b => simp

theorem Token.truth_iff {b : Bool} : t.Truth ctx b ↔ ctx.isTrue t = b := by
  have hempty : constant? "" = some false := by decide +kernel
  unfold Context.isTrue
  constructor
  · intro h
    cases h with
    | constant h => rw [h]
    | literal h hkind => simp [h, hkind]
    | unbound h hkind hvar => simp [h, hkind, hvar, hempty]
    | boundFalse h hkind hvar hvalue => simp [h, hkind, hvar, hvalue]
    | bound h hkind hvar hvalue => simp [h, hkind, hvar, getD_true_iff.mpr hvalue]
  · rintro rfl
    cases hconstant : constant? t.value with
    | some b => exact .constant hconstant
    | none =>
        by_cases hkind : t.kind = .raw
        · cases hvar : ctx.var? t.value with
          | none => simpa [hkind, hempty] using Truth.unbound hconstant hkind hvar
          | some value =>
              by_cases hvalue : constant? value = some false
              · simpa [hkind, hvalue] using Truth.boundFalse hconstant hkind hvar hvalue
              · have htrue := getD_true_iff.mpr hvalue
                simpa [hkind, htrue] using Truth.bound hconstant hkind hvar hvalue
        · simpa [hkind] using Truth.literal hconstant hkind

theorem Token.standsFor_iff {text : String} :
    t.StandsFor ctx text ↔ ctx.operandText t = text := by
  unfold Context.operandText
  constructor
  · intro h
    cases h with
    | value hkind hvar => rw [if_pos hkind, hvar, Option.getD_some]
    | itself h =>
        split
        · rename_i hkind
          rw [h hkind, Option.getD_none]
        · rfl
  · rintro rfl
    split
    · rename_i hkind
      cases hvar : ctx.var? t.value with
      | none => exact .itself fun _ => hvar
      | some text => exact .value hkind hvar
    · rename_i hkind
      exact .itself fun h => absurd h hkind

end Tokens

/-! ## What tests give -/

/-- What a reference to a store is, and what it refers to. -/
theorem braced?_eq_some_iff {mark : List Char} {value name : String} :
    braced? mark value = some name ↔ value = String.ofList mark ++ "\x7b" ++ name ++ "\x7d" := by
  unfold braced?
  simp only
  constructor
  · intro h
    split at h
    · rename_i hbraced
      rw [Bool.and_eq_true, List.isPrefixOf_iff_prefix, beq_iff_eq] at hbraced
      obtain ⟨⟨inside, hinside⟩, hlast⟩ := hbraced
      rw [← hinside, List.drop_left] at h hlast
      obtain rfl := Option.some.inj h
      rw [← String.toList_inj, ← hinside, ← List.dropLast_append_getLast? _ hlast]
      simp
    · cases h
  · rintro rfl
    have hcs : (String.ofList mark ++ "\x7b" ++ name ++ "\x7d").toList =
        (mark ++ ['\x7b']) ++ (name.toList ++ ['\x7d']) := by simp
    rw [hcs, List.drop_left, if_pos]
    · simp
    · simp

theorem braced?_eq_none_iff {mark : List Char} {value : String} :
    braced? mark value = none ↔ ∀ name, value ≠ String.ofList mark ++ "\x7b" ++ name ++ "\x7d" := by
  simp only [Option.eq_none_iff_forall_ne_some, ne_eq, braced?_eq_some_iff]

theorem Context.isBound_of_environment {ctx : Context} {value name : String}
    (h : value = "ENV\x7b" ++ name ++ "\x7d") : ctx.isBound value = (ctx.env? name).isSome := by
  have henv : braced? Store.environment.mark value = some name := braced?_eq_some_iff.mpr h
  unfold Context.isBound
  rw [henv]

theorem Context.isBound_of_cache {ctx : Context} {value name : String}
    (h : value = "CACHE\x7b" ++ name ++ "\x7d") :
    ctx.isBound value = (ctx.cache? name).isSome := by
  have hcache : braced? Store.cache.mark value = some name := braced?_eq_some_iff.mpr h
  have henv : braced? Store.environment.mark value = none := by
    rw [braced?_eq_none_iff]
    rintro other hother
    -- The two marks differ in their first letter.
    have hcs := congrArg String.toList (h.symm.trans hother)
    simp [Store.mark] at hcs
  unfold Context.isBound
  rw [henv, hcache]

theorem Context.isBound_of_variable {ctx : Context} {value : String}
    (henv : ∀ name, value ≠ "ENV\x7b" ++ name ++ "\x7d")
    (hcache : ∀ name, value ≠ "CACHE\x7b" ++ name ++ "\x7d") :
    ctx.isBound value = (ctx.var? value).isSome := by
  have henv : braced? Store.environment.mark value = none := braced?_eq_none_iff.mpr henv
  have hcache : braced? Store.cache.mark value = none := braced?_eq_none_iff.mpr hcache
  unfold Context.isBound
  rw [henv, hcache]

/-- Values compare as their order says. -/
theorem Comparison.holds_compare_iff {α : Type} [LT α] [Ord α] [Std.OrientedOrd α]
    [Std.LawfulEqOrd α] (hlt : ∀ a b : α, compare a b = .lt ↔ a < b) {c : Comparison} {a b : α} :
    c.holds (compare a b) = true ↔ c.Relates a b := by
  have heq : compare a b = .eq ↔ a = b := Std.compare_eq_iff_eq
  have hgt : compare a b = .gt ↔ b < a := Std.OrientedCmp.gt_iff_lt.trans (hlt b a)
  cases c with
  | equal => exact Ordering.isEq_iff_eq_eq.trans heq
  | less => exact Ordering.isLT_iff_eq_lt.trans (hlt a b)
  | lessEqual => exact Ordering.isLE_iff_eq_lt_or_eq_eq.trans (or_congr (hlt a b) heq)
  | greater => exact Ordering.isGT_iff_eq_gt.trans hgt
  | greaterEqual => exact Ordering.isGE_iff_eq_gt_or_eq_eq.trans (or_congr hgt heq)

/-- Versions are in the order of their first components that differ. -/
theorem compare_components_eq_lt_iff (ns ms : List Nat) : compare ns ms = .lt ↔ ns < ms := by
  induction ns generalizing ms with
  | nil => cases ms <;> simp
  | cons n ns ih =>
      cases ms with
      | nil => simp
      | cons m ms =>
          rw [List.compare_cons_cons, Ordering.then_eq_lt, Nat.compare_eq_lt, Nat.compare_eq_eq, ih,
            List.cons_lt_cons_iff]

/-! ### Relations -/

section Relations

variable (engine : PatternEngine) {ctx : Context} {lhs rhs : Token} {c : Comparison}

theorem Test.relationHolds_numeric {i j : Int} (hi : integer? (ctx.operandText lhs) = some i)
    (hj : integer? (ctx.operandText rhs) = some j) :
    relationHolds engine ctx (.numeric c) lhs rhs = true ↔ c.Relates i j := by
  simp only [relationHolds, compareIntegers, hi, hj]
  exact Comparison.holds_compare_iff fun _ _ => Int.compare_eq_lt

theorem Test.relationHolds_numeric_of_none
    (h : integer? (ctx.operandText lhs) = none ∨ integer? (ctx.operandText rhs) = none) :
    relationHolds engine ctx (.numeric c) lhs rhs = false := by
  simp only [relationHolds, compareIntegers]
  rcases h with h | h <;> simp [h]

theorem Test.relationHolds_text :
    relationHolds engine ctx (.text c) lhs rhs = true ↔
      c.Relates (ctx.operandText lhs) (ctx.operandText rhs) :=
  Comparison.holds_compare_iff fun _ _ => compare_lt_iff_lt

theorem Test.relationHolds_version :
    relationHolds engine ctx (.version c) lhs rhs = true ↔
      c.Relates (version (ctx.operandText lhs)) (version (ctx.operandText rhs)) :=
  Comparison.holds_compare_iff compare_components_eq_lt_iff

theorem Test.relationHolds_samePath :
    relationHolds engine ctx .samePath lhs rhs = true ↔
      normalizePath (ctx.operandText lhs) = normalizePath (ctx.operandText rhs) :=
  beq_iff_eq

theorem Test.relationHolds_inList :
    relationHolds engine ctx .inList lhs rhs = true ↔
      ctx.operandText lhs ∈ splitList ((ctx.var? rhs.value).getD "") :=
  List.contains_iff_mem

end Relations

/-! ### All tests -/

section Tests

variable {engine : PatternEngine} {ctx : Context}

/-- What the evaluation makes of a test. -/
def Test.outcome (engine : PatternEngine) (ctx : Context) (t : Test) :
    Except ConditionError Bool :=
  match t.error? engine ctx with
  | some e => .error e
  | none => .ok (t.holds engine ctx)

theorem Test.outcome_eq_error_iff {t : Test} {e : ConditionError} :
    t.outcome engine ctx = .error e ↔ t.error? engine ctx = some e := by
  unfold outcome
  split <;> simp [*]

theorem Test.outcome_eq_ok_iff {t : Test} {b : Bool} :
    t.outcome engine ctx = .ok b ↔ t.error? engine ctx = none ∧ t.holds engine ctx = b := by
  unfold outcome
  split <;> simp [*]

/-- A result that the rules give is that of the evaluation. -/
theorem Test.Gives.outcome_eq {t : Test} {result : Except ConditionError Bool}
    (h : t.Gives engine ctx result) : t.outcome engine ctx = result := by
  have hok : ∀ {a b : Bool} {p : Prop}, (a = true ↔ p) → (b = true ↔ p) →
      (Except.ok a : Except ConditionError Bool) = .ok b :=
    fun ha hb => congrArg _ (Bool.eq_iff_iff.mpr (ha.trans hb.symm))
  cases h with
  | environmentVariable h => exact congrArg _ (Context.isBound_of_environment h)
  | cacheVariable h => exact congrArg _ (Context.isBound_of_cache h)
  | normalVariable henv hcache => exact congrArg _ (Context.isBound_of_variable henv hcache)
  | path h => simp [outcome, error?, holds, h, Except.toOption]
  | pathFails h => simp [outcome, error?, h, Token.conditionError]
  | command => rfl
  | integers hl hr hi hj hb =>
      rw [← Token.standsFor_iff.mp hl] at hi
      rw [← Token.standsFor_iff.mp hr] at hj
      exact hok (relationHolds_numeric engine hi hj) hb
  | noIntegers hl hr h =>
      rw [← Token.standsFor_iff.mp hl, ← Token.standsFor_iff.mp hr] at h
      exact congrArg _ (relationHolds_numeric_of_none engine h)
  | texts hl hr hb =>
      rw [← Token.standsFor_iff.mp hl, ← Token.standsFor_iff.mp hr] at hb
      exact hok (relationHolds_text engine) hb
  | versions hl hr hb =>
      rw [← Token.standsFor_iff.mp hl, ← Token.standsFor_iff.mp hr] at hb
      exact hok (relationHolds_version engine) hb
  | paths hl hr hb =>
      rw [← Token.standsFor_iff.mp hl, ← Token.standsFor_iff.mp hr] at hb
      exact hok (relationHolds_samePath engine) hb
  | pattern hl h =>
      rw [← Token.standsFor_iff.mp hl]
      simp [outcome, error?, holds, relationHolds, h, Except.toOption]
  | patternFails h => simp [outcome, error?, h, Token.conditionError]
  | list hl hb =>
      rw [← Token.standsFor_iff.mp hl] at hb
      exact hok (relationHolds_inList engine) hb

/-- The rules give every test a result. -/
theorem Test.exists_gives (engine : PatternEngine) (ctx : Context) (t : Test) :
    ∃ result, t.Gives engine ctx result := by
  have hself : ∀ t : Token, t.StandsFor ctx (ctx.operandText t) :=
    fun _ => Token.standsFor_iff.mpr rfl
  have hdecided : ∀ p : Prop, ∃ b : Bool, b = true ↔ p := by
    classical
    exact fun p => ⟨decide p, decide_eq_true_iff⟩
  cases t with
  | predicate p arg =>
      cases p with
      | defined =>
          by_cases henv : ∃ name, arg.value = "ENV\x7b" ++ name ++ "\x7d"
          · obtain ⟨name, henv⟩ := henv
            exact ⟨_, .environmentVariable henv⟩
          by_cases hcache : ∃ name, arg.value = "CACHE\x7b" ++ name ++ "\x7d"
          · obtain ⟨name, hcache⟩ := hcache
            exact ⟨_, .cacheVariable hcache⟩
          exact ⟨_, .normalVariable (not_exists.mp henv) (not_exists.mp hcache)⟩
      | exists_ =>
          cases hpath : ctx.pathExists arg.value with
          | ok found => exact ⟨_, .path hpath⟩
          | error cause => exact ⟨_, .pathFails hpath⟩
      | command => exact ⟨_, .command⟩
  | relation r lhs rhs =>
      have hl := hself lhs
      have hr := hself rhs
      cases r with
      | numeric c =>
          cases hi : integer? (ctx.operandText lhs) with
          | none => exact ⟨_, .noIntegers hl hr (.inl hi)⟩
          | some i =>
              cases hj : integer? (ctx.operandText rhs) with
              | none => exact ⟨_, .noIntegers hl hr (.inr hj)⟩
              | some j =>
                  obtain ⟨b, hb⟩ := hdecided (c.Relates i j)
                  exact ⟨_, .integers hl hr hi hj hb⟩
      | text c =>
          obtain ⟨b, hb⟩ := hdecided (c.Relates (ctx.operandText lhs) (ctx.operandText rhs))
          exact ⟨_, .texts hl hr hb⟩
      | version c =>
          obtain ⟨b, hb⟩ := hdecided
            (c.Relates (version (ctx.operandText lhs)) (version (ctx.operandText rhs)))
          exact ⟨_, .versions hl hr hb⟩
      | samePath =>
          obtain ⟨b, hb⟩ := hdecided
            (normalizePath (ctx.operandText lhs) = normalizePath (ctx.operandText rhs))
          exact ⟨_, .paths hl hr hb⟩
      | matchesPattern =>
          cases hengine : engine rhs.value with
          | ok search => exact ⟨_, .pattern hl hengine⟩
          | error message => exact ⟨_, .patternFails hengine⟩
      | inList =>
          obtain ⟨b, hb⟩ := hdecided
            (ctx.operandText lhs ∈ splitList ((ctx.var? rhs.value).getD ""))
          exact ⟨_, .list hl hb⟩

/-- The rules give a test what the evaluation makes of it, and nothing else. -/
theorem Test.gives_iff {t : Test} {result : Except ConditionError Bool} :
    t.Gives engine ctx result ↔ t.outcome engine ctx = result := by
  refine ⟨Gives.outcome_eq, ?_⟩
  rintro rfl
  obtain ⟨result, h⟩ := t.exists_gives engine ctx
  rwa [h.outcome_eq]

theorem Test.gives_error_iff {t : Test} {e : ConditionError} :
    t.Gives engine ctx (.error e) ↔ t.error? engine ctx = some e :=
  gives_iff.trans outcome_eq_error_iff

theorem Test.gives_ok_iff {t : Test} {b : Bool} :
    t.Gives engine ctx (.ok b) ↔ t.error? engine ctx = none ∧ t.holds engine ctx = b :=
  gives_iff.trans outcome_eq_ok_iff

end Tests

/-! ## Conditions -/

section Conditions

variable {engine : PatternEngine} {ctx : Context} {c : Condition}

theorem Condition.Means.holds_eq {b : Bool} (h : c.Means engine ctx b) :
    (∀ t ∈ c.tests, t.error? engine ctx = none) ∧ c.holds engine ctx = b := by
  induction h with
  | operand h => exact ⟨by simp [tests], Token.truth_iff.mp h⟩
  | test h =>
      obtain ⟨hnone, hholds⟩ := Test.gives_ok_iff.mp h
      exact ⟨by simpa [tests] using hnone, hholds⟩
  | not _ ih => exact ⟨ih.1, congrArg Bool.not ih.2⟩
  | and _ _ ihl ihr | or _ _ ihl ihr =>
      refine ⟨List.forall_mem_append.mpr ⟨ihl.1, ihr.1⟩, ?_⟩
      rw [holds, ihl.2, ihr.2]
      rfl

theorem Condition.means_holds (h : ∀ t ∈ c.tests, t.error? engine ctx = none) :
    c.Means engine ctx (c.holds engine ctx) := by
  induction c with
  | operand t => exact .operand (Token.truth_iff.mpr rfl)
  | test t =>
      have hnone := h t List.mem_cons_self
      exact .test (Test.gives_ok_iff.mpr ⟨hnone, rfl⟩)
  | not c ih => exact .not (ih h)
  | joined op lhs rhs ihl ihr =>
      obtain ⟨hl, hr⟩ := List.forall_mem_append.mp h
      cases op with
      | and => exact .and (ihl hl) (ihr hr)
      | or => exact .or (ihl hl) (ihr hr)

/-- A condition has a meaning if all of its tests can be performed, and then it
means what it is evaluated to. -/
theorem Condition.means_iff {b : Bool} :
    c.Means engine ctx b ↔
      (∀ t ∈ c.tests, t.error? engine ctx = none) ∧ c.holds engine ctx = b := by
  refine ⟨Means.holds_eq, ?_⟩
  rintro ⟨h, rfl⟩
  exact means_holds h

/-- A condition fails with the error of its first test that has one. -/
theorem Condition.fails_iff {e : ConditionError} :
    c.Fails engine ctx e ↔ c.tests.findSome? (·.error? engine ctx) = some e := by
  unfold Fails
  simp only [List.findSome?_eq_some_iff, Test.gives_error_iff, Test.gives_ok_iff, exists_and_left,
    exists_eq', and_true]

end Conditions

end Listfile
