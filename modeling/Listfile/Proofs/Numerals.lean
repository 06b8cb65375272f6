import Mathlib.Algebra.Order.Field.Power
import Mathlib.Algebra.Order.Ring.Abs
import Mathlib.Data.List.Induction
import Mathlib.Data.List.TakeWhile
import Mathlib.Data.Nat.Digits.Defs
import Mathlib.Data.Rat.Cast.Order
import Mathlib.Tactic.FieldSimp
import Mathlib.Tactic.NormNum
import Mathlib.Tactic.Positivity
import Mathlib.Tactic.Ring
import Listfile.Condition.Operand

/-!
# Decimal numerals

`IsNumeral` is the grammar of decimal numerals: a sign that may be missing,
digits with an optional point, and an optional exponent. It gives the exact
rational number that a numeral writes, however long it is.

* `numberOf_eq_digitsValue` — digits are read to the number that they write;
* `natural?_eq_some_iff` — and nothing but digits is;
* `Numeral.read?_of_isNumeral` — a numeral is read to its number, as long as its
  exponent is not so large that the reader stops counting;
* `Numeral.isSome_read?_iff` — whatever is read is a numeral, and every numeral is read.
-/

namespace Listfile

/-! ## Digits -/

/-- The text is made of digits only. -/
def AllDigits (ds : List Char) : Prop :=
  ∀ c ∈ ds, c.isDigit = true

instance (ds : List Char) : Decidable (AllDigits ds) :=
  decidable_of_iff (ds.all Char.isDigit = true) List.all_eq_true

/-- Digits, at least one. -/
structure IsDigits (ds : List Char) : Prop where
  nonempty : ds ≠ []
  digits : AllDigits ds

instance (ds : List Char) : Decidable (IsDigits ds) :=
  decidable_of_iff (ds ≠ [] ∧ AllDigits ds) ⟨fun h => ⟨h.1, h.2⟩, fun h => ⟨h.nonempty, h.digits⟩⟩

/-- The number that digits write: the last digit counts ones, the one before it
tens, and so on. -/
def digitsValue (ds : List Char) : Nat :=
  Nat.ofDigits 10 (ds.reverse.map digitValue)

theorem numberOf_eq_digitsValue (ds : List Char) : numberOf ds = digitsValue ds := by
  induction ds using List.reverseRecOn with
  | nil => rfl
  | append_singleton ds c ih =>
      unfold numberOf at ih ⊢
      rw [List.foldl_append, List.foldl_cons, List.foldl_nil, ih, digitsValue, digitsValue,
        List.reverse_append, List.reverse_singleton, List.singleton_append, List.map_cons,
        Nat.ofDigits_cons, Nat.add_comm]

theorem digitsValue_append (ds es : List Char) :
    digitsValue (ds ++ es) = digitsValue ds * 10 ^ es.length + digitsValue es := by
  unfold digitsValue
  rw [List.reverse_append, List.map_append, Nat.ofDigits_append, List.length_map,
    List.length_reverse]
  ring

theorem natural?_eq_some_iff {ds : List Char} {n : Nat} :
    natural? ds = some n ↔ IsDigits ds ∧ digitsValue ds = n := by
  unfold natural?
  split
  · rename_i h
    simp only [Bool.and_eq_true, Bool.not_eq_true', List.isEmpty_eq_false_iff,
      List.all_eq_true] at h
    rw [Option.some.injEq, numberOf_eq_digitsValue]
    exact ⟨fun hn => ⟨⟨h.1, h.2⟩, hn⟩, fun hn => hn.2⟩
  · rename_i h
    simp only [Bool.and_eq_true, Bool.not_eq_true', List.isEmpty_eq_false_iff,
      List.all_eq_true] at h
    constructor
    · exact nofun
    · rintro ⟨hds, -⟩
      exact absurd ⟨hds.nonempty, hds.digits⟩ h

/-- The text does not go on with a digit. -/
def EndsDigits (cs : List Char) : Prop :=
  ∀ c ∈ cs.head?, c.isDigit = false

theorem AllDigits.takeWhile_append {ds cs : List Char} (hds : AllDigits ds) (hcs : EndsDigits cs) :
    (ds ++ cs).takeWhile Char.isDigit = ds := by
  rw [List.takeWhile_append_of_pos hds]
  cases cs with
  | nil => simp
  | cons c cs => simp [hcs c rfl]

theorem AllDigits.dropWhile_append {ds cs : List Char} (hds : AllDigits ds) (hcs : EndsDigits cs) :
    (ds ++ cs).dropWhile Char.isDigit = cs := by
  rw [List.dropWhile_append_of_pos hds]
  cases cs with
  | nil => rfl
  | cons c cs => simp [hcs c rfl]

/-! ## Signs -/

/-- A sign that may be missing, and the factor that it stands for. -/
inductive IsSign : List Char → Int → Prop
  | missing : IsSign [] 1
  | plus : IsSign ['+'] 1
  | minus : IsSign ['-'] (-1)

/-- Whether there is a minus. -/
def isMinus (factor : Int) : Bool :=
  factor == -1

/-- The text does not begin with a sign. -/
def Unsigned (cs : List Char) : Prop :=
  ∀ c ∈ cs.head?, c ≠ '+' ∧ c ≠ '-'

theorem dropSign_of_unsigned {cs : List Char} (h : Unsigned cs) : dropSign cs = (false, cs) := by
  unfold dropSign
  split
  · exact absurd rfl (h _ rfl).2
  · exact absurd rfl (h _ rfl).1
  · rfl

theorem IsSign.dropSign_append {sign cs : List Char} {factor : Int} (h : IsSign sign factor)
    (hcs : Unsigned cs) : dropSign (sign ++ cs) = (isMinus factor, cs) := by
  cases h with
  | missing => exact dropSign_of_unsigned hcs
  | plus => rfl
  | minus => rfl

theorem exists_isSign_of_dropSign (cs : List Char) :
    ∃ sign factor, cs = sign ++ (dropSign cs).2 ∧ IsSign sign factor ∧
      (dropSign cs).1 = isMinus factor := by
  unfold dropSign
  split
  · exact ⟨['-'], -1, rfl, .minus, rfl⟩
  · exact ⟨['+'], 1, rfl, .plus, rfl⟩
  · exact ⟨[], 1, rfl, .missing, rfl⟩

theorem IsSign.natAbs_eq {sign : List Char} {factor : Int} (h : IsSign sign factor) :
    factor.natAbs = 1 := by
  cases h <;> rfl

/-- A signed number. -/
theorem IsSign.mul_eq {sign : List Char} {factor : Int} (h : IsSign sign factor) (n : Nat) :
    factor * n = if isMinus factor then -(n : Int) else n := by
  cases h <;> simp [isMinus]

theorem ne_sign_of_isDigit {c : Char} (h : c.isDigit = true) : c ≠ '+' ∧ c ≠ '-' := by
  constructor <;> (rintro rfl; cases h)

/-- Digits are no sign, and neither is what follows them when there are none. -/
theorem AllDigits.unsigned_append {ds cs : List Char} (h : AllDigits ds)
    (hcs : ds = [] → Unsigned cs) : Unsigned (ds ++ cs) := by
  cases ds with
  | nil => exact hcs rfl
  | cons d ds =>
      rintro c ⟨rfl⟩
      exact ne_sign_of_isDigit (h d List.mem_cons_self)

theorem IsDigits.unsigned_append {ds : List Char} (h : IsDigits ds) (cs : List Char) :
    Unsigned (ds ++ cs) :=
  h.digits.unsigned_append fun hnil => absurd hnil h.nonempty

theorem IsDigits.unsigned {ds : List Char} (h : IsDigits ds) : Unsigned ds := by
  rw [← List.append_nil ds]
  exact h.unsigned_append []

/-! ## Exponents -/

/-- An exponent that may be missing, and the power of ten that it stands for. -/
inductive IsExponent : List Char → Int → Prop
  | missing : IsExponent [] 0
  | power {mark : Char} {sign digits : List Char} {factor : Int}
      (hmark : mark = 'e' ∨ mark = 'E') (hsign : IsSign sign factor) (hdigits : IsDigits digits) :
      IsExponent (mark :: (sign ++ digits)) (factor * digitsValue digits)

/-- The reader of exponents follows the digits up to a number of five digits. -/
theorem exponentOf_eq_digitsValue {ds : List Char} (h : digitsValue ds < 0x10000) :
    exponentOf ds = digitsValue ds := by
  have hfrom : ∀ (ds : List Char) (n : Nat),
      ds.foldl (fun n c => 10 * n + digitValue c) n < 0x10000 →
        n ≤ ds.foldl (fun n c => 10 * n + digitValue c) n ∧
          ds.foldl (fun n c => if n < 0x10000 then 10 * n + digitValue c else n) n =
            ds.foldl (fun n c => 10 * n + digitValue c) n := by
    intro ds
    induction ds with
    | nil => exact fun n _ => ⟨Nat.le_refl n, rfl⟩
    | cons c ds ih =>
        intro n hn
        rw [List.foldl_cons] at hn ⊢
        obtain ⟨hle, heq⟩ := ih _ hn
        rw [List.foldl_cons, if_pos (by omega)]
        exact ⟨by omega, heq⟩
  rw [← numberOf_eq_digitsValue] at h ⊢
  exact (hfrom ds 0 h).2

theorem IsExponent.exponent?_eq {cs : List Char} {exponent : Int} (h : IsExponent cs exponent)
    (hsmall : exponent.natAbs < 0x10000) : exponent? cs = some exponent := by
  cases h with
  | missing => rfl
  | @power mark sign digits factor hmark hsign hdigits =>
      have hdigitsValue : digitsValue digits < 0x10000 := by
        rwa [Int.natAbs_mul, hsign.natAbs_eq, Nat.one_mul, Int.natAbs_natCast] at hsmall
      have hmark : (mark == 'e' || mark == 'E') = true := by
        rcases hmark with rfl | rfl <;> rfl
      have hall : digits.all Char.isDigit = true := List.all_eq_true.mpr hdigits.digits
      have hempty : digits.isEmpty = false := List.isEmpty_eq_false_iff.mpr hdigits.nonempty
      simp only [exponent?, hsign.dropSign_append hdigits.unsigned, hmark, hempty, hall,
        exponentOf_eq_digitsValue hdigitsValue, hsign.mul_eq]
      rfl

/-- Every exponent is read, the ones with too many digits to some large number. -/
theorem IsExponent.isSome_exponent? {cs : List Char} {exponent : Int}
    (h : IsExponent cs exponent) : (exponent? cs).isSome = true := by
  cases h with
  | missing => rfl
  | power hmark hsign hdigits =>
      simp only [exponent?, hsign.dropSign_append hdigits.unsigned]
      rw [if_pos]
      · rfl
      · simp only [Bool.and_eq_true, Bool.or_eq_true, beq_iff_eq, Bool.not_eq_true',
          List.isEmpty_eq_false_iff, List.all_eq_true]
        exact ⟨⟨hmark, hdigits.nonempty⟩, hdigits.digits⟩

theorem exists_isExponent_of_exponent? {cs : List Char} {read : Int}
    (h : exponent? cs = some read) : ∃ exponent, IsExponent cs exponent := by
  unfold exponent? at h
  split at h
  · exact ⟨0, .missing⟩
  · rename_i mark rest
    obtain ⟨sign, factor, hrest, hsign, -⟩ := exists_isSign_of_dropSign rest
    simp only at h
    split at h
    · rename_i hform
      simp only [Bool.and_eq_true, Bool.or_eq_true, beq_iff_eq, Bool.not_eq_true',
        List.isEmpty_eq_false_iff, List.all_eq_true] at hform
      obtain ⟨⟨hmark, hne⟩, hdigits⟩ := hform
      rw [hrest]
      exact ⟨_, .power hmark hsign ⟨hne, hdigits⟩⟩
    · cases h

/-- An exponent begins with its mark. -/
theorem IsExponent.head? {cs : List Char} {exponent : Int} (h : IsExponent cs exponent) :
    ∀ c ∈ cs.head?, c.isDigit = false ∧ c ≠ '.' ∧ c ≠ '+' ∧ c ≠ '-' := by
  cases h with
  | missing => simp
  | power hmark _ _ =>
      rintro c ⟨rfl⟩
      rcases hmark with rfl | rfl <;> decide

/-! ## Numerals -/

/-- Digits with an optional point, and the number that they write. -/
inductive IsMantissa : List Char → ℚ → Prop
  | integer {ds : List Char} (h : IsDigits ds) : IsMantissa ds (digitsValue ds)
  | decimal {whole fraction : List Char} (hwhole : AllDigits whole)
      (hfraction : AllDigits fraction) (hne : whole ++ fraction ≠ []) :
      IsMantissa (whole ++ '.' :: fraction)
        (digitsValue whole + digitsValue fraction / 10 ^ fraction.length)

/-- `IsNumeral cs exponent value`: the text is a decimal numeral with the
exponent and writes the value. -/
inductive IsNumeral : List Char → Int → ℚ → Prop
  | mk {sign mantissa tail : List Char} {factor exponent : Int} {number : ℚ}
      (hsign : IsSign sign factor) (hmantissa : IsMantissa mantissa number)
      (htail : IsExponent tail exponent) :
      IsNumeral (sign ++ (mantissa ++ tail)) exponent (factor * number * 10 ^ exponent)

/-- The number that a numeral stands for, without its sign. -/
def Numeral.value (n : Numeral) : ℚ :=
  n.mantissa * 10 ^ n.exponent

/-- A mantissa in front of an exponent is read to its digits and the number of
places behind the point. -/
theorem IsMantissa.exists_read? {mantissa : List Char} {number : ℚ}
    (h : IsMantissa mantissa number) :
    ∃ (digits : List Char) (places : Nat), number = digitsValue digits / 10 ^ places ∧
      ∀ {sign tail : List Char} {factor exponent : Int}, IsSign sign factor →
        IsExponent tail exponent →
        Numeral.read? (sign ++ (mantissa ++ tail)) =
          (exponent? tail).map fun e => ⟨numberOf digits, e - places⟩ := by
  cases h with
  | integer h =>
      refine ⟨mantissa, 0, by simp, fun {sign tail factor exponent} hsign htail => ?_⟩
      have hends : EndsDigits tail := fun c hc => (htail.head? c hc).1
      have hempty : mantissa.isEmpty = false := List.isEmpty_eq_false_iff.mpr h.nonempty
      simp only [Numeral.read?, hsign.dropSign_append (h.unsigned_append tail),
        h.digits.takeWhile_append hends, h.digits.dropWhile_append hends]
      split
      · exact absurd rfl (htail.head? '.' rfl).2.1
      · simp [hempty]
  | @decimal whole fraction hwhole hfraction hne =>
      refine ⟨whole ++ fraction, fraction.length, ?_,
        fun {sign tail factor exponent} hsign htail => ?_⟩
      · rw [digitsValue_append]
        field_simp
        push_cast
        ring
      · have hends : EndsDigits tail := fun c hc => (htail.head? c hc).1
        have hpoint : EndsDigits ('.' :: (fraction ++ tail)) := by
          rintro c ⟨rfl⟩
          rfl
        have hunsigned : Unsigned (whole ++ '.' :: (fraction ++ tail)) := by
          refine hwhole.unsigned_append fun _ => ?_
          rintro c ⟨rfl⟩
          decide
        have hempty : (whole.isEmpty && fraction.isEmpty) = false := by
          rw [← Bool.not_eq_true, Bool.and_eq_true, List.isEmpty_iff, List.isEmpty_iff]
          rintro ⟨rfl, rfl⟩
          exact hne rfl
        rw [List.append_assoc, List.cons_append]
        simp only [Numeral.read?, hsign.dropSign_append hunsigned, hwhole.takeWhile_append hpoint,
          hwhole.dropWhile_append hpoint, hfraction.takeWhile_append hends,
          hfraction.dropWhile_append hends, hempty]
        rfl

theorem IsMantissa.nonneg {mantissa : List Char} {number : ℚ} (h : IsMantissa mantissa number) :
    0 ≤ number := by
  obtain ⟨digits, places, rfl, -⟩ := h.exists_read?
  positivity

/-- A numeral is read to the number that it writes. -/
theorem Numeral.read?_of_isNumeral {cs : List Char} {exponent : Int} {value : ℚ}
    (h : IsNumeral cs exponent value) (hsmall : exponent.natAbs < 0x10000) :
    ∃ n, read? cs = some n ∧ n.value = |value| := by
  cases h with
  | @mk sign mantissa tail factor _ number hsign hmantissa htail =>
      obtain ⟨digits, places, hnumber, hread⟩ := hmantissa.exists_read?
      refine ⟨⟨numberOf digits, exponent - places⟩, ?_, ?_⟩
      · rw [hread hsign htail, htail.exponent?_eq hsmall]
        rfl
      · have hfactor : |(factor : ℚ)| = 1 := by
          rw [← Int.cast_abs, Int.abs_eq_natAbs, hsign.natAbs_eq]
          rfl
        have hpower : (0 : ℚ) ≤ 10 ^ exponent := by positivity
        rw [abs_mul, abs_mul, hfactor, one_mul, abs_of_nonneg hmantissa.nonneg,
          abs_of_nonneg hpower, hnumber]
        show (numberOf digits : ℚ) * 10 ^ (exponent - places : ℤ) = _
        rw [numberOf_eq_digitsValue, zpow_sub₀ (by norm_num), zpow_natCast]
        ring

/-- Whatever is read is a numeral. -/
theorem Numeral.isNumeral_of_read? {cs : List Char} {n : Numeral} (h : read? cs = some n) :
    ∃ exponent value, IsNumeral cs exponent value := by
  obtain ⟨sign, factor, hcs, hsign, -⟩ := exists_isSign_of_dropSign cs
  generalize hunsigned : (dropSign cs).2 = unsigned at hcs
  have hall : ∀ ds : List Char, AllDigits (ds.takeWhile Char.isDigit) :=
    fun ds c hc => List.mem_takeWhile_imp hc
  have hsplit : ∀ ds : List Char, ds.takeWhile Char.isDigit ++ ds.dropWhile Char.isDigit = ds :=
    fun ds => List.takeWhile_append_dropWhile
  unfold read? at h
  simp only [hunsigned] at h
  split at h
  · rename_i behind hpoint
    split at h
    · cases h
    · rename_i hempty
      obtain ⟨e, hread, -⟩ := Option.map_eq_some_iff.mp h
      obtain ⟨exponent, htail⟩ := exists_isExponent_of_exponent? hread
      have hne : unsigned.takeWhile Char.isDigit ++ behind.takeWhile Char.isDigit ≠ [] := by
        simpa [List.append_eq_nil_iff] using hempty
      have hmantissa := IsMantissa.decimal (hall unsigned) (hall behind) hne
      have htext : unsigned = (unsigned.takeWhile Char.isDigit ++
          '.' :: behind.takeWhile Char.isDigit) ++ behind.dropWhile Char.isDigit := by
        rw [List.append_assoc, List.cons_append, hsplit behind, ← hpoint, hsplit unsigned]
      rw [hcs, htext]
      exact ⟨exponent, _, .mk hsign hmantissa htail⟩
  · split at h
    · cases h
    · rename_i hempty
      obtain ⟨e, hread, -⟩ := Option.map_eq_some_iff.mp h
      obtain ⟨exponent, htail⟩ := exists_isExponent_of_exponent? hread
      have hne : unsigned.takeWhile Char.isDigit ≠ [] := by
        simpa using hempty
      have hmantissa := IsMantissa.integer ⟨hne, hall unsigned⟩
      rw [hcs, ← hsplit unsigned]
      exact ⟨exponent, _, .mk hsign hmantissa htail⟩

/-- Nothing is read but numerals, and every numeral is. -/
theorem Numeral.isSome_read?_iff {cs : List Char} :
    (read? cs).isSome = true ↔ ∃ exponent value, IsNumeral cs exponent value := by
  constructor
  · intro h
    obtain ⟨n, hread⟩ := Option.isSome_iff_exists.mp h
    exact isNumeral_of_read? hread
  · rintro ⟨exponent, value, ⟨hsign, hmantissa, htail⟩⟩
    obtain ⟨digits, places, -, hread⟩ := hmantissa.exists_read?
    rw [hread hsign htail, Option.isSome_map]
    exact htail.isSome_exponent?

end Listfile
