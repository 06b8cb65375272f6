import Mathlib
import Listfile.Proofs.Numerals

/-!
# The truth of constants

Numerals and a few words are true or false by themselves, whatever the case of
their letters. A numeral is as true as the double-precision number nearest to it,
and that is zero for numerals that are tiny but not zero.

* `RoundsTo.eq_zero_iff` — the numbers that round to zero are those up to half
  of the smallest positive double;
* `Numeral.roundsToZero_iff` — the reader decides this bound exactly;
* `constant?_upper` — the case of letters does not matter, in words or exponents;
* `constant?_decides` — which texts are constants, and what they say.
-/

namespace Listfile

open Text

/-! ## Rounding to double precision -/

/-- The finite double-precision numbers: a significand of at most 53 bits times
a power of two. -/
def IsDouble (significand : ℤ) (x : ℚ) : Prop :=
  |significand| < 2 ^ 53 ∧ ∃ e : ℤ, -1074 ≤ e ∧ e ≤ 971 ∧ x = significand * 2 ^ e

/-- A double nearest to a number. Of two that are equally near it is the one that
has an even significand. Numbers beyond the largest double round to that one here
and not to an infinite one; neither is zero. -/
structure RoundsTo (q x : ℚ) : Prop where
  double : ∃ m, IsDouble m x
  nearest : ∀ m y, IsDouble m y → |q - x| ≤ |q - y|
  tie : ∀ m y, IsDouble m y → y ≠ x → |q - y| = |q - x| → ∃ m, Even m ∧ IsDouble m x

/-- The smallest positive double. -/
def leastDouble : ℚ :=
  2 ^ (-1074 : ℤ)

theorem leastDouble_pos : 0 < leastDouble := by
  unfold leastDouble
  positivity

theorem two_mul_half_leastDouble : 2 * 2 ^ (-1075 : ℤ) = leastDouble := by
  unfold leastDouble
  rw [← zpow_one_add₀ (by norm_num)]
  norm_num only

theorem isDouble_zero : IsDouble 0 0 :=
  ⟨by norm_num, 0, by norm_num, by norm_num, by simp⟩

theorem isDouble_leastDouble : IsDouble 1 leastDouble :=
  ⟨by norm_num, -1074, by norm_num, by norm_num, by simp [leastDouble]⟩

theorem isDouble_neg_leastDouble : IsDouble (-1) (-leastDouble) :=
  ⟨by norm_num, -1074, by norm_num, by norm_num, by simp [leastDouble]⟩

/-- A double is at least as far from zero as its significand says. -/
theorem IsDouble.le_abs {m : ℤ} {x : ℚ} (h : IsDouble m x) : |(m : ℚ)| * leastDouble ≤ |x| := by
  obtain ⟨-, e, he, -, rfl⟩ := h
  have hpower : leastDouble ≤ 2 ^ e := zpow_le_zpow_right₀ (by norm_num) he
  have hpos : (0 : ℚ) < 2 ^ e := by positivity
  rw [abs_mul, abs_of_pos hpos]
  exact mul_le_mul_of_nonneg_left hpower (abs_nonneg _)

theorem IsDouble.significand_ne_zero {m : ℤ} {x : ℚ} (h : IsDouble m x) (hx : x ≠ 0) : m ≠ 0 := by
  rintro rfl
  obtain ⟨-, e, -, -, rfl⟩ := h
  simp at hx

theorem one_le_abs_cast {m : ℤ} (h : m ≠ 0) : (1 : ℚ) ≤ |(m : ℚ)| := by
  have habs : 1 ≤ |m| := Int.one_le_abs h
  exact_mod_cast habs

theorem two_le_abs_cast {m : ℤ} (h : m ≠ 0) (heven : Even m) : (2 : ℚ) ≤ |(m : ℚ)| := by
  obtain ⟨k, rfl⟩ := heven
  have hk : k ≠ 0 := by
    rintro rfl
    exact h rfl
  have habs := one_le_abs_cast hk
  rw [Int.cast_add, ← two_mul, abs_mul, abs_of_pos (by norm_num)]
  linarith

/-- Exactly the numbers up to half of the smallest double round to zero; the
number in the middle does because zero is even. -/
theorem RoundsTo.eq_zero_iff {q x : ℚ} (h : RoundsTo q x) : x = 0 ↔ |q| ≤ 2 ^ (-1075 : ℤ) := by
  have hpos := leastDouble_pos
  have hhalf := two_mul_half_leastDouble
  constructor
  · rintro rfl
    by_contra hlarge
    rw [not_le] at hlarge
    -- The smallest double of the same sign is nearer than zero.
    rcases le_total 0 q with hq | hq
    · have hnear : |q - leastDouble| < q := by
        rw [abs_of_nonneg hq] at hlarge
        rw [abs_lt]
        constructor <;> linarith
      have hle := h.nearest _ _ isDouble_leastDouble
      rw [sub_zero, abs_of_nonneg hq] at hle
      linarith
    · have hnear : |q - -leastDouble| < -q := by
        rw [abs_of_nonpos hq] at hlarge
        rw [abs_lt]
        constructor <;> linarith
      have hle := h.nearest _ _ isDouble_neg_leastDouble
      rw [sub_zero, abs_of_nonpos hq] at hle
      linarith
  · intro hsmall
    by_contra hx
    obtain ⟨m, hm⟩ := h.double
    have hzero := h.nearest _ _ isDouble_zero
    have htriangle : |x| - |q| ≤ |q - x| := by
      rw [abs_sub_comm]
      exact abs_sub_abs_le_abs_sub x q
    have hfar : leastDouble ≤ |x| := by
      have habs := one_le_abs_cast (hm.significand_ne_zero hx)
      have hle := hm.le_abs
      nlinarith
    -- Zero is as near as the double is, so the double is an even one.
    rw [sub_zero] at hzero
    have htie : |q - 0| = |q - x| := by
      rw [sub_zero]
      linarith
    obtain ⟨k, hk, hdouble⟩ := h.tie _ _ isDouble_zero (Ne.symm hx) htie
    have habs := two_le_abs_cast (hdouble.significand_ne_zero hx) hk
    have hle := hdouble.le_abs
    nlinarith

/-- Zero is a nearest double of all these numbers. -/
theorem roundsTo_zero_iff {q : ℚ} : RoundsTo q 0 ↔ |q| ≤ 2 ^ (-1075 : ℤ) := by
  constructor
  · intro h
    exact h.eq_zero_iff.mp rfl
  · intro hsmall
    have hhalf := two_mul_half_leastDouble
    refine ⟨⟨0, isDouble_zero⟩, ?_, fun _ _ _ _ _ => ⟨0, .zero, isDouble_zero⟩⟩
    intro m y hy
    rw [sub_zero]
    by_cases hzero : y = 0
    · rw [hzero, sub_zero]
    · have hone := one_le_abs_cast (hy.significand_ne_zero hzero)
      have hfar : leastDouble ≤ |y| :=
        (le_mul_of_one_le_left leastDouble_pos.le hone).trans hy.le_abs
      have htriangle : |y| - |q| ≤ |q - y| := by
        rw [abs_sub_comm]
        exact abs_sub_abs_le_abs_sub y q
      linarith

/-! ## Numerals -/

/-- A bound on a decimal fraction as one on whole numbers. -/
theorem div_ten_pow_le_iff (m b k : ℕ) :
    (m : ℚ) * (10 ^ k)⁻¹ ≤ (2 ^ b)⁻¹ ↔ decide (m * Nat.pow 2 b ≤ Nat.pow 10 k) = true := by
  have hten : (0 : ℚ) < 10 ^ k := by positivity
  have htwo : (0 : ℚ) < 2 ^ b := by positivity
  rw [← div_eq_mul_inv, ← one_div, div_le_div_iff₀ hten htwo, one_mul, decide_eq_true_eq,
    Nat.pow_eq, Nat.pow_eq]
  exact_mod_cast Iff.rfl

/-- A whole number that is not zero is above every such bound. -/
theorem mul_ten_pow_le_iff (m k : ℕ) {b : ℕ} (hb : b ≠ 0) :
    (m : ℚ) * 10 ^ k ≤ (2 ^ b)⁻¹ ↔ m = 0 := by
  constructor
  · intro hsmall
    by_contra hm
    have hone : (1 : ℚ) ≤ m := by
      exact_mod_cast Nat.one_le_iff_ne_zero.mpr hm
    have hpower : (1 : ℚ) ≤ 10 ^ k := one_le_pow₀ (by norm_num)
    have hbound : ((2 : ℚ) ^ b)⁻¹ < 1 := inv_lt_one_of_one_lt₀ (one_lt_pow₀ (by norm_num) hb)
    nlinarith
  · rintro rfl
    simp

/-- The bound on the digits and the exponent is the bound on the number. -/
theorem Numeral.roundsToZero_iff (n : Numeral) :
    n.roundsToZero = true ↔ n.value ≤ 2 ^ (-1075 : ℤ) := by
  obtain ⟨mantissa, exponent⟩ := n
  have hhalf : (2 : ℚ) ^ (-1075 : ℤ) = (2 ^ 1075)⁻¹ := rfl
  rw [hhalf]
  unfold roundsToZero value
  cases exponent with
  | ofNat k =>
      simp only [Int.ofNat_eq_natCast, zpow_natCast, beq_iff_eq]
      rw [mul_ten_pow_le_iff mantissa k (by decide)]
  | negSucc k =>
      dsimp only
      generalize 1075 = b
      rw [zpow_negSucc, div_ten_pow_le_iff]

/-- A numeral is false exactly if its value rounds to zero. -/
theorem constant?_of_isNumeral {v : String} {exponent : ℤ} {value : ℚ}
    (h : IsNumeral v.toList exponent value) (hsmall : exponent.natAbs < 0x10000) :
    constant? v = some (decide (2 ^ (-1075 : ℤ) < |value|)) := by
  obtain ⟨n, hread, hvalue⟩ := Numeral.read?_of_isNumeral h hsmall
  have hzero : (!n.roundsToZero) = decide (2 ^ (-1075 : ℤ) < |value|) := by
    rw [Bool.eq_iff_iff, Bool.not_eq_true', ← Bool.not_eq_true, Numeral.roundsToZero_iff, hvalue,
      decide_eq_true_eq, not_le]
  unfold constant?
  rw [hread, ← hzero]

/-! ## The case of letters -/

theorem not_isAlpha_of_isDigit {c : Char} (h : c.isDigit = true) : c.isAlpha = false := by
  grind [Char.isDigit, Char.isAlpha, Char.isUpper, Char.isLower]

theorem eq_toUpper_or_eq_toLower (c : Char) : c = c.toUpper ∨ c = c.toLower := by
  by_cases hlower : c.isLower = true
  · exact .inr (Char.toLower_eq_of_not_isUpper (Char.not_isUpper_of_isLower hlower)).symm
  · exact .inl (Char.toUpper_eq_of_not_isLower hlower).symm

/-- What is no letter is its own capital, and that of nothing else. -/
theorem toUpper_eq_iff {c d : Char} (hd : d.isAlpha = false) : c.toUpper = d ↔ c = d := by
  have hself : d.toUpper = d := by
    rw [Char.isAlpha, Bool.or_eq_false_iff] at hd
    exact Char.toUpper_eq_of_not_isLower (by simp [hd.2])
  have hlower : d.toLower = d := by
    rw [Char.isAlpha, Bool.or_eq_false_iff] at hd
    exact Char.toLower_eq_of_not_isUpper (by simp [hd.1])
  constructor
  · intro h
    rcases eq_toUpper_or_eq_toLower c with hc | hc
    · rw [hc, h]
    · rw [hc, ← Char.toLower_toUpper_eq_toLower, h, hlower]
  · rintro rfl
    exact hself

theorem isDigit_toUpper (c : Char) : c.toUpper.isDigit = c.isDigit := by
  rw [Bool.eq_iff_iff]
  constructor
  · intro h
    rwa [← (toUpper_eq_iff (not_isAlpha_of_isDigit h)).mp rfl] at h
  · intro h
    rwa [(toUpper_eq_iff (not_isAlpha_of_isDigit h)).mpr rfl]

theorem isDigit_comp_toUpper : Char.isDigit ∘ Char.toUpper = Char.isDigit :=
  funext isDigit_toUpper

theorem isExponentMark_toUpper (c : Char) :
    (c.toUpper == 'e' || c.toUpper == 'E') = (c == 'e' || c == 'E') := by
  rw [Bool.eq_iff_iff]
  simp only [Bool.or_eq_true, beq_iff_eq]
  constructor
  · rintro (h | h)
    · have hlower := Char.isLower_toUpper_eq_false c
      rw [h] at hlower
      cases hlower
    · rcases eq_toUpper_or_eq_toLower c with hc | hc
      · exact .inr (hc.trans h)
      · rw [← Char.toLower_toUpper_eq_toLower, h] at hc
        exact .inl hc
  · rintro (rfl | rfl) <;> exact .inr rfl

theorem AllDigits.map_toUpper {ds : List Char} (h : AllDigits ds) :
    ds.map Char.toUpper = ds := by
  have hself : ∀ c ∈ ds, c.toUpper = id c := fun c hc =>
    (toUpper_eq_iff (not_isAlpha_of_isDigit (h c hc))).mpr rfl
  rw [List.map_congr_left hself, List.map_id]

theorem takeWhile_map_toUpper (cs : List Char) :
    (cs.map Char.toUpper).takeWhile Char.isDigit = cs.takeWhile Char.isDigit := by
  have hdigits : AllDigits (cs.takeWhile Char.isDigit) := fun c hc => List.mem_takeWhile_imp hc
  rw [List.takeWhile_map, isDigit_comp_toUpper, hdigits.map_toUpper]

theorem dropWhile_map_toUpper (cs : List Char) :
    (cs.map Char.toUpper).dropWhile Char.isDigit =
      (cs.dropWhile Char.isDigit).map Char.toUpper := by
  rw [List.dropWhile_map, isDigit_comp_toUpper]

theorem dropSign_map_toUpper (cs : List Char) :
    dropSign (cs.map Char.toUpper) = ((dropSign cs).1, (dropSign cs).2.map Char.toUpper) := by
  cases cs with
  | nil => rfl
  | cons c cs =>
      by_cases hminus : c = '-'
      · subst hminus
        rfl
      by_cases hplus : c = '+'
      · subst hplus
        rfl
      have hunsigned : Unsigned (c :: cs) := by
        rintro d ⟨rfl⟩
        exact ⟨hplus, hminus⟩
      have hupper : Unsigned ((c :: cs).map Char.toUpper) := by
        rintro d ⟨rfl⟩
        exact ⟨mt (toUpper_eq_iff rfl).mp hplus, mt (toUpper_eq_iff rfl).mp hminus⟩
      rw [dropSign_of_unsigned hunsigned, dropSign_of_unsigned hupper]

theorem exponent?_map_toUpper (cs : List Char) :
    exponent? (cs.map Char.toUpper) = exponent? cs := by
  cases cs with
  | nil => rfl
  | cons c cs =>
      simp only [List.map_cons, exponent?, dropSign_map_toUpper, isExponentMark_toUpper,
        List.isEmpty_map, List.all_map, isDigit_comp_toUpper]
      by_cases hdigits : (dropSign cs).2.all Char.isDigit = true
      · have hall : AllDigits (dropSign cs).2 := List.all_eq_true.mp hdigits
        rw [hall.map_toUpper]
      · simp [hdigits]

/-- The case of the letter in front of the exponent does not matter. -/
theorem Numeral.read?_map_toUpper (cs : List Char) :
    read? (cs.map Char.toUpper) = read? cs := by
  simp only [read?, dropSign_map_toUpper, takeWhile_map_toUpper, dropWhile_map_toUpper]
  generalize (dropSign cs).2.takeWhile Char.isDigit = whole
  generalize (dropSign cs).2.dropWhile Char.isDigit = after
  cases after with
  | nil => rfl
  | cons c after =>
      by_cases hpoint : c = '.'
      · subst hpoint
        have hupper : ('.' :: after).map Char.toUpper = '.' :: after.map Char.toUpper := rfl
        rw [hupper]
        simp only [takeWhile_map_toUpper, dropWhile_map_toUpper, exponent?_map_toUpper]
      · have hupper : c.toUpper ≠ '.' := mt (toUpper_eq_iff rfl).mp hpoint
        have hlast : exponent? (c.toUpper :: after.map Char.toUpper) = exponent? (c :: after) :=
          exponent?_map_toUpper (c :: after)
        simp [hpoint, hupper, hlast]

theorem sameWord_iff_upper_eq {v w : String} : sameWord v w = true ↔ upper v = upper w := by
  have hupper : ∀ s, upper (lower s) = upper s := by
    intro s
    simp [upper, lower, Function.comp_def]
  have hlower : ∀ s, lower (upper s) = lower s := by
    intro s
    simp [upper, lower, Function.comp_def]
  rw [sameWord, beq_iff_eq]
  constructor
  · intro h
    rw [← hupper v, h, hupper w]
  · intro h
    rw [← hlower v, h, hlower w]

/-- Texts that differ only in the case of letters are the same constant. -/
theorem constant?_upper (v : String) : constant? (upper v) = constant? v := by
  have hread : Numeral.read? (upper v).toList = Numeral.read? v.toList := by
    rw [upper, String.toList_ofList, Numeral.read?_map_toUpper]
  have hword : upper (upper v) = upper v := by
    simp [upper, Function.comp_def]
  unfold constant?
  rw [hread, hword]

/-! ## Words -/

/-- The words that are true. -/
def IsTrueWord (v : String) : Prop :=
  ∃ w ∈ ["ON", "YES", "TRUE", "Y"], sameWord v w = true

/-- The words that are false: the empty text, some words, and everything that
ends like a variable for which nothing was found. -/
def IsFalseWord (v : String) : Prop :=
  (∃ w ∈ ["", "OFF", "NO", "FALSE", "N", "IGNORE", "NOTFOUND"], sameWord v w = true) ∨
    ∃ front back, v = front ++ back ∧ sameWord back "-NOTFOUND" = true

theorem contains_upper_iff {words : List String} (h : ∀ w ∈ words, upper w = w) (v : String) :
    words.contains (upper v) = true ↔ ∃ w ∈ words, sameWord v w = true := by
  rw [List.contains_iff_mem]
  constructor
  · intro hmem
    refine ⟨upper v, hmem, ?_⟩
    rw [sameWord_iff_upper_eq, h _ hmem]
  · rintro ⟨w, hw, hsame⟩
    rw [sameWord_iff_upper_eq, h w hw] at hsame
    rwa [hsame]

theorem isSuffixOf_upper_iff {word : String} (h : upper word = word) (v : String) :
    word.toList.isSuffixOf (upper v).toList = true ↔
      ∃ front back, v = front ++ back ∧ sameWord back word = true := by
  rw [List.isSuffixOf_iff_suffix, upper, String.toList_ofList]
  constructor
  · rintro ⟨front, hfront⟩
    obtain ⟨cs, ds, hsplit, -, hds⟩ := List.map_eq_append_iff.mp hfront.symm
    refine ⟨String.ofList cs, String.ofList ds, ?_, ?_⟩
    · rw [← String.ofList_append, ← hsplit, String.ofList_toList]
    · rw [sameWord_iff_upper_eq, h, upper, String.toList_ofList, hds, String.ofList_toList]
  · rintro ⟨front, back, rfl, hsame⟩
    rw [sameWord_iff_upper_eq, h] at hsame
    have hback : back.toList.map Char.toUpper = word.toList := by
      rw [← hsame, upper, String.toList_ofList]
    rw [String.toList_append, List.map_append, hback]
    exact List.suffix_append _ _

/-- No true word is false, and none has the ending of the false ones. -/
theorem trueWords_not_false :
    ∀ w ∈ ["ON", "YES", "TRUE", "Y"],
      ["", "OFF", "NO", "FALSE", "N", "IGNORE", "NOTFOUND"].contains w = false ∧
        "-NOTFOUND".toList.isSuffixOf w.toList = false := by
  decide

/-- A text that is no numeral is a constant only if it is one of the words. -/
theorem constant?_of_not_isNumeral {v : String}
    (h : ∀ exponent value, ¬ IsNumeral v.toList exponent value) :
    (constant? v = some true ↔ IsTrueWord v) ∧
      (constant? v = some false ↔ IsFalseWord v) ∧
      (constant? v = none ↔ ¬ IsTrueWord v ∧ ¬ IsFalseWord v) := by
  have hread : Numeral.read? v.toList = none := by
    rw [← Option.not_isSome_iff_eq_none, Numeral.isSome_read?_iff]
    rintro ⟨exponent, value, hnumeral⟩
    exact h exponent value hnumeral
  unfold IsTrueWord IsFalseWord constant?
  rw [hread, ← contains_upper_iff (by decide), ← contains_upper_iff (by decide),
    ← isSuffixOf_upper_iff (by decide)]
  dsimp only
  have hexclusive : ["ON", "YES", "TRUE", "Y"].contains (upper v) = true → _ :=
    fun h => trueWords_not_false (upper v) (List.contains_iff_mem.mp h)
  generalize ["ON", "YES", "TRUE", "Y"].contains (upper v) = isTrue at hexclusive ⊢
  generalize ["", "OFF", "NO", "FALSE", "N", "IGNORE", "NOTFOUND"].contains (upper v) = isFalse
    at hexclusive ⊢
  generalize "-NOTFOUND".toList.isSuffixOf (upper v).toList = endsFalse at hexclusive ⊢
  cases isTrue with
  | true =>
      obtain ⟨rfl, rfl⟩ := hexclusive rfl
      simp
  | false => cases isFalse <;> cases endsFalse <;> simp

/-! ## Constants -/

/-- **Which texts are constants, and what they say.** The case of letters does
not matter. A numeral is false exactly if its exact value is at most half of the
smallest positive double, which is to say that the nearest double is zero; this
holds for numerals of any length, up to the exponent at which the reader stops
counting. Other texts are constants only if they are one of the words. -/
theorem constant?_decides (v : String) :
    (∀ w, sameWord v w = true → constant? w = constant? v) ∧
      (∀ exponent value, IsNumeral v.toList exponent value → exponent.natAbs < 65536 →
        (constant? v = some false ↔ |value| ≤ 2 ^ (-1075 : ℤ)) ∧
          (constant? v = some true ↔ 2 ^ (-1075 : ℤ) < |value|) ∧
          (constant? v = some false ↔ RoundsTo value 0) ∧
          ∀ x, RoundsTo value x → constant? v = some (decide (x ≠ 0))) ∧
      ((∀ exponent value, ¬ IsNumeral v.toList exponent value) →
        (constant? v = some true ↔ IsTrueWord v) ∧
          (constant? v = some false ↔ IsFalseWord v) ∧
          (constant? v = none ↔ ¬ IsTrueWord v ∧ ¬ IsFalseWord v)) := by
  refine ⟨?_, ?_, constant?_of_not_isNumeral⟩
  · intro w hsame
    rw [sameWord_iff_upper_eq] at hsame
    rw [← constant?_upper w, ← hsame, constant?_upper]
  · intro exponent value hnumeral hsmall
    have hconstant := constant?_of_isNumeral hnumeral hsmall
    refine ⟨?_, ?_, ?_, ?_⟩
    · rw [hconstant, Option.some.injEq, decide_eq_false_iff_not, not_lt]
    · rw [hconstant, Option.some.injEq, decide_eq_true_eq]
    · rw [hconstant, Option.some.injEq, decide_eq_false_iff_not, not_lt, roundsTo_zero_iff]
    · intro x hx
      rw [hconstant, Option.some.injEq, decide_eq_decide, ne_eq, hx.eq_zero_iff, not_le]

/-- Two numerals on both sides of half of the smallest double, a word with the
ending of the false ones, and a word that other readers take for a number. -/
theorem constant?_decides_beside_half :
    let below := "2.4703282292062327e-324"
    let above := "2.4703282292062328E-324"
    constant? (lower above) = constant? above ∧
      (∃ value, IsNumeral below.toList (-324) value ∧ |value| ≤ 2 ^ (-1075 : ℤ)) ∧
      (∃ value, IsNumeral above.toList (-324) value ∧ 2 ^ (-1075 : ℤ) < |value|) ∧
      IsFalseWord "zlib-NotFound" ∧ ¬ IsTrueWord "inf" ∧ ¬ IsFalseWord "inf" := by
  intro below above
  have hform : ∀ (v : String) (mark : Char) (fraction : List Char), AllDigits fraction →
      mark = 'e' ∨ mark = 'E' → v.toList = '2' :: '.' :: (fraction ++ mark :: "-324".toList) →
      ∃ value, IsNumeral v.toList (-324) value := by
    intro v mark fraction hfraction hmark hv
    have hmantissa := IsMantissa.decimal (by decide : AllDigits ['2']) hfraction (by simp)
    have hexponent : IsExponent (mark :: "-324".toList) (-324) :=
      .power hmark .minus (⟨by decide, by decide⟩ : IsDigits ['3', '2', '4'])
    rw [hv]
    exact ⟨_, .mk .missing hmantissa hexponent⟩
  obtain ⟨_, hsmall⟩ := hform below 'e' "4703282292062327".toList (by decide) (by simp) (by decide)
  obtain ⟨_, hlarge⟩ := hform above 'E' "4703282292062328".toList (by decide) (by simp) (by decide)
  have hnumeral : ∀ v ∈ ["zlib-NotFound", "inf"], ∀ exponent value,
      ¬ IsNumeral v.toList exponent value := by
    intro v hv exponent value h
    have hnone : ∀ v ∈ ["zlib-NotFound", "inf"], Numeral.read? v.toList = none := by
      decide
    have hread := Numeral.isSome_read?_iff.mpr ⟨exponent, value, h⟩
    rw [hnone v hv] at hread
    cases hread
  obtain ⟨hfalse, -, -⟩ := (constant?_decides below).2.1 _ _ hsmall (by decide)
  obtain ⟨-, htrue, -⟩ := (constant?_decides above).2.1 _ _ hlarge (by decide)
  obtain ⟨-, hword, -⟩ := (constant?_decides "zlib-NotFound").2.2 (hnumeral _ (by simp))
  obtain ⟨-, -, hnone⟩ := (constant?_decides "inf").2.2 (hnumeral _ (by simp))
  refine ⟨(constant?_decides above).1 (lower above) (by decide), ⟨_, hsmall, ?_⟩,
    ⟨_, hlarge, ?_⟩, hword.mp (by decide), hnone.mp (by decide)⟩
  · exact hfalse.mp (by decide +kernel)
  · exact htrue.mp (by decide +kernel)

end Listfile
