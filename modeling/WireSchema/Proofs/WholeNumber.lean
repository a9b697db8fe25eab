import WireSchema.Schema.DecoratorRule
import Mathlib.Data.Rat.Cast.CharZero
import Mathlib.Tactic.Positivity

/-! # Which numbers are whole

A finite double-precision number has a rational value (`Binary64.value?`). A decorator takes a
number for a whole one by its digits and its exponent; this is right, up to 2 ^ 64 for an argument
that may be any positive number (`isPositive_iff`), and up to 255 for one that must fit in a byte
(`isByte_iff`). -/

namespace WireSchema

namespace Binary64

/-- The value of a finite number. -/
def value? (x : Binary64) : Option ℚ :=
  if x.isFinite then
    some ((if x.isNegative then -1 else 1) * (x.significand * 2 ^ x.scale / 2 ^ 1074))
  else none

theorem significand_eq_zero_iff (x : Binary64) : x.significand = 0 ↔ x.magnitude = 0 := by
  rw [significand, scale, Nat.pow_eq]
  omega

theorem shift_eq_natCast_iff {digits scale k n : Nat} :
    (digits * 2 ^ scale / 2 ^ k : ℚ) = n ↔ digits * 2 ^ scale = n * 2 ^ k := by
  rw [div_eq_iff (by positivity)]
  exact_mod_cast Iff.rfl

/-- With a great exponent all digits stand before the point. -/
theorem shift_eq_iff_of_le {digits scale n : Nat} (h : 1074 ≤ scale) :
    digits * 2 ^ scale = n * 2 ^ 1074 ↔ digits * 2 ^ (scale - 1074) = n := by
  have hsplit : 2 ^ scale = 2 ^ (scale - 1074) * 2 ^ 1074 := by rw [← pow_add, Nat.sub_add_cancel h]
  rw [hsplit, ← mul_assoc, Nat.mul_left_inj (by positivity)]

/-- With a small exponent the digits behind the point must be 0. -/
theorem shift_eq_iff_of_lt {digits scale n : Nat} (h : scale < 1074) :
    digits * 2 ^ scale = n * 2 ^ 1074 ↔ digits = n * 2 ^ (1074 - scale) := by
  have hsplit : 2 ^ 1074 = 2 ^ (1074 - scale) * 2 ^ scale := by
    rw [← pow_add, Nat.sub_add_cancel h.le]
  rw [hsplit, ← mul_assoc, Nat.mul_left_inj (by positivity)]

/-- **A number is taken for a whole number exactly if its value is that number.** -/
theorem toWhole?_eq_some_iff {x : Binary64} {n : Nat} :
    x.toWhole? = some n ↔ x.value? = some (n : ℚ) := by
  have hzero := x.significand_eq_zero_iff
  rw [toWhole?, value?]
  by_cases hfinite : x.isFinite = true
  swap
  · rw [if_pos (by simpa using hfinite), if_neg hfinite]
    simp
  rw [if_neg (by simpa using hfinite), if_pos hfinite, Option.some.injEq]
  by_cases hmag : x.magnitude = 0
  · rw [if_pos hmag, hzero.2 hmag, Nat.cast_zero, zero_mul, zero_div, mul_zero, Option.some.injEq]
    exact_mod_cast Iff.rfl
  rw [if_neg hmag]
  by_cases hneg : x.isNegative = true
  · have hpos : 0 < x.significand := Nat.pos_of_ne_zero (mt hzero.1 hmag)
    have hlt : (-1 : ℚ) * (x.significand * 2 ^ x.scale / 2 ^ 1074) < 0 := by
      rw [neg_one_mul, neg_lt_zero]
      positivity
    rw [if_pos hneg, if_pos hneg]
    exact ⟨fun h => (by cases h), fun h => absurd h (hlt.trans_le (Nat.cast_nonneg n)).ne⟩
  rw [if_neg hneg, if_neg hneg, one_mul, shift_eq_natCast_iff]
  by_cases hscale : 1074 ≤ x.scale
  · rw [if_pos hscale, shift_eq_iff_of_le hscale, Option.some.injEq, Nat.pow_eq]
  · have hpos : 0 < 2 ^ (1074 - x.scale) := by positivity
    rw [if_neg hscale, shift_eq_iff_of_lt (Nat.lt_of_not_le hscale), Nat.pow_eq]
    split_ifs with hdvd
    · rw [Option.some.injEq, Nat.div_eq_iff_eq_mul_left hpos (Nat.dvd_of_mod_eq_zero hdvd)]
    · exact ⟨fun h => (by cases h), fun h => absurd (h ▸ Nat.mul_mod_left _ _) hdvd⟩

end Binary64

/-! ### Arguments -/

namespace Argument

/-- The argument is a number whose value is `n`. -/
def IsWhole (arg : Argument) (n : Nat) : Prop := ∃ x, arg = .number x ∧ x.value? = some (n : ℚ)

/-- A whole number is read as it is up to 2 ^ 64, which counts as the number before it. -/
theorem integer?_eq_some_iff {arg : Argument} {m : Nat} :
    arg.integer? = some m ↔ ∃ n, arg.IsWhole n ∧ n ≤ 2 ^ 64 ∧ m = min n (2 ^ 64 - 1) := by
  cases arg with
  | number x =>
    simp only [integer?, Option.map_eq_some_iff, Option.filter_eq_some_iff, IsWhole,
      Binary64.toWhole?_eq_some_iff, Argument.number.injEq, Nat.pow_eq, decide_eq_true_eq]
    constructor
    · rintro ⟨n, ⟨hx, hn⟩, rfl⟩
      exact ⟨n, ⟨x, rfl, hx⟩, hn, rfl⟩
    · rintro ⟨n, ⟨_, rfl, hx⟩, hn, rfl⟩
      exact ⟨n, ⟨hx, hn⟩, rfl⟩
  | text s => simp [integer?, IsWhole]
  | flag b => simp [integer?, IsWhole]

theorem isByte_iff {arg : Argument} :
    KnownDecorator.isByte arg = true ↔ ∃ n, arg.IsWhole n ∧ n ≤ 255 := by
  have hbyte : KnownDecorator.isByte arg = true ↔ ∃ m, arg.integer? = some m ∧ m ≤ 255 := by
    unfold KnownDecorator.isByte
    cases arg.integer? <;> simp
  rw [hbyte]
  constructor
  · rintro ⟨m, hm, hle⟩
    obtain ⟨n, hn, -, rfl⟩ := integer?_eq_some_iff.1 hm
    exact ⟨n, hn, by omega⟩
  · rintro ⟨n, hn, hle⟩
    exact ⟨n, integer?_eq_some_iff.2 ⟨n, hn, by omega, by omega⟩, hle⟩

theorem isPositive_iff {arg : Argument} :
    KnownDecorator.isPositive arg = true ↔ ∃ n, arg.IsWhole n ∧ 1 ≤ n ∧ n ≤ 2 ^ 64 := by
  have hpositive : KnownDecorator.isPositive arg = true ↔ ∃ m, arg.integer? = some m ∧ 1 ≤ m := by
    unfold KnownDecorator.isPositive
    cases arg.integer? <;> simp
  rw [hpositive]
  constructor
  · rintro ⟨m, hm, hle⟩
    obtain ⟨n, hn, hmax, rfl⟩ := integer?_eq_some_iff.1 hm
    exact ⟨n, hn, by omega, hmax⟩
  · rintro ⟨n, hn, hle, hmax⟩
    exact ⟨_, integer?_eq_some_iff.2 ⟨n, hn, hmax, rfl⟩, by omega⟩

end Argument

end WireSchema
