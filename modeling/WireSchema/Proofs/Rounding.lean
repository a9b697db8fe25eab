import WireSchema.Proofs.Numeral
import WireSchema.Proofs.WholeNumber
import Mathlib.Tactic.FieldSimp
import Mathlib.Tactic.Linarith

/-! # The nearest double-precision number

A quotient of whole numbers becomes a double-precision number by one division that rounds, at the
scale where the result has 53 digits. From that scale on all numbers are multiples of one step, and
the numbers of smaller scales lie below all that can be meant, so the nearest multiple is the
nearest number (`isNearest_ratio`). A whole number up to 2 ^ 53 is met exactly (`exists_value_eq`),
and from 2 ^ (53 + k) on only the multiples of 2 ^ (k + 1) are (`dvd_of_value_eq`). -/

namespace WireSchema

namespace Binary64

/-! ### Values as multiples of the least number -/

section Units

variable (x : Binary64)

/-- The value of a finite number. -/
def value : ℚ := (if x.isNegative then -1 else 1) * (x.significand * 2 ^ x.scale / 2 ^ 1074)

/-- The value of a finite number as a multiple of the least positive one. -/
def units : ℤ :=
  if x.isNegative then -(x.significand * 2 ^ x.scale) else x.significand * 2 ^ x.scale

theorem value?_eq_some_iff {x : Binary64} {v : ℚ} :
    x.value? = some v ↔ x.isFinite = true ∧ x.value = v := by
  unfold value? value
  split_ifs <;> simp_all

theorem value_eq : x.value = x.units / 2 ^ 1074 := by
  unfold value units
  generalize (2 : ℚ) ^ 1074 = least
  split_ifs
  · push_cast
    ring
  · push_cast
    ring

theorem significand_lt : x.significand < 2 ^ 53 := by
  have hmod := Nat.mod_lt x.magnitude (show 0 < 2 ^ 52 by norm_num)
  have hdiv := Nat.div_add_mod x.magnitude (2 ^ 52)
  rw [significand, scale, Nat.pow_eq]
  norm_num at hmod hdiv ⊢
  omega

/-- From a scale on a number is a multiple of the step there. Before it is small. -/
theorem units_grid (s : Nat) : (2 ^ s : ℤ) ∣ x.units ∨ x.units < 2 ^ 52 * 2 ^ s := by
  by_cases hscale : s ≤ x.scale
  · have hdvd : (2 ^ s : ℤ) ∣ x.significand * 2 ^ x.scale := (pow_dvd_pow 2 hscale).mul_left _
    unfold units
    split_ifs
    · exact .inl (dvd_neg.2 hdvd)
    · exact .inl hdvd
  · right
    have hlt : x.significand * 2 ^ x.scale < 2 ^ 52 * 2 ^ s := by
      calc x.significand * 2 ^ x.scale < 2 ^ 53 * 2 ^ x.scale :=
            Nat.mul_lt_mul_of_pos_right x.significand_lt (by positivity)
        _ = 2 ^ 52 * 2 ^ (x.scale + 1) := by ring
        _ ≤ 2 ^ 52 * 2 ^ s := Nat.mul_le_mul_left _ (Nat.pow_le_pow_right (by norm_num) (by omega))
    have hlt : (x.significand * 2 ^ x.scale : ℤ) < 2 ^ 52 * 2 ^ s := by exact_mod_cast hlt
    have hnonneg : (0 : ℤ) ≤ x.significand * 2 ^ x.scale := by positivity
    unfold units
    split_ifs
    · linarith
    · exact hlt

end Units

/-! ### Division with rounding -/

section RoundDiv

variable {num den k : Nat}

theorem roundDiv_bounds (num den : Nat) :
    num / den ≤ roundDiv num den ∧ roundDiv num den ≤ num / den + 1 := by
  unfold roundDiv
  dsimp only
  split_ifs <;> omega

theorem roundDiv_mul (hk : 0 < k) : roundDiv (num * k) (den * k) = roundDiv num den := by
  have hlt : 2 * (num % den * k) > den * k ↔ 2 * (num % den) > den := by
    rw [← mul_assoc]
    exact Nat.mul_lt_mul_right hk
  have heq : 2 * (num % den * k) = den * k ↔ 2 * (num % den) = den := by
    rw [← mul_assoc]
    exact Nat.mul_left_inj hk.ne'
  unfold roundDiv
  simp only [Nat.mul_div_mul_right _ _ hk, Nat.mul_mod_mul_right, hlt, Bool.or_eq_true,
    Bool.and_eq_true, beq_iff_eq, decide_eq_true_eq, heq]

/-- The result is off by a half at most, and it is even if it is off by a half. -/
theorem roundDiv_half (num : Nat) (hden : 0 < den) :
    2 * |(roundDiv num den * den - num : ℤ)| ≤ den ∧
      (2 * |(roundDiv num den * den - num : ℤ)| = den → Even (roundDiv num den)) := by
  have hmod := Nat.mod_lt num hden
  have hdiv : (den : ℤ) * (num / den : ℕ) + (num % den : ℕ) = num := by
    exact_mod_cast Nat.div_add_mod num den
  unfold roundDiv
  dsimp only
  generalize num / den = q at hdiv ⊢
  generalize num % den = r at hdiv hmod ⊢
  simp only [Bool.or_eq_true, Bool.and_eq_true, beq_iff_eq, decide_eq_true_eq]
  split_ifs with hup
  · have hsub : ((q + 1 : ℕ) * den - num : ℤ) = den - r := by
      push_cast
      linarith
    rw [hsub, abs_of_nonneg (by omega), Nat.even_iff]
    omega
  · have hsub : (q * den - num : ℤ) = -r := by linarith
    rw [hsub, abs_neg, abs_of_nonneg (by omega), Nat.even_iff]
    omega

/-- Two multiples cannot both be nearer than a half. -/
theorem le_abs_add_abs {q q' d n : ℤ} (hd : 0 ≤ d) (hne : q' ≠ q) :
    d ≤ |q' * d - n| + |q * d - n| := by
  have hone : 1 ≤ |q' - q| := Int.one_le_abs (sub_ne_zero.2 hne)
  calc d ≤ |q' - q| * d := le_mul_of_one_le_left hd hone
    _ = |(q' - q) * d| := by rw [abs_mul, abs_of_nonneg hd]
    _ = |(q' * d - n) - (q * d - n)| := by congr 1; ring
    _ ≤ |q' * d - n| + |q * d - n| := abs_sub _ _

end RoundDiv

/-! ### The scale of a quotient -/

/-- At the scale `s` the quotient of `num` and `den` has 53 digits, or fewer at the least scale. -/
structure ScaleFits (num den s : Nat) : Prop where
  lt : num * 2 ^ 1074 < 2 ^ 53 * (den * 2 ^ s)
  le : s ≠ 0 → 2 ^ 52 * (den * 2 ^ s) ≤ num * 2 ^ 1074

section Scale

variable {num den : Nat}

/-- The quotient is at least `2 ^ (a - b)`. -/
theorem scaleFits_of_le {a b s : Nat} (hnum : num < 2 ^ (a + 1)) (hden : 2 ^ b ≤ den)
    (hquot : den * 2 ^ a ≤ num * 2 ^ b) (hs : s = a + 1022 - b) : ScaleFits num den s where
  lt := by
    calc num * 2 ^ 1074 < 2 ^ (a + 1) * 2 ^ 1074 := Nat.mul_lt_mul_of_pos_right hnum (by positivity)
      _ = 2 ^ (a + 1075) := by rw [← Nat.pow_add, show a + 1 + 1074 = a + 1075 by omega]
      _ ≤ 2 ^ (53 + (b + s)) := Nat.pow_le_pow_right (by norm_num) (by omega)
      _ = 2 ^ 53 * (2 ^ b * 2 ^ s) := by rw [Nat.pow_add, Nat.pow_add]
      _ ≤ 2 ^ 53 * (den * 2 ^ s) := Nat.mul_le_mul_left _ (Nat.mul_le_mul_right _ hden)
  le := by
    intro hpos
    refine Nat.le_of_mul_le_mul_right ?_ (show 0 < 2 ^ b by positivity)
    calc 2 ^ 52 * (den * 2 ^ s) * 2 ^ b = den * (2 ^ 52 * 2 ^ s * 2 ^ b) := by ac_rfl
      _ = den * (2 ^ a * 2 ^ 1074) := by
        rw [← Nat.pow_add, ← Nat.pow_add, ← Nat.pow_add]
        congr 2
        omega
      _ = den * 2 ^ a * 2 ^ 1074 := (Nat.mul_assoc _ _ _).symm
      _ ≤ num * 2 ^ b * 2 ^ 1074 := Nat.mul_le_mul_right _ hquot
      _ = num * 2 ^ 1074 * 2 ^ b := Nat.mul_right_comm _ _ _

/-- The quotient is below `2 ^ (a - b)`. -/
theorem scaleFits_of_lt {a b s : Nat} (hnum : 2 ^ a ≤ num) (hden : den < 2 ^ (b + 1))
    (hquot : num * 2 ^ b < den * 2 ^ a) (hs : s = a + 1021 - b) : ScaleFits num den s where
  lt := by
    refine Nat.lt_of_mul_lt_mul_right (a := 2 ^ b) ?_
    calc num * 2 ^ 1074 * 2 ^ b = num * 2 ^ b * 2 ^ 1074 := Nat.mul_right_comm _ _ _
      _ < den * 2 ^ a * 2 ^ 1074 := Nat.mul_lt_mul_of_pos_right hquot (by positivity)
      _ = den * 2 ^ (a + 1074) := by rw [Nat.mul_assoc, ← Nat.pow_add]
      _ ≤ den * 2 ^ (53 + (s + b)) :=
        Nat.mul_le_mul_left _ (Nat.pow_le_pow_right (by norm_num) (by omega))
      _ = den * (2 ^ 53 * (2 ^ s * 2 ^ b)) := by rw [Nat.pow_add, Nat.pow_add]
      _ = 2 ^ 53 * (den * 2 ^ s) * 2 ^ b := by ac_rfl
  le := by
    intro hpos
    calc 2 ^ 52 * (den * 2 ^ s) ≤ 2 ^ 52 * (2 ^ (b + 1) * 2 ^ s) :=
          Nat.mul_le_mul_left _ (Nat.mul_le_mul_right _ hden.le)
      _ = 2 ^ a * 2 ^ 1074 := by
        rw [← Nat.pow_add, ← Nat.pow_add, ← Nat.pow_add]
        congr 1
        omega
      _ ≤ num * 2 ^ 1074 := Nat.mul_le_mul_right _ hnum

theorem scaleFits_scaleFor (hnum : num ≠ 0) (hden : den ≠ 0) :
    ScaleFits num den (scaleFor num den) := by
  unfold scaleFor
  dsimp only
  split_ifs with hquot
  · exact scaleFits_of_le Nat.lt_log2_self (Nat.log2_self_le hden) hquot rfl
  · exact scaleFits_of_lt (Nat.log2_self_le hnum) Nat.lt_log2_self (Nat.lt_of_not_le hquot) rfl

/-- At every scale there is one division. -/
theorem magnitudeAt_eq (num den s : Nat) :
    magnitudeAt num den s = s * 2 ^ 52 + roundDiv (num * 2 ^ 1074) (den * 2 ^ s) := by
  unfold magnitudeAt
  simp only [Nat.pow_eq]
  split_ifs with hs
  · have hsplit : num * 2 ^ 1074 = num * 2 ^ (1074 - s) * 2 ^ s := by
      rw [Nat.mul_assoc, ← Nat.pow_add, Nat.sub_add_cancel hs]
    rw [hsplit, roundDiv_mul (by positivity)]
  · have hsplit : den * 2 ^ s = den * 2 ^ (s - 1074) * 2 ^ 1074 := by
      rw [Nat.mul_assoc, ← Nat.pow_add, Nat.sub_add_cancel (by omega)]
    rw [hsplit, roundDiv_mul (by positivity)]

/-- The result has 53 digits, or is the next power of two, or fewer digits at the least scale. -/
theorem ScaleFits.roundDiv_bounds {s : Nat} (h : ScaleFits num den s) (hden : 0 < den) :
    roundDiv (num * 2 ^ 1074) (den * 2 ^ s) ≤ 2 ^ 53 ∧
      (s ≠ 0 → 2 ^ 52 ≤ roundDiv (num * 2 ^ 1074) (den * 2 ^ s)) := by
  have hpos : 0 < den * 2 ^ s := by positivity
  obtain ⟨hlow, hhigh⟩ := Binary64.roundDiv_bounds (num * 2 ^ 1074) (den * 2 ^ s)
  have hlt : num * 2 ^ 1074 / (den * 2 ^ s) < 2 ^ 53 := (Nat.div_lt_iff_lt_mul hpos).2 h.lt
  refine ⟨by omega, fun hs => ?_⟩
  have hle : 2 ^ 52 ≤ num * 2 ^ 1074 / (den * 2 ^ s) := (Nat.le_div_iff_mul_le hpos).2 (h.le hs)
  exact hle.trans hlow

end Scale

/-! ### The number of a scale and a significand -/

section Parts

variable {s r : Nat}

/-- The significand may be the next power of two: it carries into the scale. -/
theorem units_ofMagnitude (hr : r ≤ 2 ^ 53) (hs : s ≠ 0 → 2 ^ 52 ≤ r)
    (hfinite : s * 2 ^ 52 + r < infinityMagnitude) :
    (ofMagnitude false (s * 2 ^ 52 + r)).units = r * 2 ^ s ∧
      (Even r → Even (ofMagnitude false (s * 2 ^ 52 + r)).significand) := by
  rw [infinityMagnitude, Nat.pow_eq] at hfinite
  obtain ⟨hmag, hneg⟩ := magnitude_ofMagnitude_of_lt (m := s * 2 ^ 52 + r)
    (by norm_num at hfinite ⊢; omega)
  rw [units, hneg, if_neg (by decide)]
  by_cases hcarry : r = 2 ^ 53
  · have hscale : (ofMagnitude false (s * 2 ^ 52 + r)).scale = s + 1 := by
      rw [scale, hmag, hcarry, Nat.pow_eq]
      norm_num
      omega
    have hsig : (ofMagnitude false (s * 2 ^ 52 + r)).significand = 2 ^ 52 := by
      rw [significand, hscale, hmag, hcarry, Nat.pow_eq]
      norm_num
      omega
    rw [hscale, hsig, hcarry]
    exact ⟨by push_cast; ring, fun _ => ⟨2 ^ 51, by norm_num⟩⟩
  · have hscale : (ofMagnitude false (s * 2 ^ 52 + r)).scale = s := by
      rw [scale, hmag, Nat.pow_eq]
      norm_num at hr hs hcarry ⊢
      omega
    have hsig : (ofMagnitude false (s * 2 ^ 52 + r)).significand = r := by
      rw [significand, hscale, hmag, Nat.pow_eq, Nat.add_sub_cancel_left]
    rw [hscale, hsig]
    exact ⟨rfl, id⟩

end Parts

/-! ### Nearest numbers -/

/-- No finite number is nearer to `v` than `x`, and if another is as near, `x` is the one with the
even significand. -/
structure IsNearest (x : Binary64) (v : ℚ) : Prop where
  finite : x.isFinite = true
  le : ∀ y : Binary64, y.isFinite = true → |x.value - v| ≤ |y.value - v|
  even : ∀ y : Binary64, y.isFinite = true → y.value ≠ x.value → |y.value - v| = |x.value - v| →
    Even x.significand

theorem isNearest_value {x : Binary64} (hx : x.isFinite = true) : x.IsNearest x.value where
  finite := hx
  le y _ := by
    rw [sub_self, abs_zero]
    exact abs_nonneg _
  even y _ hne htie := by
    rw [sub_self, abs_zero, abs_eq_zero, sub_eq_zero] at htie
    exact absurd htie hne

/-- What is a finite number is met exactly. -/
theorem IsNearest.value_eq {x y : Binary64} (h : x.IsNearest y.value) (hy : y.isFinite = true) :
    x.value = y.value := by
  have hle := h.le y hy
  rw [sub_self, abs_zero] at hle
  exact sub_eq_zero.1 (abs_eq_zero.1 (le_antisymm hle (abs_nonneg _)))

section Ratio

variable {num den s : Nat}

/-- Distances from a quotient, measured in whole numbers. -/
theorem abs_sub_ratio_le_iff (hden : 0 < den) {z w : ℤ} :
    |(z / 2 ^ 1074 - num / den : ℚ)| ≤ |(w / 2 ^ 1074 - num / den : ℚ)| ↔
      |z * den - (num * 2 ^ 1074 : ℕ)| ≤ |w * den - (num * 2 ^ 1074 : ℕ)| := by
  have hden' : (0 : ℚ) < den := by exact_mod_cast hden
  have hleast : (0 : ℚ) < 2 ^ 1074 := by positivity
  have hcast : ((num * 2 ^ 1074 : ℕ) : ℚ) = num * 2 ^ 1074 := by
    rw [Nat.cast_mul, Nat.cast_pow, Nat.cast_two]
  have hpos : (0 : ℚ) < 2 ^ 1074 * den := by positivity
  have hscaled : ∀ u : ℤ, |(u / 2 ^ 1074 - num / den : ℚ)| * (2 ^ 1074 * den) =
      ((|u * den - (num * 2 ^ 1074 : ℕ)| : ℤ) : ℚ) := by
    intro u
    rw [Int.cast_abs, Int.cast_sub, Int.cast_mul, Int.cast_natCast, Int.cast_natCast, hcast,
      ← abs_of_pos hpos, ← abs_mul]
    generalize (2 : ℚ) ^ 1074 = least at hleast ⊢
    congr 1
    field_simp
  rw [← mul_le_mul_iff_left₀ hpos, hscaled, hscaled, Int.cast_le]

/-- **The nearest multiple is nearest among all that lie on the grid or below it.** -/
theorem ScaleFits.nearest (h : ScaleFits num den s) (hden : 0 < den) {w : ℤ}
    (hw : (2 ^ s : ℤ) ∣ w ∨ w < 2 ^ 52 * 2 ^ s) {r : Nat}
    (hr : r = roundDiv (num * 2 ^ 1074) (den * 2 ^ s)) :
    |(r * 2 ^ s * den - (num * 2 ^ 1074 : ℕ) : ℤ)| ≤ |w * den - (num * 2 ^ 1074 : ℕ)| ∧
      (w ≠ r * 2 ^ s →
        |w * den - (num * 2 ^ 1074 : ℕ)| ≤ |(r * 2 ^ s * den - (num * 2 ^ 1074 : ℕ) : ℤ)| →
        Even r) := by
  have hpos : 0 < den * 2 ^ s := by positivity
  obtain ⟨hhalf, heven⟩ := roundDiv_half (num * 2 ^ 1074) hpos
  have hle := h.le
  rw [← hr] at hhalf heven
  have hstep : ∀ k : ℤ, k * 2 ^ s * den = k * (den * 2 ^ s : ℕ) := by
    intro k
    push_cast
    ring
  generalize num * 2 ^ 1074 = n at hhalf heven hle ⊢
  -- two multiples are a step apart, so the other one is a half away at least
  have hmul : ∀ k : ℤ, k ≠ r →
      ((den * 2 ^ s : ℕ) : ℤ) ≤ |k * (den * 2 ^ s : ℕ) - n| + |r * (den * 2 ^ s : ℕ) - (n : ℤ)| :=
    fun k hk => le_abs_add_abs (by positivity) hk
  by_cases hdvd : (2 ^ s : ℤ) ∣ w
  · obtain ⟨k, rfl⟩ := hdvd
    rw [mul_comm (2 ^ s : ℤ) k, hstep, hstep]
    by_cases hk : k = r
    · rw [hk]
      exact ⟨le_refl _, fun hne => absurd rfl hne⟩
    · have := hmul k hk
      exact ⟨by linarith, fun _ htie => heven (by linarith)⟩
  · -- below the grid: its least number with 53 digits is nearer already
    have hs : s ≠ 0 := by
      rintro rfl
      exact hdvd (one_dvd w)
    have hden' : (0 : ℤ) < den := by exact_mod_cast hden
    have hlow : (2 ^ 52 * (den * 2 ^ s : ℕ) : ℤ) ≤ n := by exact_mod_cast hle hs
    have hbelow : w * den < 2 ^ 52 * (den * 2 ^ s : ℕ) := by
      rw [← hstep]
      exact mul_lt_mul_of_pos_right (hw.resolve_left hdvd) hden'
    have hless : |(2 ^ 52 * (den * 2 ^ s : ℕ) - n : ℤ)| < |w * den - n| := by
      rw [abs_of_nonpos (by linarith), abs_of_neg (by linarith)]
      linarith
    have hnear : |(r * (den * 2 ^ s : ℕ) - n : ℤ)| ≤ |(2 ^ 52 * (den * 2 ^ s : ℕ) - n : ℤ)| := by
      by_cases hk : (2 ^ 52 : ℤ) = r
      · rw [hk]
      · have := hmul _ hk
        linarith
    rw [hstep]
    exact ⟨(hnear.trans_lt hless).le, fun _ htie => absurd (hnear.trans_lt hless) htie.not_gt⟩

/-- **A quotient becomes the number nearest to it,** unless it is too great. -/
theorem isNearest_ratio (hden : 0 < den)
    (hfinite : (ofMagnitude false (magnitudeOfRatio num den)).isFinite = true) :
    (ofMagnitude false (magnitudeOfRatio num den)).IsNearest (num / den) := by
  by_cases hnum : num = 0
  · subst hnum
    have hzero : (ofMagnitude false 0).value = (0 : ℕ) / den := by
      have hsig : (ofMagnitude false 0).significand = 0 := by decide
      rw [value, hsig, Nat.cast_zero, zero_mul, zero_div, mul_zero, zero_div]
    rw [magnitudeOfRatio, if_pos rfl] at hfinite ⊢
    rw [← hzero]
    exact isNearest_value hfinite
  have hfits := scaleFits_scaleFor hnum hden.ne'
  obtain ⟨hle, hge⟩ := hfits.roundDiv_bounds hden
  have hmag : magnitudeOfRatio num den = min (scaleFor num den * 2 ^ 52 +
      roundDiv (num * 2 ^ 1074) (den * 2 ^ scaleFor num den)) infinityMagnitude := by
    rw [magnitudeOfRatio, if_neg hnum, magnitudeAt_eq]
  generalize scaleFor num den = s at hfits hle hge hmag
  generalize hr : roundDiv (num * 2 ^ 1074) (den * 2 ^ s) = r at hle hge hmag
  have hbound : s * 2 ^ 52 + r < infinityMagnitude := by
    by_contra hge
    rw [hmag, min_eq_right (Nat.le_of_not_lt hge)] at hfinite
    exact absurd hfinite (by decide)
  rw [hmag, min_eq_left hbound.le] at hfinite ⊢
  obtain ⟨hunits, heven⟩ := units_ofMagnitude hle hge hbound
  refine ⟨hfinite, fun y hy => ?_, fun y hy hne htie => ?_⟩
  · rw [value_eq, value_eq, hunits, abs_sub_ratio_le_iff hden]
    exact (hfits.nearest hden (y.units_grid s) hr.symm).1
  · have hne' : y.units ≠ r * 2 ^ s := by
      intro heq
      rw [value_eq, value_eq, hunits, heq] at hne
      exact hne rfl
    have htie := htie.le
    rw [value_eq, value_eq, hunits, abs_sub_ratio_le_iff hden] at htie
    exact heven ((hfits.nearest hden (y.units_grid s) hr.symm).2 hne' htie)

end Ratio

/-! ### Whole numbers -/

theorem value_of_toWhole? {x : Binary64} {n : Nat} (h : x.toWhole? = some n) :
    x.isFinite = true ∧ x.value = n :=
  value?_eq_some_iff.1 (toWhole?_eq_some_iff.1 h)

theorem exists_value_eq {k : Nat} (hk : k ≤ 2 ^ 53) :
    ∃ y : Binary64, y.isFinite = true ∧ y.value = k := by
  by_cases hlt : k < 2 ^ 53
  · exact ⟨ofNat k, value_of_toWhole? (toWhole?_ofNat hlt)⟩
  · obtain rfl : k = 2 ^ 53 := by omega
    have hwhole : (ofNat (2 ^ 53)).toWhole? = some (2 ^ 53) := by decide +kernel
    exact ⟨ofNat (2 ^ 53), value_of_toWhole? hwhole⟩

/-- From 2 ^ (53 + k) on the last digits of a whole number are 0. -/
theorem dvd_of_value_eq {x : Binary64} {n k : Nat} (hx : x.value = n) (hn : 2 ^ (53 + k) ≤ n) :
    2 ^ (k + 1) ∣ n := by
  have hunits : x.units = n * 2 ^ 1074 := by
    rw [value_eq, div_eq_iff (by positivity)] at hx
    apply Int.cast_injective (α := ℚ)
    rw [hx, Int.cast_mul, Int.cast_natCast, Int.cast_pow, Int.cast_two]
  rcases x.units_grid (k + 1 + 1074) with hdvd | hlt
  · rw [hunits, pow_add] at hdvd
    exact_mod_cast Int.dvd_of_mul_dvd_mul_right (by positivity) hdvd
  · have heq : (2 ^ 52 * 2 ^ (k + 1 + 1074) : ℤ) = 2 ^ (53 + k) * 2 ^ 1074 := by
      rw [← pow_add, ← pow_add, show 52 + (k + 1 + 1074) = 53 + k + 1074 by omega]
    rw [hunits, heq] at hlt
    have hlt : (n : ℤ) < 2 ^ (53 + k) := lt_of_mul_lt_mul_right hlt (by positivity)
    exact absurd hn (Nat.not_le.2 (by exact_mod_cast hlt))

section Whole

variable {x : Binary64} {v : ℚ} {n : Nat}

/-- A whole number up to 2 ^ 53 is met exactly. -/
theorem IsNearest.eq_of_le (h : x.IsNearest v) (hx : x.value = n) {k : Nat} (hv : v = k)
    (hk : k ≤ 2 ^ 53) : n = k := by
  obtain ⟨y, hfinite, hvalue⟩ := exists_value_eq hk
  rw [hv, ← hvalue] at h
  have heq := h.value_eq hfinite
  rw [hx, hvalue] at heq
  exact_mod_cast heq

/-- A whole number that is met by one below 2 ^ 53 is that one. -/
theorem IsNearest.eq_of_lt (h : x.IsNearest v) (hx : x.value = n) (hn : n < 2 ^ 53) {k : Nat}
    (hv : v = k) : n = k := by
  by_cases hk : k ≤ 2 ^ 53
  · exact h.eq_of_le hx hv hk
  · -- 2 ^ 53 would be nearer
    obtain ⟨y, hfinite, hvalue⟩ := exists_value_eq (Nat.le_refl (2 ^ 53))
    have hle := h.le y hfinite
    have hk' : (2 ^ 53 : ℚ) ≤ k := by exact_mod_cast (Nat.lt_of_not_le hk).le
    have hn' : (n : ℚ) < 2 ^ 53 := by exact_mod_cast hn
    rw [hx, hvalue, hv] at hle
    push_cast at hle
    rw [abs_of_neg (by linarith), abs_of_nonpos (by linarith)] at hle
    linarith

/-- The number before 2 ^ 64 is rounded up. -/
theorem IsNearest.eq_of_pred (h : x.IsNearest v) (hx : x.value = n) (hn : n ≤ 2 ^ 64)
    (hv : v = 2 ^ 64 - 1) : n = 2 ^ 64 := by
  obtain ⟨hfinite, hvalue⟩ :=
    value_of_toWhole? (show (ofNat (2 ^ 64)).toWhole? = some (2 ^ 64) by decide +kernel)
  have hle := h.le _ hfinite
  rw [hx, hvalue, hv] at hle
  have hnear : 2 ^ 64 - 2 ≤ n := by
    have hone : |((2 ^ 64 : ℕ) - (2 ^ 64 - 1) : ℚ)| = 1 := by norm_num
    have hlow : (2 ^ 64 - 2 : ℚ) ≤ n := by
      rw [hone] at hle
      linarith [neg_abs_le ((n : ℚ) - (2 ^ 64 - 1))]
    norm_num at hlow ⊢
    exact_mod_cast hlow
  obtain ⟨c, hc⟩ : 2 ^ 11 ∣ n := dvd_of_value_eq (k := 10) hx (by omega)
  omega

/-- Which numbers up to 2 ^ 64 are met exactly, if 2 ^ 64 counts as the number before it. -/
theorem IsNearest.min_eq_iff (h : x.IsNearest v) (hx : x.value = n) (hn : n ≤ 2 ^ 64) :
    ((min n (2 ^ 64 - 1) : ℕ) : ℚ) = v ↔
      v = 2 ^ 64 - 1 ∨ v ≠ 2 ^ 64 ∧ ∃ y : Binary64, y.isFinite = true ∧ y.value = v := by
  have hexact : (∃ y : Binary64, y.isFinite = true ∧ y.value = v) → (n : ℚ) = v := by
    rintro ⟨y, hy, rfl⟩
    rw [← hx]
    exact h.value_eq hy
  by_cases hmax : n = 2 ^ 64
  · have hmin : ((min n (2 ^ 64 - 1) : ℕ) : ℚ) = 2 ^ 64 - 1 := by
      rw [hmax]
      norm_num
    rw [hmin]
    constructor
    · intro hv
      exact .inl hv.symm
    · rintro (hv | ⟨hne, hy⟩)
      · exact hv.symm
      · rw [hmax, Nat.cast_pow, Nat.cast_two] at hexact
        exact absurd (hexact hy).symm hne
  · rw [Nat.min_eq_left (by omega)]
    constructor
    · rintro rfl
      refine .inr ⟨fun hv => hmax ?_, x, h.finite, hx⟩
      exact_mod_cast hv
    · rintro (hv | ⟨-, hy⟩)
      · exact absurd (h.eq_of_pred hx hn hv) hmax
      · exact hexact hy

theorem IsNearest.min_eq_iff_of_lt (h : x.IsNearest v) (hx : x.value = n)
    (hm : min n (2 ^ 64 - 1) < 2 ^ 53) :
    ((min n (2 ^ 64 - 1) : ℕ) : ℚ) = v ↔ ∃ k : ℕ, v = k := by
  have hlt : n < 2 ^ 53 := by omega
  rw [Nat.min_eq_left (by omega)]
  constructor
  · rintro rfl
    exact ⟨n, rfl⟩
  · rintro ⟨k, hv⟩
    rw [hv, h.eq_of_lt hx hlt hv]

end Whole

end Binary64

end WireSchema
