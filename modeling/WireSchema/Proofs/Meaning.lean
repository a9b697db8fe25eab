import WireSchema.Proofs.LexemeEnd
import WireSchema.Proofs.Rounding
import Mathlib.Data.Nat.Digits.Defs

/-! # What numerals mean

A numeral means the sum of its digits, each times a power of the base, whatever its length
(`Literal.Means`). As a literal it stands for the double-precision number nearest to that
(`Means.isNearest`), since the digits are put together without rounding, and rounded once. -/

namespace WireSchema

/-! ### Small quotients -/

namespace Binary64

theorem roundDiv_eq_zero {num den : Nat} (h : 2 * num < den) : roundDiv num den = 0 := by
  have hdiv : num / den = 0 := Nat.div_eq_of_lt (by omega)
  have hmod : num % den = num := Nat.mod_eq_of_lt (by omega)
  unfold roundDiv
  dsimp only
  rw [hdiv, hmod, if_neg]
  simp only [Bool.or_eq_true, Bool.and_eq_true, beq_iff_eq, decide_eq_true_eq]
  omega

/-- What is less than half the least positive number becomes 0. -/
theorem magnitudeOfRatio_eq_zero {num den : Nat} (h : 2 * (num * 2 ^ 1074) < den) :
    magnitudeOfRatio num den = 0 := by
  by_cases hnum : num = 0
  · rw [magnitudeOfRatio, if_pos hnum]
  have hfits := scaleFits_scaleFor hnum (show den ≠ 0 by omega)
  have hscale : scaleFor num den = 0 := by
    by_contra hs
    have hle := hfits.le hs
    have hone : den ≤ den * 2 ^ scaleFor num den := Nat.le_mul_of_pos_right _ (by positivity)
    generalize num * 2 ^ 1074 = n at h hle
    generalize den * 2 ^ scaleFor num den = d at hle hone
    omega
  have hround : roundDiv (num * 2 ^ 1074) (den * 2 ^ 0) = 0 :=
    roundDiv_eq_zero (by rwa [Nat.pow_zero, Nat.mul_one])
  rw [magnitudeOfRatio, if_neg hnum, hscale, magnitudeAt_eq, hround]
  simp

end Binary64

namespace Literal

open Lexeme (isDigit isHexDigit)

/-- A power of ten is at least that power of eight. -/
theorem lt_ten_pow {n k : Nat} (h : n.log2 + 1200 < 3 * k) : 2 * (n * 2 ^ 1074) < 10 ^ k := by
  calc 2 * (n * 2 ^ 1074) < 2 * (2 ^ (n.log2 + 1) * 2 ^ 1074) :=
        Nat.mul_lt_mul_of_pos_left (Nat.mul_lt_mul_of_pos_right Nat.lt_log2_self (by positivity))
          (by norm_num)
    _ = 2 ^ (n.log2 + 1076) := by
      rw [← Nat.pow_add, ← Nat.pow_succ', show n.log2 + 1 + 1074 + 1 = n.log2 + 1076 by omega]
    _ ≤ 2 ^ (3 * k) := Nat.pow_le_pow_right (by norm_num) (by omega)
    _ = 8 ^ k := by rw [Nat.pow_mul]
    _ ≤ 10 ^ k := Nat.pow_le_pow_left (by norm_num) k

/-- A decimal fraction is a quotient, also where it is so small that it is not computed. -/
theorem scaled_neg (n k : Nat) : scaled n (-(k : Int)) = Binary64.magnitudeOfRatio n (10 ^ k) := by
  by_cases hn : n = 0
  · rw [scaled, if_pos hn, Binary64.magnitudeOfRatio, if_pos hn]
  rw [scaled, if_neg hn, if_neg (by omega)]
  split_ifs with hcut hk
  · exact (Binary64.magnitudeOfRatio_eq_zero (lt_ten_pow (by omega))).symm
  · have hzero : k = 0 := by omega
    subst hzero
    simp
  · rw [neg_neg, Int.toNat_natCast, Nat.pow_eq]

/-! ### Digits -/

/-- The value of a digit: its place among all digits, in either case. -/
def digitValue (c : Char) : Nat := "0123456789abcdef".toList.idxOf c.toLower

/-- The number that digits stand for in a base. -/
def positional (base : Nat) (cs : List Char) : Nat := Nat.ofDigits base (cs.reverse.map digitValue)

theorem positional_append (base : Nat) (ds fs : List Char) :
    positional base (ds ++ fs) = positional base ds * base ^ fs.length + positional base fs := by
  unfold positional
  rw [List.reverse_append, List.map_append, Nat.ofDigits_append, List.length_map,
    List.length_reverse]
  ring

/-- Digits are put together without rounding. -/
theorem ofDigits?_eq (base : Nat) {digit? : Char → Option Nat} {cs : List Char}
    (h : ∀ c ∈ cs, digit? c = some (digitValue c)) :
    ofDigits? base digit? cs = some (positional base cs) := by
  induction cs using List.reverseRecOn with
  | nil => rfl
  | append_singleton cs c ih =>
    obtain ⟨hcs, hc⟩ := List.forall_mem_append.1 h
    have hinit := ih hcs
    unfold ofDigits? at hinit ⊢
    rw [List.foldl_append, hinit, positional_append]
    simp [hc, positional]

theorem hexDigit?_eq_digitValue {c : Char} (h : isHexDigit c = true) :
    hexDigit? c = some (digitValue c) := by
  have htable : ∀ n < 103, isHexDigit (Char.ofNat n) = true →
      hexDigit? (Char.ofNat n) = some (digitValue (Char.ofNat n)) := by decide +kernel
  have hlt : c.toNat < 103 := by
    simp only [isHexDigit, isDigit, Bool.or_eq_true, Bool.and_eq_true, decide_eq_true_eq,
      Lexeme.char_le_iff] at h
    rcases h with (⟨-, h⟩ | ⟨-, h⟩) | ⟨-, h⟩
    · exact Nat.lt_of_le_of_lt h (by decide)
    · exact Nat.lt_of_le_of_lt h (by decide)
    · exact Nat.lt_of_le_of_lt h (by decide)
  have := htable c.toNat hlt
  rw [Char.ofNat_toNat] at this
  exact this h

theorem digit?_eq_digitValue {c : Char} (h : isDigit c = true) :
    digit? c = some (digitValue c) := by
  have hdigit : '0' ≤ c ∧ c ≤ '9' := by simpa [isDigit] using h
  have hhex := hexDigit?_eq_digitValue (c := c) (by simp [isHexDigit, h])
  rw [hexDigit?, if_pos hdigit] at hhex
  rw [digit?, if_pos hdigit, hhex]

theorem ofDigitChars_eq {ds : List Char} (h : ∀ d ∈ ds, isDigit d = true) :
    Nat.ofDigitChars 10 ds 0 = positional 10 ds := by
  have hread := ofDigits?_eq 10 fun d hd => digit?_eq_digitValue (h d hd)
  rw [ofDigits?_digits h, Option.some.injEq] at hread
  exact hread

/-! ### Numerals -/

/-- The exact value of a numeral. -/
inductive Means : List Char → ℚ → Prop
  | hex {x : Char} {ds : List Char} (hx : x = 'x' ∨ x = 'X')
    (hds : ∀ d ∈ ds, isHexDigit d = true) : Means ('0' :: x :: ds) (positional 16 ds)
  | whole {ds : List Char} (hne : ds ≠ []) (hds : ∀ d ∈ ds, isDigit d = true) :
    Means ds (positional 10 ds)
  | fraction {ds fs : List Char} (hne : ds ≠ []) (hds : ∀ d ∈ ds, isDigit d = true)
    (hfne : fs ≠ []) (hfs : ∀ d ∈ fs, isDigit d = true) :
    Means (ds ++ '.' :: fs) (positional 10 ds + positional 10 fs / 10 ^ fs.length)

theorem forall_mem_fraction {ds fs : List Char} (hds : ∀ d ∈ ds, isDigit d = true)
    (hfs : ∀ d ∈ fs, isDigit d = true) : ∀ c ∈ ds ++ '.' :: fs, isDigit c = true ∨ c = '.' := by
  intro c hc
  rcases List.mem_append.1 hc with hc | hc
  · exact .inl (hds c hc)
  · rcases List.mem_cons.1 hc with hc | hc
    · exact .inr hc
    · exact .inl (hfs c hc)

/-- The second character tells a hexadecimal numeral from the others. -/
theorem hex_ne_decimal {x : Char} {ds cs : List Char} (hx : x = 'x' ∨ x = 'X')
    (hcs : ∀ c ∈ cs, isDigit c = true ∨ c = '.') : '0' :: x :: ds ≠ cs := by
  rintro rfl
  have hmem := hcs x (by simp)
  rcases hx with rfl | rfl
  · exact absurd hmem (by decide)
  · exact absurd hmem (by decide)

/-- **A numeral means one number.** -/
theorem Means.unique {cs : List Char} {v w : ℚ} (h : Means cs v) (h' : Means cs w) : w = v := by
  have hdigits : ∀ {ds : List Char}, (∀ d ∈ ds, isDigit d = true) →
      ∀ c ∈ ds, isDigit c = true ∨ c = '.' := fun hds c hc => .inl (hds c hc)
  have hpoint : ∀ {ds fs : List Char}, ¬ ∀ d ∈ ds ++ '.' :: fs, isDigit d = true := fun hall =>
    absurd (hall '.' (by simp)) (by decide)
  cases h with
  | @hex x ds hx hds =>
    generalize hcs : '0' :: x :: ds = cs at h'
    cases h' with
    | hex => cases hcs; rfl
    | whole _ hes => exact absurd hcs (hex_ne_decimal hx (hdigits hes))
    | fraction _ hes _ hgs => exact absurd hcs (hex_ne_decimal hx (forall_mem_fraction hes hgs))
  | whole hne hds =>
    generalize hcs : cs = cs' at h'
    cases h' with
    | hex hx => exact absurd hcs.symm (hex_ne_decimal hx (hdigits hds))
    | whole => cases hcs; rfl
    | fraction => exact absurd (hcs ▸ hds) hpoint
  | @fraction ds fs hne hds hfne hfs =>
    generalize hcs : ds ++ '.' :: fs = cs at h'
    cases h' with
    | hex hx => exact absurd hcs.symm (hex_ne_decimal hx (forall_mem_fraction hds hfs))
    | whole _ hes => exact absurd (hcs ▸ hes) hpoint
    | fraction _ hes _ hgs =>
      obtain ⟨rfl, rfl⟩ := Lexeme.digits_point_inj hds hes hcs
      rfl

theorem exists_means {cs : List Char} (h : IsNumeral cs) : ∃ v, Means cs v := by
  cases h with
  | hex hx hds => exact ⟨_, .hex hx hds⟩
  | whole hne hds => exact ⟨_, .whole hne hds⟩
  | fraction hne hds hfne hfs => exact ⟨_, .fraction hne hds hfne hfs⟩

/-- A hexadecimal numeral that is not refused stands for its digits. -/
theorem value?_hex {x : Char} {ds : List Char} (hx : x = 'x' ∨ x = 'X')
    (hds : ∀ d ∈ ds, isHexDigit d = true) {y : Binary64} (h : value? ('0' :: x :: ds) = some y) :
    y = Binary64.ofNat (positional 16 ds) := by
  have hvalue : value? ('0' :: x :: ds) = (hex? ds).map Binary64.ofNat := by
    rcases hx with rfl | rfl <;> rfl
  have hplus : ∀ ds', ds ≠ '+' :: ds' := by
    rintro ds' rfl
    exact absurd (hds '+' List.mem_cons_self) (by decide)
  have hdigits : ofDigits? 16 hexDigit? ds = some (positional 16 ds) :=
    ofDigits?_eq 16 fun d hd => hexDigit?_eq_digitValue (hds d hd)
  rw [hvalue] at h
  obtain ⟨n, hn, rfl⟩ := Option.map_eq_some_iff.1 h
  unfold hex? at hn
  split at hn
  · next ds' => exact absurd rfl (hplus ds')
  · dsimp only at hn
    split_ifs at hn
    rw [hdigits] at hn
    obtain ⟨hn, -⟩ := Option.filter_eq_some_iff.1 hn
    cases hn
    rfl

theorem value?_whole {ds : List Char} (hne : ds ≠ []) (hds : ∀ d ∈ ds, isDigit d = true) :
    value? ds =
      some (Binary64.ofMagnitude false (Binary64.magnitudeOfRatio (positional 10 ds) 1)) := by
  have hd : ∀ c ∈ ds, c.isDigit = true ∨ c = '.' := fun c hc => .inl (hds c hc)
  rw [value?_decimal hd, decimal?_decimal hd, word?_decimal hd, unsigned?_digits hds hne,
    scaled_zero, ofDigitChars_eq hds]
  rfl

theorem value?_fraction {ds fs : List Char} (hne : ds ≠ []) (hds : ∀ d ∈ ds, isDigit d = true)
    (hfs : ∀ d ∈ fs, isDigit d = true) :
    value? (ds ++ '.' :: fs) = some (Binary64.ofMagnitude false
      (Binary64.magnitudeOfRatio (positional 10 (ds ++ fs)) (10 ^ fs.length))) := by
  have hall : ∀ c ∈ ds ++ fs, isDigit c = true := List.forall_mem_append.2 ⟨hds, hfs⟩
  have hd : ∀ c ∈ ds ++ '.' :: fs, c.isDigit = true ∨ c = '.' := forall_mem_fraction hds hfs
  rw [value?_decimal hd, decimal?_decimal hd, word?_decimal hd, unsigned?_fraction hds hne hfs,
    scaled_neg, ofDigitChars_eq hall]
  rfl

/-- **A literal stands for the number nearest to what it means.** -/
theorem Means.isNearest {cs : List Char} {v : ℚ} {x : Binary64} (h : Means cs v)
    (hx : value? cs = some x) (hfinite : x.isFinite = true) : x.IsNearest v := by
  cases h with
  | @hex c ds hc hds =>
    obtain rfl := value?_hex hc hds hx
    have := Binary64.isNearest_ratio Nat.one_pos hfinite
    rwa [Nat.cast_one, div_one] at this
  | whole hne hds =>
    rw [value?_whole hne hds] at hx
    cases hx
    have := Binary64.isNearest_ratio Nat.one_pos hfinite
    rwa [Nat.cast_one, div_one] at this
  | @fraction ds fs hne hds hfne hfs =>
    rw [value?_fraction hne hds hfs] at hx
    cases hx
    have hsum : (positional 10 ds + positional 10 fs / 10 ^ fs.length : ℚ) =
        (positional 10 (ds ++ fs) : ℕ) / (10 ^ fs.length : ℕ) := by
      rw [positional_append]
      push_cast
      field_simp
    rw [hsum]
    exact Binary64.isNearest_ratio (by positivity) hfinite

end Literal

end WireSchema
