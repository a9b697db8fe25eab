import WireSchema.Number.Literal
import WireSchema.Schema.Basic
import Mathlib.Data.List.TakeWhile
import Mathlib.Tactic.NormNum
import Mathlib.Tactic.Ring

/-! # Whole numbers and their numerals

A whole number below 2 ^ 53 is a double-precision number: shifted to 53 bits it is the significand,
so nothing is rounded (`toWhole?_ofNat`). Its decimal digits are read as that number
(`value?_repr`). -/

namespace WireSchema

namespace Binary64

/-! ### Numbers by scale and significand -/

section Parts

variable {e s : Nat}

/-- The bits below the sign are the magnitude. -/
theorem magnitude_ofMagnitude_of_lt {m : Nat} (h : m < 2 ^ 63) :
    (ofMagnitude false m).magnitude = m ∧ (ofMagnitude false m).isNegative = false := by
  have hbits : (UInt64.ofNat m).toNat = m :=
    UInt64.toNat_ofNat_of_lt (by norm_num at h ⊢; omega)
  constructor
  · show (UInt64.ofNat m).toNat % Nat.pow 2 63 = _
    rw [hbits, Nat.pow_eq, Nat.mod_eq_of_lt h]
  · show decide (Nat.pow 2 63 ≤ (UInt64.ofNat m).toNat) = false
    rw [hbits, Nat.pow_eq, decide_eq_false_iff_not]
    exact Nat.not_le.2 h

/-- The bits of a scale and a significand of 53 bits. -/
theorem magnitude_ofMagnitude (he : e ≤ 1074) (hs : s < 2 ^ 53) :
    (ofMagnitude false (e * 2 ^ 52 + s)).magnitude = e * 2 ^ 52 + s ∧
      (ofMagnitude false (e * 2 ^ 52 + s)).isNegative = false :=
  magnitude_ofMagnitude_of_lt (by norm_num at hs ⊢; omega)

theorem scale_ofMagnitude (he : e ≤ 1074) (h : 2 ^ 52 ≤ s) (hs : s < 2 ^ 53) :
    (ofMagnitude false (e * 2 ^ 52 + s)).scale = e := by
  rw [scale, (magnitude_ofMagnitude he hs).1, Nat.pow_eq]
  norm_num at h hs ⊢
  omega

theorem significand_ofMagnitude (he : e ≤ 1074) (h : 2 ^ 52 ≤ s) (hs : s < 2 ^ 53) :
    (ofMagnitude false (e * 2 ^ 52 + s)).significand = s := by
  rw [significand, scale_ofMagnitude he h hs, (magnitude_ofMagnitude he hs).1, Nat.pow_eq]
  omega

/-- A number with a significand of 53 bits and no fraction. -/
theorem toWhole?_ofMagnitude (he : e ≤ 1074) (h : 2 ^ 52 ≤ s) (hs : s < 2 ^ 53) {n : Nat}
    (hn : s = n * 2 ^ (1074 - e)) : (ofMagnitude false (e * 2 ^ 52 + s)).toWhole? = some n := by
  have hmag := magnitude_ofMagnitude he hs
  have hfinite : (ofMagnitude false (e * 2 ^ 52 + s)).isFinite = true := by
    rw [isFinite, hmag.1, infinityMagnitude, Nat.pow_eq, decide_eq_true_eq]
    norm_num at hs ⊢
    omega
  have hzero : e * 2 ^ 52 + s ≠ 0 := by
    norm_num at h ⊢
    omega
  rw [toWhole?, hfinite, hmag.1, hmag.2, scale_ofMagnitude he h hs, significand_ofMagnitude he h hs,
    Nat.pow_eq, Nat.pow_eq]
  have hpos : 0 < 2 ^ (1074 - e) := Nat.pow_pos (by decide)
  rw [if_neg (by decide), if_neg hzero, if_neg (by decide)]
  split_ifs with h1 h2
  · rw [show e = 1074 by omega] at hn ⊢
    simpa using hn
  · rw [hn, Nat.mul_div_cancel _ hpos]
  · exact absurd (by rw [hn, Nat.mul_mod_left]) h2

end Parts

/-! ### Whole numbers -/

theorem roundDiv_one (n : Nat) : roundDiv n 1 = n := by
  simp [roundDiv, Nat.mod_one]

/-- A whole number shifted to 53 bits. -/
theorem shifted_bounds {n : Nat} (h0 : n ≠ 0) (h : n.log2 ≤ 52) :
    2 ^ 52 ≤ n * 2 ^ (52 - n.log2) ∧ n * 2 ^ (52 - n.log2) < 2 ^ 53 := by
  constructor
  · calc 2 ^ 52 = 2 ^ n.log2 * 2 ^ (52 - n.log2) := by rw [← Nat.pow_add]; congr 1; omega
      _ ≤ n * 2 ^ (52 - n.log2) := Nat.mul_le_mul_right _ (Nat.log2_self_le h0)
  · calc n * 2 ^ (52 - n.log2) < 2 ^ (n.log2 + 1) * 2 ^ (52 - n.log2) :=
        Nat.mul_lt_mul_of_pos_right Nat.lt_log2_self (Nat.pow_pos (by decide))
      _ = 2 ^ 53 := by rw [← Nat.pow_add]; congr 1; omega

/-- The scale of a whole number below 2 ^ 53 leaves no fraction to round. -/
theorem magnitudeOfRatio_one {n : Nat} (h0 : n ≠ 0) (h : n.log2 ≤ 52) :
    magnitudeOfRatio n 1 = (n.log2 + 1022) * 2 ^ 52 + n * 2 ^ (52 - n.log2) := by
  have hscale : scaleFor n 1 = n.log2 + 1022 := by
    have hle : 2 ^ n.log2 ≤ n := Nat.log2_self_le h0
    have hone : Nat.log2 1 = 0 := by decide
    rw [scaleFor, hone, Nat.pow_eq, Nat.pow_eq, if_pos (by simpa using hle), Nat.sub_zero]
  have hat : magnitudeAt n 1 (n.log2 + 1022) =
      (n.log2 + 1022) * 2 ^ 52 + n * 2 ^ (52 - n.log2) := by
    rw [magnitudeAt, if_pos (by omega), roundDiv_one, Nat.pow_eq, Nat.pow_eq,
      show 1074 - (n.log2 + 1022) = 52 - n.log2 by omega]
  obtain ⟨-, hlt⟩ := shifted_bounds h0 h
  rw [magnitudeOfRatio, if_neg h0, hscale, hat, infinityMagnitude, Nat.pow_eq, Nat.min_eq_left]
  norm_num at hlt ⊢
  omega

/-- **A whole number below 2 ^ 53 is a double-precision number.** -/
theorem toWhole?_ofNat {n : Nat} (h : n < 2 ^ 53) : (ofNat n).toWhole? = some n := by
  by_cases h0 : n = 0
  · subst h0
    decide
  have hlog : n.log2 ≤ 52 := Nat.le_of_lt_succ ((Nat.log2_lt h0).2 h)
  obtain ⟨hle, hlt⟩ := shifted_bounds h0 hlog
  rw [ofNat, magnitudeOfRatio_one h0 hlog]
  refine toWhole?_ofMagnitude (by omega) hle hlt ?_
  rw [show 1074 - (n.log2 + 1022) = 52 - n.log2 by omega]

end Binary64

theorem Argument.integer?_number {n : Nat} (h : n < 2 ^ 53) :
    (Argument.number (Binary64.ofNat n)).integer? = some n := by
  have h1 : n ≤ Nat.pow 2 64 := by rw [Nat.pow_eq]; norm_num at h ⊢; omega
  have h2 : min n (Nat.pow 2 64 - 1) = n := by rw [Nat.pow_eq]; norm_num at h ⊢; omega
  rw [integer?, Binary64.toWhole?_ofNat h]
  simp [Option.filter, h1, h2]

/-! ### Numerals -/

namespace Literal

theorem digit?_of_isDigit {c : Char} (h : c.isDigit = true) : digit? c = some (c.toNat - 48) := by
  rw [Char.isDigit, Bool.and_eq_true, decide_eq_true_eq, decide_eq_true_eq] at h
  exact if_pos h

/-- Digits are read one after another. -/
theorem ofDigits?_digits {cs : List Char} (h : ∀ c ∈ cs, c.isDigit = true) :
    ofDigits? 10 digit? cs = some (Nat.ofDigitChars 10 cs 0) := by
  have hfold : ∀ acc, cs.foldl (fun acc c => do return (← acc) * 10 + (← digit? c)) (some acc) =
      some (Nat.ofDigitChars 10 cs acc) := by
    induction cs with
    | nil =>
      intro acc
      simp
    | cons c cs ih =>
      intro acc
      obtain ⟨hc, hcs⟩ := List.forall_mem_cons.1 h
      rw [List.foldl_cons, Nat.ofDigitChars_cons, digit?_of_isDigit hc, Nat.mul_comm 10 acc]
      exact ih hcs _
  exact hfold 0

section Decimal

variable {cs : List Char} (hd : ∀ c ∈ cs, c.isDigit = true ∨ c = '.')

include hd

theorem not_mem_of_decimal {c : Char} (hc : c.isDigit = false) (hpoint : c ≠ '.') : c ∉ cs := by
  intro h
  rcases hd c h with hdigit | hdigit
  · rw [hdigit] at hc
    cases hc
  · exact hpoint hdigit

theorem value?_decimal : value? cs = decimal? cs := by
  unfold value?
  split
  · exact absurd (by simp) (not_mem_of_decimal hd (c := 'x') (by decide) (by decide))
  · exact absurd (by simp) (not_mem_of_decimal hd (c := 'X') (by decide) (by decide))
  · rfl

theorem decimal?_decimal :
    decimal? cs = ((word? cs).or (unsigned? cs)).map (Binary64.ofMagnitude false) := by
  have hsign : ∀ c rest, cs = c :: rest → c ≠ '-' ∧ c ≠ '+' := by
    rintro c rest rfl
    constructor
    · rintro rfl
      exact not_mem_of_decimal hd (c := '-') (by decide) (by decide) List.mem_cons_self
    · rintro rfl
      exact not_mem_of_decimal hd (c := '+') (by decide) (by decide) List.mem_cons_self
  unfold decimal?
  split
  next negative rest hcs =>
  split at hcs
  · exact absurd rfl (hsign _ _ rfl).1
  · exact absurd rfl (hsign _ _ rfl).2
  · cases hcs
    rfl

theorem word?_decimal : word? cs = none := by
  have hlower : cs.map Char.toLower = cs := by
    refine (List.map_congr_left fun c hc => ?_).trans (List.map_id cs)
    rcases hd c hc with hdigit | rfl
    · rw [Char.isDigit, Bool.and_eq_true, decide_eq_true_eq, decide_eq_true_eq] at hdigit
      refine dif_neg fun hupper => ?_
      exact absurd (UInt32.le_trans hupper.1 hdigit.2) (by decide)
    · decide
  have hne : ∀ word : String, (∃ c ∈ word.toList, c.isDigit = false ∧ c ≠ '.') →
      String.ofList cs ≠ word := by
    rintro word ⟨c, hc, hdigit, hpoint⟩ rfl
    rw [String.toList_ofList] at hc
    exact not_mem_of_decimal hd hdigit hpoint hc
  rw [word?, hlower, if_neg, if_neg]
  · exact hne "nan" ⟨'n', by decide⟩
  · exact not_or.2 ⟨hne "inf" ⟨'i', by decide⟩, hne "infinity" ⟨'i', by decide⟩⟩

end Decimal

section Digits

variable {ds fs : List Char} (hds : ∀ c ∈ ds, c.isDigit = true)

include hds

theorem takeWhile_digits (rest : List Char) (hrest : ∀ c ∈ rest.head?, digit? c = none) :
    (ds ++ rest).takeWhile (fun c => (digit? c).isSome) = ds ∧
      (ds ++ rest).dropWhile (fun c => (digit? c).isSome) = rest := by
  have hall : ∀ c ∈ ds, (digit? c).isSome = true := fun c hc => by
    simp [digit?_of_isDigit (hds c hc)]
  rw [List.takeWhile_append_of_pos hall, List.dropWhile_append_of_pos hall]
  cases rest with
  | nil => simp
  | cons c rest => simp [hrest c rfl]

theorem unsigned?_digits (hne : ds ≠ []) :
    unsigned? ds = some (scaled (Nat.ofDigitChars 10 ds 0) 0) := by
  obtain ⟨htake, hdrop⟩ := takeWhile_digits hds [] (by simp)
  rw [List.append_nil] at htake hdrop
  simp only [unsigned?, htake, hdrop, List.append_nil, ofDigits?_digits hds]
  rw [if_neg (by simpa using hne)]
  rfl

/-- A fraction scales the digits down. -/
theorem unsigned?_fraction (hne : ds ≠ []) (hfs : ∀ c ∈ fs, c.isDigit = true) :
    unsigned? (ds ++ '.' :: fs) =
      some (scaled (Nat.ofDigitChars 10 (ds ++ fs) 0) (-(fs.length : Int))) := by
  obtain ⟨htake, hdrop⟩ := takeWhile_digits hds ('.' :: fs) (by simp; decide)
  obtain ⟨htake', hdrop'⟩ := takeWhile_digits hfs [] (by simp)
  rw [List.append_nil] at htake' hdrop'
  have hall : ∀ c ∈ ds ++ fs, c.isDigit = true := List.forall_mem_append.2 ⟨hds, hfs⟩
  simp only [unsigned?, htake, hdrop, htake', hdrop', ofDigits?_digits hall]
  rw [if_neg (by simp [hne])]
  simp [exponent?]

end Digits

theorem scaled_zero (n : Nat) : scaled n 0 = Binary64.magnitudeOfRatio n 1 := by
  by_cases h0 : n = 0
  · subst h0
    rfl
  rw [scaled, if_neg h0, if_neg (by omega), if_neg (by omega), if_pos (by omega)]
  simp

/-- **The decimal digits of a number stand for it.** -/
theorem value?_repr (n : Nat) :
    value? n.repr.toList = some (Binary64.ofNat n) := by
  have hd : ∀ c ∈ Nat.toDigits 10 n, c.isDigit = true := fun c hc =>
    Nat.isDigit_of_mem_toDigits (by decide) (by decide) hc
  have hd' : ∀ c ∈ Nat.toDigits 10 n, c.isDigit = true ∨ c = '.' := fun c hc => .inl (hd c hc)
  rw [Nat.toList_repr, value?_decimal hd', decimal?_decimal hd', word?_decimal hd',
    unsigned?_digits hd Nat.toDigits_ne_nil, Nat.ofDigitChars_ten_toDigits, scaled_zero]
  rfl

end Literal

end WireSchema
