import WireSchema.Text.Utf8
import Mathlib.Data.List.TakeWhile

/-! # Texts read back

`front` reads the bytes of one character as that character, whatever stands behind them: there is
one lemma for each number of bytes. Hence `decode` undoes `encode`, and since only the character 0
has the byte 0, a text without it ends at the first zero byte of its field. -/

namespace WireSchema.Utf8

/-! ### The bytes of one character -/

theorem toNat_ofNat_lt {n : Nat} (h : n < 256) : (UInt8.ofNat n).toNat = n := by
  rw [UInt8.toNat_ofNat', Nat.mod_eq_of_lt h]

theorem between_iff {lo a hi : UInt8} {n : Nat} (ha : a.toNat = n) :
    (lo ≤ a && a ≤ hi) = true ↔ lo.toNat ≤ n ∧ n ≤ hi.toNat := by
  rw [Bool.and_eq_true, decide_eq_true_eq, decide_eq_true_eq, UInt8.le_iff_toNat_le,
    UInt8.le_iff_toNat_le, ha]

theorem not_lt_of_toNat {a : UInt8} {n : Nat} (ha : a.toNat = n) (hn : 128 ≤ n) : ¬ a < 0x80 := by
  rw [UInt8.lt_iff_toNat_lt, ha]
  exact Nat.not_lt.2 hn

theorem isTail_ofNat (n : Nat) : isTail (UInt8.ofNat (n % 64 + 128)) = true :=
  (between_iff (toNat_ofNat_lt (by omega))).2 (show 0x80 ≤ _ ∧ _ ≤ 0xBF by omega)

theorem tailBits_ofNat (n : Nat) : tailBits (UInt8.ofNat (n % 64 + 128)) = n % 64 := by
  rw [tailBits, toNat_ofNat_lt (by omega)]
  omega

theorem front_one {v : Nat} (h : v < 128) (bs : List UInt8) :
    front (UInt8.ofNat v) bs = (Char.ofNat v, 0) := by
  have ha := toNat_ofNat_lt (n := v) (by omega)
  have h0 : UInt8.ofNat v < 0x80 := by
    rw [UInt8.lt_iff_toNat_lt, ha]
    exact h
  unfold front
  rw [if_pos h0, ha]

theorem front_two {v : Nat} (h1 : 128 ≤ v) (h2 : v < 2048) (bs : List UInt8) :
    front (UInt8.ofNat (v / 64 % 32 + 192)) (UInt8.ofNat (v % 64 + 128) :: bs) =
      (Char.ofNat v, 1) := by
  have ha := toNat_ofNat_lt (n := v / 64 % 32 + 192) (by omega)
  generalize UInt8.ofNat (v / 64 % 32 + 192) = a at ha ⊢
  have h0 := not_lt_of_toNat ha (by omega)
  have h3 : (0xC2 ≤ a && a ≤ 0xDF) = true := (between_iff ha).2 (show 0xC2 ≤ _ ∧ _ ≤ 0xDF by omega)
  unfold front
  rw [if_neg h0, if_pos h3]
  simp only [isTail_ofNat, if_true, tailBits_ofNat, ha]
  rw [show (v / 64 % 32 + 192) % 32 * 64 + v % 64 = v by omega]

/-- The bounds of the second byte leave out the numbers below 2048 and the surrogates. -/
theorem isSecondOfThree_ofNat {v : Nat} {a : UInt8} (h1 : 2048 ≤ v) (h2 : v < 65536)
    (hs : v < 0xD800 ∨ 0xDFFF < v) (ha : a.toNat = v / 4096 % 16 + 224) :
    isSecondOfThree a (UInt8.ofNat (v / 64 % 64 + 128)) = true := by
  have hb := toNat_ofNat_lt (n := v / 64 % 64 + 128) (by omega)
  unfold isSecondOfThree
  split_ifs with hE0 hED
  · rw [hE0] at ha
    simp only [UInt8.reduceToNat] at ha
    exact (between_iff hb).2 (show 0xA0 ≤ _ ∧ _ ≤ 0xBF by omega)
  · rw [hED] at ha
    simp only [UInt8.reduceToNat] at ha
    exact (between_iff hb).2 (show 0x80 ≤ _ ∧ _ ≤ 0x9F by omega)
  · exact isTail_ofNat _

/-- The bounds of the second byte leave out the numbers below 65536 and above the last character. -/
theorem isSecondOfFour_ofNat {v : Nat} {a : UInt8} (h1 : 65536 ≤ v) (h2 : v < 0x110000)
    (ha : a.toNat = v / 262144 % 8 + 240) :
    isSecondOfFour a (UInt8.ofNat (v / 4096 % 64 + 128)) = true := by
  have hb := toNat_ofNat_lt (n := v / 4096 % 64 + 128) (by omega)
  unfold isSecondOfFour
  split_ifs with hF0 hF4
  · rw [hF0] at ha
    simp only [UInt8.reduceToNat] at ha
    exact (between_iff hb).2 (show 0x90 ≤ _ ∧ _ ≤ 0xBF by omega)
  · rw [hF4] at ha
    simp only [UInt8.reduceToNat] at ha
    exact (between_iff hb).2 (show 0x80 ≤ _ ∧ _ ≤ 0x8F by omega)
  · exact isTail_ofNat _

theorem front_three {v : Nat} (h1 : 2048 ≤ v) (h2 : v < 65536) (hs : v < 0xD800 ∨ 0xDFFF < v)
    (bs : List UInt8) :
    front (UInt8.ofNat (v / 4096 % 16 + 224))
        (UInt8.ofNat (v / 64 % 64 + 128) :: UInt8.ofNat (v % 64 + 128) :: bs) =
      (Char.ofNat v, 2) := by
  have ha := toNat_ofNat_lt (n := v / 4096 % 16 + 224) (by omega)
  generalize UInt8.ofNat (v / 4096 % 16 + 224) = a at ha ⊢
  have h0 := not_lt_of_toNat ha (by omega)
  have h3 : ¬ (0xC2 ≤ a && a ≤ 0xDF) = true :=
    mt (between_iff ha).1 (show ¬ (0xC2 ≤ _ ∧ _ ≤ 0xDF) by omega)
  have h4 : (0xE0 ≤ a && a ≤ 0xEF) = true := (between_iff ha).2 (show 0xE0 ≤ _ ∧ _ ≤ 0xEF by omega)
  unfold front
  rw [if_neg h0, if_neg h3, if_pos h4]
  simp only [isSecondOfThree_ofNat h1 h2 hs ha, isTail_ofNat, if_true, tailBits_ofNat, ha]
  rw [show ((v / 4096 % 16 + 224) % 16 * 64 + v / 64 % 64) * 64 + v % 64 = v by omega]

theorem front_four {v : Nat} (h1 : 65536 ≤ v) (h2 : v < 0x110000) (bs : List UInt8) :
    front (UInt8.ofNat (v / 262144 % 8 + 240))
        (UInt8.ofNat (v / 4096 % 64 + 128) :: UInt8.ofNat (v / 64 % 64 + 128) ::
          UInt8.ofNat (v % 64 + 128) :: bs) =
      (Char.ofNat v, 3) := by
  have ha := toNat_ofNat_lt (n := v / 262144 % 8 + 240) (by omega)
  generalize UInt8.ofNat (v / 262144 % 8 + 240) = a at ha ⊢
  have h0 := not_lt_of_toNat ha (by omega)
  have h3 : ¬ (0xC2 ≤ a && a ≤ 0xDF) = true :=
    mt (between_iff ha).1 (show ¬ (0xC2 ≤ _ ∧ _ ≤ 0xDF) by omega)
  have h4 : ¬ (0xE0 ≤ a && a ≤ 0xEF) = true :=
    mt (between_iff ha).1 (show ¬ (0xE0 ≤ _ ∧ _ ≤ 0xEF) by omega)
  have h5 : (0xF0 ≤ a && a ≤ 0xF4) = true := (between_iff ha).2 (show 0xF0 ≤ _ ∧ _ ≤ 0xF4 by omega)
  unfold front
  rw [if_neg h0, if_neg h3, if_neg h4, if_pos h5]
  simp only [isSecondOfFour_ofNat h1 h2 ha, isTail_ofNat, if_true, tailBits_ofNat, ha]
  rw [show (((v / 262144 % 8 + 240) % 8 * 64 + v / 4096 % 64) * 64 + v / 64 % 64) * 64 + v % 64 = v
    by omega]

/-- **The bytes of a character are read as that character,** whatever stands behind them. -/
theorem front_utf8EncodeChar (c : Char) (rest : List UInt8) :
    ∃ a bs, String.utf8EncodeChar c = a :: bs ∧ front a (bs ++ rest) = (c, bs.length) := by
  have hc : Char.ofNat c.val.toNat = c := Char.ofNat_toNat c
  have hv : c.val.toNat < 0xD800 ∨ 0xDFFF < c.val.toNat ∧ c.val.toNat < 0x110000 := c.valid
  unfold String.utf8EncodeChar
  simp only
  generalize c.val.toNat = v at hc hv
  split_ifs with h1 h2 h3
  · exact ⟨_, _, rfl, by rw [front_one (by omega), hc]; rfl⟩
  · exact ⟨_, _, rfl, by rw [List.singleton_append, front_two (by omega) (by omega), hc]; rfl⟩
  · refine ⟨_, _, rfl, ?_⟩
    rw [List.cons_append, List.singleton_append,
      front_three (by omega) (by omega) (by omega), hc]
    rfl
  · refine ⟨_, _, rfl, ?_⟩
    rw [List.cons_append, List.cons_append, List.singleton_append,
      front_four (by omega) (by omega), hc]
    rfl

/-! ### Whole texts -/

theorem encode_cons (c : Char) (cs : List Char) :
    encode (c :: cs) = String.utf8EncodeChar c ++ encode cs := List.flatMap_cons

/-- The bytes of a text are read as that text, whatever stands behind them. -/
theorem decode_encode_append (cs : List Char) (rest : List UInt8) :
    decode (encode cs ++ rest) = cs ++ decode rest := by
  induction cs with
  | nil => rw [encode, List.flatMap_nil, List.nil_append, List.nil_append]
  | cons c cs ih =>
    obtain ⟨a, bs, he, hf⟩ := front_utf8EncodeChar c (encode cs ++ rest)
    rw [encode_cons, he, List.append_assoc, List.cons_append, decode, hf, List.drop_left, ih,
      List.cons_append]

/-- **Reading undoes writing.** -/
theorem decode_encode (cs : List Char) : decode (encode cs) = cs := by
  have h := decode_encode_append cs []
  rwa [decode, List.append_nil, List.append_nil] at h

theorem toString_ofString (s : String) : toString (ofString s) = s := by
  rw [toString, ofString, decode_encode, String.ofList_toList]

/-! ### Zero bytes -/

/-- Only the character 0 has a zero byte. -/
theorem ne_zero_of_mem_utf8EncodeChar {c : Char} (hc : c ≠ '\x00') {b : UInt8}
    (hb : b ∈ String.utf8EncodeChar c) : b ≠ 0 := by
  have hv : c.val.toNat ≠ 0 := fun h => hc (Char.ext (UInt32.toNat_inj.1 h))
  have key : ∀ n, 0 < n → n < 256 → UInt8.ofNat n ≠ 0 := by
    intro n h1 h2 h
    have := congrArg UInt8.toNat h
    rw [toNat_ofNat_lt h2] at this
    simp at this
    omega
  unfold String.utf8EncodeChar at hb
  simp only at hb
  generalize c.val.toNat = v at hv hb
  split_ifs at hb <;> simp only [List.mem_cons, List.not_mem_nil, or_false] at hb
  · subst hb
    exact key _ (by omega) (by omega)
  · rcases hb with rfl | rfl <;> exact key _ (by omega) (by omega)
  · rcases hb with rfl | rfl | rfl <;> exact key _ (by omega) (by omega)
  · rcases hb with rfl | rfl | rfl | rfl <;> exact key _ (by omega) (by omega)

theorem ne_zero_of_mem_ofString {s : String} (hs : '\x00' ∉ s.toList) {b : UInt8}
    (hb : b ∈ ofString s) : b ≠ 0 := by
  obtain ⟨c, hc, hb⟩ := List.mem_flatMap.1 hb
  exact ne_zero_of_mem_utf8EncodeChar (fun h => hs (h ▸ hc)) hb

end WireSchema.Utf8
