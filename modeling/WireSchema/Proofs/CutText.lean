import WireSchema.Proofs.Decoder

/-! # Texts that are cut

A text that is too long for its field is cut at a byte, maybe within a character. What is read then
is told by `Utf8.cut`: the characters that fit, and a replacement character for one that was cut in
two. Hence a text comes back from its field exactly if it fits, or if it lacks room only for a
replacement character at its end (`rereadText_eq_self_iff`), and a text that has come back once
comes back always (`rereadText_rereadText`). Bytes other than 0 never read as the character 0. -/

namespace WireSchema

namespace Utf8

/-! ### The character 0 -/

theorem isTail_iff {b : UInt8} : isTail b = true ↔ 128 ≤ b.toNat ∧ b.toNat ≤ 191 := between_iff rfl

theorem bounds_of_isSecondOfThree {a b : UInt8} (h : isSecondOfThree a b = true) :
    128 ≤ b.toNat ∧ b.toNat ≤ 191 ∧ (a.toNat = 224 → 160 ≤ b.toNat) ∧
      (a.toNat = 237 → b.toNat ≤ 159) := by
  unfold isSecondOfThree at h
  split_ifs at h with hE0 hED
  · have hb : 160 ≤ b.toNat ∧ b.toNat ≤ 191 := (between_iff rfl).1 h
    have ha : a.toNat = 224 := congrArg UInt8.toNat hE0
    omega
  · have hb : 128 ≤ b.toNat ∧ b.toNat ≤ 159 := (between_iff rfl).1 h
    have ha : a.toNat = 237 := congrArg UInt8.toNat hED
    omega
  · have hb := isTail_iff.1 h
    have h0 : a.toNat ≠ 224 := fun e => hE0 (UInt8.toNat_inj.1 e)
    have hD : a.toNat ≠ 237 := fun e => hED (UInt8.toNat_inj.1 e)
    omega

theorem bounds_of_isSecondOfFour {a b : UInt8} (h : isSecondOfFour a b = true) :
    128 ≤ b.toNat ∧ b.toNat ≤ 191 ∧ (a.toNat = 240 → 144 ≤ b.toNat) ∧
      (a.toNat = 244 → b.toNat ≤ 143) := by
  unfold isSecondOfFour at h
  split_ifs at h with hF0 hF4
  · have hb : 144 ≤ b.toNat ∧ b.toNat ≤ 191 := (between_iff rfl).1 h
    have ha : a.toNat = 240 := congrArg UInt8.toNat hF0
    omega
  · have hb : 128 ≤ b.toNat ∧ b.toNat ≤ 143 := (between_iff rfl).1 h
    have ha : a.toNat = 244 := congrArg UInt8.toNat hF4
    omega
  · have hb := isTail_iff.1 h
    have h0 : a.toNat ≠ 240 := fun e => hF0 (UInt8.toNat_inj.1 e)
    have h4 : a.toNat ≠ 244 := fun e => hF4 (UInt8.toNat_inj.1 e)
    omega

/-- Only a number that is no character is taken for the character 0. -/
theorem ofNat_ne_zero {n : Nat} (h0 : n ≠ 0) (hv : n < 0xD800 ∨ 0xDFFF < n ∧ n < 0x110000) :
    Char.ofNat n ≠ '\x00' := by
  intro h
  have hn : (Char.ofNat n).toNat = n := by
    rw [Char.ofNat, dif_pos hv]
    rfl
  rw [h] at hn
  exact h0 hn.symm

theorem replacement_ne_zero : replacement ≠ '\x00' := by decide

/-- A byte other than 0 starts no character 0: the bounds of the second byte keep the number of a
longer character away from 0 and from the surrogates. -/
theorem front_ne_zero {a : UInt8} (ha : a ≠ 0) (bs : List UInt8) : (front a bs).1 ≠ '\x00' := by
  have hpos : a.toNat ≠ 0 := fun h => ha (UInt8.toNat_inj.1 h)
  unfold front
  split
  · next h =>
    have h : a.toNat < 128 := UInt8.lt_iff_toNat_lt.1 h
    exact ofNat_ne_zero hpos (by omega)
  split
  · next h =>
    have h : 194 ≤ a.toNat ∧ a.toNat ≤ 223 := (between_iff rfl).1 h
    split
    · split
      · exact ofNat_ne_zero (by omega) (by unfold tailBits; omega)
      · exact replacement_ne_zero
    · exact replacement_ne_zero
  split
  · next h =>
    have h : 224 ≤ a.toNat ∧ a.toNat ≤ 239 := (between_iff rfl).1 h
    split
    · split
      · next hb =>
        have hb := bounds_of_isSecondOfThree hb
        split
        · split
          · exact ofNat_ne_zero (by unfold tailBits; omega) (by unfold tailBits; omega)
          · exact replacement_ne_zero
        · exact replacement_ne_zero
      · exact replacement_ne_zero
    · exact replacement_ne_zero
  split
  · next h =>
    have h : 240 ≤ a.toNat ∧ a.toNat ≤ 244 := (between_iff rfl).1 h
    split
    · split
      · next hb =>
        have hb := bounds_of_isSecondOfFour hb
        split
        · split
          · split
            · split
              · exact ofNat_ne_zero (by unfold tailBits; omega) (by unfold tailBits; omega)
              · exact replacement_ne_zero
            · exact replacement_ne_zero
          · exact replacement_ne_zero
        · exact replacement_ne_zero
      · exact replacement_ne_zero
    · exact replacement_ne_zero
  · exact replacement_ne_zero

theorem zero_not_mem_decode {bs : List UInt8} (h : ∀ b ∈ bs, b ≠ 0) : '\x00' ∉ decode bs := by
  fun_induction decode bs with
  | case1 => exact List.not_mem_nil
  | case2 a bs ih =>
    rw [List.forall_mem_cons] at h
    rw [List.mem_cons, not_or]
    exact ⟨(front_ne_zero h.1 bs).symm, ih fun b hb => h.2 b (List.mem_of_mem_drop hb)⟩

/-! ### A character that was cut -/

theorem decode_of_front {a : UInt8} {bs : List UInt8} {c : Char} (h : front a bs = (c, bs.length)) :
    decode (a :: bs) = [c] := by
  rw [decode, h, List.drop_length, decode]

theorem front_lead {a : UInt8} (h : 128 ≤ a.toNat) : front a [] = (replacement, 0) := by
  unfold front
  rw [if_neg (not_lt_of_toNat rfl h)]
  split_ifs <;> rfl

theorem front_three_cut {a b : UInt8} (h : 224 ≤ a.toNat ∧ a.toNat ≤ 239)
    (hb : isSecondOfThree a b = true) : front a [b] = (replacement, 1) := by
  have h0 := not_lt_of_toNat (a := a) rfl (by omega)
  have h2 : ¬ (0xC2 ≤ a && a ≤ 0xDF) = true :=
    mt (between_iff rfl).1 (show ¬ (0xC2 ≤ _ ∧ _ ≤ 0xDF) by omega)
  have h3 : (0xE0 ≤ a && a ≤ 0xEF) = true := (between_iff rfl).2 h
  unfold front
  rw [if_neg h0, if_neg h2, if_pos h3]
  simp only [hb, if_true]

theorem front_four_cut {a b : UInt8} (h : 240 ≤ a.toNat ∧ a.toNat ≤ 244)
    (hb : isSecondOfFour a b = true) {bs : List UInt8}
    (hbs : bs = [] ∨ ∃ c, isTail c = true ∧ bs = [c]) :
    front a (b :: bs) = (replacement, bs.length + 1) := by
  have h0 := not_lt_of_toNat (a := a) rfl (by omega)
  have h2 : ¬ (0xC2 ≤ a && a ≤ 0xDF) = true :=
    mt (between_iff rfl).1 (show ¬ (0xC2 ≤ _ ∧ _ ≤ 0xDF) by omega)
  have h3 : ¬ (0xE0 ≤ a && a ≤ 0xEF) = true :=
    mt (between_iff rfl).1 (show ¬ (0xE0 ≤ _ ∧ _ ≤ 0xEF) by omega)
  have h4 : (0xF0 ≤ a && a ≤ 0xF4) = true := (between_iff rfl).2 h
  unfold front
  rw [if_neg h0, if_neg h2, if_neg h3, if_pos h4]
  rcases hbs with rfl | ⟨c, hc, rfl⟩
  · simp only [hb, if_true, List.length_nil]
  · simp only [hb, hc, if_true, List.length_cons, List.length_nil]

/-- The first bytes of a character without the last ones are read as one replacement character. -/
theorem decode_take_utf8EncodeChar (c : Char) {k : Nat} (h0 : 0 < k)
    (hk : k < (String.utf8EncodeChar c).length) :
    decode ((String.utf8EncodeChar c).take k) = [replacement] := by
  have hv : c.val.toNat < 0xD800 ∨ 0xDFFF < c.val.toNat ∧ c.val.toNat < 0x110000 := c.valid
  unfold String.utf8EncodeChar at hk ⊢
  simp only at hk ⊢
  generalize c.val.toNat = v at hk hv ⊢
  split_ifs at hk ⊢ with h1 h2 h3 <;> simp only [List.length_cons, List.length_nil] at hk
  · omega
  · have ha := toNat_ofNat_lt (n := v / 64 % 32 + 192) (by omega)
    obtain rfl : k = 1 := by omega
    exact decode_of_front (front_lead (by omega))
  · have ha := toNat_ofNat_lt (n := v / 4096 % 16 + 224) (by omega)
    have hb := isSecondOfThree_ofNat (by omega) (by omega) (by omega) ha
    obtain rfl | rfl : k = 1 ∨ k = 2 := by omega
    · exact decode_of_front (front_lead (by omega))
    · exact decode_of_front (front_three_cut (by omega) hb)
  · have ha := toNat_ofNat_lt (n := v / 262144 % 8 + 240) (by omega)
    have hb := isSecondOfFour_ofNat (by omega) (by omega) ha
    obtain rfl | rfl | rfl : k = 1 ∨ k = 2 ∨ k = 3 := by omega
    · exact decode_of_front (front_lead (by omega))
    · exact decode_of_front (front_four_cut (by omega) hb (Or.inl rfl))
    · exact decode_of_front (front_four_cut (by omega) hb (Or.inr ⟨_, isTail_ofNat _, rfl⟩))

/-! ### A text that was cut -/

/-- What is read of a text that was cut to `n` bytes: the characters that fit, and a replacement
character for one that was cut in two. -/
def cut : Nat → List Char → List Char
  | _, [] => []
  | 0, _ :: _ => []
  | n + 1, c :: cs =>
    if c.utf8Size ≤ n + 1 then c :: cut (n + 1 - c.utf8Size) cs else [replacement]

/-- **A cut text is read as `cut` says.** -/
theorem decode_take_encode (n : Nat) (cs : List Char) :
    decode ((encode cs).take n) = cut n cs := by
  fun_induction cut n cs with
  | case1 n => rw [encode, List.flatMap_nil, List.take_nil, decode]
  | case2 c cs => rw [List.take_zero, decode]
  | case3 n c cs h ih =>
    have hlen := String.length_utf8EncodeChar c
    have hone : encode [c] = String.utf8EncodeChar c := List.flatMap_singleton _ _
    rw [encode_cons, List.take_append, List.take_of_length_le (by omega), hlen, ← hone,
      decode_encode_append, ih, List.singleton_append]
  | case4 n c cs h =>
    have hlen := String.length_utf8EncodeChar c
    rw [encode_cons, List.take_append_of_le_length (by omega)]
    exact decode_take_utf8EncodeChar c (by omega) (by omega)

theorem mem_of_mem_cut {n : Nat} {c : Char} {cs : List Char} (h : c ∈ cut n cs) :
    c ∈ cs ∨ c = replacement := by
  fun_induction cut n cs with
  | case1 n => exact absurd h List.not_mem_nil
  | case2 d cs => exact absurd h List.not_mem_nil
  | case3 n d cs hd ih =>
    rcases List.mem_cons.1 h with rfl | h
    · exact Or.inl List.mem_cons_self
    · exact (ih h).imp_left (List.mem_cons_of_mem d)
  | case4 n d cs hd => exact Or.inr (List.mem_singleton.1 h)

/-- A replacement character comes back from however few bytes, so a second cut changes nothing. -/
theorem cut_cut (n : Nat) (cs : List Char) : cut n (cut n cs) = cut n cs := by
  fun_induction cut n cs with
  | case1 n => rw [cut]
  | case2 c cs => rw [cut]
  | case3 n c cs h ih => rw [cut, if_pos h, ih]
  | case4 n c cs h =>
    rw [cut]
    split_ifs
    · rw [cut]
    · rfl

theorem length_encode_cons (c : Char) (cs : List Char) :
    (encode (c :: cs)).length = c.utf8Size + (encode cs).length := by
  rw [encode_cons, List.length_append, String.length_utf8EncodeChar]

/-- **A text comes back from a cut** exactly if it fits, or if all of it but a replacement character
at its end leaves room. -/
theorem cut_eq_self_iff (n : Nat) (cs : List Char) :
    cut n cs = cs ↔ (encode cs).length ≤ n ∨
      ∃ front, cs = front ++ [replacement] ∧ (encode front).length < n := by
  fun_induction cut n cs with
  | case1 n => simp [encode]
  | case2 c cs =>
    have hpos := c.utf8Size_pos
    have hlen := length_encode_cons c cs
    simp only [List.nil_eq, reduceCtorEq, Nat.not_lt_zero, and_false, exists_false, or_false,
      false_iff]
    omega
  | case3 n c cs h ih =>
    have hlen := length_encode_cons c cs
    rw [List.cons.injEq, eq_self, true_and, ih]
    constructor
    · rintro (hfits | ⟨front, rfl, hfront⟩)
      · exact Or.inl (by omega)
      · exact Or.inr ⟨c :: front, rfl, by rw [length_encode_cons]; omega⟩
    · rintro (hfits | ⟨front, hcs, hfront⟩)
      · exact Or.inl (by omega)
      · cases front with
        | nil =>
          -- the character that fits is the last one
          obtain ⟨-, rfl⟩ := List.cons.inj hcs
          exact Or.inl (Nat.zero_le _)
        | cons d front =>
          obtain ⟨rfl, rfl⟩ := List.cons.inj hcs
          rw [length_encode_cons] at hfront
          exact Or.inr ⟨front, rfl, by omega⟩
  | case4 n c cs h =>
    have hlen := length_encode_cons c cs
    constructor
    · intro hcs
      exact Or.inr ⟨[], hcs.symm, Nat.succ_pos n⟩
    · rintro (hfits | ⟨front, hcs, hfront⟩)
      · omega
      · cases front with
        | nil => exact hcs.symm
        | cons d front =>
          obtain ⟨rfl, -⟩ := List.cons.inj hcs
          rw [length_encode_cons] at hfront
          omega

end Utf8

/-! ### Texts in a field of fixed size -/

/-- A text that comes back from a field of `n` bytes: it fits, or all of it but a replacement
character at its end leaves room. -/
def StaysIn (n : Nat) (s : String) : Prop :=
  (Utf8.ofString s).length ≤ n ∨
    ∃ front, s.toList = front ++ [Utf8.replacement] ∧ (Utf8.encode front).length < n

/-- A text without the character 0. -/
def ZeroFree (s : String) : Prop := '\x00' ∉ s.toList

namespace Decoder

variable {s : String}

theorem toList_rereadText (hs : ZeroFree s) (n : Nat) :
    (rereadText s n).toList = Utf8.cut n s.toList := by
  rw [rereadText, takeWhile_fixedText hs, Utf8.toString, String.toList_ofList, Utf8.ofString,
    Utf8.decode_take_encode]

/-- **Which texts come back from their field.** -/
theorem rereadText_eq_self_iff (hs : ZeroFree s) (n : Nat) : rereadText s n = s ↔ StaysIn n s := by
  rw [← String.toList_inj, toList_rereadText hs, Utf8.cut_eq_self_iff]
  rfl

theorem zeroFree_rereadText (hs : ZeroFree s) (n : Nat) : ZeroFree (rereadText s n) := by
  intro h
  rw [toList_rereadText hs] at h
  rcases Utf8.mem_of_mem_cut h with h | h
  · exact hs h
  · exact Utf8.replacement_ne_zero h.symm

/-- **What has come back from a field comes back again.** -/
theorem rereadText_rereadText (hs : ZeroFree s) (n : Nat) :
    rereadText (rereadText s n) n = rereadText s n := by
  rw [← String.toList_inj, toList_rereadText (zeroFree_rereadText hs n), toList_rereadText hs,
    Utf8.cut_cut]

/-- A text that was read from a field ends in front of the first zero. -/
theorem zeroFree_toString (b : Bytes) : ZeroFree (Utf8.toString (b.takeWhile (· != 0))) := by
  rw [ZeroFree, Utf8.toString, String.toList_ofList]
  refine Utf8.zero_not_mem_decode fun x hx => ?_
  have hne := List.mem_takeWhile_imp hx
  exact bne_iff_ne.1 hne

end Decoder

end WireSchema
