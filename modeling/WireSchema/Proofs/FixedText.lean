import WireSchema.Proofs.CutText
import WireSchema.Proofs.WriteRun

/-! # What comes back of a text in a field of fixed size

A text in a field of `n` bytes is cut behind its last byte that has room. `CutsAt` says where this
is between the characters: behind the longest beginning of the text that has room whole. The reader
gives back that beginning, and a replacement character behind it exactly if the cut went through a
character (`Cursor.read_fixedText`). So what is read is a beginning of what was written unless a
character was cut in two, and it is the whole text whenever that has room. -/

namespace WireSchema

namespace Utf8

/-- The characters `front` are the longest beginning of `cs` that has room in `n` bytes, and `back`
is what stands behind it. -/
structure CutsAt (n : Nat) (cs front back : List Char) : Prop where
  append : cs = front ++ back
  fits : (encode front).length ≤ n
  longest : ∀ c rest, back = c :: rest → n < (encode front).length + c.utf8Size

/-- What stands behind the characters that have room: nothing if they are all there are or fill the
field, and else a replacement character for the rest of the field. -/
def remnant (n : Nat) (front back : List Char) : List Char :=
  if back = [] ∨ (encode front).length = n then [] else [replacement]

theorem CutsAt.cons {n : Nat} {c : Char} {cs front back : List Char} (hc : c.utf8Size ≤ n)
    (h : CutsAt (n - c.utf8Size) cs front back) : CutsAt n (c :: cs) (c :: front) back where
  append := by rw [h.append, List.cons_append]
  fits := by
    have := h.fits
    rw [length_encode_cons]
    omega
  longest d rest hd := by
    have := h.longest d rest hd
    rw [length_encode_cons]
    omega

/-- **A cut text is its longest beginning that has room, and what remains behind it.** -/
theorem exists_cutsAt (n : Nat) (cs : List Char) :
    ∃ front back, CutsAt n cs front back ∧ cut n cs = front ++ remnant n front back := by
  fun_induction cut n cs with
  | case1 n => exact ⟨[], [], ⟨rfl, Nat.zero_le n, fun _ _ h => by cases h⟩, rfl⟩
  | case2 c cs =>
    refine ⟨[], c :: cs, ⟨rfl, Nat.le_refl 0, fun d rest _ => ?_⟩, ?_⟩
    · have := d.utf8Size_pos
      rw [show encode [] = [] from rfl, List.length_nil]
      omega
    · rw [remnant, if_pos (Or.inr (by rfl)), List.append_nil]
  | case3 n c cs hc ih =>
    obtain ⟨front, back, h, hcut⟩ := ih
    have hlen : (encode (c :: front)).length = n + 1 ↔
        (encode front).length = n + 1 - c.utf8Size := by
      have := h.fits
      rw [length_encode_cons]
      omega
    refine ⟨c :: front, back, h.cons hc, ?_⟩
    simp only [hcut, remnant, hlen, List.cons_append]
  | case4 n c cs hc =>
    refine ⟨[], c :: cs, ⟨rfl, Nat.zero_le _, fun d rest hd => ?_⟩, ?_⟩
    · obtain ⟨rfl, -⟩ := List.cons.inj hd
      rw [show encode [] = [] from rfl, List.length_nil]
      omega
    · rw [remnant, if_neg (by simp [encode]), List.nil_append]

/-- What remains is a beginning of what was cut off exactly if nothing remains, or if the character
that was cut in two is itself a replacement character. -/
theorem CutsAt.isPrefix_iff {n : Nat} {cs front back : List Char} (h : CutsAt n cs front back) :
    front ++ remnant n front back <+: cs ↔
      back = [] ∨ (encode front).length = n ∨ back.head? = some replacement := by
  rw [h.append, List.prefix_append_right_inj, ← or_assoc, remnant]
  split_ifs with hwhole
  · simp [hwhole]
  · rw [or_iff_right hwhole]
    cases back with
    | nil => simp
    | cons c rest => simp [List.cons_prefix_cons, eq_comm]

end Utf8

namespace Cursor

/-- **What is read of a text that was written in `n` bytes.** Where a writer has room for them, they
are appended, and the reader takes exactly these bytes. It gives the longest beginning of the text
that has room, with a replacement character behind it exactly if the text goes on and does not fill
the field, that is if a character was cut in two. Hence it gives a beginning of the text exactly if
no character other than the replacement character was cut in two, and the text itself if that has
room. -/
theorem read_fixedText {s : String} (hs : ZeroFree s) (build : Build) {w : Bytes} {n : Nat}
    (hroom : w.length + n ≤ maxBuffer) :
    ∃ b, Write.fixedText build s n w = ⟨w ++ b, none⟩ ∧ b.length = n ∧
      ∀ (c : Cursor) (rest : Bytes), c.left = b ++ rest →
        ∃ front back t, Utf8.CutsAt n s.toList front back ∧
          c.read (Decoder.fixedText n) = (.ok t, { c with index := c.index + n }) ∧
          t.toList = front ++ Utf8.remnant n front back ∧
          (t.toList <+: s.toList ↔
            back = [] ∨ (Utf8.encode front).length = n ∨ back.head? = some Utf8.replacement) ∧
          ((Utf8.ofString s).length ≤ n → t = s) := by
  refine ⟨fixedText s n, Write.fixed_of_le build hroom, length_fixedText s n,
    fun c rest hleft => ?_⟩
  obtain ⟨front, back, hcuts, hcut⟩ := Utf8.exists_cutsAt n s.toList
  have hread := read_of_reads hleft (Decoder.reads_rereadText s n rest)
  have ht : (Decoder.rereadText s n).toList = front ++ Utf8.remnant n front back := by
    rw [Decoder.toList_rereadText hs, hcut]
  refine ⟨front, back, Decoder.rereadText s n, hcuts, ?_, ht, ?_, Decoder.rereadText_of_fits hs⟩
  · rwa [length_fixedText] at hread
  · rw [ht]
    exact hcuts.isPrefix_iff

/-- Of `né` in two bytes behind another byte, the second character is cut in two; the byte behind
the field is left. -/
theorem read_fixedText_accent :
    ZeroFree "né" ∧ ∃ b, Write.fixedText .wrapping "né" 2 [5] = ⟨[5] ++ b, none⟩ ∧
      ∃ front back t, Utf8.CutsAt 2 "né".toList front back ∧
        Cursor.read ⟨[5] ++ (b ++ [7]), 1⟩ (Decoder.fixedText 2) =
          (.ok t, ⟨[5] ++ (b ++ [7]), 3⟩) ∧
        t.toList = front ++ Utf8.remnant 2 front back := by
  have hs : ZeroFree "né" := by unfold ZeroFree; decide
  obtain ⟨b, hwrite, -, hread⟩ :=
    read_fixedText hs .wrapping (w := [5]) (n := 2) (by decide)
  obtain ⟨front, back, t, hcuts, hread, ht, -⟩ := hread ⟨[5] ++ (b ++ [7]), 1⟩ [7] rfl
  exact ⟨hs, b, hwrite, front, back, t, hcuts, hread, ht⟩

/-- What is read of a text need not be a beginning of it. -/
theorem read_fixedText_replaces :
    ZeroFree "né" ∧
      (∀ build, Write.fixedText build "né" 2 [] = ⟨[0x6E, 0xC3], none⟩) ∧
      (Cursor.ofBytes [0x6E, 0xC3]).read (Decoder.fixedText 2) = (.ok "n�", ⟨[0x6E, 0xC3], 2⟩) ∧
      ¬ "n�".toList <+: "né".toList := by
  have hwrite : ∀ build, Write.fixedText build "né" 2 [] = ⟨[0x6E, 0xC3], none⟩ := by
    intro build
    cases build with
    | checked => decide +kernel
    | wrapping => decide +kernel
  have hread : (Decoder.fixedText 2).Reads [0x6E, 0xC3] [] "n�" := by
    unfold Decoder.Reads
    decide +kernel
  exact ⟨by unfold ZeroFree; decide, hwrite, read_of_reads rfl hread, by decide⟩

end Cursor

end WireSchema
