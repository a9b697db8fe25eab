import WireSchema.Proofs.Utf8
import WireSchema.Proofs.Writer
import WireSchema.Wire.Decoder

/-! # What a decoder reads

`d.Reads b rest a` says that `d` takes the bytes `b` off the front of `b ++ rest` and reads them as
`a`. The decoders of fixed-width and prefixed values do so for every `rest`, those that take all
that is left for an empty one. -/

namespace WireSchema.Decoder

variable {α β : Type}

/-- The bytes `b` in front of `rest` are taken, and read as `a`. -/
def Reads (d : Decoder α) (b rest : Bytes) (a : α) : Prop := d (b ++ rest) = (.ok a, b.length)

/-! ### Steps -/

theorem bind_of_ok {d : Decoder α} {f : α → Decoder β} {s : Bytes} {a : α} {n : Nat}
    (h : d s = (.ok a, n)) : (d >>= f) s = ((f a (s.drop n)).1, n + (f a (s.drop n)).2) := by
  show Decoder.bind d f s = _
  rw [Decoder.bind, h]

theorem bind_of_error {d : Decoder α} {f : α → Decoder β} {s : Bytes} {e : WireError} {n : Nat}
    (h : d s = (.error e, n)) : (d >>= f) s = (.error e, n) := by
  show Decoder.bind d f s = _
  rw [Decoder.bind, h]

theorem reads_pure (a : α) (rest : Bytes) : Reads (pure a) [] rest a := rfl

theorem Reads.bind {d : Decoder α} {f : α → Decoder β} {b b' rest : Bytes} {a : α} {c : β}
    (h : d.Reads b (b' ++ rest) a) (h' : (f a).Reads b' rest c) :
    Reads (d >>= f) (b ++ b') rest c := by
  unfold Reads at h h' ⊢
  rw [List.append_assoc, bind_of_ok h, List.drop_left, h', List.length_append]

/-- A value that is changed after it has been read. -/
theorem Reads.map {d : Decoder α} {b rest : Bytes} {a : α} (f : α → β) (h : d.Reads b rest a) :
    Reads (do return f (← d)) b rest (f a) := by
  have : Reads (d >>= fun x => pure (f x)) (b ++ []) rest (f a) := h.bind (reads_pure (f a) rest)
  rwa [List.append_nil] at this

theorem reads_take {n : Nat} {b : Bytes} (hb : b.length = n) (rest : Bytes) :
    (take n).Reads b rest b := by
  have h : holds n (b ++ rest) = true := holds_iff.2 (by rw [List.length_append]; omega)
  unfold Reads
  rw [take, if_pos h, ← hb, List.take_left]

theorem reads_exactly {n : Nat} (b : { b : Bytes // b.length = n }) (rest : Bytes) :
    (exactly n).Reads b.1 rest b := by
  obtain ⟨b, rfl⟩ := b
  have h : holds b.length (b ++ rest) = true := holds_iff.2 (by rw [List.length_append]; omega)
  unfold Reads
  rw [exactly, dif_pos h]
  simp only [List.take_left]

theorem reads_rest (b : Bytes) : rest.Reads b [] b := by
  unfold Reads
  rw [List.append_nil, rest]

/-- What is read from a span of its own takes nothing from the bytes behind the span. -/
theorem Reads.within {d : Decoder α} {span : Bytes} {a : α} (h : d.Reads span [] a)
    (rest : Bytes) : (within d span).Reads [] rest a := by
  unfold Reads at h ⊢
  rw [List.append_nil] at h
  rw [Decoder.within, h, List.length_nil]

/-! ### Scalars, texts and payloads -/

theorem reads_word {w n : Nat} (h : n < 256 ^ w) (rest : Bytes) :
    (word w).Reads (littleEndian w n) rest n := by
  have := (reads_take (length_littleEndian w n) rest).map ofLittleEndian
  rwa [ofLittleEndian_littleEndian_of_lt h] at this

theorem reads_scalar (k : ScalarKind) (v : k.Value) (rest : Bytes) :
    (scalar k).Reads (k.encode v) rest v := by
  have := (reads_word (k.toWord_lt v) rest).map k.ofWord
  rwa [k.ofWord_toWord] at this

/-- What comes back of a text that was written in a field of `size` bytes. -/
def rereadText (s : String) (size : Nat) : String :=
  Utf8.toString ((WireSchema.fixedText s size).takeWhile (· != 0))

theorem reads_rereadText (s : String) (n : Nat) (rest : Bytes) :
    (fixedText n).Reads (WireSchema.fixedText s n) rest (rereadText s n) :=
  (reads_take (length_fixedText s n) rest).map
    fun b : Bytes => Utf8.toString (b.takeWhile (· != 0))

/-- As much of a text as has room in its field is what stands in front of the zeros. -/
theorem takeWhile_fixedText {s : String} (hz : '\x00' ∉ s.toList) (n : Nat) :
    (WireSchema.fixedText s n).takeWhile (· != 0) = (Utf8.ofString s).take n := by
  have hs : ∀ b ∈ (Utf8.ofString s).take n, (b != 0) = true := fun b hb =>
    bne_iff_ne.2 (Utf8.ne_zero_of_mem_ofString hz (List.mem_of_mem_take hb))
  have hr : ∀ k, (List.replicate k (0 : UInt8)).takeWhile (· != 0) = [] := by
    intro k
    cases k <;> rfl
  rw [WireSchema.fixedText, fixedBytes, List.takeWhile_append_of_pos hs, hr, List.append_nil]

theorem rereadText_of_fits {s : String} {n : Nat} (hz : '\x00' ∉ s.toList)
    (hn : (Utf8.ofString s).length ≤ n) : rereadText s n = s := by
  rw [rereadText, takeWhile_fixedText hz, List.take_of_length_le hn, Utf8.toString_ofString]

theorem reads_prefixed {p : LengthPrefix} {payload : Bytes} (h : payload.length ≤ p.maxLength)
    (rest : Bytes) : (prefixed p).Reads (counted p payload) rest payload :=
  (reads_word (LengthPrefix.lt_of_le_maxLength h) _).bind (reads_take rfl rest)

theorem reads_prefixedText {p : LengthPrefix} {s : String}
    (h : (Utf8.ofString s).length ≤ p.maxLength) (rest : Bytes) :
    (prefixedText p).Reads (counted p (Utf8.ofString s)) rest s := by
  have := (reads_prefixed h rest).map Utf8.toString
  rwa [Utf8.toString_ofString] at this

theorem reads_restText (s : String) : restText.Reads (Utf8.ofString s) [] s := by
  have := (reads_rest (Utf8.ofString s)).map Utf8.toString
  rwa [Utf8.toString_ofString] at this

/-! ### Items -/

/-- One item that takes some bytes, and then the others. -/
theorem items_append {item : Decoder α} {front s : Bytes} {a : α} (hne : front ≠ [])
    (h : item.Reads front s a) :
    items item (front ++ s) =
      match items item s with
      | (.error e, m) => (.error e, front.length + m)
      | (.ok as, m) => (.ok (a :: as), front.length + m) := by
  obtain ⟨x, xs, rfl⟩ := List.exists_cons_of_ne_nil hne
  unfold Reads at h
  rw [List.cons_append, List.length_cons] at h
  rw [List.cons_append, items, h]
  rcases hs : items item s with ⟨r, m⟩
  cases r with
  | error e => simp only [List.drop_left, List.length_cons, hs]
  | ok as => simp only [List.drop_left, List.length_cons, hs]

/-- **Items back to back are read until no bytes are left.** What is read of `x` is `g x`. -/
theorem reads_items {item : Decoder β} {bytes : α → Bytes} (g : α → β) {xs : List α}
    (h : ∀ x ∈ xs, bytes x ≠ [] ∧ ∀ rest, item.Reads (bytes x) rest (g x)) :
    Reads (items item) (xs.flatMap bytes) [] (xs.map g) := by
  unfold Reads
  rw [List.append_nil]
  induction xs with
  | nil => rw [List.flatMap_nil, items, List.map_nil, List.length_nil]
  | cons x xs ih =>
    obtain ⟨⟨hne, hx⟩, hxs⟩ := List.forall_mem_cons.1 h
    rw [List.flatMap_cons, items_append hne (hx _), ih hxs, List.length_append, List.map_cons]

/-- What fills a span is read from behind its byte count. -/
theorem Reads.counted {d : Decoder α} {payload : Bytes} {a : α} (h : d.Reads payload [] a)
    {p : LengthPrefix} (hp : payload.length ≤ p.maxLength) (rest : Bytes) :
    Reads (prefixed p >>= fun span => Decoder.within d span) (WireSchema.counted p payload)
      rest a := by
  have := (reads_prefixed hp ([] ++ rest)).bind (h.within rest)
  rwa [List.append_nil] at this

/-! ### Decoders of one width -/

/-- A decoder that takes exactly `n` bytes. If they are there, it can only fail at a byte that is no
member of its enum; if not, it fails. -/
structure Takes (d : Decoder α) (n : Nat) : Prop where
  enough : ∀ s : Bytes, n ≤ s.length → (∃ a, d s = (.ok a, n)) ∨
    ∃ name value k, d s = (.error (.invalidEnumValue name value), k)
  short : ∀ s : Bytes, s.length < n → ∃ e k, d s = (.error e, k)

theorem takes_pure (a : α) : Takes (pure a) 0 where
  enough _ _ := Or.inl ⟨a, rfl⟩
  short _ h := absurd h (Nat.not_lt_zero _)

theorem take_of_length_lt {n : Nat} {s : Bytes} (h : s.length < n) :
    take n s = (.error (.bufferUnderflow n s.length), 0) := by
  rw [take, if_neg fun hh => by have := holds_iff.1 hh; omega]

theorem take_of_le_length {n : Nat} {s : Bytes} (h : n ≤ s.length) :
    take n s = (.ok (s.take n), n) := by
  rw [take, if_pos (holds_iff.2 h)]

theorem takes_take (n : Nat) : (take n).Takes n where
  enough s h := Or.inl ⟨s.take n, take_of_le_length h⟩
  short _ h := ⟨_, _, take_of_length_lt h⟩

theorem takes_exactly (n : Nat) : (exactly n).Takes n where
  enough s h := Or.inl ⟨⟨s.take n, List.length_take_of_le h⟩, by
    rw [exactly, dif_pos (holds_iff.2 h)]⟩
  short s h := ⟨.bufferUnderflow n s.length, 0, by
    rw [exactly, dif_neg fun hh => by have := holds_iff.1 hh; omega]⟩

theorem Takes.bind {d : Decoder α} {f : α → Decoder β} {m n : Nat} (hd : d.Takes m)
    (hf : ∀ a, (f a).Takes n) : Takes (d >>= f) (m + n) where
  enough s h := by
    rcases hd.enough s (by omega) with ⟨a, ha⟩ | ⟨name, value, k, he⟩
    · rw [bind_of_ok ha]
      rcases (hf a).enough (s.drop m) (by rw [List.length_drop]; omega) with
        ⟨c, hc⟩ | ⟨name, value, k, he⟩
      · exact Or.inl ⟨c, by rw [hc]⟩
      · exact Or.inr ⟨name, value, m + k, by rw [he]⟩
    · exact Or.inr ⟨name, value, k, bind_of_error he⟩
  short s h := by
    by_cases hm : s.length < m
    · obtain ⟨e, k, he⟩ := hd.short s hm
      exact ⟨e, k, bind_of_error he⟩
    rcases hd.enough s (by omega) with ⟨a, ha⟩ | ⟨name, value, k, he⟩
    · obtain ⟨e, k, he⟩ := (hf a).short (s.drop m) (by rw [List.length_drop]; omega)
      exact ⟨e, m + k, by rw [bind_of_ok ha, he]⟩
    · exact ⟨_, k, bind_of_error he⟩

theorem Takes.map {d : Decoder α} {n : Nat} (f : α → β) (hd : d.Takes n) :
    Takes (do return f (← d)) n := hd.bind fun a => takes_pure (f a)

/-- A span of the width of a decoder holds what the decoder takes. -/
theorem Takes.span {d : Decoder α} {n : Nat} (hd : d.Takes n) :
    Takes (take n >>= fun span => within d span) n where
  enough s h := by
    rw [bind_of_ok (take_of_le_length h)]
    rcases hd.enough (s.take n) (by rw [List.length_take]; omega) with
      ⟨a, ha⟩ | ⟨name, value, k, he⟩
    · exact Or.inl ⟨a, by rw [within, ha]; rfl⟩
    · exact Or.inr ⟨name, value, n, by rw [within, he]; rfl⟩
  short _ h := ⟨_, _, bind_of_error (take_of_length_lt h)⟩

theorem takes_word (w : Nat) : (word w).Takes w := (takes_take w).map ofLittleEndian

theorem takes_scalar (k : ScalarKind) : (scalar k).Takes k.width :=
  (takes_word k.width).map k.ofWord

theorem takes_fixedText (n : Nat) : (fixedText n).Takes n :=
  (takes_take n).map fun b : Bytes => Utf8.toString (b.takeWhile (· != 0))

end WireSchema.Decoder
