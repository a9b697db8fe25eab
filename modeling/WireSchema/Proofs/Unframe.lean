import WireSchema.Proofs.Frame
import WireSchema.Proofs.ReadRun

/-! # Unframing any bytes

The fields of a header are numbers that fill its 14 bytes, so that any 14 bytes are those of a
header (`Header.exists_of_length`). Hence unframing fails only for want of bytes: of the header, or
of as many behind it as the header says. What it gives are these bytes again, whatever stands
behind them (`unframe_exact`). -/

namespace WireSchema.Device

namespace Header

/-- The header that stands in 14 bytes. -/
def ofSlices (b : Bytes) : Header where
  magic := UInt16.ofNat (ofLittleEndian (slice b 0 2))
  version := UInt8.ofNat (ofLittleEndian (slice b 2 3))
  commandId := UInt8.ofNat (ofLittleEndian (slice b 3 4))
  payloadLength := UInt32.ofNat (ofLittleEndian (slice b 4 8))
  sequenceId := UInt32.ofNat (ofLittleEndian (slice b 8 12))
  checksum := UInt16.ofNat (ofLittleEndian (slice b 12 14))

/-- The bytes of a header are those of its fields one after another. -/
theorem serialize_eq (build : Build) (h : Header) :
    h.serialize build = .ok (ScalarKind.encode .uint16 h.magic ++
      (ScalarKind.encode .uint8 h.version ++ (ScalarKind.encode .uint8 h.commandId ++
        (ScalarKind.encode .uint32 h.payloadLength ++ (ScalarKind.encode .uint32 h.sequenceId ++
          (ScalarKind.encode .uint16 h.checksum ++ [])))))) :=
  (header.fields.settled_serialize build h.toValue).eq_ok
    (List.forall_mem_singleton.2 (by decide))

/-- **Any 14 bytes are those of a header,** and its length stands at index 4. -/
theorem exists_of_length {front : Bytes} (hlen : front.length = size) :
    ∃ h : Header, (∀ build, h.serialize build = .ok front) ∧
      h.payloadLength.toNat = ofLittleEndian (slice front 4 8) := by
  have hsize : front.length = 14 := hlen
  -- the bytes of a field of `k` are the slice that it was read from
  have hfield : ∀ (k : ScalarKind) (i j : Nat), k ≠ .bool → j ≤ 14 → j - i = k.width →
      k.encode (k.ofWord (ofLittleEndian (slice front i j))) = slice front i j := by
    intro k i j hk hj hw
    exact ScalarKind.encode_ofWord hk ((length_slice (by omega)).trans hw)
  have hslices : slice front 0 2 ++ (slice front 2 3 ++ (slice front 3 4 ++
      (slice front 4 8 ++ (slice front 8 12 ++ (slice front 12 14 ++ []))))) = front := by
    have hall : slice front 0 14 = front := by
      rw [slice, List.drop_zero, List.take_of_length_le hsize.le]
    rw [List.append_nil, slice_append, slice_append, slice_append, slice_append, slice_append, hall]
    all_goals decide
  refine ⟨ofSlices front, fun build => ?_, ?_⟩
  · rw [serialize_eq]
    refine congrArg Except.ok (Eq.trans ?_ hslices)
    have hmagic := hfield .uint16 0 2 (by decide) (by decide) rfl
    have hversion := hfield .uint8 2 3 (by decide) (by decide) rfl
    have hcommand := hfield .uint8 3 4 (by decide) (by decide) rfl
    have hlength := hfield .uint32 4 8 (by decide) (by decide) rfl
    have hsequence := hfield .uint32 8 12 (by decide) (by decide) rfl
    have hchecksum := hfield .uint16 12 14 (by decide) (by decide) rfl
    rw [← hmagic, ← hversion, ← hcommand, ← hlength, ← hsequence, ← hchecksum]
    rfl
  · have hlt := ofLittleEndian_lt (slice front 4 8)
    rw [length_slice (by omega)] at hlt
    exact UInt32.toNat_ofNat_of_lt hlt

end Header

/-! ### Messages -/

/-- Behind a header, unframing fails if there are fewer bytes than the header says. -/
theorem unframe_append_of_lt {build : Build} {h : Header} {front s : Bytes}
    (hfront : h.serialize build = .ok front) (hs : s.length < h.payloadLength.toNat) :
    unframe (front ++ s) = .error (.bufferUnderflow h.payloadLength.toNat s.length) := by
  obtain ⟨front', hfront', hlen, hread⟩ := h.exists_serialize
  cases hfront.symm.trans (hfront' build)
  have hlong : ¬ (front ++ s).length < Header.size := by
    rw [List.length_append, hlen]
    omega
  rw [unframe, if_neg hlong, ← hlen, List.take_left, hread, List.drop_left]
  exact if_pos hs

/-- **All that unframing can do:** the header is cut, the payload is cut, or both are there. -/
theorem unframe_cases (m : Bytes) :
    (m.length < 14 ∧ unframe m = .error (.bufferUnderflow 14 m.length)) ∨
    (14 ≤ m.length ∧ m.length < 14 + ofLittleEndian (slice m 4 8) ∧
      unframe m = .error (.bufferUnderflow (ofLittleEndian (slice m 4 8)) (m.length - 14))) ∨
    ∃ (h : Header) (front body rest : Bytes), m = front ++ (body ++ rest) ∧ front.length = 14 ∧
      body.length = ofLittleEndian (slice m 4 8) ∧ (∀ build, h.serialize build = .ok front) ∧
      ∀ x, unframe (m ++ x) = .ok (h, body) := by
  by_cases hsize : m.length < 14
  · exact .inl ⟨hsize, if_pos hsize⟩
  have hfront : (m.take 14).length = 14 := List.length_take_of_le (by omega)
  have hdrop : (m.drop 14).length = m.length - 14 := List.length_drop
  obtain ⟨h, hserialize, hlen⟩ := Header.exists_of_length hfront
  have hslice : slice (m.take 14) 4 8 = slice m 4 8 := by
    rw [slice, slice, List.take_take]
    rfl
  rw [hslice] at hlen
  right
  by_cases hbody : m.length - 14 < ofLittleEndian (slice m 4 8)
  · left
    have hfail := unframe_append_of_lt (hserialize .checked) (s := m.drop 14) (by omega)
    rw [List.take_append_drop, hlen, hdrop] at hfail
    exact ⟨by omega, by omega, hfail⟩
  · right
    refine ⟨h, m.take 14, (m.drop 14).take (ofLittleEndian (slice m 4 8)),
      (m.drop 14).drop (ofLittleEndian (slice m 4 8)), ?_, hfront, ?_, hserialize, fun x => ?_⟩
    · rw [List.take_append_drop, List.take_append_drop]
    · rw [List.length_take]
      omega
    · have hread := unframe_append (hserialize .checked) (s := m.drop 14 ++ x)
        (by rw [List.length_append]; omega)
      rwa [← List.append_assoc, List.take_append_drop, hlen,
        List.take_append_of_le_length (by omega)] at hread

/-- **Unframing is exact on any bytes.** It succeeds exactly if there are 14 bytes and behind them
as many as the number at index 4 says. It then gives a header whose bytes, with the payload behind
them, are the first bytes of the message, and does so whatever stands behind the message. If it
fails, its error tells how many bytes are missing: of the header, or of the payload. -/
theorem unframe_exact (m : Bytes) :
    ((∃ r, unframe m = .ok r) ↔ 14 ≤ m.length ∧ 14 + ofLittleEndian (slice m 4 8) ≤ m.length) ∧
    (∀ h body, unframe m = .ok (h, body) →
      (∃ front, (∀ build, h.serialize build = .ok front) ∧
        front ++ body = m.take (14 + ofLittleEndian (slice m 4 8))) ∧
      ∀ x, unframe (m ++ x) = .ok (h, body)) ∧
    ∀ e, unframe m = .error e →
      (m.length < 14 ∧ e = .bufferUnderflow 14 m.length) ∨
      (14 ≤ m.length ∧ m.length < 14 + ofLittleEndian (slice m 4 8) ∧
        e = .bufferUnderflow (ofLittleEndian (slice m 4 8)) (m.length - 14)) := by
  rcases unframe_cases m with ⟨hlt, herr⟩ | ⟨hle, hlt, herr⟩ |
    ⟨h, front, body, rest, hm, hfront, hbody, hserialize, hok⟩
  · rw [herr]
    refine ⟨⟨fun ⟨r, hr⟩ => (by cases hr), fun hle => by omega⟩, fun h body hr => (by cases hr),
      fun e he => ?_⟩
    cases he
    exact .inl ⟨hlt, rfl⟩
  · rw [herr]
    refine ⟨⟨fun ⟨r, hr⟩ => (by cases hr), fun hlong => by omega⟩, fun h body hr => (by cases hr),
      fun e he => ?_⟩
    cases he
    exact .inr ⟨hle, hlt, rfl⟩
  · have hthis := hok []
    rw [List.append_nil] at hthis
    have hlength : m.length = 14 + (body.length + rest.length) := by
      rw [hm, List.length_append, List.length_append, hfront]
    rw [hthis]
    refine ⟨⟨fun _ => by omega, fun _ => ⟨_, rfl⟩⟩, fun h' body' hr => ?_,
      fun e he => (by cases he)⟩
    cases hr
    refine ⟨⟨front, hserialize, ?_⟩, hok⟩
    rw [← hbody, ← hfront, ← List.length_append]
    rw [hm, ← List.append_assoc, List.take_left]

/-- A header that says two bytes, these two, and one more. Without the last two bytes of the three
one is missing. -/
theorem unframe_exact_twoBytes :
    let m : Bytes := [0x75, 0xB1, 1, 3, 2, 0, 0, 0, 7, 0, 0, 0, 3, 2, 8, 9, 5]
    let h : Header := ⟨magic, 1, 3, 2, 7, 515⟩
    unframe m = .ok (h, [8, 9]) ∧
      (∃ front, (∀ build, h.serialize build = .ok front) ∧
        front ++ [8, 9] = m.take (14 + ofLittleEndian (slice m 4 8))) ∧
      unframe (m ++ [6]) = .ok (h, [8, 9]) ∧
      unframe (m.take 15) = .error (.bufferUnderflow 2 1) ∧
      ¬ ∃ r, unframe (m.take 15) = .ok r := by
  intro m h
  have hok : unframe m = .ok (h, [8, 9]) := by decide +kernel
  have herr : unframe (m.take 15) = .error (.bufferUnderflow 2 1) := by decide +kernel
  obtain ⟨hfront, hmore⟩ := (unframe_exact m).2.1 h [8, 9] hok
  refine ⟨hok, hfront, hmore [6], herr, fun hr => ?_⟩
  exact absurd ((unframe_exact (m.take 15)).1.1 hr).2 (by decide +kernel)

end WireSchema.Device
