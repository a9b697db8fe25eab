import Mathlib.Algebra.BigOperators.Group.List.Basic
import WireSchema.Device.Frame
import WireSchema.Proofs.Shape

/-! # What a frame keeps

A header has room for a length of 32 bits. A frame keeps its payload, and its header is true of it,
exactly if the payload is shorter than 2 ^ 32 bytes (`unframe_frame`). A longer one is framed all
the same, with its length taken modulo 2 ^ 32; of a payload of exactly 2 ^ 32 bytes nothing is left
(`unframe_frame_wraps`). -/

namespace WireSchema.Device

/-! ### Checksums -/

/-- The sum of the bytes as numbers. -/
def byteSum (bytes : Bytes) : Nat := (bytes.map UInt8.toNat).sum

theorem toNat_foldl_add (bytes : Bytes) (start : UInt16) :
    (bytes.foldl (fun sum b => sum + b.toUInt16) start).toNat =
      (start.toNat + byteSum bytes) % 2 ^ 16 := by
  induction bytes generalizing start with
  | nil => exact (Nat.mod_eq_of_lt start.toNat_lt).symm
  | cons b bytes ih =>
    rw [List.foldl_cons, ih, UInt16.toNat_add, UInt8.toNat_toUInt16, Nat.mod_add_mod, byteSum,
      byteSum, List.map_cons, List.sum_cons, Nat.add_assoc]

/-- The checksum is the sum of the bytes modulo 2 ^ 16. -/
theorem toNat_checksum (bytes : Bytes) : (checksum bytes).toNat = byteSum bytes % 2 ^ 16 := by
  rw [checksum, toNat_foldl_add, UInt16.toNat_zero, Nat.zero_add]

/-! ### Headers -/

namespace Header

/-- The header that is put in front of a payload. -/
def ofBody (commandId : UInt8) (sequenceId : UInt32) (body : Bytes) : Header :=
  ⟨Device.magic, 1, commandId, UInt32.ofNat body.length, sequenceId, Device.checksum body⟩

/-- A header has its 14 bytes, the same in every build, and reads back from them. -/
theorem exists_serialize (h : Header) :
    ∃ front, (∀ build, h.serialize build = .ok front) ∧ front.length = size ∧
      ofBytes front = .ok h := by
  have hw : header.fields.WellFormed := by
    simp [header, Fields.ofList, Fields.WellFormed, Shape.WellFormed, Shape.takesRest]
  have hv : header.fields.Fits h.toValue := by
    simp [header, Fields.ofList, Header.toValue, Fields.Fits, Shape.Fits]
  obtain ⟨front, hlen, hfront⟩ :=
    Fields.exists_serialize hw (n := size) rfl (by decide) h.toValue
  refine ⟨front, hfront, hlen, ?_⟩
  have hread := (Fields.reads_serialize .checked hw (fun hb => by cases hb) (hfront .checked) []
    fun _ => rfl).2
  rw [Decoder.Reads, List.append_nil, header.fields.reread_of_fits _ hv] at hread
  rw [ofBytes, Fields.ofBytes, hread]
  rfl

end Header

/-! ### Frames -/

section Frames

variable {build : Build} {commandId : UInt8} {sequenceId : UInt32} {fs : Fields}
  {payload : fs.Value} {message : Bytes}

/-- A payload that can be written can be framed. -/
theorem exists_frame (commandId : UInt8) (sequenceId : UInt32) {body : Bytes}
    (h : fs.serialize build payload = .ok body) :
    ∃ front, (Header.ofBody commandId sequenceId body).serialize build = .ok front ∧
      frame build commandId sequenceId fs payload = .ok (front ++ body) := by
  obtain ⟨front, hfront, -, -⟩ := (Header.ofBody commandId sequenceId body).exists_serialize
  refine ⟨front, hfront build, ?_⟩
  rw [Header.ofBody] at hfront
  simp only [frame, h, hfront build]

/-- What is framed is a payload behind its header. -/
theorem eq_append_of_frame (h : frame build commandId sequenceId fs payload = .ok message) :
    ∃ body front, fs.serialize build payload = .ok body ∧
      (Header.ofBody commandId sequenceId body).serialize build = .ok front ∧
      message = front ++ body := by
  cases hbody : fs.serialize build payload with
  | error e =>
    rw [frame, hbody] at h
    cases h
  | ok body =>
    obtain ⟨front, hfront, hframe⟩ := exists_frame commandId sequenceId hbody
    exact ⟨body, front, rfl, hfront, Except.ok.inj (h.symm.trans hframe)⟩

/-- Behind a header, unframing gives as many bytes as the header says. -/
theorem unframe_append {h : Header} {front s : Bytes} (hfront : h.serialize build = .ok front)
    (hs : h.payloadLength.toNat ≤ s.length) :
    unframe (front ++ s) = .ok (h, s.take h.payloadLength.toNat) := by
  obtain ⟨front', hfront', hlen, hread⟩ := h.exists_serialize
  cases hfront.symm.trans (hfront' build)
  have hlong : ¬ (front ++ s).length < Header.size := by
    rw [List.length_append, hlen]
    omega
  rw [unframe, if_neg hlong, ← hlen, List.take_left, hread, List.drop_left]
  exact if_neg (Nat.not_lt.2 hs)

/-- A header is true of a payload, with the length `n` for it. -/
structure Header.Tells (h : Header) (commandId : UInt8) (sequenceId : UInt32) (body : Bytes)
    (n : Nat) : Prop where
  magic : h.magic = Device.magic
  version : h.version = 1
  commandId : h.commandId = commandId
  payloadLength : h.payloadLength.toNat = n
  sequenceId : h.sequenceId = sequenceId
  checksum : h.checksum.toNat = byteSum body % 2 ^ 16

theorem Header.tells_ofBody (commandId : UInt8) (sequenceId : UInt32) (body : Bytes) :
    (ofBody commandId sequenceId body).Tells commandId sequenceId body (body.length % 2 ^ 32) where
  magic := rfl
  version := rfl
  commandId := rfl
  payloadLength := UInt32.toNat_ofNat'
  sequenceId := rfl
  checksum := toNat_checksum body

/-- **A frame keeps its payload exactly if the payload is shorter than 2 ^ 32 bytes.** In any case
the frame is unframed, with the length modulo 2 ^ 32 and that many bytes of the payload. -/
theorem unframe_frame (h : frame build commandId sequenceId fs payload = .ok message)
    (rest : Bytes) :
    ∃ body header b, fs.serialize build payload = .ok body ∧
      unframe (message ++ rest) = .ok (header, b) ∧
      header.Tells commandId sequenceId body (body.length % 2 ^ 32) ∧
      b = body.take (body.length % 2 ^ 32) ∧
      (header.Tells commandId sequenceId body body.length ∧ b = body ↔ body.length < 2 ^ 32) := by
  obtain ⟨body, front, hbody, hfront, rfl⟩ := eq_append_of_frame h
  have htells := Header.tells_ofBody commandId sequenceId body
  have hlen := htells.payloadLength
  have hle : body.length % 2 ^ 32 ≤ body.length := Nat.mod_le _ _
  refine ⟨body, _, _, hbody, ?_, htells, rfl, ?_⟩
  · rw [List.append_assoc, unframe_append hfront, hlen, List.take_append_of_le_length hle]
    rw [hlen, List.length_append]
    omega
  · constructor
    · rintro ⟨htrue, -⟩
      rw [← htrue.payloadLength]
      exact UInt32.toNat_lt _
    · intro hshort
      rw [Nat.mod_eq_of_lt hshort] at htells ⊢
      exact ⟨htells, List.take_length⟩

/-- A message of two bytes of data, with two bytes behind it. -/
theorem unframe_frame_sendData :
    let payload : sendDataCommand.fields.Value :=
      ((1 : UInt8), (2 : UInt8), ([255, 255] : Bytes), ())
    let message : Bytes :=
      [0x75, 0xB1, 1, 3, 6, 0, 0, 0, 7, 0, 0, 0, 3, 2, 1, 2, 2, 0, 255, 255]
    frame .checked 3 7 sendDataCommand.fields payload = .ok message ∧
      ∃ body header b, sendDataCommand.fields.serialize .checked payload = .ok body ∧
        unframe (message ++ [9, 9]) = .ok (header, b) ∧
        header.Tells 3 7 body (body.length % 2 ^ 32) ∧ b = body.take (body.length % 2 ^ 32) ∧
        (header.Tells 3 7 body body.length ∧ b = body ↔ body.length < 2 ^ 32) := by
  intro payload message
  have hframe : frame .checked 3 7 sendDataCommand.fields payload = .ok message := by
    decide +kernel
  exact ⟨hframe, unframe_frame hframe [9, 9]⟩

end Frames

/-! ### A payload whose length wraps to 0 -/

/-- A repeated byte string may as well begin in its middle. -/
theorem append_flatten_replicate (n : Nat) (front back : Bytes) :
    front ++ (List.replicate n (back ++ front)).flatten ++ back =
      (List.replicate (n + 1) (front ++ back)).flatten := by
  induction n with
  | zero => simp
  | succ n ih =>
    rw [List.replicate_succ (n := n + 1), List.flatten_cons, ← ih, List.replicate_succ,
      List.flatten_cons]
    simp only [List.append_assoc]

/-- A part of a firmware image. -/
def chunk (offset : UInt32) (data : Bytes) : firmwareChunk.fields.Value := (offset, data, ())

theorem serialize_chunk (build : Build) (offset : UInt32) (data : Bytes) :
    firmwareChunk.fields.serialize build (chunk offset data) =
      .ok (ScalarKind.encode .uint32 offset ++ data) := by
  have hwrite := firmwareChunk.fields.settled_serialize build (chunk offset data)
  have hbytes : firmwareChunk.fields.bytes (chunk offset data) =
      ScalarKind.encode .uint32 offset ++ (data ++ []) := rfl
  rw [hwrite.eq_ok fun d hd => absurd hd List.not_mem_nil, hbytes, List.append_nil]

/-- A header of an empty payload. -/
def emptyHeader : Header := ⟨magic, 1, 0x20, 0, 0, 0⟩

/-- The bytes of that header. -/
def emptyFront : Bytes := [0x75, 0xB1, 1, 0x20, 0, 0, 0, 0, 0, 0, 0, 0, 0, 0]

/-- A payload in which that header stands again and again. -/
def headers (n : Nat) : Bytes := (List.replicate n ([0, 0] ++ emptyFront)).flatten

theorem headers_succ (n : Nat) : headers (n + 1) = [0, 0] ++ emptyFront ++ headers n := by
  rw [headers, List.replicate_succ, List.flatten_cons, headers]

theorem length_headers (n : Nat) : (headers n).length = n * 16 := by
  rw [headers, List.length_flatten, List.map_replicate, List.sum_replicate_nat]
  rfl

theorem byteSum_headers (n : Nat) : byteSum (headers n) = n * 327 := by
  rw [byteSum, headers, List.map_flatten, List.map_replicate, List.sum_flatten,
    List.map_replicate, List.sum_replicate_nat]
  rfl

/-- At 2 ^ 32 bytes, length and checksum are those of an empty payload. -/
theorem ofBody_headers : Header.ofBody 0x20 0 (headers (2 ^ 28)) = emptyHeader := by
  have hsum : checksum (headers (2 ^ 28)) = 0 := by
    rw [← UInt16.toNat_inj, toNat_checksum, byteSum_headers]
    rfl
  rw [Header.ofBody, hsum, length_headers]
  rfl

/-- **A payload of 2 ^ 32 bytes is lost.** It is framed without an error, and unframed as an empty
one: its header is not true of it. -/
theorem unframe_frame_wraps :
    ∃ data message : Bytes, ∀ build,
      firmwareChunk.fields.serialize build (chunk 0xB1750000 data) = .ok (headers (2 ^ 28)) ∧
      frame build 0x20 0 firmwareChunk.fields (chunk 0xB1750000 data) = .ok message ∧
      message ++ [0, 0] = (List.replicate (2 ^ 28 + 1) (emptyFront ++ [0, 0])).flatten ∧
      unframe (message ++ [0, 0]) = .ok (emptyHeader, []) ∧
      ¬ (emptyHeader.Tells 0x20 0 (headers (2 ^ 28)) (headers (2 ^ 28)).length ∧
        [] = headers (2 ^ 28)) := by
  -- The number of headers stays a variable wherever their list would be computed.
  obtain ⟨n, hn⟩ : ∃ n, 2 ^ 28 = n + 1 := ⟨2 ^ 28 - 1, rfl⟩
  have hempty : ∀ build, emptyHeader.serialize build = .ok emptyFront := by
    intro build
    cases build with
    | checked => decide +kernel
    | wrapping => decide +kernel
  refine ⟨emptyFront.drop 2 ++ headers n, emptyFront ++ headers (2 ^ 28), fun build => ?_⟩
  have hbody : firmwareChunk.fields.serialize build
      (chunk 0xB1750000 (emptyFront.drop 2 ++ headers n)) = .ok (headers (2 ^ 28)) := by
    rw [serialize_chunk, hn, headers_succ]
    rfl
  obtain ⟨front, hfront, hframe⟩ := exists_frame 0x20 0 hbody
  rw [ofBody_headers] at hfront
  cases hfront.symm.trans (hempty build)
  refine ⟨hbody, hframe, append_flatten_replicate _ _ _, ?_, ?_⟩
  · rw [List.append_assoc, unframe_append (hempty build) (Nat.zero_le _)]
    rfl
  · rintro ⟨htrue, -⟩
    have hlen := htrue.payloadLength
    rw [length_headers] at hlen
    cases hlen

end WireSchema.Device
