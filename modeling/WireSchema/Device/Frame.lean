import WireSchema.Device.Message

/-! # Framed device messages

A message to a device is a header of 14 bytes, which says the length of the payload and the sum of
its bytes, and the payload behind it. -/

namespace WireSchema.Device

/-- The first two bytes of every message. -/
def magic : UInt16 := 0xB175

/-- The sum of the bytes, modulo 2 ^ 16. -/
def checksum (bytes : Bytes) : UInt16 := bytes.foldl (fun sum b => sum + b.toUInt16) 0

/-! ### Headers -/

/-- What stands before a payload. -/
structure Header where
  magic : UInt16
  version : UInt8
  commandId : UInt8
  payloadLength : UInt32
  sequenceId : UInt32
  checksum : UInt16
  deriving DecidableEq

namespace Header

/-- The size of a header. -/
def size : Nat := 14

/-- A header as a message. -/
def toValue (h : Header) : header.fields.Value :=
  (h.magic, h.version, h.commandId, h.payloadLength, h.sequenceId, h.checksum, ())

/-- The header that a message is. -/
def ofValue : header.fields.Value → Header
  | (m, v, c, l, s, k, ()) => ⟨m, v, c, l, s, k⟩

/-- The bytes of a header. -/
def serialize (build : Build) (h : Header) : Except Stop Bytes :=
  header.fields.serialize build h.toValue

/-- Reads a header. -/
def ofBytes (data : Bytes) : Except WireError Header :=
  match header.fields.ofBytes data with
  | .error e => .error e
  | .ok v => .ok (ofValue v)

end Header

/-! ### Frames -/

/-- A payload with its header in front. -/
def frame (build : Build) (commandId : UInt8) (sequenceId : UInt32) (fs : Fields)
    (payload : fs.Value) : Except Stop Bytes :=
  match fs.serialize build payload with
  | .error e => .error e
  | .ok body =>
    let header : Header :=
      ⟨magic, 1, commandId, UInt32.ofNat body.length, sequenceId, checksum body⟩
    match header.serialize build with
    | .error e => .error e
    | .ok front => .ok (front ++ body)

/-- The header of a framed message, and the bytes of its payload. -/
def unframe (message : Bytes) : Except WireError (Header × Bytes) :=
  if message.length < Header.size then .error (.bufferUnderflow Header.size message.length)
  else
    match Header.ofBytes (message.take Header.size) with
    | .error e => .error e
    | .ok header =>
      let body := message.drop Header.size
      let length := header.payloadLength.toNat
      if body.length < length then .error (.bufferUnderflow length body.length)
      else .ok (header, body.take length)

/-- Unframes a message in a buffer. Only the header and the payload are copied, so that the size of
what stands behind them does not matter. -/
def unframeBuffer (message : ByteArray) : Except WireError (Header × Bytes) :=
  if message.size < Header.size then .error (.bufferUnderflow Header.size message.size)
  else
    match Header.ofBytes (message.extract 0 Header.size).data.toList with
    | .error e => .error e
    | .ok header =>
      let available := message.size - Header.size
      let length := header.payloadLength.toNat
      if available < length then .error (.bufferUnderflow length available)
      else .ok (header, (message.extract Header.size (Header.size + length)).data.toList)

theorem unframeBuffer_eq (message : ByteArray) :
    unframeBuffer message = unframe message.data.toList := by
  simp only [unframeBuffer, unframe, ByteArray.data_extract, Array.toList_extract,
    List.extract_eq_take_drop, List.drop_zero, Nat.sub_zero, Nat.add_sub_cancel_left,
    List.length_drop, Array.length_toList, ByteArray.size_data]

end WireSchema.Device
