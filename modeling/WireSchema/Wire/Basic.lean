/-! # Bytes on the wire

Byte strings, the widths of a length written in front of a payload, and what can go wrong when
messages are written and read. -/

namespace WireSchema

/-- A byte string. -/
abbrev Bytes := List UInt8

/-- What stops the writing or reading of a message. -/
inductive WireError where
  /-- More bytes are needed than are left. -/
  | bufferUnderflow (needed available : Nat)
  /-- A byte that is no member of an enum. -/
  | invalidEnumValue (name : String) (value : UInt8)
  /-- A payload longer than its length prefix can express. -/
  | lengthOverflow (length max : Nat)
  /-- An item of an array that took no bytes while some were left. -/
  | emptyItem (remaining : Nat)
  deriving DecidableEq

/-- The text of a wire error. -/
def WireError.message : WireError → String
  | .bufferUnderflow needed available =>
    s!"buffer underflow: needed {needed} bytes but only {available} remain"
  | .invalidEnumValue name value => s!"invalid value {value} for enum {name}"
  | .lengthOverflow length max => s!"length {length} exceeds the prefix maximum of {max}"
  | .emptyItem remaining => s!"array item consumed no bytes with {remaining} bytes left"

/-- The width of the unsigned byte count in front of a payload. -/
inductive LengthPrefix where
  | uint8
  | uint16
  | uint32
  | uint64
  deriving DecidableEq

namespace LengthPrefix

/-- The four widths, from narrow to wide. -/
def all : List LengthPrefix := [.uint8, .uint16, .uint32, .uint64]

/-- How many bytes the count itself takes. -/
def width : LengthPrefix → Nat
  | .uint8 => 1
  | .uint16 => 2
  | .uint32 => 4
  | .uint64 => 8

/-- The longest payload whose length the count can express. -/
def maxLength (p : LengthPrefix) : Nat := Nat.pow 256 p.width - 1

end LengthPrefix

/-! ### Words -/

/-- The `width` low bytes of `n`, the lowest first. -/
def littleEndian : (width : Nat) → (n : Nat) → Bytes
  | 0, _ => []
  | w + 1, n => UInt8.ofNat (n % 256) :: littleEndian w (n / 256)

/-- The number whose bytes, lowest first, are given. -/
def ofLittleEndian : Bytes → Nat
  | [] => 0
  | b :: bs => b.toNat + 256 * ofLittleEndian bs

end WireSchema
