import WireSchema.Wire.Basic

/-! # Scalars

The eleven kinds of fixed-width values. Each is written as one little-endian word; a floating-point
number is its bit pattern, and a boolean is the byte 0 or 1. -/

namespace WireSchema

/-- The kinds of values with a width of their own. -/
inductive ScalarKind where
  | uint8
  | uint16
  | uint32
  | uint64
  | int8
  | int16
  | int32
  | int64
  | float32
  | float64
  | bool
  deriving DecidableEq

namespace ScalarKind

/-- How many bytes a value takes. -/
def width : ScalarKind → Nat
  | .uint8 | .int8 | .bool => 1
  | .uint16 | .int16 => 2
  | .uint32 | .int32 | .float32 => 4
  | .uint64 | .int64 | .float64 => 8

/-- The values of a kind; a float is given by its bit pattern. -/
def Value : ScalarKind → Type
  | .uint8 => UInt8
  | .uint16 => UInt16
  | .uint32 => UInt32
  | .uint64 => UInt64
  | .int8 => Int8
  | .int16 => Int16
  | .int32 => Int32
  | .int64 => Int64
  | .float32 => UInt32
  | .float64 => UInt64
  | .bool => Bool

instance (k : ScalarKind) : DecidableEq k.Value :=
  match k with
  | .uint8 => inferInstanceAs (DecidableEq UInt8)
  | .uint16 => inferInstanceAs (DecidableEq UInt16)
  | .uint32 | .float32 => inferInstanceAs (DecidableEq UInt32)
  | .uint64 | .float64 => inferInstanceAs (DecidableEq UInt64)
  | .int8 => inferInstanceAs (DecidableEq Int8)
  | .int16 => inferInstanceAs (DecidableEq Int16)
  | .int32 => inferInstanceAs (DecidableEq Int32)
  | .int64 => inferInstanceAs (DecidableEq Int64)
  | .bool => inferInstanceAs (DecidableEq Bool)

/-- The word that stands for a value. -/
def toWord : (k : ScalarKind) → k.Value → Nat
  | .uint8, v => UInt8.toNat v
  | .uint16, v => UInt16.toNat v
  | .uint32, v => UInt32.toNat v
  | .uint64, v => UInt64.toNat v
  | .int8, v => (Int8.toUInt8 v).toNat
  | .int16, v => (Int16.toUInt16 v).toNat
  | .int32, v => (Int32.toUInt32 v).toNat
  | .int64, v => (Int64.toUInt64 v).toNat
  | .float32, v => UInt32.toNat v
  | .float64, v => UInt64.toNat v
  | .bool, v => Bool.toNat v

/-- The value that a word stands for. Every word but 0 is true as a boolean. -/
def ofWord : (k : ScalarKind) → Nat → k.Value
  | .uint8, n => UInt8.ofNat n
  | .uint16, n => UInt16.ofNat n
  | .uint32, n => UInt32.ofNat n
  | .uint64, n => UInt64.ofNat n
  | .int8, n => (UInt8.ofNat n).toInt8
  | .int16, n => (UInt16.ofNat n).toInt16
  | .int32, n => (UInt32.ofNat n).toInt32
  | .int64, n => (UInt64.ofNat n).toInt64
  | .float32, n => UInt32.ofNat n
  | .float64, n => UInt64.ofNat n
  | .bool, n => n != 0

/-- The bytes of a value. -/
def encode (k : ScalarKind) (v : k.Value) : Bytes := littleEndian k.width (k.toWord v)

end ScalarKind

end WireSchema
