import WireSchema.Wire.Scalar
import Mathlib.Tactic.Ring

/-! # Words and scalars read back

A word of `w` bytes holds every number below `256 ^ w`, so that `ofLittleEndian` undoes
`littleEndian` there. Every scalar goes through such a word: `toWord` stays below the bound of its
width, and `ofWord` undoes it. -/

namespace WireSchema

/-! ### Little-endian words -/

@[simp] theorem length_littleEndian (w n : Nat) : (littleEndian w n).length = w := by
  induction w generalizing n with
  | zero => rfl
  | succ w ih => rw [littleEndian, List.length_cons, ih]

/-- Only the low bytes of a number are kept. -/
theorem ofLittleEndian_littleEndian (w n : Nat) :
    ofLittleEndian (littleEndian w n) = n % 256 ^ w := by
  induction w generalizing n with
  | zero => rw [littleEndian, ofLittleEndian, pow_zero, Nat.mod_one]
  | succ w ih =>
    have hb : (UInt8.ofNat (n % 256)).toNat = n % 256 := by simp
    rw [littleEndian, ofLittleEndian, ih, hb, pow_succ, Nat.mul_comm (256 ^ w), Nat.mod_mul]

theorem ofLittleEndian_littleEndian_of_lt {w n : Nat} (h : n < 256 ^ w) :
    ofLittleEndian (littleEndian w n) = n := by
  rw [ofLittleEndian_littleEndian, Nat.mod_eq_of_lt h]

/-- Bytes are those of the number that they stand for. -/
theorem littleEndian_ofLittleEndian (b : Bytes) : littleEndian b.length (ofLittleEndian b) = b := by
  induction b with
  | nil => rfl
  | cons x b ih =>
    have hx := x.toNat_lt
    have hlow : (x.toNat + 256 * ofLittleEndian b) % 256 = x.toNat := by omega
    have hhigh : (x.toNat + 256 * ofLittleEndian b) / 256 = ofLittleEndian b := by omega
    rw [List.length_cons, ofLittleEndian, littleEndian, hlow, hhigh, ih, UInt8.ofNat_toNat]

theorem ofLittleEndian_lt (b : Bytes) : ofLittleEndian b < 256 ^ b.length := by
  induction b with
  | nil => exact Nat.one_pos
  | cons x b ih =>
    have hx := x.toNat_lt
    rw [ofLittleEndian, List.length_cons, pow_succ]
    omega

namespace LengthPrefix

theorem le_maxLength_of_lt {p : LengthPrefix} {n : Nat} (h : n < 256 ^ p.width) :
    n ≤ p.maxLength := by
  rw [maxLength, Nat.pow_eq]
  omega

theorem lt_of_le_maxLength {p : LengthPrefix} {n : Nat} (h : n ≤ p.maxLength) :
    n < 256 ^ p.width := by
  have hp : 0 < 256 ^ p.width := Nat.pow_pos (by decide)
  rw [maxLength, Nat.pow_eq] at h
  omega

end LengthPrefix

/-! ### Scalars -/

namespace ScalarKind

theorem width_pos (k : ScalarKind) : 0 < k.width := by
  cases k <;> decide

theorem toWord_lt (k : ScalarKind) (v : k.Value) : k.toWord v < 256 ^ k.width := by
  cases k with
  | uint8 => exact UInt8.toNat_lt v
  | uint16 => exact UInt16.toNat_lt v
  | uint32 => exact UInt32.toNat_lt v
  | float32 => exact UInt32.toNat_lt v
  | uint64 => exact UInt64.toNat_lt v
  | float64 => exact UInt64.toNat_lt v
  | int8 => exact UInt8.toNat_lt (Int8.toUInt8 v)
  | int16 => exact UInt16.toNat_lt (Int16.toUInt16 v)
  | int32 => exact UInt32.toNat_lt (Int32.toUInt32 v)
  | int64 => exact UInt64.toNat_lt (Int64.toUInt64 v)
  | bool => cases v <;> decide

/-- **A scalar is the one its word stands for.** -/
theorem ofWord_toWord (k : ScalarKind) (v : k.Value) : k.ofWord (k.toWord v) = v := by
  cases k with
  | uint8 => exact UInt8.ofNat_toNat
  | uint16 => exact UInt16.ofNat_toNat
  | uint32 => exact UInt32.ofNat_toNat
  | float32 => exact UInt32.ofNat_toNat
  | uint64 => exact UInt64.ofNat_toNat
  | float64 => exact UInt64.ofNat_toNat
  | int8 => exact (congrArg UInt8.toInt8 UInt8.ofNat_toNat).trans (Int8.toInt8_toUInt8 v)
  | int16 => exact (congrArg UInt16.toInt16 UInt16.ofNat_toNat).trans (Int16.toInt16_toUInt16 v)
  | int32 => exact (congrArg UInt32.toInt32 UInt32.ofNat_toNat).trans (Int32.toInt32_toUInt32 v)
  | int64 => exact (congrArg UInt64.toInt64 UInt64.ofNat_toNat).trans (Int64.toInt64_toUInt64 v)
  | bool => cases v <;> rfl

/-- A number is the word of the scalar it stands for; as a boolean it is only true or false. -/
theorem toWord_ofWord {k : ScalarKind} (hk : k ≠ .bool) {n : Nat} (h : n < 256 ^ k.width) :
    k.toWord (k.ofWord n) = n := by
  cases k with
  | uint8 => exact UInt8.toNat_ofNat_of_lt h
  | uint16 => exact UInt16.toNat_ofNat_of_lt h
  | uint32 => exact UInt32.toNat_ofNat_of_lt h
  | float32 => exact UInt32.toNat_ofNat_of_lt h
  | uint64 => exact UInt64.toNat_ofNat_of_lt h
  | float64 => exact UInt64.toNat_ofNat_of_lt h
  | int8 => exact UInt8.toNat_ofNat_of_lt h
  | int16 => exact UInt16.toNat_ofNat_of_lt h
  | int32 => exact UInt32.toNat_ofNat_of_lt h
  | int64 => exact UInt64.toNat_ofNat_of_lt h
  | bool => exact absurd rfl hk

/-- Any bytes of the width of a number are those of the number that is read from them. -/
theorem encode_ofWord {k : ScalarKind} (hk : k ≠ .bool) {b : Bytes} (hb : b.length = k.width) :
    k.encode (k.ofWord (ofLittleEndian b)) = b := by
  have hlt : ofLittleEndian b < 256 ^ k.width := hb ▸ ofLittleEndian_lt b
  rw [encode, toWord_ofWord hk hlt, ← hb, littleEndian_ofLittleEndian]

@[simp] theorem length_encode (k : ScalarKind) (v : k.Value) : (k.encode v).length = k.width :=
  length_littleEndian _ _

end ScalarKind

end WireSchema
