import WireSchema.Codec.Field
import WireSchema.Wire.Decoder
import WireSchema.Wire.Writer

/-! # Messages of a model

A shape says how a value is written, with the models that it holds spelled out. Each shape has its
type of values: `write` writes a value, and `decode` reads one. -/

namespace WireSchema

mutual

/-- How a value is written. -/
inductive Shape where
  | scalar (kind : ScalarKind)
  | fixedText (size : Nat)
  | fixedBytes (size : Nat)
  | prefixedText (lengthPrefix : LengthPrefix)
  | prefixedBytes (lengthPrefix : LengthPrefix)
  | restText
  | restBytes
  /-- An enum, with the values of its members. -/
  | choice (name : String) (values : List UInt8)
  /-- A model whose messages all have the same size. -/
  | nested (size : Nat) (fields : Fields)
  | prefixedNested (lengthPrefix : LengthPrefix) (fields : Fields)
  | prefixedList (lengthPrefix : LengthPrefix) (item : Shape)
  | restList (item : Shape)

/-- The fields of a message, in order. -/
inductive Fields where
  | nil
  | cons (name : String) (shape : Shape) (rest : Fields)

end

/-- Fields given as a list. -/
def Fields.ofList : List (String × Shape) → Fields
  | [] => .nil
  | (name, shape) :: rest => .cons name shape (ofList rest)

/-- The number of bytes of a value, where all values have the same. -/
def Shape.fixedSize? : Shape → Option Nat
  | .scalar k => some k.width
  | .fixedText n => some n
  | .fixedBytes n => some n
  | .choice _ _ => some 1
  | .nested n _ => some n
  | _ => none

/-- The number of bytes of a message, where all messages have the same. -/
def Fields.fixedSize? : Fields → Option Nat
  | .nil => some 0
  | .cons _ shape rest =>
    match shape.fixedSize?, rest.fixedSize? with
    | some m, some n => some (m + n)
    | _, _ => none

mutual

/-- The values of a shape. -/
def Shape.Value : Shape → Type
  | .scalar k => k.Value
  | .fixedText _ => String
  | .fixedBytes n => { b : Bytes // b.length = n }
  | .prefixedText _ => String
  | .prefixedBytes _ => Bytes
  | .restText => String
  | .restBytes => Bytes
  | .choice _ values => { v : UInt8 // v ∈ values }
  | .nested _ fs => fs.Value
  | .prefixedNested _ fs => fs.Value
  | .prefixedList _ item => List item.Value
  | .restList item => List item.Value

/-- One value for each field. -/
def Fields.Value : Fields → Type
  | .nil => Unit
  | .cons _ shape rest => shape.Value × rest.Value

end

mutual

def Shape.decEq : (s : Shape) → DecidableEq s.Value
  | .scalar k => inferInstanceAs (DecidableEq k.Value)
  | .fixedText _ | .prefixedText _ | .restText => inferInstanceAs (DecidableEq String)
  | .fixedBytes n => inferInstanceAs (DecidableEq { b : Bytes // b.length = n })
  | .prefixedBytes _ | .restBytes => inferInstanceAs (DecidableEq Bytes)
  | .choice _ values => inferInstanceAs (DecidableEq { v : UInt8 // v ∈ values })
  | .nested _ fs => fs.decEq
  | .prefixedNested _ fs => fs.decEq
  | .prefixedList _ item => @instDecidableEqList _ item.decEq
  | .restList item => @instDecidableEqList _ item.decEq

/-- Two messages are compared field by field. -/
def Fields.decEq : (fs : Fields) → DecidableEq fs.Value
  | .nil => inferInstanceAs (DecidableEq Unit)
  | .cons _ shape rest => @instDecidableEqProd _ _ shape.decEq rest.decEq

end

instance (fs : Fields) : DecidableEq fs.Value := fs.decEq

mutual

/-- Writes a value. A nested message has a writer of its own. -/
def Shape.write (build : Build) : (s : Shape) → s.Value → Write
  | .scalar k, v => .append (k.encode v)
  | .fixedText n, v => .fixedText build v n
  | .fixedBytes _, v => .append v.1
  | .prefixedText p, v => .prefixed p (Utf8.ofString v)
  | .prefixedBytes p, v => .prefixed p v
  | .restText, v => .append (Utf8.ofString v)
  | .restBytes, v => .append v
  | .choice _ _, v => .append [v.1]
  | .nested _ fs, v => .after ((fs.write build v).message fs.fixedSize?) .append
  | .prefixedNested p fs, v => .after ((fs.write build v).message fs.fixedSize?) (.prefixed p)
  | .prefixedList p item, vs => .prefixedItems p (fun v => item.write build v) vs
  | .restList item, vs => .items (fun v => item.write build v) vs

/-- Writes the fields of a message one after another. -/
def Fields.write (build : Build) : (fs : Fields) → fs.Value → Write
  | .nil, _ => .append []
  | .cons _ shape rest, (v, vs) => (shape.write build v).andThen (rest.write build vs)

end

/-- The bytes of a message. -/
def Fields.serialize (build : Build) (fs : Fields) (v : fs.Value) : Except Stop Bytes :=
  (fs.write build v).message fs.fixedSize?

/-- A byte that is the value of a member of an enum. -/
def Decoder.choice (name : String) (values : List UInt8) : Decoder { v : UInt8 // v ∈ values } := do
  let v : UInt8 ← Decoder.scalar .uint8
  if h : v ∈ values then return ⟨v, h⟩ else Decoder.fail (.invalidEnumValue name v)

mutual

/-- Reads a value from the front. -/
def Shape.decode : (s : Shape) → Decoder s.Value
  | .scalar k => Decoder.scalar k
  | .fixedText n => Decoder.fixedText n
  | .fixedBytes n => Decoder.exactly n
  | .prefixedText p => Decoder.prefixedText p
  | .prefixedBytes p => Decoder.prefixed p
  | .restText => Decoder.restText
  | .restBytes => Decoder.rest
  | .choice name values => Decoder.choice name values
  | .nested n fs => do Decoder.within fs.decode (← Decoder.take n)
  | .prefixedNested p fs => do Decoder.within fs.decode (← Decoder.prefixed p)
  | .prefixedList p item => Decoder.prefixedItems p item.decode
  | .restList item => Decoder.items item.decode

/-- Reads the fields of a message from the front. -/
def Fields.decode : (fs : Fields) → Decoder fs.Value
  | .nil => pure ()
  | .cons _ shape rest => do
    let v ← shape.decode
    let vs ← rest.decode
    return (v, vs)

end

/-- Reads a message from the front of a byte string. Bytes behind it are passed over. -/
def Fields.ofBytes (fs : Fields) (data : Bytes) : Except WireError fs.Value := (fs.decode data).1

end WireSchema
