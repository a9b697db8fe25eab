import WireSchema.Schema.Basic

/-! # Field codecs

How a field is written and read depends on its type and on what bounds it: a width of its own, a
length in front, or the end of the message. All emitted code is derived from this classification,
so the three languages agree on the bytes. -/

namespace WireSchema

/-- How an element of an array is written. -/
inductive ElementCodec where
  | scalar (p : Primitive)
  | enum (name : String)
  | model (name : String) (size : Nat)
  deriving DecidableEq

/-- How a field is written. -/
inductive FieldCodec where
  | scalar (p : Primitive)
  | fixedString (size : Nat)
  | fixedBytes (size : Nat)
  | prefixedString (lengthPrefix : Primitive)
  | prefixedBytes (lengthPrefix : Primitive)
  | remainingString
  | remainingBytes
  | enum (name : String)
  | model (name : String) (size : Nat)
  | prefixedModel (name : String) (lengthPrefix : Primitive)
  | prefixedArray (element : ElementCodec) (lengthPrefix : Primitive)
  | remainingArray (element : ElementCodec)
  deriving DecidableEq

/-- The size of the messages of a model, 0 if they differ or there is no such model. -/
def Schema.modelSize (s : Schema) (name : String) : Nat :=
  ((s.model? name).bind Model.fixedSize?).getD 0

/-- The codec of the elements of an array. -/
def ElementCodec.of (s : Schema) : TypeRef → ElementCodec
  | .enum name => .enum name
  | .model name => .model name (s.modelSize name)
  | .primitive p => .scalar p
  | .array element => ElementCodec.of s element

/-- The codec of a field. -/
def FieldCodec.of (s : Schema) (f : Field) : FieldCodec :=
  match f.type, f.size.lengthPrefix with
  | .array element, some p => .prefixedArray (ElementCodec.of s element) p
  | .array element, none => .remainingArray (ElementCodec.of s element)
  | .enum name, _ => .enum name
  | .model name, some p => .prefixedModel name p
  | .model name, none => .model name (s.modelSize name)
  | .primitive .string, some p => .prefixedString p
  | .primitive .bytes, some p => .prefixedBytes p
  | .primitive .string, none =>
    match f.size.fixed with
    | some n => .fixedString n
    | none => .remainingString
  | .primitive .bytes, none =>
    match f.size.fixed with
    | some n => .fixedBytes n
    | none => .remainingBytes
  | .primitive (.scalar k), _ => .scalar (.scalar k)

end WireSchema
