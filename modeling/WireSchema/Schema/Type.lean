import WireSchema.Wire.Scalar

/-! # Types of fields

A field holds a primitive, an enum, a model, or an array of one of these. Before a schema has been
verified every name that is no primitive counts as the name of a model. -/

namespace WireSchema

/-- The built-in types: the scalars, texts and byte strings. -/
inductive Primitive where
  | scalar (kind : ScalarKind)
  | string
  | bytes
  deriving DecidableEq

namespace Primitive

/-- The built-in types. -/
def all : List Primitive := [
  .scalar .uint8, .scalar .uint16, .scalar .uint32, .scalar .uint64, .scalar .int8, .scalar .int16,
  .scalar .int32, .scalar .int64, .scalar .float32, .scalar .float64, .scalar .bool, .string,
  .bytes]

/-- The name of a type in a schema. -/
def name : Primitive → String
  | .scalar .uint8 => "uint8"
  | .scalar .uint16 => "uint16"
  | .scalar .uint32 => "uint32"
  | .scalar .uint64 => "uint64"
  | .scalar .int8 => "int8"
  | .scalar .int16 => "int16"
  | .scalar .int32 => "int32"
  | .scalar .int64 => "int64"
  | .scalar .float32 => "float32"
  | .scalar .float64 => "float64"
  | .scalar .bool => "bool"
  | .string => "string"
  | .bytes => "bytes"

/-- The type with a given name. -/
def ofName? (name : String) : Option Primitive := all.find? (·.name == name)

/-- The width that a type has by itself. Texts and byte strings have none. -/
def naturalSize : Primitive → Option Nat
  | .scalar k => some k.width
  | .string | .bytes => none

/-- Whether a type has a width by itself. -/
def isScalar (p : Primitive) : Bool := p.naturalSize.isSome

/-- The length prefix that a type can serve as. -/
def toLengthPrefix? : Primitive → Option LengthPrefix
  | .scalar .uint8 => some .uint8
  | .scalar .uint16 => some .uint16
  | .scalar .uint32 => some .uint32
  | .scalar .uint64 => some .uint64
  | _ => none

/-- Whether a type can serve as a length prefix. -/
def isLengthPrefix (p : Primitive) : Bool := p.toLengthPrefix?.isSome

end Primitive

/-- The type of a field. -/
inductive TypeRef where
  | primitive (p : Primitive)
  | enum (name : String)
  | model (name : String)
  | array (element : TypeRef)
  deriving DecidableEq

namespace TypeRef

/-- The type that a name stands for as long as the enums are not known. -/
def ofName (name : String) : TypeRef :=
  match Primitive.ofName? name with
  | some p => .primitive p
  | none => .model name

/-- A type as it is written in a schema. -/
def name : TypeRef → String
  | .primitive p => p.name
  | .enum name => name
  | .model name => name
  | .array element => element.name ++ "[]"

/-- The primitive that a type is. -/
def primitive? : TypeRef → Option Primitive
  | .primitive p => some p
  | _ => none

/-- Whether a type is an array. -/
def isArray : TypeRef → Bool
  | .array _ => true
  | _ => false

/-- The model that a type holds, directly or as the element of an array. -/
def modelName? : TypeRef → Option String
  | .model name => some name
  | .array element => element.modelName?
  | _ => none

end TypeRef

end WireSchema
