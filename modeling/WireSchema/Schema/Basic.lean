import WireSchema.Number.Binary64
import WireSchema.Schema.Type

/-! # Schemas

A schema has a namespace, enums and models. A model is a list of fields, and each field has a type,
a size as far as it is known, and its place in the model once that has been computed. -/

namespace WireSchema

/-- A place in a schema text. Lines and columns count from 1. -/
structure Position where
  line : Nat
  column : Nat
  deriving DecidableEq

/-- An argument of a decorator. -/
inductive Argument where
  | number (value : Binary64)
  | text (value : String)
  | flag (value : Bool)
  deriving DecidableEq

namespace Argument

/-- The argument as a whole number of 64 bits. The greatest double-precision number that is
admitted is 2 ^ 64, which counts as the greatest such whole number. -/
def integer? : Argument → Option Nat
  | .number x => (x.toWhole?.filter (· ≤ Nat.pow 2 64)).map (min · (Nat.pow 2 64 - 1))
  | _ => none

/-- The argument as a text. -/
def text? : Argument → Option String
  | .text s => some s
  | _ => none

end Argument

/-- A decorator: `@name(arguments)`. -/
structure Decorator where
  name : String
  args : List Argument
  position : Position
  deriving DecidableEq

namespace Decorator

/-- The first decorator of the given name. -/
def find? (decorators : List Decorator) (name : String) : Option Decorator :=
  decorators.find? (·.name == name)

/-- The first argument of the first decorator of the given name. -/
def argument? (decorators : List Decorator) (name : String) : Option Argument := do
  (← find? decorators name).args.head?

end Decorator

/-- What is known of the width of a field: a number of bytes, or a length in front. -/
structure FieldSize where
  fixed : Option Nat
  lengthPrefix : Option Primitive
  deriving DecidableEq

/-- A field of a model. -/
structure Field where
  name : String
  type : TypeRef
  size : FieldSize
  decorators : List Decorator
  doc : Option String
  /-- How many bytes stand before the field, where every message has the same number. -/
  offset : Option Nat
  position : Position
  deriving DecidableEq

/-- Whether a field takes the rest of the message: an array, a text or a byte string that has
neither a size nor a length in front. -/
def Field.isUnbounded (f : Field) : Bool :=
  f.size.lengthPrefix.isNone &&
    match f.type with
    | .array _ => true
    | .primitive .string | .primitive .bytes => f.size.fixed.isNone
    | _ => false

/-- A member of an enum. -/
structure Member where
  name : String
  value : UInt8
  doc : Option String
  deriving DecidableEq

/-- An enum. Its values take one byte. -/
structure Enum where
  name : String
  members : List Member
  decorators : List Decorator
  doc : Option String
  position : Position
  deriving DecidableEq

/-- How many bytes the messages of a model take. -/
inductive WireSize where
  | fixed (bytes : Nat)
  | varying
  deriving DecidableEq

/-- The number of bytes, where all messages have the same. -/
def WireSize.fixed? : WireSize → Option Nat
  | .fixed n => some n
  | .varying => none

/-- A model: the kind of message with the given fields. -/
structure Model where
  name : String
  fields : List Field
  decorators : List Decorator
  doc : Option String
  commandId : Option UInt8
  wireSize : WireSize
  position : Position
  deriving DecidableEq

/-- The number of bytes of a model's messages, where all have the same. -/
def Model.fixedSize? (m : Model) : Option Nat := m.wireSize.fixed?

/-- Where a schema comes from. -/
structure Metadata where
  sourceFile : String
  /-- Seconds since the start of 1970. -/
  parsedAt : Nat
  protocolVersion : Option String
  deriving DecidableEq

/-- A schema. -/
structure Schema where
  namespaceName : String
  enums : List Enum
  models : List Model
  metadata : Metadata
  deriving DecidableEq

namespace Schema

/-- A schema without declarations. -/
def empty (sourceFile : String) (parsedAt : Nat) : Schema :=
  ⟨"", [], [], ⟨sourceFile, parsedAt, none⟩⟩

/-- The first enum of the given name. -/
def enum? (s : Schema) (name : String) : Option Enum := s.enums.find? (·.name == name)

/-- The first model of the given name. -/
def model? (s : Schema) (name : String) : Option Model := s.models.find? (·.name == name)

/-- The models with a command id, in the order of their declarations. -/
def commands (s : Schema) : List (Model × UInt8) :=
  s.models.filterMap fun m => m.commandId.map fun id => (m, id)

end Schema

end WireSchema
