import WireSchema.Number.Shortest
import WireSchema.Schema.Basic
import WireSchema.Text.Quoted

/-! # Schemas as JSON documents

A schema is shown as an indented JSON document with all its parts, each object's members in a fixed
order. Numbers that decorators have as arguments are written as the shortest decimals. -/

namespace WireSchema

/-- A JSON value. Numbers are given by their text. -/
inductive Json where
  | null
  | bool (b : Bool)
  | number (text : String)
  | string (s : String)
  | array (items : List Json)
  | object (members : List (String × Json))

namespace Json

/-- Two blanks for each level of nesting. -/
def indent (depth : Nat) : String := String.ofList (List.replicate (2 * depth) ' ')

/-- Lines between brackets, one for each item, with commas behind all but the last. -/
def block (openMark closeMark : String) (depth : Nat) (items : List String) : String :=
  if items.isEmpty then openMark ++ closeMark
  else
    let lines := items.map fun item => indent (depth + 1) ++ item
    openMark ++ "\n" ++ String.intercalate ",\n" lines ++ "\n" ++ indent depth ++ closeMark

mutual

/-- The document of a value at a level of nesting. -/
def renderAt (depth : Nat) : Json → String
  | .null => "null"
  | .bool b => if b then "true" else "false"
  | .number text => text
  | .string s => Text.quote s
  | .array items => block "[" "]" depth (renderItems (depth + 1) items)
  | .object members => block "\x7b" "\x7d" depth (renderMembers (depth + 1) members)

/-- The items of an array. -/
def renderItems (depth : Nat) : List Json → List String
  | [] => []
  | item :: items => renderAt depth item :: renderItems depth items

/-- The members of an object. -/
def renderMembers (depth : Nat) : List (String × Json) → List String
  | [] => []
  | (key, value) :: members =>
    (Text.quote key ++ ": " ++ renderAt depth value) :: renderMembers depth members

end

/-- The document of a value. -/
def render (j : Json) : String := renderAt 0 j

/-- A whole number. -/
def ofNat (n : Nat) : Json := .number (toString n)

/-- A value that may be missing. -/
def ofOption {α : Type} (f : α → Json) : Option α → Json
  | none => .null
  | some a => f a

end Json

/-- An argument; a number that is not finite has no JSON form. -/
def Argument.toJson : Argument → Json
  | .number x => if x.isFinite then .number (Shortest.text x) else .null
  | .text s => .string s
  | .flag b => .bool b

/-- A decorator with its place. -/
def Decorator.toJson (d : Decorator) : Json := .object [
  ("name", .string d.name),
  ("args", .array (d.args.map Argument.toJson)),
  ("line", .ofNat d.position.line),
  ("column", .ofNat d.position.column)]

/-- A type, with its kind. -/
def TypeRef.toJson : TypeRef → Json
  | .primitive p => .object [("kind", .string "primitive"), ("name", .string p.name)]
  | .enum name => .object [("kind", .string "enum"), ("name", .string name)]
  | .model name => .object [("kind", .string "model"), ("name", .string name)]
  | .array element => .object [("kind", .string "array"), ("name", element.toJson)]

/-- A field. -/
def Field.toJson (f : Field) : Json := .object [
  ("name", .string f.name),
  ("type", f.type.toJson),
  ("size", .object [
    ("fixed_size", .ofOption .ofNat f.size.fixed),
    ("length_prefix", .ofOption (fun p => .string p.name) f.size.lengthPrefix)]),
  ("decorators", .array (f.decorators.map Decorator.toJson)),
  ("doc", .ofOption .string f.doc),
  ("offset", .ofOption .ofNat f.offset),
  ("line", .ofNat f.position.line),
  ("column", .ofNat f.position.column)]

/-- A member of an enum. -/
def Member.toJson (m : Member) : Json := .object [
  ("name", .string m.name),
  ("value", .ofNat m.value.toNat),
  ("doc", .ofOption .string m.doc)]

/-- An enum. -/
def Enum.toJson (e : Enum) : Json := .object [
  ("name", .string e.name),
  ("members", .array (e.members.map Member.toJson)),
  ("base_type", .string "uint8"),
  ("decorators", .array (e.decorators.map Decorator.toJson)),
  ("doc", .ofOption .string e.doc),
  ("line", .ofNat e.position.line),
  ("column", .ofNat e.position.column)]

/-- The size of a model. -/
def WireSize.toJson : WireSize → Json
  | .fixed n => .object [("kind", .string "fixed"), ("bytes", .ofNat n)]
  | .varying => .object [("kind", .string "variable")]

/-- A model. -/
def Model.toJson (m : Model) : Json := .object [
  ("name", .string m.name),
  ("fields", .array (m.fields.map Field.toJson)),
  ("decorators", .array (m.decorators.map Decorator.toJson)),
  ("doc", .ofOption .string m.doc),
  ("command_id", .ofOption (fun id => .ofNat id.toNat) m.commandId),
  ("wire_size", m.wireSize.toJson),
  ("line", .ofNat m.position.line),
  ("column", .ofNat m.position.column)]

/-- A schema. -/
def Schema.toJson (s : Schema) : Json := .object [
  ("namespace", .string s.namespaceName),
  ("enums", .array (s.enums.map Enum.toJson)),
  ("models", .array (s.models.map Model.toJson)),
  ("metadata", .object [
    ("source_file", .string s.metadata.sourceFile),
    ("parsed_at", .ofNat s.metadata.parsedAt),
    ("protocol_version", .ofOption .string s.metadata.protocolVersion)])]

end WireSchema
