import WireSchema.Emit.Basic
import WireSchema.Emit.TypeScriptSupport

/-! # Emitted TypeScript

Three files: the types, the functions that write and read them together with the classes they use,
and one that exports both. -/

namespace WireSchema.Emit.TypeScript

/-! ### Names -/

/-- The function that reads a member of an enum. -/
def decodeName (name : String) : String := "decode" ++ name

/-- The function that writes a model. -/
def serializeName (name : String) : String := "serialize" ++ name

/-- The function that reads a model. -/
def deserializeName (name : String) : String := "deserialize" ++ name

/-! ### Types -/

/-- A doc comment between `/**` and `*/`. -/
def blockDoc (indent : String) (doc : Option String) : List String :=
  match docLines doc with
  | [] => []
  | [line] => [s!"{indent}/** {line} */"]
  | lines =>
    [s!"{indent}/**"] ++ lines.map (fun line => trimEnd s!"{indent} * {line}") ++ [s!"{indent} */"]

/-- The type of a primitive. -/
def scalarType : Primitive → String
  | .scalar .uint64 | .scalar .int64 => "bigint"
  | .scalar .bool => "boolean"
  | .scalar _ => "number"
  | .string => "string"
  | .bytes => "Uint8Array"

/-- The end of the names of the methods that write and read a primitive. -/
def methodSuffix : Primitive → String
  | .scalar .uint8 => "Uint8"
  | .scalar .uint16 => "Uint16"
  | .scalar .uint32 => "Uint32"
  | .scalar .uint64 => "Uint64"
  | .scalar .int8 => "Int8"
  | .scalar .int16 => "Int16"
  | .scalar .int32 => "Int32"
  | .scalar .int64 => "Int64"
  | .scalar .float32 => "Float32"
  | .scalar .float64 => "Float64"
  | .scalar .bool => "Bool"
  | .string => "String"
  | .bytes => "Bytes"

/-- A length prefix. -/
def lengthPrefix (p : Primitive) : String := "'" ++ p.name ++ "'"

/-- The type of an element of an array. -/
def elementType : ElementCodec → String
  | .scalar p => scalarType p
  | .enum name => name
  | .model name _ => name

/-- The type of a field. -/
def fieldType : FieldCodec → String
  | .scalar p => scalarType p
  | .fixedString _ | .prefixedString _ | .remainingString => "string"
  | .fixedBytes _ | .prefixedBytes _ | .remainingBytes => "Uint8Array"
  | .enum name => name
  | .model name _ => name
  | .prefixedModel name _ => name
  | .prefixedArray element _ => elementType element ++ "[]"
  | .remainingArray element => elementType element ++ "[]"

/-! ### Declarations -/

/-- The member of an enum. -/
def enumMember (m : Member) : Declaration := ⟨"    ", m.name, s!" = {m.value},"⟩

/-- The members of an enum. -/
def memberNames (e : Enum) : List String := e.members.map fun m => (enumMember m).name

/-- The field of an interface. -/
def interfaceField (s : Schema) (f : Field) : Declaration :=
  ⟨"    ", f.name, ": " ++ fieldType (FieldCodec.of s f) ++ ";"⟩

/-- The fields of an interface. -/
def fieldNames (s : Schema) (m : Model) : List String :=
  m.fields.map fun f => (interfaceField s f).name

/-- The entry of a command id. -/
def commandEntry (c : Model × UInt8) : Declaration :=
  ⟨"    ", c.1.name, ": " ++ Name.hexByte c.2 ++ ","⟩

/-- The keys of the table of command ids. -/
def commandNames (s : Schema) : List String := s.commands.map fun c => (commandEntry c).name

/-- The head of the function that reads a member of an enum. -/
def decodeHead (e : Enum) : Declaration :=
  ⟨"export function ", decodeName e.name, s!"(value: number): Types.{e.name} \x7b"⟩

/-- The head of the function that writes a model. -/
def serializeHead (m : Model) : Declaration :=
  ⟨"export function ", serializeName m.name, s!"(data: Types.{m.name}): Uint8Array \x7b"⟩

/-- The head of the function that reads a model. -/
def deserializeHead (m : Model) : Declaration :=
  ⟨"export function ", deserializeName m.name, s!"(buffer: Uint8Array): Types.{m.name} \x7b"⟩

/-- The functions for all enums and models. -/
def functionNames (s : Schema) : List String :=
  s.enums.map (fun e => (decodeHead e).name) ++
    s.models.flatMap fun m => [(serializeHead m).name, (deserializeHead m).name]

/-! ### Codecs -/

/-- The expression that writes an element. -/
def writeElement : ElementCodec → String
  | .scalar p => "w.write" ++ methodSuffix p ++ "(item)"
  | .enum _ => "w.writeUint8(item)"
  | .model name _ => "w.writeBytes(" ++ serializeName name ++ "(item))"

/-- The statement that writes a field. -/
def writeStatement (value : String) : FieldCodec → String
  | .scalar p => "writer.write" ++ methodSuffix p ++ s!"({value});"
  | .fixedString n => s!"writer.writeFixedString({value}, {n});"
  | .fixedBytes n => s!"writer.writeFixedBytes({value}, {n});"
  | .prefixedString p => s!"writer.writeLengthPrefixedString({value}, " ++ lengthPrefix p ++ ");"
  | .prefixedBytes p => s!"writer.writeLengthPrefixed({value}, " ++ lengthPrefix p ++ ");"
  | .remainingString => s!"writer.writeString({value});"
  | .remainingBytes => s!"writer.writeBytes({value});"
  | .enum _ => s!"writer.writeUint8({value});"
  | .model name _ => "writer.writeBytes(" ++ serializeName name ++ s!"({value}));"
  | .prefixedModel name p =>
    "writer.writeLengthPrefixed(" ++ serializeName name ++ s!"({value}), " ++ lengthPrefix p ++ ");"
  | .prefixedArray element p =>
    s!"writer.writeLengthPrefixedItems({value}, " ++ lengthPrefix p ++ ", (w, item) => " ++
      writeElement element ++ ");"
  | .remainingArray element =>
    s!"writer.writeItems({value}, (w, item) => " ++ writeElement element ++ ");"

/-- The expression that reads an element. -/
def readElement : ElementCodec → String
  | .scalar p => "r.read" ++ methodSuffix p ++ "()"
  | .enum name => decodeName name ++ "(r.readUint8())"
  | .model name size => deserializeName name ++ s!"(r.readBytes({size}))"

/-- The expression that reads a field. -/
def readExpression : FieldCodec → String
  | .scalar p => "reader.read" ++ methodSuffix p ++ "()"
  | .fixedString n => s!"reader.readFixedString({n})"
  | .fixedBytes n => s!"reader.readBytes({n})"
  | .prefixedString p => "reader.readLengthPrefixedString(" ++ lengthPrefix p ++ ")"
  | .prefixedBytes p => "reader.readLengthPrefixed(" ++ lengthPrefix p ++ ")"
  | .remainingString => "reader.readRemainingString()"
  | .remainingBytes => "reader.readRemaining()"
  | .enum name => decodeName name ++ "(reader.readUint8())"
  | .model name size => deserializeName name ++ s!"(reader.readBytes({size}))"
  | .prefixedModel name p =>
    deserializeName name ++ "(reader.readLengthPrefixed(" ++ lengthPrefix p ++ "))"
  | .prefixedArray element p =>
    "reader.readLengthPrefixedItems(" ++ lengthPrefix p ++ ", (r) => " ++ readElement element ++ ")"
  | .remainingArray element => "reader.readItems((r) => " ++ readElement element ++ ")"

/-! ### Files -/

/-- An enum. -/
def enumItem (e : Enum) : List String :=
  blockDoc "" e.doc ++ [s!"export enum {e.name} \x7b"] ++
  (e.members.flatMap fun m => blockDoc "    " m.doc ++ [(enumMember m).text]) ++
  ["\x7d", ""]

/-- The interface of a model. -/
def interfaceItem (s : Schema) (m : Model) : List String :=
  let fields := m.fields.flatMap fun f =>
    blockDoc "    " f.doc ++ [(interfaceField s f).text]
  let size := match m.fixedSize? with
    | none => []
    | some n => [s!"// Fixed size: {n} bytes"]
  let id := match m.commandId with
    | none => []
    | some id => ["// Command ID: " ++ Name.hexByte id]
  blockDoc "" m.doc ++ [s!"export interface {m.name} \x7b"] ++ fields ++ ["\x7d"] ++ size ++ id ++
    [""]

/-- The table of command ids. -/
def commandItem (s : Schema) : List String := [
  "/**",
  " * Command ID to type mapping",
  " */",
  "export const CommandIds = \x7b"] ++
  (s.commands.map fun c => (commandEntry c).text) ++ [
  "\x7d as const;",
  "",
  "export type CommandId = typeof CommandIds[keyof typeof CommandIds];",
  ""]

/-- The file with the types. -/
def typesFile (s : Schema) : String :=
  let version := match s.metadata.protocolVersion with
    | none => []
    | some version => [s!" * Protocol version: {version}"]
  join <| [
    "/**",
    " * Auto-generated binary protocol types",
    s!" * Generated from: {s.metadata.sourceFile}",
    s!" * Generated at: {s.metadata.parsedAt} (unix time)"] ++ version ++ [
    " */",
    ""] ++
    s.enums.flatMap enumItem ++ s.models.flatMap (interfaceItem s) ++ commandItem s

/-- The function that reads a member of an enum. -/
def decodeItem (e : Enum) : String :=
  let name := e.name
  let result := if e.members.isEmpty then [] else [s!"            return value as Types.{name};"]
  join <| [
    "/**",
    s!" * Decode a byte into {name}",
    " */",
    (decodeHead e).text,
    "    switch (value) \x7b"] ++
    (e.members.map fun m => s!"        case {m.value}:") ++ result ++ [
    "        default:",
    s!"            throw new EnumDecodeError('{name}', value);",
    "    \x7d",
    "\x7d",
    ""]

/-- The functions that write and read a model. -/
def codecItem (s : Schema) (m : Model) : String :=
  let name := m.name
  join <| [
    "/**",
    s!" * Serialize {name} to binary",
    " */",
    (serializeHead m).text,
    "    const writer = new BinaryWriter();"] ++
    (m.fields.map fun f => "    " ++ writeStatement ("data." ++ f.name) (FieldCodec.of s f)) ++ [
    "    return writer.toUint8Array();",
    "\x7d",
    "",
    "/**",
    s!" * Deserialize {name} from binary",
    " */",
    (deserializeHead m).text,
    "    const reader = new BinaryReader(buffer);",
    "    return \x7b"] ++
    (m.fields.map fun f => s!"        {f.name}: " ++ readExpression (FieldCodec.of s f) ++ ",") ++ [
    "    \x7d;",
    "\x7d",
    ""]

/-- The file with the functions. -/
def serializerFile (s : Schema) : String :=
  join <| [
    "/**",
    " * Auto-generated binary serializer/deserializer",
    " */",
    "",
    "import * as Types from './types.js';",
    "",
    support] ++ s.enums.map decodeItem ++ s.models.map (codecItem s)

/-- The file that exports the other two. -/
def indexFile : String := "export * from './types.js';\nexport * from './serializer.js';\n"

/-- The emitted files. -/
def files (s : Schema) : List OutputFile := [
  ⟨"types.ts", typesFile s⟩,
  ⟨"serializer.ts", serializerFile s⟩,
  ⟨"index.ts", indexFile⟩]

end WireSchema.Emit.TypeScript
