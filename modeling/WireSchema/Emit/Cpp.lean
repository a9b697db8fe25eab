import WireSchema.Emit.Basic
import WireSchema.Emit.CppSupport
import WireSchema.Emit.StructOrder

/-! # Emitted C++

A header with the types and the declarations of the functions, and a source file with their
definitions. -/

namespace WireSchema.Emit.Cpp

/-- The namespace of a schema: the one that is set, or the name of the schema's namespace in lower
case with underscores for points. -/
def namespaceName (settings : EmitSettings) (s : Schema) : String :=
  match settings.cppNamespace with
  | some name => name
  | none =>
    let flat := s.namespaceName.toList.map fun c => if c = '.' then '_' else c
    let name := Text.lower (String.ofList flat)
    if name.isEmpty then "binary_protocol" else name

/-! ### Types -/

/-- The type of a primitive. -/
def scalarType : Primitive → String
  | .scalar .uint8 => "uint8_t"
  | .scalar .uint16 => "uint16_t"
  | .scalar .uint32 => "uint32_t"
  | .scalar .uint64 => "uint64_t"
  | .scalar .int8 => "int8_t"
  | .scalar .int16 => "int16_t"
  | .scalar .int32 => "int32_t"
  | .scalar .int64 => "int64_t"
  | .scalar .float32 => "float"
  | .scalar .float64 => "double"
  | .scalar .bool => "bool"
  | .string => "std::string"
  | .bytes => "std::vector<uint8_t>"

/-- The end of the names of the methods that write and read a primitive. -/
def methodSuffix : Primitive → String
  | .scalar .uint8 => "Uint8"
  | .scalar .uint16 => "Uint16"
  | .scalar .uint32 => "Uint32"
  | .scalar .uint64 => "Uint64"
  | .scalar .int8 => "Int8"
  | .scalar .int16 => "Int16"
  | .scalar .int32 => "Int32"
  | .scalar .int64 => "Int64"
  | .scalar .float32 => "Float32"
  | .scalar .float64 => "Float64"
  | .scalar .bool => "Bool"
  | .string => "String"
  | .bytes => "Bytes"

/-- The number of bytes of a length prefix. -/
def prefixWidth (p : Primitive) : Nat := p.naturalSize.getD 8

/-- The type of an element of an array. -/
def elementType : ElementCodec → String
  | .scalar p => scalarType p
  | .enum name => name
  | .model name _ => name

/-- The type of a field. -/
def fieldType : FieldCodec → String
  | .scalar p => scalarType p
  | .fixedString _ | .prefixedString _ | .remainingString => "std::string"
  | .fixedBytes n => s!"std::array<uint8_t, {n}>"
  | .prefixedBytes _ | .remainingBytes => "std::vector<uint8_t>"
  | .enum name => name
  | .model name _ => name
  | .prefixedModel name _ => name
  | .prefixedArray element _ => "std::vector<" ++ elementType element ++ ">"
  | .remainingArray element => "std::vector<" ++ elementType element ++ ">"

/-! ### Declarations -/

/-- The enumerator of a member. -/
def enumerator (m : Member) : Declaration := ⟨"    ", Name.cppName m.name, s!" = {m.value},"⟩

/-- The enumerators of an enum. -/
def enumeratorNames (e : Enum) : List String := e.members.map fun m => (enumerator m).name

/-- The name of a field in a struct. -/
def fieldName (f : Field) : String := Name.cppName f.name

/-- The field of a struct. -/
def structField (s : Schema) (f : Field) : Declaration :=
  ⟨"    " ++ fieldType (FieldCodec.of s f) ++ " ", fieldName f, "\x7b\x7d;"⟩

/-- The constants of a struct beside its fields. -/
def structConstants (m : Model) : List Declaration :=
  (match m.commandId with
    | none => []
    | some id =>
      [⟨"    static constexpr uint8_t ", "COMMAND_ID", " = " ++ Name.hexByte id ++ ";"⟩]) ++
  (match m.fixedSize? with
    | none => []
    | some n => [⟨"    static constexpr size_t ", "FIXED_SIZE", s!" = {n};"⟩])

/-- The fields and constants of a struct. -/
def structNames (s : Schema) (m : Model) : List String :=
  m.fields.map (fun f => (structField s f).name) ++ (structConstants m).map (·.name)

/-- The constant for a command id. -/
def commandConstant (c : Model × UInt8) : Declaration :=
  ⟨"constexpr uint8_t ", Name.upperSnake c.1.name, " = " ++ Name.hexByte c.2 ++ ";"⟩

/-- The constants for the command ids. -/
def commandNames (s : Schema) : List String := s.commands.map fun c => (commandConstant c).name

/-- The head of an enum. -/
def enumHead (e : Enum) : Declaration := ⟨"enum class ", e.name, " : uint8_t \x7b"⟩

/-- The head of a struct. -/
def structHead (m : Model) : Declaration := ⟨"struct ", m.name, " \x7b"⟩

/-- The head of the namespace with the command ids. -/
def commandsHead : Declaration := ⟨"namespace ", "command_ids", " \x7b"⟩

/-- The types and the namespace inside the namespace of the schema. -/
def topLevelNames (s : Schema) : List String :=
  supportTypes ++ s.enums.map (fun e => (enumHead e).name) ++
    s.models.map (fun m => (structHead m).name) ++ [commandsHead.name]

/-! ### Codecs -/

/-- The statement that writes an element. -/
def writeElement : ElementCodec → String
  | .scalar p => "w.write" ++ methodSuffix p ++ "(item);"
  | .enum _ => "w.writeUint8(static_cast<uint8_t>(item));"
  | .model _ _ => "w.writeBytes(serialize(item));"

/-- The function that writes an element. -/
def elementWriter (element : ElementCodec) : String :=
  "[](BinaryWriter& w, const " ++ elementType element ++ "& item) \x7b " ++ writeElement element ++
    " \x7d"

/-- The statement that writes a field. -/
def writeStatement (value : String) : FieldCodec → String
  | .scalar p => "writer.write" ++ methodSuffix p ++ s!"({value});"
  | .fixedString n => s!"writer.writeFixedString({value}, {n});"
  | .fixedBytes _ | .remainingBytes => s!"writer.writeBytes({value});"
  | .prefixedString p => s!"writer.writeLengthPrefixedString({value}, {prefixWidth p});"
  | .prefixedBytes p => s!"writer.writeLengthPrefixed({value}, {prefixWidth p});"
  | .remainingString => s!"writer.writeString({value});"
  | .enum _ => s!"writer.writeUint8(static_cast<uint8_t>({value}));"
  | .model _ _ => s!"writer.writeBytes(serialize({value}));"
  | .prefixedModel _ p => s!"writer.writeLengthPrefixed(serialize({value}), {prefixWidth p});"
  | .prefixedArray element p =>
    s!"writer.writeLengthPrefixedItems({value}, {prefixWidth p}, " ++ elementWriter element ++ ");"
  | .remainingArray element => s!"writer.writeItems({value}, " ++ elementWriter element ++ ");"

/-- The expression that reads an element. -/
def readElement : ElementCodec → String
  | .scalar p => "r.read" ++ methodSuffix p ++ "()"
  | .enum name => s!"decode{name}(r.readUint8())"
  | .model name size => s!"deserialize{name}(r.readBytes({size}))"

/-- The function that reads an element. -/
def elementReader (element : ElementCodec) : String :=
  "[](BinaryReader& r) \x7b return " ++ readElement element ++ "; \x7d"

/-- The expression that reads a field. -/
def readExpression : FieldCodec → String
  | .scalar p => "reader.read" ++ methodSuffix p ++ "()"
  | .fixedString n => s!"reader.readFixedString({n})"
  | .fixedBytes n => s!"reader.readFixedBytes<{n}>()"
  | .prefixedString p => s!"reader.readLengthPrefixedString({prefixWidth p})"
  | .prefixedBytes p => s!"reader.readLengthPrefixed({prefixWidth p})"
  | .remainingString => "reader.readRemainingString()"
  | .remainingBytes => "reader.readRemaining()"
  | .enum name => s!"decode{name}(reader.readUint8())"
  | .model name size => s!"deserialize{name}(reader.readBytes({size}))"
  | .prefixedModel name p => s!"deserialize{name}(reader.readLengthPrefixed({prefixWidth p}))"
  | .prefixedArray element p =>
    "reader.readLengthPrefixedItems<" ++ elementType element ++ s!">({prefixWidth p}, " ++
      elementReader element ++ ")"
  | .remainingArray element =>
    "reader.readItems<" ++ elementType element ++ ">(" ++ elementReader element ++ ")"

/-! ### The header -/

/-- The comment at the head of a file. -/
def banner (title : String) (s : Schema) : List String :=
  let version := match s.metadata.protocolVersion with
    | none => []
    | some version => [s!" * Protocol version: {version}"]
  [ "/**",
    s!" * {title}",
    s!" * Generated from: {s.metadata.sourceFile}",
    s!" * Generated at: {s.metadata.parsedAt} (unix time)"] ++ version ++ [
    " */",
    ""]

/-- An enum and the declaration of the function that reads its members. -/
def enumItem (e : Enum) : List String :=
  slashDoc "" e.doc ++ [(enumHead e).text] ++
  (e.members.flatMap fun m => slashDoc "    " m.doc ++ [(enumerator m).text]) ++ [
  "\x7d;",
  "",
  s!"{e.name} decode{e.name}(uint8_t value);",
  ""]

/-- A struct. -/
def structItem (s : Schema) (m : Model) : List String :=
  let id := match m.commandId with
    | none => []
    | some id => ["// Command ID: " ++ Name.hexByte id]
  let fields := m.fields.flatMap fun f => slashDoc "    " f.doc ++ [(structField s f).text]
  let gap := if m.fields.isEmpty || (structConstants m).isEmpty then [] else [""]
  slashDoc "" m.doc ++ id ++ [(structHead m).text] ++ fields ++ gap ++
    (structConstants m).map (·.text) ++ ["\x7d;", ""]

/-- The declarations of the functions of a model. -/
def functionDecls (m : Model) : List String := [
  s!"std::vector<uint8_t> serialize(const {m.name}& data);",
  s!"{m.name} deserialize{m.name}(const uint8_t* data, size_t size);",
  s!"{m.name} deserialize{m.name}(const std::vector<uint8_t>& data);"]

/-- An empty line behind the lines of the models, if there are any. -/
def gapAfterModels (s : Schema) : List String := if s.models.isEmpty then [] else [""]

/-- The header. -/
def headerFile (settings : EmitSettings) (s : Schema) : String :=
  let ns := namespaceName settings s
  join <| banner "Auto-generated binary protocol types" s ++ [
    "#ifndef BINARY_PROTOCOL_HPP",
    "#define BINARY_PROTOCOL_HPP",
    ""] ++
    (["cstdint", "cstring", "string", "vector", "array", "stdexcept"].map fun lib =>
      s!"#include <{lib}>") ++ [
    "",
    s!"namespace {ns} \x7b",
    "",
    headerSupport] ++
    s.enums.flatMap enumItem ++
    s.models.map (fun m => s!"struct {m.name};") ++ gapAfterModels s ++
    s.structOrder.flatMap (structItem s) ++
    s.models.flatMap functionDecls ++ gapAfterModels s ++
    [commandsHead.text] ++ (s.commands.map fun c => (commandConstant c).text) ++ [
    "\x7d // namespace command_ids",
    "",
    s!"\x7d // namespace {ns}",
    "",
    "#endif // BINARY_PROTOCOL_HPP",
    ""]

/-! ### The source file -/

/-- The function that reads a member of an enum. -/
def decodeItem (e : Enum) : String :=
  let name := e.name
  let result := if e.members.isEmpty then [] else
    [s!"            return static_cast<{name}>(value);"]
  join <| [
    s!"{name} decode{name}(uint8_t value) \x7b",
    "    switch (value) \x7b"] ++
    (e.members.map fun m => s!"        case {m.value}:") ++ result ++ [
    "        default:",
    s!"            throw EnumDecodeError(\"{name}\", value);",
    "    \x7d",
    "\x7d",
    ""]

/-- The functions that write and read a model. -/
def codecItem (s : Schema) (m : Model) : String :=
  let name := m.name
  join <| [
    s!"std::vector<uint8_t> serialize(const {name}& data) \x7b",
    "    BinaryWriter writer;"] ++
    (m.fields.map fun f =>
      "    " ++ writeStatement ("data." ++ fieldName f) (FieldCodec.of s f)) ++ [
    "    return writer.data();",
    "\x7d",
    "",
    s!"{name} deserialize{name}(const uint8_t* data, size_t size) \x7b",
    "    BinaryReader reader(data, size);",
    s!"    {name} result\x7b\x7d;"] ++
    (m.fields.map fun f =>
      "    result." ++ fieldName f ++ " = " ++ readExpression (FieldCodec.of s f) ++
        ";") ++ [
    "    return result;",
    "\x7d",
    "",
    s!"{name} deserialize{name}(const std::vector<uint8_t>& data) \x7b",
    s!"    return deserialize{name}(data.data(), data.size());",
    "\x7d",
    ""]

/-- The source file. -/
def sourceFile (settings : EmitSettings) (s : Schema) : String :=
  let ns := namespaceName settings s
  join <| banner "Auto-generated binary protocol implementation" s ++ [
    "#include \"protocol.hpp\"",
    "",
    s!"namespace {ns} \x7b",
    "",
    sourceSupport] ++
    s.enums.map decodeItem ++ s.models.map (codecItem s) ++ [
    s!"\x7d // namespace {ns}",
    ""]

/-- The emitted files. -/
def files (settings : EmitSettings) (s : Schema) : List OutputFile := [
  ⟨"protocol.hpp", headerFile settings s⟩,
  ⟨"protocol.cpp", sourceFile settings s⟩]

end WireSchema.Emit.Cpp
