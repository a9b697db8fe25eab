import WireSchema.Emit.Basic

/-! # Emitted Rust

One file with an enum for each enum, a struct with its codec for each model, and a module with the
command ids. -/

namespace WireSchema.Emit.Rust

/-- The support types that are imported. -/
def importedNames : List String :=
  ["ByteReader", "ByteWriter", "LengthPrefix", "WireError", "WireModel"]

/-! ### Types -/

/-- The end of the names of the methods that write and read a primitive. -/
def methodSuffix : Primitive → String
  | .scalar .uint8 => "u8"
  | .scalar .uint16 => "u16"
  | .scalar .uint32 => "u32"
  | .scalar .uint64 => "u64"
  | .scalar .int8 => "i8"
  | .scalar .int16 => "i16"
  | .scalar .int32 => "i32"
  | .scalar .int64 => "i64"
  | .scalar .float32 => "f32"
  | .scalar .float64 => "f64"
  | .scalar .bool => "bool"
  | .string | .bytes => "bytes"

/-- The type of a primitive. -/
def scalarType : Primitive → String
  | .string => "String"
  | .bytes => "Vec<u8>"
  | p => methodSuffix p

/-- A length prefix. -/
def lengthPrefix : Primitive → String
  | .scalar .uint8 => "LengthPrefix::U8"
  | .scalar .uint16 => "LengthPrefix::U16"
  | .scalar .uint32 => "LengthPrefix::U32"
  | _ => "LengthPrefix::U64"

/-- The type of an element of an array. -/
def elementType : ElementCodec → String
  | .scalar p => scalarType p
  | .enum name => name
  | .model name _ => name

/-- The type of a field. -/
def fieldType : FieldCodec → String
  | .scalar p => scalarType p
  | .fixedString _ | .prefixedString _ | .remainingString => "String"
  | .fixedBytes n => s!"[u8; {n}]"
  | .prefixedBytes _ | .remainingBytes => "Vec<u8>"
  | .enum name => name
  | .model name _ => name
  | .prefixedModel name _ => name
  | .prefixedArray element _ => "Vec<" ++ elementType element ++ ">"
  | .remainingArray element => "Vec<" ++ elementType element ++ ">"

/-! ### Declarations -/

/-- The variant of a member. -/
def variant (m : Member) : Declaration := ⟨"    ", Name.rustName m.name, s!" = {m.value},"⟩

/-- The variants of an enum. -/
def variantNames (e : Enum) : List String := e.members.map fun m => (variant m).name

/-- The name of a field in a struct. -/
def fieldName (f : Field) : String := Name.rustField f.name

/-- The field of a struct. -/
def structField (s : Schema) (f : Field) : Declaration :=
  ⟨"    pub ", fieldName f, ": " ++ fieldType (FieldCodec.of s f) ++ ","⟩

/-- The fields of a struct. -/
def fieldNames (s : Schema) (m : Model) : List String :=
  m.fields.map fun f => (structField s f).name

/-- The constant for a command id. -/
def commandConstant (c : Model × UInt8) : Declaration :=
  ⟨"    pub const ", Name.upperSnake c.1.name, ": u8 = " ++ Name.hexByte c.2 ++ ";"⟩

/-- The constants for the command ids. -/
def commandNames (s : Schema) : List String := s.commands.map fun c => (commandConstant c).name

/-- The head of an enum. -/
def enumHead (e : Enum) : Declaration := ⟨"pub enum ", e.name, " \x7b"⟩

/-- The head of a struct. -/
def structHead (m : Model) : Declaration := ⟨"pub struct ", m.name, " \x7b"⟩

/-- The head of the module with the command ids. -/
def moduleHead : Declaration := ⟨"pub mod ", "command_ids", " \x7b"⟩

/-- The names of all items on the top level. -/
def topLevelNames (s : Schema) : List String :=
  importedNames ++ s.enums.map (fun e => (enumHead e).name) ++
    s.models.map (fun m => (structHead m).name) ++ [moduleHead.name]

/-! ### Codecs -/

/-- The statement that writes an element. -/
def writeElement : ElementCodec → String
  | .scalar p => "w.write_" ++ methodSuffix p ++ "(*item);"
  | .enum _ => "w.write_u8(*item as u8);"
  | .model _ _ => "w.write_bytes(&item.serialize()?);"

/-- The statement that writes a field. -/
def writeStatement (accessor : String) : FieldCodec → String
  | .scalar p => "writer.write_" ++ methodSuffix p ++ s!"({accessor});"
  | .fixedString n => s!"writer.write_fixed_string(&{accessor}, {n});"
  | .fixedBytes _ => s!"writer.write_bytes(&{accessor});"
  | .prefixedString p =>
    "writer.write_length_prefixed(" ++ lengthPrefix p ++ s!", {accessor}.as_bytes())?;"
  | .prefixedBytes p => "writer.write_length_prefixed(" ++ lengthPrefix p ++ s!", &{accessor})?;"
  | .remainingString => s!"writer.write_bytes({accessor}.as_bytes());"
  | .remainingBytes => s!"writer.write_bytes(&{accessor});"
  | .enum _ => s!"writer.write_u8({accessor} as u8);"
  | .model _ _ => s!"writer.write_bytes(&{accessor}.serialize()?);"
  | .prefixedModel _ p =>
    "writer.write_length_prefixed(" ++ lengthPrefix p ++ s!", &{accessor}.serialize()?)?;"
  | .prefixedArray element p =>
    "writer.write_length_prefixed_items(" ++ lengthPrefix p ++ s!", &{accessor}, |w, item| \x7b " ++
      writeElement element ++ " Ok(()) \x7d)?;"
  | .remainingArray element =>
    s!"writer.write_items(&{accessor}, |w, item| \x7b " ++ writeElement element ++ " Ok(()) \x7d)?;"

/-- The expression that reads an element. -/
def readElement : ElementCodec → String
  | .scalar p => "r.read_" ++ methodSuffix p ++ "()"
  | .enum name => s!"{name}::try_from(r.read_u8()?)"
  | .model name size => s!"{name}::deserialize(r.read_bytes({size})?)"

/-- The expression that reads a field. -/
def readExpression : FieldCodec → String
  | .scalar p => "reader.read_" ++ methodSuffix p ++ "()?"
  | .fixedString n => s!"reader.read_fixed_string({n})?"
  | .fixedBytes n => s!"reader.read_array::<{n}>()?"
  | .prefixedString p => "reader.read_length_prefixed_string(" ++ lengthPrefix p ++ ")?"
  | .prefixedBytes p => "reader.read_length_prefixed(" ++ lengthPrefix p ++ ")?.to_vec()"
  | .remainingString => "reader.read_remaining_string()"
  | .remainingBytes => "reader.read_remaining().to_vec()"
  | .enum name => s!"{name}::try_from(reader.read_u8()?)?"
  | .model name size => s!"{name}::deserialize(reader.read_bytes({size})?)?"
  | .prefixedModel name p =>
    s!"{name}::deserialize(reader.read_length_prefixed(" ++ lengthPrefix p ++ ")?)?"
  | .prefixedArray element p =>
    "reader.read_length_prefixed_items(" ++ lengthPrefix p ++ ", |r| " ++ readElement element ++
      ")?"
  | .remainingArray element => "reader.read_items(|r| " ++ readElement element ++ ")?"

/-! ### Items -/

/-- An enum with its conversions from and to a byte. -/
def enumItem (e : Enum) : String :=
  let name := e.name
  let variants := e.members.flatMap fun m =>
    slashDoc "    " m.doc ++ [(variant m).text]
  let arms := e.members.map fun m =>
    s!"            {m.value} => Ok({name}::" ++ (variant m).name ++ "),"
  let toByte := if e.members.isEmpty then [] else [
    s!"impl From<{name}> for u8 \x7b",
    s!"    fn from(value: {name}) -> u8 \x7b",
    "        value as u8",
    "    \x7d",
    "\x7d",
    ""]
  join <|
    slashDoc "" e.doc ++
    ["#[derive(Debug, Clone, Copy, PartialEq, Eq, Hash)]"] ++
    (if e.members.isEmpty then [] else ["#[repr(u8)]"]) ++
    [(enumHead e).text] ++ variants ++ [
    "\x7d",
    "",
    s!"impl TryFrom<u8> for {name} \x7b",
    "    type Error = WireError;",
    "",
    "    fn try_from(value: u8) -> Result<Self, WireError> \x7b",
    "        match value \x7b"] ++ arms ++ [
    s!"            _ => Err(WireError::InvalidEnumValue \x7b name: \"{name}\", value \x7d),",
    "        \x7d",
    "    \x7d",
    "\x7d",
    ""] ++ toByte

/-- A struct with its command id. -/
def structItem (s : Schema) (m : Model) : String :=
  let fields := m.fields.flatMap fun f =>
    slashDoc "    " f.doc ++ [(structField s f).text]
  let idDoc := match m.commandId with
    | none => []
    | some id => ["/// Command ID: " ++ Name.hexByte id]
  let idConst := match m.commandId with
    | none => []
    | some id => [
      s!"impl {m.name} \x7b",
      "    pub const COMMAND_ID: u8 = " ++ Name.hexByte id ++ ";",
      "\x7d",
      ""]
  join <|
    slashDoc "" m.doc ++ idDoc ++
    ["#[derive(Debug, Clone, PartialEq)]", (structHead m).text] ++ fields ++
    ["\x7d", ""] ++ idConst

/-- The body of the function that writes a model. -/
def serializeBody (s : Schema) (m : Model) : List String :=
  if m.fields.isEmpty then ["        Ok(Vec::new())"]
  else
    let writer := match m.fixedSize? with
      | some n => s!"        let mut writer = ByteWriter::with_capacity({n});"
      | none => "        let mut writer = ByteWriter::new();"
    let statements := m.fields.map fun f =>
      "        " ++ writeStatement ("self." ++ fieldName f) (FieldCodec.of s f)
    [writer] ++ statements ++ ["        Ok(writer.data())"]

/-- The body of the function that reads a model. -/
def deserializeBody (s : Schema) (m : Model) : List String :=
  if m.fields.isEmpty then ["        let _ = data;", s!"        Ok({m.name} \x7b\x7d)"]
  else
    let fields := m.fields.map fun f =>
      "            " ++ fieldName f ++ ": " ++ readExpression (FieldCodec.of s f) ++ ","
    ["        let mut reader = ByteReader::new(data);", s!"        Ok({m.name} \x7b"] ++ fields ++
      ["        \x7d)"]

/-- The codec of a model. -/
def codecItem (s : Schema) (m : Model) : String :=
  let size := match m.fixedSize? with
    | some n => s!"Some({n})"
    | none => "None"
  join <| [
    s!"impl WireModel for {m.name} \x7b",
    s!"    const FIXED_SIZE: Option<usize> = {size};",
    "",
    "    fn serialize(&self) -> Result<Vec<u8>, WireError> \x7b"] ++ serializeBody s m ++ [
    "    \x7d",
    "",
    "    fn deserialize(data: &[u8]) -> Result<Self, WireError> \x7b"] ++ deserializeBody s m ++ [
    "    \x7d",
    "\x7d",
    ""]

/-- The module with the command ids. -/
def commandItem (s : Schema) : String :=
  join <| ["/// Command ID constants", moduleHead.text] ++
    (s.commands.map fun c => (commandConstant c).text) ++ ["\x7d", ""]

/-- The head of the file. -/
def head (settings : EmitSettings) (s : Schema) : List String :=
  [ "// Auto-generated binary protocol types. Do not edit.",
    s!"// Generated from: {s.metadata.sourceFile}",
    s!"// Generated at: {s.metadata.parsedAt} (unix time)"] ++
  (if s.namespaceName.isEmpty then [] else [s!"// Namespace: {s.namespaceName}"]) ++
  (match s.metadata.protocolVersion with
    | none => []
    | some version => [s!"// Protocol version: {version}"]) ++ [
    "",
    s!"pub use {settings.runtimeCrate}::\x7b" ++ String.intercalate ", " importedNames ++ "\x7d;",
    ""]

/-- The items of the file. -/
def items (s : Schema) : List String :=
  s.enums.map enumItem ++ s.models.map (fun m => join [structItem s m, codecItem s m]) ++
    [commandItem s]

/-- The emitted file. -/
def files (settings : EmitSettings) (s : Schema) : List OutputFile :=
  [⟨"lib.rs", join (head settings s ++ items s)⟩]

end WireSchema.Emit.Rust
