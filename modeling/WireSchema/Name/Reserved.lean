import WireSchema.Name.Snake

/-! # Reserved words

The words of the three languages that code is written in, and how a name of a schema is changed
where it would be one of them: an underscore is put at its end. Type names are never changed, so a
schema may not use a reserved one. -/

namespace WireSchema.Name

/-- Keywords of Rust. -/
def rustKeywords : List String := [
  "as", "async", "await", "break", "const", "continue", "crate", "dyn", "else", "enum", "extern",
  "false", "fn", "for", "if", "impl", "in", "let", "loop", "match", "mod", "move", "mut", "pub",
  "ref", "return", "self", "Self", "static", "struct", "super", "trait", "true", "type", "unsafe",
  "use", "where", "while"]

/-- Keywords of C++. -/
def cppKeywords : List String := [
  "alignas", "alignof", "and", "and_eq", "asm", "auto", "bitand", "bitor", "bool", "break",
  "case", "catch", "char", "char16_t", "char32_t", "class", "compl", "const", "constexpr",
  "const_cast", "continue", "decltype", "default", "delete", "do", "double", "dynamic_cast",
  "else", "enum", "explicit", "export", "extern", "false", "float", "for", "friend", "goto",
  "if", "inline", "int", "long", "mutable", "namespace", "new", "noexcept", "not", "not_eq",
  "nullptr", "operator", "or", "or_eq", "private", "protected", "public", "register",
  "reinterpret_cast", "return", "short", "signed", "sizeof", "static", "static_assert",
  "static_cast", "struct", "switch", "template", "this", "thread_local", "throw", "true",
  "try", "typedef", "typeid", "typename", "union", "unsigned", "using", "virtual", "void",
  "volatile", "wchar_t", "while", "xor", "xor_eq"]

/-- Constants that a C++ struct can have beside its fields. -/
def cppStructConstants : List String := ["COMMAND_ID", "FIXED_SIZE"]

/-- Words that TypeScript takes for no interface or enum name. -/
def typeScriptReserved : List String := [
  "any", "bigint", "boolean", "break", "case", "catch", "class", "const", "continue",
  "debugger", "default", "delete", "do", "else", "enum", "export", "extends", "false",
  "finally", "for", "function", "if", "implements", "import", "in", "instanceof",
  "interface", "let", "never", "new", "null", "number", "object", "package", "private",
  "protected", "public", "return", "static", "string", "super", "switch", "symbol", "this",
  "throw", "true", "try", "typeof", "undefined", "unknown", "var", "void", "while", "with",
  "yield"]

/-- Names that the emitted code uses for its own support types. -/
def supportNames : List String := [
  "ByteWriter", "ByteReader", "WireError", "LengthPrefix", "WireModel", "BinaryWriter",
  "BinaryReader", "BufferUnderflowError", "EnumDecodeError", "LengthOverflowError", "CommandIds",
  "CommandId"]

/-- A name with an underscore at its end if it is one of the given words. -/
def escape (words : List String) (name : String) : String :=
  if words.contains name then name ++ "_" else name

/-- A name as an identifier of Rust. -/
def rustName (name : String) : String := escape rustKeywords name

/-- A field name as it stands in a Rust struct. -/
def rustField (name : String) : String := rustName (snake name)

/-- A name as a member of a C++ enum or struct. -/
def cppName (name : String) : String := escape (cppKeywords ++ cppStructConstants) name

/-- Whether some of the three languages cannot have a type of this name. -/
def isReservedType (name : String) : Bool :=
  rustKeywords.contains name || cppKeywords.contains name || typeScriptReserved.contains name

/-! ### Bytes in hexadecimal -/

/-- A hexadecimal digit in upper case. -/
def upperHexDigit (n : Nat) : Char :=
  if n < 10 then Char.ofNat (48 + n) else Char.ofNat (55 + n)

/-- A byte as it is written in emitted code and messages: `0x0A`. -/
def hexByte (b : UInt8) : String :=
  String.ofList ['0', 'x', upperHexDigit (b.toNat / 16), upperHexDigit (b.toNat % 16)]

end WireSchema.Name
