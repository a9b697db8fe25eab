import WireSchema.Codec.Field
import WireSchema.Name.Reserved
import WireSchema.Text.Blank

/-! # Emitted code

Code is emitted in three languages as lists of lines. Here is what they have in common: the files,
the settings, and how doc comments are carried over. -/

namespace WireSchema

/-- The languages that code is emitted in. -/
inductive Language where
  | rust
  | typeScript
  | cpp
  deriving DecidableEq

namespace Language

/-- All languages, in the order in which they are emitted by default. -/
def all : List Language := [.rust, .typeScript, .cpp]

/-- The name of a language, which is also the directory of its files. -/
def dirName : Language → String
  | .rust => "rust"
  | .typeScript => "typescript"
  | .cpp => "cpp"

/-- Reads the name of a language, without regard to blanks around it and to the case of ASCII
letters. A name that is none is returned in lower case. -/
def ofName (name : String) : Except String Language :=
  let key := String.ofList ((Text.trim name.toList).map Text.toLowerAscii)
  if key = "rust" ∨ key = "rs" then .ok .rust
  else if key = "typescript" ∨ key = "ts" then .ok .typeScript
  else if key = "cpp" ∨ key = "c++" then .ok .cpp
  else .error key

/-- The text about a name that is no language. -/
def unknownMessage (name : String) : String :=
  "unknown language \"" ++ name ++ "\" (expected rust, typescript or cpp)"

end Language

/-- An emitted file. -/
structure OutputFile where
  path : String
  content : String
  deriving DecidableEq

/-- What can be set for the emitted code. -/
structure EmitSettings where
  /-- Written into the head of every file. -/
  protocolVersion : Option String
  /-- The crate that emitted Rust takes its support types from. -/
  runtimeCrate : String
  /-- The namespace of emitted C++, if it is not to be derived from the schema. -/
  cppNamespace : Option String
  deriving DecidableEq

/-- The settings if nothing is set. -/
def EmitSettings.default : EmitSettings := ⟨none, "tbs_wire", none⟩

namespace Emit

/-- Lines as one text. The last line has no line feed behind it. -/
def join (lines : List String) : String := String.intercalate "\n" lines

/-- A declaration in emitted code, or the line that it starts with: a name and the text around
it. -/
structure Declaration where
  before : String
  name : String
  behind : String

/-- A declaration as it is emitted. -/
def Declaration.text (d : Declaration) : String := d.before ++ d.name ++ d.behind

/-- The lines of a doc comment. -/
def docLines (doc : Option String) : List String :=
  match doc with
  | none => []
  | some text => Text.linesOf text

/-- A line without the blanks at its end. -/
def trimEnd (line : String) : String := String.ofList (Text.trimEnd line.toList)

/-- A doc comment with three slashes in front of each line. -/
def slashDoc (indent : String) (doc : Option String) : List String :=
  (docLines doc).map fun line => trimEnd (indent ++ "/// " ++ line)

end Emit

end WireSchema
