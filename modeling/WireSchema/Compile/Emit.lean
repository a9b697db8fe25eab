import WireSchema.Compile.Parse
import WireSchema.Emit.Cpp
import WireSchema.Emit.Rust
import WireSchema.Emit.TypeScript

/-! # From text to code -/

namespace WireSchema

/-- The files of one language. -/
def Schema.emitIn (settings : EmitSettings) (s : Schema) : Language → List OutputFile
  | .rust => Emit.Rust.files settings s
  | .typeScript => Emit.TypeScript.files s
  | .cpp => Emit.Cpp.files settings s

/-- The files of some languages, each in the directory of its language. -/
def Schema.emit (settings : EmitSettings) (languages : List Language) (s : Schema) :
    List OutputFile :=
  languages.flatMap fun language =>
    (s.emitIn settings language).map fun file =>
      { file with path := language.dirName ++ "/" ++ file.path }

/-- A schema that carries the protocol version of the settings, if they have one. -/
def Schema.withVersion (settings : EmitSettings) (s : Schema) : Schema :=
  match settings.protocolVersion with
  | none => s
  | some version => { s with metadata := { s.metadata with protocolVersion := some version } }

/-- The code for a schema text. -/
def compile (settings : EmitSettings) (languages : List Language) (text sourceFile : String)
    (parsedAt : Nat) : Except CompileError (List OutputFile) :=
  match Schema.ofText text sourceFile parsedAt with
  | .error e => .error e
  | .ok s => .ok ((s.withVersion settings).emit settings languages)

end WireSchema
