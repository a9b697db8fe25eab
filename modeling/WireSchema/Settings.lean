import WireSchema.Emit.Basic
import WireSchema.Toml.Document

/-! # Settings

What a settings file can set. Nothing in it is required. -/

namespace WireSchema

/-- The contents of a settings file. -/
structure Settings where
  input : Option String
  output : Option String
  languages : List String
  protocolVersion : Option String
  runtimeCrate : Option String
  cppNamespace : Option String
  deriving DecidableEq

namespace Settings

/-- Nothing is set. -/
def empty : Settings := ⟨none, none, [], none, none, none⟩

/-- The name of the settings file that is used if no other is given. -/
def fileName : String := "tbs.toml"

/-- The text that a value is. -/
def text? : Toml.Value → Option String
  | .text s => some s
  | _ => none

/-- The setting of a table whose only key is the given one. In a list the setting comes first, and
what follows is not looked at. -/
def only? (key : String) : Toml.Value → Option (Option String)
  | .list (.text s :: _) => some (some s)
  | .table [] => some none
  | .table [([k], .text s)] => if k = key then some (some s) else none
  | _ => none

/-- Sets one key. A key that is unknown or set to a value of the wrong kind is refused. -/
def set? (s : Settings) : Toml.Key × Toml.Value → Option Settings
  | (["input"], .text path) => some { s with input := some path }
  | (["output"], .text path) => some { s with output := some path }
  | (["languages"], .list names) =>
    (names.mapM text?).map fun names => { s with languages := names }
  | (["protocol_version"], .text version) => some { s with protocolVersion := some version }
  | (["rust"], value) =>
    (only? "runtime_crate" value).map fun crate => { s with runtimeCrate := crate }
  | (["rust", "runtime_crate"], .text crate) => some { s with runtimeCrate := some crate }
  | (["cpp"], value) => (only? "namespace" value).map fun name => { s with cppNamespace := name }
  | (["cpp", "namespace"], .text name) => some { s with cppNamespace := some name }
  | _ => none

/-- Reads the text of a settings file. -/
def ofText? (text : String) : Option Settings :=
  match Toml.ofText? text with
  | none => none
  | some entries => entries.foldlM set? empty

/-- The languages that are set, or the first name that is none. -/
def languages? (s : Settings) : Except String (List Language) := s.languages.mapM Language.ofName

/-- The settings for the emitted code. -/
def emitSettings (s : Settings) : EmitSettings :=
  ⟨s.protocolVersion, s.runtimeCrate.getD EmitSettings.default.runtimeCrate, s.cppNamespace⟩

end Settings

end WireSchema
