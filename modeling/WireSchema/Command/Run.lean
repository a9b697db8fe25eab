import WireSchema.Command.Arguments
import WireSchema.Command.FileSystem
import WireSchema.Compile.Emit
import WireSchema.Settings

/-! # Running commands

Every command reads all that it needs, then computes, and writes at the end. -/

namespace WireSchema.Command

/-- Why a command fails. -/
inductive Fault where
  | readSettings (path : String)
  | parseSettings (path : String)
  | noInput
  | unknownLanguage (name : String)
  | readSchema (path : String)
  | compile (error : CompileError)
  | makeDirectory (path : String)
  | writeFile (path : String)

/-- The text about a fault. -/
def Fault.message : Fault → String
  | .readSettings path => "Failed to read " ++ path
  | .parseSettings path => "Failed to parse " ++ path
  | .noInput => "No input schema. Pass --input or set `input` in " ++ Settings.fileName
  | .unknownLanguage name => Language.unknownMessage name
  | .readSchema path => "Failed to read schema " ++ path
  | .compile error => error.message
  | .makeDirectory path => "Failed to create directory " ++ path
  | .writeFile path => "Failed to write " ++ path

/-- The result of a command: what it prints, or why it fails. -/
abbrev Outcome := Except Fault String

/-! ### Paths -/

/-- The last name in a path. -/
def baseName (path : String) : String := (FileTree.names path).getLastD path

/-- A path below a directory. -/
def below (directory path : String) : String :=
  if directory = "" ∨ directory.endsWith "/" then directory ++ path else directory ++ "/" ++ path

/-- The directory of an emitted file. -/
def parent (path : String) : String := "/".intercalate (FileTree.names path).dropLast

/-! ### Settings in effect -/

/-- What `generate` works with. -/
structure Job where
  input : String
  output : String
  languages : List Language
  settings : EmitSettings
  deriving DecidableEq

/-- The languages in effect: those of the options, else those of the settings, else all. -/
def languagesInEffect (o : GenerateOptions) (s : Settings) : Except Fault (List Language) :=
  if o.languages.isEmpty then
    match s.languages? with
    | .error name => .error (.unknownLanguage name)
    | .ok languages => .ok (if languages.isEmpty then Language.all else languages)
  else .ok o.languages

/-- What is in effect: an option, else a setting, else a default. There must be an input. -/
def Job.of (o : GenerateOptions) (s : Settings) : Except Fault Job :=
  match o.input.or s.input with
  | none => .error .noInput
  | some input =>
    match languagesInEffect o s with
    | .error fault => .error fault
    | .ok languages => .ok {
        input := input
        output := (o.output.or s.output).getD "generated"
        languages := languages
        settings := { s.emitSettings with
          protocolVersion := o.protocolVersion.or s.protocolVersion } }

section

variable {m : Type → Type} [Monad m] (fs : FileSystem m) (parse : String → Option Settings)

/-- Reads a settings file, whose text is for `parse` to make sense of. -/
def readSettings (path : String) : m (Except Fault Settings) := do
  match ← fs.readText path with
  | none => return .error (.readSettings path)
  | some text =>
    match parse text with
    | none => return .error (.parseSettings path)
    | some s => return .ok s

/-- The settings in the given file, else in the file of the usual name if there is one. -/
def loadSettings (path : Option String) : m (Except Fault Settings) := do
  match path with
  | some path => readSettings fs parse path
  | none =>
    if ← fs.isPresent Settings.fileName then readSettings fs parse Settings.fileName
    else return .ok .empty

/-- The job that options ask for. -/
def loadJob (o : GenerateOptions) : m (Except Fault Job) := do
  match ← loadSettings fs parse o.config with
  | .error fault => return .error fault
  | .ok s => return Job.of o s

/-- The files of a job. -/
def emitJob (job : Job) (now : Nat) : m (Except Fault (List OutputFile)) := do
  match ← fs.readText job.input with
  | none => return .error (.readSchema job.input)
  | some text =>
    match compile job.settings job.languages text (baseName job.input) now with
    | .error e => return .error (.compile e)
    | .ok files => return .ok files

/-- Writes a file below a directory. -/
def writeFile (directory : String) (file : OutputFile) : m (Option Fault) := do
  let path := below directory file.path
  if ← fs.makeDirs (parent path) then
    if ← fs.writeText path file.content then return none
    else return some (.writeFile path)
  else return some (.makeDirectory (parent path))

/-- Writes files below a directory, up to the first one that fails. -/
def writeFiles (directory : String) : List OutputFile → m (Option Fault)
  | [] => return none
  | file :: files => do
    match ← writeFile fs directory file with
    | some fault => return some fault
    | none => writeFiles directory files

/-- Emits code. -/
def runGenerate (o : GenerateOptions) (now : Nat) : m Outcome := do
  match ← loadJob fs parse o with
  | .error fault => return .error fault
  | .ok job =>
    match ← emitJob fs job now with
    | .error fault => return .error fault
    | .ok files =>
      match ← writeFiles fs job.output files with
      | some fault => return .error fault
      | none => return .ok ""

/-- Prints a schema. -/
def runParse (path : String) (now : Nat) : m Outcome := do
  match ← fs.readText path with
  | none => return .error (.readSchema path)
  | some text =>
    match Schema.document text (baseName path) now with
    | .error e => return .error (.compile e)
    | .ok document => return .ok (document ++ "\n")

/-- A few numbers about a schema. -/
def summary (path : String) (s : Schema) : String :=
  let fixed := s.models.countP fun m => m.fixedSize?.isSome
  String.join <|
    [s!"{path}: ok\n"] ++
    (if s.namespaceName.isEmpty then [] else [s!"  namespace: {s.namespaceName}\n"]) ++
    [ s!"  enums:     {s.enums.length}\n",
      s!"  models:    {s.models.length} ({fixed} fixed size)\n",
      s!"  commands:  {s.commands.length}\n"]

/-- Checks a schema. -/
def runCheck (path : String) (now : Nat) : m Outcome := do
  match ← fs.readText path with
  | none => return .error (.readSchema path)
  | some text =>
    match Schema.ofText text (baseName path) now with
    | .error e => return .error (.compile e)
    | .ok s => return .ok (summary path s)

/-- Runs a command. -/
def Action.run (action : Action) (now : Nat) : m Outcome :=
  match action with
  | .generate options => runGenerate fs Settings.ofText? options now
  | .parse path => runParse fs path now
  | .check path => runCheck fs path now

end

end WireSchema.Command
