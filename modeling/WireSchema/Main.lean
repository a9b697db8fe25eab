import Std.Time.DateTime.Timestamp
import WireSchema.Command.Help
import WireSchema.Command.Run

/-! # The program -/

namespace WireSchema

open Command

/-- The result of an action, if it does not fail. -/
def attempt {α : Type} (action : IO α) : IO (Option α) := do
  try
    return some (← action)
  catch _ => return none

/-- The file system of the machine. -/
def machineFiles : FileSystem IO where
  isPresent path := do return (← attempt (IO.FS.realPath path)).isSome
  readText path := do
    match ← attempt (IO.FS.readBinFile path) with
    | none => return none
    | some bytes => return String.fromUTF8? bytes
  makeDirs path := do return (← attempt (IO.FS.createDirAll path)).isSome
  writeText path text := do return (← attempt (IO.FS.writeBinFile path text.toUTF8)).isSome

/-- The time in seconds. -/
def now : IO Nat := do
  return (← Std.Time.Timestamp.now).toSecondsSinceUnixEpoch.val.toNat

/-- Does what is asked for, and returns the exit code. -/
def answer : Request → IO UInt32
  | .version => do
    IO.print versionText
    return 0
  | .help none => do
    IO.print helpText
    return 0
  | .help (some topic) => do
    IO.print topic.helpText
    return 0
  | .helpOnHelp => do
    IO.print helpOnHelpText
    return 0
  | .run action => do
    match ← action.run machineFiles (← now) with
    | .ok output =>
      IO.print output
      return 0
    | .error fault =>
      IO.eprintln ("Error: " ++ fault.message)
      return 1

end WireSchema

/-- Runs the program. -/
def main (arguments : List String) : IO UInt32 := do
  match WireSchema.Command.Request.ofArguments? arguments with
  | some request => WireSchema.answer request
  | none =>
    IO.eprint WireSchema.Command.helpText
    return 2
