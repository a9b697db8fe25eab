import WireSchema.Layout.Basic
import WireSchema.Parse.Schema
import WireSchema.Schema.Json
import WireSchema.Schema.Verify

/-! # From text to schema

A schema text is split into tokens, read, verified and laid out. The first step that fails gives
the error. -/

namespace WireSchema

/-- Why a schema text is refused. -/
inductive CompileError where
  | parse (e : ParseError)
  | verify (fault : VerifyFault)
  | layout (fault : LayoutFault)
  deriving DecidableEq

/-- The text of an error. -/
def CompileError.message : CompileError → String
  | .parse e => e.message
  | .verify fault => "Verifier error: " ++ fault.message
  | .layout fault => fault.message

namespace Schema

/-- The schema that a text declares, before it has been verified. -/
def read (text sourceFile : String) (parsedAt : Nat) : Except CompileError Schema :=
  match Token.ofText text with
  | .error e => .error (.parse e)
  | .ok ts =>
    match ofTokens sourceFile parsedAt ts with
    | .error e => .error (.parse e)
    | .ok s => .ok s

/-- A schema verified and laid out. -/
def completed (s : Schema) : Except CompileError Schema :=
  match s.verify with
  | (_, some fault) => .error (.verify fault)
  | (s, none) =>
    match s.layout with
    | .error fault => .error (.layout fault)
    | .ok s => .ok s

/-- The schema that a text declares, verified and laid out. -/
def ofText (text sourceFile : String) (parsedAt : Nat) : Except CompileError Schema :=
  match read text sourceFile parsedAt with
  | .error e => .error e
  | .ok s => s.completed

/-- The JSON document of the schema that a text declares. -/
def document (text sourceFile : String) (parsedAt : Nat) : Except CompileError String :=
  match ofText text sourceFile parsedAt with
  | .error e => .error e
  | .ok s => .ok s.toJson.render

end Schema

end WireSchema
