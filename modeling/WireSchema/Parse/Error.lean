import WireSchema.Schema.DecoratorRule
import WireSchema.Text.Quoted

/-! # Errors in a schema text -/

namespace WireSchema

/-- What is wrong with a schema text. -/
inductive ParseFault where
  /-- A quote that no later one closes. -/
  | unterminatedString
  /-- Another token than the expected one, or the end of the text. -/
  | expected (what : String) (found : Option String)
  /-- A decorator that cannot stand where it does. -/
  | decorator (fault : DecoratorFault)
  /-- A number that cannot be read. -/
  | invalidNumber (text : String)
  /-- An enum member whose value needs more than one byte. -/
  | memberValue (value : Nat) (name : String)
  /-- A question mark behind a field or its type. -/
  | optionalField
  deriving DecidableEq

/-- The text of a fault. -/
def ParseFault.message : ParseFault → String
  | .unterminatedString => "unterminated string literal"
  | .expected what none => s!"Expected {what} but found end of input"
  | .expected what (some found) => s!"Expected {what} but found " ++ Text.quote found
  | .decorator fault => fault.message
  | .invalidNumber text => "Invalid number " ++ Text.quote text
  | .memberValue value name =>
    s!"Value {value} of enum member " ++ Text.quote name ++ " does not fit in uint8"
  | .optionalField => "Optional fields are not supported by the wire format"

/-- A fault and its place in the text. -/
structure ParseError where
  position : Position
  fault : ParseFault
  deriving DecidableEq

/-- The text of an error. -/
def ParseError.message (e : ParseError) : String :=
  s!"Parse error at line {e.position.line}, column {e.position.column}: " ++ e.fault.message

end WireSchema
