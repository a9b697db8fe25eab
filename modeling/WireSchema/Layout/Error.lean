import WireSchema.Text.Quoted

/-! # Errors of the layout -/

namespace WireSchema

/-- Why the fields of a schema have no places. -/
inductive LayoutFault where
  /-- Models that hold each other; the first and the last name are the same. -/
  | cycle (path : List String)
  | unknownModel (name : String)
  /-- A field that takes the rest of the message and is not the last one. -/
  | notLast (field model : String)
  /-- A field with which a model gets 2 ^ 64 bytes or more. -/
  | tooLarge (model field : String)
  /-- A model of varying size with no length in front. -/
  | needsPrefix (field model nested : String)
  /-- Array elements that take no bytes. -/
  | emptyElements (field model element : String)
  /-- Array elements that differ in size. -/
  | varyingElements (field model element : String)
  deriving DecidableEq

/-- The text of a fault. -/
def LayoutFault.message : LayoutFault → String
  | .cycle path => "Cyclic model reference: " ++ String.intercalate " -> " path
  | .unknownModel name => "Layout error: Unknown model " ++ Text.quote name
  | .notLast field model =>
    "Layout error: Field " ++ Text.quote field ++ " of model " ++ Text.quote model ++
      " takes the rest of the buffer and must be the last field; add @size or @length_prefix"
  | .tooLarge model field =>
    "Layout error: Model " ++ Text.quote model ++ " is too large; field " ++ Text.quote field ++
      " overflows its size"
  | .needsPrefix field model nested =>
    "Layout error: Field " ++ Text.quote field ++ " of model " ++ Text.quote model ++
      " nests the variable-length model " ++ Text.quote nested ++ " and needs @length_prefix"
  | .emptyElements field model element =>
    "Layout error: Array field " ++ Text.quote field ++ " of model " ++ Text.quote model ++
      " has elements of type " ++ Text.quote element ++ " that take no bytes"
  | .varyingElements field model element =>
    "Layout error: Array field " ++ Text.quote field ++ " of model " ++ Text.quote model ++
      " needs elements of fixed size, but " ++ Text.quote element ++ " has none"

end WireSchema
