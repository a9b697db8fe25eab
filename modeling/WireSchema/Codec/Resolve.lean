import WireSchema.Codec.Shape
import WireSchema.Layout.Basic

/-! # Shapes of models

The shape of a model is found by following its references. Each step down leaves out the models on
the way, so the search ends; there is no shape for a model that holds itself, or one that is not
laid out. -/

namespace WireSchema

namespace Schema

/-- The shape of an enum. -/
def choice? (s : Schema) (name : String) : Option Shape :=
  (s.enum? name).map fun e => .choice e.name (e.members.map (·.value))

/-- The shape of an element of an array; `find` gives the fields of the models in it. -/
def elementShape? (s : Schema) (find : String → Option Fields) : ElementCodec → Option Shape
  | .scalar (.scalar k) => some (.scalar k)
  | .scalar _ => none
  | .enum name => s.choice? name
  | .model name size => (find name).map (.nested size)

/-- The shape of a field with the given codec. -/
def fieldShape? (s : Schema) (find : String → Option Fields) : FieldCodec → Option Shape
  | .scalar (.scalar k) => some (.scalar k)
  | .scalar _ => none
  | .fixedString n => some (.fixedText n)
  | .fixedBytes n => some (.fixedBytes n)
  | .prefixedString p => p.toLengthPrefix?.map .prefixedText
  | .prefixedBytes p => p.toLengthPrefix?.map .prefixedBytes
  | .remainingString => some .restText
  | .remainingBytes => some .restBytes
  | .enum name => s.choice? name
  | .model name size => (find name).map (.nested size)
  | .prefixedModel name p =>
    match p.toLengthPrefix?, find name with
    | some p, some fs => some (.prefixedNested p fs)
    | _, _ => none
  | .prefixedArray element p =>
    match p.toLengthPrefix?, elementShape? s find element with
    | some p, some item => some (.prefixedList p item)
    | _, _ => none
  | .remainingArray element => (elementShape? s find element).map .restList

/-- The shapes of some fields. -/
def fieldShapes? (s : Schema) (find : String → Option Fields) : List Field → Option Fields
  | [] => some .nil
  | f :: rest =>
    match fieldShape? s find (FieldCodec.of s f), fieldShapes? s find rest with
    | some shape, some rest => some (.cons f.name shape rest)
    | _, _ => none

/-- The fields of the messages of a model; `ms` are the models that may be used. -/
def modelFields? (s : Schema) (ms : List Model) (name : String) : Option Fields :=
  match _h : ms.find? (·.name == name) with
  | none => none
  | some m => fieldShapes? s (modelFields? s (Layout.without ms name)) m.fields
termination_by ms.length
decreasing_by exact Layout.length_without_find?_lt _h

/-- The fields of the messages of a model. -/
def messageFields? (s : Schema) (name : String) : Option Fields := s.modelFields? s.models name

end Schema

end WireSchema
