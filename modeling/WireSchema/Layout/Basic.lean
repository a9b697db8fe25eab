import WireSchema.Layout.Error
import WireSchema.Schema.Basic

/-! # Layout

The layout gives every model its size and every field its place, as far as they are the same in
all messages. The size of a model depends on the models that its fields hold, so these are laid out
first; the sizes found are kept, and a model that is met again on the way down to itself is a
cycle. Each step down leaves out the models on the way, which is why the descent ends. -/

namespace WireSchema

namespace Layout

/-- How many bytes a field takes. -/
inductive Width where
  | fixed (bytes : Nat)
  /-- A payload with its length in front. -/
  | prefixed
  /-- All that is left of the message. -/
  | unbounded
  deriving DecidableEq

/-- What the layout finds out about a field. -/
structure Place where
  /-- How many bytes stand before it, if that is known. -/
  offset : Option Nat
  /-- The size of an enum or a model in the field. -/
  size : Option Nat
  deriving DecidableEq

/-- What the layout finds out about a model. -/
structure ModelLayout where
  wireSize : WireSize
  /-- One place for each field. -/
  places : List Place
  deriving DecidableEq

/-- The layouts that have been found, by the names of their models. -/
abbrev Known := List (String × ModelLayout)

/-- The last model of the given name. -/
def lastNamed? (ms : List Model) (name : String) : Option Model :=
  ms.reverse.find? (·.name == name)

/-- The models that have another name. -/
def without (ms : List Model) (name : String) : List Model := ms.filter (·.name != name)

/-- The greatest size of a model. -/
def maxSize : Nat := Nat.pow 2 64 - 1

/-- The part of a model in front of a field: its fixed-width fields together, and whether all of
them are fixed. -/
structure Progress where
  total : Nat
  allFixed : Bool

/-- The place behind which `p` stands. -/
def Progress.offset (p : Progress) : Option Nat := if p.allFixed then some p.total else none

/-- The size of a model whose fields all stand in front. -/
def Progress.wireSize (p : Progress) : WireSize :=
  if p.allFixed then .fixed p.total else .varying

/-- One more field. A field that takes the rest must be the last one, and the size must stay within
its bound. -/
def Progress.add (p : Progress) (model : Model) (field : Field) (isLast : Bool) :
    Width → Except LayoutFault Progress
  | .fixed n =>
    if p.total + n ≤ maxSize then .ok ⟨p.total + n, p.allFixed⟩
    else .error (.tooLarge model.name field.name)
  | .prefixed => .ok ⟨p.total, false⟩
  | .unbounded =>
    if isLast then .ok ⟨p.total, false⟩ else .error (.notLast field.name model.name)

/-- The models that have to be laid out for a field, at most one. -/
def needs (f : Field) : Option String :=
  match f.type with
  | .model name => some name
  | .array (.model name) => some name
  | _ => none

/-- The size of the elements of an array, where `nested` is the size of a model in it. -/
def elementSize (nested : Option WireSize) : TypeRef → Option Nat
  | .primitive p => p.naturalSize
  | .enum _ => some 1
  | .model _ => nested.bind WireSize.fixed?
  | .array _ => none

/-- Elements must have a size, and not the size 0, since they are read until no bytes are left. -/
def checkElements (model : Model) (field : Field) (nested : Option WireSize) (element : TypeRef) :
    Except LayoutFault Unit :=
  match elementSize nested element with
  | some 0 => .error (.emptyElements field.name model.name element.name)
  | some _ => .ok ()
  | none => .error (.varyingElements field.name model.name element.name)

/-- The width of a field, and the size that it gets from the enum or model in it; `nested` is the
size of that model. -/
def fieldWidth (model : Model) (field : Field) (nested : Option WireSize) :
    Except LayoutFault (Width × Option Nat) :=
  if field.size.lengthPrefix.isSome then
    match field.type with
    | .array element => do
      checkElements model field nested element
      return (.prefixed, none)
    | _ => .ok (.prefixed, none)
  else
    match field.type with
    | .enum _ => .ok (.fixed 1, some 1)
    | .model name =>
      match nested.bind WireSize.fixed? with
      | some n => .ok (.fixed n, some n)
      | none => .error (.needsPrefix field.name model.name name)
    | .array element => do
      checkElements model field nested element
      return (.unbounded, none)
    | .primitive p =>
      match field.size.fixed.or p.naturalSize with
      | some n => .ok (.fixed n, none)
      | none => .ok (.unbounded, none)

theorem length_without_lt {ms : List Model} {m : Model} (hm : m ∈ ms) :
    (without ms m.name).length < ms.length :=
  List.length_filter_lt_length_iff_exists.2 ⟨m, hm, by simp⟩

theorem length_without_find?_lt {ms : List Model} {name : String} {m : Model}
    (h : ms.find? (·.name == name) = some m) : (without ms name).length < ms.length := by
  have hn : m.name = name := by simpa using List.find?_some h
  rw [← hn]
  exact length_without_lt (List.mem_of_find?_eq_some h)

theorem length_without_lastNamed?_lt {ms : List Model} {name : String} {m : Model}
    (h : lastNamed? ms name = some m) : (without ms name).length < ms.length := by
  have hn : m.name = name := by simpa using List.find?_some h
  rw [← hn]
  exact length_without_lt (List.mem_reverse.1 (List.mem_of_find?_eq_some h))

/-- A way to find the layout of a model by its name, given the layouts that are known. -/
abbrev Finder := Known → String → Except LayoutFault (ModelLayout × Known)

/-- The size of the model that a field holds, if it holds one. -/
def nestedSize (find : Finder) (known : Known) (f : Field) :
    Except LayoutFault (Option WireSize × Known) :=
  match needs f with
  | none => .ok (none, known)
  | some name =>
    match find known name with
    | .error e => .error e
    | .ok (found, known) => .ok (some found.wireSize, known)

/-- The size of a model and the places of some of its fields, behind those that `p` sums up. -/
def fieldPlaces (find : Finder) (m : Model) (known : Known) (p : Progress) :
    List Field → Except LayoutFault (ModelLayout × Known)
  | [] => .ok (⟨p.wireSize, []⟩, known)
  | f :: rest =>
    match nestedSize find known f with
    | .error e => .error e
    | .ok (nested, known) =>
      match fieldWidth m f nested with
      | .error e => .error e
      | .ok (width, size) =>
        match p.add m f rest.isEmpty width with
        | .error e => .error e
        | .ok p' =>
          match fieldPlaces find m known p' rest with
          | .error e => .error e
          | .ok (found, known) => .ok (⟨found.wireSize, ⟨p.offset, size⟩ :: found.places⟩, known)

/-- The layout of the model of the given name, where `path` are the models on the way down to it
and `ms` the other ones. -/
def modelLayout (ms : List Model) (path : List String) (known : Known) (name : String) :
    Except LayoutFault (ModelLayout × Known) :=
  match known.lookup name with
  | some found => .ok (found, known)
  | none =>
    if path.contains name then .error (.cycle (path.dropWhile (· != name) ++ [name]))
    else
      match _h : lastNamed? ms name with
      | none => .error (.unknownModel name)
      | some m =>
        match fieldPlaces (modelLayout (without ms name) (path ++ [name])) m known ⟨0, true⟩
          m.fields with
        | .error e => .error e
        | .ok (found, known) => .ok (found, (name, found) :: known)
termination_by ms.length
decreasing_by exact length_without_lastNamed?_lt _h

/-- The layouts of the models in a list, out of those of the schema. -/
def modelLayouts (ms : List Model) (known : Known) :
    List Model → Except LayoutFault (List ModelLayout)
  | [] => .ok []
  | m :: rest =>
    match modelLayout ms [] known m.name with
    | .error e => .error e
    | .ok (found, known) =>
      match modelLayouts ms known rest with
      | .error e => .error e
      | .ok layouts => .ok (found :: layouts)

/-- A field at its place. -/
def place (f : Field) (p : Place) : Field :=
  { f with offset := p.offset, size := { f.size with fixed := p.size.or f.size.fixed } }

/-- Fields at their places; a field without a place stays as it is. -/
def placeAll : List Field → List Place → List Field
  | f :: fs, p :: ps => place f p :: placeAll fs ps
  | fs, _ => fs

/-- A model with its size and the places of its fields. -/
def apply (m : Model) (found : ModelLayout) : Model :=
  { m with wireSize := found.wireSize, fields := placeAll m.fields found.places }

end Layout

/-- A schema with the sizes of its models and the places of their fields. -/
def Schema.layout (s : Schema) : Except LayoutFault Schema :=
  match Layout.modelLayouts s.models [] s.models with
  | .error e => .error e
  | .ok layouts => .ok { s with models := List.zipWith Layout.apply s.models layouts }

end WireSchema
