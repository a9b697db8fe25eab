import WireSchema.Name.Reserved
import WireSchema.Schema.Basic
import WireSchema.Text.Quoted

/-! # Verification

A schema is verified in five steps: type names are new and free, members of an enum differ in name
and value, command ids differ, fields differ in name and refer to types that exist, and names still
differ after they have been changed for the emitted code. In the fourth step each reference to a
type is marked as one to an enum or to a model; if the step fails, the fields before the failure
keep their marks. -/

namespace WireSchema

/-- Why a schema is refused. -/
inductive VerifyFault where
  | typeTwice (name : String) (line : Nat)
  | typeReserved (name : String) (line : Nat)
  | memberTwice (name owner : String)
  | valueTwice (value : UInt8) (name previous owner : String)
  | commandTwice (id : UInt8) (name previous : String)
  | fieldTwice (name owner : String) (line : Nat)
  | typeUndefined (type name : String) (line : Nat)
  | enumWithPrefix (name : String) (line : Nat)
  | sameName (previous name owner generated : String)
  deriving DecidableEq

/-- The text of a fault. -/
def VerifyFault.message : VerifyFault → String
  | .typeTwice name line => "The type " ++ Text.quote name ++ s!" is defined twice (line {line})"
  | .typeReserved name line => "The type name " ++ Text.quote name ++ s!" is reserved (line {line})"
  | .memberTwice name owner =>
    "The member " ++ Text.quote name ++ " is defined twice in enum " ++ Text.quote owner
  | .valueTwice value name previous owner =>
    s!"The value {value} of member " ++ Text.quote name ++ " is already used by " ++
      Text.quote previous ++ " in enum " ++ Text.quote owner
  | .commandTwice id name previous =>
    "The command id " ++ Name.hexByte id ++ " of model " ++ Text.quote name ++
      " is already used by " ++ Text.quote previous
  | .fieldTwice name owner line =>
    "The field " ++ Text.quote name ++ " is defined twice in model " ++ Text.quote owner ++
      s!" (line {line})"
  | .typeUndefined type name line =>
    "The type " ++ Text.quote type ++ " is not defined for field " ++ Text.quote name ++
      s!" (line {line})"
  | .enumWithPrefix name line =>
    "The enum field " ++ Text.quote name ++ s!" cannot have a length prefix (line {line})"
  | .sameName previous name owner generated =>
    "The names " ++ Text.quote previous ++ " and " ++ Text.quote name ++ " in " ++ owner ++
      " both generate " ++ Text.quote generated

namespace Verify

/-! ### Type names -/

/-- The first type name that is taken or reserved. Names come with their lines. -/
def typeNames (seen : List String) : List (String × Nat) → Option VerifyFault
  | [] => none
  | (name, line) :: rest =>
    if seen.contains name || (Primitive.ofName? name).isSome then some (.typeTwice name line)
    else if Name.supportNames.contains name || Name.isReservedType name then
      some (.typeReserved name line)
    else typeNames (name :: seen) rest

/-- The names of the types of a schema: first the enums, then the models. -/
def declaredNames (s : Schema) : List (String × Nat) :=
  s.enums.map (fun e => (e.name, e.position.line)) ++
    s.models.map (fun m => (m.name, m.position.line))

/-! ### Members and command ids -/

/-- The first member of an enum whose name or value stands among the members before. -/
def members (owner : String) (seen : List Member) : List Member → Option VerifyFault
  | [] => none
  | m :: rest =>
    if seen.any (·.name == m.name) then some (.memberTwice m.name owner)
    else
      match seen.find? (·.value == m.value) with
      | some previous => some (.valueTwice m.value m.name previous.name owner)
      | none => members owner (m :: seen) rest

/-- The first command whose id stands among the commands before. -/
def commandIds (seen : List (Model × UInt8)) : List (Model × UInt8) → Option VerifyFault
  | [] => none
  | (m, id) :: rest =>
    match seen.find? (·.2 == id) with
    | some (previous, _) => some (.commandTwice id m.name previous.name)
    | none => commandIds ((m, id) :: seen) rest

/-! ### References to types -/

/-- The type that a name is defined as in a schema. -/
def definition? (s : Schema) (name : String) : Option TypeRef :=
  if s.enums.any (·.name == name) then some (.enum name)
  else if s.models.any (·.name == name) then some (.model name)
  else none

/-- A type whose name is marked as that of an enum or of a model, or the name if it is not
defined. -/
def resolve (s : Schema) : TypeRef → Except String TypeRef
  | .primitive p => .ok (.primitive p)
  | .array element =>
    match resolve s element with
    | .ok element => .ok (.array element)
    | .error name => .error name
  | .enum name => match definition? s name with
    | some t => .ok t
    | none => .error name
  | .model name => match definition? s name with
    | some t => .ok t
    | none => .error name

/-- Whether a field has a length in front of a single enum value. -/
def prefixesEnum (f : Field) : Bool :=
  match f.type with
  | .enum _ => f.size.lengthPrefix.isSome
  | _ => false

/-- The fields of a model with their references marked, up to the first fault. -/
def fields (s : Schema) (owner : String) (seen : List String) :
    List Field → List Field × Option VerifyFault
  | [] => ([], none)
  | f :: rest =>
    if seen.contains f.name then (f :: rest, some (.fieldTwice f.name owner f.position.line))
    else
      match resolve s f.type with
      | .error type => (f :: rest, some (.typeUndefined type f.name f.position.line))
      | .ok type =>
        let f := { f with type := type }
        if prefixesEnum f then (f :: rest, some (.enumWithPrefix f.name f.position.line))
        else
          let (rest, fault) := fields s owner (f.name :: seen) rest
          (f :: rest, fault)

/-- The models with the references of their fields marked, up to the first fault. -/
def models (s : Schema) : List Model → List Model × Option VerifyFault
  | [] => ([], none)
  | m :: rest =>
    match fields s m.name [] m.fields with
    | (fs, some fault) => ({ m with fields := fs } :: rest, some fault)
    | (fs, none) =>
      let (rest, fault) := models s rest
      ({ m with fields := fs } :: rest, fault)

/-! ### Names in emitted code -/

/-- The first name that is changed to the same name as one before; `seen` are the changed names
with the names they come from. -/
def distinct (rename : String → String) (owner : String) (seen : List (String × String)) :
    List String → Option VerifyFault
  | [] => none
  | name :: rest =>
    let generated := rename name
    match seen.lookup generated with
    | some previous => some (.sameName previous name owner generated)
    | none => distinct rename owner ((generated, name) :: seen) rest

/-- The names of the members of an enum. -/
def enumNames (e : Enum) : Option VerifyFault :=
  let names := e.members.map (·.name)
  let owner := "enum " ++ Text.quote e.name
  (distinct Name.rustName owner [] names).or (distinct Name.cppName owner [] names)

/-- The names of the fields of a model. -/
def modelNames (m : Model) : Option VerifyFault :=
  let names := m.fields.map (·.name)
  let owner := "model " ++ Text.quote m.name
  (distinct Name.rustField owner [] names).or (distinct Name.cppName owner [] names)

/-- The names of the constants for the command ids. -/
def commandNames (s : Schema) : Option VerifyFault :=
  distinct Name.upperSnake "the command id table" [] (s.commands.map (·.1.name))

/-- The steps before references are marked. -/
def declarations (s : Schema) : Option VerifyFault :=
  (typeNames [] (declaredNames s)).or <|
    (s.enums.findSome? fun e => members e.name [] e.members).or (commandIds [] s.commands)

/-- The step behind: names must still differ in emitted code. -/
def generatedNames (s : Schema) : Option VerifyFault :=
  (s.enums.findSome? enumNames).or <| (s.models.findSome? modelNames).or (commandNames s)

end Verify

/-- Verifies a schema: the schema with its references marked, and the first fault if there is
one. -/
def Schema.verify (s : Schema) : Schema × Option VerifyFault :=
  match Verify.declarations s with
  | some fault => (s, some fault)
  | none =>
    match Verify.models s s.models with
    | (ms, some fault) => ({ s with models := ms }, some fault)
    | (ms, none) =>
      let s := { s with models := ms }
      (s, Verify.generatedNames s)

end WireSchema
