import WireSchema.Compile.Parse
import WireSchema.Emit.Rust
import WireSchema.Proofs.MessageShape

/-! # What the emitted methods do

The emitted methods of a model are made of calls to the support library and to the methods of other
models. Here each call is a tree that has a text and a meaning (`WriteCall`, `ReadExpr`). The text
of the trees of a model is the text that is emitted for it, and the meaning of a call to the support
library is the write or the decoder for it.

Emitted methods call each other, so their meaning is given by equations (`Serializes`,
`Deserializes`). For an accepted schema the equations have one solution, which is to write and to
read messages by their shapes (`emitted_methods`). The induction is on the references. -/

namespace WireSchema

/-! ### Values by their type

The values of a shape have a type in emitted code. What is made for the values of one type is made
for those of a shape, if that is their type; `F` is `Decoder`, or `WriteOf` below. -/

namespace Shape

variable (F : Type → Type)

/-- For the scalars of one kind. -/
def onScalar? (k : ScalarKind) (x : F k.Value) : (shape : Shape) → Option (F shape.Value)
  | .scalar k' => if h : k = k' then some (h ▸ x) else none
  | _ => none

/-- For texts. -/
def onText? (x : F String) : (shape : Shape) → Option (F shape.Value)
  | .fixedText _ | .prefixedText _ | .restText => some x
  | _ => none

/-- For byte strings of any length. -/
def onVec? (x : F Bytes) : (shape : Shape) → Option (F shape.Value)
  | .prefixedBytes _ | .restBytes => some x
  | _ => none

/-- For byte strings of one length. -/
def onArray? (n : Nat) (x : F { b : Bytes // b.length = n }) : (shape : Shape) →
    Option (F shape.Value)
  | .fixedBytes n' => if h : n = n' then some (h ▸ x) else none
  | _ => none

/-- For the variants of an enum. -/
def onEnum? (name : String) (values : List UInt8) (x : F { v : UInt8 // v ∈ values }) :
    (shape : Shape) → Option (F shape.Value)
  | .choice name' values' => if h : name = name' ∧ values = values' then some (h.2 ▸ x) else none
  | _ => none

/-- For messages, whatever their fields are. -/
def onStruct? (x : (fs : Fields) → F fs.Value) : (shape : Shape) → Option (F shape.Value)
  | .nested _ fs | .prefixedNested _ fs => some (x fs)
  | _ => none

/-- For lists, whatever their items are. -/
def onList? (x : (item : Shape) → Option (F (List item.Value))) : (shape : Shape) →
    Option (F shape.Value)
  | .prefixedList _ item | .restList item => x item
  | _ => none

end Shape

namespace Emit.Rust

/-! ### Length prefixes -/

/-- The length prefix that a primitive is emitted as. -/
def prefixOf (p : Primitive) : LengthPrefix := p.toLengthPrefix?.getD .uint64

/-- The text of a length prefix. -/
def prefixText : LengthPrefix → String
  | .uint8 => "LengthPrefix::U8"
  | .uint16 => "LengthPrefix::U16"
  | .uint32 => "LengthPrefix::U32"
  | .uint64 => "LengthPrefix::U64"

theorem lengthPrefix_eq (p : Primitive) : lengthPrefix p = prefixText (prefixOf p) := by
  rcases p with k | _ | _
  · cases k <;> rfl
  · rfl
  · rfl

theorem prefixOf_eq {p : Primitive} {q : LengthPrefix} (h : p.toLengthPrefix? = some q) :
    prefixOf p = q := by
  rw [prefixOf, h, Option.getD_some]

/-! ### Writing -/

/-- A write for each value of a type. -/
abbrev WriteOf (α : Type) : Type := α → Write

/-- The methods that write messages: what the one of the model `name` returns for a message with
these fields. -/
abbrev Serializers : Type := (name : String) → (fs : Fields) → fs.Value → Except Stop Bytes

/-- Where a value that is written stands: in a field of the message, or in a list. -/
inductive Place where
  | field (name : String)
  | item

namespace Place

/-- The writer that is written to. -/
def writer : Place → String
  | .field _ => "writer"
  | .item => "w"

/-- The text of the place. -/
def text : Place → String
  | .field name => "self." ++ name
  | .item => "item"

/-- The text of a copy of the value. -/
def copy : Place → String
  | .field name => "self." ++ name
  | .item => "*item"

end Place

/-- An expression for bytes. -/
inductive BytesExpr where
  /-- The bytes themselves. -/
  | ref
  /-- The bytes of a text. -/
  | asBytes
  /-- What the method of this model returns; the model is the type of the value. -/
  | serialize (name : String)

namespace BytesExpr

/-- The text in front of the place. -/
def front : BytesExpr → String
  | .ref | .serialize _ => "&"
  | .asBytes => ""

/-- The text behind the place. -/
def back : BytesExpr → String
  | .ref => ""
  | .asBytes => ".as_bytes()"
  | .serialize _ => ".serialize()?"

/-- A write of the bytes; an error of a method is passed on. -/
def run (call : Serializers) (write : Bytes → Write) :
    BytesExpr → (shape : Shape) → Option (WriteOf shape.Value)
  | .ref, .fixedBytes _ => some fun v => write v.1
  | .ref, shape => shape.onVec? WriteOf write
  | .asBytes, shape => shape.onText? WriteOf fun v => write (Utf8.ofString v)
  | .serialize name, shape => shape.onStruct? WriteOf fun fs v => .after (call name fs v) write

end BytesExpr

/-- A statement that writes a value. -/
inductive WriteCall where
  | scalar (p : Primitive)
  /-- The value of a variant. -/
  | variant
  | fixedString (size : Nat)
  | bytes (e : BytesExpr)
  | prefixed (lengthPrefix : LengthPrefix) (e : BytesExpr)
  /-- The items of a list, each by the same statement. -/
  | prefixedItems (lengthPrefix : LengthPrefix) (item : WriteCall)
  | items (item : WriteCall)

namespace WriteCall

/-- The text of a statement. -/
def text (place : Place) : WriteCall → String
  | .scalar p => place.writer ++ ".write_" ++ methodSuffix p ++ ("(" ++ place.copy ++ ");")
  | .variant => place.writer ++ ".write_u8(" ++ place.copy ++ " as u8);"
  | .fixedString n =>
    place.writer ++ ".write_fixed_string(&" ++ place.text ++ ", " ++ toString n ++ ");"
  | .bytes e => place.writer ++ ".write_bytes(" ++ e.front ++ place.text ++ (e.back ++ ");")
  | .prefixed p e =>
    place.writer ++ ".write_length_prefixed(" ++ prefixText p ++
      (", " ++ e.front ++ place.text ++ (e.back ++ ")?;"))
  | .prefixedItems p item =>
    place.writer ++ ".write_length_prefixed_items(" ++ prefixText p ++
      (", &" ++ place.text ++ ", |w, item| \x7b ") ++ item.text .item ++ " Ok(()) \x7d)?;"
  | .items item =>
    place.writer ++ ".write_items(&" ++ place.text ++ ", |w, item| \x7b " ++ item.text .item ++
      " Ok(()) \x7d)?;"

/-- What a statement does with the values of a shape, if it can be applied to them. -/
def run (build : Build) (call : Serializers) :
    WriteCall → (shape : Shape) → Option (WriteOf shape.Value)
  | .scalar (.scalar k), shape => shape.onScalar? WriteOf k fun v => .append (k.encode v)
  | .scalar _, _ => none
  | .variant, .choice _ _ => some fun v => .append (ScalarKind.uint8.encode v.1)
  | .variant, _ => none
  | .fixedString n, shape => shape.onText? WriteOf fun v => .fixedText build v n
  | .bytes e, shape => e.run call .append shape
  | .prefixed p e, shape => e.run call (.prefixed p) shape
  | .prefixedItems p c, shape => shape.onList? WriteOf fun item =>
    (c.run build call item).map fun write vs => .prefixedItems p write vs
  | .items c, shape => shape.onList? WriteOf fun item =>
    (c.run build call item).map fun write vs => .items write vs

end WriteCall

/-- The statement that writes an element. -/
def elementCall : ElementCodec → WriteCall
  | .scalar p => .scalar p
  | .enum _ => .variant
  | .model name _ => .bytes (.serialize name)

/-- The statement that writes a field. -/
def writeCall : FieldCodec → WriteCall
  | .scalar p => .scalar p
  | .fixedString n => .fixedString n
  | .fixedBytes _ => .bytes .ref
  | .prefixedString p => .prefixed (prefixOf p) .asBytes
  | .prefixedBytes p => .prefixed (prefixOf p) .ref
  | .remainingString => .bytes .asBytes
  | .remainingBytes => .bytes .ref
  | .enum _ => .variant
  | .model name _ => .bytes (.serialize name)
  | .prefixedModel name p => .prefixed (prefixOf p) (.serialize name)
  | .prefixedArray element p => .prefixedItems (prefixOf p) (elementCall element)
  | .remainingArray element => .items (elementCall element)

theorem writeElement_eq (element : ElementCodec) :
    writeElement element = (elementCall element).text .item := by
  cases element <;> rfl

theorem writeStatement_eq (name : String) (codec : FieldCodec) :
    writeStatement ("self." ++ name) codec = (writeCall codec).text (.field name) := by
  cases codec with
  | prefixedString p | prefixedBytes p | prefixedModel _ p =>
    show _ ++ lengthPrefix p ++ _ = _
    rw [lengthPrefix_eq]
    rfl
  | prefixedArray element p =>
    show _ ++ lengthPrefix p ++ _ ++ writeElement element ++ _ = _
    rw [lengthPrefix_eq, writeElement_eq]
    rfl
  | remainingArray element =>
    show _ ++ writeElement element ++ _ = _
    rw [writeElement_eq]
    rfl
  | _ => rfl

/-- The method of a model that writes its messages: the room that its writer is made with, and its
statements with the names of their fields. -/
structure SerializeMethod where
  size? : Option Nat
  writes : List (String × WriteCall)

namespace SerializeMethod

/-- The lines of the body. -/
def text (method : SerializeMethod) : List String :=
  if method.writes.isEmpty then ["        Ok(Vec::new())"]
  else
    let writer := method.size?.elim "        let mut writer = ByteWriter::new();"
      fun n => s!"        let mut writer = ByteWriter::with_capacity({n});"
    [writer] ++ method.writes.map (fun w => "        " ++ w.2.text (.field w.1)) ++
      ["        Ok(writer.data())"]

/-- The statements one after another, each on the field that it names. -/
def runWrites (build : Build) (call : Serializers) :
    List (String × WriteCall) → (fs : Fields) → Option (WriteOf fs.Value)
  | [], .nil => some fun _ => .append []
  | w :: ws, .cons name shape fs =>
    if Name.rustField name = w.1 then
      (w.2.run build call shape).bind fun a =>
        (runWrites build call ws fs).map fun b v => (a v.1).andThen (b v.2)
    else none
  | _, _ => none

/-- What the method returns for a message with these fields. -/
def run (build : Build) (call : Serializers) (method : SerializeMethod) (fs : Fields) :
    Option (fs.Value → Except Stop Bytes) :=
  if method.writes.isEmpty then some fun _ => .ok []
  else (runWrites build call method.writes fs).map fun write v => (write v).message method.size?

end SerializeMethod

/-- The method that is emitted for a model. -/
def serializeMethod (s : Schema) (m : Model) : SerializeMethod where
  size? := m.fixedSize?
  writes := m.fields.map fun f => (fieldName f, writeCall (FieldCodec.of s f))

theorem serializeBody_eq (s : Schema) (m : Model) :
    serializeBody s m = (serializeMethod s m).text := by
  have hlines : m.fields.map (fun f =>
      "        " ++ writeStatement ("self." ++ fieldName f) (FieldCodec.of s f)) =
      (serializeMethod s m).writes.map fun w => "        " ++ w.2.text (.field w.1) := by
    rw [serializeMethod, List.map_map]
    refine List.map_congr_left fun f _ => ?_
    rw [writeStatement_eq]
    rfl
  unfold serializeBody SerializeMethod.text
  rw [hlines, serializeMethod, List.isEmpty_map]
  cases m.fixedSize? <;> rfl

/-! ### Reading -/

/-- The methods that read messages: what the one of the model `name` returns for some bytes, if its
messages have these fields. -/
abbrev Deserializers : Type :=
  (name : String) → (fs : Fields) → Bytes → Except WireError fs.Value

/-- A call that returns bytes of the input. -/
inductive Source where
  | bytes (n : Nat)
  | prefixed (lengthPrefix : LengthPrefix)
  | remaining

namespace Source

/-- The text of a call up to its argument. -/
def front : Source → String
  | .bytes _ => ".read_bytes("
  | .prefixed _ => ".read_length_prefixed("
  | .remaining => ".read_remaining("

/-- The text of the argument. -/
def argument : Source → String
  | .bytes n => toString n
  | .prefixed p => prefixText p
  | .remaining => ""

/-- The text behind the argument. -/
def back : Source → String
  | .bytes _ | .prefixed _ => ")?"
  | .remaining => ")"

/-- What a call reads. -/
def run : Source → Decoder Bytes
  | .bytes n => Decoder.take n
  | .prefixed p => Decoder.prefixed p
  | .remaining => Decoder.rest

end Source

/-- A call that returns a value or an error. -/
inductive ReadCall where
  | scalar (p : Primitive)
  | fixedString (size : Nat)
  | array (size : Nat)
  | prefixedString (lengthPrefix : LengthPrefix)
  /-- The variant of an enum with the value of a byte. -/
  | tryFrom (name : String)
  /-- What the method of a model makes of some bytes. -/
  | deserialize (name : String) (source : Source)
  /-- A list of items, each by the same call. -/
  | prefixedItems (lengthPrefix : LengthPrefix) (item : ReadCall)
  | items (item : ReadCall)

namespace ReadCall

/-- The text of a call, and of what follows on it. -/
def text (reader tail : String) : ReadCall → String
  | .scalar p => reader ++ ".read_" ++ methodSuffix p ++ ("()" ++ tail)
  | .fixedString n => reader ++ ".read_fixed_string(" ++ toString n ++ (")" ++ tail)
  | .array n => reader ++ ".read_array::<" ++ toString n ++ (">()" ++ tail)
  | .prefixedString p =>
    reader ++ ".read_length_prefixed_string(" ++ prefixText p ++ (")" ++ tail)
  | .tryFrom name => name ++ ("::try_from(" ++ reader ++ ".read_u8()?)" ++ tail)
  | .deserialize name source =>
    name ++ ("::deserialize(" ++ reader ++ source.front) ++ source.argument ++
      (source.back ++ ")" ++ tail)
  | .prefixedItems p item =>
    reader ++ ".read_length_prefixed_items(" ++ prefixText p ++ ", |r| " ++ item.text "r" "" ++
      (")" ++ tail)
  | .items item => reader ++ ".read_items(|r| " ++ item.text "r" "" ++ (")" ++ tail)

/-- How a call reads a value of a shape, if it returns such values. -/
def run (s : Schema) (call : Deserializers) : ReadCall → (shape : Shape) →
    Option (Decoder shape.Value)
  | .scalar (.scalar k), shape => shape.onScalar? Decoder k (Decoder.scalar k)
  | .scalar _, _ => none
  | .fixedString n, shape => shape.onText? Decoder (Decoder.fixedText n)
  | .array n, shape => shape.onArray? Decoder n (Decoder.exactly n)
  | .prefixedString p, shape => shape.onText? Decoder (Decoder.prefixedText p)
  | .tryFrom name, shape => (s.enum? name).bind fun e =>
    shape.onEnum? Decoder e.name (e.members.map (·.value)) (Decoder.choice e.name _)
  | .deserialize name source, shape => shape.onStruct? Decoder fun fs =>
    source.run >>= fun span _ => (call name fs span, 0)
  | .prefixedItems p c, shape => shape.onList? Decoder fun item =>
    (c.run s call item).map (Decoder.prefixedItems p)
  | .items c, shape => shape.onList? Decoder fun item => (c.run s call item).map Decoder.items

end ReadCall

/-- An expression that reads a value. -/
inductive ReadExpr where
  /-- The value that a call returns; an error is passed on. -/
  | result (c : ReadCall)
  | toVec (source : Source)
  | remainingString

namespace ReadExpr

/-- The text of an expression. -/
def text : ReadExpr → String
  | .result c => c.text "reader" "?"
  | .toVec source => "reader" ++ source.front ++ source.argument ++ (source.back ++ ".to_vec()")
  | .remainingString => "reader.read_remaining_string()"

/-- How an expression reads a value of a shape, if it has such values. -/
def run (s : Schema) (call : Deserializers) : ReadExpr → (shape : Shape) →
    Option (Decoder shape.Value)
  | .result c, shape => c.run s call shape
  | .toVec source, shape => shape.onVec? Decoder source.run
  | .remainingString, shape => shape.onText? Decoder Decoder.restText

end ReadExpr

/-- The call that reads an element. -/
def elementRead : ElementCodec → ReadCall
  | .scalar p => .scalar p
  | .enum name => .tryFrom name
  | .model name size => .deserialize name (.bytes size)

/-- The expression that reads a field. -/
def readExpr : FieldCodec → ReadExpr
  | .scalar p => .result (.scalar p)
  | .fixedString n => .result (.fixedString n)
  | .fixedBytes n => .result (.array n)
  | .prefixedString p => .result (.prefixedString (prefixOf p))
  | .prefixedBytes p => .toVec (.prefixed (prefixOf p))
  | .remainingString => .remainingString
  | .remainingBytes => .toVec .remaining
  | .enum name => .result (.tryFrom name)
  | .model name size => .result (.deserialize name (.bytes size))
  | .prefixedModel name p => .result (.deserialize name (.prefixed (prefixOf p)))
  | .prefixedArray element p => .result (.prefixedItems (prefixOf p) (elementRead element))
  | .remainingArray element => .result (.items (elementRead element))

theorem readElement_eq (element : ElementCodec) :
    readElement element = (elementRead element).text "r" "" := by
  cases element <;> rfl

theorem readExpression_eq (codec : FieldCodec) : readExpression codec = (readExpr codec).text := by
  cases codec with
  | prefixedString p | prefixedBytes p | prefixedModel _ p =>
    show _ ++ lengthPrefix p ++ _ = _
    rw [lengthPrefix_eq]
    rfl
  | prefixedArray element p =>
    show _ ++ lengthPrefix p ++ _ ++ readElement element ++ _ = _
    rw [lengthPrefix_eq, readElement_eq]
    rfl
  | remainingArray element =>
    show _ ++ readElement element ++ _ = _
    rw [readElement_eq]
    rfl
  | _ => rfl

/-- The method of a model that reads its messages: the expressions for its fields. -/
structure DeserializeMethod where
  name : String
  reads : List (String × ReadExpr)

namespace DeserializeMethod

/-- The lines of the body. -/
def text (method : DeserializeMethod) : List String :=
  if method.reads.isEmpty then ["        let _ = data;", s!"        Ok({method.name} \x7b\x7d)"]
  else
    ["        let mut reader = ByteReader::new(data);", s!"        Ok({method.name} \x7b"] ++
      method.reads.map (fun r => "            " ++ r.1 ++ ": " ++ r.2.text ++ ",") ++
      ["        \x7d)"]

/-- The expressions one after another, each for the field that it names. -/
def runReads (s : Schema) (call : Deserializers) :
    List (String × ReadExpr) → (fs : Fields) → Option (Decoder fs.Value)
  | [], .nil => some (Decoder.pure ())
  | r :: rs, .cons name shape fs =>
    if Name.rustField name = r.1 then
      (r.2.run s call shape).bind fun a => (runReads s call rs fs).map fun b => do
        let v ← a
        let vs ← b
        return (v, vs)
    else none
  | _, _ => none

/-- What the method returns for some bytes, if it returns a message with these fields. -/
def run (s : Schema) (call : Deserializers) (method : DeserializeMethod) (fs : Fields) :
    Option (Bytes → Except WireError fs.Value) :=
  (runReads s call method.reads fs).map fun d data => (d data).1

end DeserializeMethod

/-- The method that is emitted for a model. -/
def deserializeMethod (s : Schema) (m : Model) : DeserializeMethod where
  name := m.name
  reads := m.fields.map fun f => (fieldName f, readExpr (FieldCodec.of s f))

theorem deserializeBody_eq (s : Schema) (m : Model) :
    deserializeBody s m = (deserializeMethod s m).text := by
  have hlines : m.fields.map (fun f =>
      "            " ++ fieldName f ++ ": " ++ readExpression (FieldCodec.of s f) ++ ",") =
      (deserializeMethod s m).reads.map fun r =>
        "            " ++ r.1 ++ ": " ++ r.2.text ++ "," := by
    rw [deserializeMethod, List.map_map]
    refine List.map_congr_left fun f _ => ?_
    rw [readExpression_eq]
    rfl
  unfold deserializeBody DeserializeMethod.text
  rw [hlines, deserializeMethod, List.isEmpty_map]

/-! ### What the calls do -/

variable {s : Schema} {m : Model} {shape : Shape}

theorem exists_enum_of_choice? {name : String} (h : s.choice? name = some shape) :
    ∃ e, s.enum? name = some e ∧ shape = .choice e.name (e.members.map (·.value)) := by
  obtain ⟨e, he, rfl⟩ := Option.map_eq_some_iff.1 h
  exact ⟨e, he, rfl⟩

theorem fieldShape?_prefixedModel {name : String} {p : Primitive}
    (h : s.fieldShape? s.messageFields? (.prefixedModel name p) = some shape) :
    ∃ q, p.toLengthPrefix? = some q ∧ ∃ fs, s.messageFields? name = some fs ∧
      shape = .prefixedNested q fs := by
  rw [Schema.fieldShape?] at h
  split at h
  · next q fs hq hfs => exact ⟨q, hq, fs, hfs, (Option.some.inj h).symm⟩
  · cases h

theorem fieldShape?_prefixedArray {element : ElementCodec} {p : Primitive}
    (h : s.fieldShape? s.messageFields? (.prefixedArray element p) = some shape) :
    ∃ q, p.toLengthPrefix? = some q ∧ ∃ item, s.elementShape? s.messageFields? element = some item ∧
      shape = .prefixedList q item := by
  rw [Schema.fieldShape?] at h
  split at h
  · next q item hq hitem => exact ⟨q, hq, item, hitem, (Option.some.inj h).symm⟩
  · cases h

section Serialize

variable {build : Build} {call : Serializers}

/-- The method of a model returns the bytes of its messages. -/
def WritesModel (s : Schema) (build : Build) (call : Serializers) (name : String) : Prop :=
  ∀ fs, s.messageFields? name = some fs → call name fs = fs.serialize build

theorem run_variant {name : String} (h : s.choice? name = some shape) :
    WriteCall.variant.run build call shape = some (shape.write build) := by
  obtain ⟨e, -, rfl⟩ := exists_enum_of_choice? h
  refine congrArg some (funext fun v => ?_)
  rw [ScalarKind.encode_uint8]
  rfl

theorem run_elementCall {element : ElementCodec}
    (hshape : s.elementShape? s.messageFields? element = some shape)
    (hcall : ∀ b, element.modelName? = some b → WritesModel s build call b) :
    (elementCall element).run build call shape = some (shape.write build) := by
  cases element with
  | scalar p =>
    rcases p with k | _ | _
    · cases hshape
      exact dif_pos rfl
    · cases hshape
    · cases hshape
  | enum name => exact run_variant hshape
  | model name size =>
    obtain ⟨fs, hfs, rfl⟩ := Option.map_eq_some_iff.1 hshape
    show some (fun v => Write.after (call name fs v) .append) = _
    rw [hcall name rfl fs hfs]
    rfl

theorem run_writeCall {codec : FieldCodec}
    (hshape : s.fieldShape? s.messageFields? codec = some shape)
    (hcall : ∀ b, codec.modelName? = some b → WritesModel s build call b) :
    (writeCall codec).run build call shape = some (shape.write build) := by
  cases codec with
  | scalar p =>
    have hitem : s.elementShape? s.messageFields? (.scalar p) = some shape := by
      cases p <;> exact hshape
    exact run_elementCall hitem hcall
  | fixedString n | fixedBytes n | remainingString | remainingBytes =>
    cases hshape
    rfl
  | prefixedString p | prefixedBytes p =>
    obtain ⟨q, hq, rfl⟩ := Option.map_eq_some_iff.1 hshape
    rw [writeCall, prefixOf_eq hq]
    rfl
  | enum name => exact run_variant hshape
  | model name size =>
    have hitem : s.elementShape? s.messageFields? (.model name size) = some shape := hshape
    exact run_elementCall hitem hcall
  | prefixedModel name p =>
    obtain ⟨q, hq, fs, hfs, rfl⟩ := fieldShape?_prefixedModel hshape
    show some (fun v => Write.after (call name fs v) (.prefixed (prefixOf p))) = _
    rw [hcall name rfl fs hfs, prefixOf_eq hq]
    rfl
  | prefixedArray element p =>
    obtain ⟨q, hq, item, hitem, rfl⟩ := fieldShape?_prefixedArray hshape
    show ((elementCall element).run build call item).map _ = _
    rw [run_elementCall hitem hcall, prefixOf_eq hq]
    rfl
  | remainingArray element =>
    obtain ⟨item, hitem, rfl⟩ := Option.map_eq_some_iff.1 hshape
    show ((elementCall element).run build call item).map _ = _
    rw [run_elementCall hitem hcall]
    rfl

theorem runWrites_eq {fields : List Field} {fs : Fields} (hfs : s.Shaped fields fs)
    (hcall : ∀ f ∈ fields, ∀ b, (FieldCodec.of s f).modelName? = some b →
      WritesModel s build call b) :
    SerializeMethod.runWrites build call
      (fields.map fun f => (fieldName f, writeCall (FieldCodec.of s f))) fs =
      some (fs.write build) := by
  induction hfs with
  | nil => rfl
  | cons hshape _ _ _ _ ih =>
    obtain ⟨hf, hfields⟩ := List.forall_mem_cons.1 hcall
    rw [List.map_cons, SerializeMethod.runWrites, fieldName]
    dsimp only
    rw [if_pos rfl, run_writeCall hshape hf, ih hfields]
    rfl

/-- The method of a model writes its messages, if the methods of the models in it do. -/
theorem run_serializeMethod (h : s.Completed) (hm : m ∈ s.models) {fs : Fields}
    (hfs : s.Shaped m.fields fs) (hcall : ∀ b, s.Refers m.name b → WritesModel s build call b) :
    (serializeMethod s m).run build call fs = some (fs.serialize build) := by
  have hwrites : SerializeMethod.runWrites build call (serializeMethod s m).writes fs =
      some (fs.write build) :=
    runWrites_eq hfs fun f hf b hb => hcall b (h.refers_of_modelName? hm hf hb)
  unfold SerializeMethod.run
  rw [hwrites, show (serializeMethod s m).size? = fs.fixedSize? from (h.fixedSize?_eq hm hfs).symm]
  split
  · next hempty =>
    rw [serializeMethod, List.isEmpty_map, List.isEmpty_iff] at hempty
    rw [hempty] at hfs
    cases hfs
    rfl
  · rfl

end Serialize

section Deserialize

variable {call : Deserializers}

/-- The method of a model reads its messages. -/
def ReadsModel (s : Schema) (call : Deserializers) (name : String) : Prop :=
  ∀ fs, s.messageFields? name = some fs → call name fs = fs.ofBytes

theorem run_tryFrom (call : Deserializers) {name : String} (h : s.choice? name = some shape) :
    (ReadCall.tryFrom name).run s call shape = some shape.decode := by
  obtain ⟨e, he, rfl⟩ := exists_enum_of_choice? h
  rw [ReadCall.run, he]
  exact dif_pos ⟨rfl, rfl⟩

theorem run_elementRead {element : ElementCodec}
    (hshape : s.elementShape? s.messageFields? element = some shape)
    (hcall : ∀ b, element.modelName? = some b → ReadsModel s call b) :
    (elementRead element).run s call shape = some shape.decode := by
  cases element with
  | scalar p =>
    rcases p with k | _ | _
    · cases hshape
      exact dif_pos rfl
    · cases hshape
    · cases hshape
  | enum name => exact run_tryFrom call hshape
  | model name size =>
    obtain ⟨fs, hfs, rfl⟩ := Option.map_eq_some_iff.1 hshape
    show some (Decoder.take size >>= fun span _ => (call name fs span, 0)) = _
    rw [hcall name rfl fs hfs]
    rfl

theorem run_readExpr {codec : FieldCodec}
    (hshape : s.fieldShape? s.messageFields? codec = some shape)
    (hcall : ∀ b, codec.modelName? = some b → ReadsModel s call b) :
    (readExpr codec).run s call shape = some shape.decode := by
  cases codec with
  | scalar p =>
    have hitem : s.elementShape? s.messageFields? (.scalar p) = some shape := by
      cases p <;> exact hshape
    exact run_elementRead hitem hcall
  | fixedString n | remainingString | remainingBytes =>
    cases hshape
    rfl
  | fixedBytes n =>
    cases hshape
    exact dif_pos rfl
  | prefixedString p | prefixedBytes p =>
    obtain ⟨q, hq, rfl⟩ := Option.map_eq_some_iff.1 hshape
    rw [readExpr, prefixOf_eq hq]
    rfl
  | enum name => exact run_tryFrom call hshape
  | model name size =>
    have hitem : s.elementShape? s.messageFields? (.model name size) = some shape := hshape
    exact run_elementRead hitem hcall
  | prefixedModel name p =>
    obtain ⟨q, hq, fs, hfs, rfl⟩ := fieldShape?_prefixedModel hshape
    show some (Decoder.prefixed (prefixOf p) >>= fun span _ => (call name fs span, 0)) = _
    rw [hcall name rfl fs hfs, prefixOf_eq hq]
    rfl
  | prefixedArray element p =>
    obtain ⟨q, hq, item, hitem, rfl⟩ := fieldShape?_prefixedArray hshape
    show ((elementRead element).run s call item).map _ = _
    rw [run_elementRead hitem hcall, prefixOf_eq hq]
    rfl
  | remainingArray element =>
    obtain ⟨item, hitem, rfl⟩ := Option.map_eq_some_iff.1 hshape
    show ((elementRead element).run s call item).map _ = _
    rw [run_elementRead hitem hcall]
    rfl

theorem runReads_eq {fields : List Field} {fs : Fields} (hfs : s.Shaped fields fs)
    (hcall : ∀ f ∈ fields, ∀ b, (FieldCodec.of s f).modelName? = some b → ReadsModel s call b) :
    DeserializeMethod.runReads s call
      (fields.map fun f => (fieldName f, readExpr (FieldCodec.of s f))) fs = some fs.decode := by
  induction hfs with
  | nil => rfl
  | cons hshape _ _ _ _ ih =>
    obtain ⟨hf, hfields⟩ := List.forall_mem_cons.1 hcall
    rw [List.map_cons, DeserializeMethod.runReads, fieldName]
    dsimp only
    rw [if_pos rfl, run_readExpr hshape hf, ih hfields]
    rfl

/-- The method of a model reads its messages, if the methods of the models in it do. -/
theorem run_deserializeMethod (h : s.Completed) (hm : m ∈ s.models) {fs : Fields}
    (hfs : s.Shaped m.fields fs) (hcall : ∀ b, s.Refers m.name b → ReadsModel s call b) :
    (deserializeMethod s m).run s call fs = some fs.ofBytes := by
  have hreads : DeserializeMethod.runReads s call (deserializeMethod s m).reads fs =
      some fs.decode :=
    runReads_eq hfs fun f hf b hb => hcall b (h.refers_of_modelName? hm hf hb)
  rw [DeserializeMethod.run, hreads]
  rfl

end Deserialize

/-! ### Methods -/

/-- The functions `call` return what the emitted methods for writing say. -/
def Serializes (s : Schema) (build : Build) (call : Serializers) : Prop :=
  ∀ m ∈ s.models, ∀ fs, s.messageFields? m.name = some fs →
    (serializeMethod s m).run build call fs = some (call m.name fs)

/-- The functions `call` return what the emitted methods for reading say. -/
def Deserializes (s : Schema) (call : Deserializers) : Prop :=
  ∀ m ∈ s.models, ∀ fs, s.messageFields? m.name = some fs →
    (deserializeMethod s m).run s call fs = some (call m.name fs)

theorem exists_model_of_messageFields? {name : String} {fs : Fields}
    (h : s.messageFields? name = some fs) : ∃ m ∈ s.models, m.name = name := by
  rw [Schema.messageFields?, Schema.modelFields?_eq] at h
  cases hfind : s.models.find? (·.name == name) with
  | none =>
    rw [hfind] at h
    cases h
  | some m =>
    exact ⟨m, List.mem_of_find?_eq_some hfind, by simpa using List.find?_some hfind⟩

/-- The fields of a message are those of a model. -/
theorem exists_shaped_of_messageFields? (h : s.Completed) {name : String} {fs : Fields}
    (hfs : s.messageFields? name = some fs) :
    ∃ m ∈ s.models, m.name = name ∧ s.Shaped m.fields fs := by
  obtain ⟨m, hm, rfl⟩ := exists_model_of_messageFields? hfs
  obtain ⟨fs', hfs', hshaped⟩ := h.exists_shaped hm
  cases hfs.symm.trans hfs'
  exact ⟨m, hm, rfl, hshaped⟩

/-- Methods that call each other have one solution, if each is known as soon as those of the models
in its model are. The induction is on the references. -/
theorem solution_iff (h : s.Completed) {β : Fields → Type}
    {method : Model → (fs : Fields) → Option (β fs)} {call : String → (fs : Fields) → β fs}
    {target : (fs : Fields) → β fs}
    (hrun : ∀ m ∈ s.models, ∀ fs, s.Shaped m.fields fs →
      (∀ b, s.Refers m.name b → ∀ fs, s.messageFields? b = some fs → call b fs = target fs) →
      method m fs = some (target fs)) :
    (∀ m ∈ s.models, ∀ fs, s.messageFields? m.name = some fs →
        method m fs = some (call m.name fs)) ↔
      ∀ name fs, s.messageFields? name = some fs → call name fs = target fs := by
  constructor
  · intro hcall name
    induction h.acyclic.grounded name with
    | intro name _ ih =>
      intro fs hfs
      obtain ⟨m, hm, rfl, hshaped⟩ := exists_shaped_of_messageFields? h hfs
      exact Option.some.inj ((hcall m hm fs hfs).symm.trans (hrun m hm fs hshaped ih))
  · intro hcall m hm fs hfs
    obtain ⟨m', hm', hname, hshaped⟩ := exists_shaped_of_messageFields? h hfs
    obtain rfl := List.inj_on_of_nodup_map h.resolved.modelNames hm' hm hname
    rw [hrun m' hm' fs hshaped fun b _ => hcall b, hcall m'.name fs hfs]

/-- **The emitted methods write and read messages by their shapes.** For every accepted schema, the
text of the methods of each model is that of `serializeMethod` and `deserializeMethod`, and as
equations these have one solution each: the messages of a model are written by `Fields.serialize`
and read by `Fields.ofBytes`. -/
theorem emitted_methods {text sourceFile : String} {parsedAt : Nat}
    (h : Schema.ofText text sourceFile parsedAt = .ok s) :
    (∀ m ∈ s.models, serializeBody s m = (serializeMethod s m).text ∧
      deserializeBody s m = (deserializeMethod s m).text) ∧
    (∀ build call, Serializes s build call ↔
      ∀ name fs, s.messageFields? name = some fs → call name fs = fs.serialize build) ∧
    ∀ call, Deserializes s call ↔
      ∀ name fs, s.messageFields? name = some fs → call name fs = fs.ofBytes := by
  have hs := Schema.completed_of_ofText h
  refine ⟨fun m _ => ⟨serializeBody_eq s m, deserializeBody_eq s m⟩, fun build call => ?_,
    fun call => ?_⟩
  · exact solution_iff hs fun m hm fs hfs hcall => run_serializeMethod hs hm hfs hcall
  · exact solution_iff hs fun m hm fs hfs hcall => run_deserializeMethod hs hm hfs hcall

end Emit.Rust

end WireSchema
