import WireSchema.Device.Message
import WireSchema.Proofs.EmittedCodec

/-! # The schema of the device protocol

The enums and messages of the device protocol are declared in a schema text. The text is accepted,
and what it declares are the enums and messages of `Device`, with the same command ids
(`exists_schema`). So the methods that are emitted for it write and read these messages
(`emitted_device_methods`).

Where a text comes from and when it was read is only recorded, so one evaluation of the text is
enough (`ofText_metadata`). -/

namespace WireSchema

/-! ### Metadata -/

section Metadata

variable (s : Schema) (d : Metadata)

theorem resolve_metadata (t : TypeRef) :
    Verify.resolve { s with metadata := d } t = Verify.resolve s t := by
  induction t with
  | array t ih => rw [Verify.resolve, Verify.resolve, ih]
  | _ => rfl

theorem fields_metadata (owner : String) (seen : List String) (fs : List Field) :
    Verify.fields { s with metadata := d } owner seen fs = Verify.fields s owner seen fs := by
  induction fs generalizing seen with
  | nil => rfl
  | cons f fs ih => simp only [Verify.fields, resolve_metadata, ih]

theorem models_metadata (ms : List Model) :
    Verify.models { s with metadata := d } ms = Verify.models s ms := by
  induction ms with
  | nil => rfl
  | cons m ms ih => simp only [Verify.models, fields_metadata, ih]

theorem layout_metadata :
    Schema.layout { s with metadata := d } = s.layout.map fun s => { s with metadata := d } := by
  unfold Schema.layout
  cases Layout.modelLayouts s.models [] s.models <;> rfl

theorem completed_metadata :
    Schema.completed { s with metadata := d } =
      s.completed.map fun s => { s with metadata := d } := by
  have hdeclarations : Verify.declarations { s with metadata := d } = Verify.declarations s := rfl
  unfold Schema.completed Schema.verify
  rw [hdeclarations, models_metadata]
  cases Verify.declarations s with
  | some fault => rfl
  | none =>
    dsimp only
    rcases Verify.models s s.models with ⟨ms, _ | fault⟩
    · have hnames : Verify.generatedNames { s with models := ms, metadata := d } =
          Verify.generatedNames { s with models := ms } := rfl
      dsimp only
      rw [hnames]
      cases Verify.generatedNames { s with models := ms } with
      | some fault => rfl
      | none =>
        dsimp only
        rw [layout_metadata { s with models := ms } d]
        cases Schema.layout { s with models := ms } <;> rfl
    · rfl

theorem elementOf_metadata (t : TypeRef) :
    ElementCodec.of { s with metadata := d } t = ElementCodec.of s t := by
  induction t with
  | array t ih => exact ih
  | _ => rfl

theorem codecOf_metadata (f : Field) :
    FieldCodec.of { s with metadata := d } f = FieldCodec.of s f := by
  unfold FieldCodec.of
  simp only [elementOf_metadata]
  rfl

theorem fieldShapes?_metadata (find : String → Option Fields) (fs : List Field) :
    Schema.fieldShapes? { s with metadata := d } find fs = s.fieldShapes? find fs := by
  have hcodec (codec : FieldCodec) :
      Schema.fieldShape? { s with metadata := d } find codec = s.fieldShape? find codec := by
    cases codec with
    | prefixedArray element | remainingArray element => cases element <;> rfl
    | _ => rfl
  induction fs with
  | nil => rfl
  | cons f fs ih => rw [Schema.fieldShapes?, Schema.fieldShapes?, codecOf_metadata, hcodec, ih]

/-- The schema that some characters declare, without metadata. -/
def Schema.ofChars (cs : List Char) : Except CompileError Schema :=
  match Token.ofChars cs with
  | .error e => .error (.parse e)
  | .ok ts =>
    match Schema.ofTokens "" 0 ts with
    | .error e => .error (.parse e)
    | .ok s => s.completed

/-- **Metadata is only recorded.** -/
theorem ofText_metadata (text sourceFile : String) (parsedAt : Nat) :
    Schema.ofText text sourceFile parsedAt = (Schema.ofChars text.toList).map fun s =>
      { s with metadata := ⟨sourceFile, parsedAt, none⟩ } := by
  unfold Schema.ofText Schema.read Schema.ofChars Token.ofText Schema.ofTokens
  cases Token.ofChars text.toList with
  | error e => rfl
  | ok ts =>
    dsimp only
    cases Parse.declarations none (Parse.endless ts) with
    | error e => rfl
    | ok ds => exact completed_metadata (Schema.ofDeclarations ⟨"", 0, none⟩ ds) _

end Metadata

/-! ### Tables of fields -/

deriving instance DecidableEq for Shape, Fields

namespace Schema

/-- A table in which the fields of each model are shaped by the table is that of the messages. -/
theorem Completed.messageFields?_eq_table {s : Schema} (h : s.Completed)
    {table : String → Option Fields}
    (htable : ∀ m ∈ s.models, table m.name = s.fieldShapes? table m.fields) :
    ∀ m ∈ s.models, s.messageFields? m.name = table m.name := by
  intro m hm
  generalize ha : m.name = a
  induction h.acyclic.grounded a generalizing m with
  | intro a _ ih =>
    subst ha
    rw [h.messageFields?_eq hm, htable m hm]
    refine fieldShapes?_congr fun f hf b hb => ?_
    have hrefers := h.refers_of_modelName? hm hf hb
    obtain ⟨m', hm', rfl⟩ := List.mem_map.1 (h.resolved.mem_of_refers hrefers)
    exact ih m'.name hrefers m' hm' rfl

end Schema

namespace Device

/-! ### The text -/

/-- The lines of the schema text. -/
def schemaLines : List String := [
  "/**", " * Device command protocol.", " *",
  " * Every message starts with a ProtocolHeader followed by the payload",
  " * matching its command id.", " */", "namespace BinaryProtocol;", "",
  "/// Byte order of the device.", "enum Endian \x7b", "    Little,", "    Big,", "\x7d", "",
  "enum DeviceStatus \x7b", "    Offline,", "    Online,", "    Busy,", "    Error,", "\x7d", "",
  "enum ErrorCode \x7b", "    None,", "    InvalidCommand,", "    InvalidParameter,",
  "    Timeout,", "    DeviceError,", "    @value(255) Unknown,", "\x7d", "",
  "/// Header sent in front of every command.", "model ProtocolHeader \x7b", "    magic: uint16;",
  "    version: uint8;", "    command_id: uint8;", "    payload_length: uint32;",
  "    sequence_id: uint32;", "    checksum: uint16;", "\x7d", "",
  "@command_id(0x01)", "model PingCommand \x7b", "    timestamp: uint64;", "\x7d", "",
  "@command_id(0x81)", "model PingResponse \x7b", "    request_timestamp: uint64;",
  "    response_timestamp: uint64;", "\x7d", "",
  "@command_id(0x02)", "model GetDeviceInfoCommand \x7b", "    include_details: bool;", "\x7d", "",
  "@command_id(0x82)", "model DeviceInfoResponse \x7b", "    status: DeviceStatus;",
  "    @size(32) device_name: string;", "    @size(16) firmware_version: string;",
  "    uptime_seconds: uint32;", "    /// Tenths of a degree Celsius.", "    temperature: int16;",
  "    battery_level: uint8;", "\x7d", "",
  "@command_id(0x03)", "model SendDataCommand \x7b", "    channel: uint8;", "    priority: uint8;",
  "    @length_prefix(uint16) data: bytes;", "\x7d", "",
  "@command_id(0x83)", "model SendDataResponse \x7b", "    success: bool;",
  "    error_code: ErrorCode;", "    bytes_written: uint32;", "\x7d", "",
  "@command_id(0x04)", "model SetConfigCommand \x7b", "    config_id: uint8;",
  "    value_type: uint8;", "    @length_prefix(uint8) value: bytes;", "\x7d", "",
  "@command_id(0x84)", "model SetConfigResponse \x7b", "    success: bool;",
  "    error_code: ErrorCode;", "\x7d", "",
  "@command_id(0x10)", "model BatchCommand \x7b", "    command_count: uint8;",
  "    @length_prefix(uint16) commands: bytes;", "\x7d", "",
  "@command_id(0x90)", "model BatchResponse \x7b", "    success_count: uint8;",
  "    failure_count: uint8;", "    @length_prefix(uint16) results: bytes;", "\x7d", "",
  "model Vector3D \x7b", "    x: float32;", "    y: float32;", "    z: float32;", "\x7d", "",
  "model SensorData \x7b", "    timestamp: uint64;", "    sensor_id: uint8;",
  "    position: Vector3D;", "    temperature: float32;", "    humidity: float32;", "\x7d", "",
  "@command_id(0x85)", "model SensorDataResponse \x7b", "    sensor_count: uint8;",
  "    @length_prefix(uint16) sensors: SensorData[];", "\x7d", "",
  "/// Raw ADC samples. The array runs to the end of the payload.", "@command_id(0x20)",
  "model StreamSamplesCommand \x7b", "    channel: uint8;", "    samples: int16[];", "\x7d", "",
  "@command_id(0x21)", "model LogMessage \x7b", "    severity: uint8;", "    timestamp: uint32;",
  "    text: string;", "\x7d", "",
  "model FirmwareChunk \x7b", "    offset: uint32;", "    data: bytes;", "\x7d"]

/-- The schema text of the device protocol. -/
def schemaText : String := String.join (schemaLines.map (· ++ "\n"))

/-- The fields of the message of a name. -/
def table (name : String) : Option Fields := (message? name).map (·.fields)

/-- The enums and models of a schema are the enums and messages of the protocol; the fields of a
model are shaped by `table`. -/
structure Declares (s : Schema) : Prop where
  enums : s.enums.map (fun e => (e.name, e.members.map fun x => (x.name, x.value))) =
    choices.map fun c => (c.name, c.members)
  models : s.models.map (fun m => (m.name, m.commandId, s.fieldShapes? table m.fields)) =
    messages.map fun x => (x.name, x.commandId, some x.fields)

instance (s : Schema) : Decidable (Declares s) :=
  decidable_of_iff (_ ∧ _) ⟨fun h => ⟨h.1, h.2⟩, fun h => ⟨h.enums, h.models⟩⟩

theorem toList_schemaText :
    schemaText.toList = schemaLines.flatMap fun l => l.toList ++ ['\n'] := by
  rw [schemaText, String.toList_join, List.flatMap_map]
  simp only [String.toList_append]
  rfl

theorem exists_declares : ∃ s, Schema.ofChars schemaText.toList = .ok s ∧ Declares s := by
  have hcheck : (Schema.ofChars (schemaLines.flatMap fun l => l.toList ++ ['\n'])).toOption.any
      (fun s => decide (Declares s)) = true := by
    decide +kernel
  rw [toList_schemaText]
  generalize Schema.ofChars (schemaLines.flatMap fun l => l.toList ++ ['\n']) = result at hcheck ⊢
  cases result with
  | error e => cases hcheck
  | ok s => exact ⟨s, rfl, of_decide_eq_true hcheck⟩

theorem Declares.withMetadata {s : Schema} (h : Declares s) (d : Metadata) :
    Declares { s with metadata := d } where
  enums := h.enums
  models := by
    simp only [fieldShapes?_metadata]
    exact h.models

theorem table_eq : ∀ x ∈ messages, table x.name = some x.fields := by decide +kernel

/-- What `table` makes of the models are their fields. -/
theorem Declares.map_models {s : Schema} (h : Declares s) (hs : s.Completed) :
    s.models.map (fun m => (m.name, m.commandId, s.messageFields? m.name)) =
      messages.map fun x => (x.name, x.commandId, some x.fields) := by
  have htable : ∀ m ∈ s.models, table m.name = s.fieldShapes? table m.fields := by
    intro m hm
    have hmem : (m.name, m.commandId, s.fieldShapes? table m.fields) ∈
        messages.map fun x => (x.name, x.commandId, some x.fields) := by
      rw [← h.models]
      exact List.mem_map_of_mem hm
    obtain ⟨x, hx, heq⟩ := List.mem_map.1 hmem
    obtain ⟨hname, hrest⟩ := Prod.mk.inj heq
    rw [← hname, table_eq x hx, (Prod.mk.inj hrest).2]
  rw [← h.models]
  refine List.map_congr_left fun m hm => ?_
  rw [hs.messageFields?_eq_table htable m hm, htable m hm]

/-- **The messages of the device are those of its schema.** The schema text is accepted, and its
enums and models are the enums and messages of the protocol, in the same order and with the same
command ids and fields. -/
theorem exists_schema (sourceFile : String) (parsedAt : Nat) :
    ∃ s, Schema.ofText schemaText sourceFile parsedAt = .ok s ∧
      s.enums.map (fun e => (e.name, e.members.map fun x => (x.name, x.value))) =
        choices.map (fun c => (c.name, c.members)) ∧
      s.models.map (fun m => (m.name, m.commandId, s.messageFields? m.name)) =
        messages.map fun x => (x.name, x.commandId, some x.fields) := by
  obtain ⟨s, hchars, hdeclares⟩ := exists_declares
  have hdeclares := hdeclares.withMetadata ⟨sourceFile, parsedAt, none⟩
  have hs : Schema.ofText schemaText sourceFile parsedAt =
      .ok { s with metadata := ⟨sourceFile, parsedAt, none⟩ } := by
    rw [ofText_metadata, hchars]
    rfl
  exact ⟨_, hs, hdeclares.enums, hdeclares.map_models (Schema.completed_of_ofText hs)⟩

/-- **The emitted methods write and read the messages of the device.** -/
theorem emitted_device_methods {s : Schema} {sourceFile : String} {parsedAt : Nat}
    (h : Schema.ofText schemaText sourceFile parsedAt = .ok s) {x : Message} (hx : x ∈ messages) :
    (∀ build call, Emit.Rust.Serializes s build call →
      call x.name x.fields = x.fields.serialize build) ∧
    ∀ call, Emit.Rust.Deserializes s call → call x.name x.fields = x.fields.ofBytes := by
  obtain ⟨s', hs', -, hmodels⟩ := exists_schema sourceFile parsedAt
  cases h.symm.trans hs'
  have hfields : s.messageFields? x.name = some x.fields := by
    have hmem : (x.name, x.commandId, some x.fields) ∈
        s.models.map fun m => (m.name, m.commandId, s.messageFields? m.name) := by
      rw [hmodels]
      exact List.mem_map_of_mem hx
    obtain ⟨m, -, heq⟩ := List.mem_map.1 hmem
    obtain ⟨hname, hrest⟩ := Prod.mk.inj heq
    rw [← hname, (Prod.mk.inj hrest).2]
  obtain ⟨-, hserializes, hdeserializes⟩ := Emit.Rust.emitted_methods h
  exact ⟨fun build call hcall => (hserializes build call).1 hcall x.name x.fields hfields,
    fun call hcall => (hdeserializes call).1 hcall x.name x.fields hfields⟩

end Device

end WireSchema
