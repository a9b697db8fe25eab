import WireSchema.Proofs.MessageShape

/-! # Messages of an accepted schema

For every model of every schema that is accepted, what is written reads back, and the layout is the
layout of the bytes: a message has the size of its model, and a field starts at its offset.

Neither the size of a text nor the size of a model has a limit below 2 ^ 64. So there are models
whose messages have no room in any buffer, and no message of theirs is written; and in a build that
takes sums modulo 2 ^ 64, a text that would end behind the last word cuts off what was written in
front of it. Both theorems are about the messages that are left, and the model `Leaf` of `leafText`
shows the others. -/

namespace WireSchema

/-- The value of each field, with its shape. -/
def Fields.parts : (fs : Fields) → fs.Value → List (Σ shape : Shape, shape.Value)
  | .nil, _ => []
  | .cons _ shape rest, (v, vs) => ⟨shape, v⟩ :: rest.parts vs

namespace Schema

variable {s : Schema} {m : Model} {text sourceFile : String} {parsedAt : Nat}

/-- The bytes of a field stand in the message behind those of the fields in front. If the message
can be written, so can the field on its own. -/
theorem Shaped.bytes_part (build : Build) {fields : List Field} {fs : Fields}
    (h : s.Shaped fields fs) {i : Nat} {f : Field} (hf : fields[i]? = some f) {v : fs.Value}
    {start : Nat} (hmet : ∀ d ∈ fs.demandsFrom v start, d.met = true) :
    ∃ shape w front e back, (fs.parts v)[i]? = some ⟨shape, w⟩ ∧
      s.fieldShape? s.messageFields? (FieldCodec.of s f) = some shape ∧
      (shape.write build w).run = .ok e ∧ fs.bytes v = front ++ e ++ back ∧
      (Layout.allFixed s.wireSizeOf (fields.take i) = true →
        front.length = Layout.totalWidth s.wireSizeOf (fields.take i)) := by
  induction h generalizing i start with
  | nil => cases hf
  | @cons g fields shape rest hshape hwf hsize _ _ ih =>
    obtain ⟨v, vs⟩ := v
    obtain ⟨hfield, hrest⟩ := List.forall_mem_append.1 hmet
    cases i with
    | zero =>
      cases hf
      have hwrite := shape.settles_write build v
      exact ⟨shape, v, [], shape.bytes v, rest.bytes vs, rfl, hshape,
        hwrite.run.eq_ok (hwrite.earlier (Nat.zero_le start) hfield), rfl, fun _ => rfl⟩
    | succ i =>
      obtain ⟨shape', w, front, e, back, hpart, hshape', he, hbytes, hlen⟩ := ih hf hrest
      refine ⟨shape', w, shape.bytes v ++ front, e, back, hpart, hshape', he, ?_, fun hall => ?_⟩
      · rw [Fields.bytes, hbytes, List.append_assoc, List.append_assoc, List.append_assoc]
      rw [List.take_succ_cons, Layout.allFixed_cons, Bool.and_eq_true] at hall
      obtain ⟨n, hn⟩ := Option.isSome_iff_exists.1 hall.1
      rw [List.take_succ_cons, Layout.totalWidth_cons, hn, List.length_append, hlen hall.2,
        shape.length_bytes hwf (hsize.trans hn), Option.getD_some]

/-- The fields of the model `Point` of `sampleText`. -/
def samplePointFields : Fields :=
  .cons "mode" (.choice "Mode" [0]) (.cons "x" (.scalar .uint16) .nil)

/-- The fields of the model `Log` of `sampleText`. -/
def sampleLogFields : Fields :=
  .cons "at" (.nested 3 samplePointFields) (.cons "tag" (.fixedText 3)
    (.cons "rest" (.restList (.nested 3 samplePointFields)) .nil))

/-- A message of the model `Log`: a point, a text of two characters, and one more point. -/
def sampleMessage : sampleLogFields.Value :=
  ((⟨0, by decide⟩, (5 : UInt16), ()), "ab", [(⟨0, by decide⟩, (7 : UInt16), ())], ())

theorem messageFields?_sampleLog : sample.messageFields? "Log" = some sampleLogFields := by cbv

/-- A schema text with texts of the greatest size: behind a payload, in a message of its own, and in
a message with its length in front. -/
def leafText : String :=
  "model Leaf\x7b@length_prefix(uint8)head:bytes @size(18446744073709551615)text:string\x7d" ++
    "model Page\x7b@size(18446744073709551615)text:string\x7d" ++
    "model Book\x7b@length_prefix(uint8)leaf:Leaf\x7d"

/-- The decorator of the texts of `leafText`. -/
def leafSize (column : Nat) : Decorator :=
  ⟨"size", [.number ⟨0x43F0000000000000⟩], ⟨1, column⟩⟩

/-- The decorator of the payloads of `leafText`. -/
def leafPrefix (column : Nat) : Decorator := ⟨"length_prefix", [.text "uint8"], ⟨1, column⟩⟩

/-- The model `Leaf` of `leafText`. -/
def leaf : Model :=
  ⟨"Leaf", [
    ⟨"head", .primitive .bytes, ⟨none, some (.scalar .uint8)⟩, [leafPrefix 12], none, some 0,
      ⟨1, 33⟩⟩,
    ⟨"text", .primitive .string, ⟨some 18446744073709551615, none⟩, [leafSize 44], none, none,
      ⟨1, 71⟩⟩],
    [], none, none, .varying, ⟨1, 7⟩⟩

/-- The model `Page` of `leafText`. -/
def leafPage : Model :=
  ⟨"Page", [
    ⟨"text", .primitive .string, ⟨some 18446744073709551615, none⟩, [leafSize 94], none, some 0,
      ⟨1, 121⟩⟩],
    [], none, none, .fixed 18446744073709551615, ⟨1, 89⟩⟩

/-- The model `Book` of `leafText`. -/
def leafBook : Model :=
  ⟨"Book", [
    ⟨"leaf", .model "Leaf", ⟨none, some (.scalar .uint8)⟩, [leafPrefix 144], none, some 0,
      ⟨1, 165⟩⟩],
    [], none, none, .varying, ⟨1, 139⟩⟩

/-- The schema that `leafText` declares, verified and laid out. -/
def leafSchema : Schema := ⟨"", [], [leaf, leafPage, leafBook], ⟨"", 0, none⟩⟩

theorem ofText_leaf : ofText leafText "" 0 = .ok leafSchema := by decide +kernel

/-- The fields of the model `Leaf`. -/
def leafFields : Fields :=
  .cons "head" (.prefixedBytes .uint8) (.cons "text" (.fixedText 18446744073709551615) .nil)

/-- The fields of the model `Page`. -/
def pageFields : Fields := .cons "text" (.fixedText 18446744073709551615) .nil

/-- The fields of the model `Book`. -/
def bookFields : Fields := .cons "leaf" (.prefixedNested .uint8 leafFields) .nil

theorem messageFields?_leaf :
    leafSchema.messageFields? "Leaf" = some leafFields ∧
      leafSchema.messageFields? "Page" = some pageFields ∧
      leafSchema.messageFields? "Book" = some bookFields := by
  refine ⟨?_, ?_, ?_⟩
  · cbv
  · cbv
  · cbv

/-- A message of the model `Leaf`: a payload of three bytes, and the empty text. -/
def leafMessage : leafFields.Value := (([1, 2, 3] : Bytes), "", ())

/-- **The layout is the layout of the bytes.** If all messages of a model have one size and there is
room for it, each value can be written in that many bytes; if there is none, no value can be
written. That many bytes always read as a message unless one of them is no member of its enum, while
fewer never do. In every model, the bytes of a field that has an offset stand there; in a build that
takes sums modulo 2 ^ 64, this is so for the messages of fewer bytes. -/
theorem message_layout (h : ofText text sourceFile parsedAt = .ok s) (hm : m ∈ s.models) :
    ∃ fs, s.messageFields? m.name = some fs ∧
      s.fieldShapes? s.messageFields? m.fields = some fs ∧
      (∀ n, m.wireSize = .fixed n →
        (n ≤ maxBuffer →
          ∀ v : fs.Value, ∃ b, b.length = n ∧ ∀ build, fs.serialize build v = .ok b) ∧
        (maxBuffer < n →
          ∀ build (v : fs.Value), fs.serialize build v = .error (.panic .capacityOverflow)) ∧
        (∀ data : Bytes, n ≤ data.length → (∃ v, fs.ofBytes data = .ok v) ∨
          ∃ name value, fs.ofBytes data = .error (.invalidEnumValue name value)) ∧
        ∀ data : Bytes, data.length < n → ∃ e, fs.ofBytes data = .error e) ∧
      ∀ (i : Nat) f o, m.fields[i]? = some f → f.offset = some o →
        ∀ (build : Build) (v : fs.Value), (build = .wrapping → (fs.bytes v).length < wordCount) →
          ∀ b, fs.serialize build v = .ok b →
            ∃ shape w front e back, (fs.parts v)[i]? = some ⟨shape, w⟩ ∧
              s.fieldShape? s.messageFields? (FieldCodec.of s f) = some shape ∧
              (shape.write build w).run = .ok e ∧ b = front ++ e ++ back ∧ front.length = o := by
  have hs := completed_of_ofText h
  obtain ⟨fs, hfs, hshaped⟩ := hs.exists_shaped hm
  have hwf := hshaped.wellFormed (hs.admissible m hm).last
  refine ⟨fs, hfs, hshaped.fieldShapes?, fun n hn => ?_, fun i f o hf ho build v hword b hb => ?_⟩
  · have hsize : fs.fixedSize? = some n := by
      rw [hs.fixedSize?_eq hm hshaped, Model.fixedSize?, hn]
      rfl
    have htakes := fs.takes_decode hwf hsize
    refine ⟨fun hroom => Fields.exists_serialize hwf hsize hroom,
      fun hlong => Fields.serialize_of_lt hsize hlong, fun data hd => ?_, fun data hd => ?_⟩
    · rcases htakes.enough data hd with ⟨v, hv⟩ | ⟨name, value, k, he⟩
      · exact Or.inl ⟨v, congrArg Prod.fst hv⟩
      · exact Or.inr ⟨name, value, congrArg Prod.fst he⟩
    · obtain ⟨e, k, he⟩ := htakes.short data hd
      exact ⟨e, congrArg Prod.fst he⟩
  · obtain ⟨rfl, hmet⟩ :=
      (fs.settled_serialize build v).of_eq_ok (fs.sums_demands build hword) hb
    obtain ⟨shape, w, front, e, back, hpart, hshape, he, hsplit, hlen⟩ :=
      hshaped.bytes_part build hf (List.forall_mem_append.1 hmet).2
    refine ⟨shape, w, front, e, back, hpart, hshape, he, hsplit, ?_⟩
    have hoffset : m.offset? s.wireSizeOf i = some o :=
      (congrArg Field.offset (hs.placed_field hm hf)).trans ho
    rw [Model.offset?] at hoffset
    split_ifs at hoffset with hall
    rw [hlen hall]
    exact Option.some.inj hoffset

theorem messageFields?_samplePoint : sample.messageFields? "Point" = some samplePointFields := by
  cbv

theorem message_layout_sample :
    ofText sampleText "" 0 = .ok sample ∧ samplePoint.wireSize = .fixed 3 ∧
      (∀ v : samplePointFields.Value, ∃ b, b.length = 3 ∧
        ∀ build, samplePointFields.serialize build v = .ok b) ∧
      (∀ data : Bytes, data.length < 3 → ∃ e, samplePointFields.ofBytes data = .error e) ∧
      ∃ shape w front e back, (sampleLogFields.parts sampleMessage)[1]? = some ⟨shape, w⟩ ∧
        (shape.write .checked w).run = .ok e ∧
        [0, 5, 0, 97, 98, 0, 0, 7, 0] = front ++ e ++ back ∧ front.length = 3 := by
  obtain ⟨fs, hfs, -, hsize, -⟩ :=
    message_layout ofText_sample (show samplePoint ∈ sample.models by decide)
  cases hfs.symm.trans messageFields?_samplePoint
  obtain ⟨hwrite, -, -, hshort⟩ := hsize 3 rfl
  obtain ⟨fs, hfs, -, -, hoffset⟩ :=
    message_layout ofText_sample (show sampleLog ∈ sample.models by decide)
  cases hfs.symm.trans messageFields?_sampleLog
  have hbytes : sampleLogFields.serialize .checked sampleMessage =
      .ok [0, 5, 0, 97, 98, 0, 0, 7, 0] := by decide +kernel
  obtain ⟨shape, w, front, e, back, hpart, -, he, hb, hlen⟩ :=
    hoffset 1 _ 3 rfl rfl .checked sampleMessage (fun h => by cases h) _ hbytes
  exact ⟨ofText_sample, rfl, hwrite (by decide), hshort, shape, w, front, e, back, hpart, he, hb,
    hlen⟩

/-- **A layout that no message has.** Each message of the model `Page` would have 2 ^ 64 - 1 bytes,
for which there is no room. In the model `Leaf`, the payload has the offset 0; the four bytes that
it takes are not those that stand there if its text cut off the last of them. -/
theorem message_layout_unwritten :
    ofText leafText "" 0 = .ok leafSchema ∧ leafPage ∈ leafSchema.models ∧
      leafSchema.messageFields? leafPage.name = some pageFields ∧
      leafPage.wireSize = .fixed 18446744073709551615 ∧
      (∀ build (v : pageFields.Value),
        pageFields.serialize build v = .error (.panic .capacityOverflow)) ∧
      leaf.fields.map (·.offset) = [some 0, none] ∧
      (Shape.write .wrapping (.prefixedBytes .uint8) ([1, 2, 3] : Bytes)).run = .ok [3, 1, 2, 3] ∧
      leafFields.serialize .wrapping leafMessage = .ok [3, 1, 2] := by
  have hown : (Shape.write .wrapping (.prefixedBytes .uint8) ([1, 2, 3] : Bytes)).run =
      .ok [3, 1, 2, 3] := by decide +kernel
  have hwrite : leafFields.serialize .wrapping leafMessage = .ok [3, 1, 2] := by decide +kernel
  exact ⟨ofText_leaf, by simp [leafSchema], messageFields?_leaf.2.1, rfl,
    Fields.serialize_of_lt rfl (by decide), rfl, hown, hwrite⟩

end Schema

end WireSchema
