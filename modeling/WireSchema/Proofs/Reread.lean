import WireSchema.Device.Message
import WireSchema.Proofs.CutText
import WireSchema.Proofs.Shape
import WireSchema.Proofs.ReadRun
import Mathlib.Control.Monad.Basic

/-! # Messages that are read and written again

Any bytes that can be read as a message of the device give a value that can be written again: no
text stands behind a length, so that nothing gets too long (`Fields.exists_serialize_of_decode`).
What comes back is the value itself exactly if each of its texts comes back from its field of fixed
size (`message_reread`). A text can fail to, since bytes that are not well formed are read as
characters of three bytes and the field is then too small (`message_reread_cuts`). From the second
time on nothing changes any more. -/

namespace WireSchema

/-! ### Texts in fields of fixed size -/

mutual

/-- Each text in a field of fixed size, at any depth, satisfies `P` together with that size. -/
def Shape.EachText (P : Nat → String → Prop) : (s : Shape) → s.Value → Prop
  | .fixedText n, v => P n v
  | .nested _ fs, v => fs.EachText P v
  | .prefixedNested _ fs, v => fs.EachText P v
  | .prefixedList _ item, vs => ∀ v, List.Mem v vs → item.EachText P v
  | .restList item, vs => ∀ v, List.Mem v vs → item.EachText P v
  | _, _ => True

/-- Each text of fixed size in the fields satisfies `P`. -/
def Fields.EachText (P : Nat → String → Prop) : (fs : Fields) → fs.Value → Prop
  | .nil, _ => True
  | .cons _ shape rest, (v, vs) => shape.EachText P v ∧ rest.EachText P vs

end

mutual

/-- Whether there is a text in a field of fixed size, at any depth. -/
def Shape.hasFixedText : Shape → Bool
  | .fixedText _ => true
  | .nested _ fs => fs.hasFixedText
  | .prefixedNested _ fs => fs.hasFixedText
  | .prefixedList _ item => item.hasFixedText
  | .restList item => item.hasFixedText
  | _ => false

/-- Whether there is a text of fixed size in the fields. -/
def Fields.hasFixedText : Fields → Bool
  | .nil => false
  | .cons _ shape rest => shape.hasFixedText || rest.hasFixedText

end

mutual

theorem Shape.eachText_of_hasFixedText {P : Nat → String → Prop} : (s : Shape) →
    s.hasFixedText = false → ∀ v : s.Value, s.EachText P v
  | .fixedText _, h, _ => nomatch h
  | .nested _ fs, h, v => Fields.eachText_of_hasFixedText fs h v
  | .prefixedNested _ fs, h, v => Fields.eachText_of_hasFixedText fs h v
  | .prefixedList _ item, h, _ => fun v _ => Shape.eachText_of_hasFixedText item h v
  | .restList item, h, _ => fun v _ => Shape.eachText_of_hasFixedText item h v
  | .scalar _, _, _ => trivial
  | .fixedBytes _, _, _ => trivial
  | .prefixedText _, _, _ => trivial
  | .prefixedBytes _, _, _ => trivial
  | .restText, _, _ => trivial
  | .restBytes, _, _ => trivial
  | .choice _ _, _, _ => trivial

theorem Fields.eachText_of_hasFixedText {P : Nat → String → Prop} : (fs : Fields) →
    fs.hasFixedText = false → ∀ v : fs.Value, fs.EachText P v
  | .nil, _, _ => trivial
  | .cons _ shape rest, h, (v, vs) => by
    rw [Fields.hasFixedText, Bool.or_eq_false_iff] at h
    exact ⟨Shape.eachText_of_hasFixedText shape h.1 v, Fields.eachText_of_hasFixedText rest h.2 vs⟩

end

theorem map_eq_self_iff {α : Type} (f : α → α) (l : List α) :
    l.map f = l ↔ ∀ x ∈ l, f x = x := by
  have h : l.map f = l.map id ↔ ∀ x ∈ l, f x = id x := List.map_inj_left
  rwa [List.map_id] at h

mutual

/-- **A value comes back exactly if each of its texts does.** -/
theorem Shape.reread_eq_self_iff : (s : Shape) → ∀ v : s.Value,
    s.EachText (fun _ t => ZeroFree t) v → (s.reread v = v ↔ s.EachText StaysIn v)
  | .fixedText n, _, hv => Decoder.rereadText_eq_self_iff hv n
  | .nested _ fs, v, hv => Fields.reread_eq_self_iff fs v hv
  | .prefixedNested _ fs, v, hv => Fields.reread_eq_self_iff fs v hv
  | .prefixedList _ item, vs, hv =>
    (map_eq_self_iff item.reread vs).trans
      (forall₂_congr fun v hm => Shape.reread_eq_self_iff item v (hv v hm))
  | .restList item, vs, hv =>
    (map_eq_self_iff item.reread vs).trans
      (forall₂_congr fun v hm => Shape.reread_eq_self_iff item v (hv v hm))
  | .scalar _, _, _ => iff_of_true rfl trivial
  | .fixedBytes _, _, _ => iff_of_true rfl trivial
  | .prefixedText _, _, _ => iff_of_true rfl trivial
  | .prefixedBytes _, _, _ => iff_of_true rfl trivial
  | .restText, _, _ => iff_of_true rfl trivial
  | .restBytes, _, _ => iff_of_true rfl trivial
  | .choice _ _, _, _ => iff_of_true rfl trivial

/-- A message comes back exactly if each of its texts does. -/
theorem Fields.reread_eq_self_iff : (fs : Fields) → ∀ v : fs.Value,
    fs.EachText (fun _ t => ZeroFree t) v → (fs.reread v = v ↔ fs.EachText StaysIn v)
  | .nil, _, _ => iff_of_true rfl trivial
  | .cons _ shape rest, (v, vs), hv =>
    Prod.ext_iff.trans (and_congr (Shape.reread_eq_self_iff shape v hv.1)
      (Fields.reread_eq_self_iff rest vs hv.2))

end

mutual

theorem Shape.reread_reread : (s : Shape) → ∀ v : s.Value, s.EachText (fun _ t => ZeroFree t) v →
    s.reread (s.reread v) = s.reread v
  | .fixedText n, _, hv => Decoder.rereadText_rereadText hv n
  | .nested _ fs, v, hv => Fields.reread_reread fs v hv
  | .prefixedNested _ fs, v, hv => Fields.reread_reread fs v hv
  | .prefixedList _ item, _, hv =>
    List.map_map.trans (List.map_congr_left fun v hm => Shape.reread_reread item v (hv v hm))
  | .restList item, _, hv =>
    List.map_map.trans (List.map_congr_left fun v hm => Shape.reread_reread item v (hv v hm))
  | .scalar _, _, _ => rfl
  | .fixedBytes _, _, _ => rfl
  | .prefixedText _, _, _ => rfl
  | .prefixedBytes _, _, _ => rfl
  | .restText, _, _ => rfl
  | .restBytes, _, _ => rfl
  | .choice _ _, _, _ => rfl

theorem Fields.reread_reread : (fs : Fields) → ∀ v : fs.Value,
    fs.EachText (fun _ t => ZeroFree t) v → fs.reread (fs.reread v) = fs.reread v
  | .nil, _, _ => rfl
  | .cons _ shape rest, (v, vs), hv =>
    Prod.ext (Shape.reread_reread shape v hv.1) (Fields.reread_reread rest vs hv.2)

end

/-! ### Values that were read -/

namespace Decoder

variable {α β : Type}

theorem bind_eq_ok {d : Decoder α} {f : α → Decoder β} {s : Bytes} {b : β} {n : Nat}
    (h : (d >>= f) s = (.ok b, n)) :
    ∃ a k m, d s = (.ok a, k) ∧ f a (s.drop k) = (.ok b, m) := by
  rcases hs : d s with ⟨e | a, k⟩
  · rw [bind_of_error hs] at h
    cases h
  · rw [bind_of_ok hs, Prod.mk.injEq] at h
    exact ⟨a, k, _, rfl, Prod.ext h.1 rfl⟩

/-- A value that was changed after it had been read. -/
theorem map_eq_ok {d : Decoder α} {f : α → β} {s : Bytes} {b : β} {n : Nat}
    (h : (do return f (← d) : Decoder β) s = (.ok b, n)) : ∃ a k, d s = (.ok a, k) ∧ f a = b := by
  obtain ⟨a, k, m, ha, hb⟩ := bind_eq_ok h
  cases hb
  exact ⟨a, k, ha, rfl⟩

theorem within_eq_ok {d : Decoder α} {span s : Bytes} {a : α} {n : Nat}
    (h : within d span s = (.ok a, n)) : ∃ k, d span = (.ok a, k) := by
  have hfst : (d span).1 = .ok a := congrArg Prod.fst h
  exact ⟨(d span).2, Prod.ext hfst rfl⟩

/-- Each item of a list was read somewhere. -/
theorem exists_of_mem_items {item : Decoder α} {s : Bytes} {as : List α} {n : Nat}
    (h : items item s = (.ok as, n)) {a : α} (ha : a ∈ as) : ∃ s' k, item s' = (.ok a, k) := by
  fun_induction Decoder.items item s generalizing as n with
  | case1 =>
    cases h
    exact absurd ha List.not_mem_nil
  | case2 => cases h
  | case3 => cases h
  | case4 => cases h
  | case5 b s a' k hitem as m hrest ih =>
    cases h
    rcases List.mem_cons.1 ha with rfl | ha
    · exact ⟨_, _, hitem⟩
    · exact ih hrest ha

theorem Takes.eq_of_ok {d : Decoder α} {n k : Nat} (hd : d.Takes n) {s : Bytes} {a : α}
    (h : d s = (.ok a, k)) : k = n ∧ n ≤ s.length := by
  by_cases hn : n ≤ s.length
  · rcases hd.enough s hn with ⟨a', ha⟩ | ⟨name, value, k', he⟩
    · cases ha.symm.trans h
      exact ⟨rfl, hn⟩
    · cases he.symm.trans h
  · obtain ⟨e, k', he⟩ := hd.short s (Nat.lt_of_not_le hn)
    cases he.symm.trans h

/-- Items of one size fill the bytes that they were read from. -/
theorem length_of_items {item : Decoder α} {w : Nat} (hd : item.Takes w) {s : Bytes}
    {as : List α} {n : Nat} (h : items item s = (.ok as, n)) : as.length * w = s.length := by
  fun_induction Decoder.items item s generalizing as n with
  | case1 =>
    cases h
    exact Nat.zero_mul w
  | case2 => cases h
  | case3 => cases h
  | case4 => cases h
  | case5 b s a k hitem as m hrest ih =>
    cases h
    obtain ⟨rfl, hle⟩ := hd.eq_of_ok hitem
    have hrest := ih hrest
    rw [List.length_drop] at hrest
    rw [List.length_cons] at hle
    rw [List.length_cons, List.length_cons, Nat.succ_mul, hrest]
    omega

theorem length_le_maxLength {p : LengthPrefix} {s payload : Bytes} {n : Nat}
    (h : prefixed p s = (.ok payload, n)) : payload.length ≤ p.maxLength := by
  rcases prefixed_cases p s with
    ⟨-, hp⟩ | ⟨-, -, hp⟩ | ⟨front, payload', back, -, hfront, hlen, hp⟩
  · cases hp.symm.trans h
  · cases hp.symm.trans h
  · cases hp.symm.trans h
    have hlt := ofLittleEndian_lt front
    rw [hlen, hfront] at hlt
    exact LengthPrefix.le_maxLength_of_lt hlt

end Decoder

mutual

/-- The texts of fixed size in a value that was read end in front of the first zero. -/
theorem Shape.zeroFree_of_decode : (s : Shape) → ∀ {data : Bytes} {v : s.Value} {n : Nat},
    s.decode data = (.ok v, n) → s.EachText (fun _ t => ZeroFree t) v
  | .fixedText m, data, v, n, h => by
    obtain ⟨b, k, -, rfl⟩ := Decoder.map_eq_ok h
    exact Decoder.zeroFree_toString b
  | .nested m fs, data, v, n, h => by
    obtain ⟨span, k, k', -, hspan⟩ := Decoder.bind_eq_ok h
    obtain ⟨k'', hfs⟩ := Decoder.within_eq_ok hspan
    exact Fields.zeroFree_of_decode fs hfs
  | .prefixedNested p fs, data, v, n, h => by
    obtain ⟨span, k, k', -, hspan⟩ := Decoder.bind_eq_ok h
    obtain ⟨k'', hfs⟩ := Decoder.within_eq_ok hspan
    exact Fields.zeroFree_of_decode fs hfs
  | .prefixedList p item, data, vs, n, h => by
    obtain ⟨span, k, k', -, hspan⟩ := Decoder.bind_eq_ok h
    obtain ⟨k'', hitems⟩ := Decoder.within_eq_ok hspan
    intro v hv
    obtain ⟨s', i, hitem⟩ := Decoder.exists_of_mem_items hitems hv
    exact Shape.zeroFree_of_decode item hitem
  | .restList item, data, vs, n, h => by
    intro v hv
    obtain ⟨s', i, hitem⟩ := Decoder.exists_of_mem_items h hv
    exact Shape.zeroFree_of_decode item hitem
  | .scalar _, _, _, _, _ => trivial
  | .fixedBytes _, _, _, _, _ => trivial
  | .prefixedText _, _, _, _, _ => trivial
  | .prefixedBytes _, _, _, _, _ => trivial
  | .restText, _, _, _, _ => trivial
  | .restBytes, _, _, _, _ => trivial
  | .choice _ _, _, _, _, _ => trivial

/-- The texts of fixed size in a message that was read end in front of the first zero. -/
theorem Fields.zeroFree_of_decode : (fs : Fields) → ∀ {data : Bytes} {v : fs.Value} {n : Nat},
    fs.decode data = (.ok v, n) → fs.EachText (fun _ t => ZeroFree t) v
  | .nil, _, _, _, _ => trivial
  | .cons _ shape rest, data, (v, vs), n, h => by
    obtain ⟨v', k, k', hv, hrest⟩ := Decoder.bind_eq_ok h
    obtain ⟨vs', k'', hvs, heq⟩ := Decoder.map_eq_ok hrest
    cases heq
    exact ⟨Shape.zeroFree_of_decode shape hv, Fields.zeroFree_of_decode rest hvs⟩

end

/-! ### Values that can be written again -/

/-- Nothing of varying size stands behind a length but bytes and items, and what has a size of its
own has room in a buffer. -/
def Shape.Rewritable : Shape → Prop
  | .fixedText _ => False
  | .prefixedText _ => False
  | .prefixedNested _ _ => False
  | .nested n _ => n ≤ maxBuffer
  | .prefixedList _ item => item.Rewritable
  | .restList item => item.Rewritable
  | _ => True

/-- All fields can be written again. -/
def Fields.Rewritable : Fields → Prop
  | .nil => True
  | .cons _ shape rest => shape.Rewritable ∧ rest.Rewritable

/-- A value of fixed size demands nothing that cannot be met, wherever it stands. -/
theorem Shape.met_of_rewritable {s : Shape} (hw : s.WellFormed) (hr : s.Rewritable) {n : Nat}
    (hn : s.fixedSize? = some n) (v : s.Value) (start : Nat) :
    ∀ d ∈ s.demands v start, d.met = true := by
  cases s with
  | nested m fs => exact Fields.met_demands hw.2 hw.1 v hr
  | scalar k => exact fun d hd => absurd hd List.not_mem_nil
  | fixedBytes m => exact fun d hd => absurd hd List.not_mem_nil
  | choice name values => exact fun d hd => absurd hd List.not_mem_nil
  | fixedText m => exact hr.elim
  | _ => cases hn

theorem Demand.met_along {α : Type} {demands : α → Nat → List Demand} {bytes : α → Bytes}
    (xs : List α) (h : ∀ x ∈ xs, ∀ start, ∀ d ∈ demands x start, d.met = true) (start : Nat) :
    ∀ d ∈ along demands bytes xs start, d.met = true := by
  induction xs generalizing start with
  | nil => exact fun d hd => absurd hd List.not_mem_nil
  | cons x xs ih =>
    obtain ⟨hx, hxs⟩ := List.forall_mem_cons.1 h
    exact List.forall_mem_append.2 ⟨hx start, ih hxs _⟩

/-- Items of one size take as many bytes as they were read from. -/
theorem Shape.length_flatMap_bytes {item : Shape} (hw : item.WellFormed) {w : Nat}
    (hn : item.fixedSize? = some w) {span : Bytes} {vs : List item.Value} {k : Nat}
    (h : Decoder.items item.decode span = (.ok vs, k)) :
    (vs.flatMap item.bytes).length = span.length := by
  have hmap : (vs.map fun v => (item.bytes v).length) = List.replicate vs.length w := by
    rw [← List.map_const']
    exact List.map_congr_left fun v _ => item.length_bytes hw hn v
  rw [List.length_flatMap, hmap, List.sum_replicate_nat,
    Decoder.length_of_items (item.takes_decode hw hn) h]

/-- **A value that was read demands nothing that cannot be met,** wherever it stands. -/
theorem Shape.met_of_decode {s : Shape} (hw : s.WellFormed) (hr : s.Rewritable)
    {data : Bytes} {v : s.Value} {n : Nat} (h : s.decode data = (.ok v, n)) (start : Nat) :
    ∀ d ∈ s.demands v start, d.met = true := by
  cases s with
  | prefixedBytes p =>
    exact List.forall_mem_singleton.2 (decide_eq_true (Decoder.length_le_maxLength h))
  | prefixedList p item =>
    obtain ⟨⟨w, hn⟩, hitem⟩ := hw
    obtain ⟨span, k, k', hspan, hwithin⟩ := Decoder.bind_eq_ok h
    obtain ⟨k'', hitems⟩ := Decoder.within_eq_ok hwithin
    refine List.forall_mem_append.2 ⟨Demand.met_along v (fun x _ start =>
      Shape.met_of_rewritable hitem hr hn x start) 0, ?_⟩
    refine List.forall_mem_singleton.2 (decide_eq_true ?_)
    rw [Shape.length_flatMap_bytes hitem hn hitems]
    exact Decoder.length_le_maxLength hspan
  | restList item =>
    obtain ⟨⟨w, hn⟩, hitem⟩ := hw
    exact Demand.met_along v (fun x _ start => Shape.met_of_rewritable hitem hr hn x start) start
  | nested m fs => exact Shape.met_of_rewritable hw hr rfl v start
  | scalar k => exact fun d hd => absurd hd List.not_mem_nil
  | fixedBytes m => exact fun d hd => absurd hd List.not_mem_nil
  | restText => exact fun d hd => absurd hd List.not_mem_nil
  | restBytes => exact fun d hd => absurd hd List.not_mem_nil
  | choice name values => exact fun d hd => absurd hd List.not_mem_nil
  | fixedText m => exact hr.elim
  | prefixedText p => exact hr.elim
  | prefixedNested p fs => exact hr.elim

theorem Fields.met_of_decode : (fs : Fields) → fs.WellFormed → fs.Rewritable →
    ∀ {data : Bytes} {v : fs.Value} {n : Nat}, fs.decode data = (.ok v, n) → ∀ start,
      ∀ d ∈ fs.demandsFrom v start, d.met = true
  | .nil, _, _, _, _, _, _, _ => fun d hd => absurd hd List.not_mem_nil
  | .cons _ shape rest, hw, hr, data, (v, vs), n, h, start => by
    obtain ⟨v', k, k', hv, hrest⟩ := Decoder.bind_eq_ok h
    obtain ⟨vs', k'', hvs, heq⟩ := Decoder.map_eq_ok hrest
    cases heq
    exact List.forall_mem_append.2 ⟨Shape.met_of_decode hw.1 hr.1 hv start,
      Fields.met_of_decode rest hw.2.1 hr.2 hvs _⟩

/-- All messages have one size and there is room for it, or they can be written again field by
field. -/
def Fields.Returns (fs : Fields) : Prop :=
  (∃ n, fs.fixedSize? = some n ∧ n ≤ maxBuffer) ∨ fs.fixedSize? = none ∧ fs.Rewritable

/-- **A message that was read can be written,** and what is read then is as before but for its
texts. -/
theorem Fields.exists_serialize_of_decode {fs : Fields} (hw : fs.WellFormed) (hr : fs.Returns)
    {data : Bytes} {v : fs.Value} {n : Nat} (h : fs.decode data = (.ok v, n)) :
    ∃ b, (∀ build, fs.serialize build v = .ok b) ∧
      fs.decode b = (.ok (fs.reread v), b.length) := by
  have hmet : ∀ d ∈ fs.demands v, d.met = true := by
    rcases hr with ⟨n, hn, hroom⟩ | ⟨hnone, hr⟩
    · exact Fields.met_demands hw hn v hroom
    · rw [Fields.demands, hnone]
      exact fs.met_of_decode hw hr h 0
  have hread := fs.reads_reread hw v (List.forall_mem_append.1 hmet).2 [] fun _ => rfl
  rw [Decoder.Reads, List.append_nil] at hread
  exact ⟨fs.bytes v, fun build => (fs.settled_serialize build v).eq_ok hmet, hread⟩

/-! ### Messages of the device -/

namespace Device

theorem wellFormed_messages : ∀ m ∈ messages, m.fields.WellFormed ∧ m.fields.Returns := by
  simp [messages, header, pingCommand, pingResponse, getDeviceInfoCommand, deviceInfoResponse,
    sendDataCommand, sendDataResponse, setConfigCommand, setConfigResponse, batchCommand,
    batchResponse, vector3D, sensorData, sensorDataResponse, streamSamplesCommand, logMessage,
    firmwareChunk, Choice.shape, Fields.ofList, Fields.WellFormed, Shape.WellFormed,
    Fields.Returns, Fields.Rewritable, Shape.Rewritable, Shape.takesRest, Fields.fixedSize?,
    Shape.fixedSize?, ScalarKind.width, maxBuffer]

/-- Only the answer about the device has texts in fields of fixed size. -/
theorem hasFixedText_messages : ∀ m ∈ messages, m.name ≠ "DeviceInfoResponse" →
    m.fields.hasFixedText = false := by decide

/-- **Messages that are read and written again.** Whatever bytes were read, the message can be
written, and reads back exactly if each of its texts comes back from its field of fixed size. Only
the answer about the device has such texts; all other messages read back. What has come back once
does so again. -/
theorem message_reread {m : Message} (hm : m ∈ messages) {data : Bytes} {v : m.fields.Value}
    (h : m.fields.ofBytes data = .ok v) :
    ∃ b, (∀ build, m.fields.serialize build v = .ok b) ∧
      (m.fields.ofBytes b = .ok v ↔ m.fields.EachText StaysIn v) ∧
      (m.name ≠ "DeviceInfoResponse" → m.fields.ofBytes b = .ok v) ∧
      ∃ v' b', m.fields.ofBytes b = .ok v' ∧ (∀ build, m.fields.serialize build v' = .ok b') ∧
        m.fields.ofBytes b' = .ok v' := by
  obtain ⟨hw, hr⟩ := wellFormed_messages m hm
  have hdecode : m.fields.decode data = (.ok v, (m.fields.decode data).2) := Prod.ext h rfl
  have hzero := m.fields.zeroFree_of_decode hdecode
  obtain ⟨b, hb, hback⟩ := Fields.exists_serialize_of_decode hw hr hdecode
  obtain ⟨b', hb', hback'⟩ := Fields.exists_serialize_of_decode hw hr hback
  have hiff : m.fields.ofBytes b = .ok v ↔ m.fields.EachText StaysIn v := by
    rw [← m.fields.reread_eq_self_iff v hzero, Fields.ofBytes, hback, Except.ok.injEq]
  refine ⟨b, hb, hiff, fun hname => ?_, m.fields.reread v, b', ?_, hb', ?_⟩
  · exact hiff.2 (m.fields.eachText_of_hasFixedText (hasFixedText_messages m hm hname) v)
  · rw [Fields.ofBytes, hback]
  · rw [Fields.ofBytes, hback', m.fields.reread_reread v hzero]

/-- An answer about the device with the given name, and zeros for all else. -/
def namedInfo (name : String) : deviceInfoResponse.fields.Value :=
  (⟨0, by decide⟩, name, "", (0 : UInt32), (0 : Int16), (0 : UInt8), ())

/-- The bytes of such an answer, with the given bytes in the field of the name. -/
def namedInfoBytes (name : Bytes) : Bytes := 0 :: name ++ List.replicate 23 0

/-- A name whose last byte is not well formed takes 34 bytes, and still comes back from its 32. -/
theorem message_reread_lastByte :
    let data := namedInfoBytes (List.replicate 31 0x61 ++ [0xFF])
    let v := namedInfo (String.ofList (List.replicate 31 'a' ++ [Utf8.replacement]))
    deviceInfoResponse ∈ messages ∧ deviceInfoResponse.fields.ofBytes data = .ok v ∧
      ∃ b, (∀ build, deviceInfoResponse.fields.serialize build v = .ok b) ∧
        deviceInfoResponse.fields.ofBytes b = .ok v := by
  intro data v
  have hm : deviceInfoResponse ∈ messages := by simp [messages]
  have hread : deviceInfoResponse.fields.ofBytes data = .ok v := by decide +kernel
  obtain ⟨b, hb, hback, -⟩ := message_reread hm hread
  have hname : StaysIn 32 (String.ofList (List.replicate 31 'a' ++ [Utf8.replacement])) :=
    Or.inr ⟨List.replicate 31 'a', String.toList_ofList, by decide⟩
  have hversion : StaysIn 16 "" := Or.inl (by decide)
  exact ⟨hm, hread, b, hb, hback.2 ⟨trivial, hname, hversion, trivial, trivial, trivial, trivial⟩⟩

/-- **A name can lose its end.** The first byte of the name is not well formed and is read as a
character of three bytes; when the name is written again, there is no room for its last two
characters. -/
theorem message_reread_cuts :
    let data := namedInfoBytes (0xFF :: List.replicate 31 0x61)
    let v := namedInfo (String.ofList (Utf8.replacement :: List.replicate 31 'a'))
    let b := namedInfoBytes ([0xEF, 0xBF, 0xBD] ++ List.replicate 29 0x61)
    let v' := namedInfo (String.ofList (Utf8.replacement :: List.replicate 29 'a'))
    deviceInfoResponse ∈ messages ∧ deviceInfoResponse.fields.ofBytes data = .ok v ∧
      (∀ build, deviceInfoResponse.fields.serialize build v = .ok b) ∧
      deviceInfoResponse.fields.ofBytes b = .ok v' ∧ v' ≠ v := by
  intro data v b v'
  have hm : deviceInfoResponse ∈ messages := by simp [messages]
  have hread : deviceInfoResponse.fields.ofBytes data = .ok v := by decide +kernel
  have hwrite : ∀ build, deviceInfoResponse.fields.serialize build v = .ok b := by
    intro build
    cases build with
    | checked => decide +kernel
    | wrapping => decide +kernel
  have hback : deviceInfoResponse.fields.ofBytes b = .ok v' := by decide +kernel
  have hne : v' ≠ v := by decide +kernel
  exact ⟨hm, hread, hwrite, hback, hne⟩

end Device

end WireSchema
