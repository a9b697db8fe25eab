import WireSchema.Codec.Shape
import WireSchema.Proofs.Decoder

/-! # Shapes whose values read back

A shape is well formed if a nested message has the size that is cut out for it, the items of a list
have a size and not the size 0, and only the last field takes all that is left. The values of such a
shape read back from their bytes, as long as the texts in fields of fixed size fit in them. Where
all values have the same size, they can all be written, and every byte string of that size reads as
one, up to bytes that are no member of their enum. -/

namespace WireSchema

/-- Whether the values of a shape run to the end of the message. -/
def Shape.takesRest : Shape → Bool
  | .restText | .restBytes | .restList _ => true
  | _ => false

/-- Whether some field runs to the end of the message. -/
def Fields.takesRest : Fields → Bool
  | .nil => false
  | .cons _ shape rest => shape.takesRest || rest.takesRest

mutual

/-- Sizes that are cut out are right, items take some bytes, and what runs to the end is last. -/
def Shape.WellFormed : Shape → Prop
  | .nested n fs => fs.fixedSize? = some n ∧ fs.WellFormed
  | .prefixedNested _ fs => fs.WellFormed
  | .prefixedList _ item => (∃ n, item.fixedSize? = some (n + 1)) ∧ item.WellFormed
  | .restList item => (∃ n, item.fixedSize? = some (n + 1)) ∧ item.WellFormed
  | _ => True

/-- All fields are well formed, and only the last one runs to the end. -/
def Fields.WellFormed : Fields → Prop
  | .nil => True
  | .cons _ shape rest =>
    shape.WellFormed ∧ rest.WellFormed ∧ (shape.takesRest = true → rest = .nil)

end

mutual

/-- The texts in fields of fixed size, at any depth, have no zero character and at most as many
bytes as their field. -/
def Shape.Fits : (s : Shape) → s.Value → Prop
  | .fixedText n, v => '\x00' ∉ String.toList v ∧ (Utf8.ofString v).length ≤ n
  | .nested _ fs, v => fs.Fits v
  | .prefixedNested _ fs, v => fs.Fits v
  | .prefixedList _ item, vs => ∀ v, List.Mem v vs → item.Fits v
  | .restList item, vs => ∀ v, List.Mem v vs → item.Fits v
  | _, _ => True

/-- The texts of all fields fit. -/
def Fields.Fits : (fs : Fields) → fs.Value → Prop
  | .nil, _ => True
  | .cons _ shape rest, (v, vs) => shape.Fits v ∧ rest.Fits vs

end

/-! ### The bytes of a value -/

mutual

/-- The bytes of a value. -/
def Shape.bytes : (s : Shape) → s.Value → Bytes
  | .scalar k, v => k.encode v
  | .fixedText n, v => WireSchema.fixedText v n
  | .fixedBytes _, v => v.1
  | .prefixedText p, v => counted p (Utf8.ofString v)
  | .prefixedBytes p, v => counted p v
  | .restText, v => Utf8.ofString v
  | .restBytes, v => v
  | .choice _ _, v => [v.1]
  | .nested _ fs, v => fs.bytes v
  | .prefixedNested p fs, v => counted p (fs.bytes v)
  | .prefixedList p item, vs => counted p (List.flatMap item.bytes vs)
  | .restList item, vs => List.flatMap item.bytes vs

/-- The bytes of a message: those of its fields one after another. -/
def Fields.bytes : (fs : Fields) → fs.Value → Bytes
  | .nil, _ => []
  | .cons _ shape rest, (v, vs) => shape.bytes v ++ rest.bytes vs

end

mutual

/-- What the writing of a value demands from a writer with `start` bytes, in order. A nested message
has a writer of its own, and so have the items in front of which their byte count is put. -/
def Shape.demands : (s : Shape) → s.Value → (start : Nat) → List Demand
  | .fixedText n, _, start => [.buffer (start + n)]
  | .prefixedText p, v, _ => [.payload p (Utf8.ofString v).length]
  | .prefixedBytes p, v, _ => [.payload p (List.length v)]
  | .nested _ fs, v, _ => Write.roomFor fs.fixedSize? ++ fs.demandsFrom v 0
  | .prefixedNested p fs, v, _ =>
    Write.roomFor fs.fixedSize? ++ fs.demandsFrom v 0 ++ [.payload p (fs.bytes v).length]
  | .prefixedList p item, vs, _ =>
    Demand.along (fun v start => item.demands v start) item.bytes vs 0 ++
      [.payload p (List.flatMap item.bytes vs).length]
  | .restList item, vs, start =>
    Demand.along (fun v start => item.demands v start) item.bytes vs start
  | _, _, _ => []

/-- What the writing of the fields demands from a writer with `start` bytes. -/
def Fields.demandsFrom : (fs : Fields) → fs.Value → (start : Nat) → List Demand
  | .nil, _, _ => []
  | .cons _ shape rest, (v, vs), start =>
    shape.demands v start ++ rest.demandsFrom vs (start + (shape.bytes v).length)

end

/-- What the writing of a message demands: the room for it if all messages have one size, and then
what its fields do. -/
def Fields.demands (fs : Fields) (v : fs.Value) : List Demand :=
  Write.roomFor fs.fixedSize? ++ fs.demandsFrom v 0

mutual

/-- **Writing a value is settled by its demands.** -/
theorem Shape.settles_write (build : Build) : (s : Shape) → (v : s.Value) →
    (s.write build v).Settles build (s.demands v) (s.bytes v)
  | .scalar k, v => Write.settles_append build (k.encode v)
  | .fixedText n, v => Write.settles_fixed build (Utf8.ofString v) n
  | .fixedBytes _, v => Write.settles_append build v.1
  | .prefixedText p, v => Write.settles_prefixed build p (Utf8.ofString v)
  | .prefixedBytes p, v => Write.settles_prefixed build p v
  | .restText, v => Write.settles_append build (Utf8.ofString v)
  | .restBytes, v => Write.settles_append build v
  | .choice _ _, v => Write.settles_append build [v.1]
  | .nested _ fs, v => (Fields.settles_write build fs v).nested fs.fixedSize?
  | .prefixedNested p fs, v => (Fields.settles_write build fs v).prefixedNested fs.fixedSize? p
  | .prefixedList p item, vs =>
    Write.settles_prefixedItems p vs fun v _ => Shape.settles_write build item v
  | .restList item, vs => Write.settles_items vs fun v _ => Shape.settles_write build item v

/-- Writing the fields of a message is settled by their demands. -/
theorem Fields.settles_write (build : Build) : (fs : Fields) → (v : fs.Value) →
    (fs.write build v).Settles build (fs.demandsFrom v) (fs.bytes v)
  | .nil, _ => Write.settles_append build []
  | .cons _ shape rest, (v, vs) =>
    (Shape.settles_write build shape v).andThen (Fields.settles_write build rest vs)

end

/-- **Writing a message is settled by its demands.** -/
theorem Fields.settled_serialize (build : Build) (fs : Fields) (v : fs.Value) :
    SettledBy build (fs.serialize build v) (fs.demands v) (fs.bytes v) :=
  (fs.settles_write build v).message fs.fixedSize?

/-- In a message of fewer than 2 ^ 64 bytes all sums are words. -/
theorem Fields.sums_demands (build : Build) {fs : Fields} {v : fs.Value}
    (h : build = .wrapping → (fs.bytes v).length < wordCount) : build.Sums (fs.demands v) :=
  fun hb _ hn => ((fs.settles_write build v).le_of_buffer hn).trans_lt (h hb)

/-! ### Values of one size -/

theorem Fields.fixedSize?_cons {name : String} {shape : Shape} {rest : Fields} {n : Nat} :
    (Fields.cons name shape rest).fixedSize? = some n ↔
      ∃ k m, shape.fixedSize? = some k ∧ rest.fixedSize? = some m ∧ n = k + m := by
  rw [Fields.fixedSize?]
  cases shape.fixedSize? <;> cases rest.fixedSize? <;> simp [eq_comm]

mutual

/-- A value of fixed size takes that many bytes. -/
theorem Shape.length_bytes : (s : Shape) → s.WellFormed → ∀ {n : Nat}, s.fixedSize? = some n →
    ∀ v : s.Value, (s.bytes v).length = n
  | .scalar k, _, n, hn, v => by
    cases hn
    exact k.length_encode v
  | .fixedText m, _, n, hn, v => by
    cases hn
    exact length_fixedText v m
  | .fixedBytes m, _, n, hn, v => by
    cases hn
    exact v.2
  | .choice _ _, _, n, hn, v => by
    cases hn
    rfl
  | .nested m fs, hw, n, hn, v => by
    cases hn
    exact Fields.length_bytes fs hw.2 hw.1 v

/-- A message of fixed size takes that many bytes. -/
theorem Fields.length_bytes : (fs : Fields) → fs.WellFormed → ∀ {n : Nat},
    fs.fixedSize? = some n → ∀ v : fs.Value, (fs.bytes v).length = n
  | .nil, _, n, hn, _ => by
    cases hn
    rfl
  | .cons _ shape rest, hw, n, hn, (v, vs) => by
    obtain ⟨k, m, hk, hm, rfl⟩ := Fields.fixedSize?_cons.1 hn
    rw [Fields.bytes, List.length_append, Shape.length_bytes shape hw.1 hk v,
      Fields.length_bytes rest hw.2.1 hm vs]

end

/-- There is room for a message of fixed size, so that only its fields demand more. -/
theorem Fields.met_demands_of {fs : Fields} {n : Nat} (hn : fs.fixedSize? = some n)
    {v : fs.Value} (h : n ≤ maxBuffer) (hfields : ∀ d ∈ fs.demandsFrom v 0, d.met = true) :
    ∀ d ∈ fs.demands v, d.met = true := by
  intro d hd
  rw [Fields.demands, hn] at hd
  rcases List.mem_cons.1 hd with rfl | hd
  · exact decide_eq_true h
  · exact hfields d hd

mutual

/-- A value of fixed size that ends where a buffer may end demands nothing that cannot be met. -/
theorem Shape.met_demands : (s : Shape) → s.WellFormed → ∀ {n : Nat},
    s.fixedSize? = some n → ∀ (v : s.Value) {start : Nat}, start + n ≤ maxBuffer →
      ∀ d ∈ s.demands v start, d.met = true
  | .scalar _, _, n, _, _, start, _ => fun d hd => absurd hd List.not_mem_nil
  | .fixedText m, _, n, hn, _, start, h => by
    cases hn
    intro d hd
    obtain rfl := List.mem_singleton.1 hd
    exact decide_eq_true h
  | .fixedBytes _, _, n, _, _, start, _ => fun d hd => absurd hd List.not_mem_nil
  | .choice _ _, _, n, _, _, start, _ => fun d hd => absurd hd List.not_mem_nil
  | .nested m fs, hw, n, hn, v, start, h => by
    cases hn
    exact Fields.met_demands_of hw.1 (by omega)
      (Fields.met_demandsFrom fs hw.2 hw.1 v (by omega))

/-- The fields of a message of fixed size demand nothing that cannot be met. -/
theorem Fields.met_demandsFrom : (fs : Fields) → fs.WellFormed → ∀ {n : Nat},
    fs.fixedSize? = some n → ∀ (v : fs.Value) {start : Nat}, start + n ≤ maxBuffer →
      ∀ d ∈ fs.demandsFrom v start, d.met = true
  | .nil, _, n, _, _, start, _ => fun d hd => absurd hd List.not_mem_nil
  | .cons _ shape rest, hw, n, hn, (v, vs), start, h => by
    obtain ⟨k, m, hk, hm, rfl⟩ := Fields.fixedSize?_cons.1 hn
    intro d hd
    rcases List.mem_append.1 hd with hd | hd
    · exact Shape.met_demands shape hw.1 hk v (by omega) d hd
    · rw [Shape.length_bytes shape hw.1 hk v] at hd
      exact Fields.met_demandsFrom rest hw.2.1 hm vs (by omega) d hd

end

/-- A message of fixed size for which there is room demands nothing that cannot be met. -/
theorem Fields.met_demands {fs : Fields} (hw : fs.WellFormed) {n : Nat}
    (hn : fs.fixedSize? = some n) (v : fs.Value) (h : n ≤ maxBuffer) :
    ∀ d ∈ fs.demands v, d.met = true :=
  Fields.met_demands_of hn h (fs.met_demandsFrom hw hn v (by omega))

/-- **A message of fixed size can be written if there is room for it,** and has that size. -/
theorem Fields.exists_serialize {fs : Fields} (hw : fs.WellFormed) {n : Nat}
    (hn : fs.fixedSize? = some n) (h : n ≤ maxBuffer) (v : fs.Value) :
    ∃ b, b.length = n ∧ ∀ build, fs.serialize build v = .ok b :=
  ⟨fs.bytes v, fs.length_bytes hw hn v, fun build =>
    (fs.settled_serialize build v).eq_ok (Fields.met_demands hw hn v h)⟩

/-- If there is no room for a message of fixed size, none is written. -/
theorem Fields.serialize_of_lt {fs : Fields} {n : Nat} (hn : fs.fixedSize? = some n)
    (h : maxBuffer < n) (build : Build) (v : fs.Value) :
    fs.serialize build v = .error (.panic .capacityOverflow) := by
  rw [Fields.serialize, Write.message, hn]
  exact if_neg (by simpa using h)

theorem Shape.takesRest_of_fixedSize? {s : Shape} {n : Nat} (hn : s.fixedSize? = some n) :
    s.takesRest = false := by
  cases s <;> first | rfl | cases hn

/-- The items of a list have bytes, and do not run to the end. -/
theorem Shape.item_bytes {item : Shape}
    (hw : (∃ n, item.fixedSize? = some (n + 1)) ∧ item.WellFormed) (v : item.Value) :
    item.bytes v ≠ [] ∧ item.takesRest = false := by
  obtain ⟨⟨n, hn⟩, hitem⟩ := hw
  exact ⟨List.ne_nil_of_length_eq_add_one (item.length_bytes hitem hn v),
    Shape.takesRest_of_fixedSize? hn⟩

/-! ### The round trip -/

theorem ScalarKind.encode_uint8 (v : UInt8) : ScalarKind.encode .uint8 v = [v] := by
  show [UInt8.ofNat (v.toNat % 256)] = [v]
  rw [Nat.mod_eq_of_lt v.toNat_lt, UInt8.ofNat_toNat]

theorem Decoder.reads_choice {name : String} {values : List UInt8}
    (v : { v : UInt8 // v ∈ values }) (rest : Bytes) :
    (Decoder.choice name values).Reads [v.1] rest v := by
  have h1 : (Decoder.scalar .uint8).Reads [v.1] ([] ++ rest) v.1 := by
    rw [← ScalarKind.encode_uint8]
    exact Decoder.reads_scalar .uint8 v.1 _
  refine h1.bind ?_
  rw [dif_pos v.2]
  exact Decoder.reads_pure v rest

mutual

/-- What comes back of a value that was written: a text in a field of fixed size may be cut. -/
def Shape.reread : (s : Shape) → s.Value → s.Value
  | .fixedText n, v => Decoder.rereadText v n
  | .nested _ fs, v => fs.reread v
  | .prefixedNested _ fs, v => fs.reread v
  | .prefixedList _ item, vs => List.map item.reread vs
  | .restList item, vs => List.map item.reread vs
  | .scalar _, v => v
  | .fixedBytes _, v => v
  | .prefixedText _, v => v
  | .prefixedBytes _, v => v
  | .restText, v => v
  | .restBytes, v => v
  | .choice _ _, v => v

/-- What comes back of a message. -/
def Fields.reread : (fs : Fields) → fs.Value → fs.Value
  | .nil, v => v
  | .cons _ shape rest, (v, vs) => (shape.reread v, rest.reread vs)

end

mutual

/-- **What is read of the bytes of a value,** if the demands of writing it are met. Bytes may follow
unless the value runs to the end. -/
theorem Shape.reads_reread : (s : Shape) → s.WellFormed → ∀ (v : s.Value) {start : Nat},
    (∀ d ∈ s.demands v start, d.met = true) → ∀ rest, (s.takesRest = true → rest = []) →
      s.decode.Reads (s.bytes v) rest (s.reread v)
  | .scalar k, _, v, _, _, rest, _ => Decoder.reads_scalar k v rest
  | .fixedText m, _, v, _, _, rest, _ => Decoder.reads_rereadText v m rest
  | .fixedBytes m, _, v, _, _, rest, _ => Decoder.reads_exactly v rest
  | .prefixedText p, _, v, _, h, rest, _ =>
    Decoder.reads_prefixedText (of_decide_eq_true (h _ List.mem_cons_self)) rest
  | .prefixedBytes p, _, v, _, h, rest, _ =>
    Decoder.reads_prefixed (of_decide_eq_true (h _ List.mem_cons_self)) rest
  | .restText, _, v, _, _, rest, hr => by
    rw [hr rfl]
    exact Decoder.reads_restText v
  | .restBytes, _, v, _, _, rest, hr => by
    rw [hr rfl]
    exact Decoder.reads_rest v
  | .choice name values, _, v, _, _, rest, _ => Decoder.reads_choice v rest
  | .nested n fs, hw, v, _, h, rest, _ => by
    obtain ⟨-, hfields⟩ := List.forall_mem_append.1 h
    have hd := Fields.reads_reread fs hw.2 v hfields [] fun _ => rfl
    have := (Decoder.reads_take (fs.length_bytes hw.2 hw.1 v) ([] ++ rest)).bind (hd.within rest)
    rwa [List.append_nil] at this
  | .prefixedNested p fs, hw, v, _, h, rest, _ => by
    obtain ⟨hmessage, hp⟩ := List.forall_mem_append.1 h
    obtain ⟨-, hfields⟩ := List.forall_mem_append.1 hmessage
    exact (Fields.reads_reread fs hw v hfields [] fun _ => rfl).counted
      (of_decide_eq_true (hp _ List.mem_cons_self)) rest
  | .prefixedList p item, hw, vs, _, h, rest, _ => by
    obtain ⟨hitems, hp⟩ := List.forall_mem_append.1 h
    refine (Decoder.reads_items item.reread fun v hv => ?_).counted
      (of_decide_eq_true (hp _ List.mem_cons_self)) rest
    obtain ⟨start, hmet⟩ := Demand.exists_start hitems hv
    obtain ⟨hne, hends⟩ := Shape.item_bytes hw v
    exact ⟨hne, fun rest => Shape.reads_reread item hw.2 v hmet rest
      fun ht => by rw [hends] at ht; cases ht⟩
  | .restList item, hw, vs, _, h, rest, hr => by
    rw [hr rfl]
    refine Decoder.reads_items item.reread fun v hv => ?_
    obtain ⟨start, hmet⟩ := Demand.exists_start h hv
    obtain ⟨hne, hends⟩ := Shape.item_bytes hw v
    exact ⟨hne, fun rest => Shape.reads_reread item hw.2 v hmet rest
      fun ht => by rw [hends] at ht; cases ht⟩

/-- What is read of the bytes of a message. -/
theorem Fields.reads_reread : (fs : Fields) → fs.WellFormed → ∀ (v : fs.Value) {start : Nat},
    (∀ d ∈ fs.demandsFrom v start, d.met = true) → ∀ rest, (fs.takesRest = true → rest = []) →
      fs.decode.Reads (fs.bytes v) rest (fs.reread v)
  | .nil, _, v, _, _, rest, _ => Decoder.reads_pure () rest
  | .cons _ shape rest, hw, (v, vs), _, h, more, hr => by
    obtain ⟨hshape, hrest⟩ := List.forall_mem_append.1 h
    have h1 : shape.decode.Reads (shape.bytes v) (rest.bytes vs ++ more) (shape.reread v) := by
      refine Shape.reads_reread shape hw.1 v hshape _ fun ht => ?_
      -- nothing stands behind a field that runs to the end
      have hnil := hw.2.2 ht
      subst hnil
      exact hr (by rw [Fields.takesRest, ht, Bool.true_or])
    have h2 : rest.decode.Reads (rest.bytes vs) more (rest.reread vs) :=
      Fields.reads_reread rest hw.2.1 vs hrest more fun ht =>
        hr (by rw [Fields.takesRest, ht, Bool.or_true])
    exact h1.bind (h2.map fun vs => (shape.reread v, vs))

end

mutual

/-- A value whose texts fit comes back as it was. -/
theorem Shape.reread_of_fits : (s : Shape) → ∀ v : s.Value, s.Fits v → s.reread v = v
  | .fixedText _, _, hv => Decoder.rereadText_of_fits hv.1 hv.2
  | .nested _ fs, v, hv => Fields.reread_of_fits fs v hv
  | .prefixedNested _ fs, v, hv => Fields.reread_of_fits fs v hv
  | .prefixedList _ item, vs, hv =>
    (List.map_congr_left fun v hm => Shape.reread_of_fits item v (hv v hm)).trans (List.map_id vs)
  | .restList item, vs, hv =>
    (List.map_congr_left fun v hm => Shape.reread_of_fits item v (hv v hm)).trans (List.map_id vs)
  | .scalar _, _, _ => rfl
  | .fixedBytes _, _, _ => rfl
  | .prefixedText _, _, _ => rfl
  | .prefixedBytes _, _, _ => rfl
  | .restText, _, _ => rfl
  | .restBytes, _, _ => rfl
  | .choice _ _, _, _ => rfl

/-- A message whose texts fit comes back as it was. -/
theorem Fields.reread_of_fits : (fs : Fields) → ∀ v : fs.Value, fs.Fits v → fs.reread v = v
  | .nil, _, _ => rfl
  | .cons _ shape rest, (v, vs), hv =>
    Prod.ext (Shape.reread_of_fits shape v hv.1) (Fields.reread_of_fits rest vs hv.2)

end

/-- **What is read of a message that was written.** In a build that takes sums modulo 2 ^ 64, the
message has to have fewer bytes than that. -/
theorem Fields.reads_serialize (build : Build) {fs : Fields} (hw : fs.WellFormed) {v : fs.Value}
    (hsize : build = .wrapping → (fs.bytes v).length < wordCount) {b : Bytes}
    (hb : fs.serialize build v = .ok b) (rest : Bytes) (hr : fs.takesRest = true → rest = []) :
    b = fs.bytes v ∧ fs.decode.Reads b rest (fs.reread v) := by
  obtain ⟨rfl, hmet⟩ := (fs.settled_serialize build v).of_eq_ok (fs.sums_demands build hsize) hb
  obtain ⟨-, hfields⟩ := List.forall_mem_append.1 hmet
  exact ⟨rfl, fs.reads_reread hw v hfields rest hr⟩

/-! ### Bytes of one size -/

theorem Decoder.choice_of_scalar {name : String} {values : List UInt8} {s : Bytes} {v : UInt8}
    {n : Nat} (h : Decoder.scalar .uint8 s = (.ok v, n)) :
    Decoder.choice name values s =
      (if hv : v ∈ values then .ok ⟨v, hv⟩ else .error (.invalidEnumValue name v), n) := by
  have hc : Decoder.choice name values s = _ := Decoder.bind_of_ok h
  rw [hc]
  by_cases hv : v ∈ values
  · simp only [dif_pos hv]
    rfl
  · simp only [dif_neg hv]
    rfl

theorem Decoder.takes_choice (name : String) (values : List UInt8) :
    (Decoder.choice name values).Takes 1 where
  enough s h := by
    rcases (Decoder.takes_scalar .uint8).enough s h with ⟨v, hv⟩ | ⟨name', value, k, he⟩
    · rw [Decoder.choice_of_scalar hv]
      split_ifs with hm
      · exact Or.inl ⟨⟨v, hm⟩, rfl⟩
      · exact Or.inr ⟨name, v, 1, rfl⟩
    · exact Or.inr ⟨name', value, k, Decoder.bind_of_error he⟩
  short s h := by
    obtain ⟨e, k, he⟩ := (Decoder.takes_scalar .uint8).short s h
    exact ⟨e, k, Decoder.bind_of_error he⟩

mutual

/-- **A decoder of values of fixed size takes that many bytes.** -/
theorem Shape.takes_decode : (s : Shape) → s.WellFormed → ∀ {n : Nat}, s.fixedSize? = some n →
    s.decode.Takes n
  | .scalar k, _, n, hn => by
    cases hn
    exact Decoder.takes_scalar k
  | .fixedText m, _, n, hn => by
    cases hn
    exact Decoder.takes_fixedText m
  | .fixedBytes m, _, n, hn => by
    cases hn
    exact Decoder.takes_exactly m
  | .choice name values, _, n, hn => by
    cases hn
    exact Decoder.takes_choice name values
  | .nested m fs, hw, n, hn => by
    cases hn
    exact (Fields.takes_decode fs hw.2 hw.1).span

/-- A decoder of messages of fixed size takes that many bytes. -/
theorem Fields.takes_decode : (fs : Fields) → fs.WellFormed → ∀ {n : Nat},
    fs.fixedSize? = some n → fs.decode.Takes n
  | .nil, _, n, hn => by
    cases hn
    exact Decoder.takes_pure ()
  | .cons _ shape rest, hw, n, hn => by
    obtain ⟨k, m, hk, hm, rfl⟩ := Fields.fixedSize?_cons.1 hn
    exact (Shape.takes_decode shape hw.1 hk).bind fun v =>
      (Fields.takes_decode rest hw.2.1 hm).map fun vs => (v, vs)

end

end WireSchema
