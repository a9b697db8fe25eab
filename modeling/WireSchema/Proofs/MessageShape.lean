import WireSchema.Codec.Resolve
import WireSchema.Proofs.FieldCodec
import WireSchema.Proofs.Shape

/-! # Shapes of the models of a completed schema

Each codec of a completed schema has a shape, and the shape is well formed: what the layout says of
the width of a field is what the shape takes (`Shaped`). Since no model holds itself, the shapes of
a model follow from those of the models below it, by induction on the references
(`exists_shaped`). -/

namespace WireSchema

/-! ### Codecs and their models -/

/-- The model in an element. -/
def ElementCodec.modelName? : ElementCodec → Option String
  | .model name _ => some name
  | _ => none

namespace FieldCodec

/-- The model in a field, or in the elements of its array. -/
def modelName? : FieldCodec → Option String
  | .model name _ => some name
  | .prefixedModel name _ => some name
  | .prefixedArray element _ => element.modelName?
  | .remainingArray element => element.modelName?
  | _ => none

/-- The number of bytes that a codec takes, where it takes the same in all messages. -/
def fixedSize? : FieldCodec → Option Nat
  | .scalar p => p.naturalSize
  | .fixedString n => some n
  | .fixedBytes n => some n
  | .enum _ => some 1
  | .model _ n => some n
  | _ => none

end FieldCodec

variable {s : Schema} {m : Model} {f : Field}

theorem ElementCodec.modelName?_of (s : Schema) (t : TypeRef) :
    (ElementCodec.of s t).modelName? = t.modelName? := by
  induction t with
  | array t ih => exact ih
  | _ => rfl

theorem FieldCodec.modelName?_of (s : Schema) (f : Field) :
    (FieldCodec.of s f).modelName? = f.type.modelName? := by
  obtain ⟨name, type, ⟨fixed, pre⟩, ds, doc, offset, pos⟩ := f
  cases type with
  | primitive p => rcases p with k | _ | _ <;> cases pre <;> cases fixed <;> rfl
  | enum n => rfl
  | model n => cases pre <;> rfl
  | array t => cases pre <;> exact ElementCodec.modelName?_of s t

namespace Schema

/-- The models in the codec of a field are those that its model refers to. -/
theorem Completed.refers_of_modelName? (h : s.Completed) (hm : m ∈ s.models) (hf : f ∈ m.fields)
    {b : String} (hb : (FieldCodec.of s f).modelName? = some b) : s.Refers m.name b := by
  rw [FieldCodec.modelName?_of] at hb
  exact h.refers_of_type hm hf hb

theorem Completed.fixedSize?_of (h : s.Completed) (hm : m ∈ s.models) (hf : f ∈ m.fields) :
    (FieldCodec.of s f).fixedSize? = f.width? s.wireSizeOf := by
  have hsized := h.sized m hm f hf
  have hres := h.resolved.types m hm f hf
  have hadm := (h.admissible m hm).field hf
  have henum := h.enums m hm f hf
  unfold FieldCodec.of Field.width?
  cases hp : f.size.lengthPrefix with
  | some q =>
    cases ht : f.type with
    | primitive p =>
      cases p with
      | scalar k => rw [(hsized.scalar k ht).2] at hp; cases hp
      | string => rfl
      | bytes => rfl
    | enum n => simp [Verify.prefixesEnum, ht, hp] at henum
    | model n => rfl
    | array t => rfl
  | none =>
    cases ht : f.type with
    | primitive p =>
      cases p with
      | scalar k =>
        rw [(hsized.scalar k ht).1]
        rfl
      | string => cases f.size.fixed <;> rfl
      | bytes => cases f.size.fixed <;> rfl
    | enum n => rfl
    | model n =>
      obtain ⟨size, hsize⟩ := hadm.nested n ht hp
      rw [ht] at hres
      simp [FieldCodec.fixedSize?, (h.modelSize_eq hres hsize).1, hsize, WireSize.fixed?]
    | array t => rfl

/-! ### Codecs and their shapes -/

section Shape

variable {find find' : String → Option Fields}

theorem elementShape?_congr {c : ElementCodec}
    (h : ∀ b, c.modelName? = some b → find b = find' b) :
    s.elementShape? find c = s.elementShape? find' c := by
  cases c with
  | scalar p => cases p <;> rfl
  | enum n => rfl
  | model n size => rw [elementShape?, elementShape?, h n rfl]

theorem fieldShape?_congr {c : FieldCodec}
    (h : ∀ b, c.modelName? = some b → find b = find' b) :
    s.fieldShape? find c = s.fieldShape? find' c := by
  cases c with
  | scalar p => cases p <;> rfl
  | model n size => rw [fieldShape?, fieldShape?, h n rfl]
  | prefixedModel n p => rw [fieldShape?, fieldShape?, h n rfl]
  | prefixedArray c p => rw [fieldShape?, fieldShape?, elementShape?_congr h]
  | remainingArray c => rw [fieldShape?, fieldShape?, elementShape?_congr h]
  | _ => rfl

/-- The shapes of a model are found, and take what the layout says. -/
def Found (s : Schema) (find : String → Option Fields) (name : String) : Prop :=
  ∀ m, s.model? name = some m →
    ∃ fs, find name = some fs ∧ fs.WellFormed ∧ fs.fixedSize? = m.fixedSize?

theorem exists_choice {name : String} (h : ∃ e, s.enum? name = some e) :
    ∃ owner values, s.choice? name = some (.choice owner values) := by
  obtain ⟨e, he⟩ := h
  exact ⟨e.name, e.members.map (·.value), by rw [choice?, he, Option.map_some]⟩

theorem exists_elementShape {c : ElementCodec} (hc : c.WellFormed s)
    (hfind : ∀ b, c.modelName? = some b → s.Found find b) :
    ∃ item, s.elementShape? find c = some item ∧ item.WellFormed ∧
      ∃ n, item.fixedSize? = some (n + 1) := by
  cases c with
  | scalar p =>
    obtain ⟨k, rfl⟩ := hc
    exact ⟨.scalar k, rfl, trivial, k.width - 1, by
      rw [Nat.sub_add_cancel k.width_pos]
      rfl⟩
  | enum n =>
    obtain ⟨owner, values, hv⟩ := exists_choice hc
    exact ⟨.choice owner values, hv, trivial, 0, rfl⟩
  | model n size =>
    obtain ⟨m, hm, hw, hpos⟩ := hc
    obtain ⟨fs, hfs, hwf, hsize⟩ := hfind n rfl m hm
    rw [Model.fixedSize?, hw] at hsize
    refine ⟨.nested size fs, by rw [elementShape?, hfs, Option.map_some], ⟨hsize, hwf⟩,
      size - 1, ?_⟩
    rw [Nat.sub_add_cancel hpos]
    rfl

theorem exists_toLengthPrefix? {p : Primitive} (h : p ∈ Primitive.lengthScalars) :
    ∃ q, p.toLengthPrefix? = some q :=
  Option.isSome_iff_exists.1 (Primitive.mem_lengthScalars.1 h)

/-- **A well-formed codec has a well-formed shape,** which takes as many bytes. -/
theorem exists_fieldShape {c : FieldCodec} (hc : c.WellFormed s f)
    (hfind : ∀ b, c.modelName? = some b → s.Found find b) :
    ∃ shape, s.fieldShape? find c = some shape ∧ shape.WellFormed ∧
      shape.fixedSize? = c.fixedSize? ∧ shape.takesRest = c.isRemaining := by
  cases c with
  | scalar p =>
    obtain ⟨⟨k, rfl⟩, -⟩ := hc
    exact ⟨.scalar k, rfl, trivial, rfl, rfl⟩
  | fixedString n => exact ⟨.fixedText n, rfl, trivial, rfl, rfl⟩
  | fixedBytes n => exact ⟨.fixedBytes n, rfl, trivial, rfl, rfl⟩
  | prefixedString p =>
    obtain ⟨q, hq⟩ := exists_toLengthPrefix? hc
    exact ⟨.prefixedText q, by rw [fieldShape?, hq, Option.map_some], trivial, rfl, rfl⟩
  | prefixedBytes p =>
    obtain ⟨q, hq⟩ := exists_toLengthPrefix? hc
    exact ⟨.prefixedBytes q, by rw [fieldShape?, hq, Option.map_some], trivial, rfl, rfl⟩
  | remainingString => exact ⟨.restText, rfl, trivial, rfl, rfl⟩
  | remainingBytes => exact ⟨.restBytes, rfl, trivial, rfl, rfl⟩
  | enum n =>
    obtain ⟨owner, values, hv⟩ := exists_choice hc
    exact ⟨.choice owner values, hv, trivial, rfl, rfl⟩
  | model n size =>
    obtain ⟨m, hm, hw, -⟩ := hc
    obtain ⟨fs, hfs, hwf, hsize⟩ := hfind n rfl m hm
    rw [Model.fixedSize?, hw] at hsize
    exact ⟨.nested size fs, by rw [fieldShape?, hfs, Option.map_some], ⟨hsize, hwf⟩, rfl, rfl⟩
  | prefixedModel n p =>
    obtain ⟨hp, m, hm⟩ := hc
    obtain ⟨q, hq⟩ := exists_toLengthPrefix? hp
    obtain ⟨fs, hfs, hwf, -⟩ := hfind n rfl m hm
    exact ⟨.prefixedNested q fs, by rw [fieldShape?, hq, hfs], hwf, rfl, rfl⟩
  | prefixedArray c p =>
    obtain ⟨q, hq⟩ := exists_toLengthPrefix? hc.1
    obtain ⟨item, hitem, hwf, hn⟩ := exists_elementShape hc.2 hfind
    exact ⟨.prefixedList q item, by rw [fieldShape?, hq, hitem], ⟨hn, hwf⟩, rfl, rfl⟩
  | remainingArray c =>
    obtain ⟨item, hitem, hwf, hn⟩ := exists_elementShape hc hfind
    exact ⟨.restList item, by rw [fieldShape?, hitem, Option.map_some], ⟨hn, hwf⟩, rfl, rfl⟩

theorem modelFields?_eq (s : Schema) (ms : List Model) (name : String) :
    s.modelFields? ms name = (ms.find? (·.name == name)).elim none
      (fun m => s.fieldShapes? (s.modelFields? (Layout.without ms name)) m.fields) := by
  rw [modelFields?]
  split
  · next h => rw [h]; rfl
  · next h => rw [h]; rfl

theorem fieldShapes?_congr {fields : List Field} (h : ∀ f ∈ fields, ∀ b,
    (FieldCodec.of s f).modelName? = some b → find b = find' b) :
    s.fieldShapes? find fields = s.fieldShapes? find' fields := by
  induction fields with
  | nil => rfl
  | cons f fields ih =>
    obtain ⟨hf, hfields⟩ := List.forall_mem_cons.1 h
    rw [fieldShapes?, fieldShapes?, fieldShape?_congr hf, ih hfields]

end Shape

/-- The fields of a model are shaped by the fields of the models in them. -/
theorem Completed.messageFields?_eq (h : s.Completed) (hm : m ∈ s.models) :
    s.messageFields? m.name = s.fieldShapes? s.messageFields? m.fields := by
  refine @descent_eq s _ s.modelFields? none (fun find m => s.fieldShapes? find m.fields)
    s.modelFields?_eq ?_ m (model?_of_mem h.resolved.modelNames hm) (h.acyclic.grounded m.name)
  intro m hm find find' hfind
  exact fieldShapes?_congr fun f hf b hb => hfind b (h.refers_of_modelName? hm hf hb)

/-! ### Models and their shapes -/

/-- The shapes of the fields `fields`: each is well formed, takes the width of its field, and runs
to the end if its field is unbounded. -/
inductive Shaped (s : Schema) : List Field → Fields → Prop
  | nil : Shaped s [] .nil
  | cons {f : Field} {fields : List Field} {shape : Shape} {rest : Fields}
    (hshape : s.fieldShape? s.messageFields? (FieldCodec.of s f) = some shape)
    (hwf : shape.WellFormed) (hsize : shape.fixedSize? = f.width? s.wireSizeOf)
    (hends : shape.takesRest = f.isUnbounded) (h : Shaped s fields rest) :
    Shaped s (f :: fields) (.cons f.name shape rest)

namespace Shaped

variable {fields : List Field} {fs : Fields}

theorem fieldShapes? (h : s.Shaped fields fs) :
    s.fieldShapes? s.messageFields? fields = some fs := by
  induction h with
  | nil => rfl
  | cons hshape _ _ _ _ ih => rw [Schema.fieldShapes?, hshape, ih]

theorem takesRest (h : s.Shaped fields fs) : fs.takesRest = fields.any Field.isUnbounded := by
  induction h with
  | nil => rfl
  | cons _ _ _ hends _ ih => rw [Fields.takesRest, List.any_cons, hends, ih]

theorem fixedSize? (h : s.Shaped fields fs) :
    fs.fixedSize? = if Layout.allFixed s.wireSizeOf fields then
      some (Layout.totalWidth s.wireSizeOf fields) else none := by
  induction h with
  | nil => rfl
  | @cons f fields shape rest _ _ hsize _ _ ih =>
    rw [Fields.fixedSize?, hsize, ih, Layout.allFixed_cons, Layout.totalWidth_cons]
    cases f.width? s.wireSizeOf <;> cases Layout.allFixed s.wireSizeOf fields <;> rfl

theorem wellFormed (h : s.Shaped fields fs) (hlast : ∀ front f back, fields = front ++ f :: back →
    f.isUnbounded = true → back = []) : fs.WellFormed := by
  induction h with
  | nil => trivial
  | @cons f fields shape rest _ hwf _ hends hrest ih =>
    refine ⟨hwf, ih fun front g back hg => ?_, fun hr => ?_⟩
    · exact hlast (f :: front) g back (by rw [hg, List.cons_append])
    · cases hlast [] f fields rfl (hends ▸ hr)
      cases hrest
      rfl

end Shaped

/-- Fields are shaped if the models in them are found. -/
theorem Completed.exists_shaped_of_found (h : s.Completed) (hm : m ∈ s.models)
    (hfound : ∀ b, s.Refers m.name b → s.Found s.messageFields? b) :
    ∃ fs, s.Shaped m.fields fs := by
  have hall : ∀ fields : List Field, (∀ f ∈ fields, f ∈ m.fields) → ∃ fs, s.Shaped fields fs := by
    intro fields hfields
    induction fields with
    | nil => exact ⟨.nil, .nil⟩
    | cons f fields ih =>
      obtain ⟨hf, hfields⟩ := List.forall_mem_cons.1 hfields
      obtain ⟨rest, hrest⟩ := ih hfields
      obtain ⟨shape, hshape, hwf, hsize, hends⟩ := exists_fieldShape (h.codec_wellFormed hm hf)
        fun b hb => hfound b (h.refers_of_modelName? hm hf hb)
      exact ⟨.cons f.name shape rest, .cons hshape hwf (hsize.trans (h.fixedSize?_of hm hf))
        (hends.trans (FieldCodec.isRemaining_of s f)) hrest⟩
  exact hall m.fields fun _ hf => hf

theorem Completed.fixedSize?_eq (h : s.Completed) (hm : m ∈ s.models) {fs : Fields}
    (hfs : s.Shaped m.fields fs) : fs.fixedSize? = m.fixedSize? := by
  have hsize : (Layout.progress s.wireSizeOf m.fields).wireSize = m.wireSize := by
    rw [Layout.progress_wireSize fun f hf => (h.admissible m hm).field hf,
      h.wireSize_eq_sizeBy hm]
  rw [hfs.fixedSize?, Model.fixedSize?, ← hsize, Layout.Progress.wireSize, Layout.progress]
  cases Layout.allFixed s.wireSizeOf m.fields <;> rfl

/-- **Every model of a completed schema has its shapes.** The induction is on the references. -/
theorem Completed.exists_shaped (h : s.Completed) (hm : m ∈ s.models) :
    ∃ fs, s.messageFields? m.name = some fs ∧ s.Shaped m.fields fs := by
  generalize ha : m.name = a
  induction h.acyclic.grounded a generalizing m with
  | intro a _ ih =>
    subst ha
    have hfound : ∀ b, s.Refers m.name b → s.Found s.messageFields? b := by
      intro b hb m' hm'
      obtain ⟨hmem, rfl⟩ := mem_of_model? hm'
      obtain ⟨fs, hfs, hshaped⟩ := ih m'.name hb hmem rfl
      exact ⟨fs, hfs, hshaped.wellFormed (h.admissible m' hmem).last, h.fixedSize?_eq hmem hshaped⟩
    obtain ⟨fs, hshaped⟩ := h.exists_shaped_of_found hm hfound
    exact ⟨fs, by rw [h.messageFields?_eq hm, hshaped.fieldShapes?], hshaped⟩

end Schema

end WireSchema
