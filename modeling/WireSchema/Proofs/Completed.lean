import WireSchema.Proofs.Declared
import WireSchema.Proofs.LayoutDescent
import WireSchema.Proofs.Placed
import WireSchema.Proofs.Verified

/-! # Completed schemas

A verified schema is laid out exactly if its models can be laid out and do not hold themselves, and
the sizes and places are then those of `Schema.placed`. A schema that a text declares, once verified
and laid out, is `Completed`: all that later proofs need to know of it. -/

namespace WireSchema

variable {size g : String → WireSize} {offset : Option Nat} {s s' s₀ : Schema}

/-! ### The layout of a verified schema -/

namespace Schema

/-- Without a cycle, sizes are the sums of the widths of fields exactly if they are those that the
descent finds. -/
theorem sizeBy_iff (h : s.Resolved) (hacyc : s.Acyclic) :
    (∀ m ∈ s.models, size m.name = m.sizeBy size) ↔
      ∀ m ∈ s.models, size m.name = s.wireSizeOf m.name := by
  have href : ∀ a b, s.Refers a b → b ∈ s.models.map (·.name) := fun _ _ => h.mem_of_refers
  constructor
  · intro hsize m hm
    exact eq_wireSizeOf h.modelNames hsize href (List.mem_map_of_mem hm) (hacyc.grounded m.name)
  · intro hsize m hm
    rw [hsize m hm, wireSizeOf_eq (model?_of_mem h.modelNames hm) (hacyc.grounded m.name)]
    refine sizeBy_congr hm fun b hb => ?_
    obtain ⟨m', hm', rfl⟩ := List.mem_map.1 (href m.name b hb)
    exact (hsize m' hm').symm

/-- **The layout of a verified schema.** It is found exactly if no model holds itself and each model
can be laid out. Sizes, offsets and noted sizes are then those of `placed`, and the sizes are the
only solution of their equation. -/
theorem layout_iff_of_verify (h : s₀.verify = (s, none)) :
    ((∃ s', s.layout = .ok s') ↔ s.Acyclic ∧ ∀ m ∈ s.models, m.Admissible s.wireSizeOf) ∧
      (∀ s', s.layout = .ok s' → s' = s.placed) ∧
      (s.Acyclic → ∀ size : String → WireSize, (∀ m ∈ s.models, size m.name = m.sizeBy size) ↔
        ∀ m ∈ s.models, size m.name = s.wireSizeOf m.name) := by
  have hr := resolved_of_verify h
  have hset := forall_settled_iff hr.modelNames fun _ _ => hr.mem_of_refers
  refine ⟨⟨?_, ?_⟩, fun s' hs' => (layout_sound hr.modelNames hs').2,
    fun hacyc _ => sizeBy_iff hr hacyc⟩
  · rintro ⟨s', hs'⟩
    exact hset.1 (layout_sound hr.modelNames hs').1
  · intro hadm
    exact layout_complete hr.modelNames (hset.2 hadm)

/-- A schema text: a model in a model, an enum, a text of fixed size, and an array at the end. -/
def sampleText : String :=
  "model Log{at:Point @size(3)tag:string rest:Point[]}enum Mode{On}model Point{mode:Mode x:uint16}"

/-- The model `Point` of `sampleText`. -/
def samplePoint : Model :=
  ⟨"Point", [
    ⟨"mode", .enum "Mode", ⟨some 1, none⟩, [], none, some 0, ⟨1, 77⟩⟩,
    ⟨"x", .primitive (.scalar .uint16), ⟨some 2, none⟩, [], none, some 1, ⟨1, 87⟩⟩],
    [], none, none, .fixed 3, ⟨1, 71⟩⟩

/-- The model `Log` of `sampleText`. -/
def sampleLog : Model :=
  ⟨"Log", [
    ⟨"at", .model "Point", ⟨some 3, none⟩, [], none, some 0, ⟨1, 11⟩⟩,
    ⟨"tag", .primitive .string, ⟨some 3, none⟩,
      [⟨"size", [.number ⟨0x4008000000000000⟩], ⟨1, 20⟩⟩], none, some 3, ⟨1, 28⟩⟩,
    ⟨"rest", .array (.model "Point"), ⟨none, none⟩, [], none, some 6, ⟨1, 39⟩⟩],
    [], none, none, .varying, ⟨1, 7⟩⟩

/-- The schema that `sampleText` declares, verified and laid out. -/
def sample : Schema :=
  ⟨"", [⟨"Mode", [⟨"On", 0, none⟩], [], none, ⟨1, 57⟩⟩], [sampleLog, samplePoint], ⟨"", 0, none⟩⟩

theorem layout_iff_of_verify_sample :
    sample.verify = (sample, none) ∧ sample.layout = .ok sample ∧ sample.Acyclic ∧
      (∀ m ∈ sample.models, m.Admissible sample.wireSizeOf) ∧ sample = sample.placed := by
  have hv : sample.verify = (sample, none) := by decide +kernel
  have hl : sample.layout = .ok sample := by decide +kernel
  obtain ⟨hiff, hplaced, -⟩ := layout_iff_of_verify hv
  obtain ⟨hacyc, hadm⟩ := hiff.1 ⟨sample, hl⟩
  exact ⟨hv, hl, hacyc, hadm, hplaced sample hl⟩

end Schema

/-! ### Schemas out of texts -/

namespace Field

variable {f : Field}

/-- Placing a field leaves a primitive with its size. -/
theorem Sized.placed (h : f.Sized) : (f.placed g offset).Sized := by
  have hfixed : ∀ p, f.type = .primitive p → (f.placed g offset).size.fixed = f.size.fixed := by
    intro p ht
    simp [Field.placed, notedSize?, ht]
  refine ⟨fun k ht => ?_, fun p n ht => ?_, h.lengths, h.flat⟩
  · rw [hfixed _ ht]
    exact h.scalar k ht
  · rw [hfixed _ ht]
    exact h.positive p n ht

theorem Sized.marked (h : f.Sized) : (f.marked s).Sized := by
  refine ⟨fun k ht => h.scalar k (TypeRef.marked_eq_primitive.1 ht),
    fun p n ht => h.positive p n (TypeRef.marked_eq_primitive.1 ht), h.lengths, fun t ht => ?_⟩
  obtain ⟨u, hu, ht⟩ := TypeRef.marked_eq_array.1 ht
  obtain ⟨v, rfl, -⟩ := TypeRef.marked_eq_array.1 ht
  exact h.flat v hu

end Field

/-- What is known of a schema that has been verified and laid out. -/
structure Schema.Completed (s : Schema) : Prop where
  resolved : s.Resolved
  acyclic : s.Acyclic
  admissible : ∀ m ∈ s.models, m.Admissible s.wireSizeOf
  /-- The sizes and places are those of the layout. -/
  placed : ∀ m ∈ s.models, m.placed s.wireSizeOf = m
  sized : ∀ m ∈ s.models, ∀ f ∈ m.fields, f.Sized
  /-- No single enum value has a length in front. -/
  enums : ∀ m ∈ s.models, ∀ f ∈ m.fields, Verify.prefixesEnum f = false

namespace Schema

theorem Resolved.placed (h : s.Resolved) : s.placed.Resolved := by
  have htype : ∀ t : TypeRef, t.Resolved s → t.Resolved s.placed := by
    intro t ht
    induction t with
    | primitive p => trivial
    | enum n => exact ht
    | model n =>
      rw [TypeRef.Resolved, map_name_placed]
      exact ht
    | array t ih => exact ih ht
  refine ⟨h.enumNames, by rw [map_name_placed]; exact h.modelNames, h.values, fun m hm f hf => ?_⟩
  obtain ⟨m₀, hm₀, rfl⟩ := List.mem_map.1 hm
  obtain ⟨f₀, hf₀, offset, rfl⟩ := Model.exists_of_mem_placed hf
  exact htype _ (h.types m₀ hm₀ f₀ hf₀)

/-- A field of a schema that has been marked and placed comes from one before. -/
theorem exists_of_mem_marked_placed {m' : Model} (hm' : m' ∈ s.marked.placed.models) {f' : Field}
    (hf' : f' ∈ m'.fields) :
    ∃ m ∈ s.models, ∃ f ∈ m.fields, ∃ offset,
      f' = (f.marked s).placed s.marked.wireSizeOf offset := by
  obtain ⟨m₁, hm₁, rfl⟩ := List.mem_map.1 hm'
  obtain ⟨f₁, hf₁, offset, rfl⟩ := Model.exists_of_mem_placed hf'
  obtain ⟨m, hm, rfl⟩ := List.mem_map.1 hm₁
  obtain ⟨f, hf, rfl⟩ := List.mem_map.1 hf₁
  exact ⟨m, hm, f, hf, offset, rfl⟩

theorem completed_of_layout (hdecl : ∀ m ∈ s₀.models, ∀ f ∈ m.fields, f.Sized)
    (hv : s₀.verify = (s, none)) (hl : s.layout = .ok s') : s'.Completed := by
  have hr := resolved_of_verify hv
  obtain ⟨hset, rfl⟩ := layout_sound hr.modelNames hl
  obtain ⟨hacyc, hadm⟩ := (forall_settled_iff hr.modelNames fun _ _ => hr.mem_of_refers).1 hset
  obtain ⟨-, hchecked, -, rfl⟩ := verify_eq_none.1 hv
  refine ⟨hr.placed, fun a ha => hacyc a ?_, fun m' hm' => ?_, fun m' hm' => ?_,
    fun m' hm' f' hf' => ?_, fun m' hm' f' hf' => ?_⟩
  · exact Relation.TransGen.mono (fun _ _ => refers_placed.1) _ _ ha
  · obtain ⟨m, hm, rfl⟩ := List.mem_map.1 hm'
    rw [wireSizeOf_placed]
    exact (hadm m hm).placed
  · obtain ⟨m, -, rfl⟩ := List.mem_map.1 hm'
    rw [wireSizeOf_placed, Model.placed_placed]
  · obtain ⟨m, hm, f, hf, offset, rfl⟩ := exists_of_mem_marked_placed hm' hf'
    exact (hdecl m hm f hf).marked.placed
  · obtain ⟨m, hm, f, hf, offset, rfl⟩ := exists_of_mem_marked_placed hm' hf'
    exact (hchecked m hm).enums f hf

/-- A schema text that is accepted has been read, verified and laid out. -/
theorem steps_of_ofText {text sourceFile : String} {parsedAt : Nat}
    (h : ofText text sourceFile parsedAt = .ok s) :
    ∃ s₀ s₁, read text sourceFile parsedAt = .ok s₀ ∧ s₀.verify = (s₁, none) ∧
      s₁.layout = .ok s := by
  unfold ofText at h
  split at h
  · cases h
  next s₀ hread =>
  unfold completed at h
  split at h
  · cases h
  next s₁ hv =>
  split at h
  · cases h
  next s₂ hl =>
  cases h
  exact ⟨s₀, s₁, hread, hv, hl⟩

/-- **A schema text that is accepted gives a completed schema.** -/
theorem completed_of_ofText {text sourceFile : String} {parsedAt : Nat}
    (h : ofText text sourceFile parsedAt = .ok s) : s.Completed := by
  obtain ⟨s₀, s₁, hread, hv, hl⟩ := steps_of_ofText h
  exact completed_of_layout (fun m hm f hf => (declared_of_read hread m hm f hf).sized) hv hl

theorem ofText_sample : ofText sampleText "" 0 = .ok sample := by decide +kernel

namespace Completed

variable {m : Model} {f : Field}

theorem wireSize_eq_sizeBy (h : s.Completed) (hm : m ∈ s.models) :
    m.wireSize = m.sizeBy s.wireSizeOf :=
  (congrArg Model.wireSize (h.placed m hm)).symm

theorem wireSize_eq (h : s.Completed) (hm : m ∈ s.models) : m.wireSize = s.wireSizeOf m.name := by
  rw [h.wireSize_eq_sizeBy hm,
    wireSizeOf_eq (model?_of_mem h.resolved.modelNames hm) (h.acyclic.grounded m.name)]

theorem exists_model (h : s.Completed) {name : String} (hn : name ∈ s.models.map (·.name)) :
    ∃ m ∈ s.models, s.model? name = some m ∧ m.name = name ∧ m.wireSize = s.wireSizeOf name := by
  obtain ⟨m, hm, rfl⟩ := List.mem_map.1 hn
  exact ⟨m, hm, model?_of_mem h.resolved.modelNames hm, rfl, h.wireSize_eq hm⟩

/-- A field stands at its place, with its noted size. -/
theorem placed_field (h : s.Completed) (hm : m ∈ s.models) {i : Nat} (hf : m.fields[i]? = some f) :
    f.placed s.wireSizeOf (m.offset? s.wireSizeOf i) = f := by
  have hfields : (m.placed s.wireSizeOf).fields[i]? = some f := by rw [h.placed m hm, hf]
  change (List.mapIdx _ m.fields)[i]? = some f at hfields
  rw [List.getElem?_mapIdx, hf, Option.map_some] at hfields
  exact Option.some.inj hfields

theorem fixed_eq_of_notedSize? (h : s.Completed) (hm : m ∈ s.models) (hf : f ∈ m.fields) {n : Nat}
    (hn : f.notedSize? s.wireSizeOf = some n) : f.size.fixed = some n := by
  obtain ⟨i, hi⟩ := List.getElem?_of_mem hf
  have hfixed := congrArg (fun f => f.size.fixed) (h.placed_field hm hi)
  rw [← hfixed]
  change (f.notedSize? s.wireSizeOf).or f.size.fixed = some n
  rw [hn, Option.some_or]

/-- A model refers to the models that its fields name. -/
theorem refers_of_type (h : s.Completed) (hm : m ∈ s.models) (hf : f ∈ m.fields) {name : String}
    (hn : f.type.modelName? = some name) : s.Refers m.name name := by
  refine ⟨m, hm, rfl, f, hf, ?_⟩
  cases ht : f.type with
  | primitive p => rw [ht] at hn; cases hn
  | enum e => rw [ht] at hn; cases hn
  | model n => rw [ht] at hn; cases hn; exact Or.inl rfl
  | array t =>
    right
    rw [ht] at hn
    cases t with
    | primitive p => cases hn
    | enum e => cases hn
    | model n => cases hn; rfl
    | array t =>
      -- a name is looked for through arrays of arrays, a reference is not; there are none
      exact absurd ht ((h.sized m hm f hf).flat t)

end Completed

end Schema

end WireSchema
