import WireSchema.Codec.Field
import WireSchema.Proofs.Completed

/-! # Field codecs are well-formed

The codec of a field is found from its type and its size alone. In a completed schema every codec
makes sense: the types that it names exist, its sizes are those of the layout and not 0, and its
length prefixes are unsigned scalars (`FieldCodec.wellFormed_of`). The codecs that run to the end
are those of the unbounded fields, and a model has a size exactly if no codec of it varies. -/

namespace WireSchema

/-- The scalars that can say the length of a payload. -/
def Primitive.lengthScalars : List Primitive :=
  [.scalar .uint8, .scalar .uint16, .scalar .uint32, .scalar .uint64]

/-- The elements of an array are scalars, enums, or models with a size that is not 0. -/
def ElementCodec.WellFormed (s : Schema) : ElementCodec → Prop
  | .scalar p => ∃ k, p = .scalar k
  | .enum name => ∃ e, s.enum? name = some e
  | .model name size => ∃ m, s.model? name = some m ∧ m.wireSize = .fixed size ∧ 1 ≤ size

namespace FieldCodec

/-- The codec of the field `f` makes sense in the schema `s`. -/
def WellFormed (s : Schema) (f : Field) : FieldCodec → Prop
  | .scalar p => (∃ k, p = .scalar k) ∧ f.size.fixed = p.naturalSize
  | .fixedString size | .fixedBytes size => 1 ≤ size
  | .prefixedString p | .prefixedBytes p => p ∈ Primitive.lengthScalars
  | .remainingString | .remainingBytes => True
  | .enum name => ∃ e, s.enum? name = some e
  | .model name size =>
    ∃ m, s.model? name = some m ∧ m.wireSize = .fixed size ∧ f.size.fixed = some size
  | .prefixedModel name p => p ∈ Primitive.lengthScalars ∧ ∃ m, s.model? name = some m
  | .prefixedArray element p => p ∈ Primitive.lengthScalars ∧ element.WellFormed s
  | .remainingArray element => element.WellFormed s

/-- Whether a codec takes the rest of the message. -/
def isRemaining : FieldCodec → Bool
  | .remainingString | .remainingBytes | .remainingArray _ => true
  | _ => false

/-- Whether a codec has a length in front. -/
def isPrefixed : FieldCodec → Bool
  | .prefixedString _ | .prefixedBytes _ | .prefixedModel _ _ | .prefixedArray _ _ => true
  | _ => false

end FieldCodec

variable {s : Schema} {m : Model} {f : Field}

theorem Primitive.mem_lengthScalars {p : Primitive} :
    p ∈ lengthScalars ↔ p.isLengthPrefix = true := by
  rcases p with k | _ | _
  · cases k <;> decide
  · decide
  · decide

theorem Schema.exists_enum? {name : String} (h : name ∈ s.enums.map (·.name)) :
    ∃ e, s.enum? name = some e := by
  obtain ⟨e, he, hn⟩ := List.mem_map.1 h
  exact Option.isSome_iff_exists.1 (List.find?_isSome.2 ⟨e, he, by simpa using hn⟩)

namespace Schema.Completed

theorem modelSize_eq (h : s.Completed) {name : String} (hn : name ∈ s.models.map (·.name)) {n : Nat}
    (hsize : s.wireSizeOf name = .fixed n) :
    s.modelSize name = n ∧ ∃ m, s.model? name = some m ∧ m.wireSize = .fixed n := by
  obtain ⟨m, -, hm, -, hw⟩ := h.exists_model hn
  rw [hsize] at hw
  refine ⟨?_, m, hm, hw⟩
  rw [modelSize, hm, Option.bind_some, Model.fixedSize?, hw]
  rfl

theorem element_wellFormed (h : s.Completed) {t : TypeRef} (hres : t.Resolved s)
    (helem : t.IsElement s.wireSizeOf) : (ElementCodec.of s t).WellFormed s := by
  cases t with
  | primitive p =>
    rcases p with k | _ | _
    · exact ⟨k, rfl⟩
    · cases helem
    · cases helem
  | enum n => exact exists_enum? hres
  | model n =>
    obtain ⟨size, hsize, hpos⟩ := helem
    obtain ⟨hn, m, hm, hw⟩ := h.modelSize_eq hres hsize
    rw [ElementCodec.of, hn]
    exact ⟨m, hm, hw, hpos⟩
  | array t => cases helem

/-- **The codec of every field is well-formed.** -/
theorem codec_wellFormed (h : s.Completed) (hm : m ∈ s.models) (hf : f ∈ m.fields) :
    (FieldCodec.of s f).WellFormed s f := by
  have hsized := h.sized m hm f hf
  have hres := h.resolved.types m hm f hf
  have hadm := (h.admissible m hm).field hf
  have hlen : ∀ p, f.size.lengthPrefix = some p → p ∈ Primitive.lengthScalars :=
    fun p hp => Primitive.mem_lengthScalars.2 (hsized.lengths p hp)
  unfold FieldCodec.of
  split
  · next element p ht hp =>
    rw [ht] at hres
    exact ⟨hlen p hp, h.element_wellFormed hres (hadm.elements element ht)⟩
  · next element ht hp =>
    rw [ht] at hres
    exact h.element_wellFormed hres (hadm.elements element ht)
  · next name ht =>
    rw [ht] at hres
    exact exists_enum? hres
  · next name p ht hp =>
    rw [ht] at hres
    obtain ⟨m', -, hm', -⟩ := h.exists_model hres
    exact ⟨hlen p hp, m', hm'⟩
  · next name ht hp =>
    rw [ht] at hres
    obtain ⟨n, hn⟩ := hadm.nested name ht hp
    obtain ⟨hsize, m', hm', hw⟩ := h.modelSize_eq hres hn
    rw [hsize]
    refine ⟨m', hm', hw, h.fixed_eq_of_notedSize? hm hf ?_⟩
    simp [Field.notedSize?, hp, ht, hn, WireSize.fixed?]
  · next p ht hp => exact hlen p hp
  · next p ht hp => exact hlen p hp
  · next ht hp =>
    split
    · next n hn => exact hsized.positive _ n ht hn
    · trivial
  · next ht hp =>
    split
    · next n hn => exact hsized.positive _ n ht hn
    · trivial
  · next k ht => exact ⟨⟨k, rfl⟩, (hsized.scalar k ht).1⟩

end Schema.Completed

/-! ### Codecs that vary -/

theorem FieldCodec.isRemaining_of (s : Schema) (f : Field) :
    (FieldCodec.of s f).isRemaining = f.isUnbounded := by
  obtain ⟨name, type, ⟨fixed, pre⟩, ds, doc, offset, pos⟩ := f
  cases pre with
  | some q =>
    cases type with
    | primitive p => cases p <;> rfl
    | _ => rfl
  | none =>
    cases type with
    | primitive p => rcases p with k | _ | _ <;> cases fixed <;> rfl
    | _ => rfl

theorem FieldCodec.isPrefixed_of (hsized : f.Sized) (henum : Verify.prefixesEnum f = false) :
    (FieldCodec.of s f).isPrefixed = f.size.lengthPrefix.isSome := by
  obtain ⟨name, type, ⟨fixed, pre⟩, ds, doc, offset, pos⟩ := f
  cases pre with
  | some q =>
    cases type with
    | primitive p =>
      cases p with
      | scalar k => cases (hsized.scalar k rfl).2
      | string => rfl
      | bytes => rfl
    | enum n => cases henum
    | model n => rfl
    | array t => rfl
  | none =>
    cases type with
    | primitive p => rcases p with k | _ | _ <;> cases fixed <;> rfl
    | _ => rfl

namespace Schema

/-- The messages of a model have the same size exactly if no codec of it varies. -/
theorem Completed.wireSize_fixed_iff (h : s.Completed) (hm : m ∈ s.models) :
    (∃ n, m.wireSize = .fixed n) ↔ ∀ f ∈ m.fields,
      (FieldCodec.of s f).isPrefixed = false ∧ (FieldCodec.of s f).isRemaining = false := by
  have hfixed : ∀ f ∈ m.fields, f.isFixed = true ↔
      (FieldCodec.of s f).isPrefixed = false ∧ (FieldCodec.of s f).isRemaining = false := by
    intro f hf
    rw [FieldCodec.isPrefixed_of (h.sized m hm f hf) (h.enums m hm f hf),
      FieldCodec.isRemaining_of, Field.isFixed]
    simp
  rw [h.wireSize_eq_sizeBy hm, Model.sizeBy]
  split_ifs with hall
  · rw [List.all_eq_true] at hall
    simp only [WireSize.fixed.injEq, exists_eq', true_iff]
    exact fun f hf => (hfixed f hf).1 (hall f hf)
  · rw [List.all_eq_true] at hall
    simp only [exists_false, false_iff]
    exact fun hcodec => hall fun f hf => (hfixed f hf).2 (hcodec f hf)

/-- **Every field codec of an accepted schema is well-formed.** Arrays do not hold arrays, the
codecs that take the rest are those of the unbounded fields, which stand last, and a model has a
size exactly if none of its codecs varies. -/
theorem fieldCodec_wellFormed_of_ofText {text sourceFile : String} {parsedAt : Nat}
    (h : ofText text sourceFile parsedAt = .ok s) (hm : m ∈ s.models) :
    (∀ f ∈ m.fields, (FieldCodec.of s f).WellFormed s f ∧ (∀ t, f.type ≠ .array (.array t)) ∧
      (FieldCodec.of s f).isRemaining = f.isUnbounded) ∧
    (∀ front f back, m.fields = front ++ f :: back →
      (FieldCodec.of s f).isRemaining = true → back = []) ∧
    ((∃ n, m.wireSize = .fixed n) ↔ ∀ f ∈ m.fields,
      (FieldCodec.of s f).isPrefixed = false ∧ (FieldCodec.of s f).isRemaining = false) := by
  have hs := completed_of_ofText h
  refine ⟨fun f hf => ⟨hs.codec_wellFormed hm hf, (hs.sized m hm f hf).flat,
    FieldCodec.isRemaining_of s f⟩, fun front f back hsplit hrem => ?_, hs.wireSize_fixed_iff hm⟩
  rw [FieldCodec.isRemaining_of] at hrem
  exact (hs.admissible m hm).last front f back hsplit hrem

theorem fieldCodec_wellFormed_of_ofText_sample :
    ofText sampleText "" 0 = .ok sample ∧ sampleLog ∈ sample.models ∧
      (∀ f ∈ sampleLog.fields, (FieldCodec.of sample f).WellFormed sample f) ∧
      ¬ ∃ n, sampleLog.wireSize = .fixed n := by
  have hm : sampleLog ∈ sample.models := by decide
  obtain ⟨hcodec, -, hsize⟩ := fieldCodec_wellFormed_of_ofText ofText_sample hm
  refine ⟨ofText_sample, hm, fun f hf => (hcodec f hf).1, fun hfixed => ?_⟩
  have hrem : (sampleLog.fields.all fun f => !(FieldCodec.of sample f).isRemaining) = true :=
    List.all_eq_true.2 fun f hf => by rw [(hsize.1 hfixed f hf).2]; rfl
  exact absurd hrem (by decide)

end Schema

end WireSchema
