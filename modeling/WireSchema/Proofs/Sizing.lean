import WireSchema.Proofs.Reference
import Mathlib.Algebra.GroupWithZero.Nat

/-! # Sizes of fields and models

What the layout has to find, without its cache and its order: given the sizes of the models, a field
has a width or none, a model has the sum of the widths of its fields if none of them has a length in
front or runs to the end, and a field starts behind the sum of the widths in front of it. The sizes
themselves are found by a descent; without a cycle they solve their own equation
(`wireSizeOf_eq`), and no other sizes do (`eq_wireSizeOf`). -/

namespace WireSchema

variable {size : String → WireSize}

/-! ### Fields -/

/-- The width of a field, where it has the same in all messages; `size` are the sizes of the
models. -/
def Field.width? (size : String → WireSize) (f : Field) : Option Nat :=
  if f.size.lengthPrefix.isSome then none
  else
    match f.type with
    | .enum _ => some 1
    | .model name => (size name).fixed?
    | .array _ => none
    | .primitive p => f.size.fixed.or p.naturalSize

/-- Whether a field has no length in front and does not run to the end. -/
def Field.isFixed (f : Field) : Bool := f.size.lengthPrefix.isNone && !f.isUnbounded

/-- The size that is noted in a field with an enum or a model, unless it has a length in front. -/
def Field.notedSize? (size : String → WireSize) (f : Field) : Option Nat :=
  if f.size.lengthPrefix.isSome then none
  else
    match f.type with
    | .enum _ => some 1
    | .model name => (size name).fixed?
    | _ => none

/-- A field at the given place, with its noted size. -/
def Field.placed (size : String → WireSize) (offset : Option Nat) (f : Field) : Field :=
  { f with
    offset := offset
    size := { f.size with fixed := (f.notedSize? size).or f.size.fixed } }

/-- The types that the elements of an array can have: those with a size that is not 0. -/
def TypeRef.IsElement (size : String → WireSize) : TypeRef → Prop
  | .primitive p => p.naturalSize.isSome = true
  | .enum _ => True
  | .model name => ∃ n, size name = .fixed n ∧ 0 < n
  | .array _ => False

/-- A field that can be laid out: its elements have a size, and so has a model without a length in
front. -/
structure Field.Admissible (size : String → WireSize) (f : Field) : Prop where
  elements : ∀ t, f.type = .array t → t.IsElement size
  nested : ∀ name, f.type = .model name → f.size.lengthPrefix = none → ∃ n, size name = .fixed n

theorem Field.admissible_iff {f : Field} : f.Admissible size ↔
    match f.type with
    | .array t => t.IsElement size
    | .model name => f.size.lengthPrefix = none → ∃ n, size name = .fixed n
    | _ => True := by
  constructor
  · intro h
    split
    · next ht => exact h.elements _ ht
    · next ht => exact h.nested _ ht
    · trivial
  · intro h
    exact ⟨fun t ht => by rwa [ht] at h, fun name ht => by rwa [ht] at h⟩

/-- Of the fields that can be laid out, those have a width that are fixed. -/
theorem Field.Admissible.isSome_width? {f : Field} (h : f.Admissible size) :
    (f.width? size).isSome = f.isFixed := by
  obtain ⟨name, type, ⟨fixed, pre⟩, ds, doc, offset, pos⟩ := f
  cases pre with
  | some p => simp [Field.width?, Field.isFixed]
  | none =>
    cases type with
    | enum n => rfl
    | model n =>
      obtain ⟨k, hk⟩ := h.nested n rfl rfl
      simp [Field.width?, Field.isFixed, Field.isUnbounded, hk, WireSize.fixed?]
    | array t => rfl
    | primitive p =>
      cases p with
      | scalar k => cases fixed <;> rfl
      | string => cases fixed <;> rfl
      | bytes => cases fixed <;> rfl

/-! ### Models -/

/-- The sum of the widths of the fields that have one. -/
def Layout.totalWidth (size : String → WireSize) (fs : List Field) : Nat :=
  (fs.filterMap (Field.width? size)).sum

/-- Whether all fields have a width. -/
def Layout.allFixed (size : String → WireSize) (fs : List Field) : Bool :=
  fs.all fun f => (f.width? size).isSome

namespace Model

/-- The size of a model: the sum of the widths of its fields, if none of them has a length in front
or runs to the end. -/
def sizeBy (size : String → WireSize) (m : Model) : WireSize :=
  if m.fields.all Field.isFixed then .fixed (Layout.totalWidth size m.fields) else .varying

/-- Where the field with the number `i` starts: behind the fields in front of it, if they all have a
width. -/
def offset? (size : String → WireSize) (m : Model) (i : Nat) : Option Nat :=
  if Layout.allFixed size (m.fields.take i) then some (Layout.totalWidth size (m.fields.take i))
  else none

/-- A model with its size, and its fields with their places and noted sizes. -/
def placed (size : String → WireSize) (m : Model) : Model :=
  { m with
    wireSize := m.sizeBy size
    fields := m.fields.mapIdx fun i f => f.placed size (m.offset? size i) }

/-- A model that can be laid out. -/
structure Admissible (size : String → WireSize) (m : Model) : Prop where
  /-- The elements of arrays have a size that is not 0. -/
  elements : ∀ f ∈ m.fields, ∀ t, f.type = .array t → t.IsElement size
  /-- A model without a length in front has a fixed size. -/
  nested : ∀ f ∈ m.fields, ∀ name, f.type = .model name → f.size.lengthPrefix = none →
    ∃ n, size name = .fixed n
  /-- Only the last field runs to the end. -/
  last : ∀ front f back, m.fields = front ++ f :: back → f.isUnbounded = true → back = []
  /-- The widths add up to a size of 64 bits. -/
  bounded : Layout.totalWidth size m.fields ≤ 2 ^ 64 - 1

theorem Admissible.field {m : Model} (h : m.Admissible size) {f : Field} (hf : f ∈ m.fields) :
    f.Admissible size := ⟨h.elements f hf, h.nested f hf⟩

end Model

/-! ### The sizes of all models -/

/-- The size of the model of the given name; `ms` are the models that may be used. -/
def Layout.sizeAmong (ms : List Model) (name : String) : WireSize :=
  match _h : ms.find? (·.name == name) with
  | none => .varying
  | some m => m.sizeBy (sizeAmong (without ms name))
termination_by ms.length
decreasing_by exact length_without_find?_lt _h

theorem Layout.sizeAmong_eq (ms : List Model) (name : String) :
    sizeAmong ms name = (ms.find? (·.name == name)).elim .varying
      (Model.sizeBy (sizeAmong (without ms name))) := by
  rw [sizeAmong]
  split
  · next h => rw [h]; rfl
  · next h => rw [h]; rfl

namespace Schema

variable {s : Schema}

/-- The size of the model of the given name. -/
def wireSizeOf (s : Schema) (name : String) : WireSize := Layout.sizeAmong s.models name

/-- The schema with the sizes of its models, and with the places and noted sizes of its fields. -/
def placed (s : Schema) : Schema := { s with models := s.models.map (Model.placed s.wireSizeOf) }

theorem width?_congr {m : Model} (hm : m ∈ s.models) {f : Field} (hf : f ∈ m.fields)
    {g g' : String → WireSize} (h : ∀ b, s.Refers m.name b → g b = g' b) :
    f.width? g = f.width? g' := by
  unfold Field.width?
  split_ifs
  · rfl
  cases ht : f.type with
  | model name => simp only [h name ⟨m, hm, rfl, f, hf, Or.inl ht⟩]
  | _ => rfl

theorem sizeBy_congr {m : Model} (hm : m ∈ s.models) {g g' : String → WireSize}
    (h : ∀ b, s.Refers m.name b → g b = g' b) : m.sizeBy g = m.sizeBy g' := by
  unfold Model.sizeBy Layout.totalWidth
  rw [List.filterMap_congr fun f hf => width?_congr hm hf h]

/-- **The sizes of models without a cycle** are the sums of the widths of their fields. -/
theorem wireSizeOf_eq {m : Model} (hm : s.model? m.name = some m) (hg : s.Grounded m.name) :
    s.wireSizeOf m.name = m.sizeBy s.wireSizeOf :=
  descent_eq Layout.sizeAmong_eq (fun _ hm _ _ h => sizeBy_congr hm h) hm hg

/-- Sizes that are the sums of the widths of their fields are the only ones. -/
theorem eq_wireSizeOf (hn : (s.models.map (·.name)).Nodup) {g : String → WireSize}
    (h : ∀ m ∈ s.models, g m.name = m.sizeBy g)
    (href : ∀ a b, s.Refers a b → b ∈ s.models.map (·.name))
    {a : String} (ha : a ∈ s.models.map (·.name)) (hg : s.Grounded a) : g a = s.wireSizeOf a := by
  induction hg with
  | intro a hacc ih =>
    obtain ⟨m, hm, rfl⟩ := List.mem_map.1 ha
    rw [h m hm, wireSizeOf_eq (model?_of_mem hn hm) (Acc.intro _ hacc)]
    exact sizeBy_congr hm fun b hb => ih b hb (href _ b hb)

end Schema

end WireSchema
