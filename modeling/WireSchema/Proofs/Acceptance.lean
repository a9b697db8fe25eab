import WireSchema.Proofs.Verified

/-! # Accepted schemas

The conditions under which a schema is accepted, in terms of its declarations alone
(`Schema.WellFormed`). No check hides another: a schema, however it was made, is accepted exactly if
it satisfies all of them, and then only its references are marked. -/

namespace WireSchema

variable {s s' : Schema}

namespace Verify

/-! ### Command ids and emitted names -/

theorem commandIds_eq_none {seen commands : List (Model × UInt8)} :
    commandIds seen commands = none ↔ Fresh (seen.map (·.2)) (commands.map (·.2)) := by
  induction commands generalizing seen with
  | nil => simp [commandIds]
  | cons c rest ih =>
    obtain ⟨m, id⟩ := c
    rw [commandIds, List.map_cons, fresh_cons]
    cases hid : seen.find? (·.2 == id) with
    | some previous =>
      have hp : previous.2 = id := by simpa using List.find?_some hid
      have hmem : id ∈ seen.map (·.2) :=
        List.mem_map.2 ⟨previous, List.mem_of_find?_eq_some hid, hp⟩
      simp [hmem]
    | none =>
      have hmem : id ∉ seen.map (·.2) := by
        intro hmem
        obtain ⟨c, hc, he⟩ := List.mem_map.1 hmem
        simpa [he] using List.find?_eq_none.1 hid c hc
      simp only [ih, List.map_cons, hmem, not_false_eq_true, true_and]

theorem distinct_eq_none {rename : String → String} {owner : String}
    {seen : List (String × String)} {names : List String} :
    distinct rename owner seen names = none ↔ Fresh (seen.map (·.1)) (names.map rename) := by
  induction names generalizing seen with
  | nil => simp [distinct]
  | cons name rest ih =>
    rw [distinct, List.map_cons, fresh_cons]
    have hmem : seen.lookup (rename name) = none ↔ rename name ∉ seen.map (·.1) := by
      simp only [List.lookup_eq_none_iff, List.mem_map, bne_iff_ne, not_exists, not_and, ne_eq]
      exact forall₂_congr fun _ _ => not_congr eq_comm
    cases hl : seen.lookup (rename name) with
    | some previous =>
      have hseen : rename name ∈ seen.map (·.1) := by
        by_contra hseen
        rw [hmem.2 hseen] at hl
        cases hl
      simp [hseen]
    | none => simp only [ih, List.map_cons, hmem.1 hl, not_false_eq_true, true_and]

theorem enumNames_eq_none {e : Enum} :
    enumNames e = none ↔ (e.members.map fun x => Name.rustName x.name).Nodup ∧
      (e.members.map fun x => Name.cppName x.name).Nodup := by
  rw [enumNames, Option.or_eq_none_iff, distinct_eq_none, distinct_eq_none, List.map_nil,
    fresh_nil_left, fresh_nil_left, List.map_map, List.map_map]
  rfl

theorem modelNames_eq_none {m : Model} :
    modelNames m = none ↔ (m.fields.map fun f => Name.rustField f.name).Nodup ∧
      (m.fields.map fun f => Name.cppName f.name).Nodup := by
  rw [modelNames, Option.or_eq_none_iff, distinct_eq_none, distinct_eq_none, List.map_nil,
    fresh_nil_left, fresh_nil_left, List.map_map, List.map_map]
  rfl

/-- A field has a length in front of an enum if its type names an enum. -/
theorem prefixesEnum_marked {f : Field} :
    prefixesEnum (f.marked s) = false ↔ ∀ name ∈ s.enums.map (·.name),
      f.type = .enum name ∨ f.type = .model name → f.size.lengthPrefix = none := by
  obtain ⟨fname, type, size, ds, doc, offset, position⟩ := f
  have named : ∀ n, prefixesEnum
      ⟨fname, if n ∈ s.enums.map (·.name) then .enum n else .model n, size, ds, doc, offset,
        position⟩ = false ↔ (n ∈ s.enums.map (·.name) → size.lengthPrefix = none) := by
    intro n
    split_ifs with h
    · simp [prefixesEnum, h]
    · simp [prefixesEnum, h]
  cases type with
  | primitive p => simp [Field.marked, TypeRef.marked, prefixesEnum]
  | array t => simp [Field.marked, TypeRef.marked, prefixesEnum]
  | enum n =>
    refine (named n).trans ⟨?_, fun h hn => h n hn (Or.inl rfl)⟩
    rintro h name hn (ht | ht) <;> cases ht
    exact h hn
  | model n =>
    refine (named n).trans ⟨?_, fun h hn => h n hn (Or.inr rfl)⟩
    rintro h name hn (ht | ht) <;> cases ht
    exact h hn

end Verify

namespace Schema

/-- The names of all types: first the enums, then the models. -/
def typeNames (s : Schema) : List String := s.enums.map (·.name) ++ s.models.map (·.name)

/-- What a schema must satisfy to be accepted. -/
structure WellFormed (s : Schema) : Prop where
  typeNames : s.typeNames.Nodup
  /-- No type has the name of a primitive, of a support type or of a reserved word. -/
  free : ∀ name ∈ s.typeNames, Verify.IsFree name
  memberNames : ∀ e ∈ s.enums, (e.members.map (·.name)).Nodup
  memberValues : ∀ e ∈ s.enums, (e.members.map (·.value)).Nodup
  commandIds : (s.models.filterMap (·.commandId)).Nodup
  fieldNames : ∀ m ∈ s.models, (m.fields.map (·.name)).Nodup
  /-- Names in types, also in arrays, are names of enums or models. -/
  types : ∀ m ∈ s.models, ∀ f ∈ m.fields, f.type.Defined s
  /-- No field of an enum type has a length in front. -/
  enumFields : ∀ m ∈ s.models, ∀ f ∈ m.fields, ∀ name ∈ s.enums.map (·.name),
    f.type = .enum name ∨ f.type = .model name → f.size.lengthPrefix = none
  /-- Names still differ in emitted code. -/
  rustMembers : ∀ e ∈ s.enums, (e.members.map fun x => Name.rustName x.name).Nodup
  cppMembers : ∀ e ∈ s.enums, (e.members.map fun x => Name.cppName x.name).Nodup
  rustFields : ∀ m ∈ s.models, (m.fields.map fun f => Name.rustField f.name).Nodup
  cppFields : ∀ m ∈ s.models, (m.fields.map fun f => Name.cppName f.name).Nodup
  commandNames :
    ((s.models.filter (·.commandId.isSome)).map fun m => Name.upperSnake m.name).Nodup

/-! ### The steps of the verification -/

theorem map_commands_id : s.commands.map (·.2) = s.models.filterMap (·.commandId) := by
  rw [commands, List.map_filterMap]
  congr 1
  funext m
  cases m.commandId <;> rfl

theorem map_commands_name :
    s.commands.map (·.1.name) = (s.models.filter (·.commandId.isSome)).map (·.name) := by
  rw [commands, List.map_filterMap, ← List.filterMap_eq_map, List.filterMap_filter]
  congr 1
  funext m
  cases m.commandId <;> rfl

theorem declarations_eq_none :
    Verify.declarations s = none ↔ s.typeNames.Nodup ∧ (∀ name ∈ s.typeNames, Verify.IsFree name) ∧
      (∀ e ∈ s.enums, (e.members.map (·.name)).Nodup) ∧
      (∀ e ∈ s.enums, (e.members.map (·.value)).Nodup) ∧
      (s.models.filterMap (·.commandId)).Nodup := by
  have hnames : (Verify.declaredNames s).map (·.1) = s.typeNames := by
    simp [Verify.declaredNames, typeNames, Function.comp_def]
  have hfree : (∀ n ∈ Verify.declaredNames s, Verify.IsFree n.1) ↔
      ∀ name ∈ s.typeNames, Verify.IsFree name := by
    rw [← hnames, List.forall_mem_map]
  rw [Verify.declarations, Option.or_eq_none_iff, Option.or_eq_none_iff, Verify.typeNames_eq_none,
    List.findSome?_eq_none_iff, Verify.commandIds_eq_none, hnames, hfree, List.map_nil,
    Verify.fresh_nil_left, Verify.fresh_nil_left, map_commands_id]
  simp only [Verify.members_eq_none, List.map_nil, Verify.fresh_nil_left, forall_and, and_assoc]

theorem generatedNames_eq_none :
    Verify.generatedNames s = none ↔
      (∀ e ∈ s.enums, (e.members.map fun x => Name.rustName x.name).Nodup) ∧
      (∀ e ∈ s.enums, (e.members.map fun x => Name.cppName x.name).Nodup) ∧
      (∀ m ∈ s.models, (m.fields.map fun f => Name.rustField f.name).Nodup) ∧
      (∀ m ∈ s.models, (m.fields.map fun f => Name.cppName f.name).Nodup) ∧
      ((s.models.filter (·.commandId.isSome)).map fun m => Name.upperSnake m.name).Nodup := by
  rw [Verify.generatedNames, Option.or_eq_none_iff, Option.or_eq_none_iff,
    List.findSome?_eq_none_iff, List.findSome?_eq_none_iff, Verify.commandNames,
    Verify.distinct_eq_none, map_commands_name, List.map_nil, Verify.fresh_nil_left, List.map_map]
  simp only [Verify.enumNames_eq_none, Verify.modelNames_eq_none, forall_and, Function.comp_def,
    and_assoc]

/-- Marking references leaves all names. -/
theorem generatedNames_marked : Verify.generatedNames s.marked = Verify.generatedNames s := by
  have hmodels : s.marked.models.findSome? Verify.modelNames =
      s.models.findSome? Verify.modelNames := by
    rw [marked, List.findSome?_map]
    congr 1
    funext m
    simp only [Function.comp_apply, Verify.modelNames, Model.marked, List.map_map]
    rfl
  have hcommands : s.marked.commands.map (·.1.name) = s.commands.map (·.1.name) := by
    rw [map_commands_name, map_commands_name, marked, List.filter_map, List.map_map]
    rfl
  rw [Verify.generatedNames, Verify.generatedNames, hmodels, Verify.commandNames,
    Verify.commandNames, hcommands]
  rfl

/-- **A schema is accepted exactly if it is well formed,** and then each reference is marked as one
to an enum or to a model and all else is left as it was. -/
theorem verify_accepts_iff :
    s.verify = (s', none) ↔ s.WellFormed ∧ s' = s.marked := by
  rw [verify_eq_none, declarations_eq_none, generatedNames_marked, generatedNames_eq_none]
  constructor
  · rintro ⟨⟨h1, h2, h3, h4, h5⟩, hchecked, ⟨h6, h7, h8, h9, h10⟩, hs⟩
    exact ⟨⟨h1, h2, h3, h4, h5, fun m hm => (hchecked m hm).names,
      fun m hm => (hchecked m hm).types,
      fun m hm f hf => Verify.prefixesEnum_marked.1 ((hchecked m hm).enums f hf),
      h6, h7, h8, h9, h10⟩, hs⟩
  · rintro ⟨h, hs⟩
    exact ⟨⟨h.typeNames, h.free, h.memberNames, h.memberValues, h.commandIds⟩,
      fun m hm => ⟨h.fieldNames m hm, h.types m hm,
        fun f hf => Verify.prefixesEnum_marked.2 (h.enumFields m hm f hf)⟩,
      ⟨h.rustMembers, h.cppMembers, h.rustFields, h.cppFields, h.commandNames⟩, hs⟩

end Schema

end WireSchema
