import WireSchema.Proofs.Completed
import WireSchema.Proofs.EmittedNames

/-! # Repeated passes

Verification marks references and the layout notes sizes in the same fields that both of them look
at. Nothing of this is ever looked at in a way that changes the outcome: marks that are right are
left as they are (`marked_eq_self`), noted sizes are those that the layout finds again
(`Completed.layout_eq`). So a schema that a text declares stays as it is under further passes,
however many there are and whatever their order (`foldlM_pass_of_ofText`). -/

namespace WireSchema

/-- The passes over a schema that has been read. -/
inductive Pass where
  | verify
  | layout
  deriving DecidableEq

/-- What a pass makes of a schema, or why it refuses it. -/
def Pass.run (s : Schema) : Pass → Except CompileError Schema
  | verify =>
    match s.verify with
    | (s, none) => .ok s
    | (_, some fault) => .error (.verify fault)
  | layout =>
    match s.layout with
    | .ok s => .ok s
    | .error fault => .error (.layout fault)

variable {s s' s₀ : Schema}

/-! ### Marks that are right -/

namespace TypeRef

variable {t : TypeRef}

theorem Resolved.defined (h : t.Resolved s) : t.Defined s := by
  induction t with
  | primitive p => trivial
  | enum n => exact Or.inl h
  | model n => exact Or.inr h
  | array t ih => exact ih h

theorem marked_eq_self (hs : s.typeNames.Nodup) (h : t.Resolved s) : t.marked s = t := by
  induction t with
  | primitive p => rfl
  | enum n => exact if_pos h
  | model n =>
    have hn : n ∉ s.enums.map (·.name) :=
      fun hn => (List.nodup_append.1 hs).2.2 n hn n h rfl
    exact if_neg hn
  | array t ih => exact congrArg TypeRef.array (ih h)

end TypeRef

namespace Schema

theorem Resolved.field_marked (h : s.Resolved) (hs : s.typeNames.Nodup) {m : Model}
    (hm : m ∈ s.models) {f : Field} (hf : f ∈ m.fields) : f.marked s = f := by
  rw [Field.marked, TypeRef.marked_eq_self hs (h.types m hm f hf)]

theorem Resolved.marked_eq_self (h : s.Resolved) (hs : s.typeNames.Nodup) : s.marked = s := by
  have hmodel : ∀ m ∈ s.models, m.marked s = m := by
    intro m hm
    have hfields : m.fields.map (Field.marked s) = m.fields := by
      rw [List.map_congr_left fun f hf => h.field_marked hs hm hf, List.map_id']
    rw [Model.marked, hfields]
  rw [marked, List.map_congr_left hmodel, List.map_id']

/-! ### Each pass once more -/

/-- Verification leaves a schema as it is if its names pass and its marks are right. -/
theorem Completed.verify_eq (h : s.Completed) (hs : s.Named)
    (hids : (s.models.filterMap (·.commandId)).Nodup) : s.verify = (s, none) := by
  have hmarked : s.marked = s := h.resolved.marked_eq_self hs.typeNames
  have hcommands : ((s.models.filter (·.commandId.isSome)).map fun m =>
      Name.upperSnake m.name).Nodup := by
    rw [← map_rename map_commands_name Name.upperSnake]
    exact hs.commandNames
  refine verify_eq_none.2 ⟨?_, fun m hm => ⟨hs.fieldNames m hm, fun f hf => ?_, fun f hf => ?_⟩, ?_,
    hmarked.symm⟩
  · exact declarations_eq_none.2 ⟨hs.typeNames, hs.free, hs.memberNames, h.resolved.values, hids⟩
  · exact (h.resolved.types m hm f hf).defined
  · rw [h.resolved.field_marked hs.typeNames hm hf]
    exact h.enums m hm f hf
  · rw [hmarked, generatedNames_eq_none]
    exact ⟨hs.rustMembers, hs.cppMembers, hs.rustFields, hs.cppFields, hcommands⟩

/-- The layout finds the sizes and places that are there already. -/
theorem Completed.layout_eq (h : s.Completed) : s.layout = .ok s := by
  have hnames := h.resolved.modelNames
  have hset : ∀ m ∈ s.models, s.Settled m.name :=
    (forall_settled_iff hnames fun _ _ => h.resolved.mem_of_refers).2 ⟨h.acyclic, h.admissible⟩
  obtain ⟨s', hs'⟩ := layout_complete hnames hset
  have hplaced : s.placed = s := by
    rw [Schema.placed, List.map_congr_left h.placed, List.map_id']
  rw [hs', (layout_sound hnames hs').2, hplaced]

/-- Command ids stay as they are when models change in other things. -/
theorem KeepsNames.filterMap_commandId {f : Model → Model} (hf : KeepsNames f) (s : Schema) :
    (s.withModels f).models.filterMap (·.commandId) = s.models.filterMap (·.commandId) := by
  rw [withModels, List.filterMap_map]
  exact List.filterMap_congr fun m _ => hf.commandId m

/-- A schema that a text declares passes verification with all its marks. -/
theorem verify_of_ofText {text sourceFile : String} {parsedAt : Nat}
    (h : ofText text sourceFile parsedAt = .ok s) : s.verify = (s, none) := by
  obtain ⟨s₀, s₁, -, hv, hl⟩ := steps_of_ofText h
  have hids : (s₀.models.filterMap (·.commandId)).Nodup :=
    (declarations_eq_none.1 (verify_eq_none.1 hv).1).2.2.2.2
  obtain ⟨hnamed, f, hf, hs⟩ := emitted_cases hv (.inr hl)
  refine (completed_of_ofText h).verify_eq ?_ ?_
  · rw [hs]
    exact hf.named hnamed
  · rw [hs, hf.filterMap_commandId]
    exact hids

/-- **A schema that a text declares stays as it is,** whatever passes follow. -/
theorem foldlM_pass_of_ofText {text sourceFile : String} {parsedAt : Nat}
    (h : ofText text sourceFile parsedAt = .ok s) (passes : List Pass) :
    passes.foldlM Pass.run s = .ok s := by
  have hpass : ∀ pass : Pass, pass.run s = .ok s := by
    intro pass
    cases pass with
    | verify => rw [Pass.run, verify_of_ofText h]
    | layout => rw [Pass.run, (completed_of_ofText h).layout_eq]
  induction passes with
  | nil => rfl
  | cons pass rest ih =>
    rw [List.foldlM_cons, hpass pass]
    exact ih

theorem foldlM_pass_of_ofText_sample :
    ofText sampleText "" 0 = .ok sample ∧
      [Pass.layout, .verify, .verify, .layout].foldlM Pass.run sample = .ok sample :=
  ⟨ofText_sample, foldlM_pass_of_ofText ofText_sample _⟩

end Schema

end WireSchema
