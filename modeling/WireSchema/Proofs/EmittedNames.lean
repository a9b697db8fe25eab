import WireSchema.Compile.Parse
import WireSchema.Emit.Cpp
import WireSchema.Emit.Rust
import WireSchema.Emit.TypeScript
import WireSchema.Proofs.Acceptance
import WireSchema.Proofs.LayoutDescent
import WireSchema.Proofs.Placed
import Mathlib.Control.Monad.Basic
import Mathlib.Data.List.Flatten

/-! # Names in emitted code

Verification looks at the names of a schema before its references are marked and before its layout.
Neither step changes a name, so what verification finds out (`Schema.Named`) also holds of the
schema that code is emitted for.

* `emittedNames_distinct`: names that are declared in one place of the emitted code differ.
* `topLevelNames_nodup_iff`: names on the top level differ, unless a type is called `command_ids`.
  This is the one name of the emitted code that a type can take (`topLevelNames_clash`). -/

namespace WireSchema

/-! ### Words with underscores and words in front -/

namespace Name

/-- A name that has been changed is none of the words in `part`, if none of these ends in an
underscore. -/
theorem escape_not_mem {words part : List String} (hsub : part ⊆ words)
    (hlast : ∀ word ∈ part, word.toList.getLast? ≠ some '_') (name : String) :
    escape words name ∉ part := by
  intro hmem
  unfold escape at hmem
  split_ifs at hmem with hword
  · have hend : (name ++ "_").toList.getLast? = some '_' := by
      rw [String.toList_append]
      exact List.getLast?_concat
    exact hlast _ hmem hend
  · exact hword (List.contains_iff_mem.2 (hsub hmem))

theorem cppName_not_mem_constants (name : String) : cppName name ∉ cppStructConstants :=
  escape_not_mem (List.subset_append_right _ _) (by decide) name

end Name

/-- Texts that start with two words differ, if neither word is the start of the other. -/
theorem append_ne_append {v w : String} (h : ¬ v.toList <+: w.toList) (h' : ¬ w.toList <+: v.toList)
    (a b : String) : v ++ a ≠ w ++ b := by
  intro heq
  have hlist : v.toList ++ a.toList = w.toList ++ b.toList := by
    rw [← String.toList_append, ← String.toList_append, heq]
  have hv : v.toList <+: w.toList ++ b.toList := ⟨a.toList, hlist⟩
  have hw : w.toList <+: w.toList ++ b.toList := List.prefix_append _ _
  rcases List.prefix_or_prefix_of_prefix hv hw with hvw | hwv
  · exact h hvw
  · exact h' hwv

theorem append_right_injective (v : String) : Function.Injective (v ++ ·) := by
  intro a b h
  exact (String.append_right_inj v).1 h

/-- Names that are the same are also changed to the same names. -/
theorem map_rename {α β : Type} {f : α → String} {g : β → String} {l : List α} {l' : List β}
    (h : l.map f = l'.map g) (rename : String → String) :
    l.map (fun a => rename (f a)) = l'.map fun b => rename (g b) := by
  have hmap := congrArg (List.map rename) h
  rwa [List.map_map, List.map_map] at hmap

/-! ### What verification finds out about names -/

namespace Schema

variable {s s' t : Schema}

/-- The names of a schema as verification leaves them. -/
structure Named (s : Schema) : Prop where
  typeNames : s.typeNames.Nodup
  free : ∀ name ∈ s.typeNames, Verify.IsFree name
  memberNames : ∀ e ∈ s.enums, (e.members.map (·.name)).Nodup
  fieldNames : ∀ m ∈ s.models, (m.fields.map (·.name)).Nodup
  rustMembers : ∀ e ∈ s.enums, (e.members.map fun x => Name.rustName x.name).Nodup
  cppMembers : ∀ e ∈ s.enums, (e.members.map fun x => Name.cppName x.name).Nodup
  rustFields : ∀ m ∈ s.models, (m.fields.map fun f => Name.rustField f.name).Nodup
  cppFields : ∀ m ∈ s.models, (m.fields.map fun f => Name.cppName f.name).Nodup
  commandNames : (s.commands.map fun c => Name.upperSnake c.1.name).Nodup

/-- A change to models that leaves all names as they are. -/
structure KeepsNames (f : Model → Model) : Prop where
  name : ∀ m, (f m).name = m.name
  commandId : ∀ m, (f m).commandId = m.commandId
  fields : ∀ m, (f m).fields.map (·.name) = m.fields.map (·.name)

theorem keepsNames_marked (s : Schema) : KeepsNames (Model.marked s) := by
  refine ⟨fun _ => rfl, fun _ => rfl, fun m => ?_⟩
  rw [Model.marked, List.map_map]
  rfl

theorem keepsNames_placed (size : String → WireSize) : KeepsNames (Model.placed size) :=
  ⟨fun _ => rfl, fun _ => rfl, fun _ => Model.map_placed fun _ _ => rfl⟩

theorem KeepsNames.comp {f g : Model → Model} (hg : KeepsNames g) (hf : KeepsNames f) :
    KeepsNames (g ∘ f) :=
  ⟨fun m => (hg.name (f m)).trans (hf.name m), fun m => (hg.commandId (f m)).trans (hf.commandId m),
    fun m => (hg.fields (f m)).trans (hf.fields m)⟩

/-- A schema with its models changed. -/
def withModels (f : Model → Model) (s : Schema) : Schema := { s with models := s.models.map f }

namespace KeepsNames

variable {f : Model → Model}

theorem typeNames (hf : KeepsNames f) (s : Schema) : (s.withModels f).typeNames = s.typeNames := by
  have hnames : (s.models.map f).map (·.name) = s.models.map (·.name) := by
    rw [List.map_map]
    exact List.map_congr_left fun m _ => hf.name m
  exact congrArg (s.enums.map (·.name) ++ ·) hnames

theorem map_commands (hf : KeepsNames f) (s : Schema) :
    (s.withModels f).commands.map (·.1.name) = s.commands.map (·.1.name) := by
  rw [map_commands_name, map_commands_name]
  simp only [withModels, List.filter_map, List.map_map, Function.comp_def, hf.name, hf.commandId]

/-- **Names stay as they are** when models change in other things. -/
theorem named (hf : KeepsNames f) (h : s.Named) : (s.withModels f).Named := by
  have hfields (rename : String → String)
      (hnodup : ∀ m ∈ s.models, (m.fields.map fun x => rename x.name).Nodup) :
      ∀ m ∈ (s.withModels f).models, (m.fields.map fun x => rename x.name).Nodup := by
    intro m' hm'
    obtain ⟨m, hm, rfl⟩ := List.mem_map.1 hm'
    rw [map_rename (hf.fields m) rename]
    exact hnodup m hm
  refine ⟨?_, ?_, h.memberNames, hfields id h.fieldNames, h.rustMembers, h.cppMembers,
    hfields Name.rustField h.rustFields, hfields Name.cppName h.cppFields, ?_⟩
  · rw [hf.typeNames]
    exact h.typeNames
  · rw [hf.typeNames]
    exact h.free
  · rw [map_rename (hf.map_commands s) Name.upperSnake]
    exact h.commandNames

end KeepsNames

theorem named_of_verify (h : s.verify = (s', none)) : s.Named ∧ s' = s.marked := by
  rw [verify_eq_none, declarations_eq_none, generatedNames_marked, generatedNames_eq_none] at h
  obtain ⟨⟨htypes, hfree, hmembers, -, -⟩, hchecked, ⟨hrust, hcpp, hrustFields, hcppFields, hids⟩,
    hs⟩ := h
  refine ⟨⟨htypes, hfree, hmembers, fun m hm => (hchecked m hm).names, hrust, hcpp, hrustFields,
    hcppFields, ?_⟩, hs⟩
  rw [map_rename map_commands_name Name.upperSnake]
  exact hids

/-- A verified schema, whether it has been laid out or not, is the schema itself but for changes to
its models that keep all names. -/
theorem emitted_cases (hv : s.verify = (s', none)) (ht : t = s' ∨ s'.layout = .ok t) :
    s.Named ∧ ∃ f, KeepsNames f ∧ t = s.withModels f := by
  obtain ⟨hnamed, rfl⟩ := named_of_verify hv
  have hmarked := keepsNames_marked s
  refine ⟨hnamed, ?_⟩
  rcases ht with rfl | hl
  · exact ⟨Model.marked s, hmarked, rfl⟩
  · have hnodup : (s.marked.models.map (·.name)).Nodup := by
      rw [map_name_marked]
      exact (List.nodup_append.1 hnamed.typeNames).2.1
    obtain ⟨-, rfl⟩ := layout_sound hnodup hl
    refine ⟨_, (keepsNames_placed s.marked.wireSizeOf).comp hmarked, ?_⟩
    rw [withModels, placed, ← List.map_map]
    rfl

/-! ### Names in one place -/

open Emit

/-- Names that are declared in one place of the emitted code differ. -/
structure DistinctNames (s : Schema) : Prop where
  rustVariants : ∀ e ∈ s.enums, (Rust.variantNames e).Nodup
  rustFields : ∀ m ∈ s.models, (Rust.fieldNames s m).Nodup
  rustCommands : (Rust.commandNames s).Nodup
  cppEnumerators : ∀ e ∈ s.enums, (Cpp.enumeratorNames e).Nodup
  /-- Here are also the constants of a struct. -/
  cppMembers : ∀ m ∈ s.models, (Cpp.structNames s m).Nodup
  cppCommands : (Cpp.commandNames s).Nodup
  scriptMembers : ∀ e ∈ s.enums, (TypeScript.memberNames e).Nodup
  scriptFields : ∀ m ∈ s.models, (TypeScript.fieldNames s m).Nodup
  scriptCommands : (TypeScript.commandNames s).Nodup
  scriptFunctions : (TypeScript.functionNames s).Nodup
  /-- No function has the name of a declaration of the support code. -/
  scriptSupport : ∀ name ∈ TypeScript.functionNames s, name ∉ TypeScript.supportNames

theorem structConstants_sublist (m : Model) :
    ((Cpp.structConstants m).map (·.name)).Sublist Name.cppStructConstants := by
  unfold Cpp.structConstants
  cases m.commandId <;> cases m.fixedSize? <;> simp [Name.cppStructConstants]

namespace Named

theorem enumNames (h : s.Named) : (s.enums.map (·.name)).Nodup :=
  (List.nodup_append.1 h.typeNames).1

theorem modelNames (h : s.Named) : (s.models.map (·.name)).Nodup :=
  (List.nodup_append.1 h.typeNames).2.1

theorem nodup_structNames (h : s.Named) {m : Model} (hm : m ∈ s.models) :
    (Cpp.structNames s m).Nodup := by
  have hconstants := structConstants_sublist m
  refine List.nodup_append.2 ⟨h.cppFields m hm, hconstants.nodup (by decide), ?_⟩
  intro name hname constant hconstant heq
  obtain ⟨f, -, rfl⟩ := List.mem_map.1 hname
  have hmem : Name.cppName f.name ∈ Name.cppStructConstants := by
    have hfield : Name.cppName f.name = constant := heq
    rw [hfield]
    exact hconstants.subset hconstant
  exact Name.cppName_not_mem_constants f.name hmem

theorem nodup_commandKeys (h : s.Named) : (TypeScript.commandNames s).Nodup := by
  have hnames : TypeScript.commandNames s =
      (s.models.filter (·.commandId.isSome)).map (·.name) := map_commands_name
  rw [hnames]
  exact h.modelNames.sublist (List.filter_sublist.map _)

/-- The functions are told apart by the words in front, and by the names of their types. -/
theorem nodup_functionNames (h : s.Named) : (TypeScript.functionNames s).Nodup := by
  have hdecode : (s.enums.map fun e => TypeScript.decodeName e.name).Nodup := by
    have hmap := h.enumNames.map (append_right_injective "decode")
    rwa [List.map_map] at hmap
  have hcodec : (s.models.flatMap fun m =>
      [TypeScript.serializeName m.name, TypeScript.deserializeName m.name]).Nodup := by
    refine List.nodup_flatMap.2 ⟨fun m _ => ?_, ?_⟩
    · have hne : TypeScript.serializeName m.name ≠ TypeScript.deserializeName m.name :=
        append_ne_append (by decide) (by decide) _ _
      simpa using hne
    · refine (List.pairwise_map.1 h.modelNames).imp fun {m n} hne => ?_
      have hserialize : TypeScript.serializeName n.name ≠ TypeScript.serializeName m.name :=
        (append_right_injective "serialize").ne hne.symm
      have hdeserialize : TypeScript.deserializeName n.name ≠ TypeScript.deserializeName m.name :=
        (append_right_injective "deserialize").ne hne.symm
      have hmixed (a b : String) : TypeScript.serializeName a ≠ TypeScript.deserializeName b :=
        append_ne_append (by decide) (by decide) _ _
      simp [Function.onFun, hserialize, hdeserialize, hmixed, (hmixed _ _).symm]
  refine List.nodup_append.2 ⟨hdecode, hcodec, ?_⟩
  intro name hname other hother heq
  obtain ⟨e, -, rfl⟩ := List.mem_map.1 hname
  obtain ⟨m, -, hm⟩ := List.mem_flatMap.1 hother
  rcases List.mem_pair.1 hm with rfl | rfl
  · exact append_ne_append (by decide) (by decide) _ _ heq
  · exact append_ne_append (by decide) (by decide) _ _ heq

end Named

/-- The names of the support code start with none of the words that functions start with. -/
theorem not_mem_supportNames {word : String}
    (h : ∀ name ∈ TypeScript.supportNames, ¬ word.toList <+: name.toList) (name : String) :
    word ++ name ∉ TypeScript.supportNames := by
  intro hmem
  refine h _ hmem ?_
  rw [String.toList_append]
  exact List.prefix_append _ _

theorem functionNames_disjoint (s : Schema) :
    ∀ name ∈ TypeScript.functionNames s, name ∉ TypeScript.supportNames := by
  intro name hname
  rcases List.mem_append.1 hname with hname | hname
  · obtain ⟨e, -, rfl⟩ := List.mem_map.1 hname
    exact not_mem_supportNames (by decide) _
  · obtain ⟨m, -, hm⟩ := List.mem_flatMap.1 hname
    rcases List.mem_pair.1 hm with rfl | rfl
    · exact not_mem_supportNames (by decide) _
    · exact not_mem_supportNames (by decide) _

theorem Named.distinctNames (h : s.Named) : s.DistinctNames where
  rustVariants := h.rustMembers
  rustFields := h.rustFields
  rustCommands := h.commandNames
  cppEnumerators := h.cppMembers
  cppMembers _ := h.nodup_structNames
  cppCommands := h.commandNames
  scriptMembers := h.memberNames
  scriptFields := h.fieldNames
  scriptCommands := h.nodup_commandKeys
  scriptFunctions := h.nodup_functionNames
  scriptSupport := functionNames_disjoint s

/-- **Names in one place differ.** In the code that is emitted for a verified schema, before or
after its layout, the variants of an enum, the fields and constants of a struct, the command ids and
the functions have different names. -/
theorem emittedNames_distinct (hv : s.verify = (s', none)) (ht : t = s' ∨ s'.layout = .ok t) :
    t.DistinctNames := by
  obtain ⟨hnamed, f, hf, rfl⟩ := emitted_cases hv ht
  exact (hf.named hnamed).distinctNames

/-- A schema with names that cannot stand in emitted code as they are. -/
def keywordSchema : Schema :=
  ⟨"", [⟨"Mode", [⟨"self", 0, none⟩, ⟨"class", 1, none⟩], [], none, ⟨1, 1⟩⟩],
    [⟨"Ping", [
      ⟨"COMMAND_ID", .primitive (.scalar .uint8), ⟨some 1, none⟩, [], none, some 0, ⟨1, 1⟩⟩,
      ⟨"mode", .enum "Mode", ⟨some 1, none⟩, [], none, some 1, ⟨1, 1⟩⟩],
      [], none, some 1, .fixed 2, ⟨1, 1⟩⟩],
    ⟨"", 0, none⟩⟩

theorem verify_keywordSchema : keywordSchema.verify = (keywordSchema, none) := by decide +kernel

theorem emittedNames_distinct_keyword :
    keywordSchema.verify = (keywordSchema, none) ∧ keywordSchema.layout = .ok keywordSchema ∧
      keywordSchema.models.map (Cpp.structNames keywordSchema) =
        [["COMMAND_ID_", "mode", "COMMAND_ID", "FIXED_SIZE"]] ∧
      keywordSchema.DistinctNames := by
  have hl : keywordSchema.layout = .ok keywordSchema := by decide +kernel
  exact ⟨verify_keywordSchema, hl, by decide +kernel,
    emittedNames_distinct verify_keywordSchema (Or.inr hl)⟩

/-! ### Names on the top level -/

/-- Types have no name of the support code, so that only the name of the part with the command ids
can be taken. -/
theorem Named.nodup_topLevel_iff (h : s.Named) {support : List String} (hnodup : support.Nodup)
    (hsub : ∀ name ∈ support, name ∈ Name.supportNames) :
    (support ++ s.enums.map (·.name) ++ s.models.map (·.name) ++ ["command_ids"]).Nodup ↔
      "command_ids" ∉ s.typeNames := by
  have hdisjoint : List.Disjoint support s.typeNames := by
    intro name hname htype
    exact (h.free name htype).support (hsub name hname)
  have htypes : (support ++ s.typeNames).Nodup := hnodup.append h.typeNames hdisjoint
  have hfree : "command_ids" ∉ support := fun hmem => absurd (hsub _ hmem) (by decide)
  rw [List.append_assoc support, ← Schema.typeNames, ← List.concat_eq_append, List.nodup_concat]
  simp [htypes, hfree]

/-- **Names on the top level differ, but for one.** In the Rust file and in the C++ namespace that
are emitted for a verified schema, all top-level names differ exactly if no enum or model has the
name of the part with the command ids. -/
theorem topLevelNames_nodup_iff (hv : s.verify = (s', none)) (ht : t = s' ∨ s'.layout = .ok t) :
    ((Rust.topLevelNames t).Nodup ↔ "command_ids" ∉ s.typeNames) ∧
      ((Cpp.topLevelNames t).Nodup ↔ "command_ids" ∉ s.typeNames) := by
  obtain ⟨hnamed, f, hf, rfl⟩ := emitted_cases hv ht
  have hnamed' := hf.named hnamed
  rw [← hf.typeNames s]
  have hrust : (Rust.topLevelNames (s.withModels f)).Nodup ↔ _ :=
    hnamed'.nodup_topLevel_iff (by decide) (by decide)
  have hcpp : (Cpp.topLevelNames (s.withModels f)).Nodup ↔ _ :=
    hnamed'.nodup_topLevel_iff (by decide) (by decide)
  exact ⟨hrust, hcpp⟩

theorem topLevelNames_nodup_iff_keyword :
    keywordSchema.verify = (keywordSchema, none) ∧
      (Rust.topLevelNames keywordSchema).Nodup ∧ (Cpp.topLevelNames keywordSchema).Nodup := by
  obtain ⟨hrust, hcpp⟩ := topLevelNames_nodup_iff verify_keywordSchema (Or.inl rfl)
  have hfree : "command_ids" ∉ keywordSchema.typeNames := by decide
  exact ⟨verify_keywordSchema, hrust.2 hfree, hcpp.2 hfree⟩

/-- The schema of a text that declares a model called `command_ids`. -/
def clashSchema : Schema :=
  ⟨"", [], [⟨"command_ids", [], [], none, none, .fixed 0, ⟨1, 7⟩⟩], ⟨"", 0, none⟩⟩

/-- **A type can be called as the part with the command ids.** -/
theorem topLevelNames_clash :
    ofText "model command_ids \x7b \x7d" "" 0 = .ok clashSchema ∧
      ¬ (Rust.topLevelNames clashSchema).Nodup ∧ ¬ (Cpp.topLevelNames clashSchema).Nodup := by
  have hread : ofText "model command_ids \x7b \x7d" "" 0 = .ok clashSchema := by decide +kernel
  exact ⟨hread, by decide, by decide⟩

end Schema

end WireSchema
