import WireSchema.Compile.Emit
import WireSchema.Proofs.PlainSchema
import WireSchema.Proofs.Rendered
import WireSchema.Proofs.StructOrder
import Mathlib.Control.Monad.Basic

/-! # Code does not depend on the formatting of a text

No emitted line reads a place (`Schema.emit_plain`). Together with reading, verification and layout
this gives the main statement, `compile_eq_of_said`: two texts whose tokens say the same give the
same files, or the same error up to its places. -/

namespace WireSchema

/-! ### Codecs -/

theorem Schema.model?_plain (s : Schema) (name : String) :
    s.plain.model? name = (s.model? name).map Model.plain := List.find?_map

theorem Schema.modelSize_plain (s : Schema) (name : String) :
    s.plain.modelSize name = s.modelSize name := by
  unfold Schema.modelSize
  rw [Schema.model?_plain]
  cases s.model? name <;> rfl

theorem ElementCodec.of_plain (s : Schema) (t : TypeRef) :
    ElementCodec.of s.plain t = ElementCodec.of s t := by
  induction t with
  | primitive p => rfl
  | enum name => rfl
  | model name => rw [ElementCodec.of, ElementCodec.of, Schema.modelSize_plain]
  | array element ih => rw [ElementCodec.of, ElementCodec.of, ih]

theorem FieldCodec.of_plain (s : Schema) (f : Field) :
    FieldCodec.of s.plain f.plain = FieldCodec.of s f := by
  obtain ⟨name, type, size, decorators, doc, offset, position⟩ := f
  simp only [FieldCodec.of, Field.plain, ElementCodec.of_plain, Schema.modelSize_plain]

/-! ### The order of structs -/

namespace StructOrder

theorem any_name_plain (ms : List Model) (name : String) :
    (ms.map Model.plain).any (·.name == name) = ms.any (·.name == name) := List.any_map

theorem held_plain (m : Model) : m.plain.held = m.held := List.filterMap_map

/-- Steps that go the same way without places, one after another. -/
theorem foldl_plain {step step' : List Model → String → List Model}
    (h : ∀ order name, step' (order.map Model.plain) name = (step order name).map Model.plain)
    (order : List Model) (names : List String) :
    names.foldl step' (order.map Model.plain) = (names.foldl step order).map Model.plain := by
  induction names generalizing order with
  | nil => rfl
  | cons name names ih => rw [List.foldl_cons, List.foldl_cons, h, ih]

theorem place_plain (ms order : List Model) (name : String) :
    place (ms.map Model.plain) (order.map Model.plain) name =
      (place ms order name).map Model.plain := by
  have hany := any_name_plain order name
  cases ho : order.any (·.name == name) with
  | true => rw [place_of_any ho, place_of_any (hany.trans ho)]
  | false =>
    rw [ho] at hany
    have hfind : (ms.map Model.plain).find? (·.name == name) =
        (ms.find? (·.name == name)).map Model.plain := List.find?_map
    cases hm : ms.find? (·.name == name) with
    | none =>
      rw [hm] at hfind
      rw [place_of_none ho hm, place_of_none hany hfind]
    | some m =>
      rw [hm] at hfind
      rw [place_of_some ho hm, place_of_some hany hfind, held_plain, Layout.without_plain,
        List.map_append]
      exact congrArg (· ++ [m.plain]) (foldl_plain (fun order' name' =>
        place_plain (Layout.without ms name) order' name') order _)
termination_by ms.length
decreasing_by exact Layout.length_without_find?_lt hm

end StructOrder

theorem Schema.structOrder_plain (s : Schema) :
    s.plain.structOrder = s.structOrder.map Model.plain := by
  have hnames : s.plain.models.map (·.name) = s.models.map (·.name) := List.map_map
  unfold Schema.structOrder
  rw [hnames]
  exact StructOrder.foldl_plain (StructOrder.place_plain s.models) [] _

/-! ### Files -/

theorem Schema.enums_plain (s : Schema) : s.plain.enums = s.enums.map Enum.plain := rfl

theorem Schema.models_plain (s : Schema) : s.plain.models = s.models.map Model.plain := rfl

theorem Model.fields_plain (m : Model) : m.plain.fields = m.fields.map Field.plain := rfl

namespace Emit

namespace Rust

theorem structField_plain (s : Schema) (f : Field) :
    structField s.plain f.plain = structField s f := by
  rw [structField, FieldCodec.of_plain]
  rfl

theorem structItem_plain (s : Schema) (m : Model) :
    structItem s.plain m.plain = structItem s m := by
  unfold structItem
  simp only [Model.fields_plain, List.flatMap_map, structField_plain]
  rfl

theorem codecItem_plain (s : Schema) (m : Model) : codecItem s.plain m.plain = codecItem s m := by
  unfold codecItem serializeBody deserializeBody
  simp only [Model.fields_plain, List.map_map, List.isEmpty_map, Function.comp_def,
    FieldCodec.of_plain]
  rfl

theorem commandItem_plain (s : Schema) : commandItem s.plain = commandItem s := by
  unfold commandItem
  rw [Schema.commands_plain, List.map_map]
  rfl

theorem items_plain (s : Schema) : items s.plain = items s := by
  unfold items
  simp only [Schema.enums_plain, Schema.models_plain, List.map_map, Function.comp_def,
    structItem_plain, codecItem_plain, commandItem_plain]
  rfl

theorem files_plain (settings : EmitSettings) (s : Schema) :
    files settings s.plain = files settings s := by
  unfold files
  rw [items_plain]
  rfl

end Rust

namespace TypeScript

theorem interfaceField_plain (s : Schema) (f : Field) :
    interfaceField s.plain f.plain = interfaceField s f := by
  rw [interfaceField, FieldCodec.of_plain]
  rfl

theorem interfaceItem_plain (s : Schema) (m : Model) :
    interfaceItem s.plain m.plain = interfaceItem s m := by
  unfold interfaceItem
  simp only [Model.fields_plain, List.flatMap_map, interfaceField_plain]
  rfl

theorem commandItem_plain (s : Schema) : commandItem s.plain = commandItem s := by
  unfold commandItem
  rw [Schema.commands_plain, List.map_map]
  rfl

theorem codecItem_plain (s : Schema) (m : Model) : codecItem s.plain m.plain = codecItem s m := by
  unfold codecItem
  simp only [Model.fields_plain, List.map_map, Function.comp_def, FieldCodec.of_plain]
  rfl

theorem files_plain (s : Schema) : files s.plain = files s := by
  unfold files typesFile serializerFile
  simp only [Schema.enums_plain, Schema.models_plain, List.flatMap_map, List.map_map,
    Function.comp_def, interfaceItem_plain, codecItem_plain, commandItem_plain]
  rfl

end TypeScript

namespace Cpp

theorem structField_plain (s : Schema) (f : Field) :
    structField s.plain f.plain = structField s f := by
  rw [structField, FieldCodec.of_plain]
  rfl

theorem structItem_plain (s : Schema) (m : Model) :
    structItem s.plain m.plain = structItem s m := by
  unfold structItem
  simp only [Model.fields_plain, List.flatMap_map, List.isEmpty_map, structField_plain]
  rfl

theorem codecItem_plain (s : Schema) (m : Model) : codecItem s.plain m.plain = codecItem s m := by
  unfold codecItem
  simp only [Model.fields_plain, List.map_map, Function.comp_def, FieldCodec.of_plain]
  rfl

theorem headerFile_plain (settings : EmitSettings) (s : Schema) :
    headerFile settings s.plain = headerFile settings s := by
  unfold headerFile gapAfterModels
  simp only [Schema.enums_plain, Schema.models_plain, Schema.structOrder_plain,
    Schema.commands_plain, List.flatMap_map, List.map_map, List.isEmpty_map, Function.comp_def,
    structItem_plain]
  rfl

theorem sourceFile_plain (settings : EmitSettings) (s : Schema) :
    sourceFile settings s.plain = sourceFile settings s := by
  unfold sourceFile
  simp only [Schema.enums_plain, Schema.models_plain, List.map_map, Function.comp_def,
    codecItem_plain]
  rfl

theorem files_plain (settings : EmitSettings) (s : Schema) :
    files settings s.plain = files settings s := by
  rw [files, files, headerFile_plain, sourceFile_plain]

end Cpp

end Emit

/-- **Emitted code does not depend on places.** -/
theorem Schema.emit_plain (settings : EmitSettings) (languages : List Language) (s : Schema) :
    s.plain.emit settings languages = s.emit settings languages := by
  have hin (language : Language) :
      s.plain.emitIn settings language = s.emitIn settings language := by
    cases language with
    | rust => exact Emit.Rust.files_plain settings s
    | typeScript => exact Emit.TypeScript.files_plain s
    | cpp => exact Emit.Cpp.files_plain settings s
  simp only [Schema.emit, hin]

theorem Schema.withVersion_plain (settings : EmitSettings) (s : Schema) :
    s.plain.withVersion settings = (s.withVersion settings).plain := by
  unfold Schema.withVersion
  cases settings.protocolVersion <;> rfl

/-! ### Texts that say the same -/

/-- The kinds of errors that a caller can tell apart. -/
inductive CompileError.Kind where
  | parse
  | verify
  | cycle
  | layout
  deriving DecidableEq

/-- The kind of an error. -/
def CompileError.kind : CompileError → CompileError.Kind
  | .parse _ => .parse
  | .verify _ => .verify
  | .layout (.cycle _) => .cycle
  | .layout _ => .layout

theorem CompileError.kind_plain (e : CompileError) : e.plain.kind = e.kind := by
  rcases e with e | fault | fault
  · rfl
  · rfl
  · cases fault <;> rfl

theorem Token.map_plain_eq {ts ts' : List Token} (h : ts.map Token.said = ts'.map Token.said) :
    ts.map Token.plain = ts'.map Token.plain := by
  have hplain (us : List Token) : us.map Token.plain =
      (us.map Token.said).map fun p => ⟨p.1, p.2, Position.start⟩ := by
    rw [List.map_map]
    rfl
  rw [hplain, hplain, h]

/-- What becomes of the tokens of a text, without places. -/
theorem ofText_plain {text sourceFile : String} {parsedAt : Nat} {ts : List Token}
    (h : Token.ofText text = .ok ts) :
    ((Schema.ofText text sourceFile parsedAt).map Schema.plain).mapError CompileError.plain =
      match Schema.ofTokens sourceFile parsedAt (ts.map Token.plain) with
      | .error e => .error (.parse e)
      | .ok s => s.completed := by
  rw [Schema.ofTokens_plain, Schema.ofText, Schema.read, h]
  dsimp only
  cases Schema.ofTokens sourceFile parsedAt ts with
  | error e => rfl
  | ok s => exact (Schema.completed_plain s).symm

/-- **Only what its tokens say decides what a text is compiled to.** If the tokens of two texts have
the same kinds and texts, then both give the same files, or both are refused with errors of one kind
that differ only in their places. -/
theorem compile_eq_of_said (settings : EmitSettings) (languages : List Language)
    (sourceFile : String) (parsedAt : Nat) {text text' : String} {ts ts' : List Token}
    (h : Token.ofText text = .ok ts) (h' : Token.ofText text' = .ok ts')
    (hsaid : ts.map Token.said = ts'.map Token.said) :
    (∀ files, compile settings languages text sourceFile parsedAt = .ok files ↔
      compile settings languages text' sourceFile parsedAt = .ok files) ∧
    ∀ e, compile settings languages text sourceFile parsedAt = .error e →
      ∃ e', compile settings languages text' sourceFile parsedAt = .error e' ∧
        e'.kind = e.kind ∧ e'.plain = e.plain := by
  have hsame : ((Schema.ofText text sourceFile parsedAt).map Schema.plain).mapError
      CompileError.plain =
      ((Schema.ofText text' sourceFile parsedAt).map Schema.plain).mapError CompileError.plain := by
    rw [ofText_plain h, ofText_plain h', Token.map_plain_eq hsaid]
  unfold compile
  cases hs : Schema.ofText text sourceFile parsedAt with
  | error e =>
    cases hs' : Schema.ofText text' sourceFile parsedAt with
    | error e' =>
      rw [hs, hs'] at hsame
      have hplain : e.plain = e'.plain := Except.error.inj hsame
      refine ⟨by simp, fun e₁ he₁ => ⟨e', rfl, ?_⟩⟩
      cases he₁
      exact ⟨by rw [← e.kind_plain, ← e'.kind_plain, hplain], hplain.symm⟩
    | ok s' =>
      rw [hs, hs'] at hsame
      cases hsame
  | ok s =>
    cases hs' : Schema.ofText text' sourceFile parsedAt with
    | error e' =>
      rw [hs, hs'] at hsame
      cases hsame
    | ok s' =>
      rw [hs, hs'] at hsame
      have hplain : s.plain = s'.plain := Except.ok.inj hsame
      have hfiles : (s.withVersion settings).emit settings languages =
          (s'.withVersion settings).emit settings languages := by
        rw [← Schema.emit_plain, ← Schema.emit_plain settings languages (s'.withVersion settings),
          ← Schema.withVersion_plain, ← Schema.withVersion_plain, hplain]
      refine ⟨fun files => ?_, fun e he => ?_⟩
      · dsimp only
        rw [hfiles]
      · cases he

/-- A model with one field of the given type, on one line. -/
def lineText (type : String) : String := "model A\x7bx:" ++ type ++ "\x7d"

/-- The model of `lineText` on several lines, behind a comment. -/
def spreadText (type : String) : String := "// A\nmodel A \x7b\n  x : " ++ type ++ "\n\x7d\n"

/-- The tokens of `lineText`. -/
def lineTokens (type : String) : List Token :=
  [⟨.modelWord, "model", ⟨1, 1⟩⟩, ⟨.identifier, "A", ⟨1, 7⟩⟩, ⟨.leftBrace, "\x7b", ⟨1, 8⟩⟩,
    ⟨.identifier, "x", ⟨1, 9⟩⟩, ⟨.colon, ":", ⟨1, 10⟩⟩, ⟨.identifier, type, ⟨1, 11⟩⟩,
    ⟨.rightBrace, "\x7d", ⟨1, 11 + type.length⟩⟩, ⟨.eof, "", ⟨1, 12 + type.length⟩⟩]

/-- The tokens of `spreadText`. -/
def spreadTokens (type : String) : List Token :=
  [⟨.modelWord, "model", ⟨2, 1⟩⟩, ⟨.identifier, "A", ⟨2, 7⟩⟩, ⟨.leftBrace, "\x7b", ⟨2, 9⟩⟩,
    ⟨.identifier, "x", ⟨3, 3⟩⟩, ⟨.colon, ":", ⟨3, 5⟩⟩, ⟨.identifier, type, ⟨3, 7⟩⟩,
    ⟨.rightBrace, "\x7d", ⟨4, 1⟩⟩, ⟨.eof, "", ⟨5, 1⟩⟩]

/-- With the type `uint8` both texts give the same files; with a type that is not defined both are
refused, the one for its first line and the other for its third. -/
theorem compile_eq_of_said_spread :
    (∀ type, (lineTokens type).map Token.said = (spreadTokens type).map Token.said) ∧
      (∃ files, compile .default Language.all (lineText "uint8") "" 0 = .ok files ∧
        compile .default Language.all (spreadText "uint8") "" 0 = .ok files) ∧
      compile .default Language.all (lineText "B") "" 0 =
        .error (.verify (.typeUndefined "B" "x" 1)) ∧
      ∃ e, compile .default Language.all (spreadText "B") "" 0 = .error e ∧ e.kind = .verify ∧
        e.plain = .verify (.typeUndefined "B" "x" 1) := by
  have hsaid (type : String) : (lineTokens type).map Token.said =
      (spreadTokens type).map Token.said := rfl
  have hline : Token.ofText (lineText "uint8") = .ok (lineTokens "uint8") := by decide +kernel
  have hspread : Token.ofText (spreadText "uint8") = .ok (spreadTokens "uint8") := by
    decide +kernel
  have hlineB : Token.ofText (lineText "B") = .ok (lineTokens "B") := by decide +kernel
  have hspreadB : Token.ofText (spreadText "B") = .ok (spreadTokens "B") := by decide +kernel
  have hok : (Schema.ofText (lineText "uint8") "" 0).isOk = true := by decide +kernel
  have herror : Schema.ofText (lineText "B") "" 0 =
      .error (.verify (.typeUndefined "B" "x" 1)) := by decide +kernel
  have hfiles : ∃ files, compile .default Language.all (lineText "uint8") "" 0 = .ok files := by
    cases hs : Schema.ofText (lineText "uint8") "" 0 with
    | error e =>
      rw [hs] at hok
      cases hok
    | ok s => exact ⟨_, by rw [compile, hs]⟩
  have hrefused : compile .default Language.all (lineText "B") "" 0 =
      .error (.verify (.typeUndefined "B" "x" 1)) := by rw [compile, herror]
  obtain ⟨files, hfiles⟩ := hfiles
  have hsame :=
    (compile_eq_of_said .default Language.all "" 0 hline hspread (hsaid "uint8")).1 files
  obtain ⟨e, he, hkind, hplain⟩ :=
    (compile_eq_of_said .default Language.all "" 0 hlineB hspreadB (hsaid "B")).2 _ hrefused
  exact ⟨hsaid, ⟨files, hfiles, hsame.1 hfiles⟩, hrefused, e, he, hkind, hplain⟩

end WireSchema
