import WireSchema.Compile.Parse
import WireSchema.Proofs.Plain

/-! # Schemas without places are verified and laid out alike

Verification reads a place only to name its line in a fault, and the layout reads none. So both do
with a schema whose places are forgotten what they do with the schema itself: the result is the same
up to its places (`Schema.verify_plain`, `Schema.layout_plain`), and so is the error
(`Schema.completed_plain`). -/

namespace WireSchema

/-! ### Errors without places -/

/-- A fault as if its declaration stood on the first line. -/
def VerifyFault.plain : VerifyFault → VerifyFault
  | .typeTwice name _ => .typeTwice name Position.start.line
  | .typeReserved name _ => .typeReserved name Position.start.line
  | .fieldTwice name owner _ => .fieldTwice name owner Position.start.line
  | .typeUndefined type name _ => .typeUndefined type name Position.start.line
  | .enumWithPrefix name _ => .enumWithPrefix name Position.start.line
  | fault => fault

/-- An error as if it were at the start of the text. -/
def CompileError.plain : CompileError → CompileError
  | .parse e => .parse e.plain
  | .verify fault => .verify fault.plain
  | .layout fault => .layout fault

/-! ### Declarations -/

namespace Verify

/-- A check of each declaration that does not depend on places. -/
theorem findSome?_plain {α : Type} {check : α → Option VerifyFault} (forget : α → α)
    (h : ∀ a, check (forget a) = (check a).map VerifyFault.plain) (as : List α) :
    (as.map forget).findSome? check = (as.findSome? check).map VerifyFault.plain := by
  rw [List.findSome?_map, List.map_findSome?]
  congr 1
  funext a
  exact h a

theorem typeNames_plain (seen : List String) (names : List (String × Nat)) :
    typeNames seen (names.map fun n => (n.1, Position.start.line)) =
      (typeNames seen names).map VerifyFault.plain := by
  induction names generalizing seen with
  | nil => rfl
  | cons n names ih =>
    obtain ⟨name, line⟩ := n
    rw [List.map_cons, typeNames, typeNames]
    split_ifs
    · rfl
    · rfl
    · exact ih (name :: seen)

theorem declaredNames_plain (s : Schema) :
    declaredNames s.plain = (declaredNames s).map fun n => (n.1, Position.start.line) := by
  unfold declaredNames Schema.plain
  simp only [List.map_append, List.map_map]
  rfl

/-- The faults of members have no lines. -/
theorem map_plain_members (owner : String) (seen ms : List Member) :
    (members owner seen ms).map VerifyFault.plain = members owner seen ms := by
  induction ms generalizing seen with
  | nil => rfl
  | cons m ms ih =>
    rw [members]
    split_ifs
    · rfl
    cases seen.find? (·.value == m.value) with
    | some previous => rfl
    | none => exact ih (m :: seen)

theorem commandIds_plain (seen cs : List (Model × UInt8)) :
    commandIds (seen.map fun c => (c.1.plain, c.2)) (cs.map fun c => (c.1.plain, c.2)) =
      (commandIds seen cs).map VerifyFault.plain := by
  induction cs generalizing seen with
  | nil => rfl
  | cons c cs ih =>
    obtain ⟨m, id⟩ := c
    have hfind : (seen.map fun c => (c.1.plain, c.2)).find? (·.2 == id) =
        (seen.find? (·.2 == id)).map fun c => (c.1.plain, c.2) := List.find?_map
    rw [List.map_cons, commandIds, commandIds, hfind]
    cases seen.find? (·.2 == id) with
    | some previous => rfl
    | none => exact ih ((m, id) :: seen)

end Verify

theorem Schema.commands_plain (s : Schema) :
    s.plain.commands = s.commands.map fun c => (c.1.plain, c.2) := by
  unfold Schema.commands Schema.plain
  rw [List.filterMap_map, List.map_filterMap]
  congr 1
  funext m
  simp only [Function.comp, Option.map_map]
  rfl

namespace Verify

theorem declarations_plain (s : Schema) :
    declarations s.plain = (declarations s).map VerifyFault.plain := by
  have hmembers : s.plain.enums.findSome? (fun e => members e.name [] e.members) =
      (s.enums.findSome? fun e => members e.name [] e.members).map VerifyFault.plain :=
    findSome?_plain Enum.plain (fun e => (map_plain_members e.name [] e.members).symm) s.enums
  have hcommands := commandIds_plain [] s.commands
  rw [List.map_nil] at hcommands
  unfold declarations
  rw [declaredNames_plain, typeNames_plain, hmembers, Schema.commands_plain, hcommands,
    Option.map_or, Option.map_or]

/-! ### References -/

theorem definition?_plain (s : Schema) (name : String) :
    definition? s.plain name = definition? s name := by
  have henums : s.plain.enums.any (·.name == name) = s.enums.any (·.name == name) := List.any_map
  have hmodels : s.plain.models.any (·.name == name) = s.models.any (·.name == name) :=
    List.any_map
  rw [definition?, definition?, henums, hmodels]

theorem resolve_plain (s : Schema) (t : TypeRef) : resolve s.plain t = resolve s t := by
  induction t with
  | primitive p => rfl
  | array element ih => rw [resolve, resolve, ih]
  | enum name => rw [resolve, resolve, definition?_plain]
  | model name => rw [resolve, resolve, definition?_plain]

theorem fields_plain (s : Schema) (owner : String) (seen : List String) (fs : List Field) :
    fields s.plain owner seen (fs.map Field.plain) =
      ((fields s owner seen fs).1.map Field.plain,
        (fields s owner seen fs).2.map VerifyFault.plain) := by
  induction fs generalizing seen with
  | nil => rfl
  | cons f fs ih =>
    rw [List.map_cons, fields, fields, resolve_plain, show f.plain.name = f.name from rfl,
      show f.plain.type = f.type from rfl]
    split_ifs
    · rfl
    cases resolve s f.type with
    | error type => rfl
    | ok type =>
      have hmark : prefixesEnum ({ f with type := type } : Field).plain =
          prefixesEnum { f with type := type } := rfl
      show (if prefixesEnum ({ f with type := type } : Field).plain = true then _ else _) = _
      rw [hmark]
      dsimp only
      rw [ih]
      split_ifs <;> rfl

theorem models_plain (s : Schema) (ms : List Model) :
    models s.plain (ms.map Model.plain) =
      ((models s ms).1.map Model.plain, (models s ms).2.map VerifyFault.plain) := by
  induction ms with
  | nil => rfl
  | cons m ms ih =>
    rw [List.map_cons, models, models, show m.plain.name = m.name from rfl,
      show m.plain.fields = m.fields.map Field.plain from rfl, fields_plain, ih]
    rcases fields s m.name [] m.fields with ⟨fs, _ | fault⟩ <;> rfl

/-! ### Names in emitted code -/

/-- The faults of names in emitted code have no lines. -/
theorem map_plain_distinct (rename : String → String) (owner : String)
    (seen : List (String × String)) (names : List String) :
    (distinct rename owner seen names).map VerifyFault.plain =
      distinct rename owner seen names := by
  induction names generalizing seen with
  | nil => rfl
  | cons name names ih =>
    rw [distinct]
    cases seen.lookup (rename name) with
    | some previous => rfl
    | none => exact ih ((rename name, name) :: seen)

theorem map_plain_enumNames (e : Enum) : (enumNames e).map VerifyFault.plain = enumNames e := by
  unfold enumNames
  rw [Option.map_or, map_plain_distinct, map_plain_distinct]

theorem modelNames_plain (m : Model) :
    modelNames m.plain = (modelNames m).map VerifyFault.plain := by
  have hnames : m.plain.fields.map (·.name) = m.fields.map (·.name) := List.map_map
  unfold modelNames
  rw [hnames, Option.map_or, map_plain_distinct, map_plain_distinct]
  rfl

theorem generatedNames_plain (s : Schema) :
    generatedNames s.plain = (generatedNames s).map VerifyFault.plain := by
  have henums : s.plain.enums.findSome? enumNames =
      (s.enums.findSome? enumNames).map VerifyFault.plain :=
    findSome?_plain Enum.plain (fun e => (map_plain_enumNames e).symm) s.enums
  have hmodels : s.plain.models.findSome? modelNames =
      (s.models.findSome? modelNames).map VerifyFault.plain :=
    findSome?_plain Model.plain modelNames_plain s.models
  have hcommands : s.plain.commands.map (·.1.name) = s.commands.map (·.1.name) := by
    rw [Schema.commands_plain, List.map_map]
    rfl
  unfold generatedNames commandNames
  rw [henums, hmodels, hcommands, Option.map_or, Option.map_or, map_plain_distinct]

end Verify

/-- **Verification does not depend on places,** but for the lines in its faults. -/
theorem Schema.verify_plain (s : Schema) :
    s.plain.verify = (s.verify.1.plain, s.verify.2.map VerifyFault.plain) := by
  unfold Schema.verify
  rw [Verify.declarations_plain]
  cases Verify.declarations s with
  | some fault => rfl
  | none =>
    have hmodels := Verify.models_plain s s.models
    rw [show s.plain.models = s.models.map Model.plain from rfl, hmodels]
    rcases Verify.models s s.models with ⟨ms, _ | fault⟩
    · exact congrArg (Prod.mk _) (Verify.generatedNames_plain { s with models := ms })
    · rfl

/-! ### Layout -/

namespace Layout

theorem lastNamed?_plain (ms : List Model) (name : String) :
    lastNamed? (ms.map Model.plain) name = (lastNamed? ms name).map Model.plain := by
  unfold lastNamed?
  rw [← List.map_reverse]
  exact List.find?_map

theorem without_plain (ms : List Model) (name : String) :
    without (ms.map Model.plain) name = (without ms name).map Model.plain := List.filter_map

theorem fieldPlaces_plain (find : Finder) (m : Model) (known : Known) (p : Progress)
    (fs : List Field) :
    fieldPlaces find m.plain known p (fs.map Field.plain) = fieldPlaces find m known p fs := by
  induction fs generalizing known p with
  | nil => rfl
  | cons f fs ih =>
    have hnested : nestedSize find known f.plain = nestedSize find known f := rfl
    have hwidth (nested : Option WireSize) :
        fieldWidth m.plain f.plain nested = fieldWidth m f nested := rfl
    have hadd (isLast : Bool) (width : Width) :
        p.add m.plain f.plain isLast width = p.add m f isLast width := by cases width <;> rfl
    rw [List.map_cons, fieldPlaces, fieldPlaces, hnested]
    simp only [hwidth, hadd, List.isEmpty_map, ih]

section Descent

variable {ms : List Model} {path : List String} {known : Known} {name : String}

theorem modelLayout_of_none (hk : known.lookup name = none) (hp : path.contains name = false)
    (hm : lastNamed? ms name = none) :
    modelLayout ms path known name = .error (.unknownModel name) := by
  rw [modelLayout, hk]
  simp only [hp, Bool.false_eq_true, if_false]
  split
  · rfl
  · next m h => cases hm.symm.trans h

theorem modelLayout_of_some {m : Model} (hk : known.lookup name = none)
    (hp : path.contains name = false) (hm : lastNamed? ms name = some m) :
    modelLayout ms path known name =
      match fieldPlaces (modelLayout (without ms name) (path ++ [name])) m known ⟨0, true⟩
        m.fields with
      | .error e => .error e
      | .ok (found, known) => .ok (found, (name, found) :: known) := by
  rw [modelLayout, hk]
  simp only [hp, Bool.false_eq_true, if_false]
  split
  · next h => cases hm.symm.trans h
  · next m' h =>
    cases hm.symm.trans h
    rfl

end Descent

/-- The descent goes by the names of the models, and fewer of them are left in each step. -/
theorem modelLayout_plain (ms : List Model) (path : List String) (known : Known) (name : String) :
    modelLayout (ms.map Model.plain) path known name = modelLayout ms path known name := by
  cases hk : known.lookup name with
  | some found => rw [modelLayout, modelLayout, hk]
  | none =>
    cases hp : path.contains name with
    | true => rw [modelLayout, modelLayout, hk, if_pos hp, if_pos hp]
    | false =>
      have hlast := lastNamed?_plain ms name
      cases hm : lastNamed? ms name with
      | none =>
        rw [hm] at hlast
        rw [modelLayout_of_none hk hp hm, modelLayout_of_none hk hp hlast]
      | some m =>
        rw [hm] at hlast
        have hfind : modelLayout (without (ms.map Model.plain) name) (path ++ [name]) =
            modelLayout (without ms name) (path ++ [name]) := by
          funext known' name'
          rw [without_plain]
          exact modelLayout_plain (without ms name) (path ++ [name]) known' name'
        rw [modelLayout_of_some hk hp hm, modelLayout_of_some hk hp hlast, hfind,
          show m.plain.fields = m.fields.map Field.plain from rfl, fieldPlaces_plain]
termination_by ms.length
decreasing_by exact length_without_lastNamed?_lt hm

theorem modelLayouts_plain (ms : List Model) (known : Known) (rest : List Model) :
    modelLayouts (ms.map Model.plain) known (rest.map Model.plain) =
      modelLayouts ms known rest := by
  induction rest generalizing known with
  | nil => rfl
  | cons m rest ih =>
    rw [List.map_cons, modelLayouts, modelLayouts, modelLayout_plain]
    simp only [ih]
    rfl

theorem placeAll_plain (fs : List Field) (ps : List Place) :
    placeAll (fs.map Field.plain) ps = (placeAll fs ps).map Field.plain := by
  induction fs generalizing ps with
  | nil => rfl
  | cons f fs ih =>
    cases ps with
    | nil => rfl
    | cons p ps => exact congrArg (List.cons (place f p).plain) (ih ps)

theorem apply_plain (m : Model) (found : ModelLayout) :
    apply m.plain found = (apply m found).plain := by
  have hfields : placeAll m.plain.fields found.places =
      (placeAll m.fields found.places).map Field.plain := placeAll_plain m.fields found.places
  unfold apply
  rw [hfields]
  rfl

end Layout

namespace Schema

/-- **The layout does not depend on places.** -/
theorem layout_plain (s : Schema) : s.plain.layout = s.layout.map Schema.plain := by
  unfold Schema.layout
  rw [show s.plain.models = s.models.map Model.plain from rfl, Layout.modelLayouts_plain]
  cases Layout.modelLayouts s.models [] s.models with
  | error e => rfl
  | ok layouts =>
    have hmodels : List.zipWith Layout.apply (s.models.map Model.plain) layouts =
        (List.zipWith Layout.apply s.models layouts).map Model.plain := by
      rw [List.zipWith_map_left, List.map_zipWith]
      simp only [Layout.apply_plain]
    dsimp only
    rw [hmodels]
    rfl

/-- A schema is completed, or refused, without regard to its places. -/
theorem completed_plain (s : Schema) :
    s.plain.completed = (s.completed.map Schema.plain).mapError CompileError.plain := by
  unfold completed
  rw [verify_plain]
  rcases s.verify with ⟨s', _ | fault⟩
  · dsimp only [Option.map_none]
    rw [layout_plain]
    cases s'.layout <;> rfl
  · rfl

end Schema

end WireSchema
