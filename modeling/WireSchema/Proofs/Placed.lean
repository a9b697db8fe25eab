import WireSchema.Proofs.Sizing

/-! # Placed schemas

Placing a field changes neither its width nor what it refers to. So the sizes of a placed schema are
those that it was placed with, and to place it again changes nothing (`Model.placed_placed`,
`wireSizeOf_placed`). -/

namespace WireSchema

variable {size g : String → WireSize} {offset : Option Nat} {s : Schema}

/-! ### Fields -/

namespace Field

variable {f : Field}

theorem width?_placed : (f.placed g offset).width? size = f.width? size := by
  obtain ⟨name, type, ⟨fixed, pre⟩, ds, doc, o, pos⟩ := f
  cases pre with
  | some p => rfl
  | none => cases type <;> rfl

theorem isUnbounded_placed : (f.placed g offset).isUnbounded = f.isUnbounded := by
  obtain ⟨name, type, ⟨fixed, pre⟩, ds, doc, o, pos⟩ := f
  cases pre with
  | some p => rfl
  | none =>
    cases type with
    | primitive p => cases p <;> rfl
    | _ => rfl

theorem placed_placed {offset' : Option Nat} :
    (f.placed size offset').placed size offset = f.placed size offset := by
  have hfixed : (f.notedSize? size).or ((f.notedSize? size).or f.size.fixed) =
      (f.notedSize? size).or f.size.fixed := by
    rw [← Option.or_assoc, Option.or_self]
  exact congrArg (fun n => { f with offset := offset, size := { f.size with fixed := n } }) hfixed

end Field

/-! ### Models -/

namespace Layout

theorem totalWidth_congr {fs gs : List Field}
    (h : fs.map (Field.width? size) = gs.map (Field.width? size)) :
    totalWidth size fs = totalWidth size gs := by
  have hmap : ∀ fs, totalWidth size fs = ((fs.map (Field.width? size)).filterMap id).sum := by
    intro fs
    rw [List.filterMap_map]
    rfl
  rw [hmap fs, h, ← hmap gs]

theorem allFixed_congr {fs gs : List Field}
    (h : fs.map (Field.width? size) = gs.map (Field.width? size)) :
    allFixed size fs = allFixed size gs := by
  have hmap : ∀ fs, allFixed size fs = (fs.map (Field.width? size)).all Option.isSome := by
    intro fs
    rw [List.all_map]
    rfl
  rw [hmap fs, h, ← hmap gs]

end Layout

namespace Model

variable {m : Model}

/-- What placing does not change of a field, it does not change of the fields. -/
theorem map_placed {α : Type} {w : Field → α} (hw : ∀ f offset, w (f.placed g offset) = w f) :
    (m.placed g).fields.map w = m.fields.map w := by
  refine List.ext_getElem? fun i => ?_
  rw [List.getElem?_map, List.getElem?_map]
  change Option.map w (List.mapIdx _ m.fields)[i]? = _
  rw [List.getElem?_mapIdx, Option.map_map]
  congr 1
  funext f
  exact hw f _

theorem exists_of_mem_placed {f : Field} (hf : f ∈ (m.placed g).fields) :
    ∃ f₀ ∈ m.fields, ∃ offset, f = f₀.placed g offset := by
  obtain ⟨i, hi, rfl⟩ := List.mem_mapIdx.1 hf
  exact ⟨_, List.getElem_mem hi, _, rfl⟩

theorem sizeBy_placed : (m.placed g).sizeBy size = m.sizeBy size := by
  have hw : Layout.totalWidth size (m.placed g).fields = Layout.totalWidth size m.fields :=
    Layout.totalWidth_congr (map_placed fun _ _ => Field.width?_placed)
  have hfixed : (m.placed g).fields.all Field.isFixed = m.fields.all Field.isFixed := by
    have hmap : ∀ fs : List Field, fs.all Field.isFixed = (fs.map Field.isFixed).all id := by
      intro fs
      rw [List.all_map]
      rfl
    rw [hmap, hmap, map_placed]
    intro f offset
    rw [Field.isFixed, Field.isUnbounded_placed]
    rfl
  rw [sizeBy, sizeBy, hw, hfixed]

theorem offset?_placed (i : Nat) : (m.placed g).offset? size i = m.offset? size i := by
  have hmap : ((m.placed g).fields.take i).map (Field.width? size) =
      (m.fields.take i).map (Field.width? size) := by
    rw [List.map_take, List.map_take, map_placed fun _ _ => Field.width?_placed]
  rw [offset?, offset?, Layout.totalWidth_congr hmap, Layout.allFixed_congr hmap]

theorem placed_placed : (m.placed size).placed size = m.placed size := by
  have hfields : (m.placed size).fields.mapIdx (fun i f =>
      f.placed size ((m.placed size).offset? size i)) = (m.placed size).fields := by
    change List.mapIdx _ (List.mapIdx _ m.fields) = List.mapIdx _ m.fields
    rw [List.mapIdx_mapIdx]
    congr 1
    funext i f
    rw [Function.comp_apply, Field.placed_placed, offset?_placed]
  have hsize : (m.placed size).sizeBy size = (m.placed size).wireSize := sizeBy_placed
  conv_lhs => rw [placed, hfields, hsize]

theorem Admissible.placed (h : m.Admissible size) : (m.placed g).Admissible size := by
  refine ⟨fun f hf => ?_, fun f hf => ?_, fun front f back hsplit hu => ?_, ?_⟩
  · obtain ⟨f₀, hf₀, offset, rfl⟩ := exists_of_mem_placed hf
    exact h.elements f₀ hf₀
  · obtain ⟨f₀, hf₀, offset, rfl⟩ := exists_of_mem_placed hf
    exact h.nested f₀ hf₀
  · obtain ⟨front₀, rest₀, hfields, -, hrest⟩ := List.mapIdx_eq_append_iff.1 hsplit
    obtain ⟨f₀, back₀, rfl, rfl, rfl⟩ := List.mapIdx_eq_cons_iff.1 hrest
    rw [Field.isUnbounded_placed] at hu
    rw [h.last front₀ f₀ back₀ hfields hu, List.mapIdx_nil]
  · rw [Layout.totalWidth_congr (map_placed fun _ _ => Field.width?_placed)]
    exact h.bounded

end Model

/-! ### Schemas -/

theorem Layout.sizeAmong_map_placed (ms : List Model) (name : String) :
    sizeAmong (ms.map (Model.placed g)) name = sizeAmong ms name := by
  induction hlen : ms.length using Nat.strong_induction_on generalizing ms name with
  | _ len ih =>
    have hfind : (ms.map (Model.placed g)).find? (·.name == name) =
        (ms.find? (·.name == name)).map (Model.placed g) := List.find?_map
    have hwithout : without (ms.map (Model.placed g)) name =
        (without ms name).map (Model.placed g) := List.filter_map
    rw [sizeAmong_eq, sizeAmong_eq, hfind, hwithout]
    cases h : ms.find? (·.name == name) with
    | none => rfl
    | some m =>
      have hrec : sizeAmong ((without ms name).map (Model.placed g)) =
          sizeAmong (without ms name) :=
        funext fun b => ih _ (hlen ▸ length_without_find?_lt h) _ b rfl
      rw [Option.map_some, Option.elim_some, Option.elim_some, hrec, Model.sizeBy_placed]

namespace Schema

theorem wireSizeOf_placed : s.placed.wireSizeOf = s.wireSizeOf :=
  funext fun name => Layout.sizeAmong_map_placed s.models name

theorem map_name_placed : s.placed.models.map (·.name) = s.models.map (·.name) := by
  rw [placed, List.map_map]
  rfl

theorem refers_placed {a b : String} : s.placed.Refers a b ↔ s.Refers a b := by
  constructor
  · rintro ⟨m, hm, rfl, f, hf, ht⟩
    obtain ⟨m₀, hm₀, rfl⟩ := List.mem_map.1 hm
    obtain ⟨f₀, hf₀, offset, rfl⟩ := Model.exists_of_mem_placed hf
    exact ⟨m₀, hm₀, rfl, f₀, hf₀, ht⟩
  · rintro ⟨m, hm, rfl, f, hf, ht⟩
    have hmem : f.type ∈ (m.placed s.wireSizeOf).fields.map (·.type) := by
      rw [Model.map_placed fun _ _ => rfl]
      exact List.mem_map_of_mem hf
    obtain ⟨f', hf', htype⟩ := List.mem_map.1 hmem
    exact ⟨m.placed s.wireSizeOf, List.mem_map_of_mem hm, rfl, f', hf', htype ▸ ht⟩

end Schema

end WireSchema
