import WireSchema.Proofs.LayoutPass

/-! # The descent of the layout

The layout goes down from model to model and keeps what it finds. What it keeps is right: each model
in it can be laid out with all models below it (`Settled`), and its layout is the one of its fields
(`IsLayout`). A step down keeps this (`modelLayout_sound`), and a settled model is found
(`modelLayout_complete`), since no model on the way down to it is met again. -/

namespace WireSchema

namespace Schema

variable {s : Schema}

/-- A model that can be laid out, with all models below it. -/
inductive Settled (s : Schema) : String → Prop
  | intro (m : Model) (hm : m ∈ s.models) (h : m.Admissible s.wireSizeOf)
    (hrefers : ∀ b, s.Refers m.name b → Settled s b) : Settled s m.name

theorem Settled.grounded {a : String} (h : s.Settled a) : s.Grounded a := by
  induction h with
  | intro m _ _ _ ih => exact Acc.intro m.name fun b hb => ih b hb

theorem Settled.admissible (hn : (s.models.map (·.name)).Nodup) {m : Model} (hm : m ∈ s.models)
    (h : s.Settled m.name) : m.Admissible s.wireSizeOf := by
  generalize ha : m.name = a at h
  obtain ⟨m', hm', hadm, -⟩ := h
  rwa [List.inj_on_of_nodup_map hn hm hm' ha]

/-- If every reference is one to a model, all models are settled exactly if there is no cycle and
each of them can be laid out. -/
theorem forall_settled_iff (hn : (s.models.map (·.name)).Nodup)
    (href : ∀ a b, s.Refers a b → b ∈ s.models.map (·.name)) :
    (∀ m ∈ s.models, s.Settled m.name) ↔
      s.Acyclic ∧ ∀ m ∈ s.models, m.Admissible s.wireSizeOf := by
  constructor
  · intro h
    exact ⟨acyclic_of_grounded fun m hm => (h m hm).grounded, fun m hm => (h m hm).admissible hn hm⟩
  · rintro ⟨hacyc, hadm⟩
    have hset : ∀ a ∈ s.models.map (·.name), s.Settled a := by
      intro a ha
      induction hacyc.grounded a with
      | intro a _ ih =>
        obtain ⟨m, hm, rfl⟩ := List.mem_map.1 ha
        exact .intro m hm (hadm m hm) fun b hb => ih b hb (href m.name b hb)
    exact fun m hm => hset m.name (List.mem_map_of_mem hm)

end Schema

namespace Layout

variable {s : Schema} {ms : List Model} {path : List String} {known known' : Known}
  {name : String} {found : ModelLayout}

/-- The layout of the settled model of the given name. -/
def IsLayout (s : Schema) (name : String) (found : ModelLayout) : Prop :=
  s.Settled name ∧ ∃ m ∈ s.models, m.name = name ∧ found = layoutFrom s.wireSizeOf [] m.fields

/-- All that is known is right. -/
def Right (s : Schema) (known : Known) : Prop :=
  ∀ name found, known.lookup name = some found → IsLayout s name found

theorem right_nil : Right s [] := fun _ _ h => by simp at h

theorem Right.cons (hk : Right s known) (h : IsLayout s name found) :
    Right s ((name, found) :: known) := by
  intro b found' hb
  rw [List.lookup_cons] at hb
  split at hb
  · next heq =>
    cases hb
    rwa [eq_of_beq heq]
  · exact hk b found' hb

theorem IsLayout.wireSize (hn : (s.models.map (·.name)).Nodup) (h : IsLayout s name found) :
    found.wireSize = s.wireSizeOf name := by
  obtain ⟨hset, m, hm, rfl, rfl⟩ := h
  rw [Schema.wireSizeOf_eq (Schema.model?_of_mem hn hm) hset.grounded]
  exact progress_wireSize fun f hf => (hset.admissible hn hm).field hf

/-- The models that a field needs are those that its model refers to. -/
theorem needs_eq_some {f : Field} {b : String} :
    needs f = some b ↔ f.type = .model b ∨ f.type = .array (.model b) := by
  unfold needs
  split <;> simp_all

theorem isLayout_of_placeable (hn : (s.models.map (·.name)).Nodup) {m : Model} (hm : m ∈ s.models)
    (hneeds : ∀ f ∈ m.fields, ∀ b, needs f = some b → s.Settled b)
    (h : Placeable s.wireSizeOf [] m.fields) :
    IsLayout s m.name (layoutFrom s.wireSizeOf [] m.fields) := by
  refine ⟨.intro m hm (placeable_nil_iff.1 h) ?_, m, hm, rfl, rfl⟩
  rintro b ⟨m', hm', hname, f, hf, ht⟩
  cases List.inj_on_of_nodup_map hn hm' hm hname
  exact hneeds f hf b (needs_eq_some.2 ht)

/-- A finder of right layouts is sound. -/
theorem sound_of_isLayout (hn : (s.models.map (·.name)).Nodup) {find : Finder}
    (h : ∀ known name found known', Right s known → find known name = .ok (found, known') →
      Right s known' ∧ IsLayout s name found) :
    Sound find s.wireSizeOf (Right s) s.Settled := by
  intro known name found known' hk hf
  obtain ⟨hk', hlayout⟩ := h known name found known' hk hf
  exact ⟨hk', hlayout.1, hlayout.wireSize hn⟩

/-- What one step down finds: what is known, or the layout of the fields of the model. -/
theorem modelLayout_eq_ok {r : ModelLayout × Known} :
    modelLayout ms path known name = .ok r ↔
      (∃ found, known.lookup name = some found ∧ r = (found, known)) ∨
      known.lookup name = none ∧ name ∉ path ∧ ∃ m, lastNamed? ms name = some m ∧ ∃ found known',
        fieldPlaces (modelLayout (without ms name) (path ++ [name])) m known ⟨0, true⟩ m.fields =
          .ok (found, known') ∧ r = (found, (name, found) :: known') := by
  rw [modelLayout]
  cases hk : known.lookup name with
  | some found => simp [eq_comm]
  | none =>
    by_cases hp : name ∈ path
    · simp [hp]
    · simp only [List.contains_eq_mem, hp, decide_false, Bool.false_eq_true, if_false]
      split
      · next h => simp [h]
      · next m h =>
        cases hf : fieldPlaces (modelLayout (without ms name) (path ++ [name])) m known ⟨0, true⟩
          m.fields with
        | error e => simp [h, hf]
        | ok r' =>
          obtain ⟨found, known'⟩ := r'
          simp [h, hf, eq_comm]

/-- **What the descent finds is right.** The induction is on the models that are left. -/
theorem modelLayout_sound (hn : (s.models.map (·.name)).Nodup) (hms : ms.Sublist s.models)
    (hk : Right s known) (h : modelLayout ms path known name = .ok (found, known')) :
    Right s known' ∧ IsLayout s name found := by
  induction hlen : ms.length using Nat.strong_induction_on generalizing ms path known name found
    known' with
  | _ len ih =>
    rcases modelLayout_eq_ok.1 h with ⟨found, hl, h⟩ | ⟨-, -, m, hm, found, known₁, hf, h⟩
    · cases h
      exact ⟨hk, hk name found hl⟩
    · cases h
      have hfind : Sound (modelLayout (without ms name) (path ++ [name])) s.wireSizeOf (Right s)
          s.Settled := sound_of_isLayout hn fun _ _ _ _ hk' hb =>
        ih _ (hlen ▸ length_without_lastNamed?_lt hm) (List.filter_sublist.trans hms) hk' hb rfl
      have hzero : totalWidth s.wireSizeOf [] ≤ maxSize := Nat.zero_le _
      obtain ⟨hk₁, hneeds, hplace, rfl⟩ := fieldPlaces_sound hfind hzero hk hf
      -- the models that are left are some of the schema, so their names differ too
      rw [Schema.lastNamed?_eq_find? ((hms.map _).nodup hn)] at hm
      obtain rfl : m.name = name := by simpa using List.find?_some hm
      have hmem := hms.subset (List.mem_of_find?_eq_some hm)
      have hl := isLayout_of_placeable hn hmem hneeds hplace
      exact ⟨hk₁.cons hl, hl⟩

/-- **A settled model is found,** if the models below it are left and not on the way. -/
theorem modelLayout_complete (hn : (s.models.map (·.name)).Nodup) (hms : ms.Sublist s.models)
    (hname : s.Settled name) (hc : s.Covers ms name)
    (hpath : ∀ b, Relation.ReflTransGen s.Refers name b → b ∉ path) (hk : Right s known) :
    ∃ r, modelLayout ms path known name = .ok r := by
  induction hname generalizing ms path known with
  | intro m hm hadm hrefers ih =>
    have hg : s.Grounded m.name := (Schema.Settled.intro m hm hadm hrefers).grounded
    cases hl : known.lookup m.name with
    | some found => exact ⟨_, modelLayout_eq_ok.2 (Or.inl ⟨found, hl, rfl⟩)⟩
    | none =>
      have hlast : lastNamed? ms m.name = some m := by
        rw [Schema.lastNamed?_eq_find? ((hms.map _).nodup hn), hc m.name .refl]
        exact Schema.model?_of_mem hn hm
      have hsub : (without ms m.name).Sublist s.models := List.filter_sublist.trans hms
      have hfind : Sound (modelLayout (without ms m.name) (path ++ [m.name])) s.wireSizeOf
          (Right s) s.Settled :=
        sound_of_isLayout hn fun _ _ _ _ hk' hb => modelLayout_sound hn hsub hk' hb
      have hbelow : ∀ f ∈ m.fields, ∀ b, needs f = some b → ∀ k, Right s k →
          ∃ r, modelLayout (without ms m.name) (path ++ [m.name]) k b = .ok r := by
        intro f hf b hb k hk'
        have href : s.Refers m.name b := ⟨m, hm, rfl, f, hf, needs_eq_some.1 hb⟩
        refine ih b href hsub (hc.without hg href) (fun c hbc => ?_) hk'
        -- a model below is not on the way so far, and is not `m`, since that would be a cycle
        rw [List.mem_append, List.mem_singleton]
        rintro (hcp | rfl)
        · exact hpath c (.head href hbc) hcp
        · exact hg.not_transGen (.head' href hbc)
      obtain ⟨⟨found, known₁⟩, hr⟩ := fieldPlaces_complete (m := m) hfind
        (placeable_nil_iff.2 hadm) (Nat.zero_le _) hbelow hk
      exact ⟨_, modelLayout_eq_ok.2 (Or.inr ⟨hl, hpath m.name .refl, m, hlast, found, known₁, hr,
        rfl⟩)⟩

/-! ### All models -/

theorem modelLayouts_sound (hn : (s.models.map (·.name)).Nodup) {rest : List Model}
    (hrest : ∀ m ∈ rest, m ∈ s.models) {layouts : List ModelLayout} (hk : Right s known)
    (h : modelLayouts s.models known rest = .ok layouts) :
    (∀ m ∈ rest, s.Settled m.name) ∧
      layouts = rest.map fun m => layoutFrom s.wireSizeOf [] m.fields := by
  induction rest generalizing known layouts with
  | nil =>
    cases h
    exact ⟨by simp, rfl⟩
  | cons m rest ih =>
    rw [modelLayouts] at h
    split at h
    · cases h
    · next found known₁ hm =>
      split at h
      · cases h
      · next layouts' hr =>
        cases h
        obtain ⟨hk₁, hset, m', hm', hname, rfl⟩ := modelLayout_sound hn (List.Sublist.refl _) hk hm
        obtain ⟨hall, rfl⟩ := ih (fun m hm => hrest m (List.mem_cons_of_mem _ hm)) hk₁ hr
        cases List.inj_on_of_nodup_map hn hm' (hrest m List.mem_cons_self) hname
        exact ⟨List.forall_mem_cons.2 ⟨hset, hall⟩, rfl⟩

theorem modelLayouts_complete (hn : (s.models.map (·.name)).Nodup) {rest : List Model}
    (hrest : ∀ m ∈ rest, s.Settled m.name) (hk : Right s known) :
    ∃ layouts, modelLayouts s.models known rest = .ok layouts := by
  induction rest generalizing known with
  | nil => exact ⟨[], rfl⟩
  | cons m rest ih =>
    obtain ⟨hm, hrest⟩ := List.forall_mem_cons.1 hrest
    obtain ⟨⟨found, known₁⟩, hf⟩ := modelLayout_complete hn (List.Sublist.refl _) hm
      (fun _ _ => rfl) (fun _ _ => List.not_mem_nil) hk
    obtain ⟨hk₁, -⟩ := modelLayout_sound hn (List.Sublist.refl _) hk hf
    obtain ⟨layouts, hl⟩ := ih hrest hk₁
    exact ⟨found :: layouts, by simp only [modelLayouts, hf, hl]⟩

theorem placeAll_mapIdx (fs : List Field) (g : Nat → Field → Place) :
    placeAll fs (fs.mapIdx g) = fs.mapIdx fun i f => place f (g i f) := by
  induction fs generalizing g with
  | nil => rfl
  | cons f fs ih => rw [List.mapIdx_cons, List.mapIdx_cons, placeAll, ih]

theorem apply_layoutFrom {size : String → WireSize} {m : Model} (h : m.Admissible size) :
    apply m (layoutFrom size [] m.fields) = m.placed size := by
  have hsize : (layoutFrom size [] m.fields).wireSize = m.sizeBy size :=
    progress_wireSize fun f hf => h.field hf
  rw [apply, hsize, layoutFrom, placeAll_mapIdx]
  rfl

end Layout

namespace Schema

variable {s s' : Schema}

/-- **A schema that is laid out** has settled models, with the sizes and places of `placed`. -/
theorem layout_sound (hn : (s.models.map (·.name)).Nodup) (h : s.layout = .ok s') :
    (∀ m ∈ s.models, s.Settled m.name) ∧ s' = s.placed := by
  unfold layout at h
  split at h
  · cases h
  · next layouts hl =>
    cases h
    obtain ⟨hset, rfl⟩ := Layout.modelLayouts_sound hn (fun _ hm => hm) Layout.right_nil hl
    refine ⟨hset, ?_⟩
    rw [List.zipWith_map_right, List.zipWith_self, placed]
    congr 1
    exact List.map_congr_left fun m hm =>
      Layout.apply_layoutFrom ((hset m hm).admissible hn hm)

/-- **A schema with settled models is laid out.** -/
theorem layout_complete (hn : (s.models.map (·.name)).Nodup)
    (h : ∀ m ∈ s.models, s.Settled m.name) : ∃ s', s.layout = .ok s' := by
  obtain ⟨layouts, hl⟩ := Layout.modelLayouts_complete hn h Layout.right_nil
  exact ⟨_, by rw [layout, hl]⟩

end Schema

end WireSchema
