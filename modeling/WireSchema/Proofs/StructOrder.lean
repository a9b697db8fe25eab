import WireSchema.Emit.StructOrder
import WireSchema.Proofs.Completed

/-! # Structs stand behind the structs that they hold

`StructOrder.place` goes down to the models that a model holds before it puts the model at the end
of the order. `Ordered` is what it keeps: every model of the order stands there once, and behind
those that it holds. Below a name without a cycle the models on the way down, which are left out,
are not missed (`Covers`), so that the name has its model in the order afterwards
(`placed_of_grounded`). The main statement is `structOrder_topological`. -/

namespace WireSchema

/-- The names of the models that a model holds, directly or in an array. -/
def Model.held (m : Model) : List String := m.fields.filterMap fun f => f.type.modelName?

namespace StructOrder

section Place

variable {ms order : List Model} {name : String}

theorem place_of_any (h : order.any (·.name == name) = true) : place ms order name = order := by
  rw [place, if_pos h]

theorem place_of_none (h : order.any (·.name == name) = false)
    (hm : ms.find? (·.name == name) = none) : place ms order name = order := by
  rw [place, if_neg (by simp [h])]
  split
  · rfl
  · next m h' => cases hm.symm.trans h'

theorem place_of_some {m : Model} (h : order.any (·.name == name) = false)
    (hm : ms.find? (·.name == name) = some m) :
    place ms order name = m.held.foldl (place (Layout.without ms name)) order ++ [m] := by
  rw [place, if_neg (by simp [h])]
  split
  · next h' => cases hm.symm.trans h'
  · next m' h' =>
    cases hm.symm.trans h'
    rfl

end Place

/-! ### What is kept -/

/-- Models of a schema in an order in which each stands once, and behind the models that it
holds. -/
structure Ordered (s : Schema) (order : List Model) : Prop where
  subset : ∀ m ∈ order, m ∈ s.models
  nodup : (order.map (·.name)).Nodup
  before : ∀ front m back, order = front ++ m :: back →
    ∀ name ∈ m.held, name ∈ front.map (·.name)

/-- The order has grown at its end, by models out of `ms`, and is still one. -/
structure Grown (s : Schema) (ms order order' : List Model) : Prop where
  ordered : Ordered s order'
  keeps : order <+: order'
  added : ∀ m ∈ order', m ∈ order ∨ m ∈ ms

variable {s : Schema} {ms order order' : List Model} {name : String}

theorem ordered_nil (s : Schema) : Ordered s [] where
  subset := by simp
  nodup := by simp
  before front m back h := by simp at h

theorem Grown.mem_names (h : Grown s ms order order') (hn : name ∈ order.map (·.name)) :
    name ∈ order'.map (·.name) := by
  obtain ⟨m, hm, rfl⟩ := List.mem_map.1 hn
  exact List.mem_map_of_mem (h.keeps.subset hm)

/-- A model that is not there yet goes to the end, once those that it holds are there. -/
theorem Ordered.concat {m : Model} (h : Ordered s order) (hm : m ∈ s.models)
    (hnew : m.name ∉ order.map (·.name)) (hheld : ∀ name ∈ m.held, name ∈ order.map (·.name)) :
    Ordered s (order ++ [m]) where
  subset m' hm' := by
    rcases List.mem_append.1 hm' with hm' | hm'
    · exact h.subset m' hm'
    · rw [List.mem_singleton.1 hm']
      exact hm
  nodup := by
    rw [List.map_append, List.map_singleton, ← List.concat_eq_append, List.nodup_concat]
    exact ⟨hnew, h.nodup⟩
  before front m' back heq := by
    rcases List.eq_nil_or_concat back with rfl | ⟨back, last, rfl⟩
    · obtain ⟨rfl, hlast⟩ := List.append_inj' heq rfl
      cases hlast
      exact hheld
    · have heq' : order ++ [m] = (front ++ m' :: back) ++ [last] := by simpa using heq
      exact h.before front m' back (List.append_inj' heq' rfl).1

/-! ### Steps down -/

/-- Names placed one after another, each of them by a step that makes the order grow. -/
theorem foldl_grown {step : List Model → String → List Model} {names : List String}
    (hstep : ∀ order, Ordered s order → ∀ name ∈ names,
      Grown s ms order (step order name) ∧ name ∈ (step order name).map (·.name))
    (ho : Ordered s order) :
    Grown s ms order (names.foldl step order) ∧
      ∀ name ∈ names, name ∈ (names.foldl step order).map (·.name) := by
  induction names generalizing order with
  | nil => exact ⟨⟨ho, List.prefix_refl order, fun m hm => Or.inl hm⟩, by simp⟩
  | cons first names ih =>
    obtain ⟨hfirst, hmem⟩ := hstep order ho first List.mem_cons_self
    obtain ⟨hrest, hall⟩ :=
      ih (fun order ho name hn => hstep order ho name (List.mem_cons_of_mem first hn))
        hfirst.ordered
    refine ⟨⟨hrest.ordered, hfirst.keeps.trans hrest.keeps, fun m hm => ?_⟩, fun name hn => ?_⟩
    · rcases hrest.added m hm with hm | hm
      · exact hfirst.added m hm
      · exact Or.inr hm
    · rcases List.mem_cons.1 hn with rfl | hn
      · exact hrest.mem_names hmem
      · exact hall name hn

/-- **One model is placed.** Where no descent below the name goes on for ever, the order grows by
what is missing, and the name has its model in it. -/
theorem placed_of_grounded (hheld : ∀ m ∈ s.models, ∀ name ∈ m.held, s.Refers m.name name)
    (hnames : ∀ a b, s.Refers a b → b ∈ s.models.map (·.name))
    (hground : s.Grounded name) (hname : name ∈ s.models.map (·.name))
    (hcover : s.Covers ms name) (hsub : ∀ m ∈ ms, m ∈ s.models) (ho : Ordered s order) :
    Grown s ms order (place ms order name) ∧ name ∈ (place ms order name).map (·.name) := by
  induction hground generalizing ms order with
  | intro name hacc ih =>
    have hground : s.Grounded name := Acc.intro name hacc
    cases hany : order.any (·.name == name) with
    | true =>
      rw [place_of_any hany]
      refine ⟨⟨ho, List.prefix_refl order, fun m hm => Or.inl hm⟩, ?_⟩
      simpa using hany
    | false =>
      obtain ⟨m₀, hm₀, rfl⟩ := List.mem_map.1 hname
      have hfound : (ms.find? (·.name == m₀.name)).isSome = true := by
        rw [hcover m₀.name .refl, Schema.model?, List.find?_isSome]
        exact ⟨m₀, hm₀, by simp⟩
      obtain ⟨m, hm⟩ := Option.isSome_iff_exists.1 hfound
      have hmem : m ∈ ms := List.mem_of_find?_eq_some hm
      have hmname : m.name = m₀.name := by simpa using List.find?_some hm
      rw [place_of_some hany hm]
      -- the models that it holds are placed out of the others, so that the model itself is not
      have hstep : ∀ order, Ordered s order → ∀ held ∈ m.held,
          Grown s (Layout.without ms m₀.name) order (place (Layout.without ms m₀.name) order held) ∧
            held ∈ (place (Layout.without ms m₀.name) order held).map (·.name) := by
        intro order ho held hin
        have href : s.Refers m₀.name held := hmname ▸ hheld m (hsub m hmem) held hin
        exact ih held href (hnames m₀.name held href) (hcover.without hground href)
          (fun m' hm' => hsub m' (List.mem_of_mem_filter hm')) ho
      obtain ⟨hgrown, hall⟩ := foldl_grown hstep ho
      have hnew : m.name ∉ (m.held.foldl (place (Layout.without ms m₀.name)) order).map
          (·.name) := by
        intro hin
        obtain ⟨m', hm', heq⟩ := List.mem_map.1 hin
        rw [hmname] at heq
        rcases hgrown.added m' hm' with hold | hout
        · have hne : m'.name ≠ m₀.name := by simpa using List.any_eq_false.1 hany m' hold
          exact hne heq
        · have hne : m'.name ≠ m₀.name := by simpa using (List.mem_filter.1 hout).2
          exact hne heq
      refine ⟨⟨hgrown.ordered.concat (hsub m hmem) hnew hall,
        hgrown.keeps.trans (List.prefix_append _ _), fun m' hm' => ?_⟩, ?_⟩
      · rcases List.mem_append.1 hm' with hm' | hm'
        · exact (hgrown.added m' hm').imp_right fun hout => List.mem_of_mem_filter hout
        · rw [List.mem_singleton.1 hm']
          exact Or.inr hmem
      · rw [List.map_append, List.mem_append]
        exact Or.inr (by simp [hmname])

end StructOrder

namespace Schema

variable {s : Schema}

theorem Completed.refers_of_mem_held (h : s.Completed) {m : Model} (hm : m ∈ s.models)
    {name : String} (hn : name ∈ m.held) : s.Refers m.name name := by
  obtain ⟨f, hf, hfn⟩ := List.mem_filterMap.1 hn
  exact h.refers_of_type hm hf hfn

theorem mem_held_of_type {m : Model} {f : Field} {name : String} (hf : f ∈ m.fields)
    (ht : f.type = .model name ∨ f.type = .array (.model name)) : name ∈ m.held := by
  refine List.mem_filterMap.2 ⟨f, hf, ?_⟩
  rcases ht with ht | ht <;> rw [ht] <;> rfl

/-- The order of structs is one in which each model stands behind those that it holds, and no model
is missing. -/
theorem Completed.ordered_structOrder (h : s.Completed) :
    StructOrder.Ordered s s.structOrder ∧
      ∀ name ∈ s.models.map (·.name), name ∈ s.structOrder.map (·.name) := by
  have hstep : ∀ order, StructOrder.Ordered s order → ∀ name ∈ s.models.map (·.name),
      StructOrder.Grown s s.models order (StructOrder.place s.models order name) ∧
        name ∈ (StructOrder.place s.models order name).map (·.name) := by
    intro order ho name hname
    exact StructOrder.placed_of_grounded (fun m hm _ hn => h.refers_of_mem_held hm hn)
      (fun _ _ => h.resolved.mem_of_refers) (h.acyclic.grounded name) hname (fun _ _ => rfl)
      (fun _ hm => hm) ho
  obtain ⟨hgrown, hall⟩ := StructOrder.foldl_grown hstep (StructOrder.ordered_nil s)
  exact ⟨hgrown.ordered, hall⟩

theorem Completed.mem_structOrder (h : s.Completed) {m : Model} :
    m ∈ s.structOrder ↔ m ∈ s.models := by
  obtain ⟨ho, hall⟩ := h.ordered_structOrder
  refine ⟨ho.subset m, fun hm => ?_⟩
  obtain ⟨m', hm', heq⟩ := List.mem_map.1 (hall m.name (List.mem_map_of_mem hm))
  rw [← List.inj_on_of_nodup_map h.resolved.modelNames (ho.subset m' hm') hm heq]
  exact hm'

/-- **Structs come in the order of their dependencies.** For a schema text that is accepted, the
order has every model exactly once, and a model that a field holds, directly or in an array, stands
before the model with the field. -/
theorem structOrder_topological {text sourceFile : String} {parsedAt : Nat}
    (h : ofText text sourceFile parsedAt = .ok s) :
    s.structOrder.Perm s.models ∧ s.structOrder.Nodup ∧
      ∀ m ∈ s.models, ∀ f ∈ m.fields, ∀ name,
        f.type = .model name ∨ f.type = .array (.model name) →
          ∃ held ∈ s.models, held.name = name ∧
            s.structOrder.idxOf held < s.structOrder.idxOf m := by
  have hc := completed_of_ofText h
  obtain ⟨ho, -⟩ := hc.ordered_structOrder
  have hnodup : s.structOrder.Nodup := List.Nodup.of_map _ ho.nodup
  refine ⟨(List.perm_ext_iff_of_nodup hnodup (List.Nodup.of_map _ hc.resolved.modelNames)).2
    fun m => hc.mem_structOrder, hnodup, fun m hm f hf name ht => ?_⟩
  obtain ⟨front, back, heq⟩ := List.append_of_mem (hc.mem_structOrder.2 hm)
  obtain ⟨held, hheld, rfl⟩ :=
    List.mem_map.1 (ho.before front m back heq name (mem_held_of_type hf ht))
  have hin : held ∈ s.structOrder := heq ▸ List.mem_append_left _ hheld
  refine ⟨held, ho.subset held hin, rfl, ?_⟩
  have hout : m ∉ front := by
    intro hm'
    rw [heq] at hnodup
    exact (List.nodup_append.1 hnodup).2.2 m hm' m List.mem_cons_self rfl
  rw [heq, List.idxOf_append_of_mem hheld, List.idxOf_append_of_notMem hout, List.idxOf_cons_self]
  exact List.idxOf_lt_length_of_mem hheld

theorem structOrder_topological_sample :
    ofText sampleText "" 0 = .ok sample ∧ sample.structOrder = [samplePoint, sampleLog] ∧
      sample.structOrder.Perm sample.models ∧
      sample.structOrder.idxOf samplePoint < sample.structOrder.idxOf sampleLog := by
  obtain ⟨hperm, -, hbefore⟩ := structOrder_topological ofText_sample
  obtain ⟨held, hheld, hname, hlt⟩ := hbefore sampleLog (by decide)
    ⟨"rest", .array (.model "Point"), ⟨none, none⟩, [], none, some 6, ⟨1, 39⟩⟩ (by decide) "Point"
    (Or.inr rfl)
  have hpoint : held = samplePoint := by
    rcases List.mem_pair.1 hheld with rfl | rfl
    · exact absurd hname (by decide)
    · rfl
  rw [hpoint] at hlt
  exact ⟨ofText_sample, by decide +kernel, hperm, hlt⟩

end Schema

end WireSchema
