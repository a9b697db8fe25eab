import WireSchema.Proofs.LayoutDescent

/-! # Cycles

The layout reports a cycle by the names of the models on it. It cuts these out of the models on the
way down, which are a path along references: each of them refers to the next one, the last one
refers to the model that is looked for, and none of them is met twice (`Trail`). A step down keeps
this (`Trail.step`), whatever has been found before, so that what is reported is a cycle
(`isCycle_of_layout`). -/

namespace WireSchema

namespace Schema

/-- A way along references from a model back to itself that meets no other model twice. -/
structure IsCycle (s : Schema) (p : List String) : Prop where
  length : 2 ≤ p.length
  closed : p.head? = p.getLast?
  distinct : p.dropLast.Nodup
  models : ∀ a ∈ p.dropLast, a ∈ s.models.map (·.name)
  /-- Each model has a field with the next one, or with an array of it. -/
  steps : p.IsChain s.Refers

end Schema

namespace Layout

variable {s : Schema} {ms : List Model} {m : Model} {path p : List String} {known : Known}
  {name b : String}

/-! ### The way down -/

/-- The models `path` lead to `name` along references. -/
structure Trail (s : Schema) (path : List String) (name : String) : Prop where
  distinct : path.Nodup
  models : ∀ a ∈ path, a ∈ s.models.map (·.name)
  steps : (path ++ [name]).IsChain s.Refers

theorem trail_nil : Trail s [] name := ⟨List.nodup_nil, by simp, List.isChain_singleton name⟩

/-- One step down, from a model that is met for the first time. -/
theorem Trail.step (h : Trail s path name) (hname : name ∉ path) (hb : s.Refers name b) :
    Trail s (path ++ [name]) b := by
  have hmodel : name ∈ s.models.map (·.name) := by
    obtain ⟨m, hm, rfl, -⟩ := hb
    exact List.mem_map_of_mem hm
  refine ⟨?_, ?_, ?_⟩
  · rw [← List.concat_eq_append]
    exact List.Nodup.concat hname h.distinct
  · intro a ha
    rcases List.mem_append.1 ha with ha | ha
    · exact h.models a ha
    · rwa [List.mem_singleton.1 ha]
  · refine List.isChain_append.2 ⟨h.steps, List.isChain_singleton b, ?_⟩
    intro x hx y hy
    rw [List.getLast?_concat] at hx
    cases hx
    cases hy
    exact hb

/-- A model that is met again closes a cycle: the way behind the place where it was met first. -/
theorem Trail.isCycle (h : Trail s path name) (hname : name ∈ path) :
    s.IsCycle (path.dropWhile (· != name) ++ [name]) := by
  obtain ⟨front, back, rfl, hfront⟩ := List.eq_append_cons_of_mem hname
  have hdrop : (front ++ name :: back).dropWhile (· != name) = name :: back := by
    have hne : ∀ a ∈ front, (a != name) = true := by
      intro a ha
      exact bne_iff_ne.2 fun heq => hfront (heq ▸ ha)
    rw [List.dropWhile_append_of_pos hne, List.dropWhile_cons_of_neg (by simp)]
  have hback : (name :: back).Sublist (front ++ name :: back) := List.sublist_append_right _ _
  have hsteps := h.steps
  rw [List.append_assoc] at hsteps
  rw [hdrop]
  refine ⟨by simp, ?_, ?_, ?_, (List.isChain_append.1 hsteps).2.1⟩
  · rw [List.getLast?_concat]
    rfl
  · rw [List.dropLast_concat]
    exact hback.nodup h.distinct
  · rw [List.dropLast_concat]
    exact fun a ha => h.models a (hback.subset ha)

/-! ### Where a cycle is reported -/

theorem checkElements_ne_cycle {f : Field} {nested : Option WireSize} {t : TypeRef} :
    checkElements m f nested t ≠ .error (.cycle p) := by
  unfold checkElements
  split <;> simp

theorem fieldWidth_ne_cycle {f : Field} {nested : Option WireSize} :
    fieldWidth m f nested ≠ .error (.cycle p) := by
  have harray (t : TypeRef) (w : Width) :
      (do checkElements m f nested t; return (w, none) : Except LayoutFault (Width × Option Nat)) ≠
        .error (.cycle p) := by
    cases hc : checkElements m f nested t with
    | error e =>
      intro he
      cases he
      exact checkElements_ne_cycle hc
    | ok u => simp [bind, Except.bind, pure, Except.pure]
  unfold fieldWidth
  split
  · split
    · exact harray _ _
    · simp
  · split
    · simp
    · split <;> simp
    · exact harray _ _
    · split <;> simp

theorem add_ne_cycle {q : Progress} {f : Field} {isLast : Bool} {w : Width} :
    q.add m f isLast w ≠ .error (.cycle p) := by
  unfold Progress.add
  split
  · split <;> simp
  · simp
  · split <;> simp

/-- A cycle is not found in a field itself, but in a model that it needs. -/
theorem exists_needs_of_cycle {find : Finder} {q : Progress} {fs : List Field}
    (h : fieldPlaces find m known q fs = .error (.cycle p)) :
    ∃ f ∈ fs, ∃ b known', needs f = some b ∧ find known' b = .error (.cycle p) := by
  induction fs generalizing known q with
  | nil => cases h
  | cons f rest ih =>
    rw [fieldPlaces] at h
    split at h
    · next e hnested =>
      cases h
      unfold nestedSize at hnested
      split at hnested
      · cases hnested
      · next b hb =>
        split at hnested
        · next hfind =>
          cases hnested
          exact ⟨f, List.mem_cons_self, b, known, hb, hfind⟩
        · cases hnested
    · split at h
      · next hwidth =>
        cases h
        exact absurd hwidth fieldWidth_ne_cycle
      · split at h
        · next hadd =>
          cases h
          exact absurd hadd add_ne_cycle
        · split at h
          · next hrest =>
            cases h
            obtain ⟨g, hg, hfind⟩ := ih hrest
            exact ⟨g, List.mem_cons_of_mem f hg, hfind⟩
          · cases h

/-- A cycle is reported where a model is met again, or further down. -/
theorem modelLayout_eq_cycle (h : modelLayout ms path known name = .error (.cycle p)) :
    name ∈ path ∧ p = path.dropWhile (· != name) ++ [name] ∨
      name ∉ path ∧ ∃ m, lastNamed? ms name = some m ∧
        fieldPlaces (modelLayout (without ms name) (path ++ [name])) m known ⟨0, true⟩ m.fields =
          .error (.cycle p) := by
  rw [modelLayout] at h
  split at h
  · cases h
  · split at h
    · next hmem =>
      cases h
      exact .inl ⟨List.contains_iff_mem.1 hmem, rfl⟩
    · next hmem =>
      refine .inr ⟨fun hname => hmem (List.contains_iff_mem.2 hname), ?_⟩
      split at h
      · cases h
      · next m hm =>
        split at h
        · next hfields =>
          cases h
          exact ⟨m, hm, hfields⟩
        · cases h

/-- **What the descent reports is a cycle.** The induction is on the models that are left. -/
theorem modelLayout_isCycle (hms : ms.Sublist s.models) (ht : Trail s path name)
    (h : modelLayout ms path known name = .error (.cycle p)) : s.IsCycle p := by
  induction hlen : ms.length using Nat.strong_induction_on generalizing ms path known name with
  | _ len ih =>
    rcases modelLayout_eq_cycle h with ⟨hmem, rfl⟩ | ⟨hmem, m, hm, hfields⟩
    · exact ht.isCycle hmem
    · obtain ⟨f, hf, b, known', hb, hfind⟩ := exists_needs_of_cycle hfields
      have hname : m.name = name := by simpa using List.find?_some hm
      have hmodel : m ∈ s.models := hms.subset (List.mem_reverse.1 (List.mem_of_find?_eq_some hm))
      have href : s.Refers name b := ⟨m, hmodel, hname, f, hf, needs_eq_some.1 hb⟩
      exact ih _ (hlen ▸ length_without_lastNamed?_lt hm) (List.filter_sublist.trans hms)
        (ht.step hmem href) hfind rfl

theorem modelLayouts_isCycle {rest : List Model}
    (h : modelLayouts s.models known rest = .error (.cycle p)) : s.IsCycle p := by
  induction rest generalizing known with
  | nil => cases h
  | cons m rest ih =>
    rw [modelLayouts] at h
    split at h
    · next hm =>
      cases h
      exact modelLayout_isCycle (List.Sublist.refl _) trail_nil hm
    · split at h
      · next hrest =>
        cases h
        exact ih hrest
      · cases h

end Layout

namespace Schema

variable {s : Schema} {p : List String}

/-- **A reported cycle is a cycle** of the references between the models of the schema. Their names
need not be distinct. -/
theorem isCycle_of_layout (h : s.layout = .error (.cycle p)) : s.IsCycle p := by
  unfold layout at h
  split at h
  · next hlayouts =>
    cases h
    exact Layout.modelLayouts_isCycle hlayouts
  · cases h

/-- A model `A` in front of the cycle of `B` and `C`, through an array and a model with its length
in front, and a model `D` that has been found before the cycle is. -/
def cyclic : Schema :=
  ⟨"", [], [
    ⟨"A", [⟨"d", .model "D", ⟨none, none⟩, [], none, none, ⟨1, 1⟩⟩,
      ⟨"b", .model "B", ⟨none, none⟩, [], none, none, ⟨1, 1⟩⟩], [], none, none, .varying, ⟨1, 1⟩⟩,
    ⟨"B", [⟨"c", .array (.model "C"), ⟨none, none⟩, [], none, none, ⟨1, 1⟩⟩], [], none, none,
      .varying, ⟨1, 1⟩⟩,
    ⟨"C", [⟨"d", .model "D", ⟨none, none⟩, [], none, none, ⟨1, 1⟩⟩,
      ⟨"b", .model "B", ⟨none, some (.scalar .uint8)⟩, [], none, none, ⟨1, 1⟩⟩], [], none, none,
      .varying, ⟨1, 1⟩⟩,
    ⟨"D", [], [], none, none, .varying, ⟨1, 1⟩⟩], ⟨"", 0, none⟩⟩

theorem isCycle_of_layout_cyclic :
    cyclic.layout = .error (.cycle ["B", "C", "B"]) ∧ cyclic.IsCycle ["B", "C", "B"] := by
  have h : cyclic.layout = .error (.cycle ["B", "C", "B"]) := by decide +kernel
  exact ⟨h, isCycle_of_layout h⟩

end Schema

end WireSchema
