import WireSchema.Layout.Basic
import Mathlib.Order.WellFoundedSet

/-! # References between models

A model refers to the models that its fields hold, directly or as the elements of an array. Where
there is no cycle below a name (`Grounded`), a search that leaves out the models on the way down
finds the same as one that leaves out none (`descent_eq`): this is how the size and the message
fields of a model come to satisfy the plain recursive equation. -/

namespace WireSchema

namespace Schema

variable {s : Schema}

/-- The model `a` has a field with the model `b`, or with an array of it. -/
def Refers (s : Schema) (a b : String) : Prop :=
  ∃ m ∈ s.models, m.name = a ∧ ∃ f ∈ m.fields, f.type = .model b ∨ f.type = .array (.model b)

/-- No model holds itself, however deep. -/
def Acyclic (s : Schema) : Prop := ∀ a, ¬ Relation.TransGen s.Refers a a

/-- Every descent from the model `a` ends. -/
def Grounded (s : Schema) (a : String) : Prop := Acc (fun b a => s.Refers a b) a

theorem Grounded.of_refers {a b : String} (ha : s.Grounded a) (h : s.Refers a b) : s.Grounded b :=
  ha.inv h

theorem Grounded.not_transGen {a : String} (ha : s.Grounded a) :
    ¬ Relation.TransGen s.Refers a a := by
  have hacc : Acc (Relation.TransGen fun b a => s.Refers a b) a := ha.transGen
  intro h
  have h' : Relation.TransGen (fun b a => s.Refers a b) a a := Relation.transGen_swap.2 h
  clear h ha
  induction hacc with
  | intro a _ ih => exact ih a h' h'

/-- A name that no model refers from ends every descent. -/
theorem grounded_of_forall_ne {a : String} (h : ∀ m ∈ s.models, m.name ≠ a) : s.Grounded a :=
  Acc.intro a fun _ ⟨m, hm, hn, _⟩ => absurd hn (h m hm)

/-- Without a cycle every descent ends, because there are finitely many models. -/
theorem Acyclic.grounded (h : s.Acyclic) (a : String) : s.Grounded a := by
  have htrans : IsTrans String fun b a => Relation.TransGen s.Refers a b :=
    ⟨fun _ _ _ hab hbc => hbc.trans hab⟩
  have hirrefl : Std.Irrefl fun b a => Relation.TransGen s.Refers a b := ⟨h⟩
  have hstrict : IsStrictOrder String fun b a => Relation.TransGen s.Refers a b := ⟨⟩
  have hfin : {n | n ∈ s.models.map (·.name)}.Finite := List.finite_toSet _
  by_cases ha : a ∈ s.models.map (·.name)
  · refine (hfin.wellFoundedOn (r := fun b a => Relation.TransGen s.Refers a b)).induction ha ?_
    intro n _ ih
    refine Acc.intro n fun b hb => ?_
    by_cases hbm : b ∈ s.models.map (·.name)
    · exact ih b hbm (Relation.TransGen.single hb)
    · exact grounded_of_forall_ne fun m hm hn => hbm (List.mem_map.2 ⟨m, hm, hn⟩)
  · exact grounded_of_forall_ne fun m hm hn => ha (List.mem_map.2 ⟨m, hm, hn⟩)

theorem acyclic_of_grounded (h : ∀ m ∈ s.models, s.Grounded m.name) : s.Acyclic := by
  intro a ha
  obtain ⟨b, ⟨m, hm, rfl, -⟩, -⟩ := Relation.TransGen.head'_iff.1 ha
  exact (h m hm).not_transGen ha

end Schema

/-! ### Models by their names -/

namespace Layout

theorem find?_without {ms : List Model} {a b : String} (h : b ≠ a) :
    (without ms a).find? (·.name == b) = ms.find? (·.name == b) := by
  rw [without, List.find?_filter]
  congr 1
  funext m
  by_cases hm : m.name = b
  · simp [hm, h]
  · simp [hm]

end Layout

namespace Schema

variable {s : Schema}

theorem mem_of_model? {a : String} {m : Model} (h : s.model? a = some m) :
    m ∈ s.models ∧ m.name = a :=
  ⟨List.mem_of_find?_eq_some h, by simpa using List.find?_some h⟩

/-- In a list of models with different names, a name finds its model. -/
theorem find?_of_mem {ms : List Model} (hn : (ms.map (·.name)).Nodup) {m : Model} (hm : m ∈ ms) :
    ms.find? (·.name == m.name) = some m := by
  cases h : ms.find? (·.name == m.name) with
  | none => exact absurd (List.find?_eq_none.1 h m hm) (by simp)
  | some m' =>
    have hname : m'.name = m.name := by simpa using List.find?_some h
    rw [List.inj_on_of_nodup_map hn (List.mem_of_find?_eq_some h) hm hname]

theorem model?_of_mem (hn : (s.models.map (·.name)).Nodup) {m : Model} (hm : m ∈ s.models) :
    s.model? m.name = some m := find?_of_mem hn hm

theorem lastNamed?_eq_find? {ms : List Model} (hn : (ms.map (·.name)).Nodup) (a : String) :
    Layout.lastNamed? ms a = ms.find? (·.name == a) := by
  have hr : (ms.reverse.map (·.name)).Nodup := by rwa [List.map_reverse, List.nodup_reverse]
  cases h : ms.find? (·.name == a) with
  | none =>
    exact List.find?_eq_none.2 fun m hm => List.find?_eq_none.1 h m (List.mem_reverse.1 hm)
  | some m =>
    have hname : m.name = a := by simpa using List.find?_some h
    rw [← hname]
    exact find?_of_mem hr (List.mem_reverse.2 (List.mem_of_find?_eq_some h))

/-! ### Descents -/

section Descent

variable {α : Type} {F : List Model → String → α} {d : α} {step : (String → α) → Model → α}

/-- The models `ms` are as good as all models for a descent from `a`. -/
def Covers (s : Schema) (ms : List Model) (a : String) : Prop :=
  ∀ b, Relation.ReflTransGen s.Refers a b → ms.find? (·.name == b) = s.model? b

theorem Covers.without {ms : List Model} {a b : String} (ha : s.Grounded a) (h : s.Refers a b)
    (hc : s.Covers ms a) : s.Covers (Layout.without ms a) b := by
  intro c hbc
  have hca : c ≠ a := by
    rintro rfl
    exact ha.not_transGen (Relation.TransGen.head' h hbc)
  rw [Layout.find?_without hca]
  exact hc c (Relation.ReflTransGen.head h hbc)

/-- A descent below `a` finds the same among all models that it needs. -/
theorem descent_congr
    (hF : ∀ ms a, F ms a = (ms.find? (·.name == a)).elim d (step (F (Layout.without ms a))))
    (hstep : ∀ m ∈ s.models, ∀ g g', (∀ b, s.Refers m.name b → g b = g' b) → step g m = step g' m)
    {a : String} (ha : s.Grounded a) {ms ms' : List Model} (hc : s.Covers ms a)
    (hc' : s.Covers ms' a) : F ms a = F ms' a := by
  induction ha generalizing ms ms' with
  | intro a hacc ih =>
    have ha : s.Grounded a := Acc.intro a hacc
    rw [hF ms, hF ms', hc a .refl, hc' a .refl]
    cases hm : s.model? a with
    | none => rfl
    | some m =>
      obtain ⟨hmem, rfl⟩ := mem_of_model? hm
      -- further down neither descent misses the model itself, which is not met again
      exact hstep m hmem _ _ fun b hb => ih b hb (hc.without ha hb) (hc'.without ha hb)

/-- **A descent without a cycle is a plain recursion.** -/
theorem descent_eq
    (hF : ∀ ms a, F ms a = (ms.find? (·.name == a)).elim d (step (F (Layout.without ms a))))
    (hstep : ∀ m ∈ s.models, ∀ g g', (∀ b, s.Refers m.name b → g b = g' b) → step g m = step g' m)
    {m : Model} (hm : s.model? m.name = some m) (ha : s.Grounded m.name) :
    F s.models m.name = step (F s.models) m := by
  have hc : ∀ b, s.Covers s.models b := fun _ _ _ => rfl
  rw [hF]
  refine (congrArg (Option.elim · d _) hm).trans ?_
  refine hstep m (mem_of_model? hm).1 _ _ fun b hb => ?_
  exact descent_congr hF hstep (ha.of_refers hb) ((hc _).without ha hb) (hc b)

end Descent

end Schema

end WireSchema
