import WireSchema.Proofs.Reference
import WireSchema.Schema.Verify

/-! # Verified schemas

What each step of the verification checks, as a statement about the declarations. The main
statement is `verify_eq_none`: a schema is accepted exactly if its declarations, fields and emitted
names pass, and all that changes is that each type name is marked as one of an enum or of a
model. -/

namespace WireSchema

/-! ### Marked references -/

/-- All names in a type are names of enums or models. -/
def TypeRef.Defined (s : Schema) : TypeRef → Prop
  | .primitive _ => True
  | .enum name | .model name => name ∈ s.enums.map (·.name) ∨ name ∈ s.models.map (·.name)
  | .array element => element.Defined s

/-- A type whose name is marked as one of an enum if there is such an enum. -/
def TypeRef.marked (s : Schema) : TypeRef → TypeRef
  | .primitive p => .primitive p
  | .enum name | .model name =>
    if name ∈ s.enums.map (·.name) then .enum name else .model name
  | .array element => .array (element.marked s)

theorem TypeRef.marked_eq_primitive {s : Schema} {t : TypeRef} {p : Primitive} :
    t.marked s = .primitive p ↔ t = .primitive p := by
  cases t with
  | primitive q => rfl
  | array t => simp [marked]
  | enum n => rw [marked]; split_ifs <;> simp
  | model n => rw [marked]; split_ifs <;> simp

theorem TypeRef.marked_eq_array {s : Schema} {t u : TypeRef} :
    t.marked s = .array u ↔ ∃ v, t = .array v ∧ v.marked s = u := by
  cases t with
  | primitive q => simp [marked]
  | array t => simp [marked]
  | enum n => rw [marked]; split_ifs <;> simp
  | model n => rw [marked]; split_ifs <;> simp

/-- All names in a type are marked as what they are. -/
def TypeRef.Resolved (s : Schema) : TypeRef → Prop
  | .primitive _ => True
  | .enum name => name ∈ s.enums.map (·.name)
  | .model name => name ∈ s.models.map (·.name)
  | .array element => element.Resolved s

/-- A field with its type marked. -/
def Field.marked (s : Schema) (f : Field) : Field := { f with type := f.type.marked s }

/-- A model with the types of its fields marked. -/
def Model.marked (s : Schema) (m : Model) : Model :=
  { m with fields := m.fields.map (Field.marked s) }

/-- A schema with the types of all fields marked. -/
def Schema.marked (s : Schema) : Schema := { s with models := s.models.map (Model.marked s) }

/-- The fields of a model differ in name, their types are defined, and no enum has a length in
front. -/
structure Model.Checked (s : Schema) (m : Model) : Prop where
  names : (m.fields.map (·.name)).Nodup
  types : ∀ f ∈ m.fields, f.type.Defined s
  enums : ∀ f ∈ m.fields, Verify.prefixesEnum (f.marked s) = false

variable {s s' : Schema}

theorem Schema.map_name_marked : s.marked.models.map (·.name) = s.models.map (·.name) := by
  simp [Schema.marked, Model.marked, Function.comp_def]

theorem TypeRef.Defined.resolved {t : TypeRef} (h : t.Defined s) :
    (t.marked s).Resolved s.marked := by
  have name : ∀ name, name ∈ s.enums.map (·.name) ∨ name ∈ s.models.map (·.name) →
      TypeRef.Resolved s.marked
        (if name ∈ s.enums.map (·.name) then .enum name else .model name) := by
    intro name h
    split_ifs with he
    · exact he
    · rw [TypeRef.Resolved, Schema.map_name_marked]
      exact h.resolve_left he
  induction t with
  | primitive p => trivial
  | enum n => exact name n h
  | model n => exact name n h
  | array t ih => exact ih h

namespace Verify

/-! ### Names that are new -/

section Fresh

variable {α : Type} {a : α} {seen l : List α}

/-- The items of `l` differ from each other and from those seen before. -/
def Fresh (seen l : List α) : Prop := l.Nodup ∧ ∀ x ∈ l, x ∉ seen

@[simp] theorem fresh_nil : Fresh seen [] := ⟨List.nodup_nil, by simp⟩

@[simp] theorem fresh_nil_left : Fresh [] l ↔ l.Nodup := by simp [Fresh]

theorem fresh_cons : Fresh seen (a :: l) ↔ a ∉ seen ∧ Fresh (a :: seen) l := by
  simp only [Fresh, List.nodup_cons, List.mem_cons, forall_eq_or_imp, not_or]
  constructor
  · rintro ⟨⟨ha, hl⟩, has, hseen⟩
    exact ⟨has, hl, fun x hx => ⟨fun h => ha (h ▸ hx), hseen x hx⟩⟩
  · rintro ⟨has, hl, h⟩
    exact ⟨⟨fun ha => (h a ha).1 rfl, hl⟩, has, fun x hx => (h x hx).2⟩

end Fresh

/-- A name that a declared type can have. -/
structure IsFree (name : String) : Prop where
  primitive : Primitive.ofName? name = none
  support : name ∉ Name.supportNames
  reserved : Name.isReservedType name = false

theorem typeNames_eq_none {seen : List String} {names : List (String × Nat)} :
    typeNames seen names = none ↔ Fresh seen (names.map (·.1)) ∧ ∀ n ∈ names, IsFree n.1 := by
  induction names generalizing seen with
  | nil => simp [typeNames]
  | cons n rest ih =>
    obtain ⟨name, line⟩ := n
    rw [typeNames, List.map_cons, fresh_cons, List.forall_mem_cons]
    split_ifs with h1 h2
    · simp only [Bool.or_eq_true, List.contains_eq_mem, decide_eq_true_eq] at h1
      rcases h1 with h1 | h1
      · simp [h1]
      · simp only [false_iff]
        rintro ⟨-, hfree, -⟩
        simp [hfree.primitive] at h1
    · simp only [Bool.or_eq_true, List.contains_eq_mem, decide_eq_true_eq] at h2
      simp only [false_iff]
      rintro ⟨-, hfree, -⟩
      rcases h2 with h2 | h2
      · exact hfree.support h2
      · simp [hfree.reserved] at h2
    · simp only [Bool.or_eq_true, List.contains_eq_mem, decide_eq_true_eq, not_or,
        Bool.not_eq_true, Option.isSome_eq_false_iff, Option.isNone_iff_eq_none] at h1 h2
      have hfree : IsFree name := ⟨h1.2, h2.1, h2.2⟩
      rw [ih]
      tauto

theorem members_eq_none {owner : String} {seen ms : List Member} :
    members owner seen ms = none ↔ Fresh (seen.map (·.name)) (ms.map (·.name)) ∧
      Fresh (seen.map (·.value)) (ms.map (·.value)) := by
  induction ms generalizing seen with
  | nil => simp [members]
  | cons m rest ih =>
    rw [members, List.map_cons, fresh_cons, List.map_cons, fresh_cons]
    have hname : (seen.any (·.name == m.name) = true) = (m.name ∈ seen.map (·.name)) := by simp
    simp only [hname]
    split_ifs with h
    · simp [h]
    · cases hv : seen.find? (·.value == m.value) with
      | some previous =>
        have hp : previous.value = m.value := by simpa using List.find?_some hv
        have hm : m.value ∈ seen.map (·.value) :=
          List.mem_map.2 ⟨previous, List.mem_of_find?_eq_some hv, hp⟩
        simp [hm]
      | none =>
        have hm : m.value ∉ seen.map (·.value) := by
          rintro hm
          obtain ⟨x, hx, he⟩ := List.mem_map.1 hm
          simpa [he] using List.find?_eq_none.1 hv x hx
        simp only [ih, List.map_cons]
        tauto

/-! ### References and fields -/

theorem definition?_eq_some {name : String} {t : TypeRef} :
    definition? s name = some t ↔
      (name ∈ s.enums.map (·.name) ∨ name ∈ s.models.map (·.name)) ∧
        t = if name ∈ s.enums.map (·.name) then .enum name else .model name := by
  have he : (s.enums.any (·.name == name) = true) = (name ∈ s.enums.map (·.name)) := by simp
  have hm : (s.models.any (·.name == name) = true) = (name ∈ s.models.map (·.name)) := by simp
  simp only [definition?, he, hm]
  split_ifs with h1 h2
  · simp only [h1, Option.some_inj, eq_comm, true_or, true_and]
  · simp only [h1, h2, Option.some_inj, eq_comm, or_true, true_and]
  · simp only [h1, h2, or_false, false_and]

theorem resolve_eq_ok {t t' : TypeRef} :
    resolve s t = .ok t' ↔ t.Defined s ∧ t' = t.marked s := by
  induction t generalizing t' with
  | primitive p => simp [resolve, TypeRef.Defined, TypeRef.marked, eq_comm]
  | enum n =>
    rw [TypeRef.Defined, TypeRef.marked, ← definition?_eq_some, resolve]
    cases definition? s n <;> simp
  | model n =>
    rw [TypeRef.Defined, TypeRef.marked, ← definition?_eq_some, resolve]
    cases definition? s n <;> simp
  | array t ih =>
    rw [TypeRef.Defined, TypeRef.marked, resolve]
    cases h : resolve s t with
    | ok u =>
      obtain ⟨hd, rfl⟩ := ih.1 h
      simp [hd, eq_comm]
    | error n =>
      have hd : ¬ t.Defined s := fun hd => by simp [ih.2 ⟨hd, rfl⟩] at h
      simp [hd]

/-- A field that passes is marked, and the others follow. -/
theorem fields_cons {owner : String} {seen : List String} {f : Field} {rest : List Field}
    (hseen : f.name ∉ seen) (hd : f.type.Defined s) (hp : prefixesEnum (f.marked s) = false) :
    fields s owner seen (f :: rest) =
      (f.marked s :: (fields s owner (f.name :: seen) rest).1,
        (fields s owner (f.name :: seen) rest).2) := by
  rw [fields, if_neg (by simpa using hseen), resolve_eq_ok.2 ⟨hd, rfl⟩]
  exact if_neg (by rw [← Field.marked, hp]; exact Bool.false_ne_true)

/-- A field that does not pass is a fault. -/
theorem fields_cons_ne_none {owner : String} {seen : List String} {f : Field} {rest : List Field}
    (h : ¬ (f.name ∉ seen ∧ f.type.Defined s ∧ prefixesEnum (f.marked s) = false)) :
    (fields s owner seen (f :: rest)).2 ≠ none := by
  rw [fields]
  by_cases hseen : f.name ∈ seen
  · simp [hseen]
  rw [if_neg (by simpa using hseen)]
  cases ht : resolve s f.type with
  | error n => simp
  | ok t =>
    obtain ⟨hd, rfl⟩ := resolve_eq_ok.1 ht
    have hp : prefixesEnum (f.marked s) = true := by
      by_contra hp
      exact h ⟨hseen, hd, by simpa using hp⟩
    change (if prefixesEnum (f.marked s) = true then _ else _ : List Field × _).2 ≠ none
    rw [if_pos hp]
    exact Option.some_ne_none _

/-- The fields that pass, with their types marked. -/
theorem fields_eq_none {owner : String} {seen : List String} {fs gs : List Field} :
    fields s owner seen fs = (gs, none) ↔
      Fresh seen (fs.map (·.name)) ∧ (∀ f ∈ fs, f.type.Defined s) ∧
        (∀ f ∈ fs, prefixesEnum (f.marked s) = false) ∧ gs = fs.map (Field.marked s) := by
  induction fs generalizing seen gs with
  | nil => simp [fields]
  | cons f rest ih =>
    rw [List.map_cons, fresh_cons, List.forall_mem_cons, List.forall_mem_cons]
    by_cases h : f.name ∉ seen ∧ f.type.Defined s ∧ prefixesEnum (f.marked s) = false
    · obtain ⟨hseen, hd, hp⟩ := h
      rw [fields_cons hseen hd hp]
      constructor
      · intro h
        obtain ⟨rfl, hnone⟩ := Prod.ext_iff.1 h
        obtain ⟨hf, hds, hps, hgs⟩ := ih.1 (Prod.ext rfl hnone)
        exact ⟨⟨hseen, hf⟩, ⟨hd, hds⟩, ⟨hp, hps⟩, congrArg (f.marked s :: ·) hgs⟩
      · rintro ⟨⟨-, hf⟩, ⟨-, hds⟩, ⟨-, hps⟩, rfl⟩
        rw [ih.2 ⟨hf, hds, hps, rfl⟩, List.map_cons]
    · constructor
      · intro hfields
        exact absurd (congrArg Prod.snd hfields) (fields_cons_ne_none h)
      · rintro ⟨⟨hseen, -⟩, ⟨hd, -⟩, ⟨hp, -⟩, -⟩
        exact absurd ⟨hseen, hd, hp⟩ h

theorem models_eq_none {ms ms' : List Model} :
    models s ms = (ms', none) ↔ (∀ m ∈ ms, m.Checked s) ∧ ms' = ms.map (Model.marked s) := by
  induction ms generalizing ms' with
  | nil => simp [models]
  | cons m rest ih =>
    have hm : ∀ gs, fields s m.name [] m.fields = (gs, none) ↔
        m.Checked s ∧ gs = m.fields.map (Field.marked s) := by
      intro gs
      rw [fields_eq_none, fresh_nil_left]
      exact ⟨fun ⟨h1, h2, h3, h4⟩ => ⟨⟨h1, h2, h3⟩, h4⟩, fun ⟨⟨h1, h2, h3⟩, h4⟩ => ⟨h1, h2, h3, h4⟩⟩
    rw [models, List.forall_mem_cons, List.map_cons]
    constructor
    · intro h
      split at h
      · cases h
      · next gs hf =>
        obtain ⟨hc, rfl⟩ := (hm gs).1 hf
        cases hr : models s rest with
        | mk rest' fault =>
          rw [hr] at h
          cases h
          obtain ⟨hrest, rfl⟩ := ih.1 hr
          exact ⟨⟨hc, hrest⟩, rfl⟩
    · rintro ⟨⟨hc, hrest⟩, rfl⟩
      rw [(hm _).2 ⟨hc, rfl⟩, ih.2 ⟨hrest, rfl⟩]
      rfl

end Verify

namespace Schema

/-- **A schema is accepted** if its declarations, fields and emitted names pass, and then only the
types of its fields are marked. -/
theorem verify_eq_none :
    s.verify = (s', none) ↔ Verify.declarations s = none ∧ (∀ m ∈ s.models, m.Checked s) ∧
      Verify.generatedNames s.marked = none ∧ s' = s.marked := by
  unfold verify
  cases hd : Verify.declarations s with
  | some fault => simp
  | none =>
    cases hm : Verify.models s s.models with
    | mk ms fault =>
      cases fault with
      | some fault =>
        have hc : ¬ ∀ m ∈ s.models, m.Checked s := fun hc => by
          simp [Verify.models_eq_none.2 ⟨hc, rfl⟩] at hm
        simp [hc]
      | none =>
        obtain ⟨hc, rfl⟩ := Verify.models_eq_none.1 hm
        simp only [Prod.mk.injEq, true_and]
        exact ⟨fun ⟨h1, h2⟩ => ⟨hc, h2, h1.symm⟩, fun ⟨_, h2, h3⟩ => ⟨h3.symm, h2⟩⟩

/-- Names are distinct and references are marked as what they are: what later steps need of a
verified schema. -/
structure Resolved (s : Schema) : Prop where
  enumNames : (s.enums.map (·.name)).Nodup
  modelNames : (s.models.map (·.name)).Nodup
  values : ∀ e ∈ s.enums, (e.members.map (·.value)).Nodup
  types : ∀ m ∈ s.models, ∀ f ∈ m.fields, f.type.Resolved s

theorem resolved_of_verify (h : s.verify = (s', none)) : s'.Resolved := by
  obtain ⟨hd, hc, -, rfl⟩ := verify_eq_none.1 h
  rw [Verify.declarations, Option.or_eq_none_iff, Option.or_eq_none_iff] at hd
  obtain ⟨hnames, hmembers, -⟩ := hd
  have hnodup := (Verify.typeNames_eq_none.1 hnames).1
  rw [Verify.fresh_nil_left, Verify.declaredNames, List.map_append, List.map_map, List.map_map,
    List.nodup_append] at hnodup
  refine ⟨hnodup.1, ?_, fun e he => ?_, ?_⟩
  · rw [map_name_marked]
    exact hnodup.2.1
  · have hm := List.findSome?_eq_none_iff.1 hmembers e he
    exact Verify.fresh_nil_left.1 (Verify.members_eq_none.1 hm).2
  · intro m' hm' f' hf'
    obtain ⟨m, hm, rfl⟩ := List.mem_map.1 hm'
    obtain ⟨f, hf, rfl⟩ := List.mem_map.1 hf'
    exact ((hc m hm).types f hf).resolved

/-- Models refer to models of the schema. -/
theorem Resolved.mem_of_refers (h : s.Resolved) {a b : String} (hab : s.Refers a b) :
    b ∈ s.models.map (·.name) := by
  obtain ⟨m, hm, -, f, hf, ht⟩ := hab
  have hr := h.types m hm f hf
  rcases ht with ht | ht
  · rwa [ht] at hr
  · rwa [ht] at hr

end Schema

end WireSchema
