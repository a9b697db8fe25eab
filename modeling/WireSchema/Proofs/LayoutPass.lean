import WireSchema.Proofs.Sizing

/-! # The layout of one model

What the layout does with the fields of a model, given a way to find the sizes of the models in
them: a field has a width exactly if it can be laid out (`fieldWidth_eq_ok`), and one field more
keeps the sum of the widths in its bound (`add_progress`). So if the sizes that are found are right,
the layout of the fields is (`fieldPlaces_sound`), and fields that can be laid out are
(`fieldPlaces_complete`). -/

namespace WireSchema

variable {size : String → WireSize} {m : Model} {f : Field}

/-! ### One field -/

/-- The width of a field that can be laid out. -/
def Field.widthBy (size : String → WireSize) (f : Field) : Layout.Width :=
  if f.size.lengthPrefix.isSome then .prefixed
  else
    match f.width? size with
    | some n => .fixed n
    | none => .unbounded

namespace Layout

theorem checkElements_ok {t : TypeRef} (ht : f.type = .array t) :
    checkElements m f ((needs f).map size) t = .ok () ↔ t.IsElement size := by
  unfold checkElements elementSize TypeRef.IsElement needs
  rw [ht]
  cases t with
  | primitive p =>
    rcases p with k | _ | _
    · cases k <;> simp [Primitive.naturalSize, ScalarKind.width]
    · simp [Primitive.naturalSize]
    · simp [Primitive.naturalSize]
  | enum name => simp
  | model name =>
    cases h : size name with
    | varying => simp [WireSize.fixed?, h]
    | fixed n => cases n <;> simp [WireSize.fixed?, h]
  | array t => simp

/-- The check of the elements comes first, and decides. -/
theorem checkElements_bind {t : TypeRef} (ht : f.type = .array t) {w : Width × Option Nat}
    {r : Width × Option Nat} :
    (do checkElements m f ((needs f).map size) t; return w) = .ok r ↔
      t.IsElement size ∧ r = w := by
  rw [← checkElements_ok (m := m) ht]
  cases checkElements m f ((needs f).map size) t with
  | error e => simp [bind, Except.bind]
  | ok u => simp [bind, Except.bind, pure, Except.pure, eq_comm]

/-- **A field has a width exactly if it can be laid out.** -/
theorem fieldWidth_eq_ok {r : Width × Option Nat} :
    fieldWidth m f ((needs f).map size) = .ok r ↔
      f.Admissible size ∧ r = (f.widthBy size, f.notedSize? size) := by
  unfold fieldWidth Field.widthBy Field.notedSize? Field.width?
  rw [Field.admissible_iff]
  cases hp : f.size.lengthPrefix with
  | some p =>
    simp only [Option.isSome_some, if_true]
    cases ht : f.type with
    | array t => simp only [checkElements_bind ht]
    | _ => simp [eq_comm]
  | none =>
    simp only [Option.isSome_none, Bool.false_eq_true, if_false]
    cases ht : f.type with
    | array t => simp only [checkElements_bind ht]
    | enum name => simp [eq_comm]
    | model name =>
      simp only [needs, ht, Option.map_some, Option.bind_some]
      cases hn : size name with
      | varying => simp [WireSize.fixed?]
      | fixed n => simp [WireSize.fixed?, eq_comm]
    | primitive p =>
      cases h : f.size.fixed.or p.naturalSize with
      | none => simp [h, eq_comm]
      | some n => simp [h, eq_comm]

/-! ### The fields of a model -/

/-- What the fields in front come to. -/
def progress (size : String → WireSize) (fs : List Field) : Progress :=
  ⟨totalWidth size fs, allFixed size fs⟩

theorem progress_wireSize (h : ∀ f ∈ m.fields, f.Admissible size) :
    (progress size m.fields).wireSize = m.sizeBy size := by
  have hall : allFixed size m.fields = m.fields.all Field.isFixed := by
    rw [Bool.eq_iff_iff, allFixed, List.all_eq_true, List.all_eq_true]
    exact forall₂_congr fun f hf => by rw [(h f hf).isSome_width?]
  rw [Progress.wireSize, Model.sizeBy, progress, hall]

theorem totalWidth_append (fs gs : List Field) :
    totalWidth size (fs ++ gs) = totalWidth size fs + totalWidth size gs := by
  rw [totalWidth, List.filterMap_append, List.sum_append]
  rfl

theorem totalWidth_singleton (f : Field) :
    totalWidth size [f] = (f.width? size).getD 0 := by
  cases h : f.width? size <;> simp [totalWidth, h]

theorem totalWidth_cons (f : Field) (fs : List Field) :
    totalWidth size (f :: fs) = (f.width? size).getD 0 + totalWidth size fs := by
  rw [← List.singleton_append, totalWidth_append, totalWidth_singleton]

theorem allFixed_cons (f : Field) (fs : List Field) :
    allFixed size (f :: fs) = ((f.width? size).isSome && allFixed size fs) := List.all_cons

theorem allFixed_append_singleton (fs : List Field) (f : Field) :
    allFixed size (fs ++ [f]) = (allFixed size fs && (f.width? size).isSome) := by
  simp [allFixed]

/-- One more field: it must be the last if it runs to the end, and the size stays in its bound. -/
theorem add_progress {fs : List Field} {isLast : Bool} {p : Progress} (hf : f.Admissible size)
    (hfs : totalWidth size fs ≤ maxSize) :
    (progress size fs).add m f isLast (f.widthBy size) = .ok p ↔
      (f.isUnbounded = true → isLast = true) ∧ totalWidth size (fs ++ [f]) ≤ maxSize ∧
        p = progress size (fs ++ [f]) := by
  have hw := hf.isSome_width?
  unfold progress
  rw [totalWidth_append, totalWidth_singleton, allFixed_append_singleton, Field.widthBy]
  cases hp : f.size.lengthPrefix with
  | some q =>
    have hu : f.isUnbounded = false := by simp [Field.isUnbounded, hp]
    have hn : f.width? size = none := by simp [Field.width?, hp]
    simp [Progress.add, hu, hn, hfs, eq_comm]
  | none =>
    rw [Field.isFixed, hp] at hw
    cases hn : f.width? size with
    | none =>
      have hu : f.isUnbounded = true := by simpa [hn] using hw
      cases isLast <;> simp [Progress.add, hu, hfs, eq_comm]
    | some n =>
      have hu : f.isUnbounded = false := by simpa [hn] using hw
      by_cases hb : totalWidth size fs + n ≤ maxSize
      · simp [Progress.add, hu, hb, eq_comm]
      · simp [Progress.add, hu, hb]

/-- The fields `rest` behind `front` can be laid out. -/
structure Placeable (size : String → WireSize) (front rest : List Field) : Prop where
  admissible : ∀ f ∈ rest, f.Admissible size
  last : ∀ a f b, rest = a ++ f :: b → f.isUnbounded = true → b = []
  bounded : totalWidth size (front ++ rest) ≤ maxSize

theorem placeable_nil_iff : Placeable size [] m.fields ↔ m.Admissible size :=
  ⟨fun h => ⟨fun f hf => (h.admissible f hf).elements, fun f hf => (h.admissible f hf).nested,
      h.last, h.bounded⟩,
    fun h => ⟨fun _ hf => h.field hf, h.last, h.bounded⟩⟩

theorem placeable_cons_iff {front rest : List Field} :
    Placeable size front (f :: rest) ↔
      f.Admissible size ∧ (f.isUnbounded = true → rest = []) ∧
        totalWidth size (front ++ [f]) ≤ maxSize ∧ Placeable size (front ++ [f]) rest := by
  have happ : front ++ f :: rest = front ++ [f] ++ rest := by simp
  constructor
  · intro h
    have hb := h.bounded
    rw [happ] at hb
    refine ⟨h.admissible f List.mem_cons_self, h.last [] f rest rfl, ?_,
      fun g hg => h.admissible g (List.mem_cons_of_mem f hg), fun a g b hg => ?_, hb⟩
    · rw [totalWidth_append] at hb
      omega
    · exact h.last (f :: a) g b (by rw [hg, List.cons_append])
  · rintro ⟨hf, hl, -, hr⟩
    refine ⟨fun g hg => ?_, fun a g b hg hu => ?_, by rw [happ]; exact hr.bounded⟩
    · rcases List.mem_cons.1 hg with rfl | hg
      · exact hf
      · exact hr.admissible g hg
    · rcases a with _ | ⟨a, as⟩
      · cases hg
        exact hl hu
      · cases hg
        exact hr.last as g b rfl hu

/-- The layout of the fields `rest` behind `front`. -/
def layoutFrom (size : String → WireSize) (front rest : List Field) : ModelLayout :=
  ⟨(progress size (front ++ rest)).wireSize,
    rest.mapIdx fun i f => ⟨(progress size (front ++ rest.take i)).offset, f.notedSize? size⟩⟩

theorem layoutFrom_cons (front rest : List Field) :
    layoutFrom size front (f :: rest) =
      ⟨(layoutFrom size (front ++ [f]) rest).wireSize,
        ⟨(progress size front).offset, f.notedSize? size⟩ ::
          (layoutFrom size (front ++ [f]) rest).places⟩ := by
  simp [layoutFrom, List.mapIdx_cons]

section Finder

variable {find : Finder} {P : Known → Prop} {Q : String → Prop} {known known' : Known}

/-- The answers of a finder are right: it keeps `P` of what is known, and finds the size of a model
with `Q`. -/
def Sound (find : Finder) (size : String → WireSize) (P : Known → Prop) (Q : String → Prop) :
    Prop :=
  ∀ known name found known', P known → find known name = .ok (found, known') →
    P known' ∧ Q name ∧ found.wireSize = size name

theorem nestedSize_sound (hfind : Sound find size P Q) (hk : P known) {nested : Option WireSize}
    (h : nestedSize find known f = .ok (nested, known')) :
    P known' ∧ (∀ name, needs f = some name → Q name) ∧ nested = (needs f).map size := by
  unfold nestedSize at h
  cases hn : needs f with
  | none =>
    rw [hn] at h
    cases h
    exact ⟨hk, by simp, rfl⟩
  | some name =>
    rw [hn] at h
    simp only at h
    split at h
    · cases h
    · next found k hf =>
      cases h
      obtain ⟨hk', hq, hs⟩ := hfind _ _ _ _ hk hf
      exact ⟨hk', fun _ h => Option.some.inj h ▸ hq, by rw [hs, Option.map_some]⟩

theorem fieldPlaces_cons_eq_ok {p : Progress} {rest : List Field} {r : ModelLayout × Known} :
    fieldPlaces find m known p (f :: rest) = .ok r ↔
      ∃ nested known₁ width p' found known₂, nestedSize find known f = .ok (nested, known₁) ∧
        fieldWidth m f nested = .ok width ∧ p.add m f rest.isEmpty width.1 = .ok p' ∧
        fieldPlaces find m known₁ p' rest = .ok (found, known₂) ∧
        r = (⟨found.wireSize, ⟨p.offset, width.2⟩ :: found.places⟩, known₂) := by
  rw [fieldPlaces]
  constructor
  · intro h
    split at h
    · cases h
    · next nested known₁ h1 =>
      split at h
      · cases h
      · next width size h2 =>
        split at h
        · cases h
        · next p' h3 =>
          split at h
          · cases h
          · next found known₂ h4 =>
            cases h
            exact ⟨nested, known₁, (width, size), p', found, known₂, h1, h2, h3, h4, rfl⟩
  · rintro ⟨nested, known₁, ⟨width, size⟩, p', found, known₂, h1, h2, h3, h4, rfl⟩
    simp only [h1, h2, h3, h4]

/-- **What is found of the fields of a model is right.** -/
theorem fieldPlaces_sound (hfind : Sound find size P Q) {front rest : List Field}
    {found : ModelLayout} (hb : totalWidth size front ≤ maxSize) (hk : P known)
    (h : fieldPlaces find m known (progress size front) rest = .ok (found, known')) :
    P known' ∧ (∀ f ∈ rest, ∀ name, needs f = some name → Q name) ∧
      Placeable size front rest ∧ found = layoutFrom size front rest := by
  induction rest generalizing front known found with
  | nil =>
    cases h
    exact ⟨hk, by simp, ⟨by simp, by simp, by rwa [List.append_nil]⟩, by
      rw [layoutFrom, List.append_nil, List.mapIdx_nil]⟩
  | cons f rest ih =>
    obtain ⟨nested, known₁, width, p', found', known₂, h1, h2, h3, h4, h5⟩ :=
      fieldPlaces_cons_eq_ok.1 h
    cases h5
    obtain ⟨hk₁, hq, rfl⟩ := nestedSize_sound hfind hk h1
    obtain ⟨hf, rfl⟩ := fieldWidth_eq_ok.1 h2
    obtain ⟨hl, hb', rfl⟩ := (add_progress hf hb).1 h3
    obtain ⟨hk₂, hqs, hr, rfl⟩ := ih hb' hk₁ h4
    refine ⟨hk₂, fun g hg => ?_, placeable_cons_iff.2 ⟨hf, fun hu => ?_, hb', hr⟩,
      (layoutFrom_cons front rest).symm⟩
    · rcases List.mem_cons.1 hg with rfl | hg
      · exact hq
      · exact hqs g hg
    · exact List.isEmpty_iff.1 (hl hu)

/-- **Fields that can be laid out are laid out,** if the models in them are found. -/
theorem fieldPlaces_complete (hfind : Sound find size P Q) {front rest : List Field}
    (hrest : Placeable size front rest) (hb : totalWidth size front ≤ maxSize)
    (hfound : ∀ f ∈ rest, ∀ name, needs f = some name → ∀ known, P known →
      ∃ r, find known name = .ok r)
    (hk : P known) :
    ∃ r, fieldPlaces find m known (progress size front) rest = .ok r := by
  induction rest generalizing front known with
  | nil => exact ⟨_, rfl⟩
  | cons f rest ih =>
    obtain ⟨hf, hl, hb', hr⟩ := placeable_cons_iff.1 hrest
    have h1 : ∃ r, nestedSize find known f = .ok r := by
      unfold nestedSize
      cases hn : needs f with
      | none => exact ⟨_, rfl⟩
      | some name =>
        obtain ⟨⟨found, k⟩, hr⟩ := hfound f List.mem_cons_self name hn known hk
        exact ⟨(some found.wireSize, k), by simp only [hr]⟩
    obtain ⟨⟨nested, known₁⟩, h1⟩ := h1
    obtain ⟨hk₁, -, rfl⟩ := nestedSize_sound hfind hk h1
    have h3 : (progress size front).add m f rest.isEmpty (f.widthBy size) =
        .ok (progress size (front ++ [f])) :=
      (add_progress hf hb).2 ⟨fun hu => List.isEmpty_iff.2 (hl hu), hb', rfl⟩
    obtain ⟨⟨found, known₂⟩, h4⟩ :=
      ih hr hb' (fun g hg => hfound g (List.mem_cons_of_mem f hg)) hk₁
    exact ⟨_, fieldPlaces_cons_eq_ok.2 ⟨_, _, _, _, _, _, h1, fieldWidth_eq_ok.2 ⟨hf, rfl⟩, h3, h4,
      rfl⟩⟩

end Finder

end Layout

end WireSchema
