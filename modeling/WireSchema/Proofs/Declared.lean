import WireSchema.Compile.Parse
import Mathlib.Tactic.ByContra
import Mathlib.Tactic.SplitIfs

/-! # Declared fields

What the reader of schema texts makes sure of a field: its decorators may stand before it, and its
size is what they and its type say (`Declared`). From the rules for decorators it follows which
sizes and length prefixes a field can have (`Sized`). -/

namespace WireSchema

/-! ### Decorators that pass -/

namespace Decorator

variable {all before ds : List Decorator} {target : Target}

theorem firstFault?_eq_none : firstFault? all target before ds = none ↔
    ∀ front d back, ds = front ++ d :: back → fault? all (before ++ front) target d = none := by
  induction ds generalizing before with
  | nil => simp [firstFault?]
  | cons d ds ih =>
    rw [firstFault?]
    constructor
    · intro h front d' back hd
      split at h
      · cases h
      · next hfault =>
        cases front with
        | nil =>
          cases hd
          rwa [List.append_nil]
        | cons c front =>
          cases hd
          have := ih.1 h front d' back rfl
          rwa [List.append_assoc, List.singleton_append] at this
    · intro h
      have hfault := h [] d ds rfl
      rw [List.append_nil] at hfault
      rw [hfault]
      refine ih.2 fun front d' back hd => ?_
      rw [List.append_assoc, List.singleton_append]
      exact h (d :: front) d' back (by rw [hd, List.cons_append])

/-- A known decorator in a list that passes has one argument, of the right form. -/
theorem args_of_check (h : check ds target = none) {d : Decorator} (hd : d ∈ ds)
    {known : KnownDecorator} (hk : KnownDecorator.ofName? d.name = some known) :
    ∃ arg, d.args = [arg] ∧ known.argumentFault? ds target arg = none := by
  obtain ⟨front, back, rfl⟩ := List.append_of_mem hd
  have hfault := firstFault?_eq_none.1 h front d back rfl
  rw [fault?, hk] at hfault
  simp only at hfault
  split_ifs at hfault
  split at hfault
  · next arg harg => exact ⟨arg, harg, hfault⟩
  · cases hfault

theorem args_of_find? (h : check ds target = none) {known : KnownDecorator} {d : Decorator}
    (hd : find? ds known.name = some d) :
    ∃ arg, d.args = [arg] ∧ known.argumentFault? ds target arg = none := by
  have hname : d.name = known.name := by simpa using List.find?_some hd
  have hk : KnownDecorator.ofName? d.name = some known := by
    rw [hname]
    cases known <;> decide
  exact args_of_check h (List.mem_of_find?_eq_some hd) hk

theorem argumentFault?_of_check (h : check ds target = none) {known : KnownDecorator}
    {arg : Argument} (ha : argument? ds known.name = some arg) :
    known.argumentFault? ds target arg = none := by
  obtain ⟨d, hd, harg⟩ := Option.bind_eq_some_iff.1 ha
  obtain ⟨arg', hargs, hfault⟩ := args_of_find? h hd
  rw [hargs, List.head?_cons] at harg
  cases harg
  exact hfault

end Decorator

/-! ### Sizes -/

/-- A field as it is declared: its decorators may stand before it, and they and its type give its
size. -/
structure Field.Declared (f : Field) : Prop where
  type : ∃ name, f.type = TypeRef.ofName name ∨ f.type = .array (TypeRef.ofName name)
  decorators : Decorator.check f.decorators (.field f.type) = none
  size : f.size = Parse.fieldSize f.decorators f.type

/-- The sizes and length prefixes that a field can have. -/
structure Field.Sized (f : Field) : Prop where
  /-- A scalar has its own width and no length in front. -/
  scalar : ∀ k, f.type = .primitive (.scalar k) →
    f.size.fixed = some k.width ∧ f.size.lengthPrefix = none
  /-- A text or a byte string does not have the size 0. -/
  positive : ∀ p n, f.type = .primitive p → f.size.fixed = some n → 1 ≤ n
  /-- A length stands in front as one of the four unsigned scalars. -/
  lengths : ∀ p, f.size.lengthPrefix = some p → p.isLengthPrefix = true
  /-- There are no arrays of arrays. -/
  flat : ∀ t, f.type ≠ .array (.array t)

variable {f : Field}

theorem TypeRef.ofName_ne_array (name : String) (t : TypeRef) : TypeRef.ofName name ≠ .array t := by
  unfold TypeRef.ofName
  split
  · exact TypeRef.noConfusion
  · exact TypeRef.noConfusion

namespace Field.Declared

/-- A size argument is positive, and stands before a text or a byte string. -/
theorem size_argument (h : f.Declared) {arg : Argument}
    (ha : Decorator.argument? f.decorators "size" = some arg) :
    KnownDecorator.isPositive arg = true ∧ KnownDecorator.takesSize (.field f.type) = true := by
  have hfault : KnownDecorator.size.argumentFault? f.decorators (.field f.type) arg = none :=
    Decorator.argumentFault?_of_check h.decorators ha
  rw [KnownDecorator.argumentFault?] at hfault
  split_ifs at hfault with h1 h2
  simp only [Bool.not_eq_true', Bool.not_eq_false] at h1 h2
  exact ⟨h1, h2⟩

/-- A length argument names an unsigned scalar, and does not stand before a scalar. -/
theorem lengthPrefix_argument (h : f.Declared) {arg : Argument}
    (ha : Decorator.argument? f.decorators "length_prefix" = some arg) :
    KnownDecorator.namesLengthPrefix arg = true ∧
      KnownDecorator.takesPrefix (.field f.type) = true := by
  have hfault :
      KnownDecorator.lengthPrefix.argumentFault? f.decorators (.field f.type) arg = none :=
    Decorator.argumentFault?_of_check h.decorators ha
  rw [KnownDecorator.argumentFault?] at hfault
  split_ifs at hfault with h1 h2
  simp only [Bool.not_eq_true', Bool.not_eq_false] at h1 h2
  exact ⟨h1, h2⟩

theorem sized (h : f.Declared) : f.Sized where
  scalar k ht := by
    have hsize : Decorator.argument? f.decorators "size" = none := by
      by_contra hne
      obtain ⟨arg, ha⟩ := Option.ne_none_iff_exists'.1 hne
      have := (h.size_argument ha).2
      rw [ht] at this
      cases this
    have hpre : Decorator.argument? f.decorators "length_prefix" = none := by
      by_contra hne
      obtain ⟨arg, ha⟩ := Option.ne_none_iff_exists'.1 hne
      have := (h.lengthPrefix_argument ha).2
      rw [ht] at this
      cases this
    rw [h.size, Parse.fieldSize, hsize, hpre, ht]
    exact ⟨rfl, rfl⟩
  positive p n ht hn := by
    rw [h.size, Parse.fieldSize, Option.or_eq_some_iff] at hn
    rcases hn with hn | ⟨-, hn⟩
    · obtain ⟨arg, ha, hi⟩ := Option.bind_eq_some_iff.1 hn
      simpa [KnownDecorator.isPositive, hi] using (h.size_argument ha).1
    · rw [ht] at hn
      rcases p with k | _ | _
      · cases hn
        cases k <;> decide
      · cases hn
      · cases hn
  lengths p hp := by
    rw [h.size] at hp
    obtain ⟨arg, ha, hp⟩ := Option.bind_eq_some_iff.1 hp
    simpa [KnownDecorator.namesLengthPrefix, hp] using (h.lengthPrefix_argument ha).1
  flat t ht := by
    obtain ⟨name, hn | hn⟩ := h.type
    · exact TypeRef.ofName_ne_array name _ (hn.symm.trans ht)
    · exact TypeRef.ofName_ne_array name t (TypeRef.array.inj (hn.symm.trans ht))

end Field.Declared

/-! ### What is read is declared -/

namespace Parse

variable {ts rest : Tokens}

theorem check_eq_ok {ds : List Decorator} {target : Target} {u : Unit}
    (h : check ds target = .ok u) : Decorator.check ds target = none := by
  unfold check at h
  split at h
  · cases h
  · next hc => exact hc

theorem typeRef_eq_ok {t : TypeRef} (h : typeRef ts = .ok (t, rest)) :
    ∃ name, t = TypeRef.ofName name ∨ t = .array (TypeRef.ofName name) := by
  unfold typeRef at h
  split at h
  · cases h
  · next name left _ =>
    split_ifs at h
    · split at h
      · cases h
      · cases h
        exact ⟨name.text, Or.inr rfl⟩
    · cases h
      exact ⟨name.text, Or.inl rfl⟩

theorem declared_of_field {p : Preamble} (h : field p ts = .ok (f, rest)) : f.Declared := by
  unfold field at h
  split at h
  · cases h
  split at h
  · cases h
  split at h
  · cases h
  split at h
  · cases h
  next ht =>
  split at h
  · cases h
  split at h
  · cases h
  next hc =>
  cases h
  exact ⟨typeRef_eq_ok ht, check_eq_ok hc, rfl⟩

theorem declared_of_fields {fs : List Field} (h : fields ts = .ok (fs, rest)) :
    ∀ f ∈ fs, f.Declared := by
  fun_induction fields ts generalizing fs rest with
  | case1 => cases h; simp
  | case2 => cases h
  | case3 => cases h; simp
  | case4 => cases h
  | case5 => cases h
  | case6 ts _ p left _ _ f left' hf fs' left'' hfs ih =>
    cases h
    exact List.forall_mem_cons.2 ⟨declared_of_field hf, ih hfs⟩

theorem declared_of_modelDecl {p : Preamble} {m : Model} (h : modelDecl p ts = .ok (m, rest)) :
    ∀ f ∈ m.fields, f.Declared := by
  obtain ⟨⟨_, ts1⟩, -, h⟩ := bind_ok h
  obtain ⟨⟨name, ts2⟩, -, h⟩ := bind_ok h
  obtain ⟨⟨_, ts3⟩, -, h⟩ := bind_ok h
  obtain ⟨⟨fs, ts4⟩, hfs, h⟩ := bind_ok h
  cases h
  exact declared_of_fields hfs

theorem modelDecl_of_declaration {p : Preamble} {m : Model}
    (h : declaration p ts = .ok (some (.model m), rest)) :
    check p.decorators .model = .ok () ∧ modelDecl p ts = .ok (m, rest) := by
  unfold declaration at h
  split at h
  · split at h <;> cases h
  · split at h <;> cases h
  · split at h
    · cases h
    · cases h
    · next hc hm =>
      cases h
      exact ⟨hc, hm⟩
  · cases h

theorem declared_of_declaration {p : Preamble} {m : Model}
    (h : declaration p ts = .ok (some (.model m), rest)) : ∀ f ∈ m.fields, f.Declared :=
  declared_of_modelDecl (modelDecl_of_declaration h).2

theorem declared_of_declarations {doc : Option String} {ds : List Declaration}
    (h : declarations doc ts = .ok ds) {m : Model} (hm : Declaration.model m ∈ ds) :
    ∀ f ∈ m.fields, f.Declared := by
  fun_induction declarations doc ts generalizing ds with
  | case1 => cases h
  | case2 => cases h; simp at hm
  | case3 => cases h
  | case4 _ _ _ _ _ _ _ _ ih => exact ih h hm
  | case5 => cases h
  | case6 _ _ _ _ _ _ d _ hd _ hds ih =>
    cases h
    rcases List.mem_cons.1 hm with rfl | hm
    · exact declared_of_declaration hd
    · exact ih hds hm

end Parse

namespace Schema

theorem declared_of_read {text sourceFile : String} {parsedAt : Nat} {s : Schema}
    (h : read text sourceFile parsedAt = .ok s) : ∀ m ∈ s.models, ∀ f ∈ m.fields, f.Declared := by
  intro m hm
  unfold read at h
  split at h
  · cases h
  split at h
  · cases h
  next ts _ _ hs =>
  cases h
  unfold ofTokens at hs
  split at hs
  · cases hs
  next ds hds =>
  cases hs
  obtain ⟨d, hd, hdm⟩ := List.mem_filterMap.1 hm
  split at hdm
  · cases hdm
    exact Parse.declared_of_declarations hds hd
  · cases hdm

end Schema

end WireSchema
