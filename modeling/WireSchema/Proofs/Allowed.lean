import WireSchema.Proofs.Declared
import WireSchema.Proofs.WholeNumber
import Mathlib.Data.List.Nodup

/-! # The list of allowed decorators

`Decorator.Allowed` lists the decorators that may stand before a target: one case for each of the
four names, with its target and its argument. A decorator breaks a rule if one of its name stands
before it or if it is not allowed (`Breaks`). The check of a list passes exactly if its names are
different and all its decorators are allowed, in whatever order, and otherwise its error is at the
first decorator that breaks a rule (`Parse.check_allowed`). -/

namespace WireSchema

namespace Decorator

/-- **The decorators that may stand before a target,** in the list `all`. -/
inductive Allowed (all : List Decorator) : Target → Decorator → Prop
  | commandId {arg : Argument} {n : Nat} {position : Position} (hn : arg.IsWhole n)
    (hbyte : n ≤ 255) : Allowed all .model ⟨"command_id", [arg], position⟩
  | value {arg : Argument} {n : Nat} {position : Position} (hn : arg.IsWhole n)
    (hbyte : n ≤ 255) : Allowed all .enumMember ⟨"value", [arg], position⟩
  | size {arg : Argument} {n : Nat} {position : Position} {type : Primitive}
    (htype : type = .string ∨ type = .bytes) (hn : arg.IsWhole n) (hpos : 1 ≤ n)
    (hmax : n ≤ 2 ^ 64) (hall : ∀ d ∈ all, d.name ≠ "length_prefix") :
    Allowed all (.field (.primitive type)) ⟨"size", [arg], position⟩
  | lengthPrefix {text : String} {position : Position} {type : TypeRef}
    (htext : text ∈ ["uint8", "uint16", "uint32", "uint64"])
    (htype : ∀ kind, type ≠ .primitive (.scalar kind)) :
    Allowed all (.field type) ⟨"length_prefix", [.text text], position⟩

/-- A decorator of the list `all` that stands behind `before` breaks a rule: its name has been used,
or it is not allowed. -/
def Breaks (all : List Decorator) (target : Target) (before : List Decorator) (d : Decorator) :
    Prop :=
  d.name ∈ before.map name ∨ ¬ Allowed all target d

variable {all before ds : List Decorator} {target : Target} {d : Decorator}

/-! ### One decorator -/

theorem takesSize_iff : KnownDecorator.takesSize target = true ↔
    ∃ type, target = .field (.primitive type) ∧ (type = .string ∨ type = .bytes) := by
  unfold KnownDecorator.takesSize
  split
  · simp
  · simp
  · next hstring hbytes =>
    simp only [Bool.false_eq_true, false_iff, not_exists, not_and, not_or]
    rintro type rfl
    exact ⟨fun h => hstring (by rw [h]), fun h => hbytes (by rw [h])⟩

theorem takesPrefix_iff {type : TypeRef} : KnownDecorator.takesPrefix (.field type) = true ↔
    ∀ kind, type ≠ .primitive (.scalar kind) := by
  rcases type with p | _ | _ | _
  · rcases p with kind | _ | _
    · simp [KnownDecorator.takesPrefix, Primitive.isScalar, Primitive.naturalSize]
    · simp [KnownDecorator.takesPrefix, Primitive.isScalar, Primitive.naturalSize]
    · simp [KnownDecorator.takesPrefix, Primitive.isScalar, Primitive.naturalSize]
  all_goals simp [KnownDecorator.takesPrefix]

/-- The names of the four types that can serve as a length prefix. -/
theorem isLengthPrefix_ofName_iff {text : String} :
    (∃ p, Primitive.ofName? text = some p ∧ p.isLengthPrefix = true) ↔
      text ∈ ["uint8", "uint16", "uint32", "uint64"] := by
  constructor
  · rintro ⟨p, hp, hprefix⟩
    have hname : p.name = text := by simpa using List.find?_some hp
    rw [← hname]
    revert hprefix
    rcases p with kind | _ | _
    · cases kind <;> decide
    · decide
    · decide
  · simp only [List.mem_cons, List.not_mem_nil, or_false]
    rintro (rfl | rfl | rfl | rfl)
    · exact ⟨.scalar .uint8, by decide, rfl⟩
    · exact ⟨.scalar .uint16, by decide, rfl⟩
    · exact ⟨.scalar .uint32, by decide, rfl⟩
    · exact ⟨.scalar .uint64, by decide, rfl⟩

theorem namesLengthPrefix_iff {arg : Argument} : KnownDecorator.namesLengthPrefix arg = true ↔
    ∃ text, arg = .text text ∧ text ∈ ["uint8", "uint16", "uint32", "uint64"] := by
  have hnames : KnownDecorator.namesLengthPrefix arg = true ↔
      ∃ p, arg.text?.bind Primitive.ofName? = some p ∧ p.isLengthPrefix = true := by
    unfold KnownDecorator.namesLengthPrefix
    cases arg.text?.bind Primitive.ofName? <;> simp
  rw [hnames]
  cases arg with
  | text s => simpa [Argument.text?] using isLengthPrefix_ofName_iff
  | number x => simp [Argument.text?]
  | flag b => simp [Argument.text?]

theorem isSome_find?_iff {name : String} :
    (find? ds name).isSome = true ↔ ¬ ∀ d ∈ ds, d.name ≠ name := by
  simp [find?]

theorem ofName?_name (known : KnownDecorator) :
    KnownDecorator.ofName? known.name = some known := by
  cases known <;> decide

theorem name_of_ofName? {name : String} {known : KnownDecorator}
    (h : KnownDecorator.ofName? name = some known) : name = known.name := by
  have hname := List.find?_some (show KnownDecorator.all.find? (·.name == name) = some known from h)
  exact (beq_iff_eq.1 hname).symm

/-- An allowed decorator has a known name, its target, and one argument without a fault. -/
theorem allowed_iff : Allowed all target d ↔
    ∃ (known : KnownDecorator) (arg : Argument), d.name = known.name ∧ known.fits target = true ∧
      d.args = [arg] ∧ known.argumentFault? all target arg = none := by
  constructor
  · intro h
    cases h with
    | @commandId arg n position hn hbyte =>
      have harg := Argument.isByte_iff.2 ⟨n, hn, hbyte⟩
      exact ⟨.commandId, arg, rfl, rfl, rfl, if_pos harg⟩
    | @value arg n position hn hbyte =>
      have harg := Argument.isByte_iff.2 ⟨n, hn, hbyte⟩
      exact ⟨.value, arg, rfl, rfl, rfl, if_pos harg⟩
    | @size arg n position type htype hn hpos hmax hall =>
      have harg := Argument.isPositive_iff.2 ⟨n, hn, hpos, hmax⟩
      have htarget := takesSize_iff.2 ⟨type, rfl, htype⟩
      have hnone := isSome_find?_iff.not_left.2 hall
      refine ⟨.size, arg, rfl, rfl, rfl, ?_⟩
      rw [KnownDecorator.argumentFault?, if_neg (by simp [harg]), if_neg (by simp [htarget]),
        if_neg hnone]
    | @lengthPrefix text position type htext htype =>
      have harg := namesLengthPrefix_iff.2 ⟨text, rfl, htext⟩
      have htarget := takesPrefix_iff.2 htype
      refine ⟨.lengthPrefix, .text text, rfl, rfl, rfl, ?_⟩
      rw [KnownDecorator.argumentFault?, if_neg (by simp [harg]), if_neg (by simp [htarget])]
  · obtain ⟨name, args, position⟩ := d
    rintro ⟨known, arg, rfl : name = _, hfits, rfl : args = _, hfault⟩
    cases known with
    | commandId =>
      obtain rfl : target = .model := by cases target <;> first | rfl | cases hfits
      rw [KnownDecorator.argumentFault?] at hfault
      split_ifs at hfault with harg
      obtain ⟨n, hn, hbyte⟩ := Argument.isByte_iff.1 harg
      exact .commandId hn hbyte
    | value =>
      obtain rfl : target = .enumMember := by cases target <;> first | rfl | cases hfits
      rw [KnownDecorator.argumentFault?] at hfault
      split_ifs at hfault with harg
      obtain ⟨n, hn, hbyte⟩ := Argument.isByte_iff.1 harg
      exact .value hn hbyte
    | size =>
      rw [KnownDecorator.argumentFault?] at hfault
      split_ifs at hfault with harg htarget hprefix
      simp only [Bool.not_eq_true', Bool.not_eq_false] at harg htarget
      obtain ⟨n, hn, hpos, hmax⟩ := Argument.isPositive_iff.1 harg
      obtain ⟨type, rfl, htype⟩ := takesSize_iff.1 htarget
      exact .size htype hn hpos hmax (isSome_find?_iff.not_left.1 hprefix)
    | lengthPrefix =>
      obtain ⟨type, rfl⟩ : ∃ type, target = .field type := by
        cases target with
        | field type => exact ⟨type, rfl⟩
        | _ => cases hfits
      rw [KnownDecorator.argumentFault?] at hfault
      split_ifs at hfault with harg htarget
      simp only [Bool.not_eq_true', Bool.not_eq_false] at harg htarget
      obtain ⟨text, rfl, htext⟩ := namesLengthPrefix_iff.1 harg
      exact .lengthPrefix htext (takesPrefix_iff.1 htarget)

/-- **The rules for one decorator.** -/
theorem fault?_eq_none_iff : fault? all before target d = none ↔ ¬ Breaks all target before d := by
  have hany : before.any (·.name == d.name) = true ↔ d.name ∈ before.map name := by
    simp only [List.any_eq_true, beq_iff_eq, List.mem_map]
  rw [Breaks, not_or, not_not, ← hany, allowed_iff, fault?]
  constructor
  · intro h
    split at h
    · cases h
    · next known hknown =>
      split_ifs at h with hbefore hfits
      split at h
      · next arg hargs =>
        have hfits : known.fits target = true := by simpa using hfits
        exact ⟨hbefore, known, arg, name_of_ofName? hknown, hfits, hargs, h⟩
      · cases h
  · rintro ⟨hbefore, known, arg, hname, hfits, hargs, hfault⟩
    rw [hname, ofName?_name]
    dsimp only
    rw [← hname, if_neg hbefore, if_neg (by simp [hfits]), hargs]
    exact hfault

/-! ### Lists of decorators -/

/-- The check goes on as long as no rule is broken. -/
theorem firstFault?_eq_none_iff (hbefore : (before.map name).Nodup) :
    firstFault? all target before ds = none ↔
      ((before ++ ds).map name).Nodup ∧ ∀ d ∈ ds, Allowed all target d := by
  induction ds generalizing before with
  | nil => simpa [firstFault?] using hbefore
  | cons d ds ih =>
    have hname : ((before ++ d :: ds).map name).Nodup → d.name ∉ before.map name := by
      intro hnodup hmem
      rw [List.map_append, List.map_cons] at hnodup
      exact List.disjoint_of_nodup_append hnodup hmem List.mem_cons_self
    rw [firstFault?]
    cases hfault : fault? all before target d with
    | some fault =>
      simp only [reduceCtorEq, false_iff]
      rintro ⟨hnodup, hallowed⟩
      have hnone : fault? all before target d = none := fault?_eq_none_iff.2
        (not_or.2 ⟨hname hnodup, not_not.2 (hallowed d List.mem_cons_self)⟩)
      rw [hfault] at hnone
      cases hnone
    | none =>
      obtain ⟨hnew, hd⟩ := not_or.1 (fault?_eq_none_iff.1 hfault)
      have hnext : ((before ++ [d]).map name).Nodup := by
        rw [List.map_append, List.map_singleton]
        exact hbefore.append (List.nodup_singleton _) (List.disjoint_singleton.2 hnew)
      dsimp only
      rw [ih hnext, List.append_assoc, List.singleton_append, List.forall_mem_cons]
      exact and_congr_right fun _ => (and_iff_right (not_not.1 hd)).symm

/-- The fault that is found is that of the first decorator that breaks a rule. -/
theorem breaks_of_firstFault? {position : Position} {fault : DecoratorFault}
    (h : firstFault? all target before ds = some (position, fault)) :
    ∃ front d back, ds = front ++ d :: back ∧ position = d.position ∧
      Breaks all target (before ++ front) d ∧
      ∀ front' d' back', front = front' ++ d' :: back' →
        ¬ Breaks all target (before ++ front') d' := by
  induction ds generalizing before with
  | nil => cases h
  | cons d ds ih =>
    rw [firstFault?] at h
    cases hfault : fault? all before target d with
    | some _ =>
      rw [hfault] at h
      cases h
      have hbreaks : Breaks all target before d := by
        by_contra hnot
        rw [fault?_eq_none_iff.2 hnot] at hfault
        cases hfault
      refine ⟨[], d, ds, rfl, rfl, by rwa [List.append_nil], fun front' d' back' hfront => ?_⟩
      cases front' <;> cases hfront
    | none =>
      rw [hfault] at h
      obtain ⟨front, d', back, rfl, hposition, hbreaks, hfirst⟩ := ih h
      refine ⟨d :: front, d', back, rfl, hposition, by simpa using hbreaks, ?_⟩
      intro front' c back' hfront
      cases front' with
      | nil =>
        obtain ⟨rfl, -⟩ := List.cons.inj hfront
        rw [List.append_nil]
        exact fault?_eq_none_iff.1 hfault
      | cons b front' =>
        obtain ⟨rfl, hrest⟩ := List.cons.inj hfront
        have := hfirst front' c back' hrest
        rwa [List.append_assoc, List.singleton_append] at this

/-- Of the list around a decorator only its members count, not their order. -/
theorem Allowed.of_subset {all' : List Decorator} (hsub : all' ⊆ all)
    (h : Allowed all target d) : Allowed all' target d := by
  cases h with
  | commandId hn hbyte => exact .commandId hn hbyte
  | value hn hbyte => exact .value hn hbyte
  | size htype hn hpos hmax hall =>
    exact .size htype hn hpos hmax fun c hc => hall c (hsub hc)
  | lengthPrefix htext htype => exact .lengthPrefix htext htype

end Decorator

namespace Parse

open Decorator (Allowed Breaks)

variable {ds : List Decorator} {target : Target}

theorem check_eq_ok_iff : check ds target = .ok () ↔
    (ds.map Decorator.name).Nodup ∧ ∀ d ∈ ds, Allowed ds target d := by
  have hcheck : check ds target = .ok () ↔ Decorator.check ds target = none := by
    refine ⟨check_eq_ok, fun h => ?_⟩
    rw [check, h]
  have hnil : (List.map Decorator.name []).Nodup := List.nodup_nil
  rw [hcheck, Decorator.check, Decorator.firstFault?_eq_none_iff hnil, List.nil_append]

theorem check_eq_ok_of_perm {ds' : List Decorator} (hperm : ds.Perm ds')
    (h : check ds target = .ok ()) : check ds' target = .ok () := by
  obtain ⟨hnodup, hallowed⟩ := check_eq_ok_iff.1 h
  refine check_eq_ok_iff.2 ⟨(hperm.map _).nodup_iff.1 hnodup, fun d hd => ?_⟩
  exact (hallowed d (hperm.mem_iff.2 hd)).of_subset hperm.symm.subset

/-- **The check of a list of decorators is its list of allowed ones.** It passes exactly if the
names are different and every decorator is allowed, and so does the check of the list in any other
order. If it fails, its error is at the first decorator that breaks a rule. -/
theorem check_allowed (ds : List Decorator) (target : Target) :
    (check ds target = .ok () ↔
      (ds.map Decorator.name).Nodup ∧ ∀ d ∈ ds, Allowed ds target d) ∧
    (∀ ds', ds.Perm ds' → (check ds target = .ok () ↔ check ds' target = .ok ())) ∧
    ∀ e, check ds target = .error e →
      ∃ front d back, ds = front ++ d :: back ∧ e.position = d.position ∧
        Breaks ds target front d ∧
        ∀ front' d' back', front = front' ++ d' :: back' → ¬ Breaks ds target front' d' := by
  refine ⟨check_eq_ok_iff, fun ds' hperm =>
    ⟨check_eq_ok_of_perm hperm, check_eq_ok_of_perm hperm.symm⟩, fun e he => ?_⟩
  unfold check at he
  split at he
  · next position fault hfault =>
    cases he
    exact Decorator.breaks_of_firstFault? hfault
  · cases he

/-- The number 2 ^ 65. -/
def twoPow65 : Argument := .number ⟨0x4400000000000000⟩

/-- A size that is a whole number from 1 on is refused if it is greater than 2 ^ 64. -/
theorem check_size_twoPow65 :
    twoPow65.IsWhole (2 ^ 65) ∧
      check [⟨"size", [twoPow65], Position.start⟩] (.field (.primitive .string)) =
        .error ⟨Position.start, .decorator (.notPositive "size")⟩ := by
  refine ⟨⟨_, rfl, Binary64.toWhole?_eq_some_iff.1 ?_⟩, ?_⟩
  · decide +kernel
  · decide +kernel

end Parse

end WireSchema
