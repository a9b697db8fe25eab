import WireSchema.Proofs.Completed
import WireSchema.Proofs.EmittedNames
import WireSchema.Proofs.Rendered

/-! # Keywords in emitted code

A name of a schema reaches the emitted code in one of three ways. Types have the names that they
were declared with, and verification refuses reserved words. Members and fields get an underscore
behind them if they are keywords after all other changes. Command ids are in upper case, and no
keyword is. So no identifier is a keyword (`rustIdentifiers_not_mem`, `cppIdentifiers_not_mem`), but
for the namespace of C++, which goes to lower case and is not looked at again:
`identifiers_keyword_iff` says which schemas have a keyword there. -/

namespace WireSchema

/-! ### Upper case -/

namespace Text

/-- A lower-case letter of ASCII. -/
def IsLowerAscii (c : Char) : Prop := 97 ≤ c.toNat ∧ c.toNat ≤ 122

instance (c : Char) : Decidable (IsLowerAscii c) := instDecidableAnd

/-- A code point that is no lower-case letter of ASCII gives no such letter. -/
theorem not_isLowerAscii_ofNat {n : Nat} (h : ¬ (97 ≤ n ∧ n ≤ 122)) :
    ¬ IsLowerAscii (Char.ofNat n) := by
  by_cases hn : n.isValidChar
  · rw [Char.ofNat, dif_pos hn]
    exact h
  · rw [Char.ofNat, dif_neg hn]
    decide

/-- No run of the table is moved to the lower-case letters of ASCII. -/
theorem shift_toUpperTable {r : CodeRun} {d : Int} (h : (r, d) ∈ toUpperTable) :
    (r.last : Int) + d < 97 ∨ 122 < (r.first : Int) + d := by
  have hall : toUpperTable.all fun r =>
      decide ((r.1.last : Int) + r.2 < 97 ∨ 122 < (r.1.first : Int) + r.2) := by decide +kernel
  simpa using List.all_eq_true.1 hall (r, d) h

theorem toUpperLong_all {n : Nat} {ns : List Nat} (h : (n, ns) ∈ toUpperLong) :
    ∀ k ∈ ns, ¬ (97 ≤ k ∧ k ≤ 122) := by
  have hall : toUpperLong.all fun p => p.2.all fun k => decide ¬ (97 ≤ k ∧ k ≤ 122) := by
    decide +kernel
  intro k hk
  exact of_decide_eq_true (List.all_eq_true.1 (List.all_eq_true.1 hall (n, ns) h) k hk)

theorem not_isLowerAscii_shift {c : Char} (hc : 128 ≤ c.toNat) :
    ¬ IsLowerAscii (shiftChar c (shiftOf toUpperTable c.toNat)) := by
  apply not_isLowerAscii_ofNat
  unfold shiftOf
  split
  · next r d hfind =>
    have hcontains := List.find?_some hfind
    simp only [CodeRun.contains, Bool.and_eq_true, decide_eq_true_eq] at hcontains
    have := shift_toUpperTable (List.mem_of_find?_eq_some hfind)
    omega
  · omega

/-- The upper case of a character has no lower-case letter of ASCII. -/
theorem not_isLowerAscii_of_mem_toUpper {c d : Char} (h : d ∈ toUpper c) : ¬ IsLowerAscii d := by
  unfold toUpper at h
  split_ifs at h with hascii hlower
  · rw [List.mem_singleton.1 h]
    have hle : c.toNat ≤ 122 := Lexeme.char_le_iff.1 hlower.2
    exact not_isLowerAscii_ofNat (by omega)
  · rw [List.mem_singleton.1 h]
    intro hc
    exact hlower ⟨Lexeme.char_le_iff.2 hc.1, Lexeme.char_le_iff.2 hc.2⟩
  · split at h
    · next ns hlookup =>
      obtain ⟨n, hn, rfl⟩ := List.mem_map.1 h
      obtain ⟨before, behind, heq, -⟩ := List.lookup_eq_some_iff.1 hlookup
      have hmem : (c.toNat, ns) ∈ toUpperLong := by simp [heq]
      exact not_isLowerAscii_ofNat (toUpperLong_all hmem n hn)
    · rw [List.mem_singleton.1 h]
      exact not_isLowerAscii_shift (by omega)

theorem not_isLowerAscii_of_mem_upper {name : String} {d : Char} (h : d ∈ (upper name).toList) :
    ¬ IsLowerAscii d := by
  rw [upper, String.toList_ofList] at h
  obtain ⟨c, -, hc⟩ := List.mem_flatMap.1 h
  exact not_isLowerAscii_of_mem_toUpper hc

end Text

/-! ### Names that are changed -/

namespace Name

/-- What a keyword looks like: it is in ASCII and without points, it has a lower-case letter, and it
does not end in an underscore. -/
structure IsKeywordText (word : List Char) : Prop where
  plain : ∀ d ∈ word, d.toNat < 128 ∧ d ≠ '.'
  lower : ∃ d ∈ word, Text.IsLowerAscii d
  last : word.getLast? ≠ some '_'

theorem isKeywordText_of_mem {word : String} (h : word ∈ rustKeywords ++ cppKeywords) :
    IsKeywordText word.toList := by
  have hall : (rustKeywords ++ cppKeywords).all fun word =>
      (word.toList.all fun d => d.toNat < 128 && d != '.') &&
        (word.toList.any fun d => Text.IsLowerAscii d) && word.toList.getLast? != some '_' := by
    decide +kernel
  have hword := List.all_eq_true.1 hall word h
  simp only [Bool.and_eq_true, List.all_eq_true, List.any_eq_true, decide_eq_true_eq, bne_iff_ne]
    at hword
  exact ⟨hword.1.1, hword.1.2, hword.2⟩

/-- Keywords have lower-case letters, which upper case has not. -/
theorem upperSnake_not_mem (name : String) : upperSnake name ∉ rustKeywords ++ cppKeywords := by
  intro h
  obtain ⟨c, hc, hlower⟩ := (isKeywordText_of_mem h).lower
  exact Text.not_isLowerAscii_of_mem_upper hc hlower

theorem rustName_not_mem (name : String) : rustName name ∉ rustKeywords :=
  escape_not_mem (List.Subset.refl _)
    (fun _ h => (isKeywordText_of_mem (List.mem_append_left _ h)).last) name

theorem cppName_not_mem_keywords (name : String) : cppName name ∉ cppKeywords :=
  escape_not_mem (List.subset_append_left _ _)
    (fun _ h => (isKeywordText_of_mem (List.mem_append_right _ h)).last) name

theorem structConstant_not_mem {name : String} (h : name ∈ cppStructConstants) :
    name ∉ cppKeywords := by
  have hall : ∀ name ∈ cppStructConstants, name ∉ cppKeywords := by decide +kernel
  exact hall name h

end Name

/-! ### The namespace -/

namespace Text

theorem toLower_cases (c : Char) :
    (∃ d, toLower c = [d]) ∨ toLower c = ['i', Char.ofNat 0x307] := by
  unfold toLower
  split
  · exact Or.inl ⟨_, rfl⟩
  · split
    · exact Or.inr rfl
    · exact Or.inl ⟨_, rfl⟩

/-- A text whose lower case has only characters of ASCII goes to lower case one by one. -/
theorem lowerFrom_cons_eq_iff {before cs word : List Char} {c : Char}
    (hword : ∀ d ∈ word, d.toNat < 128) :
    lowerFrom before (c :: cs) = word ↔
      ∃ d rest, word = d :: rest ∧ toLower c = [d] ∧ lowerFrom (c :: before) cs = rest := by
  rw [lowerFrom]
  by_cases hsigma : c = 'Σ'
  · -- neither sigma is a character of ASCII
    subst hsigma
    rw [if_pos rfl]
    have hlower : toLower 'Σ' = ['σ'] := by decide +kernel
    constructor
    · rintro rfl
      have := hword _ (List.mem_append_left _ (List.mem_singleton_self _))
      split_ifs at this
      · exact absurd this (by decide)
      · exact absurd this (by decide)
    · rintro ⟨d, rest, rfl, hd, -⟩
      rw [hlower] at hd
      cases hd
      exact absurd (hword 'σ' List.mem_cons_self) (by decide)
  · rw [if_neg hsigma]
    rcases toLower_cases c with ⟨d, hd⟩ | htwo
    · rw [hd]
      constructor
      · rintro rfl
        exact ⟨d, _, rfl, rfl, rfl⟩
      · rintro ⟨d', rest, rfl, hd', rfl⟩
        rw [hd']
        rfl
    · rw [htwo]
      constructor
      · rintro rfl
        exact absurd (hword (Char.ofNat 0x307) (by simp)) (by decide)
      · rintro ⟨d, rest, -, hd, -⟩
        cases hd

end Text

namespace Name

/-- A name is a word in any case of its letters, and with points for some of its underscores. -/
def Spells (word name : List Char) : Prop :=
  List.Forall₂ (fun d c => c = '.' ∧ d = '_' ∨ Text.toLower c = [d]) word name

theorem toLower_flat_iff {c d : Char} (hd : d ≠ '.') :
    Text.toLower (if c = '.' then '_' else c) = [d] ↔ c = '.' ∧ d = '_' ∨ Text.toLower c = [d] := by
  have hunderscore : Text.toLower '_' = ['_'] := by decide
  have hpoint : Text.toLower '.' = ['.'] := by decide
  by_cases hc : c = '.'
  · subst hc
    rw [if_pos rfl, hunderscore, hpoint]
    constructor
    · intro h
      cases h
      exact Or.inl ⟨rfl, rfl⟩
    · rintro (⟨-, rfl⟩ | h)
      · rfl
      · cases h
        exact absurd rfl hd
  · simp [hc]

theorem lowerFrom_flat_iff {before word name : List Char}
    (hword : ∀ d ∈ word, d.toNat < 128 ∧ d ≠ '.') :
    Text.lowerFrom before (name.map fun c => if c = '.' then '_' else c) = word ↔
      Spells word name := by
  induction name generalizing before word with
  | nil =>
    rw [List.map_nil, Text.lowerFrom, Spells, List.forall₂_nil_right_iff]
    exact eq_comm
  | cons c name ih =>
    rw [List.map_cons, Text.lowerFrom_cons_eq_iff fun d hd => (hword d hd).1, Spells,
      List.forall₂_cons_right_iff]
    constructor
    · rintro ⟨d, rest, rfl, hd, hrest⟩
      obtain ⟨⟨-, hpoint⟩, hplain⟩ := List.forall_mem_cons.1 hword
      exact ⟨d, rest, (toLower_flat_iff hpoint).1 hd, (ih hplain).1 hrest, rfl⟩
    · rintro ⟨d, rest, hd, hrest, rfl⟩
      obtain ⟨⟨-, hpoint⟩, hplain⟩ := List.forall_mem_cons.1 hword
      exact ⟨d, rest, rfl, (toLower_flat_iff hpoint).2 hd, (ih hplain).2 hrest⟩

end Name

namespace Emit

/-- **The namespace of C++ is a keyword** exactly if the namespace of the schema spells one. -/
theorem Cpp.namespaceName_mem_iff (s : Schema) :
    Cpp.namespaceName .default s ∈ Name.cppKeywords ↔
      ∃ word ∈ Name.cppKeywords, Name.Spells word.toList s.namespaceName.toList := by
  have hlower : ∀ word ∈ Name.cppKeywords,
      Text.lower (String.ofList (s.namespaceName.toList.map fun c => if c = '.' then '_' else c)) =
        word ↔ Name.Spells word.toList s.namespaceName.toList := by
    intro word hword
    have hplain := (Name.isKeywordText_of_mem (List.mem_append_right _ hword)).plain
    rw [← Name.lowerFrom_flat_iff hplain, ← String.toList_inj, Text.lower, String.toList_ofList,
      String.toList_ofList]
  have hdefault : "binary_protocol" ∉ Name.cppKeywords := by decide +kernel
  have hempty : "" ∉ Name.cppKeywords := by decide +kernel
  unfold Cpp.namespaceName
  simp only [EmitSettings.default]
  split_ifs with he
  · rw [String.isEmpty_iff] at he
    refine iff_of_false hdefault ?_
    rintro ⟨word, hword, hspells⟩
    rw [← hlower word hword, he] at hspells
    exact hempty (hspells ▸ hword)
  · constructor
    · intro hmem
      exact ⟨_, hmem, (hlower _ hmem).1 rfl⟩
    · rintro ⟨word, hword, hspells⟩
      rw [(hlower word hword).2 hspells]
      exact hword

/-! ### All identifiers -/

/-- The enum or model in an element. -/
def elementTypeName? : ElementCodec → Option String
  | .enum name => some name
  | .model name _ => some name
  | .scalar _ => none

/-- The enum or model that the type of a field names. -/
def fieldTypeName? : FieldCodec → Option String
  | .enum name => some name
  | .model name _ => some name
  | .prefixedModel name _ => some name
  | .prefixedArray element _ => elementTypeName? element
  | .remainingArray element => elementTypeName? element
  | _ => none

/-- The enums and models that the types of the fields of a model name. -/
def fieldTypeNames (s : Schema) (m : Model) : List String :=
  m.fields.filterMap fun f => fieldTypeName? (FieldCodec.of s f)

/-- The identifiers in emitted Rust that depend on the schema, and the names beside them: types,
where they are declared and where fields have them, variants, fields and command ids. -/
def Rust.identifiers (s : Schema) : List String :=
  Rust.topLevelNames s ++ s.models.flatMap (fieldTypeNames s) ++
    s.enums.flatMap Rust.variantNames ++ s.models.flatMap (Rust.fieldNames s) ++ Rust.commandNames s

/-- The identifiers in emitted C++, its namespace apart. -/
def Cpp.identifiers (s : Schema) : List String :=
  Cpp.topLevelNames s ++ s.models.flatMap (fieldTypeNames s) ++
    s.enums.flatMap Cpp.enumeratorNames ++ s.models.flatMap (Cpp.structNames s) ++
    Cpp.commandNames s

theorem elementTypeName?_resolved {s : Schema} {t : TypeRef} (h : t.Resolved s) {name : String}
    (hn : elementTypeName? (ElementCodec.of s t) = some name) : name ∈ s.typeNames := by
  induction t with
  | primitive p => cases hn
  | enum n =>
    cases hn
    exact List.mem_append_left _ h
  | model n =>
    cases hn
    exact List.mem_append_right _ h
  | array t ih => exact ih h hn

theorem fieldTypeName?_resolved {s : Schema} {f : Field} (h : f.type.Resolved s) {name : String}
    (hn : fieldTypeName? (FieldCodec.of s f) = some name) : name ∈ s.typeNames := by
  obtain ⟨fname, type, ⟨fixed, pre⟩, ds, doc, offset, pos⟩ := f
  cases type with
  | primitive p => rcases p with k | _ | _ <;> cases pre <;> cases fixed <;> cases hn
  | enum n =>
    cases hn
    exact List.mem_append_left _ h
  | model n => cases pre <;> cases hn <;> exact List.mem_append_right _ h
  | array t => cases pre <;> exact elementTypeName?_resolved h hn

end Emit

namespace Schema

open Emit

variable {s : Schema}

theorem Resolved.mem_of_fieldTypeNames (h : s.Resolved) {name : String}
    (hn : name ∈ s.models.flatMap (fieldTypeNames s)) : name ∈ s.typeNames := by
  obtain ⟨m, hm, hn⟩ := List.mem_flatMap.1 hn
  obtain ⟨f, hf, hn⟩ := List.mem_filterMap.1 hn
  exact fieldTypeName?_resolved (h.types m hm f hf) hn

/-- Types do not have keywords for names. -/
theorem Named.not_keyword (h : s.Named) {name : String} (hn : name ∈ s.typeNames) :
    name ∉ Name.rustKeywords ∧ name ∉ Name.cppKeywords := by
  have hfree := (h.free name hn).reserved
  simp only [Name.isReservedType, Bool.or_eq_false_iff, List.contains_eq_mem,
    decide_eq_false_iff_not] at hfree
  exact hfree.1

theorem rustIdentifiers_not_mem (hn : s.Named) (hr : s.Resolved) :
    ∀ name ∈ Rust.identifiers s, name ∉ Name.rustKeywords := by
  intro name hname
  simp only [Rust.identifiers, Rust.topLevelNames, List.mem_append, or_assoc] at hname
  rcases hname with h | h | h | h | h | h | h | h
  · have hall : ∀ name ∈ Rust.importedNames, name ∉ Name.rustKeywords := by decide +kernel
    exact hall name h
  · exact (hn.not_keyword (List.mem_append_left _ h)).1
  · exact (hn.not_keyword (List.mem_append_right _ h)).1
  · rw [List.mem_singleton.1 h]
    decide +kernel
  · exact (hn.not_keyword (hr.mem_of_fieldTypeNames h)).1
  · obtain ⟨e, -, h⟩ := List.mem_flatMap.1 h
    obtain ⟨x, -, rfl⟩ := List.mem_map.1 h
    exact Name.rustName_not_mem x.name
  · obtain ⟨m, -, h⟩ := List.mem_flatMap.1 h
    obtain ⟨f, -, rfl⟩ := List.mem_map.1 h
    exact Name.rustName_not_mem _
  · obtain ⟨c, -, rfl⟩ := List.mem_map.1 h
    exact fun hmem => Name.upperSnake_not_mem c.1.name (List.mem_append_left _ hmem)

theorem cppIdentifiers_not_mem (hn : s.Named) (hr : s.Resolved) :
    ∀ name ∈ Cpp.identifiers s, name ∉ Name.cppKeywords := by
  intro name hname
  simp only [Cpp.identifiers, Cpp.topLevelNames, List.mem_append, or_assoc] at hname
  rcases hname with h | h | h | h | h | h | h | h
  · have hall : ∀ name ∈ Cpp.supportTypes, name ∉ Name.cppKeywords := by decide +kernel
    exact hall name h
  · exact (hn.not_keyword (List.mem_append_left _ h)).2
  · exact (hn.not_keyword (List.mem_append_right _ h)).2
  · rw [List.mem_singleton.1 h]
    decide +kernel
  · exact (hn.not_keyword (hr.mem_of_fieldTypeNames h)).2
  · obtain ⟨e, -, h⟩ := List.mem_flatMap.1 h
    obtain ⟨x, -, rfl⟩ := List.mem_map.1 h
    exact Name.cppName_not_mem_keywords x.name
  · obtain ⟨m, -, h⟩ := List.mem_flatMap.1 h
    rcases List.mem_append.1 h with h | h
    · obtain ⟨f, -, rfl⟩ := List.mem_map.1 h
      exact Name.cppName_not_mem_keywords f.name
    · exact Name.structConstant_not_mem ((structConstants_sublist m).subset h)
  · obtain ⟨c, -, rfl⟩ := List.mem_map.1 h
    exact fun hmem => Name.upperSnake_not_mem c.1.name (List.mem_append_right _ hmem)

/-- **No identifier is a keyword, but for the namespace of C++.** For a schema text that is
accepted, no identifier in emitted Rust is a keyword of Rust, and none in emitted C++ is a keyword
of C++ but the namespace: it is one exactly if the namespace of the schema spells a keyword, in any
case of its letters and with points for underscores. -/
theorem identifiers_keyword_iff {text sourceFile : String} {parsedAt : Nat}
    (h : ofText text sourceFile parsedAt = .ok s) :
    (∀ name ∈ Rust.identifiers s, name ∉ Name.rustKeywords) ∧
      (∀ name ∈ Cpp.identifiers s, name ∉ Name.cppKeywords) ∧
      (Cpp.namespaceName .default s ∉ Name.cppKeywords ↔
        ∀ word ∈ Name.cppKeywords, ¬ Name.Spells word.toList s.namespaceName.toList) := by
  obtain ⟨s₀, s₁, -, hv, hl⟩ := steps_of_ofText h
  have hr := (completed_of_ofText h).resolved
  obtain ⟨hnamed, f, hf, rfl⟩ := emitted_cases hv (Or.inr hl)
  have hn := hf.named hnamed
  refine ⟨rustIdentifiers_not_mem hn hr, cppIdentifiers_not_mem hn hr, ?_⟩
  rw [Cpp.namespaceName_mem_iff]
  simp only [not_exists, not_and]

/-- A schema text with keywords wherever they can stand, also as parts of its namespace. -/
def keywordText : String :=
  "namespace New.Self;enum Mode\x7bself,class\x7d@command_id(1)" ++
    "model Ping\x7btype:uint8 mode:Mode[]\x7d"

/-- The schema that `keywordText` declares. -/
def keywordTextSchema : Schema :=
  ⟨"New.Self", [⟨"Mode", [⟨"self", 0, none⟩, ⟨"class", 1, none⟩], [], none, ⟨1, 25⟩⟩],
    [⟨"Ping", [
      ⟨"type", .primitive (.scalar .uint8), ⟨some 1, none⟩, [], none, some 0, ⟨1, 66⟩⟩,
      ⟨"mode", .array (.enum "Mode"), ⟨none, none⟩, [], none, some 1, ⟨1, 77⟩⟩],
      [⟨"command_id", [.number ⟨0x3FF0000000000000⟩], ⟨1, 41⟩⟩], none, some 1, .varying, ⟨1, 61⟩⟩],
    ⟨"", 0, none⟩⟩

theorem identifiers_keyword_iff_sample :
    ofText keywordText "" 0 = .ok keywordTextSchema ∧
      (keywordTextSchema.models.map (Rust.fieldNames keywordTextSchema) = [["type_", "mode"]] ∧
        keywordTextSchema.enums.map Cpp.enumeratorNames = [["self", "class_"]]) ∧
      Cpp.namespaceName .default keywordTextSchema = "new_self" ∧
      (∀ name ∈ Rust.identifiers keywordTextSchema, name ∉ Name.rustKeywords) ∧
      ∀ word ∈ Name.cppKeywords,
        ¬ Name.Spells word.toList keywordTextSchema.namespaceName.toList := by
  have hread : ofText keywordText "" 0 = .ok keywordTextSchema := by decide +kernel
  obtain ⟨hrust, -, hspace⟩ := identifiers_keyword_iff hread
  have hname : Cpp.namespaceName .default keywordTextSchema = "new_self" := by decide +kernel
  refine ⟨hread, by decide +kernel, hname, hrust, hspace.1 ?_⟩
  rw [hname]
  decide +kernel

/-- The schema of a text that declares nothing but its namespace. -/
def namespaceSchema (name : String) : Schema := ⟨name, [], [], ⟨"", 0, none⟩⟩

/-- **The namespace of C++ can be a keyword,** where the schema has it in another case or in
parts. -/
theorem namespaceName_keyword :
    (ofText "namespace Default;" "" 0 = .ok (namespaceSchema "Default") ∧
      Cpp.namespaceName .default (namespaceSchema "Default") = "default" ∧
      "default" ∈ Name.cppKeywords) ∧
    ofText "namespace And.Eq;" "" 0 = .ok (namespaceSchema "And.Eq") ∧
      Cpp.namespaceName .default (namespaceSchema "And.Eq") = "and_eq" ∧
      "and_eq" ∈ Name.cppKeywords := by
  refine ⟨⟨?_, ?_, ?_⟩, ?_, ?_, ?_⟩ <;> decide +kernel

end Schema

end WireSchema
