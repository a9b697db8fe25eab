import WireSchema.Compile.Parse
import WireSchema.Emit.Cpp
import WireSchema.Emit.TypeScript
import Mathlib.Algebra.GroupWithZero.Nat
import Mathlib.Control.Monad.Basic
import Mathlib.Data.List.TakeWhile

/-! # Doc comments in emitted code

A doc comment of a schema can be any text. It is emitted in lines with three slashes in front, and
in TypeScript in a block.

* A line with slashes starts with them and is one line, whatever the text is. It ends in a backslash
  if the line of the text does (`slashLine_eq`), and in C++ the next line is then a comment too.
* A block has one `*/` more than the text (`closings_blockDoc`), so that it is closed too early by a
  text that has one itself.

`docComment_contained` puts this together, and `docComment_escapes` is a schema for which both go
wrong. -/

namespace WireSchema

/-! ### Lines and blanks -/

namespace Text

theorem trimEnd_append_blanks (cs : List Char) :
    trimEnd cs ++ (cs.reverse.takeWhile isBlank).reverse = cs := by
  rw [trimEnd, ← List.reverse_append, List.takeWhile_append_dropWhile, List.reverse_reverse]

theorem trimEnd_append (a b : List Char) :
    trimEnd (a ++ b) = if trimEnd b = [] then trimEnd a else a ++ trimEnd b := by
  unfold trimEnd
  rw [List.reverse_append, List.dropWhile_append]
  by_cases h : b.reverse.dropWhile isBlank = []
  · simp [h]
  · simp [h]

/-- No line has a line feed in it. -/
theorem not_mem_of_mem_lines {cs l : List Char} (h : l ∈ lines cs) : '\n' ∉ l := by
  fun_induction lines cs generalizing l with
  | case1 => cases h
  | case2 cs ih =>
    rcases List.mem_cons.1 h with rfl | h
    · exact List.not_mem_nil
    · exact ih h
  | case3 cs ih =>
    rcases List.mem_cons.1 h with rfl | h
    · exact List.not_mem_nil
    · exact ih h
  | case4 c cs hc _ _ _ =>
    rw [List.mem_singleton.1 h]
    exact fun hmem => hc (List.mem_singleton.1 hmem).symm
  | case5 c cs hc _ first rest hcs ih =>
    rw [hcs] at ih
    rcases List.mem_cons.1 h with rfl | h
    · intro hmem
      rcases List.mem_cons.1 hmem with heq | hmem
      · exact hc heq.symm
      · exact ih List.mem_cons_self hmem
    · exact ih (List.mem_cons_of_mem _ h)

theorem lines_eq_nil_iff {cs : List Char} : lines cs = [] ↔ cs = [] := by
  fun_cases lines cs <;> simp

/-- A slash is not part of a line end, so that the first line starts with one if the text does. -/
theorem head?_lines (cs : List Char) :
    (lines cs).head?.bind List.head? = some '/' ↔ cs.head? = some '/' := by
  fun_cases lines cs <;> simp

/-! ### The end of a block -/

/-- How often `*/` stands in a text. -/
def closings : List Char → Nat
  | [] => 0
  | c :: cs => (if c = '*' ∧ cs.head? = some '/' then 1 else 0) + closings cs

theorem closings_eq_zero_iff {cs : List Char} : closings cs = 0 ↔ ¬ "*/".toList <:+: cs := by
  induction cs with
  | nil => decide
  | cons c cs ih =>
    have hfront : "*/".toList <+: c :: cs ↔ c = '*' ∧ cs.head? = some '/' := by
      cases cs <;> simp [List.cons_prefix_cons, eq_comm]
    rw [closings, List.infix_cons_iff, not_or, hfront, ← ih]
    split_ifs with hc
    · simp [hc]
    · simp [hc]

theorem closings_append (a b : List Char) :
    closings (a ++ b) =
      closings a + closings b + if a.getLast? = some '*' ∧ b.head? = some '/' then 1 else 0 := by
  induction a with
  | nil => simp [closings]
  | cons c a ih =>
    rw [List.cons_append, closings, closings, ih]
    cases a with
    | nil =>
      simp only [List.nil_append, List.head?_nil, List.getLast?_nil, List.getLast?_singleton,
        reduceCtorEq, false_and, and_false, if_false, closings, Option.some_inj]
      omega
    | cons d a =>
      rw [List.cons_append, List.head?_cons, List.head?_cons, List.getLast?_cons_cons]
      omega

theorem closings_append_of_last {a b : List Char} (h : a.getLast? ≠ some '*') :
    closings (a ++ b) = closings a + closings b := by
  rw [closings_append, if_neg fun hab => h hab.1, Nat.add_zero]

theorem closings_append_of_head {a b : List Char} (h : b.head? ≠ some '/') :
    closings (a ++ b) = closings a + closings b := by
  rw [closings_append, if_neg fun hab => h hab.2, Nat.add_zero]

theorem closings_of_not_mem {cs : List Char} (h : '*' ∉ cs) : closings cs = 0 := by
  induction cs with
  | nil => rfl
  | cons c cs ih =>
    have hc : c ≠ '*' := fun hc => h (hc ▸ List.mem_cons_self)
    rw [closings, if_neg fun hcs => hc hcs.1, ih fun hcs => h (List.mem_cons_of_mem _ hcs)]

theorem closings_trimEnd (cs : List Char) : closings (trimEnd cs) = closings cs := by
  have hblank : ∀ c ∈ (cs.reverse.takeWhile isBlank).reverse, isBlank c = true :=
    fun c hc => List.mem_takeWhile_imp (List.mem_reverse.1 hc)
  have hslash : (cs.reverse.takeWhile isBlank).reverse.head? ≠ some '/' := by
    intro hhead
    exact absurd (hblank '/' (List.mem_of_mem_head? hhead)) (by decide)
  have hstar : '*' ∉ (cs.reverse.takeWhile isBlank).reverse := by
    intro hmem
    exact absurd (hblank '*' hmem) (by decide)
  have hsplit := closings_append_of_head (a := trimEnd cs) hslash
  rw [trimEnd_append_blanks, closings_of_not_mem hstar] at hsplit
  omega

/-- The line ends of a text cut no `*/` in two. -/
theorem sum_closings_lines (cs : List Char) : ((lines cs).map closings).sum = closings cs := by
  fun_induction lines cs with
  | case1 => rfl
  | case2 cs ih => simp [closings, ih]
  | case3 cs ih => simp [closings, ih]
  -- A line end has neither a star nor a slash, so a `*/` that starts with `c` is all in its line.
  | case4 c cs _ _ hcs ih =>
    have hhead : cs.head? ≠ some '/' := by
      rw [ne_eq, ← head?_lines, hcs]
      simp
    rw [hcs] at ih
    simp [closings, hhead, ← ih]
  | case5 c cs _ _ first rest hcs ih =>
    have hhead : first.head? = some '/' ↔ cs.head? = some '/' := by
      rw [← head?_lines cs, hcs]
      rfl
    rw [hcs, List.map_cons, List.sum_cons] at ih
    rw [List.map_cons, List.sum_cons, closings, closings, ← ih]
    simp only [hhead]
    omega

end Text

namespace Emit

open Text (closings closings_append_of_last closings_append_of_head closings_of_not_mem)

theorem closings_join (ls : List String) :
    closings (join ls).toList = (ls.map fun l => closings l.toList).sum := by
  unfold join
  induction ls with
  | nil => simp [closings]
  | cons l ls ih =>
    cases ls with
    | nil => simp
    | cons l' ls =>
      have hfront : closings (l ++ "\n").toList = closings l.toList := by
        rw [String.toList_append, closings_append_of_head (by decide)]
        rfl
      have hlast : (l ++ "\n").toList.getLast? = some '\n' := by
        rw [String.toList_append]
        exact List.getLast?_concat
      rw [String.intercalate_cons_cons, String.toList_append,
        closings_append_of_last (by rw [hlast]; decide), hfront, ih]
      simp only [List.map_cons, List.sum_cons]

/-! ### Lines with slashes -/

/-- A line with slashes. A blank line of the text leaves only the slashes. -/
theorem slashLine_eq (indent line : String) :
    (trimEnd (indent ++ "/// " ++ line)).toList =
      (indent ++ "///").toList ++
        if (trimEnd line).toList = [] then [] else ' ' :: (trimEnd line).toList := by
  have hslashes : Text.trimEnd "/// ".toList = "///".toList := by decide
  simp only [trimEnd, String.toList_ofList, String.toList_append]
  rw [Text.trimEnd_append]
  split_ifs with hblank
  · rw [Text.trimEnd_append, hslashes, if_neg (by decide), List.append_nil]
  · simp

/-- A line with slashes ends in a backslash exactly if the line of the text does. -/
theorem getLast?_slashLine (indent line : String) :
    (trimEnd (indent ++ "/// " ++ line)).toList.getLast? = some '\\' ↔
      (trimEnd line).toList.getLast? = some '\\' := by
  have hslashes : (indent ++ "///").toList.getLast? = some '/' := by
    rw [String.toList_append, List.getLast?_append]
    rfl
  rw [slashLine_eq]
  split_ifs with hblank
  · rw [List.append_nil, hslashes, hblank]
    decide
  · rw [List.getLast?_append, List.getLast?_cons_of_ne_nil hblank, Option.or_of_isSome]
    exact List.getLast?_isSome.2 hblank

theorem not_mem_slashLine {indent line : String} (hindent : '\n' ∉ indent.toList)
    (hline : '\n' ∉ line.toList) : '\n' ∉ (trimEnd (indent ++ "/// " ++ line)).toList := by
  have htrim : '\n' ∉ Text.trimEnd line.toList := by
    intro hmem
    rw [← Text.trimEnd_append_blanks line.toList] at hline
    exact hline (List.mem_append_left _ hmem)
  rw [slashLine_eq, String.toList_append]
  simp only [trimEnd, String.toList_ofList]
  split_ifs with hblank
  · simp [hindent]
  · simp [hindent, htrim]

/-- **A line with slashes is one line and starts with them,** whatever the text is. -/
theorem slashDoc_line {indent text line : String} (hindent : '\n' ∉ indent.toList)
    (hline : line ∈ slashDoc indent (some text)) :
    (indent ++ "///").toList <+: line.toList ∧ '\n' ∉ line.toList := by
  obtain ⟨l, hl, rfl⟩ := List.mem_map.1 hline
  obtain ⟨cs, hcs, rfl⟩ := List.mem_map.1 hl
  have hfeed : '\n' ∉ (String.ofList cs).toList := by
    rw [String.toList_ofList]
    exact Text.not_mem_of_mem_lines hcs
  refine ⟨?_, not_mem_slashLine hindent hfeed⟩
  rw [slashLine_eq]
  exact List.prefix_append _ _

theorem exists_backslash_slashDoc_iff (indent text : String) :
    (∃ line ∈ slashDoc indent (some text), line.toList.getLast? = some '\\') ↔
      ∃ line ∈ Text.linesOf text, (trimEnd line).toList.getLast? = some '\\' := by
  constructor
  · rintro ⟨line, hline, hlast⟩
    obtain ⟨l, hl, rfl⟩ := List.mem_map.1 hline
    exact ⟨l, hl, (getLast?_slashLine indent l).1 hlast⟩
  · rintro ⟨l, hl, hlast⟩
    exact ⟨_, List.mem_map_of_mem hl, (getLast?_slashLine indent l).2 hlast⟩

/-! ### Blocks -/

namespace TypeScript

/-- The three forms of a block: none for an empty text, one line for a text of one line, and else a
line for each line of the text between two lines for the marks. -/
theorem blockDoc_cases (indent : String) (doc : Option String) :
    blockDoc indent doc = [] ∨
      (∃ line, docLines doc = [line] ∧ blockDoc indent doc = [indent ++ "/** " ++ line ++ " */"]) ∨
      blockDoc indent doc = [indent ++ "/**"] ++
        (docLines doc).map (fun line => trimEnd (indent ++ " * " ++ line)) ++
          [indent ++ " */"] := by
  unfold blockDoc
  rcases docLines doc with _ | ⟨line, _ | ⟨line', rest⟩⟩
  · exact Or.inl rfl
  · exact Or.inr (Or.inl ⟨line, rfl, rfl⟩)
  · exact Or.inr (Or.inr rfl)

theorem blockDoc_eq_nil_iff {indent text : String} :
    blockDoc indent (some text) = [] ↔ text = "" := by
  have hlines : docLines (some text) = [] ↔ text = "" := by
    rw [docLines, Text.linesOf, List.map_eq_nil_iff, Text.lines_eq_nil_iff,
      String.toList_eq_nil_iff]
  rw [← hlines, blockDoc]
  rcases docLines (some text) with _ | ⟨line, _ | ⟨line', rest⟩⟩ <;> simp

theorem exists_last_blockDoc {indent : String} {doc : Option String}
    (hne : blockDoc indent doc ≠ []) :
    ∃ last, (blockDoc indent doc).getLast? = some last ∧ "*/".toList <:+ last.toList := by
  rcases blockDoc_cases indent doc with h | ⟨line, -, h⟩ | h
  · exact absurd h hne
  · refine ⟨_, by rw [h]; rfl, (indent ++ "/** " ++ line ++ " ").toList, ?_⟩
    simp [String.toList_append]
  · refine ⟨_, by rw [h]; exact List.getLast?_concat, (indent ++ " ").toList, ?_⟩
    simp [String.toList_append]

section Indent

variable {indent : String} (hindent : '*' ∉ indent.toList)

include hindent

theorem closings_indent (text : String) :
    closings (indent ++ text).toList = closings text.toList := by
  have hlast : indent.toList.getLast? ≠ some '*' := by
    intro hlast
    exact hindent (List.mem_of_getLast? hlast)
  rw [String.toList_append, closings_append_of_last hlast, closings_of_not_mem hindent,
    Nat.zero_add]

/-- A line on its own is between the marks of the block. -/
theorem closings_singleLine (line : String) :
    closings (indent ++ "/** " ++ line ++ " */").toList = closings line.toList + 1 := by
  have hopen : closings "/** ".toList = 0 := by decide
  have hclose : closings " */".toList = 1 := by decide
  rw [String.append_assoc, String.append_assoc, closings_indent hindent, String.toList_append,
    closings_append_of_last (by decide), String.toList_append, closings_append_of_head (by decide)]
  omega

/-- A line among others has a star in front, which is no part of a `*/`. -/
theorem closings_starLine (line : String) :
    closings (trimEnd (indent ++ " * " ++ line)).toList = closings line.toList := by
  have hstar : closings " * ".toList = 0 := by decide
  rw [trimEnd, String.toList_ofList, Text.closings_trimEnd, String.append_assoc,
    closings_indent hindent, String.toList_append, closings_append_of_last (by decide)]
  omega

/-- **A block has one `*/` more than its text.** -/
theorem closings_blockDoc {text : String} (hne : blockDoc indent (some text) ≠ []) :
    closings (join (blockDoc indent (some text))).toList = closings text.toList + 1 := by
  have hsum : ((docLines (some text)).map fun l => closings l.toList).sum =
      closings text.toList := by
    rw [← Text.sum_closings_lines]
    simp [docLines, Text.linesOf, Function.comp_def]
  have hopen : closings (indent ++ "/**").toList = 0 := by
    rw [closings_indent hindent]
    decide
  have hclose : closings (indent ++ " */").toList = 1 := by
    rw [closings_indent hindent]
    decide
  rw [closings_join, ← hsum]
  rcases blockDoc_cases indent (some text) with h | ⟨line, hline, h⟩ | h
  · exact absurd h hne
  · rw [h, hline]
    simp only [List.map_cons, List.map_nil, List.sum_cons, List.sum_nil,
      closings_singleLine hindent]
    omega
  · rw [h]
    simp only [List.map_append, List.map_map, Function.comp_def, closings_starLine hindent,
      List.sum_append, List.map_cons, List.map_nil, List.sum_cons, List.sum_nil, hopen, hclose]
    omega

end Indent

end TypeScript

end Emit

/-! ### The doc comments of a schema -/

namespace Schema

open Emit Text

/-- A text is the doc comment of a declaration that is emitted behind the given indent. -/
inductive HasDoc (s : Schema) : String → String → Prop
  | enum {e : Enum} {doc : String} (he : e ∈ s.enums) (hdoc : e.doc = some doc) : HasDoc s "" doc
  | member {e : Enum} {m : Member} {doc : String} (he : e ∈ s.enums) (hm : m ∈ e.members)
    (hdoc : m.doc = some doc) : HasDoc s "    " doc
  | model {m : Model} {doc : String} (hm : m ∈ s.models) (hdoc : m.doc = some doc) : HasDoc s "" doc
  | field {m : Model} {f : Field} {doc : String} (hm : m ∈ s.models) (hf : f ∈ m.fields)
    (hdoc : f.doc = some doc) : HasDoc s "    " doc

variable {s : Schema} {indent doc : String}

theorem HasDoc.indent_blank (h : s.HasDoc indent doc) : ∀ c ∈ indent.toList, c = ' ' := by
  have hnone : ∀ c ∈ "".toList, c = ' ' := by simp
  have hfour : ∀ c ∈ "    ".toList, c = ' ' := by simp
  cases h with
  | enum _ _ => exact hnone
  | member _ _ _ => exact hfour
  | model _ _ => exact hnone
  | field _ _ _ => exact hfour

/-- **How far doc comments stay in their comments.** Each line of a doc comment with slashes starts
with them and has no line feed, and there is one that ends in a backslash exactly if a line of the
doc comment does, its blanks aside. There is a block unless the doc comment is empty; it ends in
`*/`, and it has no other one exactly if the doc comment has none. -/
theorem docComment_contained (h : s.HasDoc indent doc) :
    (∀ line ∈ slashDoc indent (some doc),
      (indent ++ "///").toList <+: line.toList ∧ '\n' ∉ line.toList) ∧
    ((∃ line ∈ slashDoc indent (some doc), line.toList.getLast? = some '\\') ↔
      ∃ line ∈ linesOf doc, (Emit.trimEnd line).toList.getLast? = some '\\') ∧
    (TypeScript.blockDoc indent (some doc) = [] ↔ doc = "") ∧
    (doc ≠ "" →
      (∃ last, (TypeScript.blockDoc indent (some doc)).getLast? = some last ∧
        "*/".toList <:+ last.toList) ∧
      closings (join (TypeScript.blockDoc indent (some doc))).toList = closings doc.toList + 1 ∧
      (closings (join (TypeScript.blockDoc indent (some doc))).toList = 1 ↔
        ¬ "*/".toList <:+: doc.toList)) := by
  have hblank := h.indent_blank
  have hfeed : '\n' ∉ indent.toList := fun hmem => absurd (hblank _ hmem) (by decide)
  have hstar : '*' ∉ indent.toList := fun hmem => absurd (hblank _ hmem) (by decide)
  refine ⟨fun line => slashDoc_line hfeed, exists_backslash_slashDoc_iff indent doc,
    TypeScript.blockDoc_eq_nil_iff, fun hdoc => ?_⟩
  have hne : TypeScript.blockDoc indent (some doc) ≠ [] :=
    fun h => hdoc (TypeScript.blockDoc_eq_nil_iff.1 h)
  have hcount := TypeScript.closings_blockDoc hstar hne
  refine ⟨TypeScript.exists_last_blockDoc hne, hcount, ?_⟩
  rw [hcount, ← closings_eq_zero_iff]
  omega

/-- A schema text: a doc comment with `*/`, one with a backslash at its end, and one in a block. -/
def docText : String :=
  "/// a */ b\nmodel A\x7b \x7d\n/// c \\\nmodel B\x7b /** d\n e */ f:uint8 \x7d"

/-- The model `A` of `docText`. -/
def docModelA : Model := ⟨"A", [], [], some "a */ b", none, .fixed 0, ⟨2, 7⟩⟩

/-- The model `B` of `docText`. -/
def docModelB : Model :=
  ⟨"B", [⟨"f", .primitive (.scalar .uint8), ⟨some 1, none⟩, [], some "d\ne", some 0, ⟨5, 7⟩⟩], [],
    some "c \\", none, .fixed 1, ⟨4, 7⟩⟩

/-- The schema that `docText` declares, verified and laid out. -/
def docSchema : Schema := ⟨"", [], [docModelA, docModelB], ⟨"", 0, none⟩⟩

theorem ofText_docText : ofText docText "" 0 = .ok docSchema := by decide +kernel

theorem docComment_contained_field :
    docSchema.HasDoc "    " "d\ne" ∧
      TypeScript.blockDoc "    " (some "d\ne") =
        ["    /**", "     * d", "     * e", "     */"] ∧
      closings (join (TypeScript.blockDoc "    " (some "d\ne"))).toList = 1 := by
  have hdoc : docSchema.HasDoc "    " "d\ne" :=
    .field (show docModelB ∈ docSchema.models by decide) (List.mem_singleton.2 rfl) rfl
  have hblock : TypeScript.blockDoc "    " (some "d\ne") =
      ["    /**", "     * d", "     * e", "     */"] := by decide +kernel
  obtain ⟨-, -, -, hcontained⟩ := docComment_contained hdoc
  obtain ⟨-, -, honce⟩ := hcontained (by decide)
  exact ⟨hdoc, hblock, honce.2 (by decide)⟩

/-- **Doc comments can leave their comments.** The block in front of `A` is closed before its last
word, and the head of `B` belongs to the comment in front of it. -/
theorem docComment_escapes :
    ofText docText "" 0 = .ok docSchema ∧ docSchema.models = [docModelA, docModelB] ∧
      (TypeScript.interfaceItem docSchema docModelA).take 2 =
        ["/** a */ b */", "export interface A \x7b"] ∧
      (Cpp.structItem docSchema docModelB).take 2 = ["/// c \\", "struct B \x7b"] :=
  ⟨ofText_docText, rfl, by decide +kernel, by decide +kernel⟩

end Schema

end WireSchema
