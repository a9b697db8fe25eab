import WireSchema.Text.Blank
import WireSchema.Token

/-! # Lexemes

A text is cut into lexemes from the front: white space, comments, strings, numbers, words, marks,
and single characters that are none of these. The lexemes put together are the text. -/

namespace WireSchema

/-- The classes of lexemes. -/
inductive LexemeClass where
  | blank
  | docLine
  | lineComment
  | docBlock
  | blockComment
  | string
  /-- A quote that no later one closes. -/
  | openQuote
  | number
  | word
  | mark
  | stray
  deriving DecidableEq

/-- A lexeme: its class and its text. -/
structure Lexeme where
  kind : LexemeClass
  text : List Char
  deriving DecidableEq

namespace Lexeme

/-- The characters that a word starts with. -/
def isWordStart (c : Char) : Bool := ('A' ≤ c && c ≤ 'Z') || ('a' ≤ c && c ≤ 'z') || c == '_'

/-- A decimal digit. -/
def isDigit (c : Char) : Bool := '0' ≤ c && c ≤ '9'

/-- A hexadecimal digit. -/
def isHexDigit (c : Char) : Bool := isDigit c || ('A' ≤ c && c ≤ 'F') || ('a' ≤ c && c ≤ 'f')

/-- The characters that a word consists of. -/
def isWordPart (c : Char) : Bool := isWordStart c || isDigit c

/-- Cuts behind the first `*/`, or at the end of the text if there is none. -/
def throughClose : List Char → List Char × List Char
  | [] => ([], [])
  | '*' :: '/' :: cs => (['*', '/'], cs)
  | c :: cs =>
    let (a, b) := throughClose cs
    (c :: a, b)

/-- Cuts behind the first `quote` that has no backslash before it, if there is one. -/
def throughQuote (quote : Char) : List Char → Option (List Char × List Char)
  | [] => none
  | '\\' :: [] => none
  | '\\' :: c :: cs => (throughQuote quote cs).map fun (a, b) => ('\\' :: c :: a, b)
  | c :: cs =>
    if c = quote then some ([c], cs) else (throughQuote quote cs).map fun (a, b) => (c :: a, b)

/-- Cuts behind the characters at the front that satisfy `p`. -/
def run (p : Char → Bool) (cs : List Char) : List Char × List Char :=
  (cs.takeWhile p, cs.dropWhile p)

/-- Cuts behind a fraction: a point with digits behind it, or nothing. -/
def fraction : List Char → List Char × List Char
  | '.' :: d :: cs =>
    if isDigit d then
      let (a, b) := run isDigit (d :: cs)
      ('.' :: a, b)
    else ([], '.' :: d :: cs)
  | cs => ([], cs)

/-- Cuts behind the number that starts with the digit `c`. -/
def number (c : Char) (cs : List Char) : List Char × List Char :=
  match c, cs with
  | '0', 'x' :: cs => let (a, b) := run isHexDigit cs; ('0' :: 'x' :: a, b)
  | '0', 'X' :: cs => let (a, b) := run isHexDigit cs; ('0' :: 'X' :: a, b)
  | c, cs =>
    let (a, b) := run isDigit cs
    let (f, b) := fraction b
    (c :: a ++ f, b)

/-- Cuts behind the comment whose first character, a slash, stands before `cs`. A comment that
starts with `///`, or with `/**` and no slash right behind it, is a doc comment. -/
def comment? (cs : List Char) : Option (Lexeme × List Char) :=
  match cs with
  | '/' :: '/' :: cs =>
    let (a, b) := run (· != '\n') cs
    some (⟨.docLine, '/' :: '/' :: '/' :: a⟩, b)
  | '/' :: cs =>
    let (a, b) := run (· != '\n') cs
    some (⟨.lineComment, '/' :: '/' :: a⟩, b)
  | '*' :: '*' :: c :: cs =>
    if c = '/' then some (⟨.blockComment, ['/', '*', '*', '/']⟩, cs)
    else
      let (a, b) := throughClose cs
      some (⟨.docBlock, '/' :: '*' :: '*' :: c :: a⟩, b)
  | '*' :: cs =>
    let (a, b) := throughClose cs
    some (⟨.blockComment, '/' :: '*' :: a⟩, b)
  | _ => none

/-- The first lexeme of `c :: cs`, and the text behind it. -/
def first (c : Char) (cs : List Char) : Lexeme × List Char :=
  if Text.isBlank c then
    let (a, b) := run Text.isBlank cs
    (⟨.blank, c :: a⟩, b)
  else if c = '/' then (comment? cs).getD (⟨.stray, [c]⟩, cs)
  else if c = '"' ∨ c = '\'' then
    match throughQuote c cs with
    | some (a, b) => (⟨.string, c :: a⟩, b)
    | none => (⟨.openQuote, [c]⟩, cs)
  else if isDigit c then (⟨.number, (number c cs).1⟩, (number c cs).2)
  else if isWordStart c then
    let (a, b) := run isWordPart cs
    (⟨.word, c :: a⟩, b)
  else if (TokenKind.ofMark? c).isSome then (⟨.mark, [c]⟩, cs)
  else (⟨.stray, [c]⟩, cs)

/-! ### Nothing is lost -/

theorem run_append (p : Char → Bool) (cs : List Char) : (run p cs).1 ++ (run p cs).2 = cs :=
  List.takeWhile_append_dropWhile

theorem throughClose_append (cs : List Char) :
    (throughClose cs).1 ++ (throughClose cs).2 = cs := by
  fun_induction throughClose cs with
  | case1 => rfl
  | case2 cs => rfl
  | case3 c cs _ a b h ih =>
    rw [h] at ih
    simpa using ih

theorem throughQuote_append {quote : Char} {cs a b : List Char}
    (h : throughQuote quote cs = some (a, b)) : a ++ b = cs := by
  fun_induction throughQuote quote cs generalizing a b with
  | case1 => simp at h
  | case2 => simp at h
  | case3 c cs ih =>
    obtain ⟨⟨a', b'⟩, h', he⟩ := Option.map_eq_some_iff.1 h
    cases he
    simp [ih h']
  | case4 =>
    cases h
    rfl
  | case5 c cs _ _ _ ih =>
    obtain ⟨⟨a', b'⟩, h', he⟩ := Option.map_eq_some_iff.1 h
    cases he
    simp [ih h']

theorem fraction_append (cs : List Char) : (fraction cs).1 ++ (fraction cs).2 = cs := by
  unfold fraction
  split
  · split
    · simp [run_append]
    · rfl
  · rfl

theorem number_append (c : Char) (cs : List Char) :
    (number c cs).1 ++ (number c cs).2 = c :: cs := by
  unfold number
  split
  · simp [run_append]
  · simp [run_append]
  · rename_i c cs _ _
    simp only [List.cons_append, List.append_assoc, fraction_append, run_append]

theorem number_ne_nil (c : Char) (cs : List Char) : (number c cs).1 ≠ [] := by
  unfold number
  split <;> simp

theorem comment?_append {cs : List Char} {l : Lexeme} {b : List Char}
    (h : comment? cs = some (l, b)) : l.text ++ b = '/' :: cs := by
  unfold comment? at h
  split at h
  · cases h
    simp
  · cases h
    simp
  · split at h
    · cases h
      simp_all
    · cases h
      simp [throughClose_append]
  · cases h
    simp [throughClose_append]
  · cases h

/-- **The first lexeme and the text behind it are the text.** -/
theorem first_append (c : Char) (cs : List Char) :
    (first c cs).1.text ++ (first c cs).2 = c :: cs := by
  unfold first
  split
  · simp [run_append]
  split
  · rename_i h
    cases h' : comment? cs with
    | none => simp
    | some r => simpa [h] using comment?_append h'
  split
  · split
    · rename_i a b h
      simp [throughQuote_append h]
    · rfl
  split
  · exact number_append c cs
  split
  · simp [run_append]
  split <;> rfl

/-- A lexeme is not empty. -/
theorem first_text_ne_nil (c : Char) (cs : List Char) : (first c cs).1.text ≠ [] := by
  unfold first
  split
  · simp
  split
  · cases h : comment? cs with
    | none => simp
    | some r =>
      obtain ⟨l, b⟩ := r
      unfold comment? at h
      split at h
      · cases h; simp
      · cases h; simp
      · split at h <;> cases h <;> simp
      · cases h; simp
      · cases h
  split
  · split <;> simp
  split
  · exact number_ne_nil c cs
  split
  · simp
  split <;> simp

theorem first_rest_length (c : Char) (cs : List Char) :
    (first c cs).2.length < (c :: cs).length := by
  have h := congrArg List.length (first_append c cs)
  have h' := List.length_pos_iff.2 (first_text_ne_nil c cs)
  rw [List.length_append] at h
  omega

/-- The lexemes of a text. -/
def split : List Char → List Lexeme
  | [] => []
  | c :: cs => (first c cs).1 :: split (first c cs).2
termination_by cs => cs.length
decreasing_by exact first_rest_length c cs

end Lexeme

end WireSchema
