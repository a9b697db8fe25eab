import WireSchema.Token.Lexer
import Mathlib.Tactic.SplitIfs

/-! # Rendered tokens

Tokens whose texts are of the right form for their kinds can be written one in a line, strings in
quotes and doc comments behind `///`. Cut into lexemes again, each line gives back its token: its
first character decides the class of the lexeme, and the line feed ends it (`isLineOf_render`). -/

namespace WireSchema

/-- What a token says, without its place. -/
def Token.said (t : Token) : TokenKind × String := (t.kind, t.text)

/-! ### Texts of tokens -/

/-- A word: a letter or an underscore, and then letters, digits and underscores. -/
def IsWord (cs : List Char) : Prop :=
  ∃ c rest, cs = c :: rest ∧ Lexeme.isWordStart c = true ∧ ∀ x ∈ rest, Lexeme.isWordPart x = true

/-- A numeral: `0x` and hexadecimal digits, or decimal digits with or without a fraction. -/
inductive IsNumeral : List Char → Prop
  | hex {x : Char} {ds : List Char} (hx : x = 'x' ∨ x = 'X')
    (hds : ∀ d ∈ ds, Lexeme.isHexDigit d = true) : IsNumeral ('0' :: x :: ds)
  | whole {ds : List Char} (hne : ds ≠ []) (hds : ∀ d ∈ ds, Lexeme.isDigit d = true) : IsNumeral ds
  | fraction {ds fs : List Char} (hne : ds ≠ []) (hds : ∀ d ∈ ds, Lexeme.isDigit d = true)
    (hfne : fs ≠ []) (hfs : ∀ d ∈ fs, Lexeme.isDigit d = true) : IsNumeral (ds ++ '.' :: fs)

theorem IsNumeral.ne_nil {cs : List Char} (h : IsNumeral cs) : cs ≠ [] := by
  cases h with
  | hex => exact List.cons_ne_nil _ _
  | whole hne => exact hne
  | fraction hne => simp

namespace TokenKind

/-- The keyword of a kind. -/
def keyword? : TokenKind → Option String
  | namespaceWord => some "namespace"
  | modelWord => some "model"
  | enumWord => some "enum"
  | _ => none

/-- The mark of a kind. -/
def mark? : TokenKind → Option Char
  | leftBrace => some '\x7b'
  | rightBrace => some '\x7d'
  | leftParen => some '('
  | rightParen => some ')'
  | leftBracket => some '['
  | rightBracket => some ']'
  | colon => some ':'
  | semicolon => some ';'
  | comma => some ','
  | .at => some '@'
  | question => some '?'
  | dot => some '.'
  | _ => none

/-- The texts that tokens of a kind can have. A token at the end of a text is none of these. -/
def Admits (kind : TokenKind) (text : String) : Prop :=
  match kind with
  | identifier => IsWord text.toList ∧ text ≠ "namespace" ∧ text ≠ "model" ∧ text ≠ "enum"
  | number => IsNumeral text.toList
  | string => True
  | docComment => '\n' ∉ text.toList ∧ Text.trim text.toList = text.toList
  | kind => kind.keyword? = some text ∨ ∃ c, kind.mark? = some c ∧ text = String.singleton c

theorem ofMark?_of_mark? {kind : TokenKind} {c : Char} (h : kind.mark? = some c) :
    ofMark? c = some kind := by
  cases kind <;> cases h <;> rfl

theorem isWord_of_keyword? {kind : TokenKind} {text : String} (h : kind.keyword? = some text) :
    IsWord text.toList ∧ ofWord text = kind := by
  cases kind <;> cases h
  · exact ⟨⟨'n', "amespace".toList, by decide, by decide, List.all_eq_true.1 (by decide)⟩, rfl⟩
  · exact ⟨⟨'m', "odel".toList, by decide, by decide, List.all_eq_true.1 (by decide)⟩, rfl⟩
  · exact ⟨⟨'e', "num".toList, by decide, by decide, List.all_eq_true.1 (by decide)⟩, rfl⟩

end TokenKind

/-! ### Rendering -/

/-- A text as it stands in quotes: a backslash stands before each backslash and each quote. -/
def escape (cs : List Char) : List Char :=
  cs.flatMap fun c => if c = '\\' ∨ c = '"' then ['\\', c] else [c]

/-- A token as it is written. -/
def render : TokenKind × String → List Char
  | (.string, text) => '"' :: (escape text.toList ++ ['"'])
  | (.docComment, text) => ['/', '/', '/', ' '] ++ text.toList
  | (_, text) => text.toList

/-- Tokens as they are written, one in a line. -/
def renderLines (ps : List (TokenKind × String)) : List Char :=
  ps.flatMap fun p => render p ++ ['\n']

namespace Lexeme

/-! ### Characters -/

theorem char_le_iff {a b : Char} : a ≤ b ↔ a.toNat ≤ b.toNat := by
  rw [Char.le_def, UInt32.le_iff_toNat_le]
  rfl

theorem isDigit_iff {c : Char} : isDigit c = true ↔ 48 ≤ c.toNat ∧ c.toNat ≤ 57 := by
  simp only [isDigit, Bool.and_eq_true, decide_eq_true_eq, char_le_iff]
  rfl

theorem isWordStart_iff {c : Char} : isWordStart c = true ↔
    (65 ≤ c.toNat ∧ c.toNat ≤ 90) ∨ (97 ≤ c.toNat ∧ c.toNat ≤ 122) ∨ c.toNat = 95 := by
  have h : c = '_' ↔ c.toNat = 95 := Char.toNat_inj.symm
  simp only [isWordStart, Bool.or_eq_true, Bool.and_eq_true, decide_eq_true_eq, char_le_iff,
    beq_iff_eq, h, or_assoc]
  rfl

theorem isBlank_eq_false {c : Char} (h : 33 ≤ c.toNat ∧ c.toNat ≤ 126) :
    Text.isBlank c = false := by
  rw [← Bool.not_eq_true]
  intro hb
  simp only [Text.isBlank, Bool.or_eq_true, Bool.and_eq_true, decide_eq_true_eq, beq_iff_eq] at hb
  omega

theorem isDigit_eq_false {c : Char} (h : isWordStart c = true) : isDigit c = false := by
  rw [← Bool.not_eq_true, isDigit_iff]
  have := isWordStart_iff.1 h
  omega

/-! ### The lexeme at the front -/

theorem run_append_cons {p : Char → Bool} {a : List Char} (ha : ∀ c ∈ a, p c = true) {d : Char}
    (hd : p d = false) (b : List Char) : run p (a ++ d :: b) = (a, d :: b) := by
  rw [run, List.takeWhile_append_of_pos ha, List.dropWhile_append_of_pos ha,
    List.takeWhile_cons_of_neg (by simp [hd]), List.dropWhile_cons_of_neg (by simp [hd]),
    List.append_nil]

theorem first_word {c : Char} (h : isWordStart c = true) (cs : List Char) :
    first c cs = (⟨.word, c :: (run isWordPart cs).1⟩, (run isWordPart cs).2) := by
  have hblank : Text.isBlank c = false := isBlank_eq_false (by
    have := isWordStart_iff.1 h
    omega)
  have hslash : c ≠ '/' := by rintro rfl; exact absurd h (by decide)
  have hquote : ¬ (c = '"' ∨ c = '\'') := by rintro (rfl | rfl) <;> exact absurd h (by decide)
  simp [first, hblank, hslash, hquote, isDigit_eq_false h, h]

theorem first_number {c : Char} (h : isDigit c = true) (cs : List Char) :
    first c cs = (⟨.number, (number c cs).1⟩, (number c cs).2) := by
  have hblank : Text.isBlank c = false := isBlank_eq_false (by
    have := isDigit_iff.1 h
    omega)
  have hslash : c ≠ '/' := by rintro rfl; exact absurd h (by decide)
  have hquote : ¬ (c = '"' ∨ c = '\'') := by rintro (rfl | rfl) <;> exact absurd h (by decide)
  simp [first, hblank, hslash, hquote, h]

theorem first_string {cs a b : List Char} (h : throughQuote '"' cs = some (a, b)) :
    first '"' cs = (⟨.string, '"' :: a⟩, b) := by
  have hblank : Text.isBlank '"' = false := by decide
  simp [first, hblank, h]

theorem first_docLine (cs : List Char) :
    first '/' ('/' :: '/' :: cs) =
      (⟨.docLine, '/' :: '/' :: '/' :: (run (· != '\n') cs).1⟩, (run (· != '\n') cs).2) := by
  have hblank : Text.isBlank '/' = false := by decide
  simp [first, hblank, comment?]

/-- A line feed alone is blank if what follows is not. -/
theorem first_lineFeed {cs : List Char} (h : ∀ c ∈ cs.head?, Text.isBlank c = false) :
    first '\n' cs = (⟨.blank, ['\n']⟩, cs) := by
  have hblank : Text.isBlank '\n' = true := by decide
  cases cs with
  | nil => simp [first, hblank, run]
  | cons c cs =>
    have hc : Text.isBlank c = false := h c rfl
    simp [first, hblank, run, hc]

/-! ### Numerals -/

theorem number_hex {x : Char} (hx : x = 'x' ∨ x = 'X') {ds : List Char}
    (hds : ∀ d ∈ ds, isHexDigit d = true) (b : List Char) :
    number '0' (x :: ds ++ '\n' :: b) = ('0' :: x :: ds, '\n' :: b) := by
  have hrun : run isHexDigit (ds ++ '\n' :: b) = (ds, '\n' :: b) :=
    run_append_cons hds (by decide) b
  rcases hx with rfl | rfl
  · simp [number, hrun]
  · simp [number, hrun]

/-- A run of digits ends at `d`, and what may follow is a fraction. -/
theorem number_digits (c : Char) {ds : List Char} (hds : ∀ x ∈ ds, isDigit x = true) {d : Char}
    (hd : isDigit d = false) (hx : d ≠ 'x' ∧ d ≠ 'X') (b : List Char) :
    number c (ds ++ d :: b) = (c :: ds ++ (fraction (d :: b)).1, (fraction (d :: b)).2) := by
  have hrun := run_append_cons hds hd b
  generalize hcs : ds ++ d :: b = cs at hrun ⊢
  have hhead : ∀ x, cs.head? = some x → x ≠ 'x' ∧ x ≠ 'X' := by
    intro x h
    subst hcs
    cases ds with
    | nil =>
      cases h
      exact hx
    | cons e ds =>
      cases h
      have he := hds x List.mem_cons_self
      exact ⟨by rintro rfl; exact absurd he (by decide), by rintro rfl; exact absurd he (by decide)⟩
  unfold number
  split
  · exact absurd rfl (hhead 'x' rfl).1
  · exact absurd rfl (hhead 'X' rfl).2
  · rw [hrun]

theorem fraction_lineFeed (b : List Char) : fraction ('\n' :: b) = ([], '\n' :: b) := by
  simp [fraction]

theorem fraction_digits {fs : List Char} (hne : fs ≠ []) (hfs : ∀ d ∈ fs, isDigit d = true)
    (b : List Char) : fraction ('.' :: fs ++ '\n' :: b) = ('.' :: fs, '\n' :: b) := by
  obtain ⟨f, fs, rfl⟩ := List.exists_cons_of_ne_nil hne
  have hrun : run isDigit (f :: fs ++ '\n' :: b) = (f :: fs, '\n' :: b) :=
    run_append_cons hfs (by decide) b
  rw [List.cons_append] at hrun
  simp [fraction, hfs f List.mem_cons_self, hrun]

/-- A numeral in front of a line feed is cut behind its last character. -/
theorem number_numeral {c : Char} {cs : List Char} (h : IsNumeral (c :: cs)) (b : List Char) :
    isDigit c = true ∧ number c (cs ++ '\n' :: b) = (c :: cs, '\n' :: b) := by
  generalize hn : c :: cs = n at h
  cases h with
  | hex hx hds =>
    cases hn
    exact ⟨by decide, number_hex hx hds b⟩
  | whole hne hds =>
    subst hn
    obtain ⟨hc, hcs⟩ := List.forall_mem_cons.1 hds
    refine ⟨hc, ?_⟩
    rw [number_digits c hcs (by decide) (by decide), fraction_lineFeed, List.append_nil]
  | @fraction ds fs hne hds hfne hfs =>
    obtain ⟨d, ds, rfl⟩ := List.exists_cons_of_ne_nil hne
    rw [List.cons_append] at hn
    obtain ⟨rfl, rfl⟩ := List.cons.inj hn
    obtain ⟨hc, hcs⟩ := List.forall_mem_cons.1 hds
    refine ⟨hc, ?_⟩
    rw [List.append_assoc, List.cons_append, number_digits c hcs (by decide) (by decide),
      ← List.cons_append, fraction_digits hfne hfs, List.cons_append]

/-! ### Strings and doc comments -/

theorem throughQuote_escape (cs b : List Char) :
    throughQuote '"' (escape cs ++ '"' :: b) = some (escape cs ++ ['"'], b) := by
  induction cs with
  | nil => simp [escape, throughQuote]
  | cons c cs ih =>
    rw [escape, List.flatMap_cons, ← escape]
    split_ifs with h
    · simp [throughQuote, ih]
    · rw [not_or] at h
      simp [throughQuote, ih, h.1, h.2]

theorem unescape_escape (cs : List Char) : unescape (escape cs) = cs := by
  induction cs with
  | nil => rfl
  | cons c cs ih =>
    rw [escape, List.flatMap_cons, ← escape]
    split_ifs with h
    · rcases h with rfl | rfl <;> simp [unescape, ih]
    · rw [not_or] at h
      simp [unescape, ih, h.1]

theorem trim_cons_space (cs : List Char) : Text.trim (' ' :: cs) = Text.trim cs := by
  rw [Text.trim, Text.trim, Text.trimStart, List.dropWhile_cons_of_pos (by decide), Text.trimStart]

/-! ### One line -/

theorem first_mark {kind : TokenKind} {c : Char} (h : kind.mark? = some c) (cs : List Char) :
    Text.isBlank c = false ∧ first c cs = (⟨.mark, [c]⟩, cs) := by
  cases kind <;> cases h <;> exact ⟨by decide, rfl⟩

/-- The text `cs` in front of a line feed is one lexeme, which makes the token `p`. -/
def IsLineOf (p : TokenKind × String) (cs : List Char) : Prop :=
  ∀ b, ∃ c rest l, cs ++ '\n' :: b = c :: rest ∧ Text.isBlank c = false ∧
    first c rest = (l, '\n' :: b) ∧ l.token? = some p

theorem isLineOf_word {text : String} (h : IsWord text.toList) :
    IsLineOf (TokenKind.ofWord text, text) text.toList := by
  intro b
  obtain ⟨c, rest, hcs, hc, hrest⟩ := h
  have hblank : Text.isBlank c = false := isBlank_eq_false (by
    have := isWordStart_iff.1 hc
    omega)
  refine ⟨c, rest ++ '\n' :: b, ⟨.word, c :: rest⟩, by rw [hcs, List.cons_append], hblank, ?_, ?_⟩
  · rw [first_word hc, run_append_cons hrest (by decide)]
  · rw [token?, ← hcs, String.ofList_toList]

theorem isLineOf_number {text : String} (h : IsNumeral text.toList) :
    IsLineOf (.number, text) text.toList := by
  intro b
  obtain ⟨c, cs, hcs⟩ := List.exists_cons_of_ne_nil h.ne_nil
  rw [hcs] at h ⊢
  obtain ⟨hc, hnumber⟩ := number_numeral h b
  have hblank : Text.isBlank c = false := isBlank_eq_false (by
    have := isDigit_iff.1 hc
    omega)
  refine ⟨c, cs ++ '\n' :: b, ⟨.number, c :: cs⟩, by rw [List.cons_append], hblank, ?_, ?_⟩
  · rw [first_number hc, hnumber]
  · rw [token?, ← hcs, String.ofList_toList]

theorem isLineOf_mark {kind : TokenKind} {c : Char} (h : kind.mark? = some c) :
    IsLineOf (kind, String.singleton c) [c] := by
  intro b
  obtain ⟨hblank, hfirst⟩ := first_mark h ('\n' :: b)
  refine ⟨c, '\n' :: b, ⟨.mark, [c]⟩, rfl, hblank, hfirst, ?_⟩
  simp [token?, TokenKind.ofMark?_of_mark? h]

theorem isLineOf_string (text : String) :
    IsLineOf (.string, text) ('"' :: (escape text.toList ++ ['"'])) := by
  intro b
  refine ⟨'"', escape text.toList ++ '"' :: '\n' :: b, _, by simp, by decide,
    first_string (throughQuote_escape text.toList ('\n' :: b)), ?_⟩
  simp [token?, unescape_escape]

theorem isLineOf_docComment {text : String} (hline : '\n' ∉ text.toList)
    (htrim : Text.trim text.toList = text.toList) :
    IsLineOf (.docComment, text) (['/', '/', '/', ' '] ++ text.toList) := by
  intro b
  have hrun : run (· != '\n') (' ' :: text.toList ++ '\n' :: b) =
      (' ' :: text.toList, '\n' :: b) := by
    refine run_append_cons (fun c hc => ?_) (by decide) b
    rcases List.mem_cons.1 hc with rfl | hc
    · decide
    · simpa using fun h : c = '\n' => hline (h ▸ hc)
  refine ⟨'/', '/' :: '/' :: (' ' :: text.toList ++ '\n' :: b), _, rfl, by decide,
    (first_docLine _).trans (by rw [hrun]), ?_⟩
  simp [token?, trim_cons_space, htrim]

/-- **A token is the only lexeme of its line.** -/
theorem isLineOf_render {p : TokenKind × String} (h : p.1.Admits p.2) : IsLineOf p (render p) := by
  obtain ⟨kind, text⟩ := p
  have hfixed : kind.keyword? = some text ∨ (∃ c, kind.mark? = some c ∧ text = String.singleton c) →
      IsLineOf (kind, text) text.toList := by
    rintro (hk | ⟨c, hc, rfl⟩)
    · obtain ⟨hword, rfl⟩ := TokenKind.isWord_of_keyword? hk
      exact isLineOf_word hword
    · rw [String.toList_singleton]
      exact isLineOf_mark hc
  cases kind with
  | identifier =>
    obtain ⟨hword, h1, h2, h3⟩ := h
    have := isLineOf_word hword
    rwa [TokenKind.ofWord, if_neg h1, if_neg h2, if_neg h3] at this
  | number => exact isLineOf_number h
  | string => exact isLineOf_string text
  | docComment => exact isLineOf_docComment h.1 h.2
  | _ => exact hfixed h

/-! ### All lines -/

theorem isBlank_head_renderLines {ps : List (TokenKind × String)}
    (h : ∀ p ∈ ps, p.1.Admits p.2) : ∀ c ∈ (renderLines ps).head?, Text.isBlank c = false := by
  intro c hc
  cases ps with
  | nil => cases hc
  | cons p ps =>
    obtain ⟨d, rest, l, hcs, hd, -⟩ := isLineOf_render (h p List.mem_cons_self) (renderLines ps)
    have hlines : renderLines (p :: ps) = d :: rest := by
      rw [← hcs]
      simp [renderLines]
    rw [hlines] at hc
    cases hc
    exact hd

/-- The lexemes of the lines are the tokens, with a line feed behind each. -/
theorem split_renderLines {ps : List (TokenKind × String)} (h : ∀ p ∈ ps, p.1.Admits p.2) :
    (split (renderLines ps)).filterMap token? = ps ∧
      ∀ l ∈ split (renderLines ps), l.kind ≠ .openQuote := by
  induction ps with
  | nil => simp [renderLines, split]
  | cons p ps ih =>
    obtain ⟨hp, hps⟩ := List.forall_mem_cons.1 h
    obtain ⟨c, rest, l, hcs, -, hfirst, htoken⟩ := isLineOf_render hp (renderLines ps)
    have hlines : renderLines (p :: ps) = c :: rest := by
      rw [← hcs]
      simp [renderLines]
    have hsplit : split (renderLines (p :: ps)) =
        l :: ⟨.blank, ['\n']⟩ :: split (renderLines ps) := by
      rw [hlines, split, hfirst, split, first_lineFeed (isBlank_head_renderLines hps)]
    have hquote : l.kind ≠ .openQuote := by
      intro hk
      simp [token?, hk] at htoken
    obtain ⟨htokens, hquotes⟩ := ih hps
    rw [hsplit]
    refine ⟨?_, ?_⟩
    · rw [List.filterMap_cons_some htoken, List.filterMap_cons_none rfl, htokens]
    · exact List.forall_mem_cons.2 ⟨hquote, List.forall_mem_cons.2 ⟨by decide, hquotes⟩⟩

theorem map_said_place (ls : List Lexeme) (p : Position) :
    ((place p ls).filterMap Token.ofLexeme?).map Token.said = ls.filterMap token? := by
  induction ls generalizing p with
  | nil => rfl
  | cons l ls ih =>
    rw [place]
    cases hl : l.token? with
    | none => rw [List.filterMap_cons_none (by simp [Token.ofLexeme?, hl]),
        List.filterMap_cons_none hl, ih]
    | some q => rw [List.filterMap_cons_some (by simp only [Token.ofLexeme?, hl]; rfl),
        List.filterMap_cons_some hl, List.map_cons, ih]; rfl

theorem mem_of_mem_place {ls : List Lexeme} {p : Position} {x : Position × Lexeme}
    (h : x ∈ place p ls) : x.2 ∈ ls := by
  induction ls generalizing p with
  | nil => cases h
  | cons l ls ih =>
    rcases List.mem_cons.1 h with rfl | h
    · exact List.mem_cons_self
    · exact List.mem_cons_of_mem l (ih h)

end Lexeme

namespace Token

/-- **Tokens that are written one in a line are read back,** whatever their texts, and the mark of
the end stands behind them. -/
theorem ofText_renderLines {ps : List (TokenKind × String)} (h : ∀ p ∈ ps, p.1.Admits p.2) :
    ∃ ts, ofText (String.ofList (renderLines ps)) = .ok ts ∧
      ts.map said = ps ++ [(.eof, "")] := by
  obtain ⟨htokens, hquotes⟩ := Lexeme.split_renderLines h
  have hfind : (Lexeme.place Position.start (Lexeme.split (renderLines ps))).find?
      (·.2.kind == .openQuote) = none := by
    rw [List.find?_eq_none]
    intro x hx
    simpa using hquotes x.2 (Lexeme.mem_of_mem_place hx)
  refine ⟨_, by rw [ofText, String.toList_ofList, ofChars, hfind], ?_⟩
  rw [List.map_append, Lexeme.map_said_place, htokens]
  rfl

/-- A string that holds quotes, backslashes, a line feed and the start of a comment, between other
tokens. -/
def renderSample : List (TokenKind × String) :=
  [(.docComment, "a \"doc\" // é"), (.at, "@"), (.identifier, "model_1"), (.number, "0x1F"),
    (.number, "2.50"), (.string, "\\\" /* \\ \n\"\\"), (.modelWord, "model")]

theorem ofText_renderLines_sample :
    (∀ p ∈ renderSample, p.1.Admits p.2) ∧
      ∃ ts, ofText (String.ofList (renderLines renderSample)) = .ok ts ∧
        ts.map said = renderSample ++ [(.eof, "")] := by
  have hword : IsWord "model_1".toList :=
    ⟨'m', "odel_1".toList, by decide, by decide, List.all_eq_true.1 (by decide)⟩
  have hhex : IsNumeral "0x1F".toList :=
    .hex (.inl rfl) (List.all_eq_true.1 (show ['1', 'F'].all _ = true by decide))
  have hfraction : IsNumeral "2.50".toList :=
    .fraction (List.cons_ne_nil '2' []) (List.all_eq_true.1 (by decide))
      (List.cons_ne_nil '5' ['0']) (List.all_eq_true.1 (by decide))
  have hadmits : ∀ p ∈ renderSample, p.1.Admits p.2 := by
    simp only [renderSample, List.forall_mem_cons]
    exact ⟨⟨by decide, by decide⟩, .inr ⟨'@', rfl, rfl⟩,
      ⟨hword, by decide, by decide, by decide⟩, hhex, hfraction, trivial, .inl rfl,
      List.forall_mem_nil _⟩
  exact ⟨hadmits, ofText_renderLines hadmits⟩

end Token

end WireSchema
