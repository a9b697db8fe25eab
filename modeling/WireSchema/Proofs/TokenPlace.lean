import WireSchema.Proofs.Lexed

/-! # Places of tokens

A token stands in the line behind the line feeds before its lexeme, and in the column behind the
characters since the last of them (`Position.behind`). The places that are kept while the text is
cut are these, whatever the lexemes before it hold (`Position.after_behind`).

`ofText_placed` says which tokens a text has, and when it has none: if a quote that nothing closes
stands in no comment and no string, the error is at the first of them. -/

namespace WireSchema

/-! ### Lines and columns -/

namespace Position

/-- The place behind a text. -/
def behind (front : List Char) : Position :=
  ⟨1 + front.count '\n', 1 + (front.reverse.takeWhile (· != '\n')).length⟩

theorem next_behind (front : List Char) (c : Char) :
    (behind front).next c = behind (front ++ [c]) := by
  unfold next behind
  split
  · next hc => simp [hc, Nat.add_assoc]
  · next hc => simp [hc, Nat.add_comm]

/-- **Places go on behind a text** as they would if the whole text were counted. -/
theorem after_behind (front text : List Char) :
    (behind front).after text = behind (front ++ text) := by
  induction text generalizing front with
  | nil => rw [List.append_nil]; rfl
  | cons c text ih =>
    change ((behind front).next c).after text = _
    rw [next_behind, ih, List.append_assoc, List.singleton_append]

theorem after_start (text : List Char) : start.after text = behind text := after_behind [] text

end Position

namespace LexemeClass

/-- White space, comments that are not kept, and characters that mean nothing. -/
def isSkipped : LexemeClass → Bool
  | blank | lineComment | blockComment | stray => true
  | _ => false

/-- The classes in whose texts a quote is a character like any other, or ends them. -/
def isCommentOrString : LexemeClass → Bool
  | docLine | lineComment | docBlock | blockComment | string => true
  | _ => false

end LexemeClass

namespace Lexeme

variable {l l' : Lexeme} {ls before behind : List Lexeme} {cs front rest : List Char} {q : Char}

/-! ### Lexemes in a text -/

/-- The text of lexemes. -/
def textOf (ls : List Lexeme) : List Char := ls.flatMap (·.text)

@[simp] theorem textOf_nil : textOf [] = [] := rfl

@[simp] theorem textOf_cons : textOf (l :: ls) = l.text ++ textOf ls := List.flatMap_cons

@[simp] theorem textOf_append : textOf (before ++ ls) = textOf before ++ textOf ls :=
  List.flatMap_append

theorem Lexed.textOf_eq (h : Lexed cs ls) : textOf ls = cs := by
  induction h with
  | nil => rfl
  | cons _ _ ih => rw [textOf_cons, ih]

theorem Lexed.isLexeme (h : Lexed cs (before ++ l :: behind)) : IsLexeme l (textOf behind) := by
  induction before generalizing cs with
  | nil =>
    cases h with
    | cons hl hrest => rwa [hrest.textOf_eq]
  | cons _ before ih =>
    cases h with
    | cons _ hrest => exact ih hrest

/-- Each character stands in a lexeme. -/
theorem exists_lexeme_at {i : Nat} (hi : i < (textOf ls).length) :
    ∃ before l behind, ls = before ++ l :: behind ∧ (textOf before).length ≤ i ∧
      i < (textOf before).length + l.text.length := by
  induction ls generalizing i with
  | nil => exact absurd hi (Nat.not_lt_zero i)
  | cons l ls ih =>
    rw [textOf_cons, List.length_append] at hi
    by_cases hl : i < l.text.length
    · exact ⟨[], l, ls, rfl, Nat.zero_le i, by simpa using hl⟩
    · obtain ⟨before, l', behind, rfl, hle, hlt⟩ := ih (i := i - l.text.length) (by omega)
      refine ⟨l :: before, l', behind, rfl, ?_, ?_⟩
      · rw [textOf_cons, List.length_append]
        omega
      · rw [textOf_cons, List.length_append]
        omega

/-- A character stands in one lexeme only. -/
theorem lexeme_at_unique {before' behind' : List Lexeme} {i : Nat}
    (heq : before ++ l :: behind = before' ++ l' :: behind')
    (hle : (textOf before).length ≤ i) (hlt : i < (textOf before).length + l.text.length)
    (hle' : (textOf before').length ≤ i) (hlt' : i < (textOf before').length + l'.text.length) :
    before = before' ∧ l = l' := by
  rcases List.append_eq_append_iff.1 heq with ⟨x, rfl, hx⟩ | ⟨x, rfl, hx⟩
  · cases x with
    | nil =>
      cases hx
      exact ⟨by simp, rfl⟩
    | cons d x =>
      cases hx
      rw [textOf_append, textOf_cons, List.length_append, List.length_append] at hle'
      omega
  · cases x with
    | nil =>
      cases hx
      exact ⟨by simp, rfl⟩
    | cons d x =>
      cases hx
      rw [textOf_append, textOf_cons, List.length_append, List.length_append] at hle
      omega

/-! ### Tokens of lexemes -/

/-- The tokens `ts` of the lexemes `ls`, which stand behind the text `front`. Each lexeme is skipped
or makes a token where it starts, and the last token is the end of the text. -/
inductive Tokenized : List Char → List Lexeme → List Token → Prop
  | done (front : List Char) : Tokenized front [] [⟨.eof, "", .behind front⟩]
  | skip {front : List Char} {l : Lexeme} {ls : List Lexeme} {ts : List Token}
    (hl : l.kind.isSkipped = true) (h : Tokenized (front ++ l.text) ls ts) :
    Tokenized front (l :: ls) ts
  | token {front : List Char} {l : Lexeme} {ls : List Lexeme} {ts : List Token} {kind : TokenKind}
    {text : String} (hl : l.token? = some (kind, text)) (h : Tokenized (front ++ l.text) ls ts) :
    Tokenized front (l :: ls) (⟨kind, text, .behind front⟩ :: ts)

theorem token?_of_isSkipped (h : l.kind.isSkipped = true) : l.token? = none := by
  unfold token?
  split <;> simp_all [LexemeClass.isSkipped]

/-- A lexeme that is not skipped makes a token, unless it is a quote that nothing closes. -/
theorem IsLexeme.exists_token? (h : IsLexeme l rest) (hskip : l.kind.isSkipped = false)
    (hquote : l.kind ≠ .openQuote) : ∃ kind text, l.token? = some (kind, text) := by
  obtain ⟨kind, text⟩ := l
  cases kind with
  | mark =>
    obtain ⟨c, kind, rfl, hc⟩ := h.fits
    exact ⟨kind, _, by simp [token?, hc]; rfl⟩
  | openQuote => exact absurd rfl hquote
  | blank => cases hskip
  | lineComment => cases hskip
  | blockComment => cases hskip
  | stray => cases hskip
  | _ => exact ⟨_, _, rfl⟩

/-- **The tokens of lexemes,** none of which is a quote that nothing closes. -/
theorem tokenized_iff {ts : List Token}
    (h : ∀ l ∈ ls, l.kind.isSkipped = true ∨ ∃ kind text, l.token? = some (kind, text)) :
    Tokenized front ls ts ↔ ts = (place (.behind front) ls).filterMap Token.ofLexeme? ++
      [⟨.eof, "", .behind (front ++ textOf ls)⟩] := by
  induction ls generalizing front ts with
  | nil =>
    constructor
    · intro h
      cases h
      simp [place]
    · rintro rfl
      simpa [place] using Tokenized.done front
  | cons l ls ih =>
    obtain ⟨hl, hls⟩ := List.forall_mem_cons.1 h
    have hplace : place (.behind front) (l :: ls) =
        (.behind front, l) :: place (.behind (front ++ l.text)) ls := by
      rw [place, Position.after_behind]
    rw [hplace, textOf_cons, ← List.append_assoc]
    rcases hl with hskip | ⟨kind, text, hl⟩
    · have hnone := token?_of_isSkipped hskip
      rw [List.filterMap_cons_none (by simp [Token.ofLexeme?, hnone]), ← ih hls]
      constructor
      · intro h
        cases h with
        | skip _ h => exact h
        | token hl _ => simp [hnone] at hl
      · exact .skip hskip
    · have hsome : Token.ofLexeme? (.behind front, l) = some ⟨kind, text, .behind front⟩ := by
        simp [Token.ofLexeme?, hl]
      rw [List.filterMap_cons_some hsome, List.cons_append]
      constructor
      · intro h
        cases h with
        | skip hskip _ => simp [token?_of_isSkipped hskip] at hl
        | token hl' h =>
          rw [hl] at hl'
          cases hl'
          rw [(ih hls).1 h]
      · rintro rfl
        exact .token hl ((ih hls).2 rfl)

theorem Tokenized.ne_openQuote {ts : List Token} (h : Tokenized front ls ts) :
    ∀ l ∈ ls, l.kind ≠ .openQuote := by
  induction h with
  | done front => simp
  | skip hl _ ih =>
    refine List.forall_mem_cons.2 ⟨fun hk => ?_, ih⟩
    simp [hk, LexemeClass.isSkipped] at hl
  | token hl _ ih =>
    refine List.forall_mem_cons.2 ⟨fun hk => ?_, ih⟩
    simp [hk, token?] at hl

/-! ### Quotes that nothing closes -/

/-- The character behind `front` stands in none of the comments and strings. -/
def Outside (ls : List Lexeme) (front : List Char) : Prop :=
  ∀ before l behind, ls = before ++ l :: behind → l.kind.isCommentOrString = true →
    ¬ ((textOf before).length ≤ front.length ∧
      front.length < (textOf before).length + l.text.length)

/-- In the text `cs` with the lexemes `ls`, a quote stands behind `front`. It stands in no comment
and no string, and nothing closes it. -/
structure OpensAt (cs : List Char) (ls : List Lexeme) (front : List Char) : Prop where
  unclosed : ∃ q rest, cs = front ++ q :: rest ∧ IsQuote q ∧ Unclosed q rest
  outside : Outside ls front

/-- The characters of a numeral. -/
theorem isHexDigit_of_mem_numeral {c : Char} (h : IsNumeral cs) (hc : c ∈ cs) :
    isHexDigit c = true ∨ c = 'x' ∨ c = 'X' ∨ c = '.' := by
  have hdigit : ∀ d, isDigit d = true → isHexDigit d = true := fun d hd => by simp [isHexDigit, hd]
  cases h with
  | @hex x ds hx hds =>
    rcases List.mem_cons.1 hc with rfl | hc
    · exact .inl (by decide)
    · rcases List.mem_cons.1 hc with rfl | hc
      · exact .inr (hx.imp_right .inl)
      · exact .inl (hds c hc)
  | whole _ hds => exact .inl (hdigit c (hds c hc))
  | @fraction ds fs _ hds _ hfs =>
    rcases List.mem_append.1 hc with hc | hc
    · exact .inl (hdigit c (hds c hc))
    · rcases List.mem_cons.1 hc with rfl | hc
      · exact .inr (.inr (.inr rfl))
      · exact .inl (hdigit c (hfs c hc))

/-- A quote that stands in no comment and no string is a lexeme of its own. -/
theorem IsLexeme.kind_of_quote (h : IsLexeme l rest) (hq : IsQuote q) (hmem : q ∈ l.text)
    (hk : l.kind.isCommentOrString = false) : l.kind = .openQuote := by
  obtain ⟨kind, text⟩ := l
  have hfits := h.fits
  cases kind with
  | openQuote => rfl
  | blank =>
    have hblank := hfits.1.2 q hmem
    rcases hq with rfl | rfl <;> exact absurd hblank (by decide)
  | number =>
    have hdigit := isHexDigit_of_mem_numeral hfits.1 hmem
    rcases hq with rfl | rfl <;> exact absurd hdigit (by decide)
  | word =>
    obtain ⟨⟨c, rest, rfl, hc, hrest⟩, -⟩ := hfits
    have hpart : isWordPart q = true := by
      rcases List.mem_cons.1 hmem with rfl | hmem
      · simp [isWordPart, hc]
      · exact hrest q hmem
    rcases hq with rfl | rfl <;> exact absurd hpart (by decide)
  | mark =>
    obtain ⟨c, kind, rfl, hc⟩ := hfits
    rw [← List.mem_singleton.1 hmem] at hc
    rcases hq with rfl | rfl <;> cases hc
  | stray =>
    -- the class of single quotes is tried before, and fits
    obtain ⟨c, rfl⟩ := hfits
    cases List.mem_singleton.1 hmem
    exact absurd ⟨q, hq, rfl⟩ (h.earliest .openQuote (by simp [LexemeClass.rank]) [q] rest rfl)
  | _ => cases hk

theorem Lexed.opensAt (h : Lexed cs (before ++ l :: behind)) (hl : l.kind = .openQuote) :
    OpensAt cs (before ++ l :: behind) (textOf before) := by
  have hlex := h.isLexeme
  have htext := h.textOf_eq
  obtain ⟨kind, text⟩ := l
  cases hl
  obtain ⟨q, hq, rfl⟩ := hlex.fits
  refine ⟨⟨q, textOf behind, by rw [← htext]; simp, hq, ?_⟩, ?_⟩
  · refine unclosed_of_throughQuote hq.ne_backslash ?_
    cases hcut : throughQuote q (textOf behind) with
    | none => rfl
    | some r =>
      -- a string would start here, and its class is tried before
      obtain ⟨a, b⟩ := r
      obtain ⟨body, rfl, hend⟩ := exists_stringEnd_of_throughQuote hq.ne_backslash hcut
      exact absurd ⟨q, body, hq, rfl, hend⟩ (hlex.earliest .string (by simp [LexemeClass.rank]) _ b
        (congrArg (q :: ·) (throughQuote_append hcut)))
  · rintro before' l' behind' heq hk ⟨hle, hlt⟩
    obtain ⟨-, rfl⟩ := lexeme_at_unique heq le_rfl (by simp) hle hlt
    cases hk

theorem Lexed.exists_openQuote (h : Lexed cs ls) (hopen : OpensAt cs ls front) :
    ∃ before l behind, ls = before ++ l :: behind ∧ l.kind = .openQuote ∧
      (textOf before).length ≤ front.length := by
  obtain ⟨⟨q, rest, rfl, hq, -⟩, houtside⟩ := hopen
  have htext := h.textOf_eq
  have hlength : front.length < (textOf ls).length := by
    rw [htext]
    simp
  obtain ⟨before, l, behind, rfl, hle, hlt⟩ := exists_lexeme_at hlength
  refine ⟨before, l, behind, rfl, ?_, hle⟩
  have hmem : q ∈ l.text := by
    have hget := congrArg (·[front.length]?) htext
    simp only [textOf_append, textOf_cons] at hget
    rw [List.getElem?_append_right hle, List.getElem?_append_left (by omega),
      List.getElem?_append_right le_rfl, Nat.sub_self, List.getElem?_cons_zero] at hget
    exact List.mem_of_getElem? hget
  refine h.isLexeme.kind_of_quote hq hmem ?_
  by_contra hk
  exact houtside before l behind rfl (by simpa using hk) ⟨hle, hlt⟩

/-- No quote that nothing closes stands before the first one. -/
theorem length_textOf_le_of_first {before' behind' : List Lexeme}
    (heq : before ++ l :: behind = before' ++ l' :: behind')
    (hbefore : ∀ x ∈ before, x.kind ≠ .openQuote) (hl' : l'.kind = .openQuote) :
    (textOf before).length ≤ (textOf before').length := by
  rcases List.append_eq_append_iff.1 heq with ⟨x, rfl, -⟩ | ⟨x, rfl, hx⟩
  · rw [textOf_append, List.length_append]
    omega
  · cases x with
    | nil => simp
    | cons d x =>
      cases hx
      exact absurd hl' (hbefore l' (by simp))

theorem place_append (p : Position) :
    place p (before ++ ls) = place p before ++ place (p.after (textOf before)) ls := by
  induction before generalizing p with
  | nil => rfl
  | cons l before ih =>
    rw [List.cons_append, place, place, ih, textOf_cons, List.cons_append, Position.after,
      Position.after, Position.after, List.foldl_append]

end Lexeme

namespace Token

open Lexeme

variable {cs : List Char} {before behind : List Lexeme} {l : Lexeme}

/-- The first quote that nothing closes is the error. -/
theorem ofChars_of_openQuote (hsplit : split cs = before ++ l :: behind)
    (hl : l.kind = .openQuote) (hbefore : ∀ x ∈ before, x.kind ≠ .openQuote) :
    ofChars cs = .error ⟨.behind (textOf before), .unterminatedString⟩ := by
  have hplace : place .start (split cs) =
      place .start before ++ (.behind (textOf before), l) ::
        place (.behind (textOf before ++ l.text)) behind := by
    rw [hsplit, place_append, place, Position.after_start, Position.after_behind]
  have hnone : (place .start before).find? (·.2.kind == .openQuote) = none := by
    rw [List.find?_eq_none]
    intro x hx
    simpa using hbefore x.2 (mem_of_mem_place hx)
  have hfind : (place .start (split cs)).find? (·.2.kind == .openQuote) =
      some (.behind (textOf before), l) := by
    rw [hplace, List.find?_append, hnone, Option.none_or, List.find?_cons_of_pos (by simp [hl])]
  rw [ofChars, hfind]

theorem ofChars_of_forall_ne (h : ∀ l ∈ split cs, l.kind ≠ .openQuote) :
    ofChars cs = .ok ((place .start (split cs)).filterMap ofLexeme? ++
      [⟨.eof, "", .behind cs⟩]) := by
  have hfind : (place .start (split cs)).find? (·.2.kind == .openQuote) = none := by
    rw [List.find?_eq_none]
    intro x hx
    simpa using h x.2 (mem_of_mem_place hx)
  rw [ofChars, hfind, Position.after_start]

/-- The tokens of a text, or the first quote that nothing closes. -/
theorem ofChars_cases (cs : List Char) :
    ((∀ l ∈ split cs, l.kind ≠ .openQuote) ∧
      ofChars cs = .ok ((place .start (split cs)).filterMap ofLexeme? ++
        [⟨.eof, "", .behind cs⟩])) ∨
    ∃ before l behind, split cs = before ++ l :: behind ∧ l.kind = .openQuote ∧
      (∀ x ∈ before, x.kind ≠ .openQuote) ∧
      ofChars cs = .error ⟨.behind (textOf before), .unterminatedString⟩ := by
  cases hfind : (split cs).find? (·.kind == .openQuote) with
  | none =>
    have hne : ∀ l ∈ split cs, l.kind ≠ .openQuote := by simpa using List.find?_eq_none.1 hfind
    exact .inl ⟨hne, ofChars_of_forall_ne hne⟩
  | some l =>
    obtain ⟨hl, before, behind, hsplit, hbefore⟩ := List.find?_eq_some_iff_append.1 hfind
    have hkind : l.kind = .openQuote := by simpa using hl
    have hne : ∀ x ∈ before, x.kind ≠ .openQuote := by simpa using hbefore
    exact .inr ⟨before, l, behind, hsplit, hkind, hne, ofChars_of_openQuote hsplit hkind hne⟩

/-- **The tokens of a text and their places.** A text is lexed in exactly one way. If it has tokens,
they are those of its lexemes. If it has none, the error is at the first quote that nothing closes
and that stands in no comment and no string; and where there is such a quote, it has none. -/
theorem ofText_placed (text : String) :
    ∃ ls, (∀ ls', Lexed text.toList ls' ↔ ls' = ls) ∧
      (∀ ts, ofText text = .ok ts ↔ Tokenized [] ls ts) ∧
      (∀ e, ofText text = .error e → ∃ front, OpensAt text.toList ls front ∧
        (∀ front', OpensAt text.toList ls front' → front.length ≤ front'.length) ∧
        e = ⟨.behind front, .unterminatedString⟩ ∧
        e.fault.message = "unterminated string literal") ∧
      ∀ front, OpensAt text.toList ls front → ∃ e, ofText text = .error e := by
  have hlexed : Lexed text.toList (split text.toList) := lexed_iff.2 rfl
  refine ⟨split text.toList, fun ls' => lexed_iff, ?_⟩
  rw [ofText]
  rcases ofChars_cases text.toList with
    ⟨hne, hok⟩ | ⟨before, l, behind, hsplit, hkind, hne, herror⟩
  · have hcases : ∀ l ∈ split text.toList,
        l.kind.isSkipped = true ∨ ∃ kind text, l.token? = some (kind, text) := by
      intro l hl
      obtain ⟨before, behind, hsplit⟩ := List.append_of_mem hl
      rw [hsplit] at hlexed
      by_cases hskip : l.kind.isSkipped = true
      · exact .inl hskip
      · exact .inr (hlexed.isLexeme.exists_token? (by simpa using hskip) (hne l hl))
    rw [hok]
    refine ⟨fun ts => ?_, fun e he => (by cases he), fun front hopen => ?_⟩
    · rw [tokenized_iff hcases, hlexed.textOf_eq, List.nil_append]
      exact ⟨fun h => by cases h; rfl, fun h => h ▸ rfl⟩
    · obtain ⟨before, l, behind, hsplit, hl, -⟩ := hlexed.exists_openQuote hopen
      exact absurd hl (hne l (by simp [hsplit]))
  · rw [herror]
    refine ⟨fun ts => ⟨fun h => (by cases h), fun h => ?_⟩, fun e he => ?_, fun _ _ => ⟨_, rfl⟩⟩
    · exact absurd hkind (h.ne_openQuote l (by simp [hsplit]))
    · cases he
      rw [hsplit] at hlexed ⊢
      refine ⟨textOf before, hlexed.opensAt hkind, fun front' hopen => ?_, rfl, rfl⟩
      obtain ⟨before', l', behind', heq, hl', hle⟩ := hlexed.exists_openQuote hopen
      exact (length_textOf_le_of_first heq hne hl').trans hle

end Token

end WireSchema
