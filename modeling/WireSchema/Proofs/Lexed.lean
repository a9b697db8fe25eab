import WireSchema.Proofs.LexemeEnd

/-! # Lexed texts

The classes of lexemes are tried in a fixed order, and the first one that fits at a place takes its
text (`IsLexeme`). A text that is cut in this way from its start to its end is `Lexed`. There is
exactly one way to do so, which is the one of `Lexeme.split` (`lexed_iff`). -/

namespace WireSchema

open Lexeme

/-- White space. -/
def IsSpace (cs : List Char) : Prop := cs ≠ [] ∧ ∀ c ∈ cs, Text.isBlank c = true

/-- Text in one line, with `start` in front. -/
def IsLine (start cs : List Char) : Prop := ∃ line, cs = start ++ line ∧ '\n' ∉ line

/-- The marks in which a string stands. -/
def IsQuote (c : Char) : Prop := c = '"' ∨ c = '\''

theorem IsQuote.ne_backslash {c : Char} (h : IsQuote c) : c ≠ '\\' := by
  rcases h with rfl | rfl <;> decide

namespace LexemeClass

variable {k : LexemeClass} {a b a' b' : List Char} {c : Char} {cs : List Char}

/-- The order in which the classes are tried. -/
def rank : LexemeClass → Nat
  | blank => 0
  | docLine => 1
  | lineComment => 2
  | docBlock => 3
  | blockComment => 4
  | string => 5
  | openQuote => 6
  | number => 7
  | word => 8
  | mark => 9
  | stray => 10

theorem rank_injective : Function.Injective rank := by
  intro j k h
  cases j <;> cases k <;> first | rfl | cases h

/-- A class takes the text `a` if `b` stands behind it. -/
def Fits (a b : List Char) : LexemeClass → Prop
  | blank => Longest IsSpace a b
  | docLine => Longest (IsLine ['/', '/', '/']) a b
  | lineComment => Longest (IsLine ['/', '/']) a b
  | docBlock => ∃ c body, a = '/' :: '*' :: '*' :: c :: body ∧ c ≠ '/' ∧ BlockEnd body b
  | blockComment => ∃ body, a = '/' :: '*' :: body ∧ BlockEnd body b
  | string => ∃ q body, IsQuote q ∧ a = q :: (body ++ [q]) ∧ StringEnd q body
  | openQuote => ∃ q, IsQuote q ∧ a = [q]
  | number => Longest IsNumeral a b
  | word => Longest IsWord a b
  | mark => ∃ c kind, a = [c] ∧ TokenKind.ofMark? c = some kind
  | stray => ∃ c, a = [c]

/-- **A class takes one text at most.** -/
theorem Fits.unique (h : k.Fits a b) (h' : k.Fits a' b') (heq : a ++ b = a' ++ b') :
    a = a' ∧ b = b' := by
  cases k with
  | blank => exact Longest.unique h h' heq
  | docLine => exact Longest.unique h h' heq
  | lineComment => exact Longest.unique h h' heq
  | number => exact Longest.unique h h' heq
  | word => exact Longest.unique h h' heq
  | docBlock =>
    obtain ⟨c, body, rfl, -, hend⟩ := h
    obtain ⟨c', body', rfl, -, hend'⟩ := h'
    simp only [List.cons_append, List.cons.injEq, true_and] at heq
    obtain ⟨rfl, heq⟩ := heq
    obtain ⟨rfl, rfl⟩ := hend.unique hend' heq
    exact ⟨rfl, rfl⟩
  | blockComment =>
    obtain ⟨body, rfl, hend⟩ := h
    obtain ⟨body', rfl, hend'⟩ := h'
    simp only [List.cons_append, List.cons.injEq, true_and] at heq
    obtain ⟨rfl, rfl⟩ := hend.unique hend' heq
    exact ⟨rfl, rfl⟩
  | string =>
    obtain ⟨q, body, -, rfl, hend⟩ := h
    obtain ⟨q', body', -, rfl, hend'⟩ := h'
    simp only [List.cons_append, List.append_assoc, List.nil_append, List.cons.injEq] at heq
    obtain ⟨rfl, heq⟩ := heq
    obtain ⟨rfl, rfl⟩ := hend.unique hend' heq
    exact ⟨rfl, rfl⟩
  | openQuote =>
    obtain ⟨q, -, rfl⟩ := h
    obtain ⟨q', -, rfl⟩ := h'
    exact List.append_inj heq rfl
  | mark =>
    obtain ⟨c, -, rfl, -⟩ := h
    obtain ⟨c', -, rfl, -⟩ := h'
    exact List.append_inj heq rfl
  | stray =>
    obtain ⟨c, rfl⟩ := h
    obtain ⟨c', rfl⟩ := h'
    exact List.append_inj heq rfl

/-- What a text starts with if the class can take some of it. -/
def Starts (c : Char) (cs : List Char) : LexemeClass → Prop
  | blank => Text.isBlank c = true
  | docLine => c = '/' ∧ ∃ rest, cs = '/' :: '/' :: rest
  | lineComment => c = '/' ∧ ∃ rest, cs = '/' :: rest
  | docBlock => c = '/' ∧ ∃ d rest, cs = '*' :: '*' :: d :: rest ∧ d ≠ '/'
  | blockComment => c = '/' ∧ ∃ rest, cs = '*' :: rest
  | string => IsQuote c ∧ ¬ Unclosed c cs
  | openQuote => IsQuote c
  | number => isDigit c = true
  | word => isWordStart c = true
  | mark => (TokenKind.ofMark? c).isSome
  | stray => True

theorem Fits.exists_starts (h : k.Fits a b) : ∃ c text, a = c :: text ∧ k.Starts c (text ++ b) := by
  cases k with
  | blank =>
    obtain ⟨⟨hne, hall⟩, -⟩ := h
    obtain ⟨c, text, rfl⟩ := List.exists_cons_of_ne_nil hne
    exact ⟨c, text, rfl, hall c List.mem_cons_self⟩
  | docLine =>
    obtain ⟨⟨line, rfl, -⟩, -⟩ := h
    exact ⟨'/', _, rfl, rfl, _, rfl⟩
  | lineComment =>
    obtain ⟨⟨line, rfl, -⟩, -⟩ := h
    exact ⟨'/', _, rfl, rfl, _, rfl⟩
  | docBlock =>
    obtain ⟨c, body, rfl, hc, -⟩ := h
    exact ⟨'/', _, rfl, rfl, c, _, rfl, hc⟩
  | blockComment =>
    obtain ⟨body, rfl, -⟩ := h
    exact ⟨'/', _, rfl, rfl, _, rfl⟩
  | string =>
    obtain ⟨q, body, hq, rfl, hend⟩ := h
    refine ⟨q, _, rfl, hq, fun hopen => hend.2 (hopen body b ?_)⟩
    rw [List.append_assoc, List.singleton_append]
  | openQuote =>
    obtain ⟨q, hq, rfl⟩ := h
    exact ⟨q, [], rfl, hq⟩
  | number =>
    obtain ⟨c, text, rfl⟩ := List.exists_cons_of_ne_nil h.1.ne_nil
    exact ⟨c, text, rfl, (number_numeral h.1 []).1⟩
  | word =>
    obtain ⟨⟨c, rest, rfl, hc, -⟩, -⟩ := h
    exact ⟨c, rest, rfl, hc⟩
  | mark =>
    obtain ⟨c, kind, rfl, hc⟩ := h
    exact ⟨c, [], rfl, Option.isSome_iff_exists.2 ⟨kind, hc⟩⟩
  | stray =>
    obtain ⟨c, rfl⟩ := h
    exact ⟨c, [], rfl, trivial⟩

theorem Fits.ne_nil (h : k.Fits a b) : a ≠ [] := by
  obtain ⟨c, text, rfl, -⟩ := h.exists_starts
  exact List.cons_ne_nil c text

end LexemeClass

namespace Lexeme

variable {l l' : Lexeme} {rest rest' : List Char} {c : Char} {cs : List Char} {ls : List Lexeme}

/-- The lexeme `l`, with `rest` behind it: its class is the first one that fits. -/
structure IsLexeme (l : Lexeme) (rest : List Char) : Prop where
  fits : l.kind.Fits l.text rest
  earliest : ∀ k : LexemeClass, k.rank < l.kind.rank →
    ∀ a b, a ++ b = l.text ++ rest → ¬ k.Fits a b

/-- **There is one lexeme at most at each place.** -/
theorem IsLexeme.unique (h : IsLexeme l rest) (h' : IsLexeme l' rest')
    (heq : l.text ++ rest = l'.text ++ rest') : l = l' ∧ rest = rest' := by
  have hle : l.kind.rank ≤ l'.kind.rank :=
    not_lt.1 fun hlt => h.earliest l'.kind hlt _ _ heq.symm h'.fits
  have hge : l'.kind.rank ≤ l.kind.rank :=
    not_lt.1 fun hlt => h'.earliest l.kind hlt _ _ heq h.fits
  obtain ⟨kind, text⟩ := l
  obtain ⟨kind', text'⟩ := l'
  cases LexemeClass.rank_injective (Nat.le_antisymm hle hge)
  obtain ⟨rfl, rfl⟩ := h.fits.unique h'.fits heq
  exact ⟨rfl, rfl⟩

theorem isLexeme_of_not_starts (hfits : l.kind.Fits l.text rest) (heq : l.text ++ rest = c :: cs)
    (hnot : ∀ k : LexemeClass, k.rank < l.kind.rank → ¬ k.Starts c cs) : IsLexeme l rest := by
  refine ⟨hfits, fun k hk a b hab hk' => ?_⟩
  obtain ⟨d, text, rfl, hstarts⟩ := hk'.exists_starts
  cases hab.trans heq
  exact hnot k hk hstarts

/-! ### The lexeme at the front -/

theorem longest_line (start cs : List Char) :
    Longest (IsLine start) (start ++ (run (· != '\n') cs).1) (run (· != '\n') cs).2 := by
  refine longest_run start ⟨_, rfl, fun hmem => by simpa using mem_run hmem⟩ fun a _ _ ha => ?_
  obtain ⟨line, heq, hline⟩ := ha
  cases List.append_cancel_left heq
  intro c hc
  simpa using fun h : c = '\n' => hline (h ▸ hc)

theorem isLexeme_comment (h : comment? cs = some (l, rest)) : IsLexeme l rest := by
  have heq := comment?_append h
  have hblank : Text.isBlank '/' = false := by decide
  unfold comment? at h
  split at h
  · cases h
    refine isLexeme_of_not_starts (longest_line ['/', '/', '/'] _) heq fun k hk => ?_
    cases k <;> simp_all [LexemeClass.rank, LexemeClass.Starts]
  · cases h
    refine isLexeme_of_not_starts (longest_line ['/', '/'] _) heq fun k hk => ?_
    cases k <;> simp_all [LexemeClass.rank, LexemeClass.Starts]
  · next c cs =>
    split at h
    · next hc =>
      cases h
      have hend : BlockEnd ['*', '/'] rest := blockEnd_throughClose ('*' :: '/' :: rest)
      refine isLexeme_of_not_starts ⟨_, rfl, hend⟩ heq fun k hk => ?_
      cases k <;> simp_all [LexemeClass.rank, LexemeClass.Starts]
    · next hc =>
      cases h
      refine isLexeme_of_not_starts ⟨c, _, rfl, hc, blockEnd_throughClose cs⟩ heq fun k hk => ?_
      cases k <;> simp_all [LexemeClass.rank, LexemeClass.Starts]
  · next cs hdoc =>
    cases h
    refine isLexeme_of_not_starts ⟨_, rfl, blockEnd_throughClose cs⟩ heq fun k hk => ?_
    cases k <;> simp_all [LexemeClass.rank, LexemeClass.Starts]
  · cases h

theorem comment?_eq_none (h : comment? cs = none) (rest : List Char) :
    cs ≠ '/' :: rest ∧ cs ≠ '*' :: rest := by
  unfold comment? at h
  split at h
  · cases h
  · cases h
  · split at h <;> cases h
  · cases h
  · next _ hline _ hblock => exact ⟨hline rest, hblock rest⟩

/-- **The lexeme at the front** is cut as its class says. -/
theorem isLexeme_first (c : Char) (cs : List Char) : IsLexeme (first c cs).1 (first c cs).2 := by
  unfold first
  split
  · next hblank =>
    refine isLexeme_of_not_starts ?_ (congrArg (c :: ·) (run_append _ cs)) fun k hk =>
      absurd hk (Nat.not_lt_zero _)
    refine longest_run [c] ⟨List.cons_ne_nil _ _, ?_⟩ fun a _ _ ha x hx => ?_
    · exact List.forall_mem_cons.2 ⟨hblank, fun x hx => mem_run hx⟩
    · exact ha.2 x (List.mem_cons_of_mem c hx)
  next hblank =>
  split
  · next hslash =>
    subst hslash
    cases hcomment : comment? cs with
    | some r => exact isLexeme_comment hcomment
    | none =>
      have hnone := comment?_eq_none hcomment
      have hdigit : isDigit '/' = false := by decide
      have hword : isWordStart '/' = false := by decide
      refine isLexeme_of_not_starts ⟨'/', rfl⟩ rfl fun k hk => ?_
      cases k <;> simp_all [LexemeClass.rank, LexemeClass.Starts, IsQuote, TokenKind.ofMark?]
  next hslash =>
  split
  · next hquote =>
    have hq : IsQuote c := hquote
    split
    · next a b hcut =>
      obtain ⟨body, rfl, hend⟩ := exists_stringEnd_of_throughQuote hq.ne_backslash hcut
      refine isLexeme_of_not_starts ⟨c, body, hq, rfl, hend⟩
        (congrArg (c :: ·) (throughQuote_append hcut)) fun k hk => ?_
      cases k <;> simp_all [LexemeClass.rank, LexemeClass.Starts]
    · next hcut =>
      have hopen := unclosed_of_throughQuote hq.ne_backslash hcut
      refine isLexeme_of_not_starts ⟨c, hq, rfl⟩ rfl fun k hk => ?_
      cases k <;> simp_all [LexemeClass.rank, LexemeClass.Starts]
  next hquote =>
  split
  · next hdigit =>
    refine isLexeme_of_not_starts (longest_number hdigit cs) (number_append c cs) fun k hk => ?_
    cases k <;> simp_all [LexemeClass.rank, LexemeClass.Starts, IsQuote]
  next hdigit =>
  split
  · next hword =>
    refine isLexeme_of_not_starts ?_ (congrArg (c :: ·) (run_append _ cs)) fun k hk => ?_
    · refine longest_run [c] ⟨c, _, rfl, hword, fun x hx => mem_run hx⟩ ?_
      rintro a _ _ ⟨d, rest, heq, -, hrest⟩
      cases heq
      exact hrest
    · cases k <;> simp_all [LexemeClass.rank, LexemeClass.Starts, IsQuote]
  next hword =>
  split
  · next hmark =>
    obtain ⟨kind, hkind⟩ := Option.isSome_iff_exists.1 hmark
    refine isLexeme_of_not_starts ⟨c, kind, rfl, hkind⟩ rfl fun k hk => ?_
    cases k <;> simp_all [LexemeClass.rank, LexemeClass.Starts, IsQuote]
  · next hmark =>
    refine isLexeme_of_not_starts ⟨c, rfl⟩ rfl fun k hk => ?_
    cases k <;> simp_all [LexemeClass.rank, LexemeClass.Starts, IsQuote]

/-! ### Texts -/

/-- A text that is cut into lexemes from its start to its end. -/
inductive Lexed : List Char → List Lexeme → Prop
  | nil : Lexed [] []
  | cons {l : Lexeme} {rest : List Char} {ls : List Lexeme} (h : IsLexeme l rest)
    (hrest : Lexed rest ls) : Lexed (l.text ++ rest) (l :: ls)

/-- **A text is lexed in exactly one way.** -/
theorem lexed_iff : Lexed cs ls ↔ ls = split cs := by
  constructor
  · intro h
    induction h with
    | nil => rw [split]
    | @cons l rest ls h _ ih =>
      obtain ⟨c, text, htext⟩ := List.exists_cons_of_ne_nil h.fits.ne_nil
      have heq : l.text ++ rest = c :: (text ++ rest) := by rw [htext, List.cons_append]
      obtain ⟨hl, hrest⟩ := h.unique (isLexeme_first c (text ++ rest))
        (heq.trans (first_append c _).symm)
      rw [heq, split, ← hl, ← hrest, ih]
  · rintro rfl
    fun_induction split cs with
    | case1 => exact .nil
    | case2 c cs ih =>
      have hlexed := Lexed.cons (isLexeme_first c cs) ih
      rwa [first_append] at hlexed

end Lexeme

end WireSchema
