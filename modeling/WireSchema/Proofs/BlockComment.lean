import WireSchema.Proofs.TokenPlace
import Mathlib.Control.Monad.Basic

/-! # Block comments

A block comment ends at its first `*/`, so that the text behind it has the tokens that it has alone,
with at most one doc comment before them (`blockComment_ends_iff`). There is one exception. A doc
comment starts with `/**` and a character that is not a slash, and this character is passed before a
`*/` is looked for: the comment in which it is the star of the first `*/` goes on to the next one,
or to the end of the text (`blockComment_swallows`). -/

namespace WireSchema

namespace Lexeme

variable {body c : List Char}

/-! ### The lexeme of a block comment -/

/-- A text with one `*/`, which stands at its end, ends there whatever is behind it. -/
theorem blockEnd_close (h : ∀ x y, body ++ ['*', '/'] = x ++ '*' :: '/' :: y → y = [])
    (c : List Char) : BlockEnd (body ++ ['*', '/']) c := .inl ⟨List.suffix_append _ _, h⟩

theorem comment?_block (h : ∀ x y, body ++ ['*', '/'] = x ++ '*' :: '/' :: y → y = [])
    (hbody : body ≠ ['*']) (c : List Char) :
    ∃ l, comment? ('*' :: (body ++ ['*', '/'] ++ c)) = some (l, c) ∧
      (l.kind = .blockComment ∨ l.kind = .docBlock) := by
  have hplain : throughClose (body ++ ['*', '/'] ++ c) = (body ++ ['*', '/'], c) :=
    throughClose_of_blockEnd (blockEnd_close h c)
  rcases body with _ | ⟨d, body⟩
  · exact ⟨⟨.blockComment, ['/', '*', '*', '/']⟩, rfl, .inl rfl⟩
  by_cases hd : d = '*'
  · subst hd
    rcases body with _ | ⟨e, body⟩
    · exact absurd rfl hbody
    have he : e ≠ '/' := by
      rintro rfl
      simpa using h [] (body ++ ['*', '/']) rfl
    have hrest : ∀ x y, body ++ ['*', '/'] = x ++ '*' :: '/' :: y → y = [] :=
      fun x y hxy => h ('*' :: e :: x) y (by simp [hxy])
    have hdoc : throughClose (body ++ ['*', '/'] ++ c) = (body ++ ['*', '/'], c) :=
      throughClose_of_blockEnd (blockEnd_close hrest c)
    refine ⟨⟨.docBlock, '/' :: '*' :: '*' :: e :: (body ++ ['*', '/'])⟩, ?_, .inr rfl⟩
    simp only [List.cons_append, comment?, if_neg he]
    rw [hdoc]
  · refine ⟨⟨.blockComment, '/' :: '*' :: (d :: body ++ ['*', '/'])⟩, ?_, .inl rfl⟩
    rw [comment?]
    · rw [hplain]
    · intro e rest heq
      exact hd (List.cons.inj heq).1

/-- The slash of a doc comment of one star does not end it. -/
theorem comment?_star {a b : List Char} (h : BlockEnd ('/' :: a) b) :
    comment? ('*' :: '*' :: '*' :: '/' :: (a ++ b)) =
      some (⟨.docBlock, '/' :: '*' :: '*' :: '*' :: '/' :: a⟩, b) := by
  have hcut : throughClose ('/' :: (a ++ b)) = ('/' :: a, b) := throughClose_of_blockEnd h
  simp [comment?, hcut]

theorem split_comment {cs rest : List Char} {l : Lexeme} (h : comment? cs = some (l, rest)) :
    split ('/' :: cs) = l :: split rest := by
  have hblank : Text.isBlank '/' = false := by decide
  have hfirst : first '/' cs = (l, rest) := by
    rw [first, hblank, if_neg Bool.false_ne_true, if_pos rfl, h, Option.getD_some]
  rw [split, hfirst]

end Lexeme

namespace Token

open Lexeme

/-- The text `text` says the same as `rest`, but for at most one doc comment in front of it, and it
is refused exactly if `rest` is. -/
def SaysBehindDoc (text rest : String) : Prop :=
  (∀ ts, ofText rest = .ok ts → ∃ ts', ofText text = .ok ts' ∧
    (ts'.map said = ts.map said ∨ ∃ doc, ts'.map said = (.docComment, doc) :: ts.map said)) ∧
  ∀ e, ofText rest = .error e → ∃ e', ofText text = .error e'

/-- In `body` with `*/` behind it, that is the only `*/`. -/
def ClosesOnce (body : String) : Prop := ∀ x y, body ++ "*/" = x ++ "*/" ++ y → y = ""

theorem closesOnce_iff {body : String} : ClosesOnce body ↔
    ∀ x y, body.toList ++ ['*', '/'] = x ++ '*' :: '/' :: y → y = [] := by
  constructor
  · intro h x y heq
    have hstring : body ++ "*/" = String.ofList x ++ "*/" ++ String.ofList y := by
      rw [← String.toList_inj]
      simpa using heq
    simpa using h _ _ hstring
  · intro h x y heq
    have hlist := congrArg String.toList heq
    simp only [String.toList_append] at hlist
    have hy := h x.toList y.toList (by simpa using hlist)
    exact String.toList_eq_nil_iff.1 hy

theorem closesOnce_iff_throughClose {body : String} :
    ClosesOnce body ↔ (throughClose (body.toList ++ ['*', '/'])).2 = [] := by
  rw [closesOnce_iff]
  constructor
  · intro h
    have hcut := throughClose_of_blockEnd (blockEnd_close h [])
    rw [List.append_nil] at hcut
    rw [hcut]
  · intro hrest x y heq
    have happ := throughClose_append (body.toList ++ ['*', '/'])
    rw [hrest, List.append_nil] at happ
    rcases blockEnd_throughClose (body.toList ++ ['*', '/']) with ⟨-, hfirst⟩ | ⟨-, hnone⟩
    · exact hfirst x y (happ.trans heq)
    · have hinfix : ['*', '/'] <:+: body.toList ++ ['*', '/'] := ⟨body.toList, [], by simp⟩
      rw [← happ] at hinfix
      exact absurd hinfix hnone

instance : DecidablePred ClosesOnce := fun _ => decidable_of_iff _ closesOnce_iff_throughClose.symm

/-! ### Texts with a comment in front -/

/-- What a text says are the tokens of its lexemes. -/
theorem map_said_of_ofChars {cs : List Char} {ts : List Token} (h : ofChars cs = .ok ts) :
    ts.map said = (split cs).filterMap token? ++ [(.eof, "")] := by
  rcases ofChars_cases cs with ⟨-, hok⟩ | ⟨_, _, _, _, _, _, herror⟩
  · rw [hok] at h
    cases h
    rw [List.map_append, map_said_place]
    rfl
  · rw [herror] at h
    cases h

/-- A block comment in front of a text says nothing or is one doc comment. -/
theorem saysBehindDoc_of_comment {text rest : String} {cs : List Char} {l : Lexeme}
    (htext : text.toList = '/' :: cs) (hcomment : comment? cs = some (l, rest.toList))
    (hl : l.kind = .blockComment ∨ l.kind = .docBlock) : SaysBehindDoc text rest := by
  have hsplit : split text.toList = l :: split rest.toList := by
    rw [htext, split_comment hcomment]
  have hquote : l.kind ≠ .openQuote := by rcases hl with hl | hl <;> simp [hl]
  have htoken : l.token? = none ∨ ∃ doc, l.token? = some (.docComment, doc) := by
    rcases hl with hl | hl
    · exact .inl (by simp [token?, hl])
    · exact .inr ⟨_, by simp only [token?, hl]; rfl⟩
  unfold SaysBehindDoc ofText
  rcases ofChars_cases rest.toList with
    ⟨hne, hok⟩ | ⟨before, l', behind, hrest, hkind, hne, herror⟩
  · have hne' : ∀ x ∈ split text.toList, x.kind ≠ .openQuote := by
      rw [hsplit]
      exact List.forall_mem_cons.2 ⟨hquote, hne⟩
    have hok' := ofChars_of_forall_ne hne'
    refine ⟨fun ts hts => ⟨_, hok', ?_⟩, fun e he => ?_⟩
    · rw [map_said_of_ofChars hts, map_said_of_ofChars hok', hsplit]
      rcases htoken with hnone | ⟨doc, hdoc⟩
      · exact .inl (by rw [List.filterMap_cons_none hnone])
      · exact .inr ⟨doc, by rw [List.filterMap_cons_some hdoc, List.cons_append]⟩
    · rw [hok] at he
      cases he
  · have herror' := ofChars_of_openQuote (hsplit.trans (congrArg (l :: ·) hrest)) hkind
      (List.forall_mem_cons.2 ⟨hquote, hne⟩)
    rw [herror, herror']
    exact ⟨fun ts hts => (by cases hts), fun e _ => ⟨_, rfl⟩⟩

/-- The comment whose body is one star takes the word behind it. -/
theorem not_saysBehindDoc_star : ¬ SaysBehindDoc ("/*" ++ "*" ++ "*/" ++ " x") " x" := by
  have hrest : ofText " x" = .ok [⟨.identifier, "x", ⟨1, 2⟩⟩, ⟨.eof, "", ⟨1, 3⟩⟩] := by
    decide +kernel
  have htext : ofText ("/*" ++ "*" ++ "*/" ++ " x") =
      .ok [⟨.docComment, "/ x", ⟨1, 1⟩⟩, ⟨.eof, "", ⟨1, 8⟩⟩] := by decide +kernel
  intro h
  obtain ⟨ts, hts, hsaid⟩ := h.1 _ hrest
  rw [htext] at hts
  cases hts
  rcases hsaid with hsaid | ⟨doc, hsaid⟩
  · cases hsaid
  · cases hsaid

/-- **A block comment ends at its first `*/`,** and what follows it is read as if it stood alone,
unless the body of the comment is one star. That comment goes on through the next `*/`. -/
theorem blockComment_ends_iff {body : String} (h : ClosesOnce body) :
    ((∀ rest, SaysBehindDoc ("/*" ++ body ++ "*/" ++ rest) rest) ↔ body ≠ "*") ∧
      (body = "*" → ∀ more rest : String, BlockEnd ('/' :: more.toList) rest.toList →
        SaysBehindDoc ("/*" ++ body ++ "*/" ++ (more ++ rest)) rest) := by
  refine ⟨⟨?_, fun hbody rest => ?_⟩, ?_⟩
  · rintro hall rfl
    exact not_saysBehindDoc_star (hall " x")
  · have hlist : body.toList ≠ ['*'] := fun heq => hbody (String.toList_inj.1 heq)
    obtain ⟨l, hcomment, hl⟩ := comment?_block (closesOnce_iff.1 h) hlist rest.toList
    exact saysBehindDoc_of_comment (by simp) hcomment hl
  · rintro rfl more rest hend
    exact saysBehindDoc_of_comment (by simp) (comment?_star hend) (.inr rfl)

/-- A doc comment of two lines, with slashes and stars, that ends in three stars and a slash. -/
theorem blockComment_ends_iff_stars :
    ClosesOnce "*\n * a / b **" ∧
      ∀ rest, SaysBehindDoc ("/*" ++ "*\n * a / b **" ++ "*/" ++ rest) rest := by
  have h : ClosesOnce "*\n * a / b **" := by decide +kernel
  exact ⟨h, (blockComment_ends_iff h).1.2 (by decide)⟩

/-- The comment `/***/` is closed once and goes on behind it. -/
theorem blockComment_swallows :
    ClosesOnce "*" ∧ ¬ SaysBehindDoc ("/*" ++ "*" ++ "*/" ++ " x") " x" :=
  ⟨by decide +kernel, not_saysBehindDoc_star⟩

end Token

end WireSchema
