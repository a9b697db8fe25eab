import WireSchema.Proofs.Rendered
import Mathlib.Data.List.TakeWhile

/-! # Where lexemes end

White space, words, numbers and line comments go as far as they can (`Longest`), a block comment
ends at the first `*/` behind its start (`BlockEnd`), and a string at the first quote with an even
number of backslashes before it (`StringEnd`). Each of these says where to cut, and in no two
places; the functions that cut are characterized by them. -/

namespace WireSchema

open Lexeme (isDigit isHexDigit)

/-- The ways in which a numeral goes on behind its first digit. -/
theorem IsNumeral.cons_cases {c : Char} {cs : List Char} (h : IsNumeral (c :: cs)) :
    (c = '0' ∧ ∃ x ds, (x = 'x' ∨ x = 'X') ∧ cs = x :: ds ∧ ∀ d ∈ ds, isHexDigit d = true) ∨
      (∀ d ∈ cs, isDigit d = true) ∨
      ∃ ds fs, cs = ds ++ '.' :: fs ∧ (∀ d ∈ ds, isDigit d = true) ∧ fs ≠ [] ∧
        ∀ d ∈ fs, isDigit d = true := by
  generalize hn : c :: cs = n at h
  cases h with
  | @hex x ds hx hds =>
    cases hn
    exact .inl ⟨rfl, x, ds, hx, rfl, hds⟩
  | whole hne hds =>
    subst hn
    exact .inr (.inl fun d hd => hds d (List.mem_cons_of_mem c hd))
  | @fraction ds fs hne hds hfne hfs =>
    obtain ⟨d, ds, rfl⟩ := List.exists_cons_of_ne_nil hne
    cases hn
    exact .inr (.inr ⟨ds, fs, rfl, fun d hd => hds d (List.mem_cons_of_mem _ hd), hfne, hfs⟩)

namespace Lexeme

variable {P : List Char → Prop} {p : Char → Bool} {q : Char} {a b a' b' cs : List Char}

/-! ### As far as possible -/

/-- The text `a`, with `b` behind it, has `P`, and no longer start of the whole text has. -/
def Longest (P : List Char → Prop) (a b : List Char) : Prop :=
  P a ∧ ∀ a' b', a' ++ b' = a ++ b → P a' → a'.length ≤ a.length

theorem Longest.unique (h : Longest P a b) (h' : Longest P a' b') (heq : a ++ b = a' ++ b') :
    a = a' ∧ b = b' := by
  have hle : a.length ≤ a'.length := h'.2 a b heq h.1
  have hge : a'.length ≤ a.length := h.2 a' b' heq.symm h'.1
  exact List.append_inj heq (by omega)

theorem mem_run {c : Char} (h : c ∈ (run p cs).1) : p c = true := List.mem_takeWhile_imp h

/-- A start of characters with `p` is not longer than the run of them. -/
theorem length_le_run (ha : ∀ c ∈ a, p c = true) : a.length ≤ (run p (a ++ b)).1.length := by
  rw [run, List.takeWhile_append_of_pos ha, List.length_append]
  omega

/-- Behind a fixed start, a run is as long as possible if all texts with `P` go on like this. -/
theorem longest_run (start : List Char) (h : P (start ++ (run p cs).1))
    (hP : ∀ a b, a ++ b = cs → P (start ++ a) → ∀ c ∈ a, p c = true) :
    Longest P (start ++ (run p cs).1) (run p cs).2 := by
  refine ⟨h, fun a' b' heq ha' => ?_⟩
  rw [List.append_assoc, run_append] at heq
  rw [List.length_append]
  rcases List.append_eq_append_iff.1 heq with ⟨x, rfl, -⟩ | ⟨x, rfl, rfl⟩
  · rw [List.length_append]
    omega
  · have hle := length_le_run (b := b') (hP x b' rfl ha')
    rw [List.length_append]
    omega

/-! ### Numbers -/

theorem fraction_cases (cs : List Char) :
    (∃ d rest, cs = '.' :: d :: rest ∧ isDigit d = true ∧
      fraction cs = ('.' :: (run isDigit (d :: rest)).1, (run isDigit (d :: rest)).2)) ∨
    (∀ d rest, cs = '.' :: d :: rest → isDigit d = false) ∧ fraction cs = ([], cs) := by
  unfold fraction
  split
  · next d rest =>
    split
    · next hd => exact .inl ⟨d, rest, rfl, hd, rfl⟩
    · next hd =>
      refine .inr ⟨fun d' rest' heq => ?_, rfl⟩
      cases heq
      simpa using hd
  · next hcs => exact .inr ⟨fun d rest heq => absurd heq (hcs d rest), rfl⟩

/-- Digits with a point behind them can be cut in one way. -/
theorem digits_point_inj {ds es : List Char} (hds : ∀ d ∈ ds, isDigit d = true)
    (hes : ∀ d ∈ es, isDigit d = true) (h : ds ++ '.' :: a = es ++ '.' :: b) : ds = es ∧ a = b := by
  have hrun : run isDigit (ds ++ '.' :: a) = (ds, '.' :: a) := run_append_cons hds (by decide) a
  rw [h, run_append_cons hes (by decide) b] at hrun
  cases hrun
  exact ⟨rfl, rfl⟩

/-- What stands behind `0x` in a numeral are hexadecimal digits. -/
theorem isHexDigit_of_numeral {x : Char} (hx : x = 'x' ∨ x = 'X') (h : IsNumeral ('0' :: x :: cs)) :
    ∀ d ∈ cs, isHexDigit d = true := by
  have hdigit : isDigit x = false := by rcases hx with rfl | rfl <;> decide
  rcases h.cons_cases with ⟨-, y, ds, -, heq, hds⟩ | hds | ⟨ds, fs, heq, hds, -, -⟩
  · cases heq
    exact hds
  · rw [hds x List.mem_cons_self] at hdigit
    cases hdigit
  · rcases ds with _ | ⟨d, ds⟩
    · cases heq
      rcases hx with hx | hx <;> cases hx
    · cases heq
      rw [hds x List.mem_cons_self] at hdigit
      cases hdigit

/-- What stands behind digits and a point in a numeral are digits. -/
theorem isDigit_of_numeral_point {c : Char} {ds : List Char} (hds : ∀ d ∈ ds, isDigit d = true)
    (h : IsNumeral (c :: (ds ++ '.' :: a))) : ∀ d ∈ a, isDigit d = true := by
  rcases h.cons_cases with ⟨-, x, es, hx, heq, -⟩ | hall | ⟨es, fs, heq, hes, -, hfs⟩
  · -- the point, or a digit before it, would be the `x`
    rcases ds with _ | ⟨d, ds⟩
    · cases heq
      rcases hx with hx | hx <;> cases hx
    · cases heq
      have hdigit := hds x List.mem_cons_self
      rcases hx with rfl | rfl <;> exact absurd hdigit (by decide)
  · exact absurd (hall '.' (by simp)) (by decide)
  · obtain ⟨-, rfl⟩ := digits_point_inj hds hes heq
    exact hfs

/-- **A number goes as far as possible.** -/
theorem longest_number {c : Char} (hc : isDigit c = true) (cs : List Char) :
    Longest IsNumeral (number c cs).1 (number c cs).2 := by
  have hhex : ∀ {x : Char} (_ : x = 'x' ∨ x = 'X') (cs : List Char),
      Longest IsNumeral ('0' :: x :: (run isHexDigit cs).1) (run isHexDigit cs).2 :=
    fun hx cs => longest_run ['0', _] (.hex hx fun _ hd => mem_run hd)
      fun _ _ _ ha => isHexDigit_of_numeral hx ha
  unfold number
  split
  · exact hhex (.inl rfl) _
  · exact hhex (.inr rfl) _
  · next hx hX =>
    change Longest IsNumeral (c :: (run isDigit cs).1 ++ (fraction (run isDigit cs).2).1)
      (fraction (run isDigit cs).2).2
    have hds : ∀ d ∈ (run isDigit cs).1, isDigit d = true := fun d hd => mem_run hd
    have hcds : ∀ d ∈ c :: (run isDigit cs).1, isDigit d = true := List.forall_mem_cons.2 ⟨hc, hds⟩
    rcases fraction_cases (run isDigit cs).2 with ⟨d, rest, -, hd, hf⟩ | ⟨hrest, hf⟩
    · rw [hf]
      have hne : (run isDigit (d :: rest)).1 ≠ [] := by simp [run, hd]
      have hstart : c :: (run isDigit cs).1 ++ '.' :: (run isDigit (d :: rest)).1 =
          (c :: ((run isDigit cs).1 ++ ['.'])) ++ (run isDigit (d :: rest)).1 := by simp
      rw [hstart]
      refine longest_run _ ?_ fun a _ _ ha => ?_
      · rw [← hstart]
        exact .fraction (List.cons_ne_nil _ _) hcds hne fun _ hd => mem_run hd
      · rw [List.cons_append, List.append_assoc, List.singleton_append] at ha
        exact isDigit_of_numeral_point hds ha
    · rw [hf, List.append_nil]
      refine longest_run [c] (.whole (List.cons_ne_nil _ _) hcds) fun a b hab ha => ?_
      rcases ha.cons_cases with ⟨rfl, x, ds, hxx, rfl, -⟩ | hall | ⟨ds, fs, rfl, hes, hne, hfs⟩
      · subst hab
        rcases hxx with rfl | rfl
        · exact absurd rfl (hx _ rfl)
        · exact absurd rfl (hX _ rfl)
      · exact hall
      · -- a fraction would stand where none is
        obtain ⟨d, fs, rfl⟩ := List.exists_cons_of_ne_nil hne
        have hrun : run isDigit cs = (ds, '.' :: d :: (fs ++ b)) := by
          rw [← hab, List.append_assoc]
          exact run_append_cons hes (by decide) _
        have hd := hrest d (fs ++ b) (by rw [hrun])
        rw [hfs d List.mem_cons_self] at hd
        cases hd

/-! ### Block comments -/

/-- The text `a`, with `b` behind it, ends at the first `*/`, or there is none and nothing stands
behind it. -/
def BlockEnd (a b : List Char) : Prop :=
  ['*', '/'] <:+ a ∧ (∀ x y, a = x ++ '*' :: '/' :: y → y = []) ∨ b = [] ∧ ¬ ['*', '/'] <:+: a

theorem BlockEnd.tail {c : Char} (h : BlockEnd (c :: a) b) (hc : ∀ y, c = '*' → a ≠ '/' :: y) :
    BlockEnd a b := by
  rcases h with ⟨hsuffix, hfirst⟩ | ⟨hb, hnone⟩
  · refine .inl ⟨?_, fun x y heq => hfirst (c :: x) y (by rw [heq, List.cons_append])⟩
    rcases List.suffix_cons_iff.1 hsuffix with heq | hsuffix
    · cases heq
      exact absurd rfl (hc [] rfl)
    · exact hsuffix
  · exact .inr ⟨hb, fun hinfix => hnone (List.infix_cons hinfix)⟩

theorem throughClose_of_blockEnd (h : BlockEnd a b) : throughClose (a ++ b) = (a, b) := by
  induction a with
  | nil =>
    rcases h with ⟨hsuffix, -⟩ | ⟨rfl, -⟩
    · simp at hsuffix
    · rfl
  | cons c a ih =>
    by_cases hc : ∃ y, c = '*' ∧ a = '/' :: y
    · obtain ⟨y, rfl, rfl⟩ := hc
      rcases h with ⟨-, hfirst⟩ | ⟨-, hnone⟩
      · cases hfirst [] y rfl
        rfl
      · exact absurd ⟨[], y, rfl⟩ hnone
    · have hstar : ∀ y, c = '*' → a ≠ '/' :: y := fun y hc' ha => hc ⟨y, hc', ha⟩
      have hstep : ∀ y, c = '*' → a ++ b ≠ '/' :: y := by
        intro y hc' hab
        cases a with
        | nil =>
          rcases h with ⟨hsuffix, -⟩ | ⟨rfl, -⟩
          · simpa using hsuffix.length_le
          · cases hab
        | cons d a =>
          cases hab
          exact hstar a hc' rfl
      rw [List.cons_append, throughClose]
      · rw [ih (h.tail hstar)]
      · exact hstep

/-- **A block comment is cut where it ends.** -/
theorem blockEnd_throughClose (cs : List Char) :
    BlockEnd (throughClose cs).1 (throughClose cs).2 := by
  fun_induction throughClose cs with
  | case1 => exact .inr ⟨rfl, by simp⟩
  | case2 cs =>
    refine .inl ⟨List.suffix_refl _, fun x y heq => ?_⟩
    have hlen := congrArg List.length heq
    simp only [List.length_append, List.length_cons, List.length_nil] at hlen
    exact List.length_eq_zero_iff.1 (by omega)
  | case3 c cs hne a b heq ih =>
    have happ := throughClose_append cs
    rw [heq] at ih happ
    have hstar : ∀ y, c = '*' → a ≠ '/' :: y := by
      rintro y rfl rfl
      exact hne (y ++ b) rfl happ.symm
    rcases ih with ⟨hsuffix, hfirst⟩ | ⟨hb, hnone⟩
    · refine .inl ⟨hsuffix.trans (List.suffix_cons c a), fun x y hxy => ?_⟩
      cases x with
      | nil =>
        cases hxy
        exact absurd rfl (hstar y rfl)
      | cons d x =>
        cases hxy
        exact hfirst x y rfl
    · refine .inr ⟨hb, fun hinfix => ?_⟩
      rcases List.infix_cons_iff.1 hinfix with ⟨y, hy⟩ | hinfix
      · cases hy
        exact hstar y rfl rfl
      · exact hnone hinfix

theorem BlockEnd.unique (h : BlockEnd a b) (h' : BlockEnd a' b') (heq : a ++ b = a' ++ b') :
    a = a' ∧ b = b' := by
  have hcut := throughClose_of_blockEnd h
  rw [heq, throughClose_of_blockEnd h'] at hcut
  cases hcut
  exact ⟨rfl, rfl⟩

/-! ### Strings -/

/-- How many backslashes stand at the end of a text. -/
def backslashes (cs : List Char) : Nat := (cs.reverse.takeWhile (· == '\\')).length

/-- A character behind the text belongs to a backslash: an odd number of them stands before it. -/
def Escapes (cs : List Char) : Prop := backslashes cs % 2 = 1

instance : DecidablePred Escapes := fun cs => inferInstanceAs (Decidable (backslashes cs % 2 = 1))

/-- All quotes in a text belong to backslashes. -/
def Unclosed (q : Char) (cs : List Char) : Prop := ∀ x y, cs = x ++ q :: y → Escapes x

/-- The quote behind the text is the first that belongs to no backslash. -/
def StringEnd (q : Char) (body : List Char) : Prop := Unclosed q body ∧ ¬ Escapes body

/-- Text in front counts only if there are nothing but backslashes behind it. -/
theorem backslashes_append (a b : List Char) :
    backslashes (a ++ b) = backslashes b + if b.all (· == '\\') then backslashes a else 0 := by
  unfold backslashes
  rw [List.reverse_append]
  split_ifs with hb
  · have hall : ∀ c ∈ b.reverse, (c == '\\') = true := by simpa using hb
    rw [List.takeWhile_append_of_pos hall, List.length_append, List.takeWhile_eq_self_iff.2 hall]
  · rw [List.takeWhile_append, if_neg, Nat.add_zero]
    intro hlen
    have hself := (List.takeWhile_prefix (· == '\\')).eq_of_length hlen
    exact hb (by simpa using List.takeWhile_eq_self_iff.1 hself)

theorem escapes_cons {c : Char} (hc : c ≠ '\\') : Escapes (c :: cs) ↔ Escapes cs := by
  have hzero : backslashes [c] = 0 := by simp [backslashes, hc]
  rw [Escapes, ← List.singleton_append, backslashes_append, hzero, ite_self, Nat.add_zero, Escapes]

/-- A backslash and the character that belongs to it are passed together. -/
theorem escapes_pair (c : Char) : Escapes ('\\' :: c :: cs) ↔ Escapes cs := by
  have heven : backslashes ['\\', c] % 2 = 0 := by
    by_cases hc : c = '\\' <;> simp [backslashes, hc]
  have happ := backslashes_append ['\\', c] cs
  rw [Escapes, Escapes, show '\\' :: c :: cs = ['\\', c] ++ cs from rfl, happ]
  split_ifs <;> omega

theorem unclosed_cons {c : Char} (hc : c ≠ '\\') (hcq : c ≠ q) :
    Unclosed q (c :: cs) ↔ Unclosed q cs := by
  constructor
  · intro h x y heq
    exact (escapes_cons hc).1 (h (c :: x) y (by rw [heq, List.cons_append]))
  · intro h x y heq
    cases x with
    | nil =>
      cases heq
      exact absurd rfl hcq
    | cons d x =>
      cases heq
      exact (escapes_cons hc).2 (h x y rfl)

theorem unclosed_pair (hq : q ≠ '\\') (c : Char) :
    Unclosed q ('\\' :: c :: cs) ↔ Unclosed q cs := by
  constructor
  · intro h x y heq
    exact (escapes_pair c).1 (h ('\\' :: c :: x) y (by rw [heq]; rfl))
  · intro h x y heq
    rcases x with _ | ⟨d, _ | ⟨e, x⟩⟩
    · cases heq
      exact absurd rfl hq
    · cases heq
      decide
    · cases heq
      exact (escapes_pair c).2 (h x y rfl)

/-- A character is not a backslash if it is neither the last one nor one of a pair. -/
theorem ne_backslash_of_forall_ne {c : Char} (hlast : c = '\\' → cs = [] → False)
    (hpair : ∀ d rest, c = '\\' → cs = d :: rest → False) : c ≠ '\\' := by
  rintro rfl
  cases cs with
  | nil => exact hlast rfl rfl
  | cons d rest => exact hpair d rest rfl rfl

/-- **A string is cut where it ends.** -/
theorem exists_stringEnd_of_throughQuote (hq : q ≠ '\\') (h : throughQuote q cs = some (a, b)) :
    ∃ body, a = body ++ [q] ∧ StringEnd q body := by
  fun_induction throughQuote q cs generalizing a b with
  | case1 => cases h
  | case2 => cases h
  | case3 c cs ih =>
    obtain ⟨⟨a', b'⟩, h', he⟩ := Option.map_eq_some_iff.1 h
    cases he
    obtain ⟨body, rfl, hbody⟩ := ih h'
    exact ⟨'\\' :: c :: body, rfl, (unclosed_pair hq c).2 hbody.1,
      fun he => hbody.2 ((escapes_pair c).1 he)⟩
  | case4 cs =>
    cases h
    exact ⟨[], rfl, fun x y heq => by simp at heq, by decide⟩
  | case5 c cs hlast hpair hc ih =>
    obtain ⟨⟨a', b'⟩, h', he⟩ := Option.map_eq_some_iff.1 h
    cases he
    obtain ⟨body, rfl, hbody⟩ := ih h'
    have hne := ne_backslash_of_forall_ne hlast hpair
    exact ⟨c :: body, rfl, (unclosed_cons hne hc).2 hbody.1,
      fun he => hbody.2 ((escapes_cons hne).1 he)⟩

theorem unclosed_of_throughQuote (hq : q ≠ '\\') (h : throughQuote q cs = none) :
    Unclosed q cs := by
  fun_induction throughQuote q cs with
  | case1 => exact fun x y heq => by simp at heq
  | case2 =>
    intro x y heq
    rcases x with _ | ⟨d, x⟩
    · cases heq
      exact absurd rfl hq
    · cases x <;> cases heq
  | case3 c cs ih => exact (unclosed_pair hq c).2 (ih (Option.map_eq_none_iff.1 h))
  | case4 cs => cases h
  | case5 c cs hlast hpair hc ih =>
    have hne := ne_backslash_of_forall_ne hlast hpair
    exact (unclosed_cons hne hc).2 (ih (Option.map_eq_none_iff.1 h))

theorem StringEnd.unique {body body' : List Char} (h : StringEnd q body) (h' : StringEnd q body')
    (heq : body ++ q :: b = body' ++ q :: b') : body = body' ∧ b = b' := by
  rcases List.append_eq_append_iff.1 heq with ⟨x, rfl, hx⟩ | ⟨x, rfl, hx⟩
  · cases x with
    | nil => exact ⟨by simp, by simpa using hx⟩
    | cons c x =>
      cases hx
      exact absurd (h'.1 body x rfl) h.2
  · cases x with
    | nil => exact ⟨by simp, by simpa using hx.symm⟩
    | cons c x =>
      cases hx
      exact absurd (h.1 body' x rfl) h'.2

end Lexeme

end WireSchema
