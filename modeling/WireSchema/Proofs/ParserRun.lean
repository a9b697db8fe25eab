import WireSchema.Proofs.Declared
import WireSchema.Proofs.ParserMachine
import WireSchema.Proofs.Plain
import Mathlib.Data.List.Basic

/-! # Runs of the parser

On tokens with an end mark the parser as a machine (`Tape`) is never stopped by anything but a
mistake in the tokens. `Agrees` says that a run ends as a reader does with the tokens from the
cursor on, and there is a lemma of this form for each reader, from the inside out. The loops end
because each turn moves the cursor (`_length` lemmas), so that there are not more turns than tokens
up to the end mark. The main statement is `Schema.ofTokens_run`. -/

namespace WireSchema

namespace Parse

/-! ### Single steps -/

section Steps

variable {α β : Type}

theorem Run.bind_of_ok {x : Run α} {f : α → Run β} {i j : Nat} {a : α} (h : x i = .ok (a, j)) :
    (x >>= f) i = f a j := by
  show (x i).bind _ = _
  rw [h]
  rfl

theorem Run.bind_of_error {x : Run α} {f : α → Run β} {i : Nat} {s : Stop} (h : x i = .error s) :
    (x >>= f) i = .error s := by
  show (x i).bind _ = _
  rw [h]
  rfl

theorem Run.ofExcept_ok (a : α) (i : Nat) : Run.ofExcept (.ok a) i = .ok (a, i) := rfl

theorem Run.discard_of_ok {x : Run α} {i j : Nat} {a : α} (h : x i = .ok (a, j)) :
    (discard x) i = .ok ((), j) := by
  show (x i).bind _ = _
  rw [h]
  rfl

theorem Run.discard_of_error {x : Run α} {i : Nat} {s : Stop} (h : x i = .error s) :
    (discard x) i = .error s := by
  show (x i).bind _ = _
  rw [h]
  rfl

variable {ts : Tokens} {i : Nat}

theorem peek_cons (t : Token) (rest : Tokens) : peek (t :: rest) = t.kind := rfl

theorem expect_cons {t : Token} {kind : TokenKind} (h : t.kind = kind) (what : String)
    (rest : Tokens) : expect kind what (t :: rest) = .ok (t, rest) := if_pos h

/-- The cursor stands at a token up to the first end mark, and there is one. -/
structure Within (ts : Tokens) (i : Nat) : Prop where
  marked : endIndex ts < ts.length
  le : i ≤ endIndex ts

theorem exists_mem_eof_iff : (∃ t ∈ ts, t.kind = .eof) ↔ endIndex ts < ts.length := by
  simp [endIndex, List.findIdx_lt_length]

theorem Within.drop_eq (h : Within ts i) : ∃ t, ts.drop i = t :: ts.drop (i + 1) ∧
    (Tape.of ts).current i = .ok (t, i) ∧ (t.kind = .eof ↔ i = endIndex ts) := by
  have hi : i < ts.length := Nat.lt_of_le_of_lt h.le h.marked
  have hmin : min i (ts.length - 1) = i := by omega
  refine ⟨ts[i], List.drop_eq_getElem_cons hi, ?_, ?_⟩
  · show (if endIndex ts < i then _ else _) = _
    rw [if_neg (Nat.not_lt.2 h.le), hmin, List.getElem?_eq_getElem hi]
  · constructor
    · intro heof
      have hle : endIndex ts ≤ i := by
        by_contra hlt
        have := List.not_of_lt_findIdx (Nat.lt_of_not_le hlt)
        simp [heof] at this
      exact Nat.le_antisymm h.le hle
    · rintro rfl
      exact beq_iff_eq.1 (List.findIdx_getElem (w := h.marked))

/-- The machine ends as the reader does: with the same result and the cursor before the tokens that
the reader leaves, not farther back than `i` and not behind the end mark. -/
inductive Agrees (ts : Tokens) (i : Nat) :
    Except Stop (α × Nat) → Except ParseError (α × Tokens) → Prop
  | refused (e : ParseError) : Agrees ts i (.error (.refused e)) (.error e)
  | ok (a : α) {j : Nat} (hij : i ≤ j) (hj : Within ts j) :
    Agrees ts i (.ok (a, j)) (.ok (a, ts.drop j))

theorem Agrees.mono {r : Except Stop (α × Nat)} {q : Except ParseError (α × Tokens)} {j : Nat}
    (h : Agrees ts j r q) (hij : i ≤ j) : Agrees ts i r q := by
  cases h with
  | refused e => exact .refused e
  | ok a hjk hk => exact .ok a (Nat.le_trans hij hjk) hk

/-- One reader behind another. -/
theorem Agrees.bind {x : Run α} {f : α → Run β} {q : Except ParseError (α × Tokens)}
    {g : α × Tokens → Except ParseError (β × Tokens)} (h : Agrees ts i (x i) q)
    (hf : ∀ a j, i ≤ j → Within ts j → q = .ok (a, ts.drop j) →
      Agrees ts j (f a j) (g (a, ts.drop j))) :
    Agrees ts i ((x >>= f) i) (q >>= g) := by
  generalize hx : x i = r at h
  cases h with
  | refused e =>
    rw [Run.bind_of_error hx]
    exact .refused e
  | ok a hij hj =>
    rw [Run.bind_of_ok hx]
    exact (hf a _ hij hj rfl).mono hij

theorem Agrees.bind_discard {x : Run α} {f : Unit → Run β} {q : Except ParseError (α × Tokens)}
    {g : α × Tokens → Except ParseError (β × Tokens)} (h : Agrees ts i (x i) q)
    (hf : ∀ a j, i ≤ j → Within ts j → q = .ok (a, ts.drop j) →
      Agrees ts j (f () j) (g (a, ts.drop j))) :
    Agrees ts i ((discard x >>= f) i) (q >>= g) := by
  generalize hx : x i = r at h
  cases h with
  | refused e =>
    rw [Run.bind_of_error (Run.discard_of_error hx)]
    exact .refused e
  | ok a hij hj =>
    rw [Run.bind_of_ok (Run.discard_of_ok hx)]
    exact (hf a _ hij hj rfl).mono hij

/-- A reader behind a test. -/
theorem Agrees.test {c : Except ParseError Unit} {f : Unit → Run α}
    {g : Unit → Except ParseError (α × Tokens)} (hf : c = .ok () → Agrees ts i (f () i) (g ())) :
    Agrees ts i ((Run.ofExcept c >>= f) i) (c >>= g) := by
  cases c with
  | error e => exact .refused e
  | ok u => exact hf rfl

/-! ### Tokens -/

theorem isNext_eq (h : Within ts i) (kind : TokenKind) :
    (Tape.of ts).isNext kind i = .ok (peek (ts.drop i) == kind, i) := by
  obtain ⟨t, hdrop, hcurrent, -⟩ := h.drop_eq
  rw [Tape.isNext, Run.bind_of_ok hcurrent, hdrop]
  rfl

/-- A token that is not the end mark stands before it. -/
theorem Within.succ (h : Within ts i) (hne : peek (ts.drop i) ≠ .eof) : Within ts (i + 1) := by
  obtain ⟨t, hdrop, -, heof⟩ := h.drop_eq
  rw [hdrop] at hne
  have hne : i ≠ endIndex ts := fun hi => hne (heof.2 hi)
  have hle := h.le
  exact ⟨h.marked, by omega⟩

theorem move_eq (h : Within ts i) (hne : peek (ts.drop i) ≠ .eof) :
    (Tape.of ts).move i = .ok ((), i + 1) := if_pos (h.succ hne).le

theorem advance_eq (h : Within ts i) (hne : peek (ts.drop i) ≠ .eof) :
    ∃ t, ts.drop i = t :: ts.drop (i + 1) ∧ (Tape.of ts).advance i = .ok (t, i + 1) := by
  obtain ⟨t, hdrop, hcurrent, -⟩ := h.drop_eq
  have hmove := move_eq h hne
  rw [hdrop, peek_cons] at hne
  refine ⟨t, hdrop, ?_⟩
  rw [Tape.advance, Run.bind_of_ok hcurrent, if_neg hne, Run.bind_of_ok hmove]
  rfl

theorem eat_of_eq {kind : TokenKind} (h : Within ts i) (hk : kind ≠ .eof)
    (heq : peek (ts.drop i) = kind) : (Tape.of ts).eat kind i = .ok (true, i + 1) := by
  rw [Tape.eat, Run.bind_of_ok (isNext_eq h kind), if_pos (by simp [heq]),
    Run.bind_of_ok (move_eq h (heq ▸ hk))]
  rfl

theorem eat_of_ne {kind : TokenKind} (h : Within ts i) (hne : peek (ts.drop i) ≠ kind) :
    (Tape.of ts).eat kind i = .ok (false, i) := by
  rw [Tape.eat, Run.bind_of_ok (isNext_eq h kind), if_neg (by simp [hne])]
  rfl

theorem discard_eat {kind : TokenKind} (h : Within ts i) (hk : kind ≠ .eof) :
    ∃ j, i ≤ j ∧ Within ts j ∧ ts.drop j = skip kind (ts.drop i) ∧
      (discard ((Tape.of ts).eat kind)) i = .ok ((), j) := by
  obtain ⟨t, hdrop, -⟩ := h.drop_eq
  by_cases heq : peek (ts.drop i) = kind
  · refine ⟨i + 1, Nat.le_succ i, h.succ (heq ▸ hk), ?_, Run.discard_of_ok (eat_of_eq h hk heq)⟩
    rw [hdrop, peek_cons] at heq
    rw [hdrop, skip, if_pos heq]
  · refine ⟨i, Nat.le_refl i, h, ?_, Run.discard_of_ok (eat_of_ne h heq)⟩
    rw [hdrop, peek_cons] at heq
    rw [hdrop, skip, if_neg heq]

theorem expect_agrees {kind : TokenKind} (h : Within ts i) (hk : kind ≠ .eof) (what : String) :
    Agrees ts i ((Tape.of ts).expect kind what i) (expect kind what (ts.drop i)) := by
  rw [Tape.expect, Run.bind_of_ok (isNext_eq h kind)]
  by_cases heq : peek (ts.drop i) = kind
  · obtain ⟨t, hdrop, hadvance⟩ := advance_eq h (heq ▸ hk)
    have hsucc := h.succ (heq ▸ hk)
    rw [if_pos (by simp [heq]), hadvance]
    rw [hdrop, peek_cons] at heq
    rw [hdrop, expect, if_pos heq]
    exact .ok t (Nat.le_succ i) hsucc
  · obtain ⟨t, hdrop, hcurrent, -⟩ := h.drop_eq
    rw [if_neg (by simp [heq]), Run.bind_of_ok hcurrent]
    rw [hdrop, peek_cons] at heq
    rw [hdrop, expect, if_neg heq]
    exact .refused _

/-! ### Decorators -/

theorem argument?_of_kind {t : Token} (h : t.kind = .rightParen ∨ t.kind = .eof) :
    argument? t = .ok none := by
  unfold argument?
  rcases h with h | h <;> rw [h]

theorem eatComma_eq (h : Within ts i) :
    ∃ j, i ≤ j ∧ Within ts j ∧ ts.drop j = skip .comma (ts.drop i) ∧
      (Tape.of ts).eatComma i = .ok ((), j) := by
  rw [Tape.eatComma, Run.bind_of_ok (isNext_eq h .rightParen)]
  by_cases heq : peek (ts.drop i) = .rightParen
  · obtain ⟨t, hdrop, -⟩ := h.drop_eq
    refine ⟨i, Nat.le_refl i, h, ?_, by rw [if_pos (by simp [heq])]; rfl⟩
    rw [hdrop, peek_cons] at heq
    rw [hdrop, skip, if_neg (by simp [heq])]
  · rw [if_neg (by simp [heq])]
    exact discard_eat h (by decide)

theorem arguments_some {t : Token} {arg : Argument} (h : argument? t = .ok (some arg))
    (rest : Tokens) :
    arguments (t :: rest) = do
      let (args, rest) ← arguments (skip .comma rest)
      return (arg :: args, rest) := by
  rw [arguments, h]
  show _ = arguments (skip .comma rest) >>= _
  cases arguments (skip .comma rest) <;> rfl

theorem arguments_agrees {n : Nat} (h : Within ts i) (hn : endIndex ts - i < n) :
    Agrees ts i ((Tape.of ts).arguments n i) (arguments (ts.drop i)) := by
  induction n generalizing i with
  | zero => omega
  | succ n ih =>
    obtain ⟨t, hdrop, hcurrent, -⟩ := h.drop_eq
    have hstay : Agrees ts i (.ok ([], i)) (.ok (([] : List Argument), t :: ts.drop (i + 1))) := by
      rw [← hdrop]
      exact .ok [] (Nat.le_refl i) h
    rw [Tape.arguments, Run.bind_of_ok (isNext_eq h .rightParen), Run.bind_of_ok (isNext_eq h .eof)]
    by_cases hend : t.kind = .rightParen ∨ t.kind = .eof
    · rw [if_pos (by simpa [hdrop, peek_cons] using hend), hdrop, arguments, argument?_of_kind hend]
      exact hstay
    · have hne : peek (ts.drop i) ≠ .eof := by
        rw [hdrop, peek_cons]
        exact fun hk => hend (Or.inr hk)
      rw [if_neg (by simpa [hdrop, peek_cons] using hend), Run.bind_of_ok hcurrent]
      cases harg : argument? t with
      | error e =>
        rw [hdrop, arguments, harg]
        exact .refused e
      | ok arg =>
        rw [Run.bind_of_ok (Run.ofExcept_ok arg i)]
        cases arg with
        | none =>
          rw [hdrop, arguments, harg]
          exact hstay
        | some arg =>
          obtain ⟨t', -, hadvance⟩ := advance_eq h hne
          obtain ⟨j, hij, hj, hskip, hcomma⟩ := eatComma_eq (h.succ hne)
          have hle := hj.le
          rw [hdrop, arguments_some harg, ← hskip]
          show Agrees ts i ((discard (Tape.of ts).advance >>= _) i) _
          rw [Run.bind_of_ok (Run.discard_of_ok hadvance), Run.bind_of_ok hcomma]
          exact ((ih hj (by omega)).bind fun args k _ hk _ =>
            .ok (arg :: args) (Nat.le_refl k) hk).mono (by omega)

theorem argumentList_eq (ts : Tokens) :
    argumentList ts = if peek ts = .leftParen then do
      let (args, left) ← arguments ts.tail
      let (_, left) ← expect .rightParen "\")\"" left
      return (args, left)
    else .ok ([], ts) := by
  unfold argumentList
  split_ifs with h
  · cases arguments ts.tail with
    | error e => rfl
    | ok r =>
      show _ = expect .rightParen "\")\"" r.2 >>= _
      dsimp only
      cases expect .rightParen "\")\"" r.2 <;> rfl
  · rfl

theorem decorator_eq (ts : Tokens) :
    decorator ts = do
      let (mark, left) ← expect .at "\"@\"" ts
      let (name, left) ← expect .identifier "decorator name" left
      let (args, left) ← argumentList left
      return (⟨name.text, args, mark.position⟩, left) := by
  unfold decorator
  cases expect .at "\"@\"" ts with
  | error e => rfl
  | ok r =>
    show _ = expect .identifier "decorator name" r.2 >>= _
    dsimp only
    cases expect .identifier "decorator name" r.2 with
    | error e => rfl
    | ok r =>
      show _ = argumentList r.2 >>= _
      dsimp only
      cases argumentList r.2 <;> rfl

variable {turns : Nat}

theorem argumentList_agrees (h : Within ts i) (hturns : endIndex ts < turns) :
    Agrees ts i ((Tape.of ts).argumentList turns i) (argumentList (ts.drop i)) := by
  rw [argumentList_eq, Tape.argumentList]
  by_cases heq : peek (ts.drop i) = .leftParen
  · have hsucc := h.succ (by simp [heq])
    rw [if_pos heq, Run.bind_of_ok (eat_of_eq h (by decide) heq), List.tail_drop]
    refine ((arguments_agrees hsucc (by omega)).bind fun args j _ hj _ => ?_).mono (Nat.le_succ i)
    exact (expect_agrees hj (by decide) _).bind_discard fun _ k _ hk _ =>
      .ok args (Nat.le_refl k) hk
  · rw [if_neg heq, Run.bind_of_ok (eat_of_ne h heq)]
    exact .ok [] (Nat.le_refl i) h

theorem decorator_agrees (h : Within ts i) (hturns : endIndex ts < turns) :
    Agrees ts i ((Tape.of ts).decorator turns i) (decorator (ts.drop i)) := by
  rw [decorator_eq]
  refine (expect_agrees h (by decide) _).bind fun mark j _ hj _ => ?_
  refine (expect_agrees hj (by decide) _).bind fun name k _ hk _ => ?_
  exact (argumentList_agrees hk hturns).bind fun args l _ hl _ => .ok _ (Nat.le_refl l) hl

theorem preamble_agrees {n : Nat} {doc : Option String} (h : Within ts i)
    (hturns : endIndex ts < turns) (hn : endIndex ts - i < n) :
    Agrees ts i ((Tape.of ts).preamble turns n doc i) (preamble doc (ts.drop i)) := by
  induction n generalizing i doc with
  | zero => omega
  | succ n ih =>
    obtain ⟨t, hdrop, hcurrent, -⟩ := h.drop_eq
    rw [Tape.preamble, Run.bind_of_ok (isNext_eq h .docComment)]
    by_cases hdoc : peek (ts.drop i) = .docComment
    · obtain ⟨t', hdrop', hadvance⟩ := advance_eq h (by simp [hdoc])
      have hsucc := h.succ (by simp [hdoc])
      have hle := hsucc.le
      rw [if_pos (by simp [hdoc]), Run.bind_of_ok hadvance]
      rw [hdrop', peek_cons] at hdoc
      rw [hdrop', preamble_doc hdoc]
      exact (ih hsucc (by omega)).mono (Nat.le_succ i)
    · rw [if_neg (by simp [hdoc]), Run.bind_of_ok (isNext_eq h .at)]
      by_cases hat : peek (ts.drop i) = .at
      · rw [if_pos (by simp [hat])]
        have hd := decorator_agrees h hturns
        rw [hdrop, peek_cons] at hat
        rw [hdrop] at hd ⊢
        rw [preamble_at hat]
        refine hd.bind fun d j hij hj hread => ?_
        have hlen := decorator_length hread
        rw [← hdrop, List.length_drop, List.length_drop] at hlen
        have hle := hj.le
        exact (ih hj (by omega)).bind fun p k _ hk _ => .ok _ (Nat.le_refl k) hk
      · rw [if_neg (by simp [hat]), preamble_end (ts.drop i) hdoc hat]
        exact .ok _ (Nat.le_refl i) h

/-! ### Namespaces -/

theorem nameParts_agrees {n : Nat} (h : Within ts i) (hn : endIndex ts - i < n) :
    Agrees ts i ((Tape.of ts).nameParts n i) (nameParts (ts.drop i)) := by
  induction n generalizing i with
  | zero => omega
  | succ n ih =>
    obtain ⟨t, hdrop, -⟩ := h.drop_eq
    rw [Tape.nameParts]
    by_cases hdot : peek (ts.drop i) = .dot
    · have hsucc := h.succ (by simp [hdot])
      rw [Run.bind_of_ok (eat_of_eq h (by decide) hdot)]
      rw [hdrop, peek_cons] at hdot
      rw [hdrop, nameParts_dot hdot]
      refine Agrees.mono ?_ (Nat.le_succ i)
      refine (expect_agrees hsucc (by decide) _).bind fun part j hij hj _ => ?_
      have hle := hj.le
      exact (ih hj (by omega)).bind fun parts k _ hk _ => .ok _ (Nat.le_refl k) hk
    · rw [Run.bind_of_ok (eat_of_ne h hdot), nameParts_end (ts.drop i) hdot]
      exact .ok _ (Nat.le_refl i) h

/-- A mark that may stand behind what has been read. -/
theorem Agrees.eat {kind : TokenKind} {x : Run α} {a : α} (h : Within ts i) (hk : kind ≠ .eof)
    (hx : ∀ j, Within ts j → x j = .ok (a, j)) :
    Agrees ts i ((discard ((Tape.of ts).eat kind) >>= fun _ => x) i)
      (.ok (a, skip kind (ts.drop i))) := by
  obtain ⟨j, hij, hj, hskip, heat⟩ := discard_eat h hk
  rw [Run.bind_of_ok heat, hx j hj, ← hskip]
  exact .ok a hij hj

theorem namespaceDecl_agrees (h : Within ts i) (hturns : endIndex ts < turns) :
    Agrees ts i ((Tape.of ts).namespaceDecl turns i) (namespaceDecl (ts.drop i)) := by
  refine (expect_agrees h (by decide) _).bind_discard fun _ j _ hj _ => ?_
  refine (expect_agrees hj (by decide) _).bind fun name k _ hk _ => ?_
  refine (nameParts_agrees hk (by omega)).bind fun parts l _ hl _ => ?_
  exact Agrees.eat hl (by decide) fun _ _ => rfl

/-! ### Bodies -/

section Block

variable {σ : Type} {q : σ → Tokens → Except ParseError (List α × Tokens)} {after : α → σ}
  {r : Preamble → σ → Tokens → Except ParseError (α × Tokens)} {item : Preamble → σ → Run α}

theorem block_of_close {n : Nat} {doc : Option String} (state : σ) (h : Within ts i) (hn : 0 < n)
    (hclose : peek (ts.drop i) = .rightBrace) :
    (Tape.of ts).block turns item after n doc state i = .ok ([], i + 1) := by
  obtain ⟨n, rfl⟩ := Nat.exists_eq_succ_of_ne_zero (Nat.ne_of_gt hn)
  rw [Tape.block, Run.bind_of_ok (eat_of_eq h (by decide) hclose)]
  rfl

/-- The loop over what stands in braces agrees with a reader of this form if it does so on items. -/
theorem block_agrees
    (hq : ∀ state ts, q state ts = if peek ts = .rightBrace then .ok ([], ts.tail) else do
      let (p, left) ← preamble none ts
      if p.decorators.isEmpty && peek left = .rightBrace then return ([], left.tail)
      let (a, left) ← r p state left
      let (as, left) ← q (after a) left
      return (a :: as, left))
    (hitem : ∀ p state i, Within ts i → Agrees ts i (item p state i) (r p state (ts.drop i)))
    (hlen : ∀ {p state ts a rest}, r p state ts = .ok (a, rest) → rest.length < ts.length)
    {n : Nat} (state : σ) (h : Within ts i) (hturns : endIndex ts < turns)
    (hn : endIndex ts - i < n) :
    Agrees ts i ((Tape.of ts).block turns item after n none state i) (q state (ts.drop i)) := by
  induction n generalizing i state with
  | zero => omega
  | succ n ih =>
    rw [hq]
    by_cases hclose : peek (ts.drop i) = .rightBrace
    · have hsucc := h.succ (by simp [hclose])
      rw [block_of_close state h (by omega) hclose, if_pos hclose, List.tail_drop]
      exact .ok [] (Nat.le_succ i) hsucc
    · rw [if_neg hclose, Tape.block, Run.bind_of_ok (eat_of_ne h hclose)]
      refine (preamble_agrees h hturns (by omega)).bind fun p j hij hj hp => ?_
      have hle := hj.le
      rw [Run.bind_of_ok (isNext_eq hj .rightBrace)]
      dsimp only
      by_cases hlast : p.decorators.isEmpty ∧ peek (ts.drop j) = .rightBrace
      · -- only doc comments stand before the brace, so that the next turn is the last one
        have hsucc := hj.succ (by simp [hlast.2])
        have hlt : i < j := by
          refine Nat.lt_of_le_of_ne hij fun hij => hclose ?_
          rw [hij]
          exact hlast.2
        rw [if_pos (by simpa using hlast), if_pos (by simpa using hlast),
          block_of_close state hj (by omega) hlast.2, List.tail_drop]
        exact .ok [] (Nat.le_succ j) hsucc
      · rw [if_neg (by simpa using hlast), if_neg (by simpa using hlast)]
        refine (hitem p state j hj).bind fun a k hjk hk hread => ?_
        have hshort := hlen hread
        rw [List.length_drop, List.length_drop] at hshort
        have hle' := hk.le
        exact (ih (after a) hk (by omega)).bind fun as l _ hl _ => .ok _ (Nat.le_refl l) hl

end Block

/-! ### Arguments of decorators that have passed -/

theorem argumentOf_eq {ds : List Decorator} {target : Target}
    (hc : Decorator.check ds target = none) (known : KnownDecorator) (i : Nat) :
    Tape.argumentOf ds known.name i = .ok (Decorator.argument? ds known.name, i) := by
  unfold Tape.argumentOf Decorator.argument?
  cases hd : Decorator.find? ds known.name with
  | none => rfl
  | some d =>
    obtain ⟨arg, hargs, -⟩ := Decorator.args_of_find? hc hd
    have hfirst : Tape.firstArgument d i = .ok (arg, i) := by
      rw [Tape.firstArgument, hargs]
      rfl
    show (Tape.firstArgument d >>= _) i = .ok (d.args.head?, i)
    rw [Run.bind_of_ok hfirst, hargs]
    rfl

theorem memberValue_eq {ds : List Decorator} {target : Target}
    (hc : Decorator.check ds target = none) (next : Nat) :
    memberValue ds next = (Decorator.argument? ds KnownDecorator.value.name).elim next
      fun arg => arg.integer?.getD 0 := by
  have hvalue : "value" = KnownDecorator.value.name := rfl
  unfold memberValue Decorator.argument?
  rw [hvalue]
  cases hd : Decorator.find? ds KnownDecorator.value.name with
  | none => rfl
  | some d =>
    obtain ⟨arg, hargs, -⟩ := Decorator.args_of_find? hc hd
    show (d.args.head?.bind Argument.integer?).getD 0 = d.args.head?.elim next _
    rw [hargs]
    rfl

theorem fieldSize_eq {ds : List Decorator} {target : Target} (hc : Decorator.check ds target = none)
    (type : TypeRef) (i : Nat) : Tape.fieldSize ds type i = .ok (fieldSize ds type, i) := by
  unfold Tape.fieldSize
  rw [Run.bind_of_ok (argumentOf_eq hc .size i), Run.bind_of_ok (argumentOf_eq hc .lengthPrefix i)]
  rfl

/-! ### Enums -/

theorem member_eq (p : Preamble) (next : Nat) (ts : Tokens) :
    member p next ts = do
      check p.decorators .enumMember
      let (name, left) ← expect .identifier "enum member name" ts
      if 255 < memberValue p.decorators next then
        .error ⟨name.position, .memberValue (memberValue p.decorators next) name.text⟩
      else
        return (⟨name.text, UInt8.ofNat (memberValue p.decorators next), p.doc⟩,
          skip .comma left) := by
  unfold member
  cases check p.decorators .enumMember with
  | error e => rfl
  | ok _ =>
    show _ = expect .identifier "enum member name" ts >>= _
    dsimp only
    cases expect .identifier "enum member name" ts <;> rfl

theorem member_agrees (p : Preamble) (next : Nat) (h : Within ts i) :
    Agrees ts i ((Tape.of ts).member p next i) (member p next (ts.drop i)) := by
  rw [member_eq]
  refine Agrees.test fun hcheck => ?_
  have hc := check_eq_ok hcheck
  refine (expect_agrees h (by decide) _).bind fun name j _ hj _ => ?_
  rw [Run.bind_of_ok (argumentOf_eq hc .value j)]
  rw [← memberValue_eq hc]
  split_ifs with hvalue
  · exact .refused _
  · exact Agrees.eat hj (by decide) fun _ _ => rfl

theorem members_agrees (h : Within ts i) (hturns : endIndex ts < turns) :
    Agrees ts i ((Tape.of ts).block turns (Tape.of ts).member (fun m => m.value.toNat + 1) turns
      none 0 i) (members 0 (ts.drop i)) :=
  block_agrees members_eq (fun p next _ => member_agrees p next) member_length 0 h hturns
    (Nat.lt_of_le_of_lt (Nat.sub_le _ i) hturns)

theorem enumDecl_agrees (p : Preamble) (h : Within ts i) (hturns : endIndex ts < turns) :
    Agrees ts i ((Tape.of ts).enumDecl turns p i) (enumDecl p (ts.drop i)) := by
  refine (expect_agrees h (by decide) _).bind_discard fun _ j _ hj _ => ?_
  refine (expect_agrees hj (by decide) _).bind fun name k _ hk _ => ?_
  refine (expect_agrees hk (by decide) _).bind_discard fun _ l _ hl _ => ?_
  exact (members_agrees hl hturns).bind fun ms m _ hm _ => .ok _ (Nat.le_refl m) hm

/-! ### Models -/

theorem Agrees.reject {f : Unit → Run α} {g : Unit → Except ParseError (α × Tokens)}
    (h : Within ts i) (hf : Agrees ts i (f () i) (g ())) :
    Agrees ts i (((Tape.of ts).rejectOptional >>= f) i) (rejectOptional (ts.drop i) >>= g) := by
  obtain ⟨t, hdrop, hcurrent, -⟩ := h.drop_eq
  have hreject : (Tape.of ts).rejectOptional i = Run.ofExcept (rejectOptional (ts.drop i)) i := by
    rw [Tape.rejectOptional, Run.bind_of_ok (isNext_eq h .question), hdrop, peek_cons,
      rejectOptional]
    by_cases hq : t.kind = .question
    · rw [if_pos (by simp [hq]), if_pos hq, Run.bind_of_ok hcurrent]
      rfl
    · rw [if_neg (by simp [hq]), if_neg hq]
      rfl
  have hbind : ((Tape.of ts).rejectOptional >>= f) i =
      (Run.ofExcept (rejectOptional (ts.drop i)) >>= f) i := by
    show ((Tape.of ts).rejectOptional i).bind _ = (Run.ofExcept _ i).bind _
    rw [hreject]
  rw [hbind]
  exact .test fun _ => hf

theorem typeRef_eq (ts : Tokens) :
    typeRef ts = do
      let (name, left) ← expect .identifier "type name" ts
      if peek left = .leftBracket then
        let (_, left) ← expect .rightBracket "\"]\"" left.tail
        return (.array (TypeRef.ofName name.text), left)
      else return (TypeRef.ofName name.text, left) := by
  unfold typeRef
  cases expect .identifier "type name" ts with
  | error e => rfl
  | ok r =>
    show _ = if peek r.2 = .leftBracket then _ else _
    dsimp only
    split_ifs with h
    · cases expect .rightBracket "\"]\"" r.2.tail <;> rfl
    · rfl

theorem typeRef_agrees (h : Within ts i) :
    Agrees ts i ((Tape.of ts).typeRef i) (typeRef (ts.drop i)) := by
  rw [typeRef_eq]
  refine (expect_agrees h (by decide) _).bind fun name j _ hj _ => ?_
  dsimp only
  by_cases hopen : peek (ts.drop j) = .leftBracket
  · have hsucc := hj.succ (by simp [hopen])
    rw [if_pos hopen, Run.bind_of_ok (eat_of_eq hj (by decide) hopen), List.tail_drop]
    refine Agrees.mono ?_ (Nat.le_succ j)
    exact (expect_agrees hsucc (by decide) _).bind_discard fun _ k _ hk _ =>
      .ok _ (Nat.le_refl k) hk
  · rw [if_neg hopen, Run.bind_of_ok (eat_of_ne hj hopen)]
    exact .ok _ (Nat.le_refl j) hj

theorem field_agrees (p : Preamble) (h : Within ts i) :
    Agrees ts i ((Tape.of ts).field p i) (field p (ts.drop i)) := by
  rw [field_eq]
  refine (expect_agrees h (by decide) _).bind fun name j _ hj _ => ?_
  refine .reject hj ?_
  refine (expect_agrees hj (by decide) _).bind_discard fun _ k _ hk _ => ?_
  refine (typeRef_agrees hk).bind fun type l _ hl _ => ?_
  refine .reject hl ?_
  have hmark : TokenKind.semicolon ≠ .eof := by decide
  obtain ⟨m, hlm, hm, hskip, heat⟩ := discard_eat hl hmark
  rw [Run.bind_of_ok heat]
  refine Agrees.mono ?_ hlm
  refine .test fun hcheck => ?_
  rw [Run.bind_of_ok (fieldSize_eq (check_eq_ok hcheck) type m), ← hskip]
  exact .ok _ (Nat.le_refl m) hm

theorem fields_agrees (h : Within ts i) (hturns : endIndex ts < turns) :
    Agrees ts i ((Tape.of ts).block turns (fun p _ => (Tape.of ts).field p) (fun _ => ()) turns
      none () i) (fields (ts.drop i)) :=
  block_agrees (q := fun _ => fields) (r := fun p _ => field p) (fun _ => fields_eq)
    (fun p _ _ => field_agrees p) field_length () h hturns
    (Nat.lt_of_le_of_lt (Nat.sub_le _ i) hturns)

theorem modelDecl_agrees {p : Preamble} (hc : Decorator.check p.decorators .model = none)
    (h : Within ts i) (hturns : endIndex ts < turns) :
    Agrees ts i ((Tape.of ts).modelDecl turns p i) (modelDecl p (ts.drop i)) := by
  refine (expect_agrees h (by decide) _).bind_discard fun _ j _ hj _ => ?_
  refine (expect_agrees hj (by decide) _).bind fun name k _ hk _ => ?_
  refine (expect_agrees hk (by decide) _).bind_discard fun _ l _ hl _ => ?_
  refine (fields_agrees hl hturns).bind fun fs m _ hm _ => ?_
  rw [Run.bind_of_ok (argumentOf_eq hc .commandId m)]
  exact .ok _ (Nat.le_refl m) hm

/-! ### Declarations -/

theorem declaration_eq (p : Preamble) (ts : Tokens) :
    declaration p ts =
      match peek ts with
      | .namespaceWord => do
        check p.decorators .nameSpace
        let (name, left) ← namespaceDecl ts
        return (some (.nameSpace name), left)
      | .enumWord => do
        check p.decorators .enum
        let (e, left) ← enumDecl p ts
        return (some (.enum e), left)
      | .modelWord => do
        check p.decorators .model
        let (m, left) ← modelDecl p ts
        return (some (.model m), left)
      | _ => .ok (none, ts.tail) := by
  unfold declaration
  cases peek ts with
  | namespaceWord => cases check p.decorators .nameSpace <;> cases namespaceDecl ts <;> rfl
  | enumWord => cases check p.decorators .enum <;> cases enumDecl p ts <;> rfl
  | modelWord => cases check p.decorators .model <;> cases modelDecl p ts <;> rfl
  | _ => rfl

theorem declaration_agrees (p : Preamble) (h : Within ts i) (hturns : endIndex ts < turns)
    (hne : peek (ts.drop i) ≠ .eof) :
    Agrees ts i ((Tape.of ts).declaration turns p i) (declaration p (ts.drop i)) := by
  obtain ⟨t, hdrop, hcurrent, -⟩ := h.drop_eq
  obtain ⟨t', -, hadvance⟩ := advance_eq h hne
  have hpeek : peek (ts.drop i) = t.kind := by rw [hdrop, peek_cons]
  have hpass : Agrees ts i ((discard (Tape.of ts).advance >>= fun _ => pure none) i)
      (.ok ((none : Option Declaration), (ts.drop i).tail)) := by
    rw [Run.bind_of_ok (Run.discard_of_ok hadvance), List.tail_drop]
    exact .ok none (Nat.le_succ i) (h.succ hne)
  rw [declaration_eq, Tape.declaration, Run.bind_of_ok hcurrent, hpeek]
  cases hkind : t.kind with
  | namespaceWord =>
    refine .test fun _ => ?_
    exact (namespaceDecl_agrees h hturns).bind fun name j _ hj _ => .ok _ (Nat.le_refl j) hj
  | enumWord =>
    refine .test fun _ => ?_
    exact (enumDecl_agrees p h hturns).bind fun e j _ hj _ => .ok _ (Nat.le_refl j) hj
  | modelWord =>
    refine .test fun hcheck => ?_
    exact (modelDecl_agrees (check_eq_ok hcheck) h hturns).bind fun m j _ hj _ =>
      .ok _ (Nat.le_refl j) hj
  | _ => exact hpass

theorem declarations_of_end {n : Nat} {doc : Option String} (h : Within ts i) (hn : 0 < n)
    (hend : peek (ts.drop i) = .eof) :
    (Tape.of ts).declarations turns n doc i = .ok ([], i) := by
  obtain ⟨n, rfl⟩ := Nat.exists_eq_succ_of_ne_zero (Nat.ne_of_gt hn)
  rw [Tape.declarations, Run.bind_of_ok (isNext_eq h .eof), if_pos (by simp [hend])]
  rfl

/-- Before the end mark the machine finds no declaration, and does not move. -/
theorem declaration_of_end (p : Preamble) (h : Within ts i) (hend : peek (ts.drop i) = .eof) :
    (Tape.of ts).declaration turns p i = .ok (none, i) := by
  obtain ⟨t, hdrop, hcurrent, -⟩ := h.drop_eq
  rw [hdrop, peek_cons] at hend
  have hadvance : (Tape.of ts).advance i = .ok (t, i) := by
    rw [Tape.advance, Run.bind_of_ok hcurrent, if_pos hend]
    rfl
  rw [Tape.declaration, Run.bind_of_ok hcurrent, hend]
  show (discard (Tape.of ts).advance >>= _) i = _
  rw [Run.bind_of_ok (Run.discard_of_ok hadvance)]
  rfl

theorem Within.eq_endIndex (h : Within ts i) (hend : peek (ts.drop i) = .eof) :
    i = endIndex ts := by
  obtain ⟨t, hdrop, -, heof⟩ := h.drop_eq
  rw [hdrop, peek_cons] at hend
  exact heof.1 hend

/-- The loop over declarations ends before the end mark. -/
theorem declarations_agrees {n : Nat} {doc : Option String} (h : Within ts i)
    (hturns : endIndex ts < turns) (hn : endIndex ts - i < n) :
    Agrees ts i ((Tape.of ts).declarations turns n doc i)
      ((fun ds => (ds, ts.drop (endIndex ts))) <$> declarations doc (ts.drop i)) := by
  induction n generalizing i doc with
  | zero => omega
  | succ n ih =>
    rw [declarations_eq, map_bind]
    by_cases hend : peek (ts.drop i) = .eof
    · rw [declarations_of_end h (by omega) hend,
        preamble_end _ (by simp [hend]) (by simp [hend])]
      show Agrees ts i _ ((fun ds => (ds, _)) <$> if peek (ts.drop i) = .eof then _ else _)
      rw [if_pos hend, ← h.eq_endIndex hend]
      exact .ok [] (Nat.le_refl i) h
    · rw [Tape.declarations, Run.bind_of_ok (isNext_eq h .eof), if_neg (by simp [hend])]
      refine (preamble_agrees h hturns (by omega)).bind fun p j hij hj _ => ?_
      have hle := hj.le
      dsimp only
      by_cases hlast : peek (ts.drop j) = .eof
      · -- the preamble reaches up to the end mark, so that the next turn is the last one
        have hlt : i < j := by
          refine Nat.lt_of_le_of_ne hij fun hij => hend ?_
          rw [hij]
          exact hlast
        rw [if_pos hlast, Run.bind_of_ok (declaration_of_end p hj hlast)]
        dsimp only
        rw [declarations_of_end hj (by omega) hlast, ← hj.eq_endIndex hlast]
        exact .ok [] (Nat.le_refl j) hj
      · rw [if_neg hlast, map_bind]
        refine (declaration_agrees p hj hturns hlast).bind fun d k hjk hk hread => ?_
        have hshort := declaration_length hlast hread
        rw [List.length_drop, List.length_drop] at hshort
        have hle' := hk.le
        cases d with
        | none => exact ih hk (by omega)
        | some d =>
          have hcons : (fun ds => (ds, ts.drop (endIndex ts))) <$>
              (do return d :: (← declarations none (ts.drop k))) =
              ((fun ds => (ds, ts.drop (endIndex ts))) <$> declarations none (ts.drop k)) >>=
                fun (ds, left) => (.ok (d :: ds, left) : Except ParseError _) := by
            cases declarations none (ts.drop k) <;> rfl
          dsimp only
          rw [hcons]
          exact (ih hk (by omega)).bind fun ds l _ hl _ => .ok _ (Nat.le_refl l) hl

end Steps

/-! ### Schemas -/

section Schemas

variable {ts : Tokens}

theorem Agrees.eq_ok {α : Type} {i j : Nat} {r : Except Stop (α × Nat)} {a : α} (hj : Within ts j)
    (h : Agrees ts i r (.ok (a, ts.drop j))) : r = .ok (a, j) := by
  generalize hq : (.ok (a, ts.drop j) : Except ParseError (α × Tokens)) = q at h
  cases h with
  | refused e => cases hq
  | @ok b k _ hk =>
    obtain ⟨rfl, hdrop⟩ := Prod.mk.inj (Except.ok.inj hq)
    have hlen := congrArg List.length hdrop
    rw [List.length_drop, List.length_drop] at hlen
    have hj' := hj.le
    have hk' := hk.le
    have hmarked := hj.marked
    have hkj : k = j := by omega
    rw [hkj]

theorem endless_of_marked (h : endIndex ts < ts.length) : endless ts = ts := by
  have hany : (ts.any (·.kind == .eof)) = true := by
    obtain ⟨t, ht, hk⟩ := exists_mem_eof_iff.2 h
    exact List.any_eq_true.2 ⟨t, ht, by simp [hk]⟩
  unfold endless
  cases hlast : ts.getLast? with
  | none => exact (List.getLast?_eq_none_iff.1 hlast).symm
  | some last => exact if_pos hany

theorem schema_eq (sourceFile : String) (parsedAt : Nat) {turns : Nat} (h : endIndex ts < ts.length)
    (hturns : endIndex ts < turns) :
    (Tape.of ts).schema turns sourceFile parsedAt 0 =
      match Schema.ofTokens sourceFile parsedAt ts with
      | .error e => .error (.refused e)
      | .ok s => .ok (s, endIndex ts) := by
  have hds : Agrees ts 0 ((Tape.of ts).declarations turns turns none 0)
      ((fun ds => (ds, ts.drop (endIndex ts))) <$> declarations none ts) :=
    declarations_agrees ⟨h, Nat.zero_le _⟩ hturns hturns
  unfold Tape.schema Schema.ofTokens
  rw [endless_of_marked h]
  cases hq : declarations none ts with
  | error e =>
    rw [hq] at hds
    generalize hr : (Tape.of ts).declarations turns turns none 0 = r at hds
    cases hds
    exact Run.bind_of_error hr
  | ok ds =>
    rw [hq] at hds
    rw [Run.bind_of_ok (Agrees.eq_ok ⟨h, Nat.le_refl _⟩ hds)]
    rfl

/-! ### Tokens behind the end mark -/

theorem endIndex_take (h : endIndex ts < ts.length) (behind : Tokens) :
    endIndex (ts.take (endIndex ts + 1) ++ behind) = endIndex ts := by
  have htake : (ts.take (endIndex ts + 1)).findIdx (·.kind == .eof) = endIndex ts := by
    rw [List.findIdx_take]
    exact Nat.min_eq_right (Nat.le_succ _)
  rw [endIndex, List.findIdx_append, htake, if_pos]
  rw [List.length_take]
  omega

/-- The machine sees no token behind the first end mark. -/
theorem of_take (h : endIndex ts < ts.length) (behind : Tokens) :
    Tape.of (ts.take (endIndex ts + 1) ++ behind) = Tape.of ts := by
  unfold Tape.of
  rw [endIndex_take h]
  congr 1
  funext i
  split_ifs with hi
  · rfl
  · have hlen : (ts.take (endIndex ts + 1)).length = endIndex ts + 1 := by
      rw [List.length_take]
      omega
    have hmin :
        min i ((ts.take (endIndex ts + 1) ++ behind).length - 1) = min i (ts.length - 1) := by
      rw [List.length_append, hlen]
      omega
    rw [hmin, List.getElem?_append_left (by omega), List.getElem?_take, if_pos (by omega)]

end Schemas

end Parse

namespace Schema

open Parse

/-- Tokens are read by a machine that never goes behind the first end mark, never takes an argument
that is not there, and is done with each loop after at most one turn for each token up to that mark;
so the tokens behind it do not count. -/
theorem ofTokens_run (sourceFile : String) (parsedAt : Nat) {ts : Tokens} {turns : Nat}
    (hts : ∃ t ∈ ts, t.kind = .eof) (hturns : endIndex ts < turns) :
    ((Tape.of ts).schema turns sourceFile parsedAt 0 =
      match ofTokens sourceFile parsedAt ts with
      | .error e => .error (.refused e)
      | .ok s => .ok (s, endIndex ts)) ∧
    ∀ behind, ofTokens sourceFile parsedAt (ts.take (endIndex ts + 1) ++ behind) =
      ofTokens sourceFile parsedAt ts := by
  have h := exists_mem_eof_iff.1 hts
  refine ⟨schema_eq sourceFile parsedAt h hturns, fun behind => ?_⟩
  have hend := endIndex_take h behind
  have hmarked : endIndex (ts.take (endIndex ts + 1) ++ behind) <
      (ts.take (endIndex ts + 1) ++ behind).length := by
    rw [hend, List.length_append, List.length_take]
    omega
  have hrun' := schema_eq sourceFile parsedAt hmarked (Nat.lt_succ_self _)
  rw [of_take h, hend, schema_eq sourceFile parsedAt h (Nat.lt_succ_self _)] at hrun'
  revert hrun'
  cases ofTokens sourceFile parsedAt ts <;>
    cases ofTokens sourceFile parsedAt (ts.take (endIndex ts + 1) ++ behind) <;>
    simp +contextual

/-- The tokens of an enum whose member has a decorator without its argument, with more tokens behind
the end mark. -/
def bareValueTokens : Tokens :=
  [⟨.enumWord, "enum", ⟨1, 1⟩⟩, ⟨.identifier, "E", ⟨1, 6⟩⟩, ⟨.leftBrace, "\x7b", ⟨1, 8⟩⟩,
    ⟨.at, "@", ⟨1, 10⟩⟩, ⟨.identifier, "value", ⟨1, 11⟩⟩, ⟨.identifier, "A", ⟨1, 17⟩⟩,
    ⟨.eof, "", ⟨1, 18⟩⟩, ⟨.rightBrace, "\x7d", ⟨1, 19⟩⟩]

theorem ofTokens_run_bareValueTokens :
    endIndex bareValueTokens = 6 ∧
    (Tape.of bareValueTokens).schema 7 "" 0 0 =
      .error (.refused ⟨⟨1, 10⟩, .decorator (.argumentCount "value" 0)⟩) ∧
    ∀ behind, ofTokens "" 0 (bareValueTokens.take 7 ++ behind) =
      .error ⟨⟨1, 10⟩, .decorator (.argumentCount "value" 0)⟩ := by
  have hts : ofTokens "" 0 bareValueTokens =
      .error ⟨⟨1, 10⟩, .decorator (.argumentCount "value" 0)⟩ := by decide +kernel
  have hend : ∃ t ∈ bareValueTokens, t.kind = .eof := ⟨⟨.eof, "", ⟨1, 18⟩⟩, by decide +kernel, rfl⟩
  have hturns : endIndex bareValueTokens < 7 := by decide
  have hrun := ofTokens_run "" 0 hend hturns
  rw [hts] at hrun
  exact ⟨rfl, hrun⟩

end Schema

end WireSchema
