import WireSchema.Proofs.ParserRun

/-! # What a reader uses of its tokens

A reader takes tokens from the front, and of those behind it looks at no more than the kind of the
first. `SpansAt r P ts` says this of a run of the reader `r` on `ts`: if it goes well, it goes the
same with anything behind the tokens it has used that starts with a token of the same kind, and the
tokens it has used are as `P` says. There is a rule for each way in which readers are put together.
-/

namespace WireSchema

namespace Parse

variable {α β : Type}

/-- The reader uses tokens as `P` says, and it would do so with other tokens behind them. -/
def SpansAt (r : Tokens → Except ParseError (α × Tokens)) (P : α → Tokens → Prop) (ts : Tokens) :
    Prop :=
  ∀ a rest, r ts = .ok (a, rest) → ∃ used, ts = used ++ rest ∧ P a used ∧
    ∀ rest', peek rest' = peek rest → r (used ++ rest') = .ok (a, rest')

/-! ### Rules -/

section Rules

variable {r : Tokens → Except ParseError (α × Tokens)} {P : α → Tokens → Prop} {ts : Tokens}

theorem peek_append (used : Tokens) {rest rest' : Tokens} (h : peek rest' = peek rest) :
    peek (used ++ rest') = peek (used ++ rest) := by
  cases used with
  | nil => exact h
  | cons t used => rfl

theorem SpansAt.of_eq {r' : Tokens → Except ParseError (α × Tokens)} (h : SpansAt r' P ts)
    (heq : ∀ ts', peek ts' = peek ts → r ts' = r' ts') : SpansAt r P ts := by
  intro a rest ha
  obtain ⟨used, hts, hP, hframe⟩ := h a rest ((heq ts rfl).symm.trans ha)
  refine ⟨used, hts, hP, fun rest' hpeek => (heq _ ?_).trans (hframe rest' hpeek)⟩
  rw [hts, peek_append used hpeek]

theorem SpansAt.mono {Q : α → Tokens → Prop} (h : SpansAt r P ts) (hPQ : ∀ a u, P a u → Q a u) :
    SpansAt r Q ts := by
  intro a rest ha
  obtain ⟨used, hts, hP, hframe⟩ := h a rest ha
  exact ⟨used, hts, hPQ a used hP, hframe⟩

theorem spansAt_ok {a : α} (h : P a []) : SpansAt (fun ts => .ok (a, ts)) P ts := by
  rintro _ _ ⟨⟩
  exact ⟨[], rfl, h, fun _ _ => rfl⟩

/-- One reader behind another. -/
theorem SpansAt.bind {g : α × Tokens → Except ParseError (β × Tokens)} {R : β → Tokens → Prop}
    (h : SpansAt r P ts)
    (hg : ∀ a u mid, P a u → r ts = .ok (a, mid) →
      SpansAt (fun ts => g (a, ts)) (fun b v => R b (u ++ v)) mid) :
    SpansAt (fun ts => r ts >>= g) R ts := by
  intro b rest hb
  obtain ⟨⟨a, mid⟩, ha, hb⟩ := bind_ok hb
  obtain ⟨u, hts, hP, hu⟩ := h a mid ha
  obtain ⟨v, rfl, hR, hv⟩ := hg a u mid hP ha b rest hb
  refine ⟨u ++ v, by rw [hts, List.append_assoc], hR, fun rest' hpeek => ?_⟩
  have hread := hu (v ++ rest') (peek_append v hpeek)
  dsimp only
  rw [List.append_assoc, hread]
  exact hv rest' hpeek

/-- A reader behind a test that looks at no token. -/
theorem SpansAt.test {c : Except ParseError Unit}
    {g : Tokens → Unit → Except ParseError (α × Tokens)}
    (h : c = .ok () → SpansAt (fun ts => g ts ()) P ts) : SpansAt (fun ts => c >>= g ts) P ts := by
  cases c with
  | error e =>
    intro a rest ha
    cases ha
  | ok u => exact h rfl

theorem rejectOptional_eq_ok_iff : rejectOptional ts = .ok () ↔ peek ts ≠ .question := by
  cases ts with
  | nil => simp [rejectOptional, peek]
  | cons t ts =>
    rw [rejectOptional, peek_cons]
    split_ifs with hq <;> simp [hq]

/-- A reader behind the test that no question mark comes next. -/
theorem SpansAt.reject {g : Tokens → Unit → Except ParseError (α × Tokens)}
    (h : SpansAt (fun ts => g ts ()) P ts) :
    SpansAt (fun ts => rejectOptional ts >>= g ts) P ts := by
  intro a rest ha
  obtain ⟨⟨⟩, hok, ha⟩ := bind_ok ha
  obtain ⟨used, rfl, hP, hframe⟩ := h a rest ha
  refine ⟨used, rfl, hP, fun rest' hpeek => ?_⟩
  have hok' : rejectOptional (used ++ rest') = .ok () := by
    rw [rejectOptional_eq_ok_iff, peek_append used hpeek]
    exact rejectOptional_eq_ok_iff.1 hok
  dsimp only
  rw [hok']
  exact hframe rest' hpeek

/-- A choice by the kind of the next token. -/
theorem SpansAt.ite {c : TokenKind → Prop} [DecidablePred c]
    {r' : Tokens → Except ParseError (α × Tokens)} (h : c (peek ts) → SpansAt r P ts)
    (h' : ¬ c (peek ts) → SpansAt r' P ts) :
    SpansAt (fun ts => if c (peek ts) then r ts else r' ts) P ts := by
  by_cases hc : c (peek ts)
  · exact (h hc).of_eq fun ts' hpeek => if_pos (hpeek ▸ hc)
  · exact (h' hc).of_eq fun ts' hpeek => if_neg (hpeek ▸ hc)

/-- A reader behind the next token, whose kind is known. -/
theorem SpansAt.tail {kind : TokenKind} (hpeek : peek ts = kind) (hkind : kind ≠ .eof)
    (h : ∀ t, t.kind = kind → SpansAt r (fun a u => P a (t :: u)) ts.tail) :
    SpansAt (fun ts => r ts.tail) P ts := by
  cases ts with
  | nil => exact absurd hpeek.symm hkind
  | cons t ts =>
    intro a rest ha
    obtain ⟨used, hts, hP, hframe⟩ := h t hpeek a rest ha
    rw [List.tail_cons] at hts
    exact ⟨t :: used, by rw [hts, List.cons_append], hP, hframe⟩

/-- A mark that may stand behind what has been read. -/
theorem spansAt_skip {kind : TokenKind} (hkind : kind ≠ .eof) {a : α}
    (h : ∀ u : Tokens, (∀ t ∈ u, t.kind = kind) → P a u) :
    SpansAt (fun ts => .ok (a, skip kind ts)) P ts := by
  have hread : ∀ ts, (.ok (a, skip kind ts) : Except ParseError (α × Tokens)) =
      if peek ts = kind then .ok (a, ts.tail) else .ok (a, ts) := by
    intro ts
    cases ts with
    | nil => exact (if_neg hkind.symm).symm
    | cons t ts =>
      rw [skip, peek_cons]
      split_ifs <;> rfl
  refine SpansAt.of_eq (SpansAt.ite (c := (· = kind)) (fun hpeek => ?_) fun _ => ?_)
    fun ts' _ => hread ts'
  · exact SpansAt.tail hpeek hkind fun t ht => spansAt_ok (h [t] (by simpa using ht))
  · exact spansAt_ok (h [] (by simp))

/-- A reader behind a token of the given kind. -/
theorem SpansAt.expect {kind : TokenKind} {what : String}
    {g : Token × Tokens → Except ParseError (α × Tokens)}
    (hg : ∀ t mid, t.kind = kind → expect kind what ts = .ok (t, mid) →
      SpansAt (fun ts => g (t, ts)) (fun a u => P a (t :: u)) mid) :
    SpansAt (fun ts => expect kind what ts >>= g) P ts := by
  have htoken : SpansAt (Parse.expect kind what) (fun t u => u = [t] ∧ t.kind = kind) ts := by
    intro t rest h
    cases ts with
    | nil => cases h
    | cons t' ts =>
      by_cases hkind : t'.kind = kind
      · rw [expect_cons hkind] at h
        cases h
        exact ⟨[t], rfl, ⟨rfl, hkind⟩, fun rest' _ => expect_cons hkind what rest'⟩
      · rw [Parse.expect, if_neg hkind] at h
        cases h
  refine htoken.bind ?_
  rintro t _ mid ⟨rfl, hkind⟩ h
  exact hg t mid hkind h

end Rules

end Parse

end WireSchema
