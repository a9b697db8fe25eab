import WireSchema.Proofs.Allowed
import WireSchema.Proofs.ParserRun

/-! # The values of enum members

A member of an enum is marked with its value or has the value behind that of the member before it
(`valueFrom`). An `EnumEntry` is an enum as it stands in the tokens: its members with or without a
mark, with doc comments around the mark, and with or without a comma behind them. The reader gives
every member the value it should have as long as these fit in a byte, and else stops at the first
member whose value does not (`enumDecl_number`). One member is `members_entry`; the body is an
induction over its members with the next value carried along. -/

namespace WireSchema

/-! ### Enums in the tokens -/

/-- `@value(n)`: a number that stands for `n` in parentheses, with a comma behind it or not. -/
structure ValueMark where
  mark : Token
  name : Token
  opening : Token
  number : Token
  comma : Option Token
  closing : Token
  value : Nat
  mark_kind : mark.kind = .at
  name_kind : name.kind = .identifier
  name_text : name.text = "value"
  opening_kind : opening.kind = .leftParen
  number_kind : number.kind = .number
  comma_kind : ∀ t ∈ comma, t.kind = .comma
  closing_kind : closing.kind = .rightParen
  number_value : ∃ x, Literal.value? number.text.toList = some x ∧ x.value? = some (value : ℚ)
  value_le : value ≤ 255

/-- The tokens of a mark. -/
def ValueMark.tokens (v : ValueMark) : Tokens :=
  v.mark :: v.name :: v.opening :: v.number :: (v.comma.toList ++ [v.closing])

/-- A member of an enum. Doc comments stand in front of the mark and behind it. -/
structure MemberEntry where
  front : Tokens
  mark : Option ValueMark
  back : Tokens
  name : Token
  comma : Option Token
  front_kind : ∀ t ∈ front, t.kind = .docComment
  back_kind : ∀ t ∈ back, t.kind = .docComment
  name_kind : name.kind = .identifier
  comma_kind : ∀ t ∈ comma, t.kind = .comma

namespace MemberEntry

/-- The tokens of a member. -/
def tokens (m : MemberEntry) : Tokens :=
  m.front ++ ((m.mark.toList.flatMap ValueMark.tokens ++ m.back) ++ m.name :: m.comma.toList)

/-- The value that a member is marked with. -/
def value? (m : MemberEntry) : Option Nat := m.mark.map ValueMark.value

/-- The last doc comment of a member. -/
def doc (m : MemberEntry) : Option String := (m.front ++ m.back).getLast?.map Token.text

end MemberEntry

/-- An enum from its first word to its closing brace. Doc comments can stand behind the last
member. -/
structure EnumEntry where
  word : Token
  name : Token
  opening : Token
  members : List MemberEntry
  docs : Tokens
  closing : Token
  word_kind : word.kind = .enumWord
  name_kind : name.kind = .identifier
  opening_kind : opening.kind = .leftBrace
  docs_kind : ∀ t ∈ docs, t.kind = .docComment
  closing_kind : closing.kind = .rightBrace

/-- The value at index `i` where the marked values are given: the marked one, or the value before it
and one more. Without a mark the first value is `start`. -/
def valueFrom (start : Nat) (marked : List (Option Nat)) : Nat → Nat
  | 0 => (marked.getD 0 none).getD start
  | i + 1 => (marked.getD (i + 1) none).getD (valueFrom start marked i + 1)

namespace EnumEntry

/-- The tokens of an enum. -/
def tokens (e : EnumEntry) : Tokens :=
  e.word :: e.name :: e.opening :: (e.members.flatMap MemberEntry.tokens ++ (e.docs ++ [e.closing]))

/-- The value that the member at index `i` should have. -/
def number (e : EnumEntry) : Nat → Nat := valueFrom 0 (e.members.map MemberEntry.value?)

end EnumEntry

theorem valueFrom_cons_succ (start : Nat) (v : Option Nat) (marked : List (Option Nat)) (i : Nat) :
    valueFrom start (v :: marked) (i + 1) = valueFrom (v.getD start + 1) marked i := by
  induction i with
  | zero => rfl
  | succ i ih =>
    rw [valueFrom, ih]
    rfl

namespace Parse

/-! ### Preambles -/

/-- Of doc comments the last one counts. -/
theorem preamble_docs {docs : Tokens} (hdocs : ∀ t ∈ docs, t.kind = .docComment)
    (doc : Option String) (ts : Tokens) :
    preamble doc (docs ++ ts) = preamble ((docs.getLast?.map Token.text).or doc) ts := by
  induction docs generalizing doc with
  | nil => rfl
  | cons t docs ih =>
    obtain ⟨ht, hdocs⟩ := List.forall_mem_cons.1 hdocs
    rw [List.cons_append, preamble_doc ht, ih hdocs]
    cases hlast : docs.getLast? with
    | none =>
      rw [List.getLast?_eq_none_iff.1 hlast]
      rfl
    | some last => simp [List.getLast?_cons, hlast]

/-- A mark that may stand behind what has been read is passed over. -/
theorem skip_toList {kind : TokenKind} {t : Option Token} (ht : ∀ t' ∈ t, t'.kind = kind)
    {rest : Tokens} (hrest : peek rest ≠ kind) : skip kind (t.toList ++ rest) = rest := by
  cases t with
  | none =>
    cases rest with
    | nil => rfl
    | cons c rest => exact if_neg hrest
  | some t => exact if_pos (ht t rfl)

theorem arguments_number {t closing : Token} {x : Binary64} (ht : t.kind = .number)
    (hx : Literal.value? t.text.toList = some x) {comma : Option Token}
    (hcomma : ∀ t ∈ comma, t.kind = .comma) (hclosing : closing.kind = .rightParen)
    (rest : Tokens) :
    arguments (t :: (comma.toList ++ closing :: rest)) = .ok ([.number x], closing :: rest) := by
  have harg : argument? t = .ok (some (.number x)) := by
    unfold argument?
    rw [ht]
    dsimp only
    rw [hx]
  have hend : arguments (closing :: rest) = .ok ([], closing :: rest) := by
    rw [arguments, argument?_of_kind (Or.inl hclosing)]
  rw [arguments_some harg, skip_toList hcomma (by simp [peek_cons, hclosing]), hend]
  rfl

/-- A mark is read as a decorator. -/
theorem decorator_mark (v : ValueMark) (rest : Tokens) :
    ∃ arg : Argument, arg.IsWhole v.value ∧
      decorator (v.tokens ++ rest) = .ok (⟨"value", [arg], v.mark.position⟩, rest) := by
  obtain ⟨x, hx, hvalue⟩ := v.number_value
  have htokens : v.tokens ++ rest = v.mark :: v.name :: v.opening :: v.number ::
      (v.comma.toList ++ v.closing :: rest) := by simp [ValueMark.tokens]
  have hlist : argumentList (v.opening :: v.number :: (v.comma.toList ++ v.closing :: rest)) =
      .ok ([.number x], rest) := by
    rw [argumentList_eq, if_pos (by exact v.opening_kind), List.tail_cons,
      arguments_number v.number_kind hx v.comma_kind v.closing_kind]
    show expect _ _ _ >>= _ = _
    rw [expect_cons v.closing_kind]
    rfl
  refine ⟨.number x, ⟨x, rfl, hvalue⟩, ?_⟩
  rw [htokens, decorator_eq, expect_cons v.mark_kind]
  show expect _ _ _ >>= _ = _
  rw [expect_cons v.name_kind]
  show argumentList _ >>= _ = _
  rw [hlist, ← v.name_text]
  rfl

/-- A mark alone may stand before a member, and gives its value. -/
theorem check_mark {arg : Argument} {n : Nat} (harg : arg.IsWhole n) (hn : n ≤ 255)
    (position : Position) :
    check [⟨"value", [arg], position⟩] .enumMember = .ok () ∧
      ∀ next, memberValue [⟨"value", [arg], position⟩] next = n := by
  have hinteger : arg.integer? = some n :=
    Argument.integer?_eq_some_iff.2 ⟨n, harg, by omega, by omega⟩
  refine ⟨check_eq_ok_iff.2 ⟨List.nodup_singleton _, fun d hd => ?_⟩, fun next => ?_⟩
  · rw [List.mem_singleton.1 hd]
    exact .value harg hn
  · show ((List.head? [arg]).bind Argument.integer?).getD 0 = n
    rw [List.head?_cons, Option.bind_some, hinteger, Option.getD_some]

/-- What stands in front of the name of a member: no decorator or its mark, and the last doc
comment. -/
theorem preamble_entry (m : MemberEntry) {t : Token} (ht : t.kind = .identifier) (rest : Tokens) :
    ∃ ds, check ds .enumMember = .ok () ∧ (∀ next, memberValue ds next = m.value?.getD next) ∧
      preamble none (m.front ++ ((m.mark.toList.flatMap ValueMark.tokens ++ m.back) ++ t :: rest)) =
        .ok (⟨ds, m.doc⟩, t :: rest) := by
  have hdoc : m.doc =
      (m.back.getLast?.map Token.text).or ((m.front.getLast?.map Token.text).or none) := by
    rw [MemberEntry.doc, List.getLast?_append, Option.map_or, Option.or_none]
  have hback : preamble ((m.front.getLast?.map Token.text).or none) (m.back ++ t :: rest) =
      .ok (⟨[], m.doc⟩, t :: rest) := by
    rw [preamble_docs m.back_kind, ← hdoc, preamble_end (t :: rest) (by simp [peek_cons, ht])
      (by simp [peek_cons, ht])]
  rw [preamble_docs m.front_kind, MemberEntry.value?]
  cases m.mark with
  | none => exact ⟨[], rfl, fun _ => rfl, hback⟩
  | some v =>
    obtain ⟨arg, harg, hdecorator⟩ := decorator_mark v (m.back ++ t :: rest)
    obtain ⟨hcheck, hvalue⟩ := check_mark harg v.value_le v.mark.position
    refine ⟨_, hcheck, hvalue, ?_⟩
    rw [Option.toList_some, List.flatMap_singleton, List.append_assoc]
    rw [ValueMark.tokens, List.cons_append] at hdecorator ⊢
    rw [preamble_at v.mark_kind, hdecorator]
    show preamble _ _ >>= _ = _
    rw [hback]
    rfl

/-! ### Bodies -/

theorem peek_entry (m : MemberEntry) (rest : Tokens) :
    peek (m.tokens ++ rest) ∈ [.docComment, .at, .identifier] := by
  obtain ⟨front, mark, back, name, comma, hfront, hback, hname, -⟩ := m
  cases front with
  | cons t front => simp [MemberEntry.tokens, peek_cons, hfront t List.mem_cons_self]
  | nil =>
    cases mark with
    | some v => simp [MemberEntry.tokens, ValueMark.tokens, peek_cons, v.mark_kind]
    | none =>
      cases back with
      | cons t back => simp [MemberEntry.tokens, peek_cons, hback t List.mem_cons_self]
      | nil => simp [MemberEntry.tokens, peek_cons, hname]

theorem toNat_ofNat_byte {n : Nat} (h : n ≤ 255) : (UInt8.ofNat n).toNat = n :=
  UInt8.toNat_ofNat_of_lt (show n < 256 by omega)

/-- **One member:** its value is the marked one or the next one, if that fits in a byte. -/
theorem members_entry (m : MemberEntry) (next : Nat) {rest : Tokens} (hrest : peek rest ≠ .comma) :
    members next (m.tokens ++ rest) =
      if 255 < m.value?.getD next then
        .error ⟨m.name.position, .memberValue (m.value?.getD next) m.name.text⟩
      else do
        let (ms, left) ← members (m.value?.getD next + 1) rest
        return (⟨m.name.text, UInt8.ofNat (m.value?.getD next), m.doc⟩ :: ms, left) := by
  obtain ⟨ds, hcheck, hvalue, hpreamble⟩ :=
    preamble_entry m m.name_kind (m.comma.toList ++ rest)
  have htokens : m.tokens ++ rest = m.front ++
      ((m.mark.toList.flatMap ValueMark.tokens ++ m.back) ++
        m.name :: (m.comma.toList ++ rest)) := by
    simp [MemberEntry.tokens]
  have hpeek : peek (m.tokens ++ rest) ≠ .rightBrace := by
    intro h
    have := peek_entry m rest
    rw [h] at this
    simp at this
  have hmember : member ⟨ds, m.doc⟩ next (m.name :: (m.comma.toList ++ rest)) =
      if 255 < m.value?.getD next then
        .error ⟨m.name.position, .memberValue (m.value?.getD next) m.name.text⟩
      else .ok (⟨m.name.text, UInt8.ofNat (m.value?.getD next), m.doc⟩, rest) := by
    rw [member_eq, hcheck]
    show expect _ _ _ >>= _ = _
    rw [expect_cons m.name_kind]
    show (if 255 < memberValue ds next then _ else _) = _
    rw [hvalue, skip_toList m.comma_kind hrest]
    rfl
  rw [members_eq, if_neg hpeek, htokens, hpreamble]
  show (if (_ && decide (m.name.kind = _)) = true then _ else member _ next _ >>= _) = _
  rw [if_neg (by simp [m.name_kind]), hmember]
  split_ifs with hfits
  · rfl
  · -- the next value is counted from the byte, which is the value itself
    show members ((UInt8.ofNat (m.value?.getD next)).toNat + 1) rest >>= _ = _
    rw [toNat_ofNat_byte (by omega)]

section Body

variable {docs : Tokens} (hdocs : ∀ t ∈ docs, t.kind = .docComment) {closing : Token}
  (hclosing : closing.kind = .rightBrace) (rest : Tokens)

include hdocs hclosing

/-- Behind the last member only doc comments stand in front of the brace. -/
theorem members_end (next : Nat) : members next (docs ++ closing :: rest) = .ok ([], rest) := by
  have hpreamble : preamble none (docs ++ closing :: rest) =
      .ok (⟨[], (docs.getLast?.map Token.text).or none⟩, closing :: rest) := by
    rw [preamble_docs hdocs, preamble_end (closing :: rest) (by simp [peek_cons, hclosing])
      (by simp [peek_cons, hclosing])]
  rw [members_eq, hpreamble]
  split_ifs with h
  · cases docs with
    | nil => rfl
    | cons t docs =>
      rw [List.cons_append, peek_cons, hdocs t List.mem_cons_self] at h
      cases h
  · show (if (_ && decide (closing.kind = _)) = true then _ else _) = _
    rw [if_pos (by simp [hclosing])]
    rfl

theorem peek_body (entries : List MemberEntry) :
    peek (entries.flatMap MemberEntry.tokens ++ (docs ++ closing :: rest)) ≠ .comma := by
  cases entries with
  | cons m entries =>
    rw [List.flatMap_cons, List.append_assoc]
    intro h
    have := peek_entry m (entries.flatMap MemberEntry.tokens ++ (docs ++ closing :: rest))
    rw [h] at this
    simp at this
  | nil =>
    cases docs with
    | cons t docs => simp [peek_cons, hdocs t List.mem_cons_self]
    | nil => simp [peek_cons, hclosing]

/-- **The run over members whose values all fit.** -/
theorem members_of_fit (entries : List MemberEntry) (next : Nat)
    (hfit : ∀ i < entries.length, valueFrom next (entries.map MemberEntry.value?) i ≤ 255) :
    ∃ ms, members next (entries.flatMap MemberEntry.tokens ++ (docs ++ closing :: rest)) =
        .ok (ms, rest) ∧
      ms.map (fun m => (m.name, m.value.toNat, m.doc)) = entries.mapIdx fun i m =>
        (m.name.text, valueFrom next (entries.map MemberEntry.value?) i, m.doc) := by
  induction entries generalizing next with
  | nil => exact ⟨[], members_end hdocs hclosing rest next, rfl⟩
  | cons m entries ih =>
    have hm : m.value?.getD next ≤ 255 := hfit 0 (Nat.succ_pos _)
    obtain ⟨ms, hms, hmap⟩ := ih (m.value?.getD next + 1) fun i hi => by
      rw [← valueFrom_cons_succ]
      exact hfit (i + 1) (Nat.succ_lt_succ hi)
    refine ⟨⟨m.name.text, UInt8.ofNat (m.value?.getD next), m.doc⟩ :: ms, ?_, ?_⟩
    · rw [List.flatMap_cons, List.append_assoc,
        members_entry m next (peek_body hdocs hclosing rest entries), if_neg (by omega), hms]
      rfl
    · rw [List.map_cons, hmap, List.mapIdx_cons, toNat_ofNat_byte hm]
      simp only [List.map_cons, valueFrom_cons_succ]
      rfl

/-- **The run up to a member whose value does not fit.** -/
theorem members_of_overflow (entries : List MemberEntry) (next : Nat) {i : Nat}
    (hi : i < entries.length)
    (hover : 255 < valueFrom next (entries.map MemberEntry.value?) i)
    (hfit : ∀ j < i, valueFrom next (entries.map MemberEntry.value?) j ≤ 255) :
    members next (entries.flatMap MemberEntry.tokens ++ (docs ++ closing :: rest)) =
      .error ⟨entries[i].name.position,
        .memberValue (valueFrom next (entries.map MemberEntry.value?) i) entries[i].name.text⟩ := by
  induction entries generalizing next i with
  | nil => cases hi
  | cons m entries ih =>
    rw [List.flatMap_cons, List.append_assoc,
      members_entry m next (peek_body hdocs hclosing rest entries)]
    cases i with
    | zero =>
      have hover : 255 < m.value?.getD next := hover
      rw [if_pos hover]
      rfl
    | succ i =>
      have hm : m.value?.getD next ≤ 255 := hfit 0 (Nat.succ_pos _)
      simp only [List.map_cons, valueFrom_cons_succ] at hover ⊢
      rw [if_neg (by omega), ih (m.value?.getD next + 1) (Nat.lt_of_succ_lt_succ hi) hover ?_]
      · rfl
      · intro j hj
        rw [← valueFrom_cons_succ]
        exact hfit (j + 1) (Nat.succ_lt_succ hj)

end Body

/-- **Members count on from the last value that was marked.** If the values of all members fit in a
byte, the enum has exactly these members with these values, none of them wrapped. Otherwise the
first member whose value does not fit is an error. -/
theorem enumDecl_number (p : Preamble) (e : EnumEntry) (rest : Tokens) :
    ((∀ i < e.members.length, e.number i ≤ 255) →
      ∃ ms, enumDecl p (e.tokens ++ rest) =
          .ok (⟨e.name.text, ms, p.decorators, p.doc, e.name.position⟩, rest) ∧
        ms.map (fun m => (m.name, m.value.toNat, m.doc)) =
          e.members.mapIdx fun i m => (m.name.text, e.number i, m.doc)) ∧
    ∀ i, (hi : i < e.members.length) → 255 < e.number i → (∀ j < i, e.number j ≤ 255) →
      enumDecl p (e.tokens ++ rest) =
        .error ⟨e.members[i].name.position,
          .memberValue (e.number i) e.members[i].name.text⟩ := by
  have hbody : enumDecl p (e.tokens ++ rest) = do
      let (ms, left) ← members 0
        (e.members.flatMap MemberEntry.tokens ++ (e.docs ++ e.closing :: rest))
      return (⟨e.name.text, ms, p.decorators, p.doc, e.name.position⟩, left) := by
    have htokens : e.tokens ++ rest = e.word :: e.name :: e.opening ::
        (e.members.flatMap MemberEntry.tokens ++ (e.docs ++ e.closing :: rest)) := by
      simp [EnumEntry.tokens]
    rw [htokens, enumDecl, expect_cons e.word_kind]
    show expect _ _ _ >>= _ = _
    rw [expect_cons e.name_kind]
    show expect _ _ _ >>= _ = _
    rw [expect_cons e.opening_kind]
    rfl
  rw [hbody]
  constructor
  · intro hfit
    obtain ⟨ms, hms, hmap⟩ := members_of_fit e.docs_kind e.closing_kind rest e.members 0 hfit
    refine ⟨ms, ?_, hmap⟩
    rw [hms]
    rfl
  · intro i hi hover hfit
    rw [members_of_overflow e.docs_kind e.closing_kind rest e.members 0 hi hover hfit]
    rfl

/-- `enum E { @value(255) A, B }` -/
def fullEntry : EnumEntry where
  word := ⟨.enumWord, "enum", ⟨1, 1⟩⟩
  name := ⟨.identifier, "E", ⟨1, 6⟩⟩
  opening := ⟨.leftBrace, "\x7b", ⟨1, 8⟩⟩
  members := [
    { front := []
      mark := some {
        mark := ⟨.at, "@", ⟨1, 10⟩⟩
        name := ⟨.identifier, "value", ⟨1, 11⟩⟩
        opening := ⟨.leftParen, "(", ⟨1, 16⟩⟩
        number := ⟨.number, "255", ⟨1, 17⟩⟩
        comma := none
        closing := ⟨.rightParen, ")", ⟨1, 20⟩⟩
        value := 255
        mark_kind := rfl
        name_kind := rfl
        name_text := rfl
        opening_kind := rfl
        number_kind := rfl
        comma_kind := by simp
        closing_kind := rfl
        number_value :=
          ⟨Binary64.ofNat 255, by decide +kernel, Binary64.toWhole?_eq_some_iff.1 (by decide)⟩
        value_le := Nat.le_refl 255 }
      back := []
      name := ⟨.identifier, "A", ⟨1, 22⟩⟩
      comma := some ⟨.comma, ",", ⟨1, 23⟩⟩
      front_kind := by simp
      back_kind := by simp
      name_kind := rfl
      comma_kind := by simp },
    { front := []
      mark := none
      back := []
      name := ⟨.identifier, "B", ⟨1, 25⟩⟩
      comma := none
      front_kind := by simp
      back_kind := by simp
      name_kind := rfl
      comma_kind := by simp }]
  docs := []
  closing := ⟨.rightBrace, "\x7d", ⟨1, 27⟩⟩
  word_kind := rfl
  name_kind := rfl
  opening_kind := rfl
  docs_kind := by simp
  closing_kind := rfl

/-- Behind the greatest byte there is no value for a member without a mark. -/
theorem enumDecl_number_full :
    enumDecl ⟨[], none⟩ (fullEntry.tokens ++ [⟨.eof, "", ⟨1, 28⟩⟩]) =
      .error ⟨⟨1, 25⟩, .memberValue 256 "B"⟩ :=
  (enumDecl_number ⟨[], none⟩ fullEntry [⟨.eof, "", ⟨1, 28⟩⟩]).2 1 (by decide) (by decide)
    (by decide)

end Parse

end WireSchema
