import WireSchema.Proofs.DecoratorRun
import WireSchema.Proofs.EnumValue
import WireSchema.Proofs.Meaning
import WireSchema.Proofs.TokenPlace
import Mathlib.Control.Monad.Basic

/-! # The numbers that decorators record

The argument of `@size`, `@command_id` or `@value` is a numeral of any length, and a number is
recorded for it. That is the double-precision number nearest to what the numeral means, which is
whole, and 2 ^ 64 - 1 in place of 2 ^ 64 (`recorded_nearest`). So a number below 2 ^ 53 is recorded
for itself, but also for fractions very near to it. -/

namespace WireSchema

/-! ### Numerals in a text -/

namespace TokenKind

theorem ofWord_ne_number (word : String) : ofWord word ≠ .number := by
  unfold ofWord
  split_ifs <;> decide

theorem ofMark?_ne_number (c : Char) : ofMark? c ≠ some .number := by
  unfold ofMark?
  split <;> simp

end TokenKind

namespace Token

open Lexeme

theorem kind_of_token? {l : Lexeme} {text : String} (h : l.token? = some (.number, text)) :
    l.kind = .number ∧ text = String.ofList l.text := by
  unfold token? at h
  split at h
  · cases h
  · cases h
  · cases h
  · next hkind =>
    cases h
    exact ⟨hkind, rfl⟩
  · have hword := congrArg (Option.map Prod.fst) h
    exact absurd (Option.some.inj hword) (TokenKind.ofWord_ne_number _)
  · obtain ⟨kind, hkind, h⟩ := Option.map_eq_some_iff.1 h
    obtain ⟨c, -, hc⟩ := Option.bind_eq_some_iff.1 hkind
    cases h
    exact absurd hc (TokenKind.ofMark?_ne_number c)
  all_goals cases h

/-- **The number tokens of a text are numerals.** -/
theorem isNumeral_of_mem {text : String} {ts : List Token} (h : ofText text = .ok ts) {t : Token}
    (ht : t ∈ ts) (hkind : t.kind = .number) : IsNumeral t.text.toList := by
  rcases ofChars_cases text.toList with ⟨-, hok⟩ | ⟨_, _, _, -, -, -, herror⟩
  · rw [ofText, hok] at h
    cases h
    rcases List.mem_append.1 ht with ht | ht
    · obtain ⟨⟨position, l⟩, hplaced, hl⟩ := List.mem_filterMap.1 ht
      obtain ⟨⟨kind, text'⟩, htoken, rfl⟩ := Option.map_eq_some_iff.1 hl
      obtain rfl : kind = .number := hkind
      obtain ⟨hnumber, rfl⟩ := kind_of_token? htoken
      obtain ⟨before, behind, hsplit⟩ := List.append_of_mem (mem_of_mem_place hplaced)
      have hlexed : Lexed text.toList (before ++ l :: behind) := hsplit ▸ lexed_iff.2 rfl
      have hfits := hlexed.isLexeme.fits
      rw [hnumber] at hfits
      rw [String.toList_ofList]
      exact hfits.1
    · rw [List.mem_singleton.1 ht] at hkind
      cases hkind
  · rw [ofText, herror] at h
    cases h

end Token

/-! ### Decorators with a number -/

namespace Decorator

variable {all ds : List Decorator} {target : Target} {d : Decorator}

/-- A decorator that is alone with its name is found by it. -/
theorem argument?_of_mem (hnodup : (ds.map name).Nodup) (hd : d ∈ ds) {arg : Argument}
    (hargs : d.args = [arg]) : argument? ds d.name = some arg := by
  have hfind : find? ds d.name = some d := by
    cases hfound : find? ds d.name with
    | none => exact absurd (beq_self_eq_true d.name) (List.find?_eq_none.1 hfound d hd)
    | some d' =>
      have hname : d'.name = d.name := by simpa using List.find?_some hfound
      rw [List.inj_on_of_nodup_map hnodup (List.mem_of_find?_eq_some hfound) hd hname]
  rw [argument?, hfind]
  simp [hargs]

theorem eq_of_name_eq {known known' : KnownDecorator} (h : known.name = known'.name) :
    known' = known := by
  have hname := ofName?_name known
  rw [h, ofName?_name] at hname
  exact Option.some.inj hname

/-- An allowed decorator has a whole number as its argument, unless it names a type. -/
theorem Allowed.exists_isWhole (h : Allowed all target d) {known : KnownDecorator}
    (hname : d.name = known.name) (hknown : known ≠ .lengthPrefix) :
    ∃ arg n, d.args = [arg] ∧ arg.IsWhole n ∧ n ≤ 2 ^ 64 ∧ (known ≠ .size → n ≤ 255) := by
  cases h with
  | @commandId arg n _ hn hbyte => exact ⟨arg, n, rfl, hn, by omega, fun _ => hbyte⟩
  | @value arg n _ hn hbyte => exact ⟨arg, n, rfl, hn, by omega, fun _ => hbyte⟩
  | @size arg n _ _ _ hn _ hmax =>
    have hsize : known = .size := eq_of_name_eq hname
    exact ⟨arg, n, rfl, hn, hmax, fun hne => absurd hsize hne⟩
  | lengthPrefix =>
    have hprefix : known = .lengthPrefix := eq_of_name_eq hname
    exact absurd hprefix hknown

end Decorator

namespace Parse

/-- What is read behind a preamble, and the number that is recorded for one of its decorators. -/
inductive Records (p : Preamble) (ts : Tokens) : KnownDecorator → Option Nat → Prop
  | size {f : Field} {rest : Tokens} (h : field p ts = .ok (f, rest)) :
    Records p ts .size f.size.fixed
  | commandId {m : Model} {rest : Tokens} (h : declaration p ts = .ok (some (.model m), rest)) :
    Records p ts .commandId (m.commandId.map UInt8.toNat)
  | value {next : Nat} {m : Member} {rest : Tokens} (h : member p next ts = .ok (m, rest)) :
    Records p ts .value (some m.value.toNat)

/-- A decorator with an argument among the tokens of a text, in a preamble that is read. -/
structure Decorated (tokens : Tokens) where
  before : Tokens
  /-- The tokens of the preamble before the decorator. -/
  front : Tokens
  mark : Token
  name : Token
  opening : Token
  /-- The token behind the opening parenthesis. -/
  argument : Token
  /-- The other tokens of the preamble. -/
  back : Tokens
  /-- The tokens behind the preamble, where a declaration, a member or a field is read. -/
  left : Tokens
  doc : Option String
  preamble : Preamble
  tokens_eq : before ++ (front ++ mark :: name :: opening :: argument :: (back ++ left)) = tokens
  kinds : mark.kind = .at ∧ opening.kind = .leftParen
  read : Parse.preamble doc (front ++ mark :: name :: opening :: argument :: (back ++ left)) =
    .ok (preamble, left)

/-! ### Tokens of arguments -/

theorem argument?_eq_number {t : Token} {x : Binary64} (h : argument? t = .ok (some (.number x))) :
    t.kind = .number ∧ Literal.value? t.text.toList = some x := by
  unfold argument? at h
  split at h
  · next hkind =>
    split at h
    · next hvalue =>
      cases h
      exact ⟨hkind, hvalue⟩
    · cases h
  · cases h
  · split_ifs at h <;> cases h
  · cases h

/-- The token behind the opening parenthesis is the first argument. -/
theorem argument?_of_argumentList {opening t : Token} {rest left : Tokens} {arg : Argument}
    {args : List Argument} (hopening : opening.kind = .leftParen)
    (h : argumentList (opening :: t :: rest) = .ok (arg :: args, left)) :
    argument? t = .ok (some arg) := by
  rw [argumentList_eq, if_pos (by exact hopening)] at h
  obtain ⟨⟨args', mid⟩, hargs, h⟩ := bind_ok h
  obtain ⟨⟨closing, left'⟩, -, h⟩ := bind_ok h
  cases h
  rw [List.tail_cons, arguments] at hargs
  split at hargs
  · cases hargs
  · cases hargs
  · next arg' harg =>
    split at hargs
    · cases hargs
    · cases hargs
      exact harg

variable {tokens : Tokens}

/-- The decorator is among those that are read, with its argument. -/
theorem Decorated.exists_mem (u : Decorated tokens) :
    ∃ args, ⟨u.name.text, args, u.mark.position⟩ ∈ u.preamble.decorators ∧
      ∀ arg, args = [arg] → argument? u.argument = .ok (some arg) := by
  obtain ⟨hmark, hopening⟩ := u.kinds
  obtain ⟨used, hused, hrun, -⟩ := preamble_spans u.doc _ u.preamble u.left u.read
  have hsame : used ++ u.left =
      (u.front ++ u.mark :: u.name :: u.opening :: u.argument :: u.back) ++ u.left := by
    rw [← hused]
    simp
  have hused : used = u.front ++ u.mark :: u.name :: u.opening :: u.argument :: u.back :=
    List.append_cancel_right hsame
  rw [hused] at hrun
  obtain ⟨hfront, name, _, _, hmid, hname, -⟩ := hrun.split hmark
  obtain ⟨rfl, -⟩ := List.cons.inj hmid
  have hpeek : peek (u.mark :: u.name :: u.opening :: u.argument :: (u.back ++ u.left)) ≠
      .leftParen := by
    rw [peek_cons, hmark]
    decide
  obtain ⟨ds, doc', q, hq, hp, -⟩ := preamble_append hfront hpeek u.read
  rw [preamble_at hmark, decorator_cons hmark hname] at hq
  obtain ⟨⟨d, mid⟩, hd, hq⟩ := bind_ok hq
  obtain ⟨⟨args, mid'⟩, hargs, hd⟩ := bind_ok hd
  obtain ⟨⟨p', left'⟩, -, hq⟩ := bind_ok hq
  cases hd
  cases hq
  refine ⟨args, by simp [hp], ?_⟩
  rintro arg rfl
  exact argument?_of_argumentList hopening hargs

/-! ### What is recorded -/

section Recorded

variable {p : Preamble} {ts rest : Tokens} {known : KnownDecorator} {recorded : Option Nat}

theorem commandId_of_modelDecl {m : Model} (h : modelDecl p ts = .ok (m, rest)) :
    m.commandId = commandId p.decorators := by
  obtain ⟨_, -, h⟩ := bind_ok h
  obtain ⟨_, -, h⟩ := bind_ok h
  obtain ⟨_, -, h⟩ := bind_ok h
  obtain ⟨_, -, h⟩ := bind_ok h
  cases h
  rfl

/-- The decorators have been checked, and the whole number that one has as its argument is
recorded for it. -/
theorem Records.eq_some (h : Records p ts known recorded) :
    known ≠ .lengthPrefix ∧ (∃ target, check p.decorators target = .ok ()) ∧
      ∀ arg n, Decorator.argument? p.decorators known.name = some arg → arg.integer? = some n →
        (known ≠ .size → n ≤ 255) → recorded = some n := by
  cases h with
  | size h =>
    rw [field_eq] at h
    obtain ⟨_, -, h⟩ := bind_ok h
    obtain ⟨_, -, h⟩ := bind_ok h
    obtain ⟨_, -, h⟩ := bind_ok h
    obtain ⟨⟨type, _⟩, -, h⟩ := bind_ok h
    obtain ⟨_, -, h⟩ := bind_ok h
    obtain ⟨_, hc, h⟩ := bind_ok h
    cases h
    refine ⟨by decide, ⟨_, hc⟩, fun arg n harg hn _ => ?_⟩
    have harg : Decorator.argument? p.decorators "size" = some arg := harg
    simp [fieldSize, harg, hn]
  | commandId h =>
    obtain ⟨hc, hm⟩ := modelDecl_of_declaration h
    refine ⟨by decide, ⟨_, hc⟩, fun arg n harg hn hbyte => ?_⟩
    have harg : Decorator.argument? p.decorators "command_id" = some arg := harg
    rw [commandId_of_modelDecl hm, Parse.commandId, harg]
    simp [hn, toNat_ofNat_byte (hbyte (by decide))]
  | @value next _ _ h =>
    rw [member_eq] at h
    obtain ⟨_, hc, h⟩ := bind_ok h
    obtain ⟨_, -, h⟩ := bind_ok h
    split_ifs at h
    cases h
    refine ⟨by decide, ⟨_, hc⟩, fun arg n harg hn hbyte => ?_⟩
    have hvalue : memberValue p.decorators next = n := by
      rw [memberValue_eq (check_eq_ok hc), harg]
      simp [hn]
    rw [hvalue, toNat_ofNat_byte (hbyte (by decide))]

end Recorded

/-- **The recorded number is the one nearest to what is written.** Of every `@size`, `@command_id`
and `@value` that is accepted in a text, the argument is a numeral, which means one number `v`. What
is recorded is the value of the double-precision number nearest to `v`, which is whole, or
2 ^ 64 - 1 if that is 2 ^ 64. This is `v` exactly if `v` is 2 ^ 64 - 1 or a double-precision number
other than 2 ^ 64, and for what is recorded as a number below 2 ^ 53, exactly if `v` is whole. A
whole number up to 2 ^ 53 is recorded as it is. -/
theorem recorded_nearest {text : String} (htext : Token.ofText text = .ok tokens)
    (u : Decorated tokens) {known : KnownDecorator} (hname : u.name.text = known.name)
    {recorded : Option Nat} (h : Records u.preamble u.left known recorded) :
    u.argument.kind = .number ∧
      ∃ (v : ℚ) (x : Binary64) (n m : Nat),
        (∀ w, Literal.Means u.argument.text.toList w ↔ w = v) ∧
        x.IsNearest v ∧ x.value = n ∧ n ≤ 2 ^ 64 ∧ m = min n (2 ^ 64 - 1) ∧ recorded = some m ∧
        ((m : ℚ) = v ↔
          v = 2 ^ 64 - 1 ∨ v ≠ 2 ^ 64 ∧ ∃ y : Binary64, y.isFinite = true ∧ y.value = v) ∧
        (m < 2 ^ 53 → ((m : ℚ) = v ↔ ∃ k : Nat, v = k)) ∧
        ∀ k : Nat, v = k → k ≤ 2 ^ 53 → m = k := by
  obtain ⟨hknown, ⟨target, hcheck⟩, hrecorded⟩ := h.eq_some
  obtain ⟨hnodup, hallowed⟩ := check_eq_ok_iff.1 hcheck
  obtain ⟨args, hmem, hargument⟩ := u.exists_mem
  obtain ⟨arg, n, hargs, hwhole, hmax, hbyte⟩ := (hallowed _ hmem).exists_isWhole hname hknown
  have harg := Decorator.argument?_of_mem hnodup hmem hargs
  rw [hname] at harg
  have hint := Argument.integer?_eq_some_iff.2 ⟨n, hwhole, hmax, rfl⟩
  obtain ⟨x, rfl, hx⟩ := hwhole
  obtain ⟨hfinite, hvalue⟩ := Binary64.value?_eq_some_iff.1 hx
  obtain ⟨hkind, hliteral⟩ := argument?_eq_number (hargument _ hargs)
  have hin : u.argument ∈ tokens :=
    (congrArg (fun ts => u.argument ∈ ts) u.tokens_eq).mp (by simp)
  obtain ⟨v, hv⟩ := Literal.exists_means (Token.isNumeral_of_mem htext hin hkind)
  have hnear := hv.isNearest hliteral hfinite
  refine ⟨hkind, v, x, n, _, fun w => ⟨hv.unique, fun hw => hw ▸ hv⟩, hnear, hvalue, hmax, rfl,
    hrecorded _ _ harg hint fun hne => ?_, ?_, ?_, fun k hk hle => ?_⟩
  · have := hbyte hne
    omega
  · exact hnear.min_eq_iff hvalue hmax
  · exact hnear.min_eq_iff_of_lt hvalue
  · rw [hnear.eq_of_le hvalue hk hle]
    omega

/-! ### Two numbers that are not recorded as they are written -/

/-- A size that is not a double-precision number. -/
def oddSizeText : String := "model A \x7b @size(9007199254740993) b: bytes; \x7d"

def oddSizeTokens : Tokens :=
  [⟨.modelWord, "model", ⟨1, 1⟩⟩, ⟨.identifier, "A", ⟨1, 7⟩⟩, ⟨.leftBrace, "\x7b", ⟨1, 9⟩⟩,
    ⟨.at, "@", ⟨1, 11⟩⟩, ⟨.identifier, "size", ⟨1, 12⟩⟩, ⟨.leftParen, "(", ⟨1, 16⟩⟩,
    ⟨.number, "9007199254740993", ⟨1, 17⟩⟩, ⟨.rightParen, ")", ⟨1, 33⟩⟩,
    ⟨.identifier, "b", ⟨1, 35⟩⟩, ⟨.colon, ":", ⟨1, 36⟩⟩, ⟨.identifier, "bytes", ⟨1, 38⟩⟩,
    ⟨.semicolon, ";", ⟨1, 43⟩⟩, ⟨.rightBrace, "\x7d", ⟨1, 45⟩⟩, ⟨.eof, "", ⟨1, 46⟩⟩]

theorem preamble_oddSize :
    preamble none (oddSizeTokens.drop 3) = .ok
      (⟨[⟨"size", [.number (.ofNat 9007199254740992)], ⟨1, 11⟩⟩], none⟩,
        oddSizeTokens.drop 8) := by
  decide +kernel

def oddSize : Decorated oddSizeTokens where
  before := oddSizeTokens.take 3
  front := []
  mark := ⟨.at, "@", ⟨1, 11⟩⟩
  name := ⟨.identifier, "size", ⟨1, 12⟩⟩
  opening := ⟨.leftParen, "(", ⟨1, 16⟩⟩
  argument := ⟨.number, "9007199254740993", ⟨1, 17⟩⟩
  back := [⟨.rightParen, ")", ⟨1, 33⟩⟩]
  left := oddSizeTokens.drop 8
  doc := none
  preamble := ⟨[⟨"size", [.number (.ofNat 9007199254740992)], ⟨1, 11⟩⟩], none⟩
  tokens_eq := rfl
  kinds := ⟨rfl, rfl⟩
  read := preamble_oddSize

theorem recorded_nearest_oddSize :
    Records oddSize.preamble oddSize.left .size (some (2 ^ 53)) ∧
      ∃ x : Binary64, x.IsNearest (2 ^ 53 + 1) ∧ x.value = 2 ^ 53 := by
  have htext : Token.ofText oddSizeText = .ok oddSizeTokens := by decide +kernel
  have hfield : field oddSize.preamble oddSize.left = .ok
      (⟨"b", .primitive .bytes, ⟨some (2 ^ 53), none⟩, oddSize.preamble.decorators, none, none,
        ⟨1, 35⟩⟩, oddSizeTokens.drop 12) := by decide +kernel
  have hmeans : Literal.Means "9007199254740993".toList (2 ^ 53 + 1) := by
    have hdigits : Literal.positional 10 "9007199254740993".toList = 2 ^ 53 + 1 := by decide +kernel
    have h : Literal.Means "9007199254740993".toList
        (Literal.positional 10 "9007199254740993".toList) :=
      .whole (by decide) (List.all_eq_true.1 (by decide +kernel))
    rw [hdigits] at h
    exact_mod_cast h
  have hrecords : Records oddSize.preamble oddSize.left .size (some (2 ^ 53)) := .size hfield
  obtain ⟨-, v, x, n, m, hv, hx, hvalue, -, hm, hsome, -⟩ :=
    recorded_nearest htext oddSize (show _ = KnownDecorator.size.name from rfl) hrecords
  refine ⟨hrecords, x, ?_, ?_⟩
  · rwa [(hv _).1 hmeans]
  · have hn : n = 2 ^ 53 := by
      have := Option.some.inj hsome
      omega
    rw [hvalue, hn]
    norm_num

/-- A value that is not whole. -/
def ninesText : String := "enum E \x7b @value(0.99999999999999999999) A \x7d"

def ninesTokens : Tokens :=
  [⟨.enumWord, "enum", ⟨1, 1⟩⟩, ⟨.identifier, "E", ⟨1, 6⟩⟩, ⟨.leftBrace, "\x7b", ⟨1, 8⟩⟩,
    ⟨.at, "@", ⟨1, 10⟩⟩, ⟨.identifier, "value", ⟨1, 11⟩⟩, ⟨.leftParen, "(", ⟨1, 16⟩⟩,
    ⟨.number, "0.99999999999999999999", ⟨1, 17⟩⟩, ⟨.rightParen, ")", ⟨1, 39⟩⟩,
    ⟨.identifier, "A", ⟨1, 41⟩⟩, ⟨.rightBrace, "\x7d", ⟨1, 43⟩⟩, ⟨.eof, "", ⟨1, 44⟩⟩]

theorem preamble_nines : preamble none (ninesTokens.drop 3) =
    .ok (⟨[⟨"value", [.number (.ofNat 1)], ⟨1, 10⟩⟩], none⟩, ninesTokens.drop 8) := by
  decide +kernel

def nines : Decorated ninesTokens where
  before := ninesTokens.take 3
  front := []
  mark := ⟨.at, "@", ⟨1, 10⟩⟩
  name := ⟨.identifier, "value", ⟨1, 11⟩⟩
  opening := ⟨.leftParen, "(", ⟨1, 16⟩⟩
  argument := ⟨.number, "0.99999999999999999999", ⟨1, 17⟩⟩
  back := [⟨.rightParen, ")", ⟨1, 39⟩⟩]
  left := ninesTokens.drop 8
  doc := none
  preamble := ⟨[⟨"value", [.number (.ofNat 1)], ⟨1, 10⟩⟩], none⟩
  tokens_eq := rfl
  kinds := ⟨rfl, rfl⟩
  read := preamble_nines

theorem recorded_nines :
    Token.ofText ninesText = .ok ninesTokens ∧ nines.name.text = KnownDecorator.value.name ∧
      Records nines.preamble nines.left .value (some 1) ∧
      Literal.Means nines.argument.text.toList (99999999999999999999 / 10 ^ 20) ∧
      ¬ ∃ k : Nat, (99999999999999999999 / 10 ^ 20 : ℚ) = k := by
  have hmember : member nines.preamble 0 nines.left =
      .ok (⟨"A", 1, none⟩, ninesTokens.drop 9) := by decide +kernel
  refine ⟨by decide +kernel, rfl, .value hmember, ?_, ?_⟩
  · have hwhole : Literal.positional 10 ['0'] = 0 := by decide
    have hfraction : Literal.positional 10 (List.replicate 20 '9') = 99999999999999999999 := by
      decide +kernel
    have h : Literal.Means (['0'] ++ '.' :: List.replicate 20 '9') (Literal.positional 10 ['0'] +
        Literal.positional 10 (List.replicate 20 '9') / 10 ^ (List.replicate 20 '9').length) :=
      .fraction (by decide) (List.all_eq_true.1 (by decide +kernel)) (by decide)
        (List.all_eq_true.1 (by decide +kernel))
    rw [hwhole, hfraction, List.length_replicate, Nat.cast_zero, zero_add] at h
    exact_mod_cast h
  · rintro ⟨k, hk⟩
    have hlow : (0 : ℚ) < k := by rw [← hk]; norm_num
    have hhigh : (k : ℚ) < 1 := by rw [← hk]; norm_num
    have hlow : 0 < k := by exact_mod_cast hlow
    have hhigh : k < 1 := by exact_mod_cast hhigh
    omega

end Parse

end WireSchema
