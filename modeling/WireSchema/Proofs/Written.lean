import WireSchema.Proofs.Numeral
import WireSchema.Proofs.Plain

/-! # Schemas as they are written

A schema text declares a namespace, enums and models, with doc comments and decorators in front of
them. A `WrittenSchema` is such a list of declarations, `tokens` writes it and `toSchema` says what
it declares. The place of a decorator is that of its mark, and the place of an enum, a model or a
field that of its name; all other tokens may stand anywhere. Each reader has a lemma that it reads
what is written and stops there, whatever follows; together they say that the schema of the tokens
is the schema that was written (`ofTokens_written`). -/

namespace WireSchema

/-! ### What is written -/

/-- An argument of a decorator: a whole number, a text in quotes or a word. -/
inductive WrittenArgument where
  | number (n : Fin (2 ^ 53))
  | quoted (text : String)
  | word (text : String)

/-- A decorator with its arguments and the place of its mark. -/
structure WrittenDecorator where
  name : String
  args : List WrittenArgument
  position : Position

/-- A token without a place of its own. -/
def Token.bare (kind : TokenKind) (text : String) : Token := ⟨kind, text, Position.start⟩

namespace WrittenArgument

/-- The token of an argument. A number is written with decimal digits. -/
def token : WrittenArgument → Token
  | number n => .bare .number n.val.repr
  | quoted text => .bare .string text
  | word text => .bare .identifier text

/-- The argument that is written. The words `true` and `false` are flags, any other word is a
text. -/
def toArgument : WrittenArgument → Argument
  | number n => .number (Binary64.ofNat n)
  | quoted text => .text text
  | word text =>
    if text = "true" then .flag true else if text = "false" then .flag false else .text text

/-- The number that an argument is. -/
def number? : WrittenArgument → Option Nat
  | number n => some n
  | _ => none

/-- The text or the word that an argument is. -/
def text? : WrittenArgument → Option String
  | quoted text => some text
  | word text => some text
  | number _ => none

end WrittenArgument

namespace WrittenDecorator

/-- The tokens of a decorator, with its arguments in parentheses and commas between them. -/
def tokens (d : WrittenDecorator) : Tokens :=
  ⟨.at, "@", d.position⟩ :: .bare .identifier d.name :: .bare .leftParen "(" ::
    ((d.args.map WrittenArgument.token).intersperse (.bare .comma ",") ++ [.bare .rightParen ")"])

theorem tokens_append (d : WrittenDecorator) (rest : Tokens) : d.tokens ++ rest =
    ⟨.at, "@", d.position⟩ :: .bare .identifier d.name :: .bare .leftParen "(" ::
      ((d.args.map WrittenArgument.token).intersperse (.bare .comma ",") ++
        .bare .rightParen ")" :: rest) := by
  simp [tokens]

/-- The decorator that is written. -/
def toDecorator (d : WrittenDecorator) : Decorator :=
  ⟨d.name, d.args.map WrittenArgument.toArgument, d.position⟩

/-- The first argument of the first decorator of the given name. -/
def argument? (ds : List WrittenDecorator) (name : String) : Option WrittenArgument :=
  (ds.find? (·.name == name)).bind (·.args.head?)

/-- Whether decorators may stand before `target`. -/
def Pass (ds : List WrittenDecorator) (target : Target) : Prop :=
  Decorator.check (ds.map toDecorator) target = none

instance (ds : List WrittenDecorator) (target : Target) : Decidable (Pass ds target) :=
  inferInstanceAs (Decidable (_ = _))

end WrittenDecorator

/-- A doc comment and decorators, in front of what they belong to. -/
def preambleTokens (doc : Option String) (ds : List WrittenDecorator) : Tokens :=
  doc.toList.map (.bare .docComment) ++ ds.flatMap WrittenDecorator.tokens

/-- A member of an enum, decorated with its value. -/
structure WrittenMember where
  doc : Option String
  name : String
  value : UInt8

namespace WrittenMember

/-- The decorator that gives a member its value. -/
def valueDecorator (value : UInt8) : WrittenDecorator :=
  ⟨"value", [.number (value.toFin.castLE (by decide))], Position.start⟩

/-- The tokens of a member, with a comma behind it. -/
def tokens (m : WrittenMember) : Tokens :=
  preambleTokens m.doc [valueDecorator m.value] ++ [.bare .identifier m.name, .bare .comma ","]

theorem tokens_append (m : WrittenMember) (rest : Tokens) : m.tokens ++ rest =
    preambleTokens m.doc [valueDecorator m.value] ++
      .bare .identifier m.name :: .bare .comma "," :: rest := by
  simp [tokens]

/-- The member that is written. -/
def toMember (m : WrittenMember) : Member := ⟨m.name, m.value, m.doc⟩

end WrittenMember

/-- An enum and the place of its name. -/
structure WrittenEnum where
  doc : Option String
  decorators : List WrittenDecorator
  name : String
  position : Position
  members : List WrittenMember
  pass : WrittenDecorator.Pass decorators .enum

namespace WrittenEnum

/-- The tokens of an enum. -/
def tokens (e : WrittenEnum) : Tokens :=
  preambleTokens e.doc e.decorators ++
    (.bare .enumWord "enum" :: ⟨.identifier, e.name, e.position⟩ :: .bare .leftBrace "\x7b" ::
      (e.members.flatMap WrittenMember.tokens ++ [.bare .rightBrace "\x7d"]))

theorem tokens_append (e : WrittenEnum) (rest : Tokens) : e.tokens ++ rest =
    preambleTokens e.doc e.decorators ++
      .bare .enumWord "enum" :: ⟨.identifier, e.name, e.position⟩ :: .bare .leftBrace "\x7b" ::
        (e.members.flatMap WrittenMember.tokens ++ .bare .rightBrace "\x7d" :: rest) := by
  simp [tokens]

/-- The enum that is written. -/
def toEnum (e : WrittenEnum) : Enum :=
  ⟨e.name, e.members.map WrittenMember.toMember, e.decorators.map WrittenDecorator.toDecorator,
    e.doc, e.position⟩

end WrittenEnum

/-- The type that a name stands for, or the array of it. -/
def TypeRef.written (name : String) (isArray : Bool) : TypeRef :=
  if isArray then .array (.ofName name) else .ofName name

/-- A field and the place of its name, with the name of its type and whether it is an array. -/
structure WrittenField where
  doc : Option String
  decorators : List WrittenDecorator
  name : String
  position : Position
  typeName : String
  isArray : Bool
  pass : WrittenDecorator.Pass decorators (.field (.written typeName isArray))

namespace WrittenField

/-- The type of a field. -/
def type (f : WrittenField) : TypeRef := .written f.typeName f.isArray

/-- The tokens of a field, with a semicolon behind it. -/
def tokens (f : WrittenField) : Tokens :=
  preambleTokens f.doc f.decorators ++
    (⟨.identifier, f.name, f.position⟩ :: .bare .colon ":" :: .bare .identifier f.typeName ::
      ((if f.isArray then [.bare .leftBracket "[", .bare .rightBracket "]"] else []) ++
        [.bare .semicolon ";"]))

theorem tokens_append (f : WrittenField) (rest : Tokens) : f.tokens ++ rest =
    preambleTokens f.doc f.decorators ++
      ⟨.identifier, f.name, f.position⟩ :: .bare .colon ":" :: .bare .identifier f.typeName ::
        ((if f.isArray then [.bare .leftBracket "[", .bare .rightBracket "]"] else []) ++
          .bare .semicolon ";" :: rest) := by
  simp [tokens]

/-- The number of bytes that `@size` gives, or else the width of the type, and the length prefix
that `@length_prefix` names. -/
def size (f : WrittenField) : FieldSize where
  fixed := ((WrittenDecorator.argument? f.decorators "size").bind WrittenArgument.number?).or
    (f.type.primitive?.bind Primitive.naturalSize)
  lengthPrefix :=
    ((WrittenDecorator.argument? f.decorators "length_prefix").bind WrittenArgument.text?).bind
      Primitive.ofName?

/-- The field that is written. Its offset in the model has not been computed. -/
def toField (f : WrittenField) : Field :=
  ⟨f.name, f.type, f.size, f.decorators.map WrittenDecorator.toDecorator, f.doc, none,
    f.position⟩

end WrittenField

/-- A model and the place of its name. -/
structure WrittenModel where
  doc : Option String
  decorators : List WrittenDecorator
  name : String
  position : Position
  fields : List WrittenField
  pass : WrittenDecorator.Pass decorators .model

namespace WrittenModel

/-- The tokens of a model. -/
def tokens (m : WrittenModel) : Tokens :=
  preambleTokens m.doc m.decorators ++
    (.bare .modelWord "model" :: ⟨.identifier, m.name, m.position⟩ :: .bare .leftBrace "\x7b" ::
      (m.fields.flatMap WrittenField.tokens ++ [.bare .rightBrace "\x7d"]))

theorem tokens_append (m : WrittenModel) (rest : Tokens) : m.tokens ++ rest =
    preambleTokens m.doc m.decorators ++
      .bare .modelWord "model" :: ⟨.identifier, m.name, m.position⟩ :: .bare .leftBrace "\x7b" ::
        (m.fields.flatMap WrittenField.tokens ++ .bare .rightBrace "\x7d" :: rest) := by
  simp [tokens]

/-- The number that `@command_id` gives. -/
def commandId (m : WrittenModel) : Option UInt8 :=
  ((WrittenDecorator.argument? m.decorators "command_id").bind WrittenArgument.number?).map
    UInt8.ofNat

/-- The model that is written. Its size has not been computed. -/
def toModel (m : WrittenModel) : Model :=
  ⟨m.name, m.fields.map WrittenField.toField, m.decorators.map WrittenDecorator.toDecorator, m.doc,
    m.commandId, .varying, m.position⟩

end WrittenModel

/-- A namespace, by its parts, enums and models. There is no namespace if there are no parts. -/
structure WrittenSchema where
  namespaceParts : List String
  enums : List WrittenEnum
  models : List WrittenModel

namespace WrittenSchema

/-- The tokens of a namespace, with points between its parts. -/
def namespaceTokens : List String → Tokens
  | [] => []
  | part :: parts =>
    .bare .namespaceWord "namespace" :: .bare .identifier part ::
      (parts.flatMap (fun part => [.bare .dot ".", .bare .identifier part]) ++
        [.bare .semicolon ";"])

theorem namespaceTokens_append (part : String) (parts : List String) (rest : Tokens) :
    namespaceTokens (part :: parts) ++ rest =
      .bare .namespaceWord "namespace" :: .bare .identifier part ::
        (parts.flatMap (fun part => [.bare .dot ".", .bare .identifier part]) ++
          .bare .semicolon ";" :: rest) := by
  simp [namespaceTokens]

/-- The tokens of a schema, up to the mark of the end. -/
def tokens (w : WrittenSchema) : Tokens :=
  namespaceTokens w.namespaceParts ++ (w.enums.flatMap WrittenEnum.tokens ++
    (w.models.flatMap WrittenModel.tokens ++ [.bare .eof ""]))

/-- The namespace, if there is one. -/
def namespaceDeclarations : List String → List Declaration
  | [] => []
  | part :: parts => [.nameSpace (String.intercalate "." (part :: parts))]

/-- The declarations of a schema, in their order. -/
def declarations (w : WrittenSchema) : List Declaration :=
  namespaceDeclarations w.namespaceParts ++ (w.enums.map (fun e => .enum e.toEnum) ++
    w.models.map (fun m => .model m.toModel))

/-- The schema that is written. Its namespace is empty if there are no parts. -/
def toSchema (w : WrittenSchema) (sourceFile : String) (parsedAt : Nat) : Schema :=
  ⟨String.intercalate "." w.namespaceParts, w.enums.map WrittenEnum.toEnum,
    w.models.map WrittenModel.toModel, ⟨sourceFile, parsedAt, none⟩⟩

end WrittenSchema

/-! ### Decorators -/

namespace Parse

variable (rest : Tokens)

theorem expect_bare (kind : TokenKind) (what text : String) :
    expect kind what (.bare kind text :: rest) = .ok (.bare kind text, rest) :=
  if_pos rfl

theorem argument?_token (a : WrittenArgument) : argument? a.token = .ok (some a.toArgument) := by
  cases a with
  | number n =>
    simp only [argument?, WrittenArgument.token, Token.bare, Literal.value?_repr,
      WrittenArgument.toArgument]
  | quoted text => rfl
  | word text =>
    dsimp only [argument?, WrittenArgument.token, Token.bare]
    rw [WrittenArgument.toArgument]
    split_ifs <;> rfl

theorem arguments_tokens (args : List WrittenArgument) :
    arguments ((args.map WrittenArgument.token).intersperse (.bare .comma ",") ++
        .bare .rightParen ")" :: rest) =
      .ok (args.map WrittenArgument.toArgument, .bare .rightParen ")" :: rest) := by
  induction args with
  | nil => rw [List.map_nil, List.intersperse_nil, List.nil_append, arguments]; rfl
  | cons a args ih =>
    -- behind an argument stands a comma, which is skipped, or the parenthesis
    have hnext : ∀ ts, skip .comma ts = (args.map WrittenArgument.token).intersperse
        (.bare .comma ",") ++ .bare .rightParen ")" :: rest →
        arguments (a.token :: ts) = .ok (a.toArgument :: args.map WrittenArgument.toArgument,
          .bare .rightParen ")" :: rest) := by
      intro ts hts
      rw [arguments, argument?_token]
      simp only [hts, ih]
    cases args with
    | nil => exact hnext (.bare .rightParen ")" :: rest) rfl
    | cons b args => exact hnext (.bare .comma "," :: _) rfl

theorem decorator_tokens (d : WrittenDecorator) :
    decorator (d.tokens ++ rest) = .ok (d.toDecorator, rest) := by
  have hlist : argumentList (.bare .leftParen "(" ::
      ((d.args.map WrittenArgument.token).intersperse (.bare .comma ",") ++
        .bare .rightParen ")" :: rest)) = .ok (d.args.map WrittenArgument.toArgument, rest) := by
    rw [argumentList, if_pos (show peek (_ :: _) = .leftParen from rfl), List.tail_cons,
      arguments_tokens]
    simp only [expect_bare]
  rw [d.tokens_append, decorator, expect, if_pos rfl]
  simp only [expect_bare, hlist]
  rfl

/-- A token that neither is a doc comment nor starts a decorator ends the preamble. -/
theorem preamble_decorators {t : Token} (hdoc : t.kind ≠ .docComment) (hat : t.kind ≠ .at)
    (doc : Option String) (ds : List WrittenDecorator) :
    preamble doc (ds.flatMap WrittenDecorator.tokens ++ t :: rest) =
      .ok (⟨ds.map WrittenDecorator.toDecorator, doc⟩, t :: rest) := by
  induction ds with
  | nil => exact preamble_end (t :: rest) hdoc hat
  | cons d ds ih =>
    have hd := decorator_tokens (ds.flatMap WrittenDecorator.tokens ++ t :: rest) d
    rw [d.tokens_append] at hd
    rw [List.flatMap_cons, List.append_assoc, d.tokens_append, preamble_at rfl, hd]
    show preamble doc _ >>= _ = _
    rw [ih]
    rfl

theorem preamble_tokens {t : Token} (hdoc : t.kind ≠ .docComment) (hat : t.kind ≠ .at)
    (doc : Option String) (ds : List WrittenDecorator) :
    preamble none (preambleTokens doc ds ++ t :: rest) =
      .ok (⟨ds.map WrittenDecorator.toDecorator, doc⟩, t :: rest) := by
  cases doc with
  | none => exact preamble_decorators rest hdoc hat none ds
  | some line => exact (preamble_doc rfl _).trans (preamble_decorators rest hdoc hat (some line) ds)

theorem peek_tokens_ne {t : Token} (ht : t.kind ≠ .rightBrace) (doc : Option String)
    (ds : List WrittenDecorator) : peek (preambleTokens doc ds ++ t :: rest) ≠ .rightBrace := by
  cases doc with
  | some line => exact TokenKind.noConfusion
  | none =>
    cases ds with
    | nil => exact ht
    | cons d ds => exact TokenKind.noConfusion

theorem check_of_pass {ds : List WrittenDecorator} {target : Target}
    (h : WrittenDecorator.Pass ds target) :
    check (ds.map WrittenDecorator.toDecorator) target = .ok () := by
  rw [check, show Decorator.check _ target = none from h]

theorem argument?_decorators (ds : List WrittenDecorator) (name : String) :
    Decorator.argument? (ds.map WrittenDecorator.toDecorator) name =
      (WrittenDecorator.argument? ds name).map WrittenArgument.toArgument := by
  have hfind : Decorator.find? (ds.map WrittenDecorator.toDecorator) name =
      (ds.find? (·.name == name)).map WrittenDecorator.toDecorator := List.find?_map
  rw [Decorator.argument?, hfind, WrittenDecorator.argument?]
  cases ds.find? (·.name == name) with
  | none => rfl
  | some d => exact List.head?_map

theorem number?_decorators (ds : List WrittenDecorator) (name : String) :
    (Decorator.argument? (ds.map WrittenDecorator.toDecorator) name).bind Argument.integer? =
      (WrittenDecorator.argument? ds name).bind WrittenArgument.number? := by
  rw [argument?_decorators]
  cases WrittenDecorator.argument? ds name with
  | none => rfl
  | some a =>
    cases a with
    | number n => exact Argument.integer?_number n.isLt
    | quoted text => rfl
    | word text =>
      show (WrittenArgument.toArgument (.word text)).integer? = none
      rw [WrittenArgument.toArgument]
      split_ifs <;> rfl

theorem lengthPrefix_decorators (ds : List WrittenDecorator) (name : String) :
    ((Decorator.argument? (ds.map WrittenDecorator.toDecorator) name).bind fun arg =>
        arg.text?.bind Primitive.ofName?) =
      ((WrittenDecorator.argument? ds name).bind WrittenArgument.text?).bind Primitive.ofName? := by
  rw [argument?_decorators]
  cases WrittenDecorator.argument? ds name with
  | none => rfl
  | some a =>
    cases a with
    | number n => rfl
    | quoted text => rfl
    | word text =>
      -- no type has the name of a flag
      show (WrittenArgument.toArgument (.word text)).text?.bind Primitive.ofName? =
        Primitive.ofName? text
      rw [WrittenArgument.toArgument]
      split_ifs with htrue hfalse
      · rw [htrue]; decide
      · rw [hfalse]; decide
      · rfl

/-! ### Enums -/

theorem integer?_byte (value : UInt8) :
    (Argument.number (Binary64.ofNat value.toNat)).integer? = some value.toNat :=
  Argument.integer?_number (value.toNat_lt.trans (by decide))

theorem pass_valueDecorator (value : UInt8) :
    WrittenDecorator.Pass [WrittenMember.valueDecorator value] .enumMember := by
  have hbyte : KnownDecorator.isByte (.number (Binary64.ofNat value.toNat)) = true := by
    rw [KnownDecorator.isByte, integer?_byte]
    exact decide_eq_true (Nat.le_of_lt_succ value.toNat_lt)
  have hknown : KnownDecorator.ofName? "value" = some .value := by decide
  have hfault : Decorator.fault? [(WrittenMember.valueDecorator value).toDecorator] [] .enumMember
      (WrittenMember.valueDecorator value).toDecorator = none := by
    rw [Decorator.fault?, show (WrittenDecorator.toDecorator _).name = "value" from rfl, hknown]
    exact if_pos hbyte
  rw [WrittenDecorator.Pass, List.map_singleton, Decorator.check, Decorator.firstFault?, hfault]
  rfl

theorem memberValue_valueDecorator (value : UInt8) (next : Nat) :
    memberValue [(WrittenMember.valueDecorator value).toDecorator] next = value.toNat := by
  have hfind : Decorator.find? [(WrittenMember.valueDecorator value).toDecorator] "value" =
      some (WrittenMember.valueDecorator value).toDecorator := List.find?_cons_of_pos rfl
  rw [memberValue, hfind]
  exact congrArg (Option.getD · 0) (integer?_byte value)

theorem member_tokens (next : Nat) (m : WrittenMember) :
    member ⟨[WrittenMember.valueDecorator m.value].map WrittenDecorator.toDecorator, m.doc⟩ next
        (.bare .identifier m.name :: .bare .comma "," :: rest) = .ok (m.toMember, rest) := by
  have hlt : m.value.toNat < 256 := m.value.toNat_lt
  rw [member, check_of_pass (pass_valueDecorator m.value)]
  simp only [expect_bare, List.map_singleton, memberValue_valueDecorator]
  rw [if_neg (by omega), UInt8.ofNat_toNat]
  rfl

theorem members_step {doc : Option String} {ds : List WrittenDecorator} {t : Token}
    (ht : t.kind = .identifier) {m : Member} {next : Nat} {left : Tokens}
    (hm : member ⟨ds.map WrittenDecorator.toDecorator, doc⟩ next (t :: rest) = .ok (m, left)) :
    members next (preambleTokens doc ds ++ t :: rest) = do
      let (ms, left) ← members (m.value.toNat + 1) left
      return (m :: ms, left) := by
  rw [members_eq, if_neg (peek_tokens_ne rest (by simp [ht]) doc ds),
    preamble_tokens rest (by simp [ht]) (by simp [ht])]
  show (if (_ && decide (t.kind = _)) = true then _ else member _ next _ >>= _) = _
  rw [if_neg (by simp [ht]), hm]
  rfl

theorem members_tokens (next : Nat) (ms : List WrittenMember) :
    members next (ms.flatMap WrittenMember.tokens ++ .bare .rightBrace "\x7d" :: rest) =
      .ok (ms.map WrittenMember.toMember, rest) := by
  induction ms generalizing next with
  | nil => rw [members_eq]; rfl
  | cons m ms ih =>
    rw [List.flatMap_cons, List.append_assoc, m.tokens_append,
      members_step _ rfl (member_tokens _ next m), ih]
    rfl

theorem enumDecl_tokens (e : WrittenEnum) :
    enumDecl ⟨e.decorators.map WrittenDecorator.toDecorator, e.doc⟩
        (.bare .enumWord "enum" :: ⟨.identifier, e.name, e.position⟩ :: .bare .leftBrace "\x7b" ::
          (e.members.flatMap WrittenMember.tokens ++ .bare .rightBrace "\x7d" :: rest)) =
      .ok (e.toEnum, rest) := by
  show members 0 _ >>= _ = _
  rw [members_tokens]
  rfl

/-! ### Models -/

theorem typeRef_tokens (name : String) (isArray : Bool) :
    typeRef (.bare .identifier name ::
        ((if isArray then [.bare .leftBracket "[", .bare .rightBracket "]"] else []) ++
          .bare .semicolon ";" :: rest)) =
      .ok (.written name isArray, .bare .semicolon ";" :: rest) := by
  cases isArray with
  | false => rfl
  | true => rfl

theorem fieldSize_tokens (f : WrittenField) :
    fieldSize (f.decorators.map WrittenDecorator.toDecorator) f.type = f.size := by
  rw [fieldSize, number?_decorators, lengthPrefix_decorators]
  rfl

theorem field_tokens (f : WrittenField) :
    field ⟨f.decorators.map WrittenDecorator.toDecorator, f.doc⟩
        (⟨.identifier, f.name, f.position⟩ :: .bare .colon ":" :: .bare .identifier f.typeName ::
          ((if f.isArray then [.bare .leftBracket "[", .bare .rightBracket "]"] else []) ++
            .bare .semicolon ";" :: rest)) = .ok (f.toField, rest) := by
  rw [field_eq]
  show typeRef _ >>= _ = _
  rw [typeRef_tokens]
  show check _ _ >>= _ = _
  rw [check_of_pass f.pass]
  show Except.ok (Field.mk _ _ (fieldSize _ f.type) _ _ _ _, _) = _
  rw [fieldSize_tokens]
  rfl

theorem fields_step {doc : Option String} {ds : List WrittenDecorator} {t : Token}
    (ht : t.kind = .identifier) {f : Field} {left : Tokens}
    (hf : field ⟨ds.map WrittenDecorator.toDecorator, doc⟩ (t :: rest) = .ok (f, left)) :
    fields (preambleTokens doc ds ++ t :: rest) = do
      let (fs, left) ← fields left
      return (f :: fs, left) := by
  rw [fields_eq, if_neg (peek_tokens_ne rest (by simp [ht]) doc ds),
    preamble_tokens rest (by simp [ht]) (by simp [ht])]
  show (if (_ && decide (t.kind = _)) = true then _ else field _ _ >>= _) = _
  rw [if_neg (by simp [ht]), hf]
  rfl

theorem fields_tokens (fs : List WrittenField) :
    fields (fs.flatMap WrittenField.tokens ++ .bare .rightBrace "\x7d" :: rest) =
      .ok (fs.map WrittenField.toField, rest) := by
  induction fs with
  | nil => rw [fields_eq]; rfl
  | cons f fs ih =>
    rw [List.flatMap_cons, List.append_assoc, f.tokens_append, fields_step _ rfl (field_tokens _ f),
      ih]
    rfl

theorem modelDecl_tokens (m : WrittenModel) :
    modelDecl ⟨m.decorators.map WrittenDecorator.toDecorator, m.doc⟩
        (.bare .modelWord "model" :: ⟨.identifier, m.name, m.position⟩ :: .bare .leftBrace "\x7b" ::
          (m.fields.flatMap WrittenField.tokens ++ .bare .rightBrace "\x7d" :: rest)) =
      .ok (m.toModel, rest) := by
  have hid : commandId (m.decorators.map WrittenDecorator.toDecorator) = m.commandId := by
    rw [commandId, number?_decorators]
    rfl
  show fields _ >>= _ = _
  rw [fields_tokens]
  show Except.ok (Model.mk _ _ _ _ (commandId _) _ _, _) = _
  rw [hid]
  rfl

/-! ### Declarations -/

theorem nameParts_tokens (parts : List String) :
    nameParts (parts.flatMap (fun part => [.bare .dot ".", .bare .identifier part]) ++
        .bare .semicolon ";" :: rest) = .ok (parts, .bare .semicolon ";" :: rest) := by
  induction parts with
  | nil => exact nameParts_end (_ :: rest) TokenKind.noConfusion
  | cons part parts ih =>
    rw [List.flatMap_cons, List.append_assoc, List.cons_append, List.singleton_append,
      nameParts_dot rfl, expect_bare]
    show nameParts _ >>= _ = _
    rw [ih]
    rfl

theorem namespaceDecl_tokens (part : String) (parts : List String) :
    namespaceDecl (.bare .namespaceWord "namespace" :: .bare .identifier part ::
        (parts.flatMap (fun part => [.bare .dot ".", .bare .identifier part]) ++
          .bare .semicolon ";" :: rest)) = .ok (String.intercalate "." (part :: parts), rest) := by
  show nameParts _ >>= _ = _
  rw [nameParts_tokens]
  rfl

theorem declaration_namespace {p : Preamble} {ts left : Tokens} {name : String}
    (hts : peek ts = .namespaceWord) (hp : check p.decorators .nameSpace = .ok ())
    (hd : namespaceDecl ts = .ok (name, left)) :
    declaration p ts = .ok (some (.nameSpace name), left) := by
  simp only [declaration, hts, hp, hd]

theorem declaration_enum {p : Preamble} {ts left : Tokens} {e : Enum}
    (hts : peek ts = .enumWord) (hp : check p.decorators .enum = .ok ())
    (hd : enumDecl p ts = .ok (e, left)) : declaration p ts = .ok (some (.enum e), left) := by
  simp only [declaration, hts, hp, hd]

theorem declaration_model {p : Preamble} {ts left : Tokens} {m : Model}
    (hts : peek ts = .modelWord) (hp : check p.decorators .model = .ok ())
    (hd : modelDecl p ts = .ok (m, left)) : declaration p ts = .ok (some (.model m), left) := by
  simp only [declaration, hts, hp, hd]

/-- A declaration in front of others. -/
theorem declarations_step {t : Token} (hdoc : t.kind ≠ .docComment) (hat : t.kind ≠ .at)
    (heof : t.kind ≠ .eof) {doc : Option String} {ds : List WrittenDecorator} {d : Declaration}
    {left : Tokens}
    (hd : declaration ⟨ds.map WrittenDecorator.toDecorator, doc⟩ (t :: rest) =
      .ok (some d, left)) :
    declarations none (preambleTokens doc ds ++ t :: rest) =
      (declarations none left).map (d :: ·) := by
  rw [declarations_eq, preamble_tokens rest hdoc hat]
  show (if t.kind = .eof then _ else declaration _ _ >>= _) = _
  rw [if_neg heof, hd]
  show declarations none left >>= _ = _
  cases declarations none left <;> rfl

/-- Declarations that are written one after another. -/
theorem declarations_flatMap {α : Type} {tokens : α → Tokens} {declare : α → Declaration}
    (h : ∀ a rest, declarations none (tokens a ++ rest) =
      (declarations none rest).map (declare a :: ·)) (as : List α) :
    declarations none (as.flatMap tokens ++ rest) =
      (declarations none rest).map (as.map declare ++ ·) := by
  induction as with
  | nil =>
    show declarations none rest = _
    cases declarations none rest <;> rfl
  | cons a as ih =>
    rw [List.flatMap_cons, List.append_assoc, h, ih]
    cases declarations none rest <;> rfl

theorem declarations_namespace (parts : List String) :
    declarations none (WrittenSchema.namespaceTokens parts ++ rest) =
      (declarations none rest).map (WrittenSchema.namespaceDeclarations parts ++ ·) := by
  cases parts with
  | nil =>
    show declarations none rest = _
    cases declarations none rest <;> rfl
  | cons part parts =>
    rw [WrittenSchema.namespaceTokens_append]
    have hd := declaration_namespace (p := ⟨List.map WrittenDecorator.toDecorator [], none⟩) rfl rfl
      (namespaceDecl_tokens rest part parts)
    exact declarations_step _ (by decide) (by decide) (by decide) hd

theorem declarations_enum (e : WrittenEnum) (rest : Tokens) :
    declarations none (e.tokens ++ rest) =
      (declarations none rest).map (.enum e.toEnum :: ·) := by
  rw [e.tokens_append]
  exact declarations_step _ (by decide) (by decide) (by decide)
    (declaration_enum rfl (check_of_pass e.pass) (enumDecl_tokens rest e))

theorem declarations_model (m : WrittenModel) (rest : Tokens) :
    declarations none (m.tokens ++ rest) =
      (declarations none rest).map (.model m.toModel :: ·) := by
  rw [m.tokens_append]
  exact declarations_step _ (by decide) (by decide) (by decide)
    (declaration_model rfl (check_of_pass m.pass) (modelDecl_tokens rest m))

theorem declarations_tokens (w : WrittenSchema) :
    declarations none w.tokens = .ok w.declarations := by
  have hend : declarations none [.bare .eof ""] = .ok [] := by
    rw [declarations_eq, preamble_end _ TokenKind.noConfusion TokenKind.noConfusion]
    rfl
  rw [WrittenSchema.tokens, declarations_namespace, declarations_flatMap _ declarations_enum,
    declarations_flatMap _ declarations_model, hend]
  simp only [Except.map, List.append_nil, WrittenSchema.declarations]

theorem endless_tokens (w : WrittenSchema) : endless w.tokens = w.tokens := by
  have hany : w.tokens.any (·.kind == .eof) = true := by
    simp [WrittenSchema.tokens, Token.bare]
  rw [endless, hany]
  split
  · next hlast => rw [List.getLast?_eq_none_iff.1 hlast]
  · rfl

end Parse

namespace Schema

theorem ofDeclarations_written (w : WrittenSchema) (sourceFile : String) (parsedAt : Nat) :
    ofDeclarations ⟨sourceFile, parsedAt, none⟩ w.declarations =
      w.toSchema sourceFile parsedAt := by
  have hnone {α β : Type} (as : List α) : as.filterMap (fun _ => (none : Option β)) = [] :=
    List.filterMap_eq_nil_iff.2 fun _ _ => rfl
  obtain ⟨parts, enums, models⟩ := w
  simp only [ofDeclarations, WrittenSchema.declarations, List.filterMap_append, List.filterMap_map,
    Function.comp_def, hnone, List.filterMap_eq_map', List.append_nil]
  cases parts <;> rfl

/-- **What is written is read.** The tokens of a written schema declare that schema, in which each
place is that of a mark or a name. Wherever the tokens stand, nothing but the places differs. -/
theorem ofTokens_written (w : WrittenSchema) (sourceFile : String) (parsedAt : Nat) :
    ofTokens sourceFile parsedAt w.tokens = .ok (w.toSchema sourceFile parsedAt) ∧
      ∀ ts : Tokens, ts.map Token.plain = w.tokens.map Token.plain →
        ∃ s, ofTokens sourceFile parsedAt ts = .ok s ∧
          s.plain = (w.toSchema sourceFile parsedAt).plain := by
  have hw : ofTokens sourceFile parsedAt w.tokens = .ok (w.toSchema sourceFile parsedAt) := by
    rw [ofTokens, Parse.endless_tokens, Parse.declarations_tokens]
    exact congrArg Except.ok (ofDeclarations_written w sourceFile parsedAt)
  refine ⟨hw, fun ts hts => ?_⟩
  have hplain := ofTokens_plain sourceFile parsedAt ts
  rw [hts, ofTokens_plain, hw] at hplain
  cases hs : ofTokens sourceFile parsedAt ts with
  | error e =>
    rw [hs] at hplain
    cases hplain
  | ok s =>
    rw [hs] at hplain
    exact ⟨s, rfl, (Except.ok.inj hplain).symm⟩

/-- A schema with a namespace of two parts, an enum whose values go down, and a model. -/
def writtenSample : WrittenSchema where
  namespaceParts := ["my", "net"]
  enums := [⟨some "Modes.", [], "Mode", ⟨3, 6⟩,
    [⟨none, "On", 7⟩, ⟨some "The last.", "Off", 0⟩], by decide⟩]
  models := [⟨none, [⟨"command_id", [.number 200], ⟨8, 1⟩⟩], "Box", ⟨9, 7⟩,
    [⟨some "A name.", [⟨"length_prefix", [.word "uint8"], ⟨11, 3⟩⟩], "name", ⟨12, 3⟩, "string",
        false, by decide⟩,
      ⟨none, [], "modes", ⟨13, 3⟩, "Mode", true, by decide⟩], by decide +kernel⟩]

theorem ofTokens_written_sample :
    (writtenSample.tokens.map Token.plain).map Token.plain = writtenSample.tokens.map Token.plain ∧
      ofTokens "" 0 writtenSample.tokens = .ok ⟨"my.net",
        [⟨"Mode", [⟨"On", 7, none⟩, ⟨"Off", 0, some "The last."⟩], [], some "Modes.", ⟨3, 6⟩⟩],
        [⟨"Box", [⟨"name", .primitive .string, ⟨none, some (.scalar .uint8)⟩,
            [⟨"length_prefix", [.text "uint8"], ⟨11, 3⟩⟩], some "A name.", none, ⟨12, 3⟩⟩,
          ⟨"modes", .array (.model "Mode"), ⟨none, none⟩, [], none, none, ⟨13, 3⟩⟩],
          [⟨"command_id", [.number (Binary64.ofNat 200)], ⟨8, 1⟩⟩], none, some 200, .varying,
          ⟨9, 7⟩⟩], ⟨"", 0, none⟩⟩ ∧
      ∃ s, ofTokens "" 0 (writtenSample.tokens.map Token.plain) = .ok s ∧
        s.plain = (writtenSample.toSchema "" 0).plain := by
  obtain ⟨hread, hplain⟩ := ofTokens_written writtenSample "" 0
  have htwice : (writtenSample.tokens.map Token.plain).map Token.plain =
      writtenSample.tokens.map Token.plain := List.map_map
  exact ⟨htwice, hread, hplain _ htwice⟩

end Schema

end WireSchema
