import WireSchema.Parse.Schema

/-! # The parser as a machine

The readers of `Parse` take tokens from the front of a list. Here they are steps of a machine that
has all tokens at once and a cursor into them: it looks at the token under the cursor, moves the
cursor by one, and goes round its loops. The machine is stopped where something would go wrong for
good: the cursor goes behind the first end mark or a token is looked at there, the first argument of
a decorator is taken that has none, or a loop takes more turns than it was given. -/

namespace WireSchema

namespace Parse

/-- The index of the first end mark, or the number of tokens if there is none. -/
def endIndex (ts : Tokens) : Nat := ts.findIdx (·.kind == .eof)

/-- Why the machine ends without a result. -/
inductive Stop where
  /-- There is a mistake in the tokens. -/
  | refused (e : ParseError)
  /-- The cursor goes behind the first end mark, or a token is looked at there. -/
  | pastEnd
  /-- The first argument is taken of a decorator that has none. -/
  | noArgument
  /-- A loop is not done after the turns that it was given. -/
  | turns
  deriving DecidableEq

/-- A run of the machine from a place of its cursor. -/
abbrev Run := StateT Nat (Except Stop)

namespace Run

variable {α β : Type}

/-- Stops the machine. -/
def stop (s : Stop) : Run α := fun _ => .error s

/-- A step that looks at no token. -/
def ofExcept : Except ParseError α → Run α
  | .error e => stop (.refused e)
  | .ok a => pure a

end Run

/-- What the machine can do with its tokens. -/
structure Tape where
  /-- Looks at the token under the cursor. -/
  current : Run Token
  /-- Moves the cursor by one. -/
  move : Run Unit

/-- The tokens of a list, up to the first end mark. -/
def Tape.of (ts : Tokens) : Tape where
  current i :=
    if endIndex ts < i then .error .pastEnd
    else
      -- without an end mark the last token is looked at again and again
      match ts[min i (ts.length - 1)]? with
      | none => .error .pastEnd
      | some t => .ok (t, i)
  move i := if i < endIndex ts then .ok ((), i + 1) else .error .pastEnd

/-! ### The machine -/

namespace Tape

variable (tape : Tape)

/-- Whether the next token is of the given kind. -/
def isNext (kind : TokenKind) : Run Bool := do
  return (← tape.current).kind == kind

/-- Takes the next token, if it is not the end mark. -/
def advance : Run Token := do
  let t ← tape.current
  if t.kind = .eof then return t
  tape.move
  return t

/-- Takes the next token if it is of the given kind. -/
def eat (kind : TokenKind) : Run Bool := do
  if ← tape.isNext kind then
    tape.move
    return true
  else return false

/-- Takes the next token, which must be of the given kind. -/
def expect (kind : TokenKind) (what : String) : Run Token := do
  if ← tape.isNext kind then tape.advance
  else
    let t ← tape.current
    Run.stop (.refused (unexpected what [t]))

/-- Takes a comma, unless a closing parenthesis comes next. -/
def eatComma : Run Unit := do
  if ← tape.isNext .rightParen then return ()
  else discard (tape.eat .comma)

/-- The loop over arguments. -/
def arguments : Nat → Run (List Argument)
  | 0 => Run.stop .turns
  | turns + 1 => do
    if (← tape.isNext .rightParen) || (← tape.isNext .eof) then return []
    else
      match ← Run.ofExcept (argument? (← tape.current)) with
      | none => return []
      | some arg =>
        discard tape.advance
        tape.eatComma
        return arg :: (← arguments turns)

/-- The first argument of a decorator. -/
def firstArgument (d : Decorator) : Run Argument :=
  match d.args with
  | [] => Run.stop .noArgument
  | arg :: _ => return arg

/-- The first argument of the first decorator of the given name, if there is such a decorator. -/
def argumentOf (ds : List Decorator) (name : String) : Run (Option Argument) :=
  match Decorator.find? ds name with
  | none => return none
  | some d => do return some (← firstArgument d)

variable (turns : Nat)

/-- Arguments in parentheses. -/
def argumentList : Run (List Argument) := do
  if ← tape.eat .leftParen then
    let args ← tape.arguments turns
    discard (tape.expect .rightParen "\")\"")
    return args
  else return []

/-- A decorator. -/
def decorator : Run Decorator := do
  let mark ← tape.expect .at "\"@\""
  let name ← tape.expect .identifier "decorator name"
  return ⟨name.text, ← tape.argumentList turns, mark.position⟩

/-- The loop over decorators and doc comments. -/
def preamble : Nat → Option String → Run Preamble
  | 0, _ => Run.stop .turns
  | n + 1, doc => do
    if ← tape.isNext .docComment then
      preamble n (some (← tape.advance).text)
    else if ← tape.isNext .at then
      let d ← tape.decorator turns
      let p ← preamble n doc
      return ⟨d :: p.decorators, p.doc⟩
    else return ⟨[], doc⟩

/-- The loop over the parts of a name. -/
def nameParts : Nat → Run (List String)
  | 0 => Run.stop .turns
  | n + 1 => do
    if ← tape.eat .dot then
      let part ← tape.expect .identifier "namespace part"
      return part.text :: (← nameParts n)
    else return []

/-- A namespace declaration. -/
def namespaceDecl : Run String := do
  discard (tape.expect .namespaceWord "\"namespace\"")
  let name ← tape.expect .identifier "namespace name"
  let parts ← tape.nameParts turns
  discard (tape.eat .semicolon)
  return String.intercalate "." (name.text :: parts)

/-- The loop over what stands in braces. Behind the last item there can be doc comments. What an
item needs to know of the one before it is `state`. -/
def block {α σ : Type} (item : Preamble → σ → Run α) (after : α → σ) :
    Nat → Option String → σ → Run (List α)
  | 0, _, _ => Run.stop .turns
  | n + 1, doc, state => do
    if ← tape.eat .rightBrace then return []
    else
      let p ← tape.preamble turns turns doc
      if p.decorators.isEmpty && (← tape.isNext .rightBrace) then block item after n p.doc state
      else
        let a ← item p state
        return a :: (← block item after n none (after a))

/-- A member behind its preamble. Its value is taken out of its decorators once they have passed. -/
def member (p : Preamble) (next : Nat) : Run Member := do
  Run.ofExcept (check p.decorators .enumMember)
  let name ← tape.expect .identifier "enum member name"
  let arg ← argumentOf p.decorators KnownDecorator.value.name
  let value := arg.elim next fun arg => arg.integer?.getD 0
  if 255 < value then Run.stop (.refused ⟨name.position, .memberValue value name.text⟩)
  else
    discard (tape.eat .comma)
    return ⟨name.text, UInt8.ofNat value, p.doc⟩

/-- An enum behind its preamble. -/
def enumDecl (p : Preamble) : Run Enum := do
  discard (tape.expect .enumWord "\"enum\"")
  let name ← tape.expect .identifier "enum name"
  discard (tape.expect .leftBrace "\"\x7b\"")
  let ms ← tape.block turns tape.member (fun m => m.value.toNat + 1) turns none 0
  return ⟨name.text, ms, p.decorators, p.doc, name.position⟩

/-- There are no optional fields. -/
def rejectOptional : Run Unit := do
  if ← tape.isNext .question then
    let t ← tape.current
    Run.stop (.refused ⟨t.position, .optionalField⟩)
  else return ()

/-- A type. -/
def typeRef : Run TypeRef := do
  let name ← tape.expect .identifier "type name"
  if ← tape.eat .leftBracket then
    discard (tape.expect .rightBracket "\"]\"")
    return .array (TypeRef.ofName name.text)
  else return TypeRef.ofName name.text

/-- The size of a field, taken out of its decorators. -/
def fieldSize (ds : List Decorator) (type : TypeRef) : Run FieldSize := do
  let size ← argumentOf ds KnownDecorator.size.name
  let lengthPrefix ← argumentOf ds KnownDecorator.lengthPrefix.name
  return ⟨(size.bind Argument.integer?).or (type.primitive?.bind Primitive.naturalSize),
    lengthPrefix.bind fun arg => arg.text?.bind Primitive.ofName?⟩

/-- A field behind its preamble. Its size is built once its decorators have passed. -/
def field (p : Preamble) : Run Field := do
  let name ← tape.expect .identifier "field name"
  tape.rejectOptional
  discard (tape.expect .colon "\":\"")
  let type ← tape.typeRef
  tape.rejectOptional
  discard (tape.eat .semicolon)
  Run.ofExcept (check p.decorators (.field type))
  let size ← fieldSize p.decorators type
  return ⟨name.text, type, size, p.decorators, p.doc, none, name.position⟩

/-- A model behind its preamble. -/
def modelDecl (p : Preamble) : Run Model := do
  discard (tape.expect .modelWord "\"model\"")
  let name ← tape.expect .identifier "model name"
  discard (tape.expect .leftBrace "\"\x7b\"")
  let fs ← tape.block turns (fun p _ => tape.field p) (fun _ => ()) turns none ()
  let id ← argumentOf p.decorators KnownDecorator.commandId.name
  return ⟨name.text, fs, p.decorators, p.doc, (id.bind Argument.integer?).map UInt8.ofNat, .varying,
    name.position⟩

/-- The declaration behind a preamble. A token that starts none is passed over. -/
def declaration (p : Preamble) : Run (Option Declaration) := do
  match (← tape.current).kind with
  | .namespaceWord =>
    Run.ofExcept (check p.decorators .nameSpace)
    return some (.nameSpace (← tape.namespaceDecl turns))
  | .enumWord =>
    Run.ofExcept (check p.decorators .enum)
    return some (.enum (← tape.enumDecl turns p))
  | .modelWord =>
    Run.ofExcept (check p.decorators .model)
    return some (.model (← tape.modelDecl turns p))
  | _ =>
    discard tape.advance
    return none

/-- The loop over declarations. The doc comment `doc` has been read before the first. -/
def declarations : Nat → Option String → Run (List Declaration)
  | 0, _ => Run.stop .turns
  | n + 1, doc => do
    if ← tape.isNext .eof then return []
    else
      let p ← tape.preamble turns turns doc
      match ← tape.declaration turns p with
      | none => declarations n p.doc
      | some d => return d :: (← declarations n none)

/-- The schema that the tokens declare. -/
def schema (sourceFile : String) (parsedAt : Nat) : Run Schema := do
  return Schema.ofDeclarations ⟨sourceFile, parsedAt, none⟩ (← tape.declarations turns turns none)

end Tape

end Parse

end WireSchema
