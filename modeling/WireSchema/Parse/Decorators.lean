import WireSchema.Number.Literal
import WireSchema.Token.Lexer

/-! # Reading decorators

The parser reads a list of tokens from the front. Each function returns what it has read and the
tokens that are left; the lemmas say that a function that reads something leaves fewer tokens, which
is why the loops end. -/

namespace WireSchema

/-- The tokens that have not been read. -/
abbrev Tokens := List Token

namespace Parse

/-- The kind of the next token. Behind the last one stands the end of the text. -/
def peek : Tokens → TokenKind
  | [] => .eof
  | t :: _ => t.kind

/-- The error that another token was expected. -/
def unexpected (what : String) : Tokens → ParseError
  | [] => ⟨Position.start, .expected what none⟩
  | t :: _ => ⟨t.position, .expected what (if t.kind = .eof then none else some t.text)⟩

/-- Reads a token of the given kind, which is not the end. -/
def expect (kind : TokenKind) (what : String) (ts : Tokens) : Except ParseError (Token × Tokens) :=
  match ts with
  | [] => .error (unexpected what ts)
  | t :: rest => if t.kind = kind then .ok (t, rest) else .error (unexpected what ts)

/-- Reads a token of the given kind if it comes next. -/
def skip (kind : TokenKind) (ts : Tokens) : Tokens :=
  match ts with
  | [] => []
  | t :: rest => if t.kind = kind then rest else ts

/-- The decorators must be able to stand before `target`. -/
def check (decorators : List Decorator) (target : Target) : Except ParseError Unit :=
  match Decorator.check decorators target with
  | some (p, fault) => .error ⟨p, .decorator fault⟩
  | none => .ok ()

theorem expect_length {kind : TokenKind} {what : String} {ts rest : Tokens} {t : Token}
    (h : expect kind what ts = .ok (t, rest)) : ts.length = rest.length + 1 := by
  unfold expect at h
  split at h
  · cases h
  · split at h
    · cases h
      rfl
    · cases h

theorem skip_length (kind : TokenKind) (ts : Tokens) : (skip kind ts).length ≤ ts.length := by
  unfold skip
  split
  · exact Nat.le_refl _
  · split <;> simp

/-- The argument that a token is, if it can be one. The words `true` and `false` are flags, any
other word is a text. -/
def argument? (t : Token) : Except ParseError (Option Argument) :=
  match t.kind with
  | .number =>
    match Literal.value? t.text.toList with
    | some x => .ok (some (.number x))
    | none => .error ⟨t.position, .invalidNumber t.text⟩
  | .string => .ok (some (.text t.text))
  | .identifier =>
    if t.text = "true" then .ok (some (.flag true))
    else if t.text = "false" then .ok (some (.flag false))
    else .ok (some (.text t.text))
  | _ => .ok none

/-- Reads arguments as far as there are any. A comma may stand behind each. -/
def arguments (ts : Tokens) : Except ParseError (List Argument × Tokens) :=
  match ts with
  | [] => .ok ([], [])
  | t :: rest =>
    match argument? t with
    | .error e => .error e
    | .ok none => .ok ([], ts)
    | .ok (some arg) =>
      match arguments (skip .comma rest) with
      | .error e => .error e
      | .ok (args, rest) => .ok (arg :: args, rest)
termination_by ts.length
decreasing_by
  have := skip_length .comma rest
  simp only [List.length_cons]
  omega

theorem arguments_length {ts rest : Tokens} {args : List Argument}
    (h : arguments ts = .ok (args, rest)) : rest.length ≤ ts.length := by
  fun_induction arguments ts generalizing args rest with
  | case1 =>
    cases h
    exact Nat.le_refl _
  | case2 => cases h
  | case3 =>
    cases h
    exact Nat.le_refl _
  | case4 => cases h
  | case5 t rest' arg _ args' rest'' h' ih =>
    cases h
    have h1 := ih h'
    have h2 := skip_length .comma rest'
    simp only [List.length_cons]
    omega

/-- Reads the arguments of a decorator in parentheses, if there are any. -/
def argumentList (ts : Tokens) : Except ParseError (List Argument × Tokens) :=
  if peek ts = .leftParen then
    match arguments ts.tail with
    | .error e => .error e
    | .ok (args, rest) =>
      match expect .rightParen "\")\"" rest with
      | .error e => .error e
      | .ok (_, rest) => .ok (args, rest)
  else .ok ([], ts)

theorem argumentList_length {ts rest : Tokens} {args : List Argument}
    (h : argumentList ts = .ok (args, rest)) : rest.length ≤ ts.length := by
  unfold argumentList at h
  split at h
  · split at h
    · cases h
    · rename_i args' rest' h'
      split at h
      · cases h
      · rename_i t rest'' h''
        cases h
        have h1 := arguments_length h'
        have h2 := expect_length h''
        simp only [List.length_tail] at h1
        omega
  · cases h
    exact Nat.le_refl _

/-- Reads a decorator: a mark, a name, and arguments in parentheses. -/
def decorator (ts : Tokens) : Except ParseError (Decorator × Tokens) :=
  match expect .at "\"@\"" ts with
  | .error e => .error e
  | .ok (mark, rest) =>
    match expect .identifier "decorator name" rest with
    | .error e => .error e
    | .ok (name, rest) =>
      match argumentList rest with
      | .error e => .error e
      | .ok (args, rest) => .ok (⟨name.text, args, mark.position⟩, rest)

theorem decorator_length {ts rest : Tokens} {d : Decorator}
    (h : decorator ts = .ok (d, rest)) : rest.length < ts.length := by
  unfold decorator at h
  split at h
  · cases h
  · rename_i mark rest1 h1
    split at h
    · cases h
    · rename_i name rest2 h2
      split at h
      · cases h
      · rename_i args rest3 h3
        cases h
        have l1 := expect_length h1
        have l2 := expect_length h2
        have l3 := argumentList_length h3
        omega

/-- What stands before a declaration: decorators, and the text of the last doc comment. -/
structure Preamble where
  decorators : List Decorator
  doc : Option String
  deriving DecidableEq

/-- Reads decorators and doc comments in any order. The last doc comment counts, or `doc` if there
is none. -/
def preamble (doc : Option String) (ts : Tokens) : Except ParseError (Preamble × Tokens) :=
  match ts with
  | [] => .ok (⟨[], doc⟩, [])
  | t :: rest =>
    if t.kind = .docComment then preamble (some t.text) rest
    else if t.kind = .at then
      match _h : decorator (t :: rest) with
      | .error e => .error e
      | .ok (d, left) =>
        match preamble doc left with
        | .error e => .error e
        | .ok (p, left) => .ok (⟨d :: p.decorators, p.doc⟩, left)
    else .ok (⟨[], doc⟩, ts)
termination_by ts.length
decreasing_by
  · simp
  · exact decorator_length _h

theorem preamble_length {doc : Option String} {ts rest : Tokens} {p : Preamble}
    (h : preamble doc ts = .ok (p, rest)) : rest.length ≤ ts.length := by
  fun_induction preamble doc ts generalizing p rest with
  | case1 =>
    cases h
    exact Nat.le_refl _
  | case2 doc t ts' _ ih =>
    have := ih h
    simp only [List.length_cons]
    omega
  | case3 => cases h
  | case4 => cases h
  | case5 doc t ts' _ _ d left h' p' left' h'' ih =>
    cases h
    have h1 := decorator_length h'
    have h2 := ih h''
    omega
  | case6 =>
    cases h
    exact Nat.le_refl _

end Parse

end WireSchema
