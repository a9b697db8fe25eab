import WireSchema.Parse.Error
import WireSchema.Token.Lexeme

/-! # From text to tokens

The text is split into lexemes, each lexeme gets the place where it starts, and the lexemes that
say something become tokens. White space, plain comments and stray characters are left out. -/

namespace WireSchema

namespace Position

/-- The start of a text. -/
def start : Position := ⟨1, 1⟩

/-- The place behind one more character. -/
def next (p : Position) (c : Char) : Position :=
  if c = '\n' then ⟨p.line + 1, 1⟩ else ⟨p.line, p.column + 1⟩

/-- The place behind a text that starts at `p`. -/
def after (p : Position) (text : List Char) : Position := text.foldl next p

end Position

namespace Lexeme

/-- What a string says: a backslash stands before a character that means itself, or before `n`,
`t` or `r` for a line feed, a tab or a carriage return. -/
def unescape : List Char → List Char
  | [] => []
  | '\\' :: [] => []
  | '\\' :: 'n' :: cs => '\n' :: unescape cs
  | '\\' :: 't' :: cs => '\t' :: unescape cs
  | '\\' :: 'r' :: cs => '\r' :: unescape cs
  | '\\' :: c :: cs => c :: unescape cs
  | c :: cs => c :: unescape cs

/-- A line of a doc block without the blanks around it and without a star in front. -/
def docBlockLine (line : List Char) : List Char :=
  match Text.trim line with
  | '*' :: cs => Text.trimStart cs
  | cs => cs

/-- A text without `*/` at its end. -/
def dropClose (cs : List Char) : List Char :=
  match cs.reverse with
  | '/' :: '*' :: rest => rest.reverse
  | _ => cs

/-- What a doc block says: its lines without the stars in front of them. -/
def docBlockText (text : List Char) : List Char :=
  Text.trim
    (List.intercalate ['\n'] ((Text.lines (dropClose (text.drop 3))).map docBlockLine))

/-- The kind and the text of the token that a lexeme makes, if it makes one. -/
def token? (l : Lexeme) : Option (TokenKind × String) :=
  match l.kind with
  | .docLine => some (.docComment, String.ofList (Text.trim (l.text.drop 3)))
  | .docBlock => some (.docComment, String.ofList (docBlockText l.text))
  | .string => some (.string, String.ofList (unescape (l.text.drop 1).dropLast))
  | .number => some (.number, String.ofList l.text)
  | .word =>
    let word := String.ofList l.text
    some (TokenKind.ofWord word, word)
  | .mark => (l.text.head?.bind TokenKind.ofMark?).map fun k => (k, String.ofList l.text)
  | .blank | .lineComment | .blockComment | .openQuote | .stray => none

/-- Lexemes with the places where they start, the first at `p`. -/
def place (p : Position) : List Lexeme → List (Position × Lexeme)
  | [] => []
  | l :: ls => (p, l) :: place (p.after l.text) ls

end Lexeme

namespace Token

/-- The token that a placed lexeme makes, if it makes one. -/
def ofLexeme? (placed : Position × Lexeme) : Option Token :=
  placed.2.token?.map fun (kind, text) => ⟨kind, text, placed.1⟩

/-- The tokens of a text, with the mark of its end as the last one. A quote that is not closed is
an error. -/
def ofChars (cs : List Char) : Except ParseError (List Token) :=
  let placed := Lexeme.place Position.start (Lexeme.split cs)
  match placed.find? (·.2.kind == .openQuote) with
  | some (p, _) => .error ⟨p, .unterminatedString⟩
  | none => .ok (placed.filterMap ofLexeme? ++ [⟨.eof, "", Position.start.after cs⟩])

/-- The tokens of a schema text. -/
def ofText (text : String) : Except ParseError (List Token) := ofChars text.toList

end Token

end WireSchema
