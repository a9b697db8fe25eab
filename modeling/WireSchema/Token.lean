import WireSchema.Schema.Basic

/-! # Tokens

A schema text is a sequence of words, numbers, strings, doc comments and marks. Each token has its
kind, its text and the place where it starts; the last one marks the end of the text. -/

namespace WireSchema

/-- The kinds of tokens. -/
inductive TokenKind where
  | namespaceWord
  | modelWord
  | enumWord
  | identifier
  | number
  | string
  | docComment
  | leftBrace
  | rightBrace
  | leftParen
  | rightParen
  | leftBracket
  | rightBracket
  | colon
  | semicolon
  | comma
  | at
  | question
  | dot
  | eof
  deriving DecidableEq

namespace TokenKind

/-- A word is one of three keywords or an identifier. -/
def ofWord (text : String) : TokenKind :=
  if text = "namespace" then .namespaceWord
  else if text = "model" then .modelWord
  else if text = "enum" then .enumWord
  else .identifier

/-- The kind of a mark. -/
def ofMark? : Char → Option TokenKind
  | '\x7b' => some .leftBrace
  | '\x7d' => some .rightBrace
  | '(' => some .leftParen
  | ')' => some .rightParen
  | '[' => some .leftBracket
  | ']' => some .rightBracket
  | ':' => some .colon
  | ';' => some .semicolon
  | ',' => some .comma
  | '@' => some .at
  | '?' => some .question
  | '.' => some .dot
  | _ => none

end TokenKind

/-- A token of a schema text. -/
structure Token where
  kind : TokenKind
  /-- What the token says: a string without its quotes, a comment without its marks. -/
  text : String
  /-- Where the token starts. -/
  position : Position
  deriving DecidableEq

end WireSchema
