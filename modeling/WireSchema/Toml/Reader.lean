/-! # Reading TOML

A reader takes characters from the front of a text and returns what is left. Here is what stands
between the things that mean something: blanks, line ends and comments. -/

namespace WireSchema.Toml

/-- Takes something from the front of a text and returns it with what is left. -/
abbrev Reader (α : Type) := List Char → Option (α × List Char)

/-- Takes something from the front of a text and returns what is left. -/
abbrev Skipper := List Char → Option (List Char)

/-- A blank inside a line. -/
def isBlank (c : Char) : Bool := c == ' ' || c == '\t'

/-- A character that may stand inside a line: a tab or no control character. -/
def isPlain (c : Char) : Bool := c == '\t' || (0x20 ≤ c.toNat && c.toNat != 0x7F)

/-- The next character is `c`. -/
def startsWith (c : Char) (cs : List Char) : Bool := cs.head? == some c

/-- Skips the character `c`. -/
def mark? (c : Char) : Skipper
  | [] => none
  | d :: cs => if c = d then some cs else none

/-- Skips blanks. -/
def skipBlanks (cs : List Char) : List Char := cs.dropWhile isBlank

/-- Skips the end of a line. -/
def newline? : Skipper
  | '\n' :: cs => some cs
  | '\r' :: '\n' :: cs => some cs
  | _ => none

/-- Skips blanks and line ends. -/
def skipLines : List Char → List Char
  | '\n' :: cs => skipLines cs
  | '\r' :: '\n' :: cs => skipLines cs
  | c :: cs => if isBlank c then skipLines cs else c :: cs
  | [] => []

/-- Skips blanks, line ends and comments; `inComment` says that a comment has begun. -/
def skipGapsFrom (inComment : Bool) : List Char → List Char
  | '\n' :: cs => skipGapsFrom false cs
  | '\r' :: '\n' :: cs => skipGapsFrom false cs
  | c :: cs =>
    if inComment then
      if isPlain c then skipGapsFrom true cs else c :: cs
    else if c = '#' then skipGapsFrom true cs
    else if isBlank c then skipGapsFrom false cs
    else c :: cs
  | [] => []

/-- Skips blanks, line ends and comments. -/
def skipGaps (cs : List Char) : List Char := skipGapsFrom false cs

/-- Skips a comment up to the end of the line. -/
def skipComment : List Char → List Char
  | '#' :: cs => cs.dropWhile isPlain
  | cs => cs

/-- Skips what may follow on a line, and its end. -/
def lineEnd? : Skipper := fun cs =>
  match skipComment (skipBlanks cs) with
  | [] => some []
  | rest => newline? rest

/-- Reads items up to the place where `stop` holds, at most as many as `fuel` is long. -/
def manyFrom {α : Type} (stop : List Char → Bool) (item : Reader α) :
    List Char → List α → Reader (List α)
  | fuel, items, cs =>
    if stop cs then some (items.reverse, cs)
    else
      match fuel with
      | [] => none
      | _ :: fuel =>
        match item cs with
        | none => none
        | some (a, rest) => manyFrom stop item fuel (a :: items) rest

/-- Reads items up to the place where `stop` holds. An item takes at least one character, so there
are no more of them than characters. -/
def many {α : Type} (stop : List Char → Bool) (item : Reader α) : Reader (List α) := fun cs =>
  manyFrom stop item cs [] cs

end WireSchema.Toml
