import WireSchema.Number.Literal
import WireSchema.Toml.Reader

/-! # Texts and keys in TOML

A text stands between double quotes, where there are escapes, or between single quotes, where every
character means itself. Three quotes on either side allow several lines. -/

namespace WireSchema.Toml

/-! ### Texts -/

/-- The character whose number is written in hexadecimal digits. -/
def hexChar? (ds : List Char) : Option Char :=
  match Literal.ofDigits? 16 Literal.hexDigit? ds with
  | none => none
  | some n => if n.isValidChar then some (Char.ofNat n) else none

/-- Reads the rest of an escape, behind its backslash. -/
def escape? : Reader Char
  | 'b' :: cs => some ('\x08', cs)
  | 't' :: cs => some ('\t', cs)
  | 'n' :: cs => some ('\n', cs)
  | 'f' :: cs => some ('\x0c', cs)
  | 'r' :: cs => some ('\r', cs)
  | '"' :: cs => some ('"', cs)
  | '\\' :: cs => some ('\\', cs)
  | 'u' :: a :: b :: c :: d :: cs => (hexChar? [a, b, c, d]).map fun x => (x, cs)
  | 'U' :: a :: b :: c :: d :: e :: f :: g :: h :: cs =>
    (hexChar? [a, b, c, d, e, f, g, h]).map fun x => (x, cs)
  | _ => none

/-- The kind of a text: its quotes, and whether there are three of them. -/
structure Quoting where
  quote : Char
  long : Bool

namespace Quoting

/-- Reads the quotes at the end of a text. Up to two quotes before them belong to a long text. -/
def closing? (q : Quoting) : Reader (List Char) := fun cs =>
  let n := (cs.takeWhile (· == q.quote)).length
  if q.long then
    if 3 ≤ n then
      let inner := min (n - 3) 2
      some (cs.take inner, cs.drop (inner + 3))
    else none
  else if 1 ≤ n then some ([], cs.drop 1)
  else none

/-- Reads the next part of a text. In a long text with escapes, a backslash at the end of a line
skips the blanks and line ends behind it. -/
def piece? (q : Quoting) : Reader (List Char)
  | [] => none
  | c :: cs =>
    if c = '\\' ∧ q.quote = '"' then
      match (if q.long then newline? (skipBlanks cs) else none) with
      | some rest => some ([], skipLines rest)
      | none => (escape? cs).map fun (x, rest) => ([x], rest)
    else if isPlain c then some ([c], cs)
    else if q.long then (newline? (c :: cs)).map fun rest => (['\n'], rest)
    else none

/-- Reads a text behind its opening quotes. -/
def body? (q : Quoting) : Reader String := fun cs => do
  let (pieces, cs) ← many (fun cs => (q.closing? cs).isSome) q.piece? cs
  let (quotes, cs) ← q.closing? cs
  some (String.ofList (pieces.flatten ++ quotes), cs)

end Quoting

/-- Skips a line end right behind the opening quotes of a long text. -/
def skipNewline (cs : List Char) : List Char := (newline? cs).getD cs

/-- Reads a text in one pair of quotes. -/
def shortText? : Reader String
  | '"' :: cs => Quoting.body? ⟨'"', false⟩ cs
  | '\'' :: cs => Quoting.body? ⟨'\'', false⟩ cs
  | _ => none

/-- Reads a text. -/
def text? : Reader String
  | '"' :: '"' :: '"' :: cs => Quoting.body? ⟨'"', true⟩ (skipNewline cs)
  | '\'' :: '\'' :: '\'' :: cs => Quoting.body? ⟨'\'', true⟩ (skipNewline cs)
  | cs => shortText? cs

/-! ### Keys -/

/-- A key: one part, or several with points between them. -/
abbrev Key := List String

/-- A character of a key without quotes. -/
def isKeyChar (c : Char) : Bool := c.isAlphanum || c == '_' || c == '-'

/-- Reads a part of a key without quotes. -/
def barePart? : Reader String := fun cs =>
  match cs.takeWhile isKeyChar with
  | [] => none
  | part => some (String.ofList part, cs.dropWhile isKeyChar)

/-- Reads a part of a key, and the blanks around it. -/
def part? : Reader String := fun cs =>
  let cs := skipBlanks cs
  ((shortText? cs).or (barePart? cs)).map fun (part, rest) => (part, skipBlanks rest)

/-- The greatest number of parts of a key, and the greatest depth of a value. -/
def maxDepth : Nat := 79

/-- Reads a key, and the blanks around it. -/
def key? : Reader Key := fun cs => do
  let (first, cs) ← part? cs
  let (others, cs) ← many (fun cs => !startsWith '.' cs) (fun cs => part? (cs.drop 1)) cs
  if others.length < maxDepth then some (first :: others, cs) else none

end WireSchema.Toml
