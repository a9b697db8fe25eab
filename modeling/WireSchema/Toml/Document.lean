import WireSchema.Toml.Scalar
import WireSchema.Toml.Text

/-! # TOML documents

A document is a table: it assigns values to keys. Values are texts, scalars, lists and tables; a
table stands in braces, or in lines below a header. -/

namespace WireSchema.Toml

/-- What a key can be set to. -/
inductive Value where
  | text (s : String)
  /-- A number, a date, a time or a truth value. -/
  | scalar
  | list (items : List Value)
  | table (entries : List (Key × Value))

/-- The entries of a table. -/
abbrev Entries := List (Key × Value)

/-- Neither of two keys leads to the other one or to something in it. -/
def apart (a b : Key) : Bool := !a.isPrefixOf b && !b.isPrefixOf a

/-- Nothing is set twice. -/
def Entries.isClear (entries : Entries) : Bool := (entries.map (·.1)).Pairwise (apart · ·)

/-- A table in which nothing is set twice. -/
def table? (entries : Entries) : Option Value :=
  if entries.isClear then some (.table entries) else none

/-! ### Values -/

/-- Reads a text or a scalar. -/
def plainValue? : Reader Value := fun cs =>
  match text? cs with
  | some (text, rest) => some (.text text, rest)
  | none => (scalar? cs).map fun rest => (.scalar, rest)

/-- Reads a key, an equals sign and a value, and the blanks around them. -/
def entry (value : Reader Value) : Reader (Key × Value) := fun cs => do
  let (key, cs) ← key? cs
  let (v, cs) ← value (skipBlanks (← mark? '=' cs))
  some ((key, v), skipBlanks cs)

/-- Reads an element of a list, with a comma behind it unless it is the last one. -/
def element (value : Reader Value) : Reader Value := fun cs => do
  let (v, cs) ← value cs
  match skipGaps cs with
  | ',' :: cs => some (v, skipGaps cs)
  | ']' :: cs => some (v, ']' :: cs)
  | _ => none

/-- Reads an entry in braces, with a comma behind it if and only if it is not the last one. -/
def inlineEntry (value : Reader Value) : Reader (Key × Value) := fun cs => do
  let (e, cs) ← entry value cs
  match cs with
  | ',' :: cs => if startsWith '\x7d' (skipBlanks cs) then none else some (e, cs)
  | '\x7d' :: cs => some (e, '\x7d' :: cs)
  | _ => none

/-- Reads a value in which lists and tables stand at most `depth` deep in one another. -/
def valueAt : Nat → Reader Value
  | 0, cs => plainValue? cs
  | depth + 1, cs =>
    match cs with
    | '[' :: cs => do
      let (items, cs) ← many (startsWith ']') (element (valueAt depth)) (skipGaps cs)
      some (.list items, cs.drop 1)
    | '\x7b' :: cs => do
      let (es, cs) ← many (startsWith '\x7d') (inlineEntry (valueAt depth)) (skipBlanks cs)
      some (← table? es, cs.drop 1)
    | cs => plainValue? cs

/-- Reads a value. -/
def value? : Reader Value := valueAt maxDepth

/-! ### Documents -/

/-- Reads an entry on a line of its own, and the gap behind it. -/
def line? : Reader (Key × Value) := fun cs => do
  let (e, cs) ← entry value? cs
  some (e, skipGaps (← lineEnd? cs))

/-- At the end of the text, or at a header. -/
def atHeader (cs : List Char) : Bool := cs.isEmpty || startsWith '[' cs

/-- Reads a table with its header. -/
def section? : Reader (Key × Value) := fun cs => do
  let (key, cs) ← key? (← mark? '[' cs)
  let cs ← lineEnd? (← mark? ']' cs)
  let (lines, cs) ← many atHeader line? (skipGaps cs)
  some ((key, ← table? lines), cs)

/-- The text without a byte order mark at its front. -/
def skipMark : List Char → List Char
  | '\uFEFF' :: cs => cs
  | cs => cs

/-- Reads a document. -/
def ofText? (s : String) : Option Entries := do
  let (lines, cs) ← many atHeader line? (skipGaps (skipMark s.toList))
  let (sections, _) ← many List.isEmpty section? cs
  let all := lines ++ sections
  if Entries.isClear all then some all else none

end WireSchema.Toml
