import WireSchema.Text.Case

/-! # Names in snake case

Words of a name are told apart by their capitals. A run of capitals stays together, so an acronym
remains one word: `sessionID` becomes `session_id` and `HTTPServer` becomes `http_server`. -/

namespace WireSchema.Name

open Text

/-- Whether a capital starts a new word, given the character before it and the text behind it. -/
def startsWord (before : Option Char) (after : List Char) : Bool :=
  match before with
  | none => false
  | some p =>
    (!isUpper p && p != '_') ||
      (isUpper p && match after with
        | [] => false
        | c :: _ => isLower c)

/-- The snake case of a text that stands behind the character `before`. -/
def snakeFrom (before : Option Char) : List Char → List Char
  | [] => []
  | c :: cs =>
    if isUpper c then
      (if startsWord before cs then ['_'] else []) ++ toLower c ++ snakeFrom (some c) cs
    else c :: snakeFrom (some c) cs

/-- A name in snake case. -/
def snake (s : String) : String := String.ofList (snakeFrom none s.toList)

/-- A name in snake case, with capitals. -/
def upperSnake (s : String) : String := upper (snake s)

end WireSchema.Name
