import WireSchema.Text.CaseTable

/-! # Letter case

Upper and lower case for all characters. A character can have several characters as its upper case
(`ß` has `SS`), and the lower case of a capital sigma depends on whether a word ends there. -/

namespace WireSchema.Text

/-- Whether a character is an upper-case letter. -/
def isUpper (c : Char) : Bool :=
  if c.toNat < 128 then 'A' ≤ c && c ≤ 'Z' else inTable upperTable c.toNat

/-- Whether a character is a lower-case letter. -/
def isLower (c : Char) : Bool :=
  if c.toNat < 128 then 'a' ≤ c && c ≤ 'z' else inTable lowerTable c.toNat

/-- A code point moved by a distance. -/
def shiftChar (c : Char) (d : Int) : Char := Char.ofNat (c.toNat + d).toNat

/-- The lower case of a character on its own. -/
def toLower (c : Char) : List Char :=
  if c.toNat < 128 then [if 'A' ≤ c ∧ c ≤ 'Z' then Char.ofNat (c.toNat + 32) else c]
  else if c = 'İ' then ['i', Char.ofNat 0x307]
  else [shiftChar c (shiftOf toLowerTable c.toNat)]

/-- The upper case of a character. -/
def toUpper (c : Char) : List Char :=
  if c.toNat < 128 then [if 'a' ≤ c ∧ c ≤ 'z' then Char.ofNat (c.toNat - 32) else c]
  else
    match toUpperLong.lookup c.toNat with
    | some ns => ns.map Char.ofNat
    | none => [shiftChar c (shiftOf toUpperTable c.toNat)]

/-- The lower case of an ASCII letter; every other character stays. -/
def toLowerAscii (c : Char) : Char :=
  if 'A' ≤ c ∧ c ≤ 'Z' then Char.ofNat (c.toNat + 32) else c

/-! ### Whole texts -/

/-- Whether a character has a case. -/
def isCased (c : Char) : Bool := isUpper c || isLower c || inTable titleTable c.toNat

/-- Whether a character is passed over where the end of a word is looked for. -/
def isCaseIgnorable (c : Char) : Bool :=
  if c.toNat < 128 then c == '\'' || c == '.' || c == ':' || c == '^' || c == Char.ofNat 0x60
  else inTable ignorableTable c.toNat

/-- Whether the first character that is not passed over has a case. -/
def startsCased (cs : List Char) : Bool :=
  match cs.dropWhile isCaseIgnorable with
  | [] => false
  | c :: _ => isCased c

/-- The lower case of a text whose part `before`, in reverse, has been done. A capital sigma at
the end of a word becomes a final sigma. -/
def lowerFrom (before : List Char) : List Char → List Char
  | [] => []
  | c :: cs =>
    let lowered :=
      if c = 'Σ' then [if startsCased before && !startsCased cs then 'ς' else 'σ'] else toLower c
    lowered ++ lowerFrom (c :: before) cs

/-- The lower case of a text. -/
def lower (s : String) : String := String.ofList (lowerFrom [] s.toList)

/-- The upper case of a text. -/
def upper (s : String) : String := String.ofList (s.toList.flatMap toUpper)

end WireSchema.Text
