/-! # Quoted text

A name in a message or a text in a JSON document stands between double quotes. The two characters
`"` and `\` get a backslash, five control characters have short escapes, the other characters
below the space are written as `\u00xx`, and every other character stands for itself. -/

namespace WireSchema.Text

/-- A hexadecimal digit in lower case. -/
def lowerHexDigit (n : Nat) : Char :=
  if n < 10 then Char.ofNat (48 + n) else Char.ofNat (87 + n)

/-- One character inside quotes. -/
def quoteChar (c : Char) : List Char :=
  if c = '"' then ['\\', '"']
  else if c = '\\' then ['\\', '\\']
  else if c = '\n' then ['\\', 'n']
  else if c = '\r' then ['\\', 'r']
  else if c = '\t' then ['\\', 't']
  else if c = '\x08' then ['\\', 'b']
  else if c = '\x0c' then ['\\', 'f']
  else if c.toNat < 0x20 then
    ['\\', 'u', '0', '0', lowerHexDigit (c.toNat / 16), lowerHexDigit (c.toNat % 16)]
  else [c]

/-- A text between double quotes. -/
def quoteChars (cs : List Char) : List Char := '"' :: (cs.flatMap quoteChar ++ ['"'])

/-- A string between double quotes. -/
def quote (s : String) : String := String.ofList (quoteChars s.toList)

end WireSchema.Text
