/-! # UTF-8

`encode` writes a text as bytes. `decode` reads any byte string: where the bytes are not well
formed, each longest run of bytes that starts some well-formed character, or else a single byte, is
read as one replacement character. -/

namespace WireSchema.Utf8

/-- The bytes of a text. -/
def encode (cs : List Char) : List UInt8 := cs.flatMap String.utf8EncodeChar

/-- The character that stands for bytes that are not well formed. -/
def replacement : Char := '�'

/-- A byte that continues a character. -/
def isTail (b : UInt8) : Bool := 0x80 ≤ b && b ≤ 0xBF

/-- The second byte of a character of three bytes, after the first byte `a`. -/
def isSecondOfThree (a b : UInt8) : Bool :=
  if a = 0xE0 then 0xA0 ≤ b && b ≤ 0xBF
  else if a = 0xED then 0x80 ≤ b && b ≤ 0x9F
  else isTail b

/-- The second byte of a character of four bytes, after the first byte `a`. -/
def isSecondOfFour (a b : UInt8) : Bool :=
  if a = 0xF0 then 0x90 ≤ b && b ≤ 0xBF
  else if a = 0xF4 then 0x80 ≤ b && b ≤ 0x8F
  else isTail b

/-- The six low bits of a byte that continues a character. -/
def tailBits (b : UInt8) : Nat := b.toNat % 64

/-- The character at the front of `a :: bs`, and how many bytes of `bs` belong to it. -/
def front (a : UInt8) (bs : List UInt8) : Char × Nat :=
  if a < 0x80 then (Char.ofNat a.toNat, 0)
  else if 0xC2 ≤ a && a ≤ 0xDF then
    match bs with
    | b :: _ =>
      if isTail b then (Char.ofNat (a.toNat % 32 * 64 + tailBits b), 1) else (replacement, 0)
    | [] => (replacement, 0)
  else if 0xE0 ≤ a && a ≤ 0xEF then
    match bs with
    | b :: bs =>
      if isSecondOfThree a b then
        match bs with
        | c :: _ =>
          if isTail c then (Char.ofNat ((a.toNat % 16 * 64 + tailBits b) * 64 + tailBits c), 2)
          else (replacement, 1)
        | [] => (replacement, 1)
      else (replacement, 0)
    | [] => (replacement, 0)
  else if 0xF0 ≤ a && a ≤ 0xF4 then
    match bs with
    | b :: bs =>
      if isSecondOfFour a b then
        match bs with
        | c :: bs =>
          if isTail c then
            match bs with
            | d :: _ =>
              if isTail d then
                (Char.ofNat
                  (((a.toNat % 8 * 64 + tailBits b) * 64 + tailBits c) * 64 + tailBits d), 3)
              else (replacement, 2)
            | [] => (replacement, 2)
          else (replacement, 1)
        | [] => (replacement, 1)
      else (replacement, 0)
    | [] => (replacement, 0)
  else (replacement, 0)

/-- Reads bytes as text, with replacement characters where they are not well formed. -/
def decode : List UInt8 → List Char
  | [] => []
  | a :: bs => (front a bs).1 :: decode (bs.drop (front a bs).2)
termination_by bs => bs.length
decreasing_by simp only [List.length_drop, List.length_cons]; omega

/-- The bytes of a string. -/
def ofString (s : String) : List UInt8 := encode s.toList

/-- Bytes read as a string. -/
def toString (bs : List UInt8) : String := String.ofList (decode bs)

/-- Whether the bytes are the encoding of some text. -/
def isValid (bs : List UInt8) : Bool := encode (decode bs) == bs

end WireSchema.Utf8
