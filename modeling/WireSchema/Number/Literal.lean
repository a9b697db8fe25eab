import WireSchema.Number.Binary64

/-! # Number literals

A literal is hexadecimal, `0x` and digits, with a value below 2 ^ 64, or decimal, with an optional
fraction and exponent; `inf`, `infinity` and `nan` are decimal literals too, in any case. A literal
stands for the double-precision number nearest to its value. -/

namespace WireSchema.Literal

/-- The value of a decimal digit. -/
def digit? (c : Char) : Option Nat := if '0' ≤ c ∧ c ≤ '9' then some (c.toNat - 48) else none

/-- The value of a hexadecimal digit, in either case. -/
def hexDigit? (c : Char) : Option Nat :=
  if '0' ≤ c ∧ c ≤ '9' then some (c.toNat - 48)
  else if 'a' ≤ c ∧ c ≤ 'f' then some (c.toNat - 87)
  else if 'A' ≤ c ∧ c ≤ 'F' then some (c.toNat - 55)
  else none

/-- The number with the given digits, or nothing if some character is no digit. -/
def ofDigits? (base : Nat) (digit? : Char → Option Nat) (cs : List Char) : Option Nat :=
  cs.foldl (fun acc c => do return (← acc) * base + (← digit? c)) (some 0)

/-- A hexadecimal number below 2 ^ 64; a plus sign may stand in front. -/
def hex? (cs : List Char) : Option Nat :=
  let digits := match cs with
    | '+' :: ds => ds
    | ds => ds
  if digits.isEmpty then none
  else (ofDigits? 16 hexDigit? digits).filter (· < Nat.pow 2 64)

/-- The magnitude of `mantissa * 10 ^ exponent`. Far beyond the finite range, or below the least
positive number, the power itself is not computed. -/
def scaled (mantissa : Nat) (exponent : Int) : Nat :=
  if mantissa = 0 then 0
  else if 400 < exponent then Binary64.infinityMagnitude
  -- a power of ten with a negative exponent is at most that power of eight
  else if (mantissa.log2 : Int) + 3 * exponent < -1200 then 0
  else if 0 ≤ exponent then Binary64.magnitudeOfRatio (mantissa * Nat.pow 10 exponent.toNat) 1
  else Binary64.magnitudeOfRatio mantissa (Nat.pow 10 (-exponent).toNat)

/-- The exponent part of a decimal literal: nothing, or a mark, a sign and digits. -/
def exponent? : List Char → Option Int
  | [] => some 0
  | c :: cs =>
    if c = 'e' ∨ c = 'E' then
      match cs with
      | '-' :: ds => if ds.isEmpty then none else (ofDigits? 10 digit? ds).map fun n => -(n : Int)
      | '+' :: ds => if ds.isEmpty then none else (ofDigits? 10 digit? ds).map fun n => (n : Int)
      | ds => if ds.isEmpty then none else (ofDigits? 10 digit? ds).map fun n => (n : Int)
    else none

/-- The magnitude of a decimal literal without its sign. -/
def unsigned? (cs : List Char) : Option Nat :=
  let isDigit := fun c => (digit? c).isSome
  let whole := cs.takeWhile isDigit
  let rest := cs.dropWhile isDigit
  let (fraction, rest) := match rest with
    | '.' :: r => (r.takeWhile isDigit, r.dropWhile isDigit)
    | r => ([], r)
  if whole.isEmpty && fraction.isEmpty then none
  else do
    let mantissa ← ofDigits? 10 digit? (whole ++ fraction)
    let exponent ← exponent? rest
    return scaled mantissa (exponent - fraction.length)

/-- The words for numbers that are not finite. -/
def word? (cs : List Char) : Option Nat :=
  let word := String.ofList (cs.map Char.toLower)
  if word = "inf" ∨ word = "infinity" then some Binary64.infinityMagnitude
  else if word = "nan" then some (Binary64.infinityMagnitude + Nat.pow 2 51)
  else none

/-- A decimal literal. -/
def decimal? (cs : List Char) : Option Binary64 :=
  let (negative, cs) := match cs with
    | '-' :: r => (true, r)
    | '+' :: r => (false, r)
    | r => (false, r)
  ((word? cs).or (unsigned? cs)).map (Binary64.ofMagnitude negative)

/-- The number that a literal stands for. -/
def value? (cs : List Char) : Option Binary64 :=
  match cs with
  | '0' :: 'x' :: ds => (hex? ds).map Binary64.ofNat
  | '0' :: 'X' :: ds => (hex? ds).map Binary64.ofNat
  | ds => decimal? ds

end WireSchema.Literal
