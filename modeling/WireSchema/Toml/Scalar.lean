import WireSchema.Number.Literal
import WireSchema.Toml.Reader

/-! # Numbers, dates and times in TOML

No setting is a number, a date or a time, so these are checked and skipped. -/

namespace WireSchema.Toml

/-- A decimal digit. -/
def isDigit (c : Char) : Bool := (Literal.digit? c).isSome

/-! ### Numbers -/

/-- The digits at the front of a text; an underscore may stand before each. -/
def moreDigits (ok : Char → Bool) : List Char → List Char × List Char
  | '_' :: c :: cs =>
    if ok c then
      let (digits, rest) := moreDigits ok cs
      (c :: digits, rest)
    else ([], '_' :: c :: cs)
  | c :: cs =>
    if ok c then
      let (digits, rest) := moreDigits ok cs
      (c :: digits, rest)
    else ([], c :: cs)
  | [] => ([], [])

/-- Reads one or more digits; an underscore may stand between two of them. -/
def digits? (ok : Char → Bool) : Reader (List Char)
  | c :: cs =>
    if ok c then
      let (digits, rest) := moreDigits ok cs
      some (c :: digits, rest)
    else none
  | [] => none

/-- Reads a whole number without superfluous zeros. -/
def whole? : Reader (List Char)
  | '0' :: cs => some (['0'], cs)
  | cs => digits? isDigit cs

/-- Splits off a sign. -/
def signOf : List Char → List Char × List Char
  | '+' :: cs => (['+'], cs)
  | '-' :: cs => (['-'], cs)
  | cs => ([], cs)

/-- Reads a point and digits. -/
def fraction? : Reader (List Char)
  | '.' :: cs => (digits? isDigit cs).map fun (digits, rest) => ('.' :: digits, rest)
  | _ => none

/-- Reads an exponent. -/
def exponent? : Reader (List Char)
  | [] => none
  | c :: cs =>
    if c = 'e' ∨ c = 'E' then
      let (sign, cs) := signOf cs
      (digits? isDigit cs).map fun (digits, rest) => ('e' :: sign ++ digits, rest)
    else none

/-- An integer must fit into 64 bits with its sign. -/
def isInt64 (negative : Bool) (n : Nat) : Bool :=
  if negative then n ≤ Nat.pow 2 63 else n < Nat.pow 2 63

/-- Digits in a base write an integer that fits. -/
def fits (negative : Bool) (base : Nat) (digits : List Char) : Bool :=
  match Literal.ofDigits? base Literal.hexDigit? digits with
  | none => false
  | some n => isInt64 negative n

/-- Skips an integer in another base than ten. -/
def basedInteger? : Skipper := fun cs =>
  let digitsIn (base : Nat) (cs : List Char) : Option (List Char) := do
    let isBaseDigit := fun c => (Literal.hexDigit? c).any (· < base)
    let (digits, rest) ← digits? isBaseDigit cs
    if fits false base digits then some rest else none
  match cs with
  | '0' :: 'x' :: cs => digitsIn 16 cs
  | '0' :: 'o' :: cs => digitsIn 8 cs
  | '0' :: 'b' :: cs => digitsIn 2 cs
  | _ => none

/-- Skips one of the words for numbers that are not finite. -/
def specialFloat? : Skipper
  | 'i' :: 'n' :: 'f' :: cs => some cs
  | 'n' :: 'a' :: 'n' :: cs => some cs
  | _ => none

/-- Skips an integer, or a number with a fraction or an exponent. The latter must not be too great
for a positive double-precision number. -/
def decimal? (sign : List Char) : Skipper := fun cs => do
  let (whole, cs) ← whole? cs
  let (fraction, cs) := (fraction? cs).getD ([], cs)
  let (exponent, cs) := (exponent? cs).getD ([], cs)
  if fraction.isEmpty && exponent.isEmpty then
    if fits (sign == ['-']) 10 whole then some cs else none
  else if Literal.decimal? (sign ++ whole ++ fraction ++ exponent) = some .infinity then none
  else some cs

/-- Skips a number. -/
def number? : Skipper := fun cs =>
  let (sign, rest) := signOf cs
  (basedInteger? cs).or ((specialFloat? rest).or (decimal? sign rest))

/-! ### Dates and times -/

/-- Reads a number that is written with `count` digits and lies between two bounds. -/
def fixed? (count least greatest : Nat) : Reader Nat := fun cs =>
  let digits := cs.take count
  match Literal.ofDigits? 10 Literal.digit? digits with
  | none => none
  | some n =>
    if digits.length = count ∧ least ≤ n ∧ n ≤ greatest then some (n, cs.drop count) else none

/-- A year with a 29th of February. -/
def isLeap (year : Nat) : Bool := year % 4 == 0 && (year % 100 != 0 || year % 400 == 0)

/-- The number of days in a month. -/
def daysIn (year month : Nat) : Nat :=
  if month = 2 then if isLeap year then 29 else 28
  else if month ∈ [4, 6, 9, 11] then 30
  else 31

/-- Skips a date. -/
def date? : Skipper := fun cs => do
  let (year, cs) ← fixed? 4 0 9999 cs
  let (month, cs) ← fixed? 2 1 12 (← mark? '-' cs)
  let (_, cs) ← fixed? 2 1 (daysIn year month) (← mark? '-' cs)
  some cs

/-- Skips an hour and a minute. -/
def hourAndMinute? : Skipper := fun cs => do
  let (_, cs) ← fixed? 2 0 23 cs
  let (_, cs) ← fixed? 2 0 59 (← mark? ':' cs)
  some cs

/-- Skips a fraction of a second, if there is one. -/
def skipSubsecond : List Char → List Char
  | '.' :: c :: cs => if isDigit c then cs.dropWhile isDigit else '.' :: c :: cs
  | cs => cs

/-- Skips a time of the day. A leap second is allowed. -/
def time? : Skipper := fun cs => do
  let cs ← hourAndMinute? cs
  let (_, cs) ← fixed? 2 0 60 (← mark? ':' cs)
  some (skipSubsecond cs)

/-- Skips the distance of a local time from the universal one. -/
def offset? : Skipper
  | [] => none
  | c :: cs =>
    if c = 'Z' ∨ c = 'z' then some cs
    else if c = '+' ∨ c = '-' then hourAndMinute? cs
    else none

/-- Skips the time behind a date. -/
def timeOfDate? : Skipper
  | [] => none
  | c :: cs =>
    if c = 'T' ∨ c = 't' ∨ c = ' ' then (time? cs).map fun rest => (offset? rest).getD rest
    else none

/-- Skips a date, a time, or both. -/
def dateTime? : Skipper := fun cs =>
  match date? cs with
  | some rest => some ((timeOfDate? rest).getD rest)
  | none => time? cs

/-! ### All of them -/

/-- Skips a truth value. -/
def flag? : Skipper
  | 't' :: 'r' :: 'u' :: 'e' :: cs => some cs
  | 'f' :: 'a' :: 'l' :: 's' :: 'e' :: cs => some cs
  | _ => none

/-- Skips a date, a time, a number or a truth value. -/
def scalar? : Skipper := fun cs => (dateTime? cs).or ((number? cs).or (flag? cs))

end WireSchema.Toml
