import WireSchema.Number.Binary64

/-! # Shortest decimals

The decimal text of a finite number has the fewest digits that read back as that number, and of
those the digits nearest to it. The reals that read back as a number form an interval around it; on
the grid of decimals with a given number of digits only the two neighbours of the number need to be
tried. -/

namespace WireSchema.Shortest

/-- A positive rational with the interval of reals that round to it: `low`, `value` and `high`
over the common denominator `den`, the ends included or not. -/
structure Interval where
  low : Nat
  value : Nat
  high : Nat
  den : Nat
  closed : Bool

/-- The reals that round to a finite number other than zero. Below a power of two the neighbour is
only half as far away. -/
def interval (x : Binary64) : Interval :=
  let m := x.significand
  let below := if m = Nat.pow 2 52 ∧ 0 < x.scale then 1 else 2
  let up := Nat.pow 2 (x.scale - 1074)
  let down := Nat.pow 2 (1074 - x.scale)
  ⟨(4 * m - below) * up, 4 * m * up, (4 * m + 2) * up, 4 * down, m % 2 == 0⟩

/-- Whether `num / den` lies in the interval. -/
def Interval.contains (i : Interval) (num den : Nat) : Bool :=
  if i.closed then i.low * den ≤ num * i.den && num * i.den ≤ i.high * den
  else i.low * den < num * i.den && num * i.den < i.high * den

/-- The decimal exponent of the first digit of `num / den`. -/
def firstDigit (num den : Nat) : Int :=
  if den ≤ num then ((Nat.toDigits 10 (num / den)).length : Int) - 1
  else
    match (List.range 400).find? fun j => den ≤ num * Nat.pow 10 j with
    | some j => -(j : Int)
    | none => -400

/-- The decimal `d * 10 ^ k` as a numerator and a denominator. -/
def power (d : Nat) (k : Int) : Nat × Nat :=
  if 0 ≤ k then (d * Nat.pow 10 k.toNat, 1) else (d, Nat.pow 10 (-k).toNat)

/-- The decimal with digits at `10 ^ k` and above that reads back and is nearest, if there is
one. -/
def candidate? (i : Interval) (k : Int) : Option Nat :=
  let (num, den) := if 0 ≤ k then (i.value, i.den * Nat.pow 10 k.toNat)
    else (i.value * Nat.pow 10 (-k).toNat, i.den)
  let d := num / den
  let hits := fun d => i.contains (power d k).1 (power d k).2
  match hits d, hits (d + 1) with
  | true, true => some (Binary64.roundDiv num den)
  | true, false => some d
  | false, true => some (d + 1)
  | false, false => none

/-- The digits and the exponent of the shortest decimal of a finite number other than zero. -/
def digits (x : Binary64) : Nat × Int :=
  let i := interval x
  let first := firstDigit i.value i.den
  let found := (List.range 18).findSome? fun (n : Nat) =>
    (candidate? i (first - n)).map fun d => (d, first - n)
  found.getD (0, 0)

/-- Digits without the zeros at their end, and how many there were. -/
def dropZeros (ds : List Char) : List Char × Nat :=
  let zeros := (ds.reverse.takeWhile (· == '0')).length
  (ds.take (ds.length - zeros), zeros)

/-- Where a decimal is written out in full: up to this many digits before the point. -/
def positionalDigits : Int := 16

/-- Where a decimal is written out in full: fewer than this many zeros after the point. -/
def positionalZeros : Int := 5

/-- An exponent with its sign. -/
def exponent (e : Int) : List Char :=
  (if 0 ≤ e then '+' else '-') :: Nat.toDigits 10 e.natAbs

/-- The text of the decimal `0.d₁d₂… * 10 ^ point`. -/
def layout (ds : List Char) (point : Int) : List Char :=
  let n : Int := ds.length
  if n ≤ point ∧ point ≤ positionalDigits then
    ds ++ List.replicate (point - n).toNat '0' ++ ['.', '0']
  else if 0 < point ∧ point ≤ positionalDigits then
    ds.take point.toNat ++ '.' :: ds.drop point.toNat
  else if -positionalZeros < point ∧ point ≤ 0 then
    ['0', '.'] ++ List.replicate (-point).toNat '0' ++ ds
  else
    let tail := if ds.length = 1 then [] else '.' :: ds.drop 1
    ds.take 1 ++ tail ++ 'e' :: exponent (point - 1)

/-- The text of a finite number: a point is always written unless an exponent follows one digit. -/
def text (x : Binary64) : String :=
  let sign := if x.isNegative then ['-'] else []
  if x.magnitude = 0 then String.ofList (sign ++ ['0', '.', '0'])
  else
    let (d, k) := digits x
    let (ds, zeros) := dropZeros (Nat.toDigits 10 d)
    String.ofList (sign ++ layout ds (ds.length + zeros + k))

end WireSchema.Shortest
