/-! # Double-precision numbers

A number is its bit pattern: a sign, an exponent of 11 bits and a fraction of 52 bits. A finite
number is `significand * 2 ^ (scale - 1074)` up to its sign. The bit pattern of the magnitude is
`scale * 2 ^ 52 + significand` with the two parts added, so a significand that rounds up to the
next power of two carries into the exponent by itself. -/

namespace WireSchema

/-- A double-precision number, as its bit pattern. -/
structure Binary64 where
  /-- The 64 bits: the sign is the highest. -/
  bits : UInt64
  deriving DecidableEq

namespace Binary64

/-- The bits below the sign. -/
def magnitude (x : Binary64) : Nat := x.bits.toNat % Nat.pow 2 63

/-- Whether the sign bit is set. -/
def isNegative (x : Binary64) : Bool := Nat.pow 2 63 ≤ x.bits.toNat

/-- The magnitude of an infinite number; that of a NaN is greater. -/
def infinityMagnitude : Nat := 2047 * Nat.pow 2 52

/-- Whether the number is neither infinite nor a NaN. -/
def isFinite (x : Binary64) : Bool := x.magnitude < infinityMagnitude

/-- The exponent, counted in units of the least one. -/
def scale (x : Binary64) : Nat := x.magnitude / Nat.pow 2 52 - 1

/-- The digits of a finite number as a whole number. -/
def significand (x : Binary64) : Nat := x.magnitude - x.scale * Nat.pow 2 52

/-- The number with the given magnitude and sign. -/
def ofMagnitude (negative : Bool) (m : Nat) : Binary64 :=
  ⟨UInt64.ofNat (if negative then Nat.pow 2 63 + m else m)⟩

/-- The quotient of two whole numbers rounded to the nearest one, a half to the even neighbour. -/
def roundDiv (num den : Nat) : Nat :=
  let q := num / den
  let r := num % den
  if 2 * r > den || (2 * r == den && q % 2 == 1) then q + 1 else q

/-- The magnitude nearest to `num / den * 2 ^ 1074` at the given scale. -/
def magnitudeAt (num den scale : Nat) : Nat :=
  scale * Nat.pow 2 52 +
    if scale ≤ 1074 then roundDiv (num * Nat.pow 2 (1074 - scale)) den
    else roundDiv num (den * Nat.pow 2 (scale - 1074))

/-- The scale at which `num / den` has a significand of 53 bits, or the least scale if it is too
small for that. -/
def scaleFor (num den : Nat) : Nat :=
  -- the quotient lies strictly between 2 ^ (a - b - 1) and 2 ^ (a - b + 1)
  let a := num.log2
  let b := den.log2
  if num * Nat.pow 2 b ≥ den * Nat.pow 2 a then a + 1022 - b else a + 1021 - b

/-- The magnitude nearest to `num / den`, infinite if no finite one is. -/
def magnitudeOfRatio (num den : Nat) : Nat :=
  if num = 0 then 0 else min (magnitudeAt num den (scaleFor num den)) infinityMagnitude

/-- The number nearest to a whole number. -/
def ofNat (n : Nat) : Binary64 := ofMagnitude false (magnitudeOfRatio n 1)

/-- The positive infinite number. -/
def infinity : Binary64 := ofMagnitude false infinityMagnitude

/-- The whole number that `x` is, if it is one and not negative. -/
def toWhole? (x : Binary64) : Option Nat :=
  if !x.isFinite then none
  else if x.magnitude = 0 then some 0
  else if x.isNegative then none
  else if 1074 ≤ x.scale then some (x.significand * Nat.pow 2 (x.scale - 1074))
  else if x.significand % Nat.pow 2 (1074 - x.scale) = 0 then
    some (x.significand / Nat.pow 2 (1074 - x.scale))
  else none

end Binary64

end WireSchema
