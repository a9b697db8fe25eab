import WireSchema.Text.Utf8
import WireSchema.Wire.Scalar

/-! # Writers

A writer is the bytes written so far, and a write appends to them. A write that is stopped can have
appended some bytes before, as when one item of many does not fit; a payload with a length in front
is appended whole or not at all.

Lengths are words of 64 bits, and no buffer is longer than `maxBuffer`. Bytes that are at hand are
not limited by that. Only the room for a message and the zeros behind a text in its field are asked
for by their number alone: if there cannot be a buffer of that length, the program stops. The length
of a field is added to that of the writer, and what becomes of a sum that is no word depends on the
build. -/

namespace WireSchema

/-- The number of words of 64 bits, 2 ^ 64. -/
def wordCount : Nat := 18446744073709551616

/-- The length of the longest buffer, 2 ^ 63 - 1. -/
def maxBuffer : Nat := 9223372036854775807

/-- How the program was built: what becomes of a sum of two lengths that is no word. -/
inductive Build where
  /-- The program stops. -/
  | checked
  /-- The sum is taken modulo 2 ^ 64. -/
  | wrapping
  deriving DecidableEq

/-- The sum of two lengths, unless it stops the program. -/
def Build.add? (build : Build) (m n : Nat) : Option Nat :=
  match build with
  | .checked => if m + n < wordCount then some (m + n) else none
  | .wrapping => some ((m + n) % wordCount)

/-- What stops the program. -/
inductive Panic where
  /-- A sum of two lengths is no word. -/
  | sumOverflow
  /-- A buffer would be too long. -/
  | capacityOverflow
  deriving DecidableEq

/-- What stops a write: an error, which the caller is given, or the end of the program. -/
inductive Stop where
  | error (e : WireError)
  | panic (p : Panic)
  deriving DecidableEq

/-- What a write did: the writer behind it, and what stopped it, if anything. -/
structure Written where
  data : Bytes
  stop : Option Stop
  deriving DecidableEq

/-- The bytes in the writer, or what stopped the write. -/
def Written.toExcept (r : Written) : Except Stop Bytes :=
  match r.stop with
  | none => .ok r.data
  | some s => .error s

/-- A write: what it does to a writer. -/
def Write : Type := Bytes → Written

/-- A payload with its byte count in front. -/
def counted (p : LengthPrefix) (payload : Bytes) : Bytes :=
  littleEndian p.width payload.length ++ payload

namespace Write

/-- Appends these bytes. -/
def append (b : Bytes) : Write := fun w => ⟨w ++ b, none⟩

/-- Is stopped, and appends nothing. -/
def fail (s : Stop) : Write := fun w => ⟨w, some s⟩

/-- One write after another; the second is not made if the first was stopped. -/
def andThen (a b : Write) : Write := fun w =>
  match a w with
  | ⟨w, none⟩ => b w
  | ⟨w, some s⟩ => ⟨w, some s⟩

/-- What a write leaves in a writer of its own. -/
def run (a : Write) : Except Stop Bytes := (a []).toExcept

/-- A write of what was written elsewhere. -/
def after (r : Except Stop Bytes) (f : Bytes → Write) : Write :=
  match r with
  | .ok b => f b
  | .error s => fail s

/-- The writes for the items of a list, until one is stopped. -/
def items {α : Type} (write : α → Write) : List α → Write
  | [] => append []
  | x :: xs => (write x).andThen (items write xs)

/-- A payload with its byte count in front. -/
def prefixed (p : LengthPrefix) (payload : Bytes) : Write :=
  if payload.length ≤ p.maxLength then append (counted p payload)
  else fail (.error (.lengthOverflow payload.length p.maxLength))

/-- The items of a list, from a writer of their own, as one payload with its byte count in
front. -/
def prefixedItems {α : Type} (p : LengthPrefix) (write : α → Write) (xs : List α) : Write :=
  after (items write xs).run (prefixed p)

/-- A byte string cut to a length, or filled up with zeros. -/
def resize (b : Bytes) (n : Nat) : Bytes := b.take n ++ List.replicate (n - b.length) 0

/-- A payload in a field of `size` bytes, cut or filled up with zeros. The writer is brought to its
new length, which is a sum; a sum that was taken modulo 2 ^ 64 cuts off what was written before. -/
def fixed (build : Build) (payload : Bytes) (size : Nat) : Write := fun w =>
  let held := w ++ payload.take size
  match build.add? held.length (size - payload.length) with
  | none => ⟨held, some (.panic .sumOverflow)⟩
  | some n =>
    if n ≤ maxBuffer then ⟨resize held n, none⟩ else ⟨held, some (.panic .capacityOverflow)⟩

/-- A text in a field of `size` bytes. -/
def fixedText (build : Build) (s : String) (size : Nat) : Write :=
  fixed build (Utf8.ofString s) size

/-- What a write leaves in a new writer. If the size of the message is known, the writer is made
with room for it. -/
def message (size? : Option Nat) (a : Write) : Except Stop Bytes :=
  if size?.all (· ≤ maxBuffer) then a.run else .error (.panic .capacityOverflow)

end Write

end WireSchema
