import WireSchema.Text.Utf8
import WireSchema.Wire.Scalar

/-! # Decoders

A decoder takes bytes from the front of its input and returns a value, or the error that stopped
it, together with the number of bytes it has taken. The number counts also after an error: a read
that did not fit has taken nothing, while a payload that did not fit has taken its length. -/

namespace WireSchema

/-- A reading step: a result, and the number of bytes that were taken from the front. -/
def Decoder (α : Type) : Type := Bytes → Except WireError α × Nat

namespace Decoder

/-- The decoder that takes nothing. -/
protected def pure {α : Type} (a : α) : Decoder α := fun _ => (.ok a, 0)

/-- One decoder after another; an error ends the run where it happened. -/
protected def bind {α β : Type} (d : Decoder α) (f : α → Decoder β) : Decoder β := fun s =>
  match d s with
  | (.error e, n) => (.error e, n)
  | (.ok a, n) =>
    let (result, m) := f a (s.drop n)
    (result, n + m)

instance : Monad Decoder where
  pure := Decoder.pure
  bind := Decoder.bind

/-- The decoder that fails and takes nothing. -/
def fail {α : Type} (e : WireError) : Decoder α := fun _ => (.error e, 0)

/-- Whether a byte string holds at least `n` bytes. -/
def holds (n : Nat) (s : Bytes) : Bool := n == 0 || !(s.drop (n - 1)).isEmpty

theorem holds_iff {n : Nat} {s : Bytes} : holds n s = true ↔ n ≤ s.length := by
  cases n with
  | zero => simp [holds]
  | succ n =>
    simp only [holds, Nat.add_sub_cancel, Bool.or_eq_true, Bool.not_eq_true', beq_iff_eq,
      List.isEmpty_eq_false_iff]
    rw [Ne, List.drop_eq_nil_iff]
    omega

/-- The next `n` bytes. -/
def take (n : Nat) : Decoder Bytes := fun s =>
  if holds n s then (.ok (s.take n), n) else (.error (.bufferUnderflow n s.length), 0)

/-- The next `n` bytes, with their number. -/
def exactly (n : Nat) : Decoder { b : Bytes // b.length = n } := fun s =>
  if h : holds n s then (.ok ⟨s.take n, List.length_take_of_le (holds_iff.1 h)⟩, n)
  else (.error (.bufferUnderflow n s.length), 0)

/-- All bytes that are left. -/
def rest : Decoder Bytes := fun s => (.ok s, s.length)

/-- An unsigned word of `width` bytes. -/
def word (width : Nat) : Decoder Nat := do return ofLittleEndian (← take width)

/-- A scalar of the given kind. -/
def scalar (k : ScalarKind) : Decoder k.Value := do return k.ofWord (← word k.width)

/-- A text in a field of `size` bytes: it ends at the first zero byte, or with the field. -/
def fixedText (size : Nat) : Decoder String := do
  return Utf8.toString ((← take size).takeWhile (· != 0))

/-- A byte count of the given width, and then that many bytes. -/
def prefixed (p : LengthPrefix) : Decoder Bytes := do take (← word p.width)

/-- A text with its byte count in front. -/
def prefixedText (p : LengthPrefix) : Decoder String := do return Utf8.toString (← prefixed p)

/-- All bytes that are left, as a text. -/
def restText : Decoder String := do return Utf8.toString (← rest)

/-- Items back to back until no bytes are left. An item that takes nothing is an error, since it
would be read for ever. -/
def items {α : Type} (item : Decoder α) : Bytes → Except WireError (List α) × Nat
  | [] => (.ok [], 0)
  | b :: s =>
    match item (b :: s) with
    | (.error e, n) => (.error e, n)
    | (.ok _, 0) => (.error (.emptyItem (s.length + 1)), 0)
    | (.ok a, n + 1) =>
      match items item (s.drop n) with
      | (.error e, m) => (.error e, n + 1 + m)
      | (.ok as, m) => (.ok (a :: as), n + 1 + m)
termination_by s => s.length
decreasing_by
  rw [List.length_drop, List.length_cons]
  omega

/-- Runs a decoder on a span of its own. What it leaves of the span is dropped. -/
def within {α : Type} (d : Decoder α) (span : Bytes) : Decoder α := fun _ => ((d span).1, 0)

/-- Items that fill a span with its byte count in front. -/
def prefixedItems {α : Type} (p : LengthPrefix) (item : Decoder α) : Decoder (List α) := do
  within (items item) (← prefixed p)

end Decoder

/-! ### A cursor over a buffer -/

/-- A buffer that is being read, and how far. -/
structure Cursor where
  /-- The whole buffer. -/
  data : Bytes
  /-- How many bytes have been read. -/
  index : Nat

namespace Cursor

/-- A cursor at the start of a buffer. -/
def ofBytes (data : Bytes) : Cursor := ⟨data, 0⟩

/-- The bytes that have not been read yet. -/
def left (c : Cursor) : Bytes := c.data.drop c.index

/-- How many bytes are left. -/
def remaining (c : Cursor) : Nat := c.data.length - c.index

/-- Whether all bytes have been read. -/
def isEmpty (c : Cursor) : Bool := c.left.isEmpty

/-- Runs a decoder where the cursor stands. -/
def read {α : Type} (c : Cursor) (d : Decoder α) : Except WireError α × Cursor :=
  let (result, n) := d c.left
  (result, { c with index := c.index + n })

end Cursor

end WireSchema
