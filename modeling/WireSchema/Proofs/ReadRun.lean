import WireSchema.Proofs.Decoder

/-! # Runs of reads

A reader is given operations one after another, each of them chosen after the results of those
before, with any sizes and any bytes in its buffer. `Machine` is how such an operation goes in words
of 64 bits: the index is added to and subtracted from, slices are cut out of the buffer, and a sum,
a difference or a slice that is out of range stops the machine. It never stops: each operation does
on the machine what its decoder does where the cursor stands (`ReadOp.runs`). What an operation can
do at all is said once, in `ReadOp.sound`, and a run of any length keeps the cursor in its buffer
and never moves it back (`Cursor.Reaches.safe`). -/

namespace WireSchema

/-! ### The machine -/

/-- The bytes of a buffer from one index up to another. -/
def slice (data : Bytes) (start stop : Nat) : Bytes := (data.take stop).drop start

theorem slice_add (data : Bytes) (start n : Nat) :
    slice data start (start + n) = (data.drop start).take n := by
  rw [slice, List.drop_take, Nat.add_sub_cancel_left]

/-- A slice and the slice behind it. -/
theorem slice_append {data : Bytes} {i j k : Nat} (hij : i ≤ j) (hjk : j ≤ k) :
    slice data i j ++ slice data j k = slice data i k := by
  obtain ⟨m, rfl⟩ := Nat.exists_eq_add_of_le hij
  obtain ⟨n, rfl⟩ := Nat.exists_eq_add_of_le hjk
  rw [slice_add, slice_add, Nat.add_assoc, slice_add, List.take_add, List.drop_drop]

theorem length_slice {data : Bytes} {i j : Nat} (hj : j ≤ data.length) :
    (slice data i j).length = j - i := by
  rw [slice, List.length_drop, List.length_take, Nat.min_eq_left hj]

theorem slice_ne_nil_iff {data : Bytes} {i j : Nat} :
    slice data i j ≠ [] ↔ i < j ∧ i < data.length := by
  rw [slice, Ne, List.drop_eq_nil_iff, List.length_take]
  omega

/-- A reading step on a buffer and an index into it: a result and the index behind the step, or
nothing if the machine was stopped. -/
abbrev Machine (α : Type) : Type := Bytes → Nat → Option (Except WireError α × Nat)

namespace Machine

variable {α β : Type}

/-- A difference, which must not be negative. -/
def sub? (a b : Nat) : Option Nat := if b ≤ a then some (a - b) else none

/-- A sum, which must be a word of 64 bits. -/
def add? (a b : Nat) : Option Nat := if a + b < 2 ^ 64 then some (a + b) else none

/-- A slice, which must lie in its buffer. -/
def slice? (data : Bytes) (start stop : Nat) : Option Bytes :=
  if start ≤ stop ∧ stop ≤ data.length then some (slice data start stop) else none

/-- A step that gives a value. -/
def give (a : α) : Machine α := fun _ index => some (.ok a, index)

/-- One step after another; an error ends both. -/
def andThen (x : Machine α) (f : α → Machine β) : Machine β := fun data index => do
  match ← x data index with
  | (.error e, index) => return (.error e, index)
  | (.ok a, index) => f a data index

/-- The next `n` bytes. -/
def take (n : Nat) : Machine Bytes := fun data index => do
  let available ← sub? data.length index
  if available < n then return (.error (.bufferUnderflow n available), index)
  let stop ← add? index n
  return (.ok (← slice? data index stop), stop)

/-- The next `n` bytes, copied to an array of that size. -/
def array (n : Nat) : Machine { b : Bytes // b.length = n } :=
  (take n).andThen fun b => if h : b.length = n then give ⟨b, h⟩ else fun _ _ => none

/-- An unsigned word of `width` bytes. -/
def word (width : Nat) : Machine Nat := (array width).andThen fun b => give (ofLittleEndian b.1)

/-- The next `n` bytes up to the first zero, as a text. -/
def fixedText (n : Nat) : Machine String := (take n).andThen fun b _ index => do
  let text ← slice? b 0 (b.findIdx (· == 0))
  return (.ok (Utf8.toString text), index)

/-- A byte count, and then that many bytes. -/
def prefixed (p : LengthPrefix) : Machine Bytes := (word p.width).andThen take

/-- All bytes that are left. -/
def rest : Machine Bytes := fun data index => do
  return (.ok (← slice? data index data.length), data.length)

/-- The loop over items, with those that have been read so far. An item that went back in the
buffer, and so could be read for ever, would stop the machine. -/
def itemsFrom (item : Machine α) (data : Bytes) (found : List α) (index : Nat) :
    Option (Except WireError (List α) × Nat) :=
  if data.length < index then none
  else if data.length = index then some (.ok found, index)
  else
    match item data index with
    | none => none
    | some (.error e, index') => some (.error e, index')
    | some (.ok a, index') =>
      if index' < index then none
      else if index' = index then some (.error (.emptyItem (data.length - index')), index')
      else itemsFrom item data (found ++ [a]) index'
termination_by data.length - index
decreasing_by omega

/-- Items until no bytes are left. -/
def items (item : Machine α) : Machine (List α) := fun data index => itemsFrom item data [] index

/-- A step on a span of its own, from its start. -/
def within (x : Machine α) (span : Bytes) : Machine α := fun _ index => do
  let (result, _) ← x span 0
  return (result, index)

end Machine

namespace Decoder

variable {α : Type}

theorem exactly_of_le_length {n : Nat} {s : Bytes} (h : n ≤ s.length) :
    exactly n s = (.ok ⟨s.take n, List.length_take_of_le h⟩, n) := by
  rw [exactly, dif_pos (holds_iff.2 h)]

theorem exactly_of_length_lt {n : Nat} {s : Bytes} (h : s.length < n) :
    exactly n s = (.error (.bufferUnderflow n s.length), 0) := by
  rw [exactly, dif_neg fun hh => by have := holds_iff.1 hh; omega]

/-- An array is read as its bytes are. -/
theorem map_exactly (f : Bytes → α) (n : Nat) :
    (do return f (← exactly n).1 : Decoder α) = do return f (← take n) := by
  funext s
  by_cases h : n ≤ s.length
  · rw [bind_of_ok (exactly_of_le_length h), bind_of_ok (take_of_le_length h)]
  · have h := Nat.lt_of_not_le h
    rw [bind_of_error (exactly_of_length_lt h), bind_of_error (take_of_length_lt h)]

theorem word_of_le_length {w : Nat} {s : Bytes} (h : w ≤ s.length) :
    word w s = (.ok (ofLittleEndian (s.take w)), w) := by
  rw [word, bind_of_ok (take_of_le_length h)]
  rfl

theorem word_of_length_lt {w : Nat} {s : Bytes} (h : s.length < w) :
    word w s = (.error (.bufferUnderflow w s.length), 0) := by
  rw [word, bind_of_error (take_of_length_lt h)]

/-- **All that reading a payload with its length in front can do:** the length does not fit, the
payload does not fit behind it, or both are there. -/
theorem prefixed_cases (p : LengthPrefix) (s : Bytes) :
    (s.length < p.width ∧ prefixed p s = (.error (.bufferUnderflow p.width s.length), 0)) ∨
    (p.width ≤ s.length ∧ s.length - p.width < ofLittleEndian (s.take p.width) ∧
      prefixed p s = (.error (.bufferUnderflow (ofLittleEndian (s.take p.width))
        (s.length - p.width)), p.width)) ∨
    ∃ front payload back, s = front ++ payload ++ back ∧ front.length = p.width ∧
      ofLittleEndian front = payload.length ∧
      prefixed p s = (.ok payload, p.width + payload.length) := by
  by_cases hw : p.width ≤ s.length
  · have hword := word_of_le_length hw
    have hlen : (s.drop p.width).length = s.length - p.width := List.length_drop
    right
    by_cases hn : ofLittleEndian (s.take p.width) ≤ (s.drop p.width).length
    · right
      have hpayload := List.length_take_of_le hn
      refine ⟨s.take p.width, (s.drop p.width).take (ofLittleEndian (s.take p.width)),
        (s.drop p.width).drop (ofLittleEndian (s.take p.width)), ?_, List.length_take_of_le hw,
        hpayload.symm, ?_⟩
      · rw [List.append_assoc, List.take_append_drop, List.take_append_drop]
      · rw [prefixed, bind_of_ok hword, take_of_le_length hn, hpayload]
    · left
      have hn := Nat.lt_of_not_le hn
      refine ⟨hw, by omega, ?_⟩
      rw [prefixed, bind_of_ok hword, take_of_length_lt hn, hlen]
      rfl
  · have hw := Nat.lt_of_not_le hw
    left
    exact ⟨hw, by rw [prefixed, bind_of_error (word_of_length_lt hw)]⟩

theorem length_of_prefixed {p : LengthPrefix} {s payload : Bytes} {n : Nat}
    (h : prefixed p s = (.ok payload, n)) : payload.length ≤ s.length := by
  rcases prefixed_cases p s with ⟨-, hp⟩ | ⟨-, -, hp⟩ | ⟨front, payload', back, rfl, -, -, hp⟩
  · cases hp.symm.trans h
  · cases hp.symm.trans h
  · cases hp.symm.trans h
    rw [List.length_append, List.length_append]
    omega

end Decoder

namespace Machine

variable {α β : Type}

/-! ### Steps that go as their decoders -/

/-- The machine does what the decoder does with the bytes that are left, and is never stopped; the
decoder takes no more bytes than there are. -/
structure Runs (x : Machine α) (d : Decoder α) : Prop where
  bounded : ∀ s, (d s).2 ≤ s.length
  eq : ∀ (data : Bytes) (index : Nat), index ≤ data.length → data.length < 2 ^ 64 →
    x data index = some ((d (data.drop index)).1, index + (d (data.drop index)).2)

theorem runs_give (a : α) : Runs (give a) (pure a) where
  bounded _ := Nat.zero_le _
  eq _ _ _ _ := rfl

theorem Runs.andThen {x : Machine α} {d : Decoder α} {f : α → Machine β} {g : α → Decoder β}
    (hx : Runs x d) (hf : ∀ a, Runs (f a) (g a)) : Runs (x.andThen f) (d >>= g) where
  bounded s := by
    have hd := hx.bounded s
    rcases h : d s with ⟨e | a, n⟩
    · rw [Decoder.bind_of_error h]
      rwa [h] at hd
    · rw [h] at hd
      have hg := (hf a).bounded (s.drop n)
      rw [List.length_drop] at hg
      rw [Decoder.bind_of_ok h]
      dsimp only at hd ⊢
      omega
  eq data index hi hdata := by
    have hd := hx.bounded (data.drop index)
    rw [List.length_drop] at hd
    unfold Machine.andThen
    rw [hx.eq data index hi hdata]
    rcases h : d (data.drop index) with ⟨e | a, n⟩
    · rw [Decoder.bind_of_error h]
      rfl
    · rw [h] at hd
      have hg := (hf a).eq data (index + n) (by dsimp only at hd; omega) hdata
      rw [Decoder.bind_of_ok h, List.drop_drop, ← Nat.add_assoc]
      exact hg

theorem Runs.map {x : Machine α} {d : Decoder α} (f : α → β) (hx : Runs x d) :
    Runs (x.andThen fun a => give (f a)) (do return f (← d)) := hx.andThen fun a => runs_give (f a)

theorem runs_take (n : Nat) : Runs (take n) (.take n) where
  bounded s := by
    by_cases h : n ≤ s.length
    · rw [Decoder.take_of_le_length h]
      exact h
    · rw [Decoder.take_of_length_lt (Nat.lt_of_not_le h)]
      exact Nat.zero_le _
  eq data index hi hdata := by
    have hlen : (data.drop index).length = data.length - index := List.length_drop
    have hsub : sub? data.length index = some (data.length - index) := if_pos hi
    by_cases h : n ≤ (data.drop index).length
    · have hnot : ¬ data.length - index < n := by omega
      have hadd : add? index n = some (index + n) := if_pos (by omega)
      have hslice : slice? data index (index + n) = some (slice data index (index + n)) :=
        if_pos ⟨by omega, by omega⟩
      rw [Decoder.take_of_le_length h, ← slice_add]
      simp [take, hsub, hnot, hadd, hslice]
    · have hlt : data.length - index < n := by omega
      rw [Decoder.take_of_length_lt (Nat.lt_of_not_le h), hlen]
      simp [take, hsub, hlt]

theorem runs_array (n : Nat) : Runs (array n) (.exactly n) where
  bounded s := by
    by_cases h : n ≤ s.length
    · rw [Decoder.exactly_of_le_length h]
      exact h
    · rw [Decoder.exactly_of_length_lt (Nat.lt_of_not_le h)]
      exact Nat.zero_le _
  eq data index hi hdata := by
    unfold array andThen
    rw [(runs_take n).eq data index hi hdata]
    by_cases h : n ≤ (data.drop index).length
    · have hlen : ((data.drop index).take n).length = n := List.length_take_of_le h
      rw [Decoder.take_of_le_length h, Decoder.exactly_of_le_length h]
      show (if h : _ then _ else _ : Machine _) data (index + n) = _
      rw [dif_pos hlen]
      rfl
    · have h := Nat.lt_of_not_le h
      rw [Decoder.take_of_length_lt h, Decoder.exactly_of_length_lt h]
      rfl

theorem runs_word (w : Nat) : Runs (word w) (.word w) := by
  have hword : Decoder.word w = (do return ofLittleEndian (← Decoder.exactly w).1) :=
    (Decoder.map_exactly ofLittleEndian w).symm
  rw [hword]
  exact (runs_array w).map fun b => ofLittleEndian b.1

/-- The bytes in front of the first zero are a slice. -/
theorem slice?_findIdx (b : Bytes) :
    slice? b 0 (b.findIdx (· == 0)) = some (b.takeWhile (· != 0)) := by
  have htake : b.takeWhile (· != 0) = b.take (b.findIdx (· == 0)) := by
    rw [List.takeWhile_eq_take_findIdx_not]
    simp [bne]
  rw [slice?, if_pos ⟨Nat.zero_le _, List.findIdx_le_length⟩, slice, List.drop_zero, htake]

theorem runs_fixedText (n : Nat) : Runs (fixedText n) (.fixedText n) := by
  refine (runs_take n).andThen fun b => ⟨fun _ => Nat.zero_le _, fun data index _ _ => ?_⟩
  rw [slice?_findIdx]
  rfl

theorem runs_prefixed (p : LengthPrefix) : Runs (prefixed p) (.prefixed p) :=
  (runs_word p.width).andThen runs_take

theorem runs_rest : Runs rest .rest where
  bounded _ := Nat.le_refl _
  eq data index hi hdata := by
    have hslice : slice? data index data.length = some (data.drop index) := by
      rw [slice?, if_pos ⟨hi, Nat.le_refl _⟩, slice, List.take_length]
    have hindex : index + (data.drop index).length = data.length := by
      rw [List.length_drop]
      omega
    unfold rest Decoder.rest
    rw [hslice, hindex]
    rfl

/-! ### Items -/

section Items

variable {x : Machine α} {d : Decoder α}

theorem items_bounded (hx : Runs x d) (s : Bytes) : (Decoder.items d s).2 ≤ s.length := by
  fun_induction Decoder.items d s with
  | case1 => exact Nat.zero_le _
  | case2 b s e n h =>
    have := hx.bounded (b :: s)
    rwa [h] at this
  | case3 => exact Nat.zero_le _
  | case4 b s a n h _ m hrest ih | case5 b s a n h _ m hrest ih =>
    have := hx.bounded (b :: s)
    rw [h, List.length_cons] at this
    rw [hrest, List.length_drop] at ih
    rw [List.length_cons]
    dsimp only at this ih ⊢
    omega

/-- **The loop over items reads what the decoder reads.** The induction is on the number of bytes
that are left, which each item makes smaller. -/
theorem itemsFrom_eq (hx : Runs x d) {data : Bytes} (hdata : data.length < 2 ^ 64)
    (found : List α) (index : Nat) (hi : index ≤ data.length) :
    itemsFrom x data found index =
      some ((Decoder.items d (data.drop index)).1.map (found ++ ·),
        index + (Decoder.items d (data.drop index)).2) := by
  induction hleft : data.length - index using Nat.strong_induction_on generalizing found index with
  | _ left ih =>
    have hrun := hx.eq data index hi hdata
    have hbound := hx.bounded (data.drop index)
    have hlen : (data.drop index).length = left := by rw [List.length_drop, hleft]
    rw [itemsFrom, if_neg (Nat.not_lt.2 hi)]
    cases hs : data.drop index with
    | nil =>
      rw [hs, List.length_nil] at hlen
      rw [if_pos (by omega)]
      simp [Decoder.items, Except.map]
    | cons b s =>
      rw [hs] at hrun hbound hlen
      rw [List.length_cons] at hbound hlen
      rw [if_neg (by omega), hrun]
      rcases hd : d (b :: s) with ⟨e | a, n⟩
      · simp [hd, Decoder.items, Except.map]
      · rw [hd] at hbound
        dsimp only at hbound ⊢
        rw [if_neg (by omega)]
        cases n with
        | zero => simp [hd, Decoder.items, Except.map, ← hlen, hleft]
        | succ n =>
          have hdrop : data.drop (index + (n + 1)) = s.drop n := by
            rw [← List.drop_drop, hs, List.drop_succ_cons]
          have hnext := ih (data.length - (index + (n + 1))) (by omega) (found ++ [a])
            (index + (n + 1)) (by omega) rfl
          rw [if_neg (by omega), hnext, hdrop]
          rcases hr : Decoder.items d (s.drop n) with ⟨e | as, m⟩
          · simp [hd, Decoder.items, Except.map, hr, Nat.add_assoc]
          · simp [hd, Decoder.items, Except.map, hr, Nat.add_assoc]

theorem Runs.items (hx : Runs x d) : Runs (items x) (Decoder.items d) where
  bounded := items_bounded hx
  eq data index hi hdata := by
    have h := itemsFrom_eq hx hdata [] index hi
    rw [Machine.items, h]
    cases (Decoder.items d (data.drop index)).1 <;> rfl

/-- A span is a part of the buffer, so that its indices are in range as well. -/
theorem Runs.prefixedItems (hx : Runs x d) (p : LengthPrefix) :
    Runs ((prefixed p).andThen (within (Machine.items x))) (.prefixedItems p d) where
  bounded s := by
    have hp := (runs_prefixed p).bounded s
    rcases h : Decoder.prefixed p s with ⟨e | span, n⟩
    · rw [Decoder.prefixedItems, Decoder.bind_of_error h]
      rwa [h] at hp
    · rw [Decoder.prefixedItems, Decoder.bind_of_ok h]
      rwa [h] at hp
  eq data index hi hdata := by
    have hp := (runs_prefixed p).eq data index hi hdata
    unfold Machine.andThen
    rw [hp]
    rcases h : Decoder.prefixed p (data.drop index) with ⟨e | span, n⟩
    · rw [Decoder.prefixedItems, Decoder.bind_of_error h]
      rfl
    · have hspan : span.length ≤ (data.drop index).length := Decoder.length_of_prefixed h
      rw [List.length_drop] at hspan
      have hrun := hx.items.eq span 0 (Nat.zero_le _) (by omega)
      rw [Decoder.prefixedItems, Decoder.bind_of_ok h]
      show within (Machine.items x) span data (index + n) = _
      rw [within, hrun]
      rfl

end Items

end Machine

/-! ### Operations -/

mutual

/-- An operation of a reader, by the type of its values. -/
inductive ReadOp : Type → Type 1 where
  | scalar (kind : ScalarKind) : ReadOp kind.Value
  | bytes (count : Nat) : ReadOp Bytes
  | array (size : Nat) : ReadOp { b : Bytes // b.length = size }
  | fixedText (size : Nat) : ReadOp String
  | prefixed (lengthPrefix : LengthPrefix) : ReadOp Bytes
  | prefixedText (lengthPrefix : LengthPrefix) : ReadOp String
  | rest : ReadOp Bytes
  | restText : ReadOp String
  | items {α : Type} (item : ReadProgram α) : ReadOp (List α)
  | prefixedItems {α : Type} (lengthPrefix : LengthPrefix) (item : ReadProgram α) :
    ReadOp (List α)

/-- How an item is read: by operations, each chosen after the results of those before. An operation
that fails need not be the last one, and the bytes that are left may be looked at. -/
inductive ReadProgram : Type → Type 1 where
  | done {α : Type} (result : Except WireError α) : ReadProgram α
  | look {α : Type} (next : Bytes → ReadProgram α) : ReadProgram α
  | step {α β : Type} (op : ReadOp β) (next : Except WireError β → ReadProgram α) : ReadProgram α

end

mutual

/-- What an operation reads from the bytes that are left. -/
def ReadOp.decoder : {α : Type} → ReadOp α → Decoder α
  | _, .scalar k => .scalar k
  | _, .bytes n => .take n
  | _, .array n => .exactly n
  | _, .fixedText n => .fixedText n
  | _, .prefixed p => .prefixed p
  | _, .prefixedText p => .prefixedText p
  | _, .rest => .rest
  | _, .restText => .restText
  | _, .items item => .items item.decoder
  | _, .prefixedItems p item => .prefixedItems p item.decoder

/-- What a program reads from the bytes that are left. -/
def ReadProgram.decoder : {α : Type} → ReadProgram α → Decoder α
  | _, .done result => fun _ => (result, 0)
  | _, .look next => fun s => (next s).decoder s
  | _, .step op next => fun s =>
    let (result, n) := op.decoder s
    let (result', m) := (next result).decoder (s.drop n)
    (result', n + m)

end

mutual

/-- An operation on the machine. -/
def ReadOp.machine : {α : Type} → ReadOp α → Machine α
  | _, .scalar k => (Machine.word k.width).andThen fun n => .give (k.ofWord n)
  | _, .bytes n => .take n
  | _, .array n => .array n
  | _, .fixedText n => .fixedText n
  | _, .prefixed p => .prefixed p
  | _, .prefixedText p => (Machine.prefixed p).andThen fun b => .give (Utf8.toString b)
  | _, .rest => .rest
  | _, .restText => Machine.rest.andThen fun b => .give (Utf8.toString b)
  | _, .items item => .items item.machine
  | _, .prefixedItems p item => (Machine.prefixed p).andThen (Machine.within (.items item.machine))

/-- A program on the machine. -/
def ReadProgram.machine : {α : Type} → ReadProgram α → Machine α
  | _, .done result => fun _ index => some (result, index)
  | _, .look next => fun data index => do
    let left ← Machine.slice? data index data.length
    (next left).machine data index
  | _, .step op next => fun data index => do
    let (result, index) ← op.machine data index
    (next result).machine data index

end

mutual

/-- **The machine is never stopped in an operation,** and does what the decoder does. -/
theorem ReadOp.runs : {α : Type} → (op : ReadOp α) → op.machine.Runs op.decoder
  | _, .scalar k => (Machine.runs_word k.width).map k.ofWord
  | _, .bytes n => Machine.runs_take n
  | _, .array n => Machine.runs_array n
  | _, .fixedText n => Machine.runs_fixedText n
  | _, .prefixed p => Machine.runs_prefixed p
  | _, .prefixedText p => (Machine.runs_prefixed p).map Utf8.toString
  | _, .rest => Machine.runs_rest
  | _, .restText => Machine.runs_rest.map Utf8.toString
  | _, .items item => (ReadProgram.runs item).items
  | _, .prefixedItems p item => (ReadProgram.runs item).prefixedItems p

/-- The machine is never stopped in a program. -/
theorem ReadProgram.runs : {α : Type} → (item : ReadProgram α) → item.machine.Runs item.decoder
  | _, .done result => ⟨fun _ => Nat.zero_le _, fun _ _ _ _ => rfl⟩
  | _, .look next => by
    refine ⟨fun s => (ReadProgram.runs (next s)).bounded s, fun data index hi hdata => ?_⟩
    have hleft : Machine.slice? data index data.length = some (data.drop index) := by
      rw [Machine.slice?, if_pos ⟨hi, Nat.le_refl _⟩, slice, List.take_length]
    have hnext := (ReadProgram.runs (next (data.drop index))).eq data index hi hdata
    simp only [ReadProgram.machine, hleft, ReadProgram.decoder]
    exact hnext
  | _, .step op next => by
    have hop := ReadOp.runs op
    refine ⟨fun s => ?_, fun data index hi hdata => ?_⟩
    · have h1 := hop.bounded s
      have h2 := (ReadProgram.runs (next (op.decoder s).1)).bounded (s.drop (op.decoder s).2)
      rw [List.length_drop] at h2
      rw [ReadProgram.decoder]
      dsimp only
      omega
    · have h1 := hop.bounded (data.drop index)
      rw [List.length_drop] at h1
      have h2 := (ReadProgram.runs (next (op.decoder (data.drop index)).1)).eq data
        (index + (op.decoder (data.drop index)).2) (by omega) hdata
      simp only [ReadProgram.machine, hop.eq data index hi hdata, ReadProgram.decoder,
        List.drop_drop, ← Nat.add_assoc]
      exact h2

end

/-! ### What an operation reads -/

/-- Items back to back that fill some bytes, each of them taking at least one. -/
inductive Decoder.Lists {α : Type} (d : Decoder α) : Bytes → List α → Prop where
  | nil : Lists d [] []
  | cons {front rest : Bytes} {a : α} {as : List α} (hne : front ≠ [])
      (hread : d.Reads front rest a) (hrest : Lists d rest as) : Lists d (front ++ rest) (a :: as)

/-- A payload behind its byte count. -/
def LengthPrefix.Fronts (p : LengthPrefix) (b payload : Bytes) : Prop :=
  ∃ front, front.length = p.width ∧ ofLittleEndian front = payload.length ∧ b = front ++ payload

namespace ReadOp

/-- The value that some bytes, and only these, stand for. -/
def Denotes : {α : Type} → ReadOp α → Bytes → α → Prop
  | _, .scalar k, b, v => b.length = k.width ∧ v = k.ofWord (ofLittleEndian b)
  | _, .bytes n, b, v => b.length = n ∧ v = b
  | _, .array _, b, v => v.1 = b
  | _, .fixedText n, b, v => b.length = n ∧ v = Utf8.toString (b.takeWhile (· != 0))
  | _, .prefixed p, b, v => p.Fronts b v
  | _, .prefixedText p, b, v => ∃ payload, p.Fronts b payload ∧ v = Utf8.toString payload
  | _, .rest, b, v => v = b
  | _, .restText, b, v => v = Utf8.toString b
  | _, .items item, b, vs => item.decoder.Lists b vs
  | _, .prefixedItems p item, b, vs => ∃ payload, p.Fronts b payload ∧ item.decoder.Lists payload vs

/-- The number of bytes of an operation that takes as many as it is told. -/
def width? : {α : Type} → ReadOp α → Option Nat
  | _, .scalar k => some k.width
  | _, .bytes n => some n
  | _, .array n => some n
  | _, .fixedText n => some n
  | _, _ => none

/-- The prefix of an operation that takes one payload. -/
def payloadPrefix? : {α : Type} → ReadOp α → Option LengthPrefix
  | _, .prefixed p => some p
  | _, .prefixedText p => some p
  | _, _ => none

variable {α : Type}

/-- All that an operation of a given width can do. -/
theorem width_cases (op : ReadOp α) {w : Nat} (hw : op.width? = some w) (s : Bytes) :
    (w ≤ s.length ∧ ∃ v, op.decoder s = (.ok v, w) ∧ op.Denotes (s.take w) v) ∨
      (s.length < w ∧ op.decoder s = (.error (.bufferUnderflow w s.length), 0)) := by
  by_cases hs : w ≤ s.length
  · have htake := List.length_take_of_le hs
    refine .inl ⟨hs, ?_⟩
    cases op <;> cases hw
    case scalar.refl => exact ⟨_, Decoder.bind_of_ok (Decoder.word_of_le_length hs), htake, rfl⟩
    case bytes.refl => exact ⟨_, Decoder.take_of_le_length hs, htake, rfl⟩
    case array.refl => exact ⟨_, Decoder.exactly_of_le_length hs, rfl⟩
    case fixedText.refl => exact ⟨_, Decoder.bind_of_ok (Decoder.take_of_le_length hs), htake, rfl⟩
  · have hs := Nat.lt_of_not_le hs
    refine .inr ⟨hs, ?_⟩
    cases op <;> cases hw
    case scalar.refl => exact Decoder.bind_of_error (Decoder.word_of_length_lt hs)
    case bytes.refl => exact Decoder.take_of_length_lt hs
    case array.refl => exact Decoder.exactly_of_length_lt hs
    case fixedText.refl => exact Decoder.bind_of_error (Decoder.take_of_length_lt hs)

/-- How an operation on one payload fails. -/
theorem payload_error (op : ReadOp α) {p : LengthPrefix} (hp : op.payloadPrefix? = some p)
    {s : Bytes} {e : WireError} {n : Nat} (h : op.decoder s = (.error e, n)) :
    (s.length < p.width ∧ n = 0 ∧ e = .bufferUnderflow p.width s.length) ∨
    (p.width ≤ s.length ∧ n = p.width ∧ s.length - p.width < ofLittleEndian (s.take p.width) ∧
      e = .bufferUnderflow (ofLittleEndian (s.take p.width)) (s.length - p.width)) := by
  have hread : Decoder.prefixed p s = (.error e, n) := by
    cases op <;> cases hp
    case prefixed.refl => exact h
    case prefixedText.refl =>
      rcases hread : Decoder.prefixed p s with ⟨e' | b, m⟩
      · cases (Decoder.bind_of_error hread).symm.trans h
        rfl
      · cases (Decoder.bind_of_ok hread).symm.trans h
  rcases Decoder.prefixed_cases p s with ⟨hs, hp⟩ | ⟨hs, hn, hp⟩ | ⟨front, b, back, -, -, -, hp⟩
  · cases hp.symm.trans hread
    exact .inl ⟨hs, rfl, rfl⟩
  · cases hp.symm.trans hread
    exact .inr ⟨hs, rfl, hn, rfl⟩
  · cases hp.symm.trans hread

end ReadOp

/-- A payload that was read stands behind its byte count. -/
theorem Decoder.fronts_of_prefixed {p : LengthPrefix} {s payload : Bytes} {n : Nat}
    (h : Decoder.prefixed p s = (.ok payload, n)) : p.Fronts (s.take n) payload := by
  rcases Decoder.prefixed_cases p s with
    ⟨-, hp⟩ | ⟨-, -, hp⟩ | ⟨front, payload', back, rfl, hfront, hlen, hp⟩
  · cases hp.symm.trans h
  · cases hp.symm.trans h
  · cases hp.symm.trans h
    refine ⟨front, hfront, hlen, ?_⟩
    rw [← hfront, ← List.length_append, List.take_left]

/-- The items that were read fill the bytes, and leave none. -/
theorem Decoder.lists_of_items {α : Type} {d : Decoder α} (hd : ∀ s, (d s).2 ≤ s.length)
    {s : Bytes} {as : List α} {n : Nat} (h : Decoder.items d s = (.ok as, n)) :
    n = s.length ∧ d.Lists s as := by
  fun_induction Decoder.items d s generalizing as n with
  | case1 =>
    cases h
    exact ⟨rfl, .nil⟩
  | case2 => cases h
  | case3 => cases h
  | case4 => cases h
  | case5 b s a k hitem as m hrest ih =>
    cases h
    obtain ⟨hm, hlists⟩ := ih hrest
    have hk := hd (b :: s)
    rw [hitem] at hk
    have hfront : (b :: s.take k).length = k + 1 := by
      rw [List.length_cons, List.length_take_of_le (Nat.le_of_succ_le_succ hk)]
    have hsplit : b :: s = (b :: s.take k) ++ s.drop k := by
      rw [List.cons_append, List.take_append_drop]
    refine ⟨?_, ?_⟩
    · rw [hm, hsplit, List.length_append, hfront]
    · rw [hsplit]
      refine .cons (List.cons_ne_nil _ _) ?_ hlists
      rw [Decoder.Reads, ← hsplit, hitem, hfront]

namespace ReadOp

variable {α : Type}

/-- **A value that was read is what the bytes that were taken stand for.** -/
theorem denotes (op : ReadOp α) {s : Bytes} {v : α} {n : Nat} (h : op.decoder s = (.ok v, n)) :
    op.Denotes (s.take n) v := by
  -- Where the operation is told its width there is one case for all.
  have hwidth {w : Nat} (hw : op.width? = some w) : op.Denotes (s.take n) v := by
    rcases op.width_cases hw s with ⟨-, v', hv', hden⟩ | ⟨-, herr⟩
    · cases hv'.symm.trans h
      exact hden
    · cases herr.symm.trans h
  cases op with
  | scalar k => exact hwidth rfl
  | bytes => exact hwidth rfl
  | array => exact hwidth rfl
  | fixedText => exact hwidth rfl
  | prefixed p => exact Decoder.fronts_of_prefixed h
  | prefixedText p =>
    rcases hread : Decoder.prefixed p s with ⟨e | b, m⟩
    · cases (Decoder.bind_of_error hread).symm.trans h
    · cases (Decoder.bind_of_ok hread).symm.trans h
      exact ⟨b, Decoder.fronts_of_prefixed hread, rfl⟩
  | rest =>
    cases h
    exact s.take_length.symm
  | restText =>
    cases h
    exact congrArg Utf8.toString s.take_length.symm
  | items item =>
    obtain ⟨rfl, hlists⟩ := Decoder.lists_of_items item.runs.bounded h
    rw [List.take_length]
    exact hlists
  | prefixedItems p item =>
    rcases hread : Decoder.prefixed p s with ⟨e | b, m⟩
    · cases (Decoder.bind_of_error hread).symm.trans h
    · have hitems := (Decoder.bind_of_ok hread).symm.trans h
      obtain ⟨hvs, rfl⟩ := Prod.mk.inj hitems
      exact ⟨b, Decoder.fronts_of_prefixed hread,
        (Decoder.lists_of_items item.runs.bounded (Prod.ext hvs rfl)).2⟩

/-! ### Safety -/

/-- A step from one index of a buffer to another is sound: it moves forward and stays in the buffer,
a value is that of the bytes in between, and a failure is one of too few bytes with their number. -/
structure Sound (op : ReadOp α) (data : Bytes) (i : Nat) (result : Except WireError α) (j : Nat) :
    Prop where
  forward : i ≤ j
  inBounds : j ≤ data.length
  value : ∀ v, result = .ok v → op.Denotes (slice data i j) v
  tooShort : ∀ w e, op.width? = some w → result = .error e →
    j = i ∧ data.length - i < w ∧ e = .bufferUnderflow w (data.length - i)
  payloadTooShort : ∀ p e, op.payloadPrefix? = some p → result = .error e →
    (data.length - i < p.width ∧ j = i ∧ e = .bufferUnderflow p.width (data.length - i)) ∨
    (p.width ≤ data.length - i ∧ j = i + p.width ∧
      data.length - j < ofLittleEndian (slice data i j) ∧
      e = .bufferUnderflow (ofLittleEndian (slice data i j)) (data.length - j))

theorem sound (op : ReadOp α) {data : Bytes} {i n : Nat} {result : Except WireError α}
    (hi : i ≤ data.length) (h : op.decoder (data.drop i) = (result, n)) :
    op.Sound data i result (i + n) := by
  have hlen : (data.drop i).length = data.length - i := List.length_drop
  have hn : n ≤ data.length - i := by
    have hbound := op.runs.bounded (data.drop i)
    rwa [h, hlen] at hbound
  constructor
  case forward => exact Nat.le_add_right _ _
  case inBounds => omega
  case value =>
    rintro v rfl
    rw [slice_add]
    exact op.denotes h
  case tooShort =>
    rintro w e hw rfl
    rcases op.width_cases hw (data.drop i) with ⟨-, v, hv, -⟩ | ⟨hs, herr⟩
    · cases hv.symm.trans h
    · cases herr.symm.trans h
      rw [hlen] at hs ⊢
      exact ⟨rfl, hs, rfl⟩
  case payloadTooShort =>
    rintro p e hp rfl
    rcases op.payload_error hp h with ⟨hs, rfl, rfl⟩ | ⟨hs, rfl, hlt, rfl⟩
    · rw [hlen] at hs ⊢
      exact .inl ⟨hs, rfl, rfl⟩
    · rw [hlen] at hs hlt ⊢
      rw [slice_add, ← Nat.sub_sub]
      exact .inr ⟨hs, rfl, hlt, rfl⟩

end ReadOp

namespace Cursor

/-- A cursor is reached from another by operations one after another. What they have given is not
asked: after a failure the run goes on. -/
inductive Reaches : Cursor → Cursor → Prop where
  | refl (c : Cursor) : Reaches c c
  | step {α : Type} {c c' : Cursor} (hrun : Reaches c c') (op : ReadOp α) :
    Reaches c (c'.read op.decoder).2

/-- The cursor stands in its buffer. -/
def InBounds (c : Cursor) : Prop := c.index ≤ c.data.length

/-- One operation keeps the buffer, does not go back and stays in the buffer. -/
theorem InBounds.read {α : Type} {c : Cursor} (hc : c.InBounds) (op : ReadOp α) :
    (c.read op.decoder).2.data = c.data ∧ c.index ≤ (c.read op.decoder).2.index ∧
      (c.read op.decoder).2.InBounds :=
  have h := op.sound hc rfl
  ⟨rfl, h.forward, h.inBounds⟩

/-- A run keeps the buffer, does not go back and stays in the buffer. -/
theorem Reaches.safe {c c' : Cursor} (h : c.Reaches c') (hc : c.InBounds) :
    c'.data = c.data ∧ c.index ≤ c'.index ∧ c'.InBounds := by
  induction h with
  | refl => exact ⟨rfl, Nat.le_refl _, hc⟩
  | step hrun op ih =>
    obtain ⟨hdata, hle, hin⟩ := ih hc
    obtain ⟨hdata', hle', hin'⟩ := hin.read op
    exact ⟨hdata'.trans hdata, hle.trans hle', hin'⟩

/-- **Reading is safe.** Whatever has been read from a buffer, with or without success, the cursor
is in the buffer and not behind where it was before; and whatever is read next, the step is sound,
and in a buffer that a machine can hold no index and no slice goes out of range. -/
theorem read_sound_of_reaches (data : Bytes) {c c' : Cursor} (hc : (ofBytes data).Reaches c)
    (hc' : c.Reaches c') :
    c'.data = data ∧ c.index ≤ c'.index ∧ c'.index ≤ data.length ∧
      ∀ {α : Type} (op : ReadOp α), ∃ result j,
        c'.read op.decoder = (result, ⟨data, j⟩) ∧ op.Sound data c'.index result j ∧
        (data.length < 2 ^ 64 → op.machine data c'.index = some (result, j)) := by
  obtain ⟨hd, -, hin⟩ := hc.safe (Nat.zero_le _)
  obtain ⟨hd', hle, hin'⟩ := hc'.safe hin
  have hbuffer : c'.data = data := hd'.trans hd
  have hindex : c'.index ≤ data.length := hbuffer ▸ hin'
  refine ⟨hbuffer, hle, hindex, fun op => ⟨_, _, ?_, op.sound hindex rfl,
    op.runs.eq data c'.index hindex⟩⟩
  rw [Cursor.read, left, hbuffer]

/-- A byte, a payload of 2 ^ 64 - 1 bytes that is not there, and then two bytes. -/
theorem read_sound_of_reaches_huge :
    let data : Bytes := 7 :: List.replicate 8 255 ++ [1, 2]
    let c := ((ofBytes data).read (ReadOp.scalar .uint8).decoder).2
    let c' := (c.read (ReadOp.prefixed .uint64).decoder).2
    (ofBytes data).Reaches c ∧ c.Reaches c' ∧ c.index = 1 ∧ c'.index = 9 ∧ data.length < 2 ^ 64 ∧
      ∃ result j, c'.read (ReadOp.bytes 2).decoder = (result, ⟨data, j⟩) ∧
        (ReadOp.bytes 2).Sound data c'.index result j ∧
        (ReadOp.bytes 2).machine data c'.index = some (result, j) := by
  intro data c c'
  have hc : (ofBytes data).Reaches c := .step (.refl _) _
  have hc' : c.Reaches c' := .step (.refl _) _
  have hdata : data.length < 2 ^ 64 := by decide +kernel
  obtain ⟨-, -, -, hop⟩ := read_sound_of_reaches data hc hc'
  obtain ⟨result, j, hread, hsound, hmachine⟩ := hop (.bytes 2)
  exact ⟨hc, hc', by decide +kernel, by decide +kernel, hdata, result, j, hread, hsound,
    hmachine hdata⟩

end Cursor

end WireSchema
