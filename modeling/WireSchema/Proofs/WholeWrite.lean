import WireSchema.Proofs.Decoder

/-! # Payloads are written whole or not at all

A write that is stopped can have appended some bytes before. A payload with its byte count in front
cannot: the length is tested before anything is written, and items go to a writer of their own,
whose bytes are the payload. So the writer is as before if the payload is too long or an item was
stopped, and else it has the count and the payload behind what was there
(`Write.prefixed_whole`). -/

namespace WireSchema.Write

variable {α : Type}

/-- Appends some bytes, and may be stopped behind them. -/
def emit (b : Bytes) (stop : Option Stop) : Write := fun w => ⟨w ++ b, stop⟩

/-- The outcome of writing a payload behind its byte count: nothing was written, or the count, of
the width of the prefix and read as the length of the payload, and the payload. -/
structure WritesWhole (w : Bytes) (p : LengthPrefix) (payload : Bytes) (outcome : Written) :
    Prop where
  unchanged : outcome.stop ≠ none → outcome.data = w
  appended : outcome.stop = none → ∃ count : Bytes, outcome.data = w ++ (count ++ payload) ∧
    count.length = p.width ∧ ofLittleEndian count = payload.length ∧
    ∀ rest, (Decoder.prefixed p).Reads (count ++ payload) rest payload

/-! ### Items -/

section Items

variable {xs : List α} {w : Bytes}

theorem items_cons_of_stop (write : α → Write) {x : α} (xs : List α)
    (h : (write x w).stop ≠ none) : items write (x :: xs) w = write x w := by
  rw [items, andThen]
  rcases hx : write x w with ⟨data, _ | s⟩
  · exact absurd (congrArg Written.stop hx) h
  · rfl

theorem items_cons_of_none (write : α → Write) {x : α} (xs : List α)
    (h : (write x w).stop = none) :
    items write (x :: xs) w = items write xs (write x w).data := by
  rw [items, andThen]
  rcases hx : write x w with ⟨data, _ | s⟩
  · rfl
  · exact absurd (h.symm.trans (congrArg Written.stop hx)) (by simp)

/-- The writing of items is stopped exactly if one of them is stopped that comes to be written. -/
theorem stop_items_iff {write : α → Write} : (items write xs w).stop ≠ none ↔
    ∃ front x back, xs = front ++ x :: back ∧ (items write front w).stop = none ∧
      (write x (items write front w).data).stop ≠ none := by
  induction xs generalizing w with
  | nil => simp [items, append]
  | cons y xs ih =>
    by_cases hy : (write y w).stop = none
    · rw [items_cons_of_none write xs hy, ih]
      constructor
      · rintro ⟨front, x, back, rfl, hfront, hx⟩
        refine ⟨y :: front, x, back, rfl, ?_, ?_⟩
        · rwa [items_cons_of_none write front hy]
        · rwa [items_cons_of_none write front hy]
      · rintro ⟨front, x, back, hxs, hfront, hx⟩
        cases front with
        | nil =>
          obtain ⟨rfl, -⟩ := List.cons.inj hxs
          rw [items, append, List.append_nil] at hx
          exact absurd hy hx
        | cons z front =>
          obtain ⟨rfl, rfl⟩ := List.cons.inj hxs
          rw [items_cons_of_none write front hy] at hfront hx
          exact ⟨front, x, back, rfl, hfront, hx⟩
    · rw [items_cons_of_stop write xs hy]
      refine ⟨fun _ => ⟨[], y, xs, rfl, rfl, ?_⟩, fun _ => hy⟩
      rwa [items, append, List.append_nil]

/-- Items that only append are stopped exactly if one of them is. -/
theorem stop_items_emit {bytes : α → Bytes} {stop : α → Option Stop} :
    (items (fun x => emit (bytes x) (stop x)) xs w).stop ≠ none ↔ ∃ x ∈ xs, stop x ≠ none := by
  rw [stop_items_iff]
  constructor
  · rintro ⟨front, x, back, rfl, -, hx⟩
    exact ⟨x, List.mem_append_right _ List.mem_cons_self, hx⟩
  · rintro ⟨x, hx, hstop⟩
    -- the first one that is stopped comes to be written
    induction xs generalizing w with
    | nil => exact absurd hx List.not_mem_nil
    | cons y xs ih =>
      by_cases hy : stop y = none
      · rcases List.mem_cons.1 hx with rfl | hx
        · exact absurd hy hstop
        obtain ⟨front, z, back, rfl, hfront, hz⟩ := ih hx (w := w ++ bytes y)
        have hcons := items_cons_of_none (fun x => emit (bytes x) (stop x)) front (w := w) hy
        exact ⟨y :: front, z, back, rfl, hcons ▸ hfront, hcons ▸ hz⟩
      · exact ⟨[], y, xs, rfl, rfl, hy⟩

/-- The bytes of items that only append are theirs one after another. -/
theorem data_items_emit {bytes : α → Bytes} {stop : α → Option Stop}
    (h : ∀ x ∈ xs, stop x = none) :
    (items (fun x => emit (bytes x) (stop x)) xs w).data = w ++ xs.flatMap bytes := by
  induction xs generalizing w with
  | nil => rfl
  | cons x xs ih =>
    obtain ⟨hx, hxs⟩ := List.forall_mem_cons.1 h
    have hcons := items_cons_of_none (fun x => emit (bytes x) (stop x)) xs (w := w) hx
    rw [hcons, ih hxs, List.flatMap_cons, ← List.append_assoc]
    rfl

end Items

/-! ### Payloads -/

/-- All that writing a payload can do: it fits, or nothing is written. -/
theorem prefixed_cases (p : LengthPrefix) (payload : Bytes) :
    (payload.length ≤ p.maxLength ∧ prefixed p payload = append (counted p payload)) ∨
    (p.maxLength < payload.length ∧
      prefixed p payload = fail (.error (.lengthOverflow payload.length p.maxLength))) := by
  unfold prefixed
  by_cases h : payload.length ≤ p.maxLength
  · exact .inl ⟨h, if_pos h⟩
  · exact .inr ⟨Nat.lt_of_not_le h, if_neg h⟩

/-- **A payload is written whole or not at all,** and is stopped exactly if it is too long. -/
theorem writesWhole_prefixed (w : Bytes) (p : LengthPrefix) (payload : Bytes) :
    ((prefixed p payload w).stop ≠ none ↔ p.maxLength < payload.length) ∧
      WritesWhole w p payload (prefixed p payload w) := by
  rcases prefixed_cases p payload with ⟨hfits, heq⟩ | ⟨hlong, heq⟩
  · have hcount := ofLittleEndian_littleEndian_of_lt (LengthPrefix.lt_of_le_maxLength hfits)
    rw [heq]
    refine ⟨⟨fun h => absurd rfl h, fun h => by omega⟩, fun h => absurd rfl h, fun _ => ?_⟩
    exact ⟨_, rfl, length_littleEndian _ _, hcount, Decoder.reads_prefixed hfits⟩
  · rw [heq]
    exact ⟨⟨fun _ => hlong, fun _ => by simp [fail]⟩, fun _ => rfl, fun h => by cases h⟩

/-- What is left of the items in a writer of their own is written as one payload. -/
theorem writesWhole_prefixedItems (w : Bytes) (p : LengthPrefix) (write : α → Write)
    (xs : List α) :
    ((prefixedItems p write xs w).stop ≠ none ↔
      (items write xs []).stop ≠ none ∨ p.maxLength < (items write xs []).data.length) ∧
    WritesWhole w p (items write xs []).data (prefixedItems p write xs w) := by
  unfold prefixedItems run
  rcases items write xs [] with ⟨payload, _ | s⟩
  · have hwhole := writesWhole_prefixed w p payload
    exact ⟨hwhole.1.trans (or_iff_right fun h => h rfl).symm, hwhole.2⟩
  · exact ⟨⟨fun _ => .inl (by simp), fun _ => by simp [Written.toExcept, after, fail]⟩,
      fun _ => rfl, fun h => by cases h⟩

/-- **Writing behind a byte count is atomic.** A payload is stopped exactly if it is longer than the
count can say. The items of a list, whatever each of them does to a writer, go to a writer of their
own, and are stopped exactly if one of them is stopped when it comes to be written, or if the bytes
in that writer are longer than the count can say; where items only append, these are their bytes one
after another. A writer is as before if the writing was stopped, and else has the count and the
payload behind its bytes. -/
theorem prefixed_whole (w : Bytes) (p : LengthPrefix) :
    (∀ payload : Bytes,
      ((prefixed p payload w).stop ≠ none ↔ p.maxLength < payload.length) ∧
        WritesWhole w p payload (prefixed p payload w)) ∧
    (∀ {α : Type} (write : α → Write) (xs : List α),
      ((prefixedItems p write xs w).stop ≠ none ↔
        (∃ front x back, xs = front ++ x :: back ∧ (items write front []).stop = none ∧
          (write x (items write front []).data).stop ≠ none) ∨
        p.maxLength < (items write xs []).data.length) ∧
      WritesWhole w p (items write xs []).data (prefixedItems p write xs w)) ∧
    ∀ {α : Type} (bytes : α → Bytes) (stop : α → Option Stop) (xs : List α),
      ((prefixedItems p (fun x => emit (bytes x) (stop x)) xs w).stop ≠ none ↔
        (∃ x ∈ xs, stop x ≠ none) ∨ p.maxLength < (xs.flatMap bytes).length) ∧
      WritesWhole w p (xs.flatMap bytes)
        (prefixedItems p (fun x => emit (bytes x) (stop x)) xs w) := by
  refine ⟨writesWhole_prefixed w p, fun write xs => ?_, fun bytes stop xs => ?_⟩
  · rw [← stop_items_iff]
    exact writesWhole_prefixedItems w p write xs
  · obtain ⟨hstop, hwhole⟩ :=
      writesWhole_prefixedItems w p (fun x => emit (bytes x) (stop x)) xs
    rw [stop_items_emit] at hstop
    by_cases hitems : ∃ x ∈ xs, stop x ≠ none
    · refine ⟨⟨fun _ => .inl hitems, fun _ => hstop.2 (.inl hitems)⟩, hwhole.unchanged, ?_⟩
      exact fun hnone => absurd hnone (hstop.2 (.inl hitems))
    · have hnone : ∀ x ∈ xs, stop x = none := fun x hx => by_contra fun h => hitems ⟨x, hx, h⟩
      rw [data_items_emit hnone, List.nil_append] at hstop hwhole
      exact ⟨hstop, hwhole⟩

end WireSchema.Write
