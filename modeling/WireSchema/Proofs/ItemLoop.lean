import WireSchema.Proofs.ReadRun

/-! # Items until nothing is left

A list of items is read in a loop: one item after another until the buffer is empty. `itemLoop` is
this loop with a bound on its turns, and `ReadsItems` is a row of items with the bytes that each of
them took. What one turn can do is said once, in `read_items_cases`. Each turn but the last takes
at least one byte, so that the loop ends, whatever an item is (`itemLoop_eq`); the items of a run
that went well divide the bytes among them, and a run stops early only at an item that fails or
takes nothing (`Cursor.read_items_partition`). -/

namespace WireSchema

/-- How an item is read: by one read of a value, or not at all. -/
inductive ItemRead : Type → Type 1 where
  | scalar (kind : ScalarKind) : ItemRead kind.Value
  | bytes (count : Nat) : ItemRead Bytes
  | fixedText (size : Nat) : ItemRead String
  | prefixed (lengthPrefix : LengthPrefix) : ItemRead Bytes
  | prefixedText (lengthPrefix : LengthPrefix) : ItemRead String
  /-- A value that takes no bytes. -/
  | nothing {α : Type} (value : α) : ItemRead α

namespace ItemRead

variable {α : Type}

/-- What is read of the bytes that are left. -/
def decoder : {α : Type} → ItemRead α → Decoder α
  | _, .scalar k => .scalar k
  | _, .bytes n => .take n
  | _, .fixedText n => .fixedText n
  | _, .prefixed p => .prefixed p
  | _, .prefixedText p => .prefixedText p
  | _, .nothing a => pure a

/-- The number of bytes of an item that can be read from any bytes, if there are as many. -/
def width? : {α : Type} → ItemRead α → Option Nat
  | _, .scalar k => some k.width
  | _, .bytes n => some n
  | _, .fixedText n => some n
  | _, _ => none

/-- An item is read by one operation, which has a width or a payload, or it takes nothing. -/
theorem decoder_cases : {α : Type} → (item : ItemRead α) →
    (∃ op : ReadOp α, item.decoder = op.decoder ∧ op.width? = item.width? ∧
      (op.width?.isSome ∨ op.payloadPrefix?.isSome)) ∨
    ∃ a, item.decoder = pure a ∧ item.width? = none
  | _, .scalar k => .inl ⟨.scalar k, rfl, rfl, .inl rfl⟩
  | _, .bytes n => .inl ⟨.bytes n, rfl, rfl, .inl rfl⟩
  | _, .fixedText n => .inl ⟨.fixedText n, rfl, rfl, .inl rfl⟩
  | _, .prefixed p => .inl ⟨.prefixed p, rfl, rfl, .inr rfl⟩
  | _, .prefixedText p => .inl ⟨.prefixedText p, rfl, rfl, .inr rfl⟩
  | _, .nothing a => .inr ⟨a, rfl, rfl⟩

/-- An item takes no more bytes than there are. -/
theorem bounded (item : ItemRead α) (s : Bytes) : (item.decoder s).2 ≤ s.length := by
  rcases item.decoder_cases with ⟨op, hop, -, -⟩ | ⟨a, ha, -⟩
  · rw [hop]
    exact op.runs.bounded s
  · rw [ha]
    exact Nat.zero_le _

/-- An item fails only if there are too few bytes. -/
theorem error_of_decoder (item : ItemRead α) {s : Bytes} {e : WireError} {n : Nat}
    (h : item.decoder s = (.error e, n)) :
    ∃ needed available, e = .bufferUnderflow needed available := by
  rcases item.decoder_cases with ⟨op, hop, -, hw | hp⟩ | ⟨a, ha, -⟩
  · obtain ⟨w, hw⟩ := Option.isSome_iff_exists.1 hw
    rw [hop] at h
    rcases op.width_cases hw s with ⟨-, v, hv, -⟩ | ⟨-, herr⟩
    · cases hv.symm.trans h
    · cases herr.symm.trans h
      exact ⟨_, _, rfl⟩
  · obtain ⟨p, hp⟩ := Option.isSome_iff_exists.1 hp
    rw [hop] at h
    rcases op.payload_error hp h with ⟨-, -, he⟩ | ⟨-, -, -, he⟩
    · exact ⟨_, _, he⟩
    · exact ⟨_, _, he⟩
  · rw [ha] at h
    cases h

/-- All that reading an item of a given width can do where a cursor stands. -/
theorem width_cases (item : ItemRead α) {k : Nat} (hk : item.width? = some k) (c : Cursor) :
    (k ≤ c.remaining ∧ ∃ a, c.read item.decoder = (.ok a, { c with index := c.index + k })) ∨
      (c.remaining < k ∧ c.read item.decoder = (.error (.bufferUnderflow k c.remaining), c)) := by
  have hlen : c.left.length = c.remaining := List.length_drop
  rcases item.decoder_cases with ⟨op, hop, hw, -⟩ | ⟨a, -, hw⟩
  · rw [← hw] at hk
    rcases op.width_cases hk c.left with ⟨hle, v, hv, -⟩ | ⟨hlt, herr⟩
    · exact .inl ⟨by omega, v, by simp [Cursor.read, hop, hv]⟩
    · exact .inr ⟨by omega, by simp [Cursor.read, hop, herr, hlen]⟩
  · cases hw.symm.trans hk

end ItemRead

namespace Cursor

variable {α : Type} {c c' : Cursor} {d : Decoder α}

/-- The loop over items, with those that have been found so far. It gives nothing if it has not
ended after the given number of turns. -/
def itemLoop (item : Decoder α) :
    (turns : Nat) → (found : List α) → Cursor → Option (Except WireError (List α) × Cursor)
  | 0, _, _ => none
  | turns + 1, found, c =>
    if c.isEmpty then some (.ok found, c)
    else
      match c.read item with
      | (.error e, c') => some (.error e, c')
      | (.ok a, c') =>
        if c'.index = c.index then some (.error (.emptyItem c'.remaining), c')
        else itemLoop item turns (found ++ [a]) c'

/-- A row of items is read from one cursor to another. With each item stand the bytes that the
cursor was moved over. -/
inductive ReadsItems (item : Decoder α) : Cursor → List (Bytes × α) → Cursor → Prop where
  | nil (c : Cursor) : ReadsItems item c [] c
  | cons {c c' c'' : Cursor} {a : α} {run : List (Bytes × α)} (hread : c.read item = (.ok a, c'))
      (hrun : ReadsItems item c' run c'') :
      ReadsItems item c ((slice c.data c.index c'.index, a) :: run) c''

/-! ### One turn -/

theorem isEmpty_iff : c.isEmpty = true ↔ c.data.length ≤ c.index := by
  rw [isEmpty, left, List.isEmpty_iff, List.drop_eq_nil_iff]

theorem isEmpty_eq_false_iff : c.isEmpty = false ↔ c.index < c.data.length := by
  rw [← Bool.not_eq_true, isEmpty_iff, Nat.not_le]

theorem length_left (c : Cursor) : c.left.length = c.remaining := List.length_drop

/-- A read keeps the buffer and does not go back. -/
theorem forward_of_read {r : Except WireError α} (h : c.read d = (r, c')) :
    c'.data = c.data ∧ c.index ≤ c'.index := by
  obtain ⟨-, rfl⟩ := Prod.mk.inj h
  exact ⟨rfl, Nat.le_add_right _ _⟩

/-- **All that one turn can do:** nothing is left, or the item fails, or it takes nothing, or it
takes some bytes and the loop goes on behind them. -/
theorem read_items_cases (d : Decoder α) (c : Cursor) :
    (c.isEmpty = true ∧ c.read (.items d) = (.ok [], c)) ∨
    (c.isEmpty = false ∧
      ((∃ e c', c.read d = (.error e, c') ∧ c.read (.items d) = (.error e, c')) ∨
      (∃ a, c.read d = (.ok a, c) ∧ c.read (.items d) = (.error (.emptyItem c.remaining), c)) ∨
      ∃ a c', c.read d = (.ok a, c') ∧ c.index < c'.index ∧
        c.read (.items d) =
          ((c'.read (.items d)).1.map (a :: ·), (c'.read (.items d)).2))) := by
  have hlen := c.length_left
  cases hleft : c.left with
  | nil =>
    refine .inl ⟨by rw [isEmpty, hleft]; rfl, ?_⟩
    simp [read, hleft, Decoder.items]
  | cons b s =>
    rw [hleft, List.length_cons] at hlen
    refine .inr ⟨by rw [isEmpty, hleft]; rfl, ?_⟩
    rcases hd : d (b :: s) with ⟨e | a, n⟩
    · refine .inl ⟨e, { c with index := c.index + n }, ?_, ?_⟩
      · simp [read, hleft, hd]
      · simp [read, hleft, hd, Decoder.items]
    · cases n with
      | zero =>
        refine .inr (.inl ⟨a, ?_, ?_⟩)
        · simp [read, hleft, hd]
        · simp [read, hleft, hd, Decoder.items, hlen]
      | succ n =>
        have hnext : Cursor.left { c with index := c.index + (n + 1) } = s.drop n := by
          rw [left, ← List.drop_drop]
          show (c.left).drop (n + 1) = _
          rw [hleft, List.drop_succ_cons]
        refine .inr (.inr ⟨a, { c with index := c.index + (n + 1) }, ?_, by simp, ?_⟩)
        · simp [read, hleft, hd]
        · rcases hs : Decoder.items d (s.drop n) with ⟨e | as, m⟩
          · simp [read, hleft, hnext, hd, Decoder.items, hs, Except.map, Nat.add_assoc]
          · simp [read, hleft, hnext, hd, Decoder.items, hs, Except.map, Nat.add_assoc]

/-! ### Rows of items -/

section Rows

variable {run : List (Bytes × α)}

namespace ReadsItems

theorem forward (h : ReadsItems d c run c') : c'.data = c.data ∧ c.index ≤ c'.index := by
  induction h with
  | nil => exact ⟨rfl, Nat.le_refl _⟩
  | cons hread _ ih =>
    obtain ⟨hdata, hle⟩ := forward_of_read hread
    exact ⟨ih.1.trans hdata, hle.trans ih.2⟩

/-- The bytes of the items, one after another, are those between the two cursors. -/
theorem flatten_eq (h : ReadsItems d c run c') :
    (run.map Prod.fst).flatten = slice c.data c.index c'.index := by
  induction h with
  | nil c =>
    rw [List.map_nil, List.flatten_nil, slice, List.drop_eq_nil_of_le (List.length_take_le _ _)]
  | cons hread hrun ih =>
    obtain ⟨hdata, hle⟩ := forward_of_read hread
    rw [List.map_cons, List.flatten_cons, ih, hdata, slice_append hle hrun.forward.2]

/-- A row of items that leaves nothing divides all bytes. -/
theorem flatten_eq_left (h : ReadsItems d c run c') (hempty : c'.isEmpty = true) :
    (run.map Prod.fst).flatten = c.left := by
  have hle := isEmpty_iff.1 hempty
  rw [h.forward.1] at hle
  rw [h.flatten_eq, slice, List.take_of_length_le hle, left]

/-- Items that take no more bytes than there are never go over the end. -/
theorem index_add_remaining (hd : ∀ s, (d s).2 ≤ s.length) (h : ReadsItems d c run c') :
    c'.index + c'.remaining = c.index + c.remaining := by
  induction h with
  | nil => rfl
  | @cons c c₁ c₂ a run hread _ ih =>
    have hle := hd c.left
    rw [c.length_left] at hle
    obtain ⟨-, rfl⟩ := Prod.mk.inj hread
    rw [remaining] at hle
    rw [ih, remaining, remaining]
    dsimp only
    omega

/-- **Behind a row of items, each of which takes some bytes, the loop goes on.** -/
theorem read_items (h : ReadsItems d c run c') (hne : ∀ x ∈ run, x.1 ≠ []) :
    c.read (.items d) =
      ((c'.read (.items d)).1.map (run.map Prod.snd ++ ·), (c'.read (.items d)).2) := by
  induction h with
  | nil c =>
    rcases c.read (.items d) with ⟨e | as, c'⟩
    · rfl
    · rfl
  | @cons c c₁ c₂ a run hread hrun ih =>
    obtain ⟨hfront, hne⟩ := List.forall_mem_cons.1 hne
    obtain ⟨hlt, hdata⟩ := slice_ne_nil_iff.1 hfront
    have hnot := isEmpty_eq_false_iff.2 hdata
    rcases read_items_cases d c with
      ⟨hempty, -⟩ | ⟨-, ⟨e, c', herr, -⟩ | ⟨b, hnone, -⟩ | ⟨b, c', hb, -, hitems⟩⟩
    · rw [hnot] at hempty
      cases hempty
    · cases herr.symm.trans hread
    · cases hnone.symm.trans hread
      exact absurd hlt (Nat.lt_irrefl _)
    · cases hb.symm.trans hread
      rw [hitems, ih hne]
      cases (c₂.read (.items d)).1 <;> rfl

end ReadsItems

/-- **Every run of the loop is a row of items up to its end:** the end of the buffer, an item that
takes nothing, or one that fails. The induction is on the number of bytes that are left. -/
theorem exists_readsItems (d : Decoder α) (c : Cursor) :
    ∃ run c', ReadsItems d c run c' ∧ (∀ x ∈ run, x.1 ≠ []) ∧
      ((c'.isEmpty = true ∧ c.read (.items d) = (.ok (run.map Prod.snd), c')) ∨
      (c'.isEmpty = false ∧
        ((∃ a, c'.read d = (.ok a, c') ∧
          c.read (.items d) = (.error (.emptyItem c'.remaining), c')) ∨
        ∃ e c'', c'.read d = (.error e, c'') ∧ c.read (.items d) = (.error e, c'')))) := by
  induction hn : c.remaining using Nat.strong_induction_on generalizing c with
  | _ n ih =>
    rcases read_items_cases d c with ⟨hempty, hitems⟩ |
      ⟨hnot, ⟨e, c', herr, hitems⟩ | ⟨a, hnone, hitems⟩ | ⟨a, c', ha, hlt, hitems⟩⟩
    · exact ⟨[], c, .nil c, by simp, .inl ⟨hempty, hitems⟩⟩
    · exact ⟨[], c, .nil c, by simp, .inr ⟨hnot, .inr ⟨e, c', herr, hitems⟩⟩⟩
    · exact ⟨[], c, .nil c, by simp, .inr ⟨hnot, .inl ⟨a, hnone, hitems⟩⟩⟩
    · have hdata := isEmpty_eq_false_iff.1 hnot
      have hsmaller : c'.remaining < n := by
        rw [← hn, remaining, remaining, (forward_of_read ha).1]
        omega
      obtain ⟨run, c'', hrun, hne, hend⟩ := ih _ hsmaller c' rfl
      refine ⟨_, c'', .cons ha hrun, List.forall_mem_cons.2 ⟨?_, hne⟩, ?_⟩
      · exact slice_ne_nil_iff.2 ⟨hlt, hdata⟩
      rcases hend with ⟨hempty, hend⟩ | ⟨hnot, ⟨b, hb, hend⟩ | ⟨e, c₁, herr, hend⟩⟩
      · exact .inl ⟨hempty, by rw [hitems, hend]; rfl⟩
      · exact .inr ⟨hnot, .inl ⟨b, hb, by rw [hitems, hend]; rfl⟩⟩
      · exact .inr ⟨hnot, .inr ⟨e, c₁, herr, by rw [hitems, hend]; rfl⟩⟩

/-- The loop goes well exactly if a row of items leaves nothing. -/
theorem read_items_eq_ok_iff {as : List α} : c.read (.items d) = (.ok as, c') ↔
    ∃ run, ReadsItems d c run c' ∧ run.map Prod.snd = as ∧ (∀ x ∈ run, x.1 ≠ []) ∧
      c'.isEmpty = true := by
  constructor
  · intro h
    obtain ⟨run, c₁, hrun, hne, ⟨hempty, hend⟩ | ⟨-, ⟨a, -, hend⟩ | ⟨e, c₂, -, hend⟩⟩⟩ :=
      exists_readsItems d c
    · cases hend.symm.trans h
      exact ⟨run, hrun, rfl, hne, hempty⟩
    · cases hend.symm.trans h
    · cases hend.symm.trans h
  · rintro ⟨run, hrun, rfl, hne, hempty⟩
    rcases read_items_cases d c' with ⟨-, hitems⟩ | ⟨hnot, -⟩
    · rw [hrun.read_items hne, hitems]
      simp [Except.map]
    · rw [hempty] at hnot
      cases hnot

/-- Where no item fails as an empty one itself, the loop fails so exactly if a row of items leads to
an item that takes nothing. -/
theorem read_items_eq_emptyItem_iff (hd : ∀ s n m, d s ≠ (.error (.emptyItem n), m)) {n : Nat} :
    c.read (.items d) = (.error (.emptyItem n), c') ↔
      ∃ run a, ReadsItems d c run c' ∧ (∀ x ∈ run, x.1 ≠ []) ∧ c'.isEmpty = false ∧
        c'.read d = (.ok a, c') ∧ n = c'.remaining := by
  constructor
  · intro h
    obtain ⟨run, c₁, hrun, hne, ⟨-, hend⟩ | ⟨hnot, ⟨a, ha, hend⟩ | ⟨e, c₂, herr, hend⟩⟩⟩ :=
      exists_readsItems d c
    · cases hend.symm.trans h
    · cases hend.symm.trans h
      exact ⟨run, a, hrun, hne, hnot, ha, rfl⟩
    · cases hend.symm.trans h
      have hitem : d c₁.left = (.error (.emptyItem n), (d c₁.left).2) :=
        Prod.ext (Prod.mk.inj herr).1 rfl
      exact absurd hitem (hd c₁.left n _)
  · rintro ⟨run, a, hrun, hne, hnot, ha, rfl⟩
    rw [hrun.read_items hne]
    rcases read_items_cases d c' with
      ⟨hempty, -⟩ | ⟨-, ⟨e, c₁, herr, -⟩ | ⟨b, -, hitems⟩ | ⟨b, c₁, hb, hlt, -⟩⟩
    · rw [hnot] at hempty
      cases hempty
    · cases herr.symm.trans ha
    · rw [hitems]
      rfl
    · cases hb.symm.trans ha
      exact absurd hlt (Nat.lt_irrefl _)

/-- **The loop ends** after no more turns than there are bytes and one, and gives what the decoder
reads. -/
theorem itemLoop_eq (d : Decoder α) {turns : Nat} (found : List α) (c : Cursor)
    (hturns : c.remaining < turns) :
    itemLoop d turns found c =
      some ((c.read (.items d)).1.map (found ++ ·), (c.read (.items d)).2) := by
  induction turns generalizing found c with
  | zero => cases hturns
  | succ turns ih =>
    rw [itemLoop]
    rcases read_items_cases d c with ⟨hempty, hitems⟩ |
      ⟨hnot, ⟨e, c', herr, hitems⟩ | ⟨a, hnone, hitems⟩ | ⟨a, c', ha, hlt, hitems⟩⟩
    · rw [if_pos hempty, hitems]
      simp [Except.map]
    · rw [if_neg (by simp [hnot]), herr, hitems]
      rfl
    · rw [if_neg (by simp [hnot]), hnone, hitems]
      exact if_pos rfl
    · have hdata := isEmpty_eq_false_iff.1 hnot
      have hsmaller : c'.remaining < turns := by
        rw [remaining] at hturns ⊢
        rw [(forward_of_read ha).1]
        omega
      rw [if_neg (by simp [hnot]), ha, hitems]
      dsimp only
      rw [if_neg (by omega), ih (found ++ [a]) c' hsmaller]
      cases (c'.read (.items d)).1 <;> simp [Except.map]

end Rows

/-! ### Items of one width, and items in a span -/

/-- Items of `k` bytes: as many as there are room for, and no bytes may be left behind the last. The
induction is on their number. -/
theorem read_items_of_width (item : ItemRead α) {k : Nat} (hk : item.width? = some k)
    {q rest : Nat} (hrest : rest < k) (c : Cursor) (hc : c.remaining = q * k + rest) :
    (rest = 0 → ∃ as, as.length = q ∧ (c.read (.items item.decoder)).1 = .ok as) ∧
      (0 < rest → (c.read (.items item.decoder)).1 = .error (.bufferUnderflow k rest)) := by
  induction q generalizing c with
  | zero =>
    rw [Nat.zero_mul, Nat.zero_add] at hc
    rcases read_items_cases item.decoder c with
      ⟨hempty, hitems⟩ | ⟨hnot, ⟨e, c', herr, hitems⟩ | ⟨a, hnone, hitems⟩ | ⟨a, c', ha, -, -⟩⟩
    · have hle := isEmpty_iff.1 hempty
      rw [remaining] at hc
      exact ⟨fun _ => ⟨[], rfl, by rw [hitems]⟩, fun h => by omega⟩
    all_goals
      have hlt := isEmpty_eq_false_iff.1 hnot
      rcases item.width_cases hk c with ⟨hle, -⟩ | ⟨-, hshort⟩
      · omega
    · cases hshort.symm.trans herr
      rw [remaining] at hc
      refine ⟨fun h => by omega, fun _ => ?_⟩
      rw [hitems, remaining, hc]
    · cases hshort.symm.trans hnone
    · cases hshort.symm.trans ha
  | succ q ih =>
    rw [Nat.succ_mul] at hc
    rcases item.width_cases hk c with ⟨hle, a, ha⟩ | ⟨hlt, -⟩
    swap
    · omega
    have hnot : c.isEmpty = false := isEmpty_eq_false_iff.2 (by rw [remaining] at hc; omega)
    have hnext : remaining { c with index := c.index + k } = q * k + rest := by
      rw [remaining] at hc ⊢
      dsimp only
      omega
    obtain ⟨hwhole, hpart⟩ := ih _ hnext
    rcases read_items_cases item.decoder c with
      ⟨hempty, -⟩ | ⟨-, ⟨e, c', herr, -⟩ | ⟨b, hnone, -⟩ | ⟨b, c', hb, -, hitems⟩⟩
    · rw [hnot] at hempty
      cases hempty
    · cases herr.symm.trans ha
    · have hindex := congrArg Cursor.index (Prod.mk.inj (hnone.symm.trans ha)).2
      dsimp only at hindex
      omega
    · cases hb.symm.trans ha
      rw [hitems]
      refine ⟨fun h => ?_, fun h => ?_⟩
      · obtain ⟨as, hlen, has⟩ := hwhole h
        exact ⟨a :: as, by rw [List.length_cons, hlen], by rw [has]; rfl⟩
      · rw [hpart h]
        rfl

/-- The reading of a span fails: its byte count does not fit, and the cursor stays, or the span does
not fit behind the count, and the cursor stands between them. -/
inductive SpanFails (p : LengthPrefix) (c : Cursor) : WireError → Cursor → Prop where
  | count (h : c.remaining < p.width) : SpanFails p c (.bufferUnderflow p.width c.remaining) c
  | span {n : Nat} (hn : n = ofLittleEndian (c.left.take p.width)) (h : p.width ≤ c.remaining)
      (hshort : c.remaining - p.width < n) :
      SpanFails p c (.bufferUnderflow n (c.remaining - p.width))
        { c with index := c.index + p.width }

/-- **Items in a span** are read as from a buffer of their own, and the cursor is then behind the
span, whether the items could be read or not. If there is no span, its reading fails. -/
theorem read_prefixedItems_cases (d : Decoder α) (p : LengthPrefix) (c : Cursor) :
    (∃ e c', SpanFails p c e c' ∧ c.read (.prefixed p) = (.error e, c') ∧
      c.read (.prefixedItems p d) = (.error e, c')) ∨
    ∃ front span rest, c.left = front ++ span ++ rest ∧ front.length = p.width ∧
      ofLittleEndian front = span.length ∧
      c.read (.prefixedItems p d) =
        (((ofBytes span).read (.items d)).1,
          { c with index := c.index + (front ++ span).length }) := by
  have hfail : ∀ e n, Decoder.prefixed p c.left = (.error e, n) →
      c.read (.prefixed p) = (.error e, { c with index := c.index + n }) ∧
        c.read (.prefixedItems p d) = (.error e, { c with index := c.index + n }) := by
    intro e n hp
    constructor
    · rw [read, hp]
    · rw [read, Decoder.prefixedItems, Decoder.bind_of_error hp]
  rcases Decoder.prefixed_cases p c.left with
    ⟨hlt, hp⟩ | ⟨hle, hlt, hp⟩ | ⟨front, span, rest, hleft, hfront, hlen, hp⟩
  · rw [c.length_left] at hlt hp
    exact .inl ⟨_, c, .count hlt, hfail _ _ hp⟩
  · rw [c.length_left] at hle hlt hp
    exact .inl ⟨_, _, .span rfl hle hlt, hfail _ _ hp⟩
  · refine .inr ⟨front, span, rest, hleft, hfront, hlen, ?_⟩
    rw [read, Decoder.prefixedItems, Decoder.bind_of_ok hp, List.length_append, hfront]
    rfl

/-- **Items divide the bytes among them.** The loop over items ends. It goes well exactly if a row
of items, each of some bytes, leaves nothing; these bytes are then all that were left, and the
cursor stands at their end. It stops at an empty item exactly if a row of items, each of some bytes,
leads to an item that takes nothing while bytes are left, and tells their number. Items of one width
fill the buffer if their width divides what is left, and else the last one is cut. Items in a span
do the same there, and leave the cursor behind the span in any case; the reading fails before if the
byte count or the span does not fit. -/
theorem read_items_partition (item : ItemRead α) (c : Cursor) :
    itemLoop item.decoder (c.remaining + 1) [] c = some (c.read (.items item.decoder)) ∧
    (∀ as c', c.read (.items item.decoder) = (.ok as, c') ↔
      ∃ run, c.ReadsItems item.decoder run c' ∧ run.map Prod.snd = as ∧ (∀ x ∈ run, x.1 ≠ []) ∧
        (run.map Prod.fst).flatten = c.left ∧ c'.isEmpty = true ∧
        c'.index = c.index + c.remaining) ∧
    (∀ n c', c.read (.items item.decoder) = (.error (.emptyItem n), c') ↔
      ∃ run a, c.ReadsItems item.decoder run c' ∧ (∀ x ∈ run, x.1 ≠ []) ∧ c'.isEmpty = false ∧
        c'.read item.decoder = (.ok a, c') ∧ n = c'.remaining) ∧
    (∀ k, item.width? = some k → 1 ≤ k →
      (k ∣ c.remaining →
        ∃ as, (c.read (.items item.decoder)).1 = .ok as ∧ as.length = c.remaining / k) ∧
      (¬ k ∣ c.remaining → (c.read (.items item.decoder)).1 =
        .error (.bufferUnderflow k (c.remaining % k)))) ∧
    ∀ p,
      (∃ e c', SpanFails p c e c' ∧ c.read (.prefixed p) = (.error e, c') ∧
        c.read (.prefixedItems p item.decoder) = (.error e, c')) ∨
      ∃ front span rest, c.left = front ++ span ++ rest ∧ front.length = p.width ∧
        ofLittleEndian front = span.length ∧
        c.read (.prefixedItems p item.decoder) =
          (((ofBytes span).read (.items item.decoder)).1,
            { c with index := c.index + (front ++ span).length }) := by
  have hloop := itemLoop_eq item.decoder [] c (Nat.lt_succ_self c.remaining)
  have hempty : ∀ s n m, item.decoder s ≠ (.error (.emptyItem n), m) := by
    intro s n m h
    obtain ⟨needed, available, he⟩ := item.error_of_decoder h
    cases he
  refine ⟨?_, fun as c' => ?_, fun n c' => read_items_eq_emptyItem_iff hempty, fun k hk hpos => ?_,
    fun p => read_prefixedItems_cases item.decoder p c⟩
  · rw [hloop]
    rcases c.read (.items item.decoder) with ⟨e | as, c'⟩
    · rfl
    · rfl
  · rw [read_items_eq_ok_iff]
    constructor
    · rintro ⟨run, hrun, has, hne, hend⟩
      have hsum := hrun.index_add_remaining item.bounded
      have hnone : c'.remaining = 0 := Nat.sub_eq_zero_of_le (isEmpty_iff.1 hend)
      exact ⟨run, hrun, has, hne, hrun.flatten_eq_left hend, hend, by omega⟩
    · rintro ⟨run, hrun, has, hne, -, hend, -⟩
      exact ⟨run, hrun, has, hne, hend⟩
  · have hsplit : c.remaining = c.remaining / k * k + c.remaining % k :=
      (Nat.div_add_mod' c.remaining k).symm
    obtain ⟨hwhole, hpart⟩ := read_items_of_width item hk (Nat.mod_lt _ hpos) c hsplit
    constructor
    · intro hdvd
      obtain ⟨as, hlen, has⟩ := hwhole (Nat.mod_eq_zero_of_dvd hdvd)
      exact ⟨as, has, hlen⟩
    · intro hdvd
      exact hpart (Nat.pos_of_ne_zero fun h => hdvd (Nat.dvd_of_mod_eq_zero h))

/-- Of five bytes two words can be read, and one byte is left over; of four there are just two. -/
theorem read_items_partition_words :
    let item : ItemRead UInt16 := .scalar .uint16
    item.width? = some 2 ∧ ¬ 2 ∣ (ofBytes [1, 0, 2, 0, 3]).remaining ∧
      ((ofBytes [1, 0, 2, 0, 3]).read (.items item.decoder)).1 = .error (.bufferUnderflow 2 1) ∧
      2 ∣ (ofBytes [1, 0, 2, 0]).remaining ∧
      ∃ as, ((ofBytes [1, 0, 2, 0]).read (.items item.decoder)).1 = .ok as ∧ as.length = 2 := by
  intro item
  have hcut : ¬ 2 ∣ (ofBytes [1, 0, 2, 0, 3]).remaining := by decide
  have hfill : 2 ∣ (ofBytes [1, 0, 2, 0]).remaining := by decide
  obtain ⟨-, -, -, hwidth, -⟩ := read_items_partition item (ofBytes [1, 0, 2, 0, 3])
  obtain ⟨-, -, -, hwidth', -⟩ := read_items_partition item (ofBytes [1, 0, 2, 0])
  exact ⟨rfl, hcut, (hwidth 2 rfl (by decide)).2 hcut, hfill, (hwidth' 2 rfl (by decide)).1 hfill⟩

end Cursor

end WireSchema
