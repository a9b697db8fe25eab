import WireSchema.Proofs.Word
import WireSchema.Wire.Writer

/-! # What a write appends

A write has the bytes that it is to append, and makes demands on its way: a payload must not be too
long for its length, and a buffer not longer than buffers can be. The first demand that is not met
stops the write; if there is none, its bytes are appended (`Write.Settles`). Where a buffer ends
depends on the length of the writer, so the demands of a write do too. A build that takes sums
modulo 2 ^ 64 makes no demand on them; there all this holds as long as the sums are words. -/

namespace WireSchema

/-! ### Fields of fixed size -/

/-- Exactly `size` bytes: the payload cut, or filled up with zeros. -/
def fixedBytes (payload : Bytes) (size : Nat) : Bytes :=
  payload.take size ++ List.replicate (size - payload.length) 0

/-- A text in exactly `size` bytes, cut or filled up with zeros. -/
def fixedText (s : String) (size : Nat) : Bytes := fixedBytes (Utf8.ofString s) size

@[simp] theorem length_fixedBytes (payload : Bytes) (size : Nat) :
    (fixedBytes payload size).length = size := by
  rw [fixedBytes, List.length_append, List.length_take, List.length_replicate]
  omega

@[simp] theorem length_fixedText (s : String) (size : Nat) : (fixedText s size).length = size :=
  length_fixedBytes _ _

@[simp] theorem length_counted (p : LengthPrefix) (payload : Bytes) :
    (counted p payload).length = p.width + payload.length := by
  rw [counted, List.length_append, length_littleEndian]

theorem maxBuffer_lt_wordCount : maxBuffer < wordCount := by decide

/-- A sum that is a word is the same in every build. -/
theorem Build.add?_of_lt (build : Build) {m n : Nat} (h : m + n < wordCount) :
    build.add? m n = some (m + n) := by
  cases build with
  | checked => exact if_pos h
  | wrapping => rw [add?, Nat.mod_eq_of_lt h]

namespace Write

/-- The length of what a field of fixed size holds and lacks. -/
theorem length_held (w payload : Bytes) (size : Nat) :
    (w ++ payload.take size).length + (size - payload.length) = w.length + size := by
  rw [List.length_append, List.length_take]
  omega

/-- The field has room: it is filled. -/
theorem fixed_of_le (build : Build) {payload w : Bytes} {size : Nat}
    (h : w.length + size ≤ maxBuffer) :
    fixed build payload size w = ⟨w ++ fixedBytes payload size, none⟩ := by
  have hheld := length_held w payload size
  have hsum := build.add?_of_lt (hheld.trans_lt (h.trans_lt maxBuffer_lt_wordCount))
  have hfill : resize (w ++ payload.take size) (w.length + size) =
      w ++ fixedBytes payload size := by
    have hpad : w.length + size - (w ++ payload.take size).length = size - payload.length := by
      omega
    rw [resize, List.take_of_length_le (by omega), hpad, fixedBytes, List.append_assoc]
  rw [hheld] at hsum
  unfold fixed
  simp only [hsum, if_pos h, hfill]

/-- No buffer is as long as the field would have it. -/
theorem stop_fixed_of_lt (build : Build) {payload w : Bytes} {size : Nat}
    (hlong : maxBuffer < w.length + size) (hword : w.length + size < wordCount) :
    (fixed build payload size w).stop = some (.panic .capacityOverflow) := by
  have hheld := length_held w payload size
  have hsum := build.add?_of_lt (hheld.trans_lt hword)
  rw [hheld] at hsum
  unfold fixed
  simp only [hsum, if_neg (Nat.not_le.2 hlong)]

/-- The end of the field is no word. -/
theorem stop_fixed_checked {payload w : Bytes} {size : Nat} (h : wordCount ≤ w.length + size) :
    (fixed .checked payload size w).stop = some (.panic .sumOverflow) := by
  have hheld := length_held w payload size
  have hsum : Build.checked.add? (w ++ payload.take size).length (size - payload.length) = none :=
    if_neg (by omega)
  unfold fixed
  simp only [hsum]

end Write

/-! ### Demands -/

/-- What must be so for a write to go on. -/
inductive Demand where
  /-- A payload of `length` bytes has its length in front. -/
  | payload (lengthPrefix : LengthPrefix) (length : Nat)
  /-- A writer is made with room for `length` bytes. -/
  | room (length : Nat)
  /-- A writer is brought to `length` bytes, which is a sum. -/
  | buffer (length : Nat)
  deriving DecidableEq

namespace Demand

/-- Whether a demand can be met. -/
def met : Demand → Bool
  | .payload p n => n ≤ p.maxLength
  | .room n => n ≤ maxBuffer
  | .buffer n => n ≤ maxBuffer

/-- What stops a write if a demand cannot be met and sums are checked. -/
def stop : Demand → Stop
  | .payload p n => .error (.lengthOverflow n p.maxLength)
  | .room _ => .panic .capacityOverflow
  | .buffer n => .panic (if n < wordCount then .capacityOverflow else .sumOverflow)

/-- The first demand that cannot be met. -/
def firstUnmet? (ds : List Demand) : Option Demand := ds.find? fun d => !d.met

theorem firstUnmet?_eq_none {ds : List Demand} :
    firstUnmet? ds = none ↔ ∀ d ∈ ds, d.met = true := by
  simp [firstUnmet?]

theorem firstUnmet?_append (ds es : List Demand) :
    firstUnmet? (ds ++ es) = (firstUnmet? ds).or (firstUnmet? es) := List.find?_append

/-- The demands of the items of a list, the first of which is written at `start`. -/
def along {α : Type} (demands : α → Nat → List Demand) (bytes : α → Bytes) :
    List α → Nat → List Demand
  | [], _ => []
  | x :: xs, start => demands x start ++ along demands bytes xs (start + (bytes x).length)

/-- Each item of a list is written somewhere. -/
theorem exists_start {α : Type} {demands : α → Nat → List Demand} {bytes : α → Bytes}
    {P : Demand → Prop} {xs : List α} {start : Nat}
    (h : ∀ d ∈ along demands bytes xs start, P d) {x : α} (hx : x ∈ xs) :
    ∃ start', ∀ d ∈ demands x start', P d := by
  induction xs generalizing start with
  | nil => exact absurd hx List.not_mem_nil
  | cons y xs ih =>
    obtain ⟨hy, hxs⟩ := List.forall_mem_append.1 h
    rcases List.mem_cons.1 hx with rfl | hx
    · exact ⟨start, hy⟩
    · exact ih hxs hx

end Demand

/-- The sums of a build are right: they are checked, or all of them are words. -/
def Build.Sums (build : Build) (ds : List Demand) : Prop :=
  build = .wrapping → ∀ n, .buffer n ∈ ds → n < wordCount

namespace Build.Sums

variable {build : Build} {ds es : List Demand}

theorem left (h : build.Sums (ds ++ es)) : build.Sums ds :=
  fun hb n hn => h hb n (List.mem_append_left es hn)

theorem right (h : build.Sums (ds ++ es)) : build.Sums es :=
  fun hb n hn => h hb n (List.mem_append_right ds hn)

/-- The end of a buffer is a word. -/
theorem of_met (h : ∀ d ∈ ds, d.met = true) : build.Sums ds :=
  fun _ n hn => (of_decide_eq_true (h (.buffer n) hn)).trans_lt maxBuffer_lt_wordCount

end Build.Sums

/-- **What decides a write.** If the sums of the build are right, the first demand that is not met
has stopped it, and if there is none, it gave these bytes. -/
def SettledBy (build : Build) (r : Except Stop Bytes) (ds : List Demand) (b : Bytes) : Prop :=
  build.Sums ds → r = match Demand.firstUnmet? ds with
    | none => .ok b
    | some d => .error d.stop

namespace SettledBy

variable {build : Build} {r : Except Stop Bytes} {ds es : List Demand} {b c : Bytes}

theorem ok (b : Bytes) : SettledBy build (.ok b) [] b := fun _ => rfl

/-- A step behind another; its demands count only if those of the first one are met. -/
theorem bind {f : Bytes → Except Stop Bytes} (hr : SettledBy build r ds b)
    (hf : SettledBy build (f b) es c) : SettledBy build (r >>= f) (ds ++ es) c := by
  intro hs
  rw [Demand.firstUnmet?_append]
  have hr := hr hs.left
  cases hd : Demand.firstUnmet? ds with
  | none =>
    rw [hd] at hr
    subst hr
    exact hf hs.right
  | some d =>
    rw [hd] at hr
    subst hr
    rfl

/-- A write whose demands are met goes well, in every build. -/
theorem eq_ok (h : SettledBy build r ds b) (hmet : ∀ d ∈ ds, d.met = true) : r = .ok b := by
  rw [h (.of_met hmet), Demand.firstUnmet?_eq_none.2 hmet]

/-- A write that went well has had its demands met. -/
theorem of_eq_ok (h : SettledBy build r ds b) (hs : build.Sums ds) (hr : r = .ok c) :
    c = b ∧ ∀ d ∈ ds, d.met = true := by
  rw [h hs] at hr
  cases hd : Demand.firstUnmet? ds with
  | none =>
    rw [hd] at hr
    cases hr
    exact ⟨rfl, Demand.firstUnmet?_eq_none.1 hd⟩
  | some d =>
    rw [hd] at hr
    cases hr

end SettledBy

/-! ### Writes and their demands -/

theorem Written.toExcept_eq_ok {r : Written} {b : Bytes} : r.toExcept = .ok b ↔ r = ⟨b, none⟩ := by
  obtain ⟨data, _ | s⟩ := r
  · simp [toExcept]
  · simp [toExcept]

theorem Written.toExcept_eq_error {r : Written} {s : Stop} :
    r.toExcept = .error s ↔ r.stop = some s := by
  obtain ⟨data, _ | s⟩ := r
  · simp [toExcept]
  · simp [toExcept]

namespace Write

variable {α : Type} {build : Build} {a a' : Write} {d d' : Nat → List Demand} {b b' : Bytes}

theorem toExcept_andThen (a a' : Write) (w : Bytes) :
    (a.andThen a' w).toExcept = (a w).toExcept >>= fun w => (a' w).toExcept := by
  unfold andThen
  rcases a w with ⟨w, _ | s⟩ <;> rfl

/-- **A write is settled by its demands,** which depend on the length of the writer. All buffers end
with the bytes of the write at the latest, and a shorter writer makes it no harder. -/
structure Settles (build : Build) (a : Write) (d : Nat → List Demand) (b : Bytes) : Prop where
  settled : ∀ w : Bytes, SettledBy build (a w).toExcept (d w.length) (w ++ b)
  bounded : ∀ start n, .buffer n ∈ d start → n ≤ start + b.length
  earlier : ∀ {start start' : Nat}, start' ≤ start → (∀ x ∈ d start, x.met = true) →
    ∀ x ∈ d start', x.met = true

theorem settles_append (build : Build) (b : Bytes) : Settles build (append b) (fun _ => []) b where
  settled w := .ok (w ++ b)
  bounded _ _ h := absurd h List.not_mem_nil
  earlier _ h := h

theorem settles_prefixed (build : Build) (p : LengthPrefix) (payload : Bytes) :
    Settles build (prefixed p payload) (fun _ => [.payload p payload.length])
      (counted p payload) where
  settled w := by
    intro _
    unfold prefixed
    by_cases h : payload.length ≤ p.maxLength
    · simp [Demand.firstUnmet?, Demand.met, h, append, Written.toExcept]
    · simp [Demand.firstUnmet?, Demand.met, h, fail, Written.toExcept, Demand.stop]
  bounded _ _ h := by simp at h
  earlier _ h := h

theorem settles_fixed (build : Build) (payload : Bytes) (size : Nat) :
    Settles build (fixed build payload size) (fun start => [.buffer (start + size)])
      (fixedBytes payload size) where
  settled w := by
    intro hs
    by_cases hroom : w.length + size ≤ maxBuffer
    · rw [fixed_of_le build hroom]
      simp [Demand.firstUnmet?, Demand.met, hroom, Written.toExcept]
    · have hfirst : Demand.firstUnmet? [.buffer (w.length + size)] =
          some (.buffer (w.length + size)) := by
        simp [Demand.firstUnmet?, Demand.met, hroom]
      rw [hfirst]
      refine Written.toExcept_eq_error.2 ?_
      by_cases hword : w.length + size < wordCount
      · rw [stop_fixed_of_lt build (Nat.lt_of_not_le hroom) hword, Demand.stop, if_pos hword]
      · cases build with
        | checked => rw [stop_fixed_checked (Nat.le_of_not_lt hword), Demand.stop, if_neg hword]
        | wrapping => exact absurd (hs rfl _ List.mem_cons_self) hword
  bounded start n h := by
    rw [List.mem_singleton, Demand.buffer.injEq] at h
    rw [h, length_fixedBytes]
  earlier hle h := by
    have hroom := of_decide_eq_true (h _ List.mem_cons_self)
    rw [List.forall_mem_singleton]
    exact decide_eq_true (by omega)

theorem Settles.andThen (ha : Settles build a d b) (ha' : Settles build a' d' b') :
    Settles build (a.andThen a') (fun start => d start ++ d' (start + b.length)) (b ++ b') where
  settled w := by
    rw [toExcept_andThen, ← List.append_assoc, ← List.length_append]
    exact (ha.settled w).bind (ha'.settled (w ++ b))
  bounded start n h := by
    rw [List.length_append]
    rcases List.mem_append.1 h with h | h
    · have := ha.bounded start n h
      omega
    · have := ha'.bounded _ n h
      omega
  earlier hle h := by
    obtain ⟨hd, hd'⟩ := List.forall_mem_append.1 h
    exact List.forall_mem_append.2 ⟨ha.earlier hle hd, ha'.earlier (by omega) hd'⟩

/-- The items of a list are settled one after another. -/
theorem settles_items {write : α → Write} {demands : α → Nat → List Demand} {bytes : α → Bytes}
    (xs : List α) (h : ∀ x ∈ xs, Settles build (write x) (demands x) (bytes x)) :
    Settles build (items write xs) (Demand.along demands bytes xs) (xs.flatMap bytes) := by
  induction xs with
  | nil => exact settles_append build []
  | cons x xs ih =>
    obtain ⟨hx, hxs⟩ := List.forall_mem_cons.1 h
    exact hx.andThen (ih hxs)

/-- What a write leaves in a writer of its own. -/
theorem Settles.run (ha : Settles build a d b) : SettledBy build a.run (d 0) b := ha.settled []

theorem toExcept_after (r : Except Stop Bytes) (f : Bytes → Write) (w : Bytes) :
    (after r f w).toExcept = r >>= fun b => (f b w).toExcept := by
  cases r <;> rfl

/-- A write of what was written elsewhere: the demands made there do not depend on the writer. -/
theorem Settles.after {r : Except Stop Bytes} {ds : List Demand} {f : Bytes → Write}
    (hr : SettledBy build r ds b) (hf : Settles build (f b) d b')
    (hbound : ∀ n, .buffer n ∈ ds → n ≤ b'.length) :
    Settles build (after r f) (fun start => ds ++ d start) b' where
  settled w := by
    rw [toExcept_after]
    exact hr.bind (hf.settled w)
  bounded start n h := by
    rcases List.mem_append.1 h with h | h
    · have := hbound n h
      omega
    · exact hf.bounded start n h
  earlier hle h := by
    obtain ⟨hds, hd⟩ := List.forall_mem_append.1 h
    exact List.forall_mem_append.2 ⟨hds, hf.earlier hle hd⟩

theorem settles_prefixedItems {write : α → Write} {demands : α → Nat → List Demand}
    {bytes : α → Bytes} (p : LengthPrefix) (xs : List α)
    (h : ∀ x ∈ xs, Settles build (write x) (demands x) (bytes x)) :
    Settles build (prefixedItems p write xs)
      (fun _ => Demand.along demands bytes xs 0 ++ [.payload p (xs.flatMap bytes).length])
      (counted p (xs.flatMap bytes)) := by
  have hitems := settles_items xs h
  refine .after hitems.run (settles_prefixed build p _) fun n hn => ?_
  have := hitems.bounded 0 n hn
  rw [length_counted]
  omega

/-- The demand that a message of known size makes before it is written. -/
def roomFor (size? : Option Nat) : List Demand := (size?.map Demand.room).toList

theorem Settles.message (ha : Settles build a d b) (size? : Option Nat) :
    SettledBy build (a.message size?) (roomFor size? ++ d 0) b := by
  have hroom : SettledBy build (if size?.all (· ≤ maxBuffer) then .ok []
      else .error (.panic .capacityOverflow)) (roomFor size?) [] := by
    intro _
    cases size? with
    | none => rfl
    | some n =>
      by_cases h : n ≤ maxBuffer
      · simp [roomFor, Demand.firstUnmet?, Demand.met, h]
      · simp [roomFor, Demand.firstUnmet?, Demand.met, h, Demand.stop]
  have hmessage : a.message size? = (if size?.all (· ≤ maxBuffer) then .ok []
      else .error (.panic .capacityOverflow)) >>= fun _ : Bytes => a.run := by
    unfold Write.message
    split_ifs <;> rfl
  rw [hmessage]
  exact hroom.bind ha.run

theorem Settles.le_of_buffer (ha : Settles build a d b) {size? : Option Nat} {n : Nat}
    (hn : .buffer n ∈ roomFor size? ++ d 0) : n ≤ b.length := by
  rcases List.mem_append.1 hn with hn | hn
  · simp [roomFor] at hn
  · have := ha.bounded 0 n hn
    omega

/-- A message that is appended to another writer. -/
theorem Settles.nested (ha : Settles build a d b) (size? : Option Nat) :
    Settles build (Write.after (a.message size?) append) (fun _ => roomFor size? ++ d 0) b := by
  have h := Settles.after (ha.message size?) (settles_append build b) fun n hn =>
    ha.le_of_buffer hn
  simp only [List.append_nil] at h
  exact h

/-- A message that is appended to another writer, with its byte count in front. -/
theorem Settles.prefixedNested (ha : Settles build a d b) (size? : Option Nat)
    (p : LengthPrefix) :
    Settles build (Write.after (a.message size?) (prefixed p))
      (fun _ => roomFor size? ++ d 0 ++ [.payload p b.length]) (counted p b) := by
  refine .after (ha.message size?) (settles_prefixed build p b) fun n hn => ?_
  have := ha.le_of_buffer hn
  rw [length_counted]
  omega

end Write

end WireSchema
