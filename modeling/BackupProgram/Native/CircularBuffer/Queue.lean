import BackupProgram.Lib.BoundedQueue
import BackupProgram.Lib.Schedules
import BackupProgram.Native.CircularBuffer

/-!
# The circular buffer as a queue

Any number of buffers are used at the same time. What they show is what bounded queues would show, as
long as no piece is pushed across the end of an array and no buffer is used whose start has been moved
behind it.
-/

namespace BackupProgram

open Schedules

namespace CircularBuffer

/-! ### Pieces of the array -/

/-- Bytes of the array that are read or written. A number of bytes below zero is a huge one, since
sizes have no sign. -/
structure Access where
  offset : Nat
  length : Int
deriving DecidableEq

def Access.Inside (a : Access) (buffer : List Byte) : Prop :=
  0 ≤ a.length ∧ a.offset + a.length ≤ buffer.length

instance (a : Access) (buffer : List Byte) : Decidable (a.Inside buffer) :=
  inferInstanceAs (Decidable (_ ∧ _))

/-- What `process_whole` hands out. -/
def wholeAccesses (b : CircularBuffer) : List Access :=
  if b.start + b.mSize ≤ b.mCapacity then [⟨b.start, b.mSize⟩]
  else [⟨b.start, b.mCapacity - b.start⟩, ⟨0, ((b.start + b.mSize) % b.mCapacity : Nat)⟩]

/-- The pieces that `process_whole` hands out, one after the other. -/
def pieces (b : CircularBuffer) : List (List Byte) :=
  b.processWhole (fun pieces piece => pieces ++ [piece]) []

/-- Where `push_buffer` writes. -/
def pushBufferAccesses (b : CircularBuffer) (buf : List Byte) : List Access :=
  let size := min buf.length (b.mCapacity - b.mSize)
  let start := (b.start + b.mSize) % b.mCapacity
  if start + size ≤ b.mCapacity then [⟨start, size⟩]
  else [⟨start, b.mCapacity - start⟩, ⟨0, ((start + size) % b.mCapacity : Nat)⟩]

/-- Where several calls of `push_buffer` write. -/
def pushAllAccesses : CircularBuffer → List (List Byte) → List Access
  | _, [] => []
  | b, piece :: pieces =>
    b.pushBufferAccesses piece ++ (b.pushBuffer piece).pushAllAccesses pieces

end CircularBuffer

open CircularBuffer

/-! ### Operations on several buffers -/

section Operations

variable {ι : Type*} [DecidableEq ι]

inductive BufferOperation (ι : Type*) where
  | push (i : ι) (ret : Byte)
  | pop (i : ι)
  | pushBuffer (i : ι) (buf : List Byte)
  | popBuffer (i dst : ι)
  | trim (i : ι) (n : Nat)
  | resetSize (i : ι)
  | reset (i : ι)
  | realloc (i : ι) (n : Nat)
  | size (i : ι)
  | get (i : ι) (k : Nat)
  | processWhole (i : ι)

/-- What an operation returns, or hands out. -/
inductive BufferOutput where
  | none
  | byte (x : Byte)
  | number (n : Nat)
  | bytes (xs : List Byte)
deriving DecidableEq

abbrev Buffers (ι : Type*) : Type _ := ι → CircularBuffer

abbrev Queues (ι : Type*) : Type _ := ι → BoundedQueue Byte

namespace BufferOperation

def output (s : Buffers ι) : BufferOperation ι → BufferOutput
  | push i ret => .byte (if (s i).mSize = (s i).mCapacity then 0 else ret)
  | pop i => .byte (s i).pop.1
  | size i => .number (s i).size
  | get i k => .byte ((s i).get k)
  | processWhole i => .bytes (s i).pieces.flatten
  | _ => .none

def exec (s : Buffers ι) : BufferOperation ι → Buffers ι
  | push i ret => Function.update s i ((s i).push ret)
  | pop i => Function.update s i (s i).pop.2
  | pushBuffer i buf => Function.update s i ((s i).pushBuffer buf)
  | popBuffer i dst =>
    let (b, b') := (s i).popBuffer (s dst)
    Function.update (Function.update s i b) dst b'
  | trim i n => Function.update s i ((s i).trim n)
  | resetSize i => Function.update s i (s i).resetSize
  | reset i => Function.update s i (s i).reset
  | realloc i n => Function.update s i ((s i).realloc n)
  | size _ | get _ _ | processWhole _ => s

/-- The bytes of the arrays that an operation reads or writes. -/
def accesses (s : Buffers ι) : BufferOperation ι → List (ι × Access)
  | push i _ =>
    if (s i).mSize = (s i).mCapacity then []
    else [(i, ⟨((s i).start + (s i).mSize) % (s i).mCapacity, 1⟩)]
  | pop i => if (s i).mSize = 0 then [] else [(i, ⟨(s i).start, 1⟩)]
  | pushBuffer i buf => ((s i).pushBufferAccesses buf).map (i, ·)
  | popBuffer i dst =>
    (s i).wholeAccesses.map (i, ·) ++ ((s dst).pushAllAccesses (s i).pieces).map (dst, ·)
  | get i k => [(i, ⟨(k % (s i).mSize + (s i).start) % (s i).mCapacity, 1⟩)]
  | processWhole i => (s i).wholeAccesses.map (i, ·)
  | _ => []

/-- An index is below the size, another buffer is moved to, and no array becomes empty. -/
def Allowed (op : BufferOperation ι) (s : Buffers ι) : Prop :=
  match op with
  | get i k => k < (s i).size
  | popBuffer i dst => i ≠ dst
  | realloc _ n => 0 < n
  | _ => True

/-- The operation on queues, with what it shows. `reset` and `realloc` leave any bytes. -/
def Specifies (op : BufferOperation ι) (q : Queues ι) (output : BufferOutput) (q' : Queues ι) :
    Prop :=
  match op with
  | push i ret =>
    output = .byte (if (q i).free = 0 then 0 else ret) ∧
      q' = Function.update q i ((q i).append [ret])
  | pop i =>
    output = .byte ((q i).items.headD 0) ∧ q' = Function.update q i ((q i).drop 1)
  | pushBuffer i buf => output = .none ∧ q' = Function.update q i ((q i).append buf)
  | popBuffer i dst =>
    output = .none ∧ q' = Function.update (Function.update q i ((q i).drop (q dst).free)) dst
      ((q dst).append (q i).items)
  | trim i n => output = .none ∧ q' = Function.update q i ((q i).trim n)
  | resetSize i => output = .none ∧ q' = Function.update q i (q i).clear
  | reset i =>
    output = .none ∧ ∃ full : BoundedQueue Byte, full.IsFull ∧ full.capacity = (q i).capacity ∧
      q' = Function.update q i full
  | realloc i n =>
    output = .none ∧ ∃ full : BoundedQueue Byte, full.IsFull ∧ full.capacity = n ∧
      q' = Function.update q i full
  | size i => output = .number (q i).items.length ∧ q' = q
  | get i k => (∃ x, (q i).items[k]? = some x ∧ output = .byte x) ∧ q' = q
  | processWhole i => output = .bytes (q i).items ∧ q' = q

end BufferOperation

open BufferOperation

/-- From `s` on the buffers show what queues show from `q` on, and only bytes of their arrays are
read and written. -/
def ActLikeQueues : List (BufferOperation ι) → Buffers ι → Queues ι → Prop
  | [], _, _ => True
  | op :: ops, s, q =>
    (∀ a ∈ op.accesses s, a.2.Inside (s a.1).buffer) ∧
      ∃ q', op.Specifies q (op.output s) q' ∧ ActLikeQueues ops (op.exec s) q'

/-- One operation after the other. -/
def bufferStep (op : BufferOperation ι) (s : Buffers ι) : Option (Buffers ι) := some (op.exec s)

end Operations

/-! ### What goes right -/

namespace CircularBuffer

/-- The bytes that come behind the end of the array are those that the code takes for them: it takes
the first ones again. -/
def Continues (b : CircularBuffer) (buf : List Byte) : Prop :=
  let size := min buf.length (b.mCapacity - b.mSize)
  let start := (b.start + b.mSize) % b.mCapacity
  start + size ≤ b.mCapacity ∨
    buf.take ((start + size) % b.mCapacity) =
      (buf.drop (b.mCapacity - start)).take ((start + size) % b.mCapacity)

instance (b : CircularBuffer) (buf : List Byte) : Decidable (b.Continues buf) :=
  inferInstanceAs (Decidable (_ ∨ _))

def AllContinue : CircularBuffer → List (List Byte) → Prop
  | _, [] => True
  | b, piece :: pieces => b.Continues piece ∧ (b.pushBuffer piece).AllContinue pieces

/-- The start has not been moved behind the end of the array, nor to it if the buffer is full. -/
def Readable (b : CircularBuffer) : Prop :=
  b.start ≤ b.mCapacity ∧ b.start + b.mSize < 2 * b.mCapacity

/-- What all operations keep; the start may be anywhere. -/
structure Sound (b : CircularBuffer) : Prop where
  length_buffer : b.buffer.length = b.mCapacity
  size_le : b.mSize ≤ b.mCapacity
  capacity_pos : 0 < b.mCapacity

variable {b dst : CircularBuffer} {buf : List Byte}

/-- The buffer with its start inside the array. -/
def normal (b : CircularBuffer) : CircularBuffer := { b with start := b.start % b.mCapacity }

lemma Sound.valid_normal (h : b.Sound) : b.normal.Valid :=
  ⟨h.length_buffer, h.size_le, Nat.mod_lt _ h.capacity_pos⟩

@[simp] lemma content_normal (b : CircularBuffer) : b.normal.content = b.content := by
  simp only [content, normal, Nat.mod_add_mod]

lemma Valid.sound (h : b.Valid) : b.Sound :=
  ⟨h.length_buffer, h.size_le, Nat.zero_lt_of_lt h.start_lt⟩

lemma Sound.of_normal (h : b.normal.Sound) : b.Sound := ⟨h.length_buffer, h.size_le, h.capacity_pos⟩

lemma normal_push (b : CircularBuffer) (x : Byte) : (b.push x).normal = b.normal.push x := by
  simp only [push, normal, Nat.mod_add_mod]
  split_ifs <;> rfl

lemma normal_pushBuffer (b : CircularBuffer) (buf : List Byte) :
    (b.pushBuffer buf).normal = b.normal.pushBuffer buf := by
  simp only [pushBuffer, normal, Nat.mod_add_mod]

lemma continues_normal : b.normal.Continues buf ↔ b.Continues buf := by
  simp only [Continues, normal, Nat.mod_add_mod]

/-! ### Pushing a piece -/

lemma getD_overwrite {buffer bytes : List Byte} {i : Nat} (h : i + bytes.length ≤ buffer.length)
    (j : Nat) : (overwrite buffer i bytes).getD j 0 =
      if i ≤ j ∧ j < i + bytes.length then bytes.getD (j - i) 0 else buffer.getD j 0 := by
  have htake : (buffer.take i).length = i := by
    rw [List.length_take]
    omega
  simp only [overwrite, List.getD_eq_getElem?_getD, List.append_assoc]
  rcases Nat.lt_or_ge j i with hlt | hge
  · rw [List.getElem?_append_left (by omega), List.getElem?_take_of_lt hlt, if_neg (by omega)]
  · rw [List.getElem?_append_right (by omega), htake]
    rcases Nat.lt_or_ge j (i + bytes.length) with hlt | hge'
    · rw [List.getElem?_append_left (by omega), if_pos ⟨hge, hlt⟩]
    · rw [List.getElem?_append_right (by omega), List.getElem?_drop, if_neg (by omega)]
      congr 2
      omega

/-- What is in the array after a piece has been pushed. -/
lemma Valid.cells_pushBuffer (h : b.Valid) (hcontinues : b.Continues buf) :
    (b.pushBuffer buf).buffer.length = b.mCapacity ∧
      (∀ k, k < min buf.length (b.mCapacity - b.mSize) →
        (b.pushBuffer buf).buffer.getD ((b.start + b.mSize + k) % b.mCapacity) 0 = buf.getD k 0) ∧
      ∀ i, i < b.mSize →
        (b.pushBuffer buf).buffer.getD ((b.start + i) % b.mCapacity) 0 =
          b.buffer.getD ((b.start + i) % b.mCapacity) 0 := by
  obtain ⟨hlen, hsize, hstart⟩ := h
  simp only [Continues] at hcontinues
  simp only [pushBuffer]
  set n := min buf.length (b.mCapacity - b.mSize) with hn
  set s := (b.start + b.mSize) % b.mCapacity with hs
  have hslt : s < b.mCapacity := Nat.mod_lt _ (by omega)
  have hcell : ∀ k, (b.start + b.mSize + k) % b.mCapacity = (s + k) % b.mCapacity := by
    intro k
    rw [hs, Nat.mod_add_mod]
  have hsvalue : s = if b.start + b.mSize < b.mCapacity then b.start + b.mSize
      else b.start + b.mSize - b.mCapacity := by
    rw [hs, mod_one_wrap (by omega)]
  by_cases hfits : s + n ≤ b.mCapacity
  · rw [if_pos hfits]
    have htake : (buf.take n).length = n := by
      rw [List.length_take]
      omega
    have hin : s + (buf.take n).length ≤ b.buffer.length := by omega
    refine ⟨by rw [length_overwrite hin, hlen], fun k hk => ?_, fun i hi => ?_⟩
    · rw [hcell, Nat.mod_eq_of_lt (by omega), getD_overwrite hin, if_pos (by omega),
        List.getD_eq_getElem?_getD, List.getD_eq_getElem?_getD, List.getElem?_take_of_lt (by omega)]
      congr 2
      omega
    · rw [getD_overwrite hin, if_neg]
      rw [mod_one_wrap (by omega)]
      split_ifs at hsvalue ⊢ <;> omega
  · rw [if_neg hfits]
    have hsecond := hcontinues.resolve_left hfits
    have hm : (s + n) % b.mCapacity = s + n - b.mCapacity := by
      rw [mod_one_wrap (by omega), if_neg (by omega)]
    rw [hm] at hsecond ⊢
    have hfirst : (buf.take (b.mCapacity - s)).length = b.mCapacity - s := by
      rw [List.length_take]
      omega
    have hlast : (buf.take (s + n - b.mCapacity)).length = s + n - b.mCapacity := by
      rw [List.length_take]
      omega
    have hin : s + (buf.take (b.mCapacity - s)).length ≤ b.buffer.length := by omega
    have hlen' := length_overwrite hin
    have hin' : 0 + (buf.take (s + n - b.mCapacity)).length ≤
        (overwrite b.buffer s (buf.take (b.mCapacity - s))).length := by omega
    refine ⟨by rw [length_overwrite hin', hlen', hlen], fun k hk => ?_, fun i hi => ?_⟩
    · rw [hcell, mod_one_wrap (by omega), getD_overwrite hin', getD_overwrite hin]
      by_cases hk' : s + k < b.mCapacity
      · rw [if_pos hk', if_neg (by omega), if_pos (by omega), List.getD_eq_getElem?_getD,
          List.getD_eq_getElem?_getD, List.getElem?_take_of_lt (by omega)]
        congr 2
        omega
      · rw [if_neg hk', if_pos (by omega), hsecond, List.getD_eq_getElem?_getD,
          List.getD_eq_getElem?_getD, List.getElem?_take_of_lt (by omega), List.getElem?_drop]
        congr 2
        omega
    · rw [getD_overwrite hin', getD_overwrite hin, if_neg, if_neg]
      · rw [mod_one_wrap (by omega)]
        split_ifs at hsvalue ⊢ <;> omega
      · rw [mod_one_wrap (by omega)]
        split_ifs at hsvalue ⊢ <;> omega

lemma Valid.pushBuffer (h : b.Valid) (hcontinues : b.Continues buf) :
    (b.pushBuffer buf).Valid ∧
      (b.pushBuffer buf).content = b.content ++ buf.take (b.mCapacity - b.mSize) := by
  obtain ⟨hlen, hnew, hold⟩ := h.cells_pushBuffer hcontinues
  have hsize := h.size_le
  refine ⟨⟨hlen, ?_, h.start_lt⟩, ?_⟩
  · simp only [CircularBuffer.pushBuffer]
    omega
  apply List.ext_getElem
  · simp only [CircularBuffer.pushBuffer, length_content, List.length_append, List.length_take]
    omega
  intro i h1 h2
  have hi : i < b.mSize + min buf.length (b.mCapacity - b.mSize) := by
    rw [length_content] at h1
    exact h1
  rw [getElem_content]
  change (b.pushBuffer buf).buffer.getD ((b.start + i) % b.mCapacity) 0 = _
  rcases Nat.lt_or_ge i b.mSize with hlt | hge
  · rw [hold i hlt, List.getElem_append_left (by simpa using hlt), getElem_content]
  · obtain ⟨k, rfl⟩ := Nat.exists_eq_add_of_le hge
    rw [← Nat.add_assoc, hnew k (by omega), List.getElem_append_right (by simp),
      List.getElem_take, List.getD_eq_getElem _ _ (by omega)]
    simp

/-! ### Buffers and queues -/

/-- The buffer holds the items of the queue. -/
structure Represents (b : CircularBuffer) (q : BoundedQueue Byte) : Prop where
  sound : b.Sound
  content_eq : b.content = q.items
  capacity_eq : b.mCapacity = q.capacity

variable {q q' : BoundedQueue Byte}

lemma Represents.length_items (h : Represents b q) : q.items.length = b.mSize := by
  rw [← h.content_eq, length_content]

lemma Represents.free_eq (h : Represents b q) : q.free = b.mCapacity - b.mSize := by
  rw [BoundedQueue.free, h.length_items, h.capacity_eq]

lemma Represents.of_normal (h : Represents b.normal q) : Represents b q :=
  ⟨.of_normal h.sound, (content_normal b).symm.trans h.content_eq, h.capacity_eq⟩

lemma Represents.push (h : Represents b q) (x : Byte) : Represents (b.push x) (q.append [x]) := by
  have hfree := h.free_eq
  by_cases hfull : b.mSize = b.mCapacity
  · have hpush : b.push x = b := by rw [CircularBuffer.push, if_pos hfull]
    have hitems : (q.append [x]).items = q.items := by
      have hzero : q.free = 0 := by omega
      rw [BoundedQueue.items_append, hzero, List.take_zero, List.append_nil]
    rw [hpush]
    exact ⟨h.sound, h.content_eq.trans hitems.symm, h.capacity_eq⟩
  · have hvalid := h.sound.valid_normal
    have hlt : b.mSize < b.mCapacity := Nat.lt_of_le_of_ne h.sound.size_le hfull
    apply Represents.of_normal
    rw [normal_push]
    refine ⟨(hvalid.push x).sound, ?_, (mCapacity_push _ _).trans h.capacity_eq⟩
    have htake : [x].take q.free = [x] := List.take_of_length_le (by
      rw [List.length_singleton]
      omega)
    rw [hvalid.content_push x hlt, content_normal, h.content_eq, BoundedQueue.items_append, htake]

lemma Represents.pop (h : Represents b q) (hstart : b.mSize = 0 ∨ b.start < b.mCapacity) :
    b.pop.1 = q.items.headD 0 ∧ Represents b.pop.2 (q.drop 1) := by
  by_cases hempty : b.mSize = 0
  · have hnil : q.items = [] := by rw [← List.length_eq_zero_iff, h.length_items, hempty]
    rw [CircularBuffer.pop, if_pos hempty, hnil]
    refine ⟨rfl, h.sound, ?_, h.capacity_eq⟩
    rw [h.content_eq, BoundedQueue.items_drop, hnil, List.drop_nil]
  · have hvalid : b.Valid :=
      ⟨h.sound.length_buffer, h.sound.size_le, hstart.resolve_left hempty⟩
    have hcontent := hvalid.content_pop hempty
    rw [h.content_eq] at hcontent
    refine ⟨by rw [hcontent]; rfl, hvalid.pop.sound, ?_, (mCapacity_pop b).trans h.capacity_eq⟩
    rw [BoundedQueue.items_drop, hcontent, List.drop_one, List.tail_cons]

lemma Represents.pushBuffer (h : Represents b q) (hcontinues : b.Continues buf) :
    Represents (b.pushBuffer buf) (q.append buf) := by
  apply Represents.of_normal
  rw [normal_pushBuffer]
  obtain ⟨hvalid, hcontent⟩ := h.sound.valid_normal.pushBuffer (continues_normal.mpr hcontinues)
  refine ⟨hvalid.sound, ?_, h.capacity_eq⟩
  rw [hcontent, content_normal, h.content_eq, BoundedQueue.items_append, h.free_eq]
  rfl

lemma Represents.foldl_pushBuffer {pieces : List (List Byte)} (h : Represents b q)
    (hcontinue : b.AllContinue pieces) :
    Represents (pieces.foldl CircularBuffer.pushBuffer b) (q.append pieces.flatten) := by
  rw [← BoundedQueue.foldl_append]
  induction pieces generalizing b q with
  | nil => exact h
  | cons piece pieces ih => exact ih (h.pushBuffer hcontinue.1) hcontinue.2

lemma Represents.trim (h : Represents b q) (n : Nat) : Represents (b.trim n) (q.trim n) := by
  by_cases hn : n > b.mSize
  · have htrim : b.trim n = b := by rw [CircularBuffer.trim, if_pos hn]
    have hitems : (q.trim n).items = q.items :=
      List.take_of_length_le (by rw [h.length_items]; omega)
    rw [htrim]
    exact ⟨h.sound, h.content_eq.trans hitems.symm, h.capacity_eq⟩
  · have htrim : b.trim n = { b with mSize := n } := by rw [CircularBuffer.trim, if_neg hn]
    have hsize := h.sound.size_le
    refine ⟨?_, ?_, ?_⟩
    · rw [htrim]
      exact ⟨h.sound.length_buffer, by dsimp only; omega, h.sound.capacity_pos⟩
    · rw [content_trim (by omega), h.content_eq]
      rfl
    · rw [htrim]
      exact h.capacity_eq

lemma Represents.resetSize (h : Represents b q) : Represents b.resetSize q.clear :=
  ⟨⟨h.sound.length_buffer, Nat.zero_le _, h.sound.capacity_pos⟩, content_resetSize b, h.capacity_eq⟩

/-- A buffer that is full stands for a full queue. -/
lemma Sound.exists_full (h : b.Sound) (hfull : b.mSize = b.mCapacity) :
    ∃ full : BoundedQueue Byte, full.IsFull ∧ full.capacity = b.mCapacity ∧ Represents b full :=
  ⟨⟨b.content, b.mCapacity, by rw [length_content]; exact h.size_le⟩,
    (length_content b).trans hfull, rfl, h, rfl, rfl⟩

lemma Sound.reset (h : b.Sound) : b.reset.Sound := ⟨h.length_buffer, le_rfl, h.capacity_pos⟩

lemma sound_realloc (h : b.buffer.length = b.mCapacity) {n : Nat} (hn : 0 < n) :
    (b.realloc n).Sound :=
  ⟨by rw [length_buffer_realloc h, mCapacity_realloc], by simp, by simpa using hn⟩

/-! ### Pieces -/

lemma processWhole_eq_foldl {σ : Type*} (b : CircularBuffer) (f : σ → List Byte → σ) (s : σ) :
    b.processWhole f s = b.pieces.foldl f s := by
  simp only [pieces, processWhole]
  split_ifs <;> rfl

lemma Sound.flatten_pieces (h : b.Sound) (hread : b.Readable) : b.pieces.flatten = b.content := by
  obtain ⟨hle, hlt⟩ := hread
  rw [pieces, processWhole]
  by_cases hwrap : b.start + b.mSize ≤ b.mCapacity
  · rw [if_pos hwrap, Linear.content_eq ⟨h.length_buffer, hwrap⟩]
    simp
  rw [if_neg hwrap]
  rcases hle.eq_or_lt with hend | hstart
  · -- nothing stands before the end of the array
    have hnormal : b.normal = { b with start := 0 } := by
      rw [normal, hend, Nat.mod_self]
    have hlinear : b.normal.Linear := by
      rw [hnormal]
      exact ⟨h.length_buffer, by simpa using h.size_le⟩
    have hmod : (b.mCapacity + b.mSize) % b.mCapacity = b.mSize := by
      rw [Nat.add_mod_left, Nat.mod_eq_of_lt (by omega)]
    rw [← content_normal, hlinear.content_eq, hnormal, hend, hmod]
    simp [slice]
  · rw [Valid.content_eq_append ⟨h.length_buffer, h.size_le, hstart⟩ hwrap]
    simp

/-- What fits is moved, and the rest stays. -/
lemma Represents.popBuffer (h : Represents b q) (h' : Represents dst q') (hread : b.Readable)
    (hcontinue : dst.AllContinue b.pieces) :
    Represents (b.popBuffer dst).1 (q.drop q'.free) ∧
      Represents (b.popBuffer dst).2 (q'.append q.items) := by
  have hdst := h'.foldl_pushBuffer hcontinue
  rw [h.sound.flatten_pieces hread, h.content_eq, ← processWhole_eq_foldl] at hdst
  have hmoved : (b.processWhole CircularBuffer.pushBuffer dst).mSize - dst.mSize =
      min b.mSize q'.free := by
    rw [← hdst.length_items, ← h'.length_items, ← h.length_items]
    simp only [BoundedQueue.items_append, List.length_append, List.length_take]
    omega
  refine ⟨?_, hdst⟩
  have hsrc : (b.popBuffer dst).1 =
      { b with
        start := b.start + min b.mSize q'.free
        mSize := b.mSize - min b.mSize q'.free } := by
    simp only [CircularBuffer.popBuffer, hmoved]
  have hsize := h.sound.size_le
  rw [hsrc]
  refine ⟨⟨h.sound.length_buffer, by dsimp only; omega, h.sound.capacity_pos⟩, ?_, h.capacity_eq⟩
  rw [BoundedQueue.items_drop, ← h.content_eq]
  apply List.ext_getElem
  · simp only [length_content, List.length_drop]
    omega
  · intro i h1 h2
    have hi : i < b.mSize - min b.mSize q'.free := by
      rw [length_content] at h1
      exact h1
    rw [List.getElem_drop, getElem_content, getElem_content]
    have hmin : min b.mSize q'.free = q'.free := by omega
    rw [hmin, Nat.add_assoc]

/-! ### Inside the array -/

lemma Sound.inside_whole (h : b.Sound) (hread : b.Readable) :
    ∀ a ∈ b.wholeAccesses, a.Inside b.buffer := by
  obtain ⟨hle, hlt⟩ := hread
  have hlen := h.length_buffer
  have hmod := Nat.mod_lt (b.start + b.mSize) h.capacity_pos
  simp only [wholeAccesses]
  split_ifs with hwrap
  · simp only [List.mem_singleton, forall_eq, Access.Inside]
    omega
  · simp only [List.mem_cons, List.not_mem_nil, or_false, forall_eq_or_imp, forall_eq,
      Access.Inside]
    omega

lemma Sound.inside_pushBuffer (h : b.Sound) (buf : List Byte) :
    ∀ a ∈ b.pushBufferAccesses buf, a.Inside b.buffer := by
  have hlen := h.length_buffer
  have hstart := Nat.mod_lt (b.start + b.mSize) h.capacity_pos
  have hmod := Nat.mod_lt ((b.start + b.mSize) % b.mCapacity +
    min buf.length (b.mCapacity - b.mSize)) h.capacity_pos
  simp only [pushBufferAccesses]
  split_ifs with hwrap
  · simp only [List.mem_singleton, forall_eq, Access.Inside]
    omega
  · simp only [List.mem_cons, List.not_mem_nil, or_false, forall_eq_or_imp, forall_eq,
      Access.Inside]
    omega

lemma Represents.inside_pushAll {pieces : List (List Byte)} (h : Represents b q)
    (hcontinue : b.AllContinue pieces) : ∀ a ∈ b.pushAllAccesses pieces, a.Inside b.buffer := by
  induction pieces generalizing b q with
  | nil => exact fun a ha => by cases ha
  | cons piece pieces ih =>
    have hnext := h.pushBuffer hcontinue.1
    have hlen : (b.pushBuffer piece).buffer.length = b.buffer.length := by
      rw [hnext.sound.length_buffer, h.sound.length_buffer]
      rfl
    intro a ha
    rcases List.mem_append.mp ha with ha | ha
    · exact h.sound.inside_pushBuffer piece a ha
    · have hinside := ih hnext hcontinue.2 a ha
      rwa [Access.Inside, hlen] at hinside

end CircularBuffer

/-! ### Runs -/

section Runs

variable {ι : Type*} [DecidableEq ι]

namespace BufferOperation

/-- The operation neither pushes the wrong bytes nor reads a buffer whose start has been moved too
far. -/
def Harmless (op : BufferOperation ι) (s : Buffers ι) : Prop :=
  match op with
  | pop i => (s i).mSize = 0 ∨ (s i).start < (s i).mCapacity
  | pushBuffer i buf => (s i).Continues buf
  | popBuffer i dst => (s i).Readable ∧ (s dst).AllContinue (s i).pieces
  | processWhole i => (s i).Readable
  | _ => True

end BufferOperation

open BufferOperation

/-- All buffers hold what the queues do. -/
def AllRepresent (s : Buffers ι) (q : Queues ι) : Prop := ∀ i, Represents (s i) (q i)

variable {s : Buffers ι} {q : Queues ι} {op : BufferOperation ι} {i j : ι}

lemma AllRepresent.update (h : AllRepresent s q) {b : CircularBuffer} {q' : BoundedQueue Byte}
    (hi : Represents b q') : AllRepresent (Function.update s i b) (Function.update q i q') := by
  intro k
  by_cases hk : k = i
  · subst hk
    rwa [Function.update_self, Function.update_self]
  · rw [Function.update_of_ne hk, Function.update_of_ne hk]
    exact h k

lemma AllRepresent.exists_full (h : AllRepresent s q) {b : CircularBuffer} (hsound : b.Sound)
    (hfull : b.mSize = b.mCapacity) :
    ∃ full : BoundedQueue Byte, full.IsFull ∧ full.capacity = b.mCapacity ∧
      AllRepresent (Function.update s i b) (Function.update q i full) := by
  obtain ⟨full, hisFull, hcapacity, hrepresents⟩ := hsound.exists_full hfull
  exact ⟨full, hisFull, hcapacity, h.update hrepresents⟩

/-- What an operation shows and leaves is what the queues show and leave. -/
lemma AllRepresent.specifies (h : AllRepresent s q) (hallowed : op.Allowed s)
    (hharmless : op.Harmless s) :
    ∃ q', op.Specifies q (op.output s) q' ∧ AllRepresent (op.exec s) q' := by
  cases op with
  | push i ret =>
    have hsize := (h i).sound.size_le
    have hfree : (s i).mSize = (s i).mCapacity ↔ (q i).free = 0 := by
      rw [(h i).free_eq]
      omega
    refine ⟨_, ⟨?_, rfl⟩, h.update ((h i).push ret)⟩
    rw [output]
    simp only [hfree]
  | pop i =>
    obtain ⟨hbyte, hrepresents⟩ := (h i).pop hharmless
    exact ⟨_, ⟨congrArg _ hbyte, rfl⟩, h.update hrepresents⟩
  | pushBuffer i buf => exact ⟨_, ⟨rfl, rfl⟩, h.update ((h i).pushBuffer hharmless)⟩
  | popBuffer i dst =>
    obtain ⟨hsrc, hdst⟩ := (h i).popBuffer (h dst) hharmless.1 hharmless.2
    exact ⟨_, ⟨rfl, rfl⟩, (h.update hsrc).update hdst⟩
  | trim i n => exact ⟨_, ⟨rfl, rfl⟩, h.update ((h i).trim n)⟩
  | resetSize i => exact ⟨_, ⟨rfl, rfl⟩, h.update (h i).resetSize⟩
  | reset i =>
    obtain ⟨full, hfull, hcapacity, hnext⟩ := h.exists_full (h i).sound.reset rfl
    exact ⟨_, ⟨rfl, full, hfull, hcapacity.trans (h i).capacity_eq, rfl⟩, hnext⟩
  | realloc i n =>
    obtain ⟨full, hfull, hcapacity, hnext⟩ :=
      h.exists_full (sound_realloc (h i).sound.length_buffer hallowed) (by simp)
    exact ⟨_, ⟨rfl, full, hfull, hcapacity.trans (mCapacity_realloc _ n), rfl⟩, hnext⟩
  | size i => exact ⟨_, ⟨congrArg _ (h i).length_items.symm, rfl⟩, h⟩
  | get i k =>
    have hk : k < (s i).content.length := by
      rw [length_content]
      exact hallowed
    refine ⟨_, ⟨⟨(s i).content[k], ?_, ?_⟩, rfl⟩, h⟩
    · rw [← (h i).content_eq]
      exact List.getElem?_eq_getElem hk
    · exact congrArg _ (get_eq_getElem_content _ k hk)
  | processWhole i =>
    refine ⟨_, ⟨?_, rfl⟩, h⟩
    rw [output, (h i).sound.flatten_pieces hharmless, (h i).content_eq]

omit [DecidableEq ι] in
/-- Only bytes of the arrays are read and written. -/
lemma AllRepresent.inside (h : AllRepresent s q) (hharmless : op.Harmless s) :
    ∀ a ∈ op.accesses s, a.2.Inside (s a.1).buffer := by
  have hcell : ∀ (i : ι) (k : Nat),
      Access.Inside ⟨k % (s i).mCapacity, 1⟩ (s i).buffer := by
    intro i k
    have hlt := Nat.mod_lt k (h i).sound.capacity_pos
    have hlen := (h i).sound.length_buffer
    simp only [Access.Inside]
    omega
  cases op with
  | push i ret =>
    simp only [accesses]
    split_ifs
    · simp
    · simpa using hcell i _
  | pop i =>
    have hlen := (h i).sound.length_buffer
    simp only [accesses]
    split_ifs with hempty
    · simp
    · have hstart := hharmless.resolve_left hempty
      simp only [List.mem_singleton, forall_eq, Access.Inside]
      omega
  | pushBuffer i buf =>
    simp only [accesses, List.forall_mem_map]
    exact (h i).sound.inside_pushBuffer buf
  | popBuffer i dst =>
    simp only [accesses, List.forall_mem_append, List.forall_mem_map]
    exact ⟨(h i).sound.inside_whole hharmless.1, (h dst).inside_pushAll hharmless.2⟩
  | get i k => simpa [accesses] using hcell i _
  | processWhole i =>
    simp only [accesses, List.forall_mem_map]
    exact (h i).sound.inside_whole hharmless
  | trim | resetSize | reset | realloc | size => simp [accesses]

lemma AllRepresent.actLikeQueues {ops : List (BufferOperation ι)} (h : AllRepresent s q)
    (hallowed : Along bufferStep Allowed ops s) (hharmless : Along bufferStep Harmless ops s) :
    ActLikeQueues ops s q := by
  induction ops generalizing s q with
  | nil => trivial
  | cons op ops ih =>
    obtain ⟨q', hspecifies, hnext⟩ := h.specifies hallowed.1 hharmless.1
    exact ⟨h.inside hharmless.1, q', hspecifies,
      ih hnext (hallowed.2 _ rfl) (hharmless.2 _ rfl)⟩

end Runs

/-- Buffers of any positive capacities, after they have been constructed, act like queues that are
full at first, as long as all operations are harmless. -/
theorem newBuffers_actLikeQueues {ι : Type*} [DecidableEq ι] (capacities : ι → Nat)
    (hpos : ∀ i, 0 < capacities i) (ops : List (BufferOperation ι))
    (hallowed : Along bufferStep BufferOperation.Allowed ops fun i => .new (capacities i))
    (hharmless : Along bufferStep BufferOperation.Harmless ops fun i => .new (capacities i)) :
    ∃ q : Queues ι, (∀ i, (q i).IsFull ∧ (q i).capacity = capacities i) ∧
      ActLikeQueues ops (fun i => .new (capacities i)) q := by
  have hsound : ∀ i, (CircularBuffer.new (capacities i)).Sound := fun i =>
    sound_realloc rfl (hpos i)
  have hfull : ∀ i, ∃ full : BoundedQueue Byte, full.IsFull ∧ full.capacity = capacities i ∧
      Represents (.new (capacities i)) full := by
    intro i
    obtain ⟨full, hisFull, hcapacity, hrepresents⟩ := (hsound i).exists_full (by simp [new])
    exact ⟨full, hisFull, hcapacity.trans (by simp [new]), hrepresents⟩
  choose q hisFull hcapacity hrepresents using hfull
  exact ⟨q, fun i => ⟨hisFull i, hcapacity i⟩,
    AllRepresent.actLikeQueues hrepresents hallowed hharmless⟩

/-- Two bytes are pushed to a buffer with room for four. -/
theorem newBuffers_actLikeQueues_twoBytes :
    ∃ q : Queues Unit, (∀ i, (q i).IsFull ∧ (q i).capacity = 4) ∧
      ActLikeQueues [.resetSize (), .pushBuffer () [1, 2], .pop ()] (fun _ => .new 4) q := by
  refine newBuffers_actLikeQueues (fun _ => 4) (fun _ => by decide) _ ?_ ?_
  · exact ⟨trivial, fun _ _ => ⟨trivial, fun _ _ => ⟨trivial, fun _ _ => trivial⟩⟩⟩
  · refine ⟨trivial, fun s hs => ⟨?_, fun s' hs' => ⟨?_, fun _ _ => trivial⟩⟩⟩
    · cases hs
      exact .inl (by decide)
    · cases hs
      cases hs'
      exact .inr (by decide)

/-- Bytes that are pushed across the end of the array. -/
def wrappedPush : List (BufferOperation Unit) :=
  [.resetSize (), .push () 1, .push () 2, .push () 3, .pop (), .pop (), .pushBuffer () [4, 5, 6],
    .get () 2]

/-- The byte after the first of them is the first one again. -/
theorem not_actLikeQueues_wrappedPush :
    Along bufferStep BufferOperation.Allowed wrappedPush (fun _ => .new 4) ∧
      ¬ ∃ q : Queues Unit, (∀ i, (q i).IsFull ∧ (q i).capacity = 4) ∧
        ActLikeQueues wrappedPush (fun _ => .new 4) q := by
  constructor
  · refine ⟨trivial, fun s₁ h₁ => ⟨trivial, fun s₂ h₂ => ⟨trivial, fun s₃ h₃ => ⟨trivial,
      fun s₄ h₄ => ⟨trivial, fun s₅ h₅ => ⟨trivial, fun s₆ h₆ => ⟨trivial, fun s₇ h₇ => ⟨?_,
      fun _ _ => trivial⟩⟩⟩⟩⟩⟩⟩⟩
    cases h₁; cases h₂; cases h₃; cases h₄; cases h₅; cases h₆; cases h₇
    rw [BufferOperation.Allowed]
    decide
  · rintro ⟨q, hq, hacts⟩
    obtain ⟨-, _, ⟨-, rfl⟩, -, _, ⟨-, rfl⟩, -, _, ⟨-, rfl⟩, -, _, ⟨-, rfl⟩, -, _, ⟨-, rfl⟩,
      -, _, ⟨-, rfl⟩, -, _, ⟨-, rfl⟩, -, _, ⟨⟨x, hx, hout⟩, -⟩, -⟩ := hacts
    have hcapacity := (hq ()).2
    simp only [Function.update_self, BoundedQueue.free,
      BoundedQueue.clear, BoundedQueue.drop, BoundedQueue.append, hcapacity] at hx
    have hfive : x = 5 := by simpa using hx.symm
    rw [hfive] at hout
    revert hout
    decide

end BackupProgram
