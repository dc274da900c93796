import Mathlib

/-!
# The circular buffer

`circular_buffer` keeps up to `mCapacity` bytes in an array, the first of them at `start`.
`content` is the queue the buffer stands for. `Valid` is the invariant of a buffer that is pushed
to and popped from byte by byte; `Linear` holds of a buffer that has not wrapped around, as the
buffers that are only filled once and then emptied with `popBuffer`.
-/

namespace BackupProgram

abbrev Byte := UInt8

structure CircularBuffer where
  buffer : List Byte
  mCapacity : Nat
  mSize : Nat
  start : Nat
deriving DecidableEq, Repr

namespace CircularBuffer

def capacity (b : CircularBuffer) : Nat := b.mCapacity

def size (b : CircularBuffer) : Nat := b.mSize

def reset (b : CircularBuffer) : CircularBuffer :=
  { b with mSize := b.mCapacity, start := 0 }

def resetSize (b : CircularBuffer) : CircularBuffer :=
  { b with mSize := 0 }

/-- A new array holds unspecified bytes, here zeros. -/
def realloc (b : CircularBuffer) (n : Nat) : CircularBuffer :=
  if b.mCapacity ≠ n then
    { b with buffer := List.replicate n 0, mCapacity := n }.reset
  else
    b.reset

/-- The constructor. -/
def new (initialSize : Nat) : CircularBuffer :=
  CircularBuffer.realloc ⟨[], 0, 0, 0⟩ initialSize

/-- The byte array with `bytes` copied over it from index `i` on (`memcpy`). -/
def overwrite (buffer : List Byte) (i : Nat) (bytes : List Byte) : List Byte :=
  buffer.take i ++ bytes ++ buffer.drop (i + bytes.length)

/-- `n` bytes of the array from index `i` on. -/
def slice (buffer : List Byte) (i n : Nat) : List Byte :=
  (buffer.drop i).take n

def pop (b : CircularBuffer) : Byte × CircularBuffer :=
  if b.mSize = 0 then (0, b)
  else
    (b.buffer.getD b.start 0,
      { b with start := (b.start + 1) % b.mCapacity, mSize := b.mSize - 1 })

def push (b : CircularBuffer) (x : Byte) : CircularBuffer :=
  if b.mSize = b.mCapacity then b
  else
    { b with
      buffer := b.buffer.set ((b.start + b.mSize) % b.mCapacity) x
      mSize := b.mSize + 1 }

/-- `f` is called on the one piece, or the two, that hold the content. -/
def processWhole {σ : Type*} (b : CircularBuffer) (f : σ → List Byte → σ) (s : σ) : σ :=
  if b.start + b.mSize ≤ b.mCapacity then
    f s (slice b.buffer b.start b.mSize)
  else
    f (f s (slice b.buffer b.start (b.mCapacity - b.start)))
      (slice b.buffer 0 ((b.start + b.mSize) % b.mCapacity))

/-- The second copy of a wrapped write starts again at the first byte of `buf`. -/
def pushBuffer (b : CircularBuffer) (buf : List Byte) : CircularBuffer :=
  let size := min buf.length (b.mCapacity - b.mSize)
  let start := (b.start + b.mSize) % b.mCapacity
  let buffer :=
    if start + size ≤ b.mCapacity then
      overwrite b.buffer start (buf.take size)
    else
      overwrite (overwrite b.buffer start (buf.take (b.mCapacity - start))) 0
        (buf.take ((start + size) % b.mCapacity))
  { b with buffer := buffer, mSize := b.mSize + size }

/-- The source buffer and `dst` after the call. -/
def popBuffer (b dst : CircularBuffer) : CircularBuffer × CircularBuffer :=
  let dst' := b.processWhole pushBuffer dst
  let n := dst'.mSize - dst.mSize
  ({ b with start := b.start + n, mSize := b.mSize - n }, dst')

def trim (b : CircularBuffer) (n : Nat) : CircularBuffer :=
  if n > b.mSize then b else { b with mSize := n }

/-- `operator[]`. -/
def get (b : CircularBuffer) (i : Nat) : Byte :=
  b.buffer.getD ((i % b.mSize + b.start) % b.mCapacity) 0

def singlePiece (b : CircularBuffer) : Bool :=
  b.start + b.mSize ≤ b.mCapacity

/-- The bytes of the queue, from the first to the last. -/
def content (b : CircularBuffer) : List Byte :=
  (List.range b.mSize).map fun i => b.buffer.getD ((b.start + i) % b.mCapacity) 0

structure Valid (b : CircularBuffer) : Prop where
  length_buffer : b.buffer.length = b.mCapacity
  size_le : b.mSize ≤ b.mCapacity
  start_lt : b.start < b.mCapacity

structure Linear (b : CircularBuffer) : Prop where
  length_buffer : b.buffer.length = b.mCapacity
  start_add_size_le : b.start + b.mSize ≤ b.mCapacity

/-! ### The content -/

@[simp] lemma length_content (b : CircularBuffer) : b.content.length = b.mSize := by
  simp [content]

lemma content_eq_nil {b : CircularBuffer} : b.content = [] ↔ b.mSize = 0 := by
  rw [← List.length_eq_zero_iff, length_content]

lemma getElem_content (b : CircularBuffer) (i : Nat) (h : i < b.content.length) :
    b.content[i] = b.buffer.getD ((b.start + i) % b.mCapacity) 0 := by
  simp [content]

lemma get_eq_getElem_content (b : CircularBuffer) (i : Nat) (h : i < b.content.length) :
    b.get i = b.content[i] := by
  have hi : i < b.mSize := by simpa using h
  rw [getElem_content, get, Nat.mod_eq_of_lt hi, Nat.add_comm]

@[simp] lemma length_slice (buffer : List Byte) (i n : Nat) :
    (slice buffer i n).length = min n (buffer.length - i) := by
  simp [slice]

/-- An index that crosses the end of the array at most once. -/
lemma mod_one_wrap {k cap : Nat} (h : k < 2 * cap) :
    k % cap = if k < cap then k else k - cap := by
  split_ifs with hk
  · exact Nat.mod_eq_of_lt hk
  · rw [Nat.mod_eq_sub_mod (by omega), Nat.mod_eq_of_lt (by omega)]

lemma Linear.content_eq {b : CircularBuffer} (h : b.Linear) :
    b.content = slice b.buffer b.start b.mSize := by
  have hlen := h.length_buffer
  have hle := h.start_add_size_le
  apply List.ext_getElem
  · simp; omega
  · intro i h1 h2
    have hi : i < b.mSize := by simpa using h1
    rw [getElem_content, Nat.mod_eq_of_lt (by omega), List.getD_eq_getElem _ _ (by omega)]
    simp [slice]

/-- The content of a valid buffer that wraps around, as its two pieces. -/
lemma Valid.content_eq_append {b : CircularBuffer} (h : b.Valid)
    (hwrap : ¬ b.start + b.mSize ≤ b.mCapacity) :
    b.content = slice b.buffer b.start (b.mCapacity - b.start) ++
      slice b.buffer 0 ((b.start + b.mSize) % b.mCapacity) := by
  obtain ⟨hlen, hsize, hstart⟩ := h
  have hmod : (b.start + b.mSize) % b.mCapacity = b.start + b.mSize - b.mCapacity := by
    rw [mod_one_wrap (by omega), if_neg (by omega)]
  apply List.ext_getElem
  · simp [hmod]; omega
  · intro i h1 h2
    have hi : i < b.mSize := by simpa using h1
    rw [getElem_content, mod_one_wrap (by omega), List.getElem_append]
    split_ifs with hin hpiece hpiece
    · rw [List.getD_eq_getElem _ _ (by omega)]
      simp [slice]
    · simp at hpiece; omega
    · simp at hpiece; omega
    · rw [List.getD_eq_getElem _ _ (by omega)]
      simp only [slice, List.length_take, List.length_drop, List.getElem_take, List.getElem_drop]
      congr 1
      omega

/-- A valid buffer is processed piece by piece: `f` sees its content, cut into one or two. -/
lemma Valid.processWhole_append {σ : Type*} {b : CircularBuffer} (h : b.Valid)
    {f : σ → List Byte → σ} (hf : ∀ s u v, f (f s u) v = f s (u ++ v)) (s : σ) :
    b.processWhole f s = f s b.content := by
  unfold processWhole
  split_ifs with hle
  · rw [Linear.content_eq ⟨h.length_buffer, hle⟩]
  · rw [hf, h.content_eq_append hle]

/-! ### Construction and emptying -/

@[simp] lemma mCapacity_realloc (b : CircularBuffer) (n : Nat) :
    (b.realloc n).mCapacity = n := by
  unfold realloc
  split_ifs with h
  · rfl
  · simpa [reset] using h

@[simp] lemma mSize_realloc (b : CircularBuffer) (n : Nat) : (b.realloc n).mSize = n := by
  unfold realloc
  split_ifs with h
  · rfl
  · simpa [reset] using h

@[simp] lemma start_realloc (b : CircularBuffer) (n : Nat) : (b.realloc n).start = 0 := by
  unfold realloc
  split_ifs <;> rfl

lemma length_buffer_realloc {b : CircularBuffer} (h : b.buffer.length = b.mCapacity) (n : Nat) :
    (b.realloc n).buffer.length = n := by
  unfold realloc
  split_ifs with hn
  · simp [reset]
  · simp only [reset]
    omega

@[simp] lemma mCapacity_resetSize (b : CircularBuffer) : b.resetSize.mCapacity = b.mCapacity :=
  rfl

@[simp] lemma mSize_resetSize (b : CircularBuffer) : b.resetSize.mSize = 0 := rfl

@[simp] lemma start_resetSize (b : CircularBuffer) : b.resetSize.start = b.start := rfl

@[simp] lemma content_resetSize (b : CircularBuffer) : b.resetSize.content = [] := rfl

lemma linear_new (n : Nat) : (new n).Linear :=
  ⟨by simpa [new] using length_buffer_realloc rfl n, by simp [new]⟩

/-- `dst.realloc(n); dst.reset_size();` makes an empty buffer at the start of its array. -/
lemma linear_realloc_resetSize {b : CircularBuffer} (h : b.buffer.length = b.mCapacity)
    (n : Nat) : (b.realloc n).resetSize.Linear :=
  ⟨by simpa [resetSize] using length_buffer_realloc h n, by simp⟩

lemma Linear.resetSize {b : CircularBuffer} (h : b.Linear) : b.resetSize.Linear :=
  ⟨h.length_buffer, by have := h.start_add_size_le; simp; omega⟩

lemma Linear.trim {b : CircularBuffer} (h : b.Linear) (n : Nat) : (b.trim n).Linear := by
  unfold CircularBuffer.trim
  split_ifs with hn
  · exact h
  · exact ⟨h.length_buffer, by have := h.start_add_size_le; simp; omega⟩

lemma content_trim {b : CircularBuffer} {n : Nat} (hn : n ≤ b.mSize) :
    (b.trim n).content = b.content.take n := by
  simp only [trim, if_neg (by omega : ¬ n > b.mSize), content, ← List.map_take,
    List.take_range]
  rw [Nat.min_eq_left hn]

/-! ### Byte by byte -/

lemma Valid.pop {b : CircularBuffer} (h : b.Valid) : b.pop.2.Valid := by
  unfold CircularBuffer.pop
  split_ifs with hs
  · exact h
  · exact ⟨h.length_buffer, by have := h.size_le; simp; omega,
      Nat.mod_lt _ (by have := h.start_lt; omega)⟩

@[simp] lemma mCapacity_pop (b : CircularBuffer) : b.pop.2.mCapacity = b.mCapacity := by
  unfold CircularBuffer.pop
  split_ifs <;> rfl

lemma Valid.content_pop {b : CircularBuffer} (h : b.Valid) (hs : b.mSize ≠ 0) :
    b.content = b.pop.1 :: b.pop.2.content := by
  obtain ⟨hlen, hsize, hstart⟩ := h
  have hpop : b.pop = (b.buffer.getD b.start 0,
      { b with start := (b.start + 1) % b.mCapacity, mSize := b.mSize - 1 }) := by
    rw [CircularBuffer.pop, if_neg hs]
  rw [hpop]
  apply List.ext_getElem
  · simp; omega
  · intro i h1 h2
    rcases i with _ | i
    · simp [getElem_content, Nat.mod_eq_of_lt hstart]
    · simp only [getElem_content, List.getElem_cons_succ, Nat.mod_add_mod]
      congr 2
      omega

/-- A linear buffer that is not empty stays linear: popping its last byte may wrap the start to
the first cell. -/
lemma Linear.pop_spec {b : CircularBuffer} (h : b.Linear) (hs : b.mSize ≠ 0) :
    b.pop.2.Linear ∧ b.content = b.pop.1 :: b.pop.2.content := by
  have hle := h.start_add_size_le
  have hvalid : b.Valid := ⟨h.length_buffer, by omega, by omega⟩
  refine ⟨⟨hvalid.pop.length_buffer, ?_⟩, hvalid.content_pop hs⟩
  rw [CircularBuffer.pop, if_neg hs]
  simp only
  rcases Nat.lt_or_ge (b.start + 1) b.mCapacity with hlt | hge
  · rw [Nat.mod_eq_of_lt hlt]
    omega
  · rw [show b.start + 1 = b.mCapacity by omega, Nat.mod_self]
    omega

lemma Valid.push {b : CircularBuffer} (h : b.Valid) (x : Byte) : (b.push x).Valid := by
  unfold CircularBuffer.push
  split_ifs with hs
  · exact h
  · exact ⟨by simpa using h.length_buffer, by have := h.size_le; simp; omega, h.start_lt⟩

@[simp] lemma mCapacity_push (b : CircularBuffer) (x : Byte) :
    (b.push x).mCapacity = b.mCapacity := by
  unfold CircularBuffer.push
  split_ifs <;> rfl

lemma Valid.content_push {b : CircularBuffer} (h : b.Valid) (x : Byte)
    (hs : b.mSize < b.mCapacity) : (b.push x).content = b.content ++ [x] := by
  obtain ⟨hlen, hsize, hstart⟩ := h
  rw [CircularBuffer.push, if_neg (by omega)]
  apply List.ext_getElem
  · simp
  · intro i h1 h2
    have hi : i < b.mSize + 1 := by simpa using h1
    rw [getElem_content, List.getElem_append]
    split_ifs with hold
    · have hi' : i < b.mSize := by simpa using hold
      -- the new byte goes to a cell that no older index uses
      have hne : (b.start + b.mSize) % b.mCapacity ≠ (b.start + i) % b.mCapacity := by
        rw [mod_one_wrap (by omega), mod_one_wrap (by omega)]
        split_ifs <;> omega
      simp only [getElem_content, List.getD_eq_getElem?_getD, List.getElem?_set_ne hne]
    · have hi' : i = b.mSize := by simp at hold; omega
      subst hi'
      have hlt : (b.start + b.mSize) % b.mCapacity < b.buffer.length := by
        rw [hlen]; exact Nat.mod_lt _ (by omega)
      simp [List.getD_eq_getElem?_getD, hlt]

/-! ### Piece by piece -/

lemma length_overwrite {buffer bytes : List Byte} {i : Nat}
    (h : i + bytes.length ≤ buffer.length) :
    (overwrite buffer i bytes).length = buffer.length := by
  simp [overwrite]; omega

/-- What is copied right behind what has been copied. -/
lemma overwrite_overwrite {buffer as bs : List Byte} {i : Nat}
    (h : i + as.length + bs.length ≤ buffer.length) :
    overwrite (overwrite buffer i as) (i + as.length) bs = overwrite buffer i (as ++ bs) := by
  have htake : (buffer.take i ++ as).length = i + as.length := by
    simp only [List.length_append, List.length_take]
    omega
  simp only [overwrite, List.length_append, List.append_assoc]
  rw [← List.append_assoc (buffer.take i) as, ← htake, List.take_left, List.drop_append, htake,
    List.drop_drop, List.drop_of_length_le (by omega : _ ≤ i + as.length + bs.length)]
  simp only [List.append_assoc, List.nil_append]
  congr 4
  omega

/-- Pushing to a linear buffer that is not wrapped by it appends as much as fits. -/
lemma Linear.pushBuffer_spec {b : CircularBuffer} (h : b.Linear) (hstart : b.start = 0)
    (buf : List Byte) :
    (b.pushBuffer buf).Linear ∧ (b.pushBuffer buf).start = 0 ∧
      (b.pushBuffer buf).mCapacity = b.mCapacity ∧
      (b.pushBuffer buf).content = b.content ++ buf.take (b.mCapacity - b.mSize) := by
  obtain ⟨hlen, hle⟩ := h
  rw [hstart] at hle
  -- a full buffer takes nothing, so the place where it would write does not matter
  have hbuffer : (b.pushBuffer buf).buffer =
      overwrite b.buffer b.mSize (buf.take (b.mCapacity - b.mSize)) := by
    have htake : buf.take (min buf.length (b.mCapacity - b.mSize)) =
        buf.take (b.mCapacity - b.mSize) := by
      rw [Nat.min_comm, ← List.take_take, List.take_length]
    simp only [pushBuffer, hstart, Nat.zero_add]
    rcases Nat.lt_or_ge b.mSize b.mCapacity with hlt | hge
    · rw [Nat.mod_eq_of_lt hlt, if_pos (by omega), htake]
    · have hfull : b.mSize = b.mCapacity := by omega
      simp [hfull, overwrite]
  have hlin : (b.pushBuffer buf).Linear := by
    refine ⟨?_, ?_⟩
    · rw [hbuffer, length_overwrite (by simp; omega), hlen]
      rfl
    · simp only [pushBuffer, hstart]
      omega
  refine ⟨hlin, hstart, rfl, ?_⟩
  rw [hlin.content_eq, Linear.content_eq ⟨hlen, by omega⟩, hbuffer]
  have hs : (b.pushBuffer buf).start = 0 := hstart
  have hn : (b.pushBuffer buf).mSize = b.mSize + min buf.length (b.mCapacity - b.mSize) := rfl
  rw [hs, hn, hstart]
  simp only [slice, overwrite, List.drop_zero, List.append_assoc]
  rw [← List.append_assoc, List.take_left' (by simp; omega)]

/-- `pop_buffer` from one linear buffer to another moves the longest prefix that fits. -/
lemma Linear.popBuffer_spec {b dst : CircularBuffer} (h : b.Linear) (hd : dst.Linear)
    (hstart : dst.start = 0) :
    (b.popBuffer dst).1.Linear ∧ (b.popBuffer dst).2.Linear ∧
      (b.popBuffer dst).2.start = 0 ∧ (b.popBuffer dst).2.mCapacity = dst.mCapacity ∧
      (b.popBuffer dst).1.content = b.content.drop (dst.mCapacity - dst.mSize) ∧
      (b.popBuffer dst).2.content =
        dst.content ++ b.content.take (dst.mCapacity - dst.mSize) := by
  have hdst : (b.popBuffer dst).2 = dst.pushBuffer b.content := by
    simp only [popBuffer, processWhole, if_pos h.start_add_size_le, h.content_eq]
  obtain ⟨hlin, hst, hcap, hcont⟩ := hd.pushBuffer_spec hstart b.content
  have hn : (dst.pushBuffer b.content).mSize - dst.mSize =
      min b.mSize (dst.mCapacity - dst.mSize) := by
    simp [pushBuffer]
  have hsrc : (b.popBuffer dst).1 =
      { b with
        start := b.start + min b.mSize (dst.mCapacity - dst.mSize)
        mSize := b.mSize - min b.mSize (dst.mCapacity - dst.mSize) } := by
    have : b.processWhole pushBuffer dst = dst.pushBuffer b.content := hdst
    simp only [popBuffer, this, hn]
  have hle := h.start_add_size_le
  have hlin1 : (b.popBuffer dst).1.Linear := by
    rw [hsrc]
    exact ⟨h.length_buffer, by simp only; omega⟩
  refine ⟨hlin1, hdst ▸ hlin, hdst ▸ hst, hdst ▸ hcap, ?_, hdst ▸ hcont⟩
  rw [hlin1.content_eq, h.content_eq, hsrc]
  simp only [slice, List.drop_take, List.drop_drop]
  rcases Nat.le_total b.mSize (dst.mCapacity - dst.mSize) with hfit | hfit
  · simp [Nat.min_eq_left hfit, Nat.sub_eq_zero_of_le hfit]
  · rw [Nat.min_eq_right hfit]

end CircularBuffer

end BackupProgram
