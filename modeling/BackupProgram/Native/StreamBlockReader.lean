import BackupProgram.Lib.Loops
import BackupProgram.Native.CircularBuffer

/-!
# Reading a file by blocks and by bytes

`StreamBlockReader` reads a file in pieces as the operating system delivers them,
`BlockByBlockReader` cuts these pieces into blocks of its own size, and `ByteByByteReader` mixes
reads of whole blocks with reads of single bytes. `rest` is what such a reader still has to deliver.
-/

namespace BackupProgram

open Loops

/-- How the operating system answers the overlapped reads of one file: how many bytes it would
like to deliver for the `k`-th read, and whether that read reports the end of the file as an error
or as zero bytes. -/
structure DiskReads where
  transferred : Nat → Nat
  eofAsError : Nat → Bool

def defaultDiskBlockSize : Nat := 1 <<< 13

/-- The file pointer is a signed 64-bit number; any other offset is refused by the system. -/
structure FileOffset where
  offset : Nat
  offset_lt : offset < 2 ^ 63

structure StreamBlockReader where
  file : List Byte
  disk : DiskReads
  completed : Nat
  offset : Nat
  diskBlockSize : Nat
  eof : Bool

structure BlockByBlockReader extends StreamBlockReader where
  currentBuffer : Option CircularBuffer
  blockSize : Nat

structure ByteByByteReader extends BlockByBlockReader where
  currentBuffer2 : CircularBuffer

namespace StreamBlockReader

def new (file : List Byte) (disk : DiskReads) (blockSize : Nat := defaultDiskBlockSize) :
    StreamBlockReader where
  file := file
  disk := disk
  completed := 0
  offset := 0
  diskBlockSize := blockSize
  eof := false

/-- A read delivers at least one byte unless none is left, and no more than fit the buffer. -/
def bytesRead (r : StreamBlockReader) : Nat :=
  min (max 1 (r.disk.transferred r.completed)) (min r.diskBlockSize (r.file.length - r.offset))

/-- The pending read was issued at `offset` by `read_more` and is collected here. -/
def finishRead (r : StreamBlockReader) : Option CircularBuffer × StreamBlockReader :=
  let n := r.bytesRead
  if n = 0 ∧ r.disk.eofAsError r.completed then
    (none, { r with completed := r.completed + 1, eof := true })
  else
    let buffer := CircularBuffer.new r.diskBlockSize
    let bytes := CircularBuffer.slice r.file r.offset n
    let ret := { buffer with buffer := CircularBuffer.overwrite buffer.buffer 0 bytes }
    (some (ret.trim n), { r with completed := r.completed + 1, offset := r.offset + n })

end StreamBlockReader

namespace BlockByBlockReader

/-- The constructor; a block size of zero stands for the size of the disk buffer. -/
def new (file : List Byte) (disk : DiskReads) (blockSize : Nat) : BlockByBlockReader where
  toStreamBlockReader := StreamBlockReader.new file disk
  currentBuffer := none
  blockSize := if blockSize = 0 then defaultDiskBlockSize else blockSize

/-- A seek that the system accepts: the current buffer is dropped, the position and the end-of-file
mark are set and a read is issued. -/
def seek (r : BlockByBlockReader) (offset : Nat) : BlockByBlockReader :=
  { r with currentBuffer := none, eof := false, offset := offset }

/-- One round of the loop of `next_block`; the first part of the state says that the last round
ended with a disk read. -/
def nextBlockRound : Bool × BlockByBlockReader × CircularBuffer →
    Except Unit (Round (Bool × BlockByBlockReader × CircularBuffer)
      (BlockByBlockReader × CircularBuffer))
  | (read, r, dst) =>
    if dst.size < r.blockSize then
      match r.currentBuffer.filter (·.size ≠ 0) with
      | some buffer =>
        let (buffer, dst) := buffer.popBuffer dst
        .ok (.again (false, { r with currentBuffer := some buffer }, dst))
      | none =>
        if !read then
          let (buffer, s) := r.finishRead
          .ok (.again (true, { r with toStreamBlockReader := s, currentBuffer := buffer }, dst))
        else .ok (.done ({ r with eof := true }, dst))
    else .ok (.done (r, dst))

/-- The loop of `next_block`, which is stuck if so many rounds do not suffice. -/
def nextBlockLoop (rounds : Nat) (r : BlockByBlockReader) (dst : CircularBuffer) :
    Except Unit (BlockByBlockReader × CircularBuffer) :=
  loop () nextBlockRound rounds (false, r, dst)

/-- Of any two rounds of the loop one moves a byte to `dst`. A loop that is stuck would show in a
block that is longer than any block is. -/
def nextBlock (r : BlockByBlockReader) (dst : CircularBuffer) :
    Bool × BlockByBlockReader × CircularBuffer :=
  if r.eof then (false, r, dst)
  else
    match nextBlockLoop (2 * r.blockSize + 2) r (dst.realloc r.blockSize).resetSize with
    | .error _ => (true, r, CircularBuffer.new (r.blockSize + 1))
    | .ok (r, dst) => (decide (dst.size ≠ 0), r, dst)

end BlockByBlockReader

namespace ByteByByteReader

/-- The result of `next_block` is not used. -/
def readMore2 (r : ByteByByteReader) : Bool × ByteByByteReader :=
  let (_, r', buffer) := r.toBlockByBlockReader.nextBlock r.currentBuffer2
  (decide (buffer.size ≠ 0), { toBlockByBlockReader := r', currentBuffer2 := buffer })

def new (file : List Byte) (disk : DiskReads) (blockSize : Nat) : ByteByByteReader :=
  (readMore2
    { toBlockByBlockReader := BlockByBlockReader.new file disk blockSize
      currentBuffer2 := CircularBuffer.new 1 }).2

/-- `clear_buffers`, then the position and the end-of-file mark are set and a read is issued. -/
def seek (r : ByteByByteReader) (offset : Nat) : ByteByByteReader :=
  { r with
    currentBuffer := none
    currentBuffer2 := (CircularBuffer.new 1).resetSize
    eof := false
    offset := offset }

/-- `read_more2`, once the second buffer has been emptied. -/
def refill (r : ByteByByteReader) : ByteByByteReader :=
  if r.currentBuffer2.size = 0 then r.readMore2.2 else r

def nextByte (r : ByteByByteReader) : Option Byte × ByteByByteReader :=
  if r.currentBuffer2.size = 0 then (none, r)
  else
    let (dst, buffer) := r.currentBuffer2.pop
    (some dst, refill { r with currentBuffer2 := buffer })

/-- `current_buffer2->pop_buffer(dst)`. -/
def popBuffer (r : ByteByByteReader) (dst : CircularBuffer) : ByteByByteReader × CircularBuffer :=
  let (buffer, dst) := r.currentBuffer2.popBuffer dst
  ({ r with currentBuffer2 := buffer }, dst)

def wholeBlock (r : ByteByByteReader) (dst : CircularBuffer) :
    Bool × ByteByByteReader × CircularBuffer :=
  let r := r.refill
  if r.currentBuffer2.size = 0 then (false, r, dst)
  else
    let (r, dst) := r.popBuffer (dst.realloc r.blockSize).resetSize
    if dst.size ≠ dst.capacity then
      let (more, r) := r.readMore2
      if !more then (true, r, dst)
      else
        let (r, dst) := r.popBuffer dst
        (true, r.refill, dst)
    else (true, r.refill, dst)

end ByteByByteReader

/-! ### Blocks -/

lemma take_and_drop_of_append {α : Type*} {xs ys zs : List α} {n : Nat} (h : xs ++ ys = zs)
    (hle : xs.length ≤ n) (hfull : xs.length = n ∨ ys = []) : xs = zs.take n ∧ ys = zs.drop n := by
  subst h
  rcases hfull with rfl | rfl
  · simp
  · simp [List.take_of_length_le hle, hle]

lemma StreamBlockReader.bytesRead_eq_zero {r : StreamBlockReader} (hd : 0 < r.diskBlockSize) :
    r.bytesRead = 0 ↔ r.file.drop r.offset = [] := by
  rw [List.drop_eq_nil_iff, bytesRead]
  omega

namespace BlockByBlockReader

/-- The bytes that are left in the current buffer and in the file. -/
def rest (r : BlockByBlockReader) : List Byte :=
  (r.currentBuffer.elim [] CircularBuffer.content) ++ r.file.drop r.offset

structure Valid (r : BlockByBlockReader) : Prop where
  diskBlockSize_pos : 0 < r.diskBlockSize
  blockSize_pos : 0 < r.blockSize
  linear : ∀ b ∈ r.currentBuffer, b.Linear
  rest_of_eof : r.eof = true → r.rest = []

/-- What a disk read does: it moves bytes from the file to the current buffer, and if there are
none left to move, none are left at all. -/
lemma finishRead_spec {r : BlockByBlockReader} (h : r.Valid)
    (hempty : r.currentBuffer.elim [] CircularBuffer.content = []) :
    let r' : BlockByBlockReader :=
      { r with toStreamBlockReader := r.finishRead.2, currentBuffer := r.finishRead.1 }
    r'.Valid ∧ r'.rest = r.rest ∧
      (r'.currentBuffer.elim [] CircularBuffer.content = [] → r'.rest = []) := by
  have hd := h.diskBlockSize_pos
  have hrest : r.rest = r.file.drop r.offset := by rw [rest, hempty, List.nil_append]
  have hn := StreamBlockReader.bytesRead_eq_zero hd
  have hle : r.bytesRead ≤ r.diskBlockSize ∧ r.bytesRead ≤ r.file.length - r.offset := by
    unfold StreamBlockReader.bytesRead
    omega
  by_cases heof : r.bytesRead = 0 ∧ r.disk.eofAsError r.completed = true
  · have hnil : r.file.drop r.offset = [] := hn.mp heof.1
    simp only [StreamBlockReader.finishRead, if_pos heof]
    refine ⟨⟨hd, h.blockSize_pos, by simp, fun _ => ?_⟩, ?_, fun _ => ?_⟩ <;>
      simp [rest, hempty, hnil]
  · simp only [StreamBlockReader.finishRead, if_neg heof]
    set buffer : CircularBuffer :=
      { CircularBuffer.new r.diskBlockSize with
        buffer := CircularBuffer.overwrite (CircularBuffer.new r.diskBlockSize).buffer 0
          (CircularBuffer.slice r.file r.offset r.bytesRead) } with hbuffer
    have hnew := CircularBuffer.linear_new r.diskBlockSize
    have hlen : (CircularBuffer.new r.diskBlockSize).buffer.length = r.diskBlockSize := by
      rw [hnew.length_buffer]
      simp [CircularBuffer.new]
    have hslice : (CircularBuffer.slice r.file r.offset r.bytesRead).length = r.bytesRead := by
      rw [CircularBuffer.length_slice]
      omega
    have hsize : buffer.mSize = r.diskBlockSize := by simp [hbuffer, CircularBuffer.new]
    have hstart : buffer.start = 0 := by simp [hbuffer, CircularBuffer.new]
    have hlin : buffer.Linear := by
      refine ⟨?_, hnew.start_add_size_le⟩
      rw [hbuffer, CircularBuffer.length_overwrite (by omega)]
      exact hnew.length_buffer
    have hcontent : (buffer.trim r.bytesRead).content =
        CircularBuffer.slice r.file r.offset r.bytesRead := by
      rw [CircularBuffer.content_trim (by omega), hlin.content_eq, hsize, hstart,
        CircularBuffer.slice, List.drop_zero, List.take_take, Nat.min_eq_left (by omega), hbuffer,
        CircularBuffer.overwrite, List.take_zero, List.nil_append, List.take_left' hslice]
    have hrest' : CircularBuffer.slice r.file r.offset r.bytesRead ++
        r.file.drop (r.offset + r.bytesRead) = r.file.drop r.offset := by
      rw [CircularBuffer.slice, ← List.drop_drop, List.take_append_drop]
    refine ⟨⟨hd, h.blockSize_pos, ?_, fun he => ?_⟩, ?_, fun hnil => ?_⟩
    · intro b hb
      rw [Option.mem_some_iff] at hb
      exact hb ▸ hlin.trim _
    · rw [rest, Option.elim_some, hcontent, hrest', ← hrest]
      exact h.rest_of_eof he
    · rw [rest, Option.elim_some, hcontent, hrest', hrest]
    · rw [Option.elim_some, hcontent] at hnil
      rw [rest, Option.elim_some, hcontent, hrest']
      exact hn.mp (by rw [← hslice, hnil, List.length_nil])

/-- Bytes have been moved from the reader to the buffer until it was full or none were left. -/
structure Filled (r : BlockByBlockReader) (dst : CircularBuffer) (r' : BlockByBlockReader)
    (dst' : CircularBuffer) : Prop where
  valid : r'.Valid
  blockSize_eq : r'.blockSize = r.blockSize
  linear : dst'.Linear
  start_eq : dst'.start = 0
  capacity_eq : dst'.mCapacity = r.blockSize
  conserved : dst'.content ++ r'.rest = dst.content ++ r.rest
  full : dst'.mSize = r.blockSize ∨ r'.rest = []
  eof_eq : r'.eof = decide (dst'.mSize < r.blockSize)

/-- What the rounds of the loop keep, from the reader and the buffer it has begun with. -/
structure Filling (r₀ : BlockByBlockReader) (dst₀ : CircularBuffer)
    (s : Bool × BlockByBlockReader × CircularBuffer) : Prop where
  valid : s.2.1.Valid
  blockSize_eq : s.2.1.blockSize = r₀.blockSize
  linear : s.2.2.Linear
  start_eq : s.2.2.start = 0
  capacity_eq : s.2.2.mCapacity = r₀.blockSize
  conserved : s.2.2.content ++ s.2.1.rest = dst₀.content ++ r₀.rest
  drained : s.1 = true → s.2.1.currentBuffer.elim [] CircularBuffer.content = [] → s.2.1.rest = []
  short_of_eof : s.2.1.eof = true → s.2.2.mSize < r₀.blockSize

/-- Two for each missing byte, and one more before a disk read. -/
def roundsLeft (blockSize : Nat) (s : Bool × BlockByBlockReader × CircularBuffer) : Nat :=
  2 * (blockSize - s.2.2.mSize) + if s.1 then 0 else 1

section Round

variable {r₀ r : BlockByBlockReader} {dst₀ dst : CircularBuffer} {read : Bool}

/-- A filled buffer ends the loop. -/
lemma Filling.filled (h : Filling r₀ dst₀ (read, r, dst)) (hfull : ¬ dst.mSize < r₀.blockSize) :
    Filled r₀ dst₀ r dst := by
  have hle := h.linear.start_add_size_le
  have hstart := h.start_eq
  have hcap := h.capacity_eq
  dsimp only at hle hstart hcap
  refine ⟨h.valid, h.blockSize_eq, h.linear, hstart, hcap, h.conserved, .inl (by omega), ?_⟩
  rw [decide_eq_false hfull, ← Bool.not_eq_true]
  exact fun he => hfull (h.short_of_eof he)

lemma content_of_filter_eq_none (h : r.currentBuffer.filter (·.size ≠ 0) = none) :
    r.currentBuffer.elim [] CircularBuffer.content = [] := by
  rcases hcur : r.currentBuffer with _ | b
  · rfl
  · rw [hcur, Option.filter_eq_none_iff] at h
    have hb : b.mSize = 0 := by
      by_contra hne
      exact h b rfl (decide_eq_true hne)
    exact CircularBuffer.content_eq_nil.mpr hb

/-- Bytes are moved from the buffered ones, at least one. -/
lemma Filling.move (h : Filling r₀ dst₀ (read, r, dst)) {buffer : CircularBuffer}
    (hmem : r.currentBuffer = some buffer) (hsize : buffer.mSize ≠ 0) :
    Filling r₀ dst₀ (false, { r with currentBuffer := some (buffer.popBuffer dst).1 },
      (buffer.popBuffer dst).2) := by
  obtain ⟨hvalid, hblock, hlin, hstart, hcap, hconserved, -, -⟩ := h
  dsimp only at hvalid hblock hlin hstart hcap hconserved
  obtain ⟨hsrc, hd, hst, hc, hsrcContent, hdstContent⟩ :=
    (hvalid.linear buffer hmem).popBuffer_spec hlin hstart
  have hrest : r.rest = buffer.content ++ r.file.drop r.offset := by
    rw [rest, hmem, Option.elim_some]
  have hnotEof : ¬ r.eof = true := by
    intro he
    have hnil := hvalid.rest_of_eof he
    rw [hrest, List.append_eq_nil_iff, CircularBuffer.content_eq_nil] at hnil
    exact hsize hnil.1
  refine ⟨⟨hvalid.diskBlockSize_pos, hvalid.blockSize_pos, fun b hb => ?_,
    fun he => absurd he hnotEof⟩, hblock, hd, hst, hc.trans hcap, ?_, by simp,
    fun he => absurd he hnotEof⟩
  · rw [Option.mem_some_iff] at hb
    exact hb ▸ hsrc
  · calc _ = (buffer.popBuffer dst).2.content ++
          ((buffer.popBuffer dst).1.content ++ r.file.drop r.offset) := rfl
      _ = dst.content ++ r.rest := by
        rw [hdstContent, hsrcContent, hrest, List.append_assoc, ← List.append_assoc (List.take _ _),
          List.take_append_drop]
      _ = _ := hconserved

end Round

/-- A round ends the loop with a filled buffer, or brings it closer; an empty buffer after a disk
read means the end of the file. -/
lemma nextBlockRound_spec {r₀ : BlockByBlockReader} {dst₀ : CircularBuffer}
    (s : Bool × BlockByBlockReader × CircularBuffer) (h : Filling r₀ dst₀ s) :
    (∃ out, nextBlockRound s = .ok (.done out) ∧ Filled r₀ dst₀ out.1 out.2) ∨
      ∃ s', nextBlockRound s = .ok (.again s') ∧ Filling r₀ dst₀ s' ∧
        roundsLeft r₀.blockSize s' < roundsLeft r₀.blockSize s := by
  obtain ⟨read, r, dst⟩ := s
  rw [nextBlockRound]
  by_cases hfull : dst.size < r.blockSize
  swap
  · rw [if_neg hfull]
    have hblock : r.blockSize = r₀.blockSize := h.blockSize_eq
    exact .inl ⟨_, rfl, h.filled (hblock ▸ hfull)⟩
  rw [if_pos hfull]
  simp only [CircularBuffer.size] at hfull
  rcases hfilter : r.currentBuffer.filter (·.size ≠ 0) with _ | buffer
  · -- nothing is buffered: read from the disk, or stop at the end of the file
    have hempty := content_of_filter_eq_none hfilter
    obtain ⟨hvalid, hblock, hlin, hstart, hcap, hconserved, hdrained, -⟩ := h
    dsimp only at hvalid hblock hlin hstart hcap hconserved hdrained
    simp only [hfilter]
    cases read with
    | true =>
      have hnil := hdrained rfl hempty
      simp only [Bool.not_true, Bool.false_eq_true, if_false]
      refine .inl ⟨_, rfl, ⟨hvalid.diskBlockSize_pos, hvalid.blockSize_pos, hvalid.linear,
        fun _ => hnil⟩, hblock, hlin, hstart, hcap, hconserved, .inr hnil, ?_⟩
      exact (decide_eq_true (hblock ▸ hfull)).symm
    | false =>
      obtain ⟨hvalid', hrest, hend⟩ := finishRead_spec hvalid hempty
      simp only [Bool.not_false, if_true]
      refine .inr ⟨_, rfl, ⟨hvalid', hblock, hlin, hstart, hcap, ?_, fun _ => hend,
        fun _ => hblock ▸ hfull⟩, ?_⟩
      · exact (congrArg _ hrest).trans hconserved
      · simp only [roundsLeft, Bool.false_eq_true, if_false, if_true]
        omega
  · obtain ⟨hmem, hsize⟩ := Option.filter_eq_some_iff.mp hfilter
    have hsize' : buffer.mSize ≠ 0 := of_decide_eq_true hsize
    simp only [hfilter]
    refine .inr ⟨_, rfl, h.move hmem hsize', ?_⟩
    have hblock : r.blockSize = r₀.blockSize := h.blockSize_eq
    have hcap : dst.mCapacity = r₀.blockSize := h.capacity_eq
    obtain ⟨-, -, -, -, -, hdstContent⟩ :=
      (h.valid.linear buffer hmem).popBuffer_spec h.linear h.start_eq
    have hlen : (buffer.popBuffer dst).2.mSize =
        dst.mSize + min (dst.mCapacity - dst.mSize) buffer.mSize := by
      rw [← CircularBuffer.length_content, hdstContent]
      simp
    simp only [roundsLeft, hlen, Bool.false_eq_true, if_false]
    split_ifs <;> omega

/-- The loop fills `dst` up to the block size, and then it ends. -/
lemma exists_nextBlockLoop {rounds : Nat} {r : BlockByBlockReader} {dst : CircularBuffer}
    (h : r.Valid) (hdst : dst.buffer.length = dst.mCapacity) (heof : r.eof = false)
    (hrounds : 2 * r.blockSize + 2 ≤ rounds) :
    ∃ out, nextBlockLoop rounds r (dst.realloc r.blockSize).resetSize = .ok out ∧
      Filled r (dst.realloc r.blockSize).resetSize out.1 out.2 :=
  loop_of_variant () (Filling r (dst.realloc r.blockSize).resetSize)
    (fun out : BlockByBlockReader × CircularBuffer =>
      Filled r (dst.realloc r.blockSize).resetSize out.1 out.2)
    (roundsLeft r.blockSize) nextBlockRound_spec
    (show Filling _ _ (false, r, (dst.realloc r.blockSize).resetSize) from
      ⟨h, rfl, CircularBuffer.linear_realloc_resetSize hdst r.blockSize, by simp, by simp, rfl,
        by simp, by simp [heof]⟩)
    (show 2 * (r.blockSize - 0) + 1 < rounds by omega)

/-- `next_block` delivers the next `block_size` bytes of the file, fewer only at its end, and
leaves `dst` alone once the end has been met. -/
theorem nextBlock_spec {r : BlockByBlockReader} {dst : CircularBuffer} (h : r.Valid)
    (hdst : dst.buffer.length = dst.mCapacity) :
    (r.nextBlock dst).1 = decide (r.rest ≠ []) ∧ (r.nextBlock dst).2.1.Valid ∧
      (r.nextBlock dst).2.1.blockSize = r.blockSize ∧
      (r.nextBlock dst).2.1.rest = r.rest.drop r.blockSize ∧
      (if r.eof then (r.nextBlock dst).2.2 = dst
        else (r.nextBlock dst).2.2.Linear ∧ (r.nextBlock dst).2.2.start = 0 ∧
          (r.nextBlock dst).2.2.mCapacity = r.blockSize ∧
          (r.nextBlock dst).2.2.content = r.rest.take r.blockSize) := by
  by_cases heof : r.eof = true
  · have hnil := h.rest_of_eof heof
    simp [nextBlock, heof, hnil, h]
  obtain ⟨out, hloop, key⟩ := exists_nextBlockLoop h hdst (Bool.eq_false_iff.mpr heof) (le_refl _)
  simp only [nextBlock, if_neg heof, hloop]
  have hle := key.linear.start_add_size_le
  have hcap := key.capacity_eq
  have hconserved := key.conserved
  rw [CircularBuffer.content_resetSize, List.nil_append] at hconserved
  obtain ⟨htake, hdrop⟩ := take_and_drop_of_append hconserved (n := r.blockSize)
    (by simp; omega) (by simpa using key.full)
  refine ⟨?_, key.valid, key.blockSize_eq, hdrop, key.linear, key.start_eq, hcap, htake⟩
  have hpos := h.blockSize_pos
  have hlen := congrArg List.length htake
  simp only [CircularBuffer.length_content, List.length_take] at hlen
  rw [decide_eq_decide, CircularBuffer.size, ne_eq, ne_eq, ← List.length_eq_zero_iff]
  omega

/-- The end of the file is met by the block that it cuts short. -/
lemma eof_nextBlock {r : BlockByBlockReader} {dst : CircularBuffer} (h : r.Valid)
    (hdst : dst.buffer.length = dst.mCapacity) (heof : r.eof = false) :
    (r.nextBlock dst).2.1.eof = decide (r.rest.length < r.blockSize) := by
  have hnot : ¬ r.eof = true := by simp [heof]
  obtain ⟨out, hloop, key⟩ := exists_nextBlockLoop h hdst heof (le_refl _)
  obtain ⟨-, -, -, -, hout⟩ := nextBlock_spec h hdst
  rw [if_neg hnot] at hout
  have hlen := congrArg List.length hout.2.2.2
  simp only [nextBlock, if_neg hnot, hloop, CircularBuffer.length_content, List.length_take]
    at hlen ⊢
  rw [key.eof_eq, hlen, decide_eq_decide]
  omega

/-- No round changes the file. -/
lemma file_of_ends {s : Bool × BlockByBlockReader × CircularBuffer}
    {out : BlockByBlockReader × CircularBuffer} (h : Ends nextBlockRound s out) :
    out.1.file = s.2.1.file := by
  refine post_of_ends (fun s' => s'.2.1.file = s.2.1.file) (fun out => out.1.file = s.2.1.file)
    (fun s' hs' => ?_) rfl h
  obtain ⟨read, r, dst⟩ := s'
  have hfinish : r.finishRead.2.file = r.file := by
    rw [StreamBlockReader.finishRead]
    split_ifs <;> rfl
  rw [nextBlockRound]
  by_cases hfull : dst.size < r.blockSize
  · rw [if_pos hfull]
    rcases hfilter : r.currentBuffer.filter (·.size ≠ 0) with _ | buffer
    · simp only [hfilter]
      cases read with
      | true =>
        refine ⟨fun _ hround => (by cases hround), fun _ hround => ?_⟩
        cases hround
        exact hs'
      | false =>
        refine ⟨fun _ hround => ?_, fun _ hround => by cases hround⟩
        cases hround
        exact hfinish.trans hs'
    · simp only [hfilter]
      refine ⟨fun _ hround => ?_, fun _ hround => by cases hround⟩
      cases hround
      exact hs'
  · rw [if_neg hfull]
    refine ⟨fun _ hround => (by cases hround), fun _ hround => ?_⟩
    cases hround
    exact hs'

lemma file_nextBlock (r : BlockByBlockReader) (dst : CircularBuffer) :
    (r.nextBlock dst).2.1.file = r.file := by
  rw [nextBlock]
  split_ifs
  · rfl
  · rcases hloop : nextBlockLoop (2 * r.blockSize + 2) r (dst.realloc r.blockSize).resetSize with
      e | out
    · rfl
    · exact file_of_ends (ends_of_loop hloop)

lemma valid_seek {r : BlockByBlockReader} (h : r.Valid) (offset : Nat) : (r.seek offset).Valid :=
  ⟨h.diskBlockSize_pos, h.blockSize_pos, by simp [seek], by simp [seek]⟩

@[simp] lemma rest_seek (r : BlockByBlockReader) (offset : Nat) :
    (r.seek offset).rest = r.file.drop offset := by
  simp [rest, seek]

lemma valid_new (file : List Byte) (disk : DiskReads) (blockSize : Nat) :
    (new file disk blockSize).Valid := by
  refine ⟨by simp [new, StreamBlockReader.new, defaultDiskBlockSize], ?_, by simp [new],
    by simp [new, StreamBlockReader.new]⟩
  simp only [new, defaultDiskBlockSize]
  split_ifs <;> omega

@[simp] lemma rest_new (file : List Byte) (disk : DiskReads) (blockSize : Nat) :
    (new file disk blockSize).rest = file := by
  simp [new, rest, StreamBlockReader.new]

lemma blockSize_new {blockSize : Nat} (file : List Byte) (disk : DiskReads)
    (h : 0 < blockSize) : (new file disk blockSize).blockSize = blockSize := by
  simp [new, Nat.ne_of_gt h]

end BlockByBlockReader

/-! ### Blocks and bytes -/

namespace ByteByByteReader

/-- The bytes of the second buffer come before those of the block reader. -/
def rest (r : ByteByByteReader) : List Byte :=
  r.currentBuffer2.content ++ r.toBlockByBlockReader.rest

structure Valid (r : ByteByByteReader) : Prop where
  base : r.toBlockByBlockReader.Valid
  linear : r.currentBuffer2.Linear

/-- The second buffer is empty only at the end of the file. -/
def Primed (r : ByteByByteReader) : Prop :=
  r.currentBuffer2.mSize = 0 → r.rest = []

variable {r : ByteByByteReader}

lemma rest_eq_of_empty (hempty : r.currentBuffer2.mSize = 0) :
    r.rest = r.toBlockByBlockReader.rest := by
  rw [rest, CircularBuffer.content_eq_nil.mpr hempty, List.nil_append]

/-- `read_more2` on an empty second buffer moves a block to it. -/
lemma readMore2_spec (h : r.Valid) (hempty : r.currentBuffer2.mSize = 0) :
    r.readMore2.1 = decide (r.rest ≠ []) ∧ r.readMore2.2.Valid ∧
      r.readMore2.2.blockSize = r.blockSize ∧ r.readMore2.2.rest = r.rest ∧
      r.readMore2.2.Primed ∧
      r.readMore2.2.currentBuffer2.content = r.rest.take r.blockSize := by
  have hrest := rest_eq_of_empty hempty
  have hpos := h.base.blockSize_pos
  obtain ⟨-, hvalid, hsize, hleft, hdst⟩ :=
    BlockByBlockReader.nextBlock_spec h.base h.linear.length_buffer
  have hcontent : r.readMore2.2.currentBuffer2.content = r.rest.take r.blockSize := by
    by_cases heof : r.eof = true
    · rw [if_pos heof] at hdst
      rw [hrest, h.base.rest_of_eof heof, List.take_nil, CircularBuffer.content_eq_nil]
      exact (congrArg CircularBuffer.mSize hdst).trans hempty
    · rw [if_neg heof] at hdst
      exact hrest ▸ hdst.2.2.2
  have hlinear : r.readMore2.2.currentBuffer2.Linear := by
    by_cases heof : r.eof = true
    · rw [if_pos heof] at hdst
      exact Eq.mpr (congrArg CircularBuffer.Linear hdst) h.linear
    · rw [if_neg heof] at hdst
      exact hdst.1
  have hrest' : r.readMore2.2.rest = r.rest := by
    calc _ = r.rest.take r.blockSize ++ r.rest.drop r.blockSize := by
          rw [rest, hcontent, hrest]
          exact congrArg _ hleft
      _ = r.rest := List.take_append_drop _ _
  have hnil : r.readMore2.2.currentBuffer2.mSize = 0 ↔ r.rest = [] := by
    rw [← CircularBuffer.content_eq_nil, hcontent, List.take_eq_nil_iff]
    exact or_iff_right (by omega)
  refine ⟨?_, ⟨hvalid, hlinear⟩, hsize, hrest', fun hz => ?_, hcontent⟩
  · exact decide_eq_decide.mpr hnil.not
  · rw [hrest']
    exact hnil.mp hz

lemma refill_spec (h : r.Valid) :
    r.refill.Valid ∧ r.refill.blockSize = r.blockSize ∧ r.refill.rest = r.rest ∧
      r.refill.Primed := by
  rw [refill]
  split_ifs with hempty
  · obtain ⟨-, hvalid, hsize, hrest, hprimed, -⟩ := readMore2_spec h hempty
    exact ⟨hvalid, hsize, hrest, hprimed⟩
  · exact ⟨h, rfl, rfl, fun hz => absurd hz hempty⟩

/-- `next_byte` delivers the next byte of the file, if there is one. -/
theorem nextByte_spec (h : r.Valid) (hp : r.Primed) :
    r.nextByte.1 = r.rest.head? ∧ r.nextByte.2.Valid ∧ r.nextByte.2.Primed ∧
      r.nextByte.2.blockSize = r.blockSize ∧ r.nextByte.2.rest = r.rest.tail := by
  rw [nextByte, CircularBuffer.size]
  split_ifs with hempty
  · have hnil := hp hempty
    exact ⟨by rw [hnil]; rfl, h, hp, rfl, by rw [hnil]; rfl⟩
  · obtain ⟨hlin, hcontent⟩ := h.linear.pop_spec hempty
    have hrest : r.rest = r.currentBuffer2.pop.1 ::
        rest { r with currentBuffer2 := r.currentBuffer2.pop.2 } := by
      rw [rest, hcontent]
      rfl
    have hvalid : Valid { r with currentBuffer2 := r.currentBuffer2.pop.2 } := ⟨h.base, hlin⟩
    obtain ⟨hv, hb, hr, hpr⟩ := refill_spec hvalid
    rw [hrest]
    exact ⟨rfl, hv, hpr, hb, hr⟩

/-- `pop_buffer` moves bytes to `dst` until it is full or the second buffer is empty. -/
lemma popBuffer_spec (h : r.Valid) {dst : CircularBuffer} (hd : dst.Linear)
    (hstart : dst.start = 0) :
    (r.popBuffer dst).1.Valid ∧ (r.popBuffer dst).1.blockSize = r.blockSize ∧
      (r.popBuffer dst).2.Linear ∧ (r.popBuffer dst).2.start = 0 ∧
      (r.popBuffer dst).2.mCapacity = dst.mCapacity ∧
      (r.popBuffer dst).2.content ++ (r.popBuffer dst).1.rest = dst.content ++ r.rest ∧
      (r.popBuffer dst).2.mSize =
        dst.mSize + min (dst.mCapacity - dst.mSize) r.currentBuffer2.mSize ∧
      ((r.popBuffer dst).2.mSize = dst.mCapacity ∨
        (r.popBuffer dst).1.currentBuffer2.mSize = 0) := by
  obtain ⟨hsrc, hlin, hst, hcap, hsrcContent, hdstContent⟩ :=
    h.linear.popBuffer_spec hd hstart
  have hsize : (r.popBuffer dst).2.mSize =
      dst.mSize + min (dst.mCapacity - dst.mSize) r.currentBuffer2.mSize := by
    rw [← CircularBuffer.length_content]
    simp [popBuffer, hdstContent]
  have hleft : (r.popBuffer dst).1.currentBuffer2.mSize =
      r.currentBuffer2.mSize - (dst.mCapacity - dst.mSize) := by
    rw [← CircularBuffer.length_content]
    simp [popBuffer, hsrcContent]
  refine ⟨⟨h.base, hsrc⟩, rfl, hlin, hst, hcap, ?_, hsize, ?_⟩
  · simp only [popBuffer, rest, hsrcContent, hdstContent, List.append_assoc]
    rw [← List.append_assoc (List.take _ _), List.take_append_drop]
  · have hle := hd.start_add_size_le
    rw [hsize, hleft]
    omega

/-- `whole_block` delivers the next `block_size` bytes, fewer only at the end of the file. The
block is put together from what is left in the second buffer and, if that does not suffice, from
one more block of the block reader. -/
theorem wholeBlock_spec (h : r.Valid) {dst : CircularBuffer}
    (hdst : dst.buffer.length = dst.mCapacity) (hrest : r.rest ≠ []) :
    (r.wholeBlock dst).1 = true ∧ (r.wholeBlock dst).2.1.Valid ∧
      (r.wholeBlock dst).2.1.Primed ∧ (r.wholeBlock dst).2.1.blockSize = r.blockSize ∧
      (r.wholeBlock dst).2.1.rest = r.rest.drop r.blockSize ∧
      (r.wholeBlock dst).2.2.Linear ∧ (r.wholeBlock dst).2.2.start = 0 ∧
      (r.wholeBlock dst).2.2.mCapacity = r.blockSize ∧
      (r.wholeBlock dst).2.2.content = r.rest.take r.blockSize := by
  obtain ⟨hv1, hb1, hr1, hp1⟩ := refill_spec h
  rw [wholeBlock]
  dsimp only
  generalize r.refill = s at *
  have hs : s.currentBuffer2.mSize ≠ 0 := fun hz => hrest (hr1 ▸ hp1 hz)
  rw [CircularBuffer.size, if_neg hs, ← hb1, ← hr1]
  -- the first piece
  have hlin := CircularBuffer.linear_realloc_resetSize hdst s.blockSize
  obtain ⟨hv2, hb2, hd2, hst2, hcap2, hcons2, -, hfull2⟩ := popBuffer_spec hv1 hlin (by simp)
  rw [CircularBuffer.mCapacity_resetSize, CircularBuffer.mCapacity_realloc] at hcap2 hfull2
  rw [CircularBuffer.content_resetSize, List.nil_append] at hcons2
  generalize s.popBuffer (dst.realloc s.blockSize).resetSize = out at *
  have hle2 := hd2.start_add_size_le
  simp only [CircularBuffer.size, CircularBuffer.capacity]
  by_cases hfull : out.2.mSize = out.2.mCapacity
  · -- the first piece was a whole block
    obtain ⟨hv3, hb3, hr3, hp3⟩ := refill_spec hv2
    obtain ⟨htake, hdrop⟩ := take_and_drop_of_append hcons2 (n := s.blockSize)
      (by simp; omega) (Or.inl (by rw [CircularBuffer.length_content]; omega))
    simp only [ne_eq, hfull, not_true_eq_false, if_false]
    exact ⟨trivial, hv3, hp3, hb3.trans hb2, hr3.trans hdrop, hd2, hst2, hcap2, htake⟩
  simp only [ne_eq, hfull, not_false_eq_true, if_true]
  obtain ⟨hmore, hv3, hb3, hr3, hp3, hcontent3⟩ := readMore2_spec hv2 (by omega)
  by_cases hnil : out.1.rest = []
  · -- nothing is left for a second piece
    obtain ⟨htake, hdrop⟩ := take_and_drop_of_append hcons2 (n := s.blockSize)
      (by simp; omega) (Or.inr hnil)
    rw [if_pos (by simp [hmore, hnil])]
    exact ⟨rfl, hv3, hp3, hb3.trans hb2, hr3.trans hdrop, hd2, hst2, hcap2, htake⟩
  · -- the second piece comes from a full block, or from all that is left
    obtain ⟨hv4, hb4, hd4, hst4, hcap4, hcons4, hsize4, -⟩ := popBuffer_spec hv3 hd2 hst2
    obtain ⟨hv5, hb5, hr5, hp5⟩ := refill_spec hv4
    have hlen3 : out.1.readMore2.2.currentBuffer2.mSize = min s.blockSize out.1.rest.length := by
      rw [← CircularBuffer.length_content, hcontent3, List.length_take, hb2]
    rw [hr3, hcons2] at hcons4
    have hlen4 := congrArg List.length hcons4
    have hlen2 := congrArg List.length hcons2
    simp only [List.length_append, CircularBuffer.length_content] at hlen2 hlen4
    have hfull4 : (out.1.readMore2.2.popBuffer out.2).2.content.length = s.blockSize ∨
        (out.1.readMore2.2.popBuffer out.2).1.rest = [] := by
      rw [CircularBuffer.length_content, ← List.length_eq_zero_iff]
      omega
    obtain ⟨htake, hdrop⟩ := take_and_drop_of_append hcons4 (n := s.blockSize)
      (by rw [CircularBuffer.length_content]; omega) hfull4
    rw [if_neg (by simp [hmore, hnil])]
    exact ⟨rfl, hv5, hp5, by rw [hb5, hb4, hb3, hb2], hr5.trans hdrop, hd4, hst4,
      hcap4.trans hcap2, htake⟩

/-- At the end of the file `whole_block` fails and leaves `dst` alone. -/
lemma wholeBlock_of_rest_eq_nil (h : r.Valid) (dst : CircularBuffer) (hrest : r.rest = []) :
    (r.wholeBlock dst).1 = false ∧ (r.wholeBlock dst).2.1.Valid ∧
      (r.wholeBlock dst).2.1.blockSize = r.blockSize ∧ (r.wholeBlock dst).2.1.rest = [] ∧
      (r.wholeBlock dst).2.2 = dst := by
  obtain ⟨hv, hb, hr, -⟩ := refill_spec h
  have hempty : r.refill.currentBuffer2.size = 0 := by
    have hnil := hr.trans hrest
    rw [rest, List.append_eq_nil_iff] at hnil
    exact CircularBuffer.content_eq_nil.mp hnil.1
  rw [wholeBlock, if_pos hempty]
  exact ⟨rfl, hv, hb, hr.trans hrest, rfl⟩

/-- The constructor reads the first block. -/
lemma new_spec (file : List Byte) (disk : DiskReads) {blockSize : Nat} (h : 0 < blockSize) :
    (new file disk blockSize).Valid ∧ (new file disk blockSize).blockSize = blockSize ∧
      (new file disk blockSize).file = file := by
  have hfile := BlockByBlockReader.file_nextBlock (BlockByBlockReader.new file disk blockSize)
    (CircularBuffer.new 1)
  obtain ⟨-, hvalid, hsize, -, hdst⟩ := BlockByBlockReader.nextBlock_spec
    (BlockByBlockReader.valid_new file disk blockSize) (CircularBuffer.linear_new 1).length_buffer
  rw [if_neg (by simp [BlockByBlockReader.new, StreamBlockReader.new])] at hdst
  exact ⟨⟨hvalid, hdst.1⟩, hsize.trans (BlockByBlockReader.blockSize_new file disk h), hfile⟩

/-- After a seek the file is to be read from the offset on, and the second buffer is empty. -/
lemma seek_spec (h : r.Valid) (offset : Nat) :
    (r.seek offset).Valid ∧ (r.seek offset).blockSize = r.blockSize ∧
      (r.seek offset).rest = r.file.drop offset := by
  refine ⟨⟨⟨h.base.diskBlockSize_pos, h.base.blockSize_pos, by simp [seek], by simp [seek]⟩,
    (CircularBuffer.linear_new 1).resetSize⟩, rfl, ?_⟩
  simp [rest, seek, BlockByBlockReader.rest]

end ByteByByteReader

end BackupProgram
