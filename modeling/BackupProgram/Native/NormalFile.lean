import BackupProgram.Lib.Loops
import BackupProgram.Native.StreamBlockReader

/-!
# Plain files as streams

`NormalFile` takes whole blocks from its reader and hands them out in pieces of any size. Its `eof`
asks the reader, which meets the end of the file as soon as it delivers the last, shorter block.
-/

namespace BackupProgram

namespace Rsync

open Loops

/-- Of `temp` the last `tempSize` bytes are still to be handed out. `cancelled` says that a seek has
cancelled the pending read and has then been refused, so that the read cannot be collected. -/
structure NormalFile where
  reader : BlockByBlockReader
  temp : List Byte
  tempSize : Nat
  uniqueId : Nat
  cancelled : Bool

namespace NormalFile

/-- The constructor. -/
def new (file : List Byte) (disk : DiskReads) (uniqueId : Nat) : NormalFile where
  reader := BlockByBlockReader.new file disk 0
  temp := []
  tempSize := 0
  uniqueId := uniqueId
  cancelled := false

/-- By the time the system refuses an offset, the current buffer is gone. -/
def seek (f : NormalFile) (offset : Nat) : Bool × NormalFile :=
  if offset < 2 ^ 63 then
    (true, { f with reader := f.reader.seek offset, tempSize := 0, cancelled := false })
  else
    (false,
      { f with
        reader := { f.reader with currentBuffer := none, eof := false }
        cancelled := true })

/-- One round of the loop of `read`, on the file, the size that is left and what has been read so
far. -/
def readRound : NormalFile × Nat × List Byte →
    Except Unit (Round (NormalFile × Nat × List Byte) (Bool × List Byte × NormalFile))
  | (f, size, dst) =>
    if size = 0 then .ok (.done (true, dst, f))
    else if f.tempSize ≠ 0 then
      let consumed := min f.tempSize size
      let bytes := CircularBuffer.slice f.temp (f.temp.length - f.tempSize) consumed
      .ok (.again ({ f with tempSize := f.tempSize - consumed }, size - consumed, dst ++ bytes))
    else if f.cancelled then .ok (.done (false, dst, f))
    else
      let (more, reader, buffer) := f.reader.nextBlock (CircularBuffer.new 1)
      if more then
        let temp := buffer.processWhole (· ++ ·) []
        .ok (.again ({ f with reader := reader, temp := temp, tempSize := temp.length }, size, dst))
      else .ok (.done (true, dst, { f with reader := reader }))

/-- Of any two rounds of the loop one hands out a byte; a loop that needs more is stuck. -/
def read (f : NormalFile) (size : Nat) : Except Unit (Bool × List Byte × NormalFile) :=
  loop () readRound (2 * size + 2) (f, size, [])

def eof (f : NormalFile) : Bool := f.reader.eof

/-! ### Calls -/

inductive Call where
  | seek (offset : FileOffset)
  | read (size : Nat)
  | eof

inductive Result where
  | seek (ret : Bool)
  | read (ret : Bool) (dst : List Byte)
  | eof (ret : Bool)
  | stuck
deriving DecidableEq

def call (f : NormalFile) : Call → Result × NormalFile
  | .seek offset => (.seek (f.seek offset.offset).1, (f.seek offset.offset).2)
  | .read size =>
    match f.read size with
    | .error _ => (.stuck, f)
    | .ok (ret, dst, f) => (.read ret dst, f)
  | .eof => (.eof f.eof, f)

def calls : NormalFile → List Call → List Result
  | _, [] => []
  | f, c :: cs => (f.call c).1 :: calls (f.call c).2 cs

/-- The results that a byte cursor may give which has the bytes `rest` in front of it: `eof` is
false as long as a byte is left, and true once a read has come up `short`. -/
def Faithful (file : List Byte) : List Byte → Bool → List Call → List Result → Prop
  | _, _, [], [] => True
  | _, _, .seek offset :: cs, .seek ret :: results =>
    ret = true ∧ Faithful file (file.drop offset.offset) false cs results
  | rest, short, .read size :: cs, .read ret dst :: results =>
    (ret = true ∧ dst = rest.take size) ∧
      Faithful file (rest.drop size) (short || decide (rest.length < size)) cs results
  | rest, short, .eof :: cs, .eof ret :: results =>
    ((ret = true → rest = []) ∧ (short = true → ret = true)) ∧ Faithful file rest short cs results
  | _, _, _, _ => False

/-- The position lies inside the last block of the file from a seek on, which is not a whole one. -/
def InLastBlock (length pos : Nat) : Prop :=
  length / defaultDiskBlockSize * defaultDiskBlockSize < pos ∧ pos < length

/-- `eof` is not called inside the last block. The file from the last seek on has a length, of which
`pos` bytes have been asked for since. -/
def EofOutside (file : List Byte) : Nat → Nat → List Call → Prop
  | _, _, [] => True
  | _, _, .seek offset :: cs => EofOutside file (file.length - offset.offset) 0 cs
  | length, pos, .read size :: cs => EofOutside file length (pos + size) cs
  | length, pos, .eof :: cs => ¬ InLastBlock length pos ∧ EofOutside file length pos cs

/-! ### Blocks and positions -/

/-- The bytes that are still to be handed out of the last block. -/
def left (f : NormalFile) : List Byte := f.temp.drop (f.temp.length - f.tempSize)

/-- The file stands at a position of `whole`, which is the file from the last seek on, and has taken
`k` blocks of it from its reader. It takes a block only when it needs a byte of it; `size` is what
is still asked for. -/
structure At (file whole : List Byte) (pos k size : Nat) (f : NormalFile) : Prop where
  valid : f.reader.Valid
  blockSize_eq : f.reader.blockSize = defaultDiskBlockSize
  file_eq : f.reader.file = file
  tempSize_le : f.tempSize ≤ f.temp.length
  not_cancelled : f.cancelled = false
  left_eq : f.left ++ f.reader.rest = whole.drop pos
  rest_eq : f.reader.rest = whole.drop (k * defaultDiskBlockSize)
  eof_eq : f.reader.eof = decide (whole.length < k * defaultDiskBlockSize)
  needed : pos < whole.length → pos ≤ k * defaultDiskBlockSize ∧
    k * defaultDiskBlockSize < pos + defaultDiskBlockSize + min size 1

variable {file whole : List Byte} {pos k size : Nat} {f : NormalFile}

lemma At.length_left (h : At file whole pos k size f) : f.left.length = f.tempSize := by
  have := h.tempSize_le
  rw [left, List.length_drop]
  omega

/-- What is left of the last block ends where the block ends, or the file. -/
lemma At.tempSize_eq (h : At file whole pos k size f) :
    f.tempSize = (whole.length - pos) - (whole.length - k * defaultDiskBlockSize) := by
  have hlen := congrArg List.length h.left_eq
  rw [h.rest_eq, List.length_append, h.length_left, List.length_drop, List.length_drop] at hlen
  omega

/-- One piece is handed out. -/
lemma At.consume (h : At file whole pos k size f) :
    CircularBuffer.slice f.temp (f.temp.length - f.tempSize) (min f.tempSize size) =
        (whole.drop pos).take (min f.tempSize size) ∧
      At file whole (pos + min f.tempSize size) k (size - min f.tempSize size)
        { f with tempSize := f.tempSize - min f.tempSize size } := by
  have hle := h.tempSize_le
  have hlength := h.length_left
  have htempSize := h.tempSize_eq
  have hmin : min f.tempSize size ≤ f.left.length := by omega
  refine ⟨?_, h.valid, h.blockSize_eq, h.file_eq, ?_, h.not_cancelled, ?_, h.rest_eq, h.eof_eq,
    fun hpos => ?_⟩
  · rw [← h.left_eq, List.take_append_of_le_length hmin]
    rfl
  · exact (Nat.sub_le _ _).trans hle
  · have hleft : left { f with tempSize := f.tempSize - min f.tempSize size } =
        f.left.drop (min f.tempSize size) := by
      simp only [left, List.drop_drop]
      congr 1
      omega
    rw [hleft, ← List.drop_append_of_le_length hmin, h.left_eq, List.drop_drop]
  · obtain ⟨h1, h2⟩ := h.needed (by omega)
    omega

/-- Once all blocks have been handed out, the position is where the reader stands. -/
lemma At.rest_eq_drop (h : At file whole pos k size f) (htemp : f.tempSize = 0) :
    f.reader.rest = whole.drop pos := by
  have hnil : f.left = [] := List.length_eq_zero_iff.mp (h.length_left.trans htemp)
  rw [← h.left_eq, hnil, List.nil_append]

/-- The next block is taken. -/
lemma At.fetch (h : At file whole pos k size f) (hsize : size ≠ 0) (htemp : f.tempSize = 0)
    (hpos : pos < whole.length) :
    ∃ reader buffer, f.reader.nextBlock (CircularBuffer.new 1) = (true, reader, buffer) ∧
      At file whole pos (k + 1) size
        { f with
          reader := reader
          temp := buffer.processWhole (· ++ ·) []
          tempSize := (buffer.processWhole (· ++ ·) []).length } ∧
      (buffer.processWhole (· ++ ·) ([] : List Byte)).length ≠ 0 := by
  have hrest := h.rest_eq_drop htemp
  have hblock := h.valid.blockSize_pos
  have htempSize := h.tempSize_eq
  have hk : pos = k * defaultDiskBlockSize := by
    have := (h.needed hpos).1
    omega
  have hne : f.reader.rest ≠ [] := by
    rw [hrest, ne_eq, List.drop_eq_nil_iff]
    omega
  have heof : f.reader.eof = false := by
    rw [h.eof_eq, decide_eq_false_iff_not]
    omega
  have hfile := BlockByBlockReader.file_nextBlock f.reader (CircularBuffer.new 1)
  have heof' := BlockByBlockReader.eof_nextBlock h.valid
    (CircularBuffer.linear_new 1).length_buffer heof
  obtain ⟨hmore, hvalid, hsize', hleft, hdst⟩ := BlockByBlockReader.nextBlock_spec h.valid
    (CircularBuffer.linear_new 1).length_buffer
  rw [heof, if_neg (by simp)] at hdst
  rcases hnext : f.reader.nextBlock (CircularBuffer.new 1) with ⟨more, reader, buffer⟩
  simp only [hnext, h.blockSize_eq, hrest] at hfile heof' hmore hvalid hsize' hleft hdst
  obtain ⟨hlinear, hstart, hcapacity, hcontent⟩ := hdst
  have hwhole : buffer.processWhole (· ++ ·) [] = (whole.drop pos).take defaultDiskBlockSize := by
    rw [CircularBuffer.processWhole, if_pos hlinear.start_add_size_le, List.nil_append,
      ← hlinear.content_eq, hcontent]
  have hnext' : pos + defaultDiskBlockSize = (k + 1) * defaultDiskBlockSize := by
    rw [hk, Nat.succ_mul]
  rw [List.drop_drop, hnext'] at hleft
  rw [h.blockSize_eq] at hblock
  refine ⟨reader, buffer, ?_, ⟨hvalid, hsize', hfile.trans h.file_eq, le_refl _, h.not_cancelled,
    ?_, hleft, ?_, fun _ => ?_⟩, ?_⟩
  · rw [hmore, ← hrest, decide_eq_true hne]
  · rw [left, Nat.sub_self, List.drop_zero, hwhole, hleft, ← hnext', ← List.drop_drop,
      List.take_append_drop]
  · rw [heof', List.length_drop, decide_eq_decide]
    omega
  · omega
  · rw [hwhole, List.length_take, List.length_drop]
    omega

/-- The end of the file is met. -/
lemma At.fetch_end (h : At file whole pos k size f) (htemp : f.tempSize = 0)
    (hpos : whole.length ≤ pos) :
    ∃ reader buffer k', k ≤ k' ∧
      f.reader.nextBlock (CircularBuffer.new 1) = (false, reader, buffer) ∧ reader.eof = true ∧
      At file whole (pos + size) k' 0 { f with reader := reader } := by
  have hrest := h.rest_eq_drop htemp
  rw [List.drop_eq_nil_of_le hpos] at hrest
  have hblock := h.valid.blockSize_pos
  have hleft := h.left_eq
  rw [hrest, List.append_nil, List.drop_eq_nil_of_le hpos] at hleft
  have hdrop : whole.drop (pos + size) = [] := List.drop_eq_nil_of_le (by omega)
  cases heof : f.reader.eof with
  | true =>
    refine ⟨f.reader, CircularBuffer.new 1, k, le_refl _, ?_, heof, h.valid, h.blockSize_eq,
      h.file_eq, h.tempSize_le, h.not_cancelled, ?_, h.rest_eq, h.eof_eq, fun hlt => by omega⟩
    · rw [BlockByBlockReader.nextBlock, heof, if_pos rfl]
    · rw [hdrop, hrest, List.append_nil]
      exact hleft
  | false =>
    have hfile := BlockByBlockReader.file_nextBlock f.reader (CircularBuffer.new 1)
    have heof' := BlockByBlockReader.eof_nextBlock h.valid
      (CircularBuffer.linear_new 1).length_buffer heof
    obtain ⟨hmore, hvalid, hsize, hleft', -⟩ := BlockByBlockReader.nextBlock_spec h.valid
      (CircularBuffer.linear_new 1).length_buffer
    rcases hnext : f.reader.nextBlock (CircularBuffer.new 1) with ⟨more, reader, buffer⟩
    simp only [hnext, hrest, h.blockSize_eq, List.length_nil, List.drop_nil, ne_eq,
      not_true_eq_false, decide_false] at hfile heof' hmore hvalid hsize hleft'
    have hlen := congrArg List.length (h.rest_eq.symm.trans hrest)
    rw [List.length_drop, List.length_nil] at hlen
    rw [h.blockSize_eq] at hblock
    have heofTrue : reader.eof = true := heof'.trans (decide_eq_true hblock)
    have hlt : whole.length < (k + 1) * defaultDiskBlockSize := by
      rw [Nat.succ_mul]
      omega
    refine ⟨reader, buffer, k + 1, Nat.le_succ _, by rw [hmore], heofTrue, hvalid, hsize,
      hfile.trans h.file_eq, h.tempSize_le, h.not_cancelled, ?_, ?_, ?_, fun hlt => by omega⟩
    · rw [hdrop, hleft', List.append_nil]
      exact hleft
    · rw [hleft', List.drop_eq_nil_of_le hlt.le]
    · rw [heofTrue, decide_eq_true hlt]

/-- A read hands out what is asked for, or all there is; then the end of the file has been met. -/
lemma At.loop (h : At file whole pos k size f) (fuel : Nat) (dst : List Byte)
    (hfuel : 2 * size + (if f.tempSize = 0 then 1 else 0) < fuel) :
    ∃ f' k', k ≤ k' ∧
      loop () readRound fuel (f, size, dst) = .ok (true, dst ++ (whole.drop pos).take size, f') ∧
      At file whole (pos + size) k' 0 f' ∧
      (whole.length - pos < size → whole.length < k' * defaultDiskBlockSize) := by
  induction fuel generalizing f pos k size dst with
  | zero => omega
  | succ fuel ih =>
    by_cases hsize : size = 0
    · subst hsize
      refine ⟨f, k, le_refl _, ?_, h, fun hlt => by omega⟩
      rw [List.take_zero, List.append_nil]
      exact loop_of_done rfl
    by_cases htemp : f.tempSize = 0
    · rw [if_pos htemp] at hfuel
      rcases Nat.lt_or_ge pos whole.length with hlt | hge
      · obtain ⟨reader, buffer, hnext, hat, hne⟩ := h.fetch hsize htemp hlt
        obtain ⟨f', k', hk, hread, hat', heof⟩ := ih hat dst (by rw [if_neg hne]; omega)
        refine ⟨f', k', by omega, (loop_of_again ?_).trans hread, hat', heof⟩
        rw [readRound, if_neg hsize, if_neg (by simpa using htemp),
          if_neg (by simp [h.not_cancelled]), hnext]
        rfl
      · obtain ⟨reader, buffer, k', hk, hnext, heof, hat⟩ := h.fetch_end htemp hge
        refine ⟨_, k', hk, loop_of_done ?_, hat, fun _ => ?_⟩
        · rw [readRound, if_neg hsize, if_neg (by simpa using htemp),
            if_neg (by simp [h.not_cancelled]), hnext]
          simp [List.drop_eq_nil_of_le hge]
        · have := hat.eof_eq
          simpa [heof] using this
    · rw [if_neg htemp] at hfuel
      have htempSize := h.tempSize_eq
      obtain ⟨hbytes, hat⟩ := h.consume
      obtain ⟨f', k', hk, hread, hat', heof⟩ :=
        ih hat (dst ++ (whole.drop pos).take (min f.tempSize size))
          (by split_ifs <;> omega)
      have hsum : pos + min f.tempSize size + (size - min f.tempSize size) = pos + size := by omega
      have hsplit : min f.tempSize size + (size - min f.tempSize size) = size := by omega
      rw [hsum] at hat'
      have hround : readRound (f, size, dst) =
          .ok (.again ({ f with tempSize := f.tempSize - min f.tempSize size },
            size - min f.tempSize size, dst ++ (whole.drop pos).take (min f.tempSize size))) := by
        rw [readRound, if_neg hsize, if_pos htemp, ← hbytes]
      refine ⟨f', k', hk, (loop_of_again hround).trans ?_, hat', fun hlt => heof (by omega)⟩
      rw [hread, List.append_assoc, ← List.drop_drop, ← List.take_add, hsplit]

/-! ### Calls on a plain file -/

lemma At.read (h : At file whole pos k 0 f) (size : Nat) :
    ∃ f' k', k ≤ k' ∧ f.read size = .ok (true, (whole.drop pos).take size, f') ∧
      At file whole (pos + size) k' 0 f' ∧
      (whole.length - pos < size → whole.length < k' * defaultDiskBlockSize) := by
  have hat : At file whole pos k size f :=
    ⟨h.valid, h.blockSize_eq, h.file_eq, h.tempSize_le, h.not_cancelled, h.left_eq, h.rest_eq,
      h.eof_eq, fun hlt => ⟨(h.needed hlt).1, by have := (h.needed hlt).2; omega⟩⟩
  exact hat.loop (2 * size + 2) [] (by split_ifs <;> omega)

/-- A seek makes the rest of the file the whole of it. -/
lemma At.seek (h : At file whole pos k 0 f) (offset : FileOffset) :
    (f.seek offset.offset).1 = true ∧
      At file (file.drop offset.offset) 0 0 0 (f.seek offset.offset).2 := by
  rw [NormalFile.seek, if_pos offset.offset_lt]
  have hrest : (f.reader.seek offset.offset).rest = file.drop offset.offset := by
    rw [BlockByBlockReader.rest_seek, h.file_eq]
  refine ⟨rfl, BlockByBlockReader.valid_seek h.valid _, h.blockSize_eq, h.file_eq, Nat.zero_le _,
    rfl, ?_, ?_, ?_, fun _ => ⟨Nat.zero_le _, ?_⟩⟩
  · simp [left, hrest]
  · simp [hrest]
  · simp [BlockByBlockReader.seek]
  · simp [defaultDiskBlockSize]

/-- The end of the file has been met before its last byte exactly inside its last block. -/
lemma At.inLastBlock_iff (h : At file whole pos k 0 f) :
    f.eof = true ∧ pos < whole.length ↔ InLastBlock whole.length pos := by
  have hblock : 0 < defaultDiskBlockSize := by norm_num [defaultDiskBlockSize]
  rw [eof, h.eof_eq, decide_eq_true_eq, InLastBlock, ← Nat.div_lt_iff_lt_mul hblock]
  refine and_congr_left fun hpos => ?_
  obtain ⟨h1, h2⟩ := h.needed hpos
  constructor
  · intro hlt
    have hk : 1 * defaultDiskBlockSize ≤ k * defaultDiskBlockSize :=
      Nat.mul_le_mul_right _ (Nat.zero_lt_of_lt hlt)
    calc whole.length / defaultDiskBlockSize * defaultDiskBlockSize
        ≤ (k - 1) * defaultDiskBlockSize := Nat.mul_le_mul_right _ (by omega)
      _ < pos := by
        rw [Nat.sub_mul]
        omega
  · intro hlt
    exact Nat.lt_of_mul_lt_mul_right (hlt.trans_le h1)

lemma At.calls_iff (h : At file whole pos k 0 f) (short : Bool)
    (hshort : short = true → whole.length < k * defaultDiskBlockSize) (cs : List Call) :
    Faithful file (whole.drop pos) short cs (f.calls cs) ↔
      EofOutside file whole.length pos cs := by
  induction cs generalizing whole pos k f short with
  | nil => simp [calls, Faithful, EofOutside]
  | cons c cs ih =>
    cases c with
    | seek offset =>
      obtain ⟨hret, hat⟩ := h.seek offset
      have key := ih hat false (by simp)
      rw [List.drop_zero, List.length_drop] at key
      rw [calls, call, Faithful, EofOutside, hret, key]
      exact and_iff_right rfl
    | read size =>
      obtain ⟨f', k', hk, hread, hat, heof⟩ := h.read size
      have hle : k * defaultDiskBlockSize ≤ k' * defaultDiskBlockSize :=
        Nat.mul_le_mul_right _ hk
      have key := ih hat (short || decide ((whole.drop pos).length < size)) (by
        rw [Bool.or_eq_true, decide_eq_true_eq, List.length_drop]
        rintro (hs | hs)
        · exact (hshort hs).trans_le hle
        · exact heof hs)
      rw [← List.drop_drop] at key
      simp only [calls, call, hread, Faithful, EofOutside, key]
      exact and_iff_right ⟨trivial, trivial⟩
    | eof =>
      have hbyte : (f.eof = true → whole.drop pos = []) ↔ ¬ InLastBlock whole.length pos := by
        rw [← h.inLastBlock_iff, List.drop_eq_nil_iff, not_and, not_lt]
      have hmet : short = true → f.eof = true := fun hs => by
        rw [NormalFile.eof, h.eof_eq, decide_eq_true (hshort hs)]
      rw [calls, call, Faithful, EofOutside, hbyte, ih h short hshort]
      exact and_congr_left fun _ => and_iff_left hmet

lemma at_new (file : List Byte) (disk : DiskReads) (uniqueId : Nat) :
    At file file 0 0 0 (new file disk uniqueId) := by
  refine ⟨BlockByBlockReader.valid_new file disk 0, rfl, rfl, le_refl _, rfl, ?_, ?_, ?_,
    fun _ => ⟨Nat.zero_le _, ?_⟩⟩
  · simp [left, new]
  · simp [new]
  · simp [new, BlockByBlockReader.new, StreamBlockReader.new]
  · simp [defaultDiskBlockSize]

/-- Whatever is called in whatever order and in whatever pieces the system reads the file, a plain
file is a faithful byte cursor if, and only if, `eof` is not called inside the last block. -/
theorem faithful_calls_iff (file : List Byte) (disk : DiskReads) (uniqueId : Nat)
    (cs : List Call) :
    Faithful file file false cs ((new file disk uniqueId).calls cs) ↔
      EofOutside file file.length 0 cs :=
  (at_new file disk uniqueId).calls_iff false (by simp) cs

/-- One of two bytes is read: the end of the file has been met, and a byte is left. -/
theorem not_faithful_two_bytes :
    ¬ Faithful [7, 8] [7, 8] false [.read 1, .eof]
      ((new [7, 8] ⟨fun _ => 2, fun _ => true⟩ 0).calls [.read 1, .eof]) := by
  have hiff := (at_new [7, 8] ⟨fun _ => 2, fun _ => true⟩ 0).calls_iff false (by simp)
    [.read 1, .eof]
  rw [List.drop_zero] at hiff
  rw [hiff]
  simp [EofOutside, InLastBlock, defaultDiskBlockSize]

end NormalFile

end Rsync

end BackupProgram
