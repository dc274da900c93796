import BackupProgram.Native.StreamBlockReader

/-!
# Mixed reads

Bytes and whole blocks may be read in any order, with seeks in between. What they deliver is the
file from the last seek on, if no byte is read before the first block after a seek.
-/

namespace BackupProgram

/-- A buffer as the constructor and the operations leave it. -/
structure ByteBuffer where
  buffer : CircularBuffer
  length_buffer : buffer.buffer.length = buffer.mCapacity

namespace ByteByByteReader

inductive Call where
  | nextByte
  | wholeBlock (dst : ByteBuffer)
  | seek (offset : FileOffset)

/-- What a call returns: a byte or a block, if it has succeeded. -/
inductive Result where
  | byte (dst : Option Byte)
  | block (dst : Option (List Byte))
  | sought
deriving DecidableEq

def call (r : ByteByByteReader) : Call → Result × ByteByByteReader
  | .nextByte => (.byte r.nextByte.1, r.nextByte.2)
  | .wholeBlock dst =>
    let (ret, r, dst) := r.wholeBlock dst.buffer
    (.block (if ret then some dst.content else none), r)
  | .seek offset => (.sought, r.seek offset.offset)

def calls : ByteByByteReader → List Call → List Result
  | _, [] => []
  | r, c :: cs => (r.call c).1 :: calls (r.call c).2 cs

/-! ### A cursor -/

/-- A cursor that has the bytes `rest` in front of it, and blocks of `n` bytes. -/
def deliver (n : Nat) (file rest : List Byte) : Call → Result × List Byte
  | .nextByte => (.byte rest.head?, rest.tail)
  | .wholeBlock _ => (.block (if rest = [] then none else some (rest.take n)), rest.drop n)
  | .seek offset => (.sought, file.drop offset.offset)

def delivers (n : Nat) (file : List Byte) : List Byte → List Call → List Result
  | _, [] => []
  | rest, c :: cs => (deliver n file rest c).1 :: delivers n file (deliver n file rest c).2 cs

/-- No byte is read between a seek to a byte of the file and the next block; `sought` says that
there has been such a seek, and no block since. -/
def BlockFirst (file : List Byte) : Bool → List Call → Prop
  | _, [] => True
  | sought, .nextByte :: cs => sought = false ∧ BlockFirst file sought cs
  | _, .wholeBlock _ :: cs => BlockFirst file false cs
  | _, .seek offset :: cs => BlockFirst file (decide (offset.offset < file.length)) cs

/-! ### The reader as a cursor -/

lemma file_readMore2 (r : ByteByByteReader) : r.readMore2.2.file = r.file :=
  BlockByBlockReader.file_nextBlock _ _

lemma file_refill (r : ByteByByteReader) : r.refill.file = r.file := by
  rw [refill]
  split_ifs
  · exact file_readMore2 r
  · rfl

lemma file_nextByte (r : ByteByByteReader) : r.nextByte.2.file = r.file := by
  rw [nextByte]
  split_ifs
  · rfl
  · exact file_refill _

lemma file_popBuffer (r : ByteByByteReader) (dst : CircularBuffer) :
    (r.popBuffer dst).1.file = r.file := rfl

lemma file_wholeBlock (r : ByteByByteReader) (dst : CircularBuffer) :
    (r.wholeBlock dst).2.1.file = r.file := by
  rw [wholeBlock]
  dsimp only
  split_ifs
  · exact file_refill r
  · rw [file_readMore2, file_popBuffer, file_refill]
  · rw [file_refill, file_popBuffer, file_readMore2, file_popBuffer, file_refill]
  · rw [file_refill, file_popBuffer, file_refill]

lemma file_call (r : ByteByByteReader) (c : Call) : (r.call c).2.file = r.file := by
  cases c with
  | nextByte => exact file_nextByte r
  | wholeBlock dst => exact file_wholeBlock r dst.buffer
  | seek offset => rfl

/-- The reader stands where the cursor stands; after a seek its second buffer is still empty. -/
structure At (n : Nat) (file : List Byte) (sought : Bool) (rest : List Byte)
    (r : ByteByByteReader) : Prop where
  valid : r.Valid
  blockSize_eq : r.blockSize = n
  file_eq : r.file = file
  rest_eq : r.rest = rest
  primed : sought = false → r.Primed
  empty : sought = true → r.currentBuffer2.mSize = 0 ∧ rest ≠ []

variable {n : Nat} {file rest : List Byte} {sought : Bool} {r : ByteByByteReader}

lemma At.wholeBlock (h : At n file sought rest r) (dst : ByteBuffer) :
    (r.call (.wholeBlock dst)).1 = (deliver n file rest (.wholeBlock dst)).1 ∧
      At n file false (deliver n file rest (.wholeBlock dst)).2 (r.call (.wholeBlock dst)).2 := by
  have hfile := (file_call r (.wholeBlock dst)).trans h.file_eq
  by_cases hnil : rest = []
  · obtain ⟨hret, hvalid, hblock, hrest, -⟩ :=
      wholeBlock_of_rest_eq_nil h.valid dst.buffer (h.rest_eq.trans hnil)
    have hdrop : (deliver n file rest (.wholeBlock dst)).2 = [] := by
      rw [deliver, hnil, List.drop_nil]
    refine ⟨?_, hvalid, hblock.trans h.blockSize_eq, hfile, hrest.trans hdrop.symm,
      fun _ _ => hrest, by simp⟩
    simp only [call, deliver, hret, hnil, if_true, Bool.false_eq_true, if_false]
  · obtain ⟨hret, hvalid, hprimed, hblock, hrest, -, -, -, hcontent⟩ :=
      wholeBlock_spec h.valid dst.length_buffer (h.rest_eq ▸ hnil)
    rw [h.blockSize_eq] at hblock hrest hcontent
    rw [h.rest_eq] at hrest hcontent
    refine ⟨?_, hvalid, hblock, hfile, hrest, fun _ => hprimed, by simp⟩
    simp only [call, deliver, hret, hcontent, if_true, if_neg hnil]

lemma At.nextByte (h : At n file false rest r) :
    (r.call .nextByte).1 = (deliver n file rest .nextByte).1 ∧
      At n file false (deliver n file rest .nextByte).2 (r.call .nextByte).2 := by
  obtain ⟨hbyte, hvalid, hprimed, hblock, hrest⟩ := nextByte_spec h.valid (h.primed rfl)
  rw [h.rest_eq] at hbyte hrest
  exact ⟨congrArg Result.byte hbyte, hvalid, hblock.trans h.blockSize_eq,
    (file_call r .nextByte).trans h.file_eq, hrest, fun _ => hprimed, by simp⟩

/-- A byte that is read right after a seek is not delivered. -/
lemma At.not_nextByte (h : At n file true rest r) :
    (r.call .nextByte).1 ≠ (deliver n file rest .nextByte).1 := by
  obtain ⟨hempty, hne⟩ := h.empty rfl
  have hnone : r.nextByte.1 = none := by
    rw [ByteByByteReader.nextByte, CircularBuffer.size, if_pos hempty]
  obtain ⟨b, rest, rfl⟩ := List.exists_cons_of_ne_nil hne
  simp [call, deliver, hnone]

lemma At.seek (h : At n file sought rest r) (offset : FileOffset) :
    At n file (decide (offset.offset < file.length)) (deliver n file rest (.seek offset)).2
      (r.call (.seek offset)).2 := by
  obtain ⟨hvalid, hblock, hrest⟩ := seek_spec h.valid offset.offset
  rw [h.file_eq] at hrest
  refine ⟨hvalid, hblock.trans h.blockSize_eq, h.file_eq, hrest, fun hend _ => ?_,
    fun hlt => ⟨rfl, ?_⟩⟩
  · rw [decide_eq_false_iff_not, not_lt] at hend
    exact hrest.trans (List.drop_eq_nil_of_le hend)
  · rw [decide_eq_true_eq] at hlt
    rw [deliver, ne_eq, List.drop_eq_nil_iff]
    omega

lemma At.calls_eq_iff (h : At n file sought rest r) (cs : List Call) :
    r.calls cs = delivers n file rest cs ↔ BlockFirst file sought cs := by
  induction cs generalizing sought rest r with
  | nil => simp [calls, delivers, BlockFirst]
  | cons c cs ih =>
    rw [calls, delivers, List.cons.injEq]
    cases c with
    | nextByte =>
      rw [BlockFirst]
      cases sought with
      | true => simp [h.not_nextByte]
      | false =>
        obtain ⟨hresult, hat⟩ := h.nextByte
        rw [ih hat]
        simp [hresult]
    | wholeBlock dst =>
      obtain ⟨hresult, hat⟩ := h.wholeBlock dst
      rw [ih hat, BlockFirst]
      simp [hresult]
    | seek offset =>
      rw [ih (h.seek offset), BlockFirst]
      simp [call, deliver]

lemma at_new (file : List Byte) (disk : DiskReads) (blockSize : Nat) :
    At (if blockSize = 0 then defaultDiskBlockSize else blockSize) file false file
      (new file disk blockSize) := by
  have hnew := BlockByBlockReader.valid_new file disk blockSize
  have hpos := hnew.blockSize_pos
  obtain ⟨-, hvalid, hblock, hleft, hdst⟩ :=
    BlockByBlockReader.nextBlock_spec hnew (CircularBuffer.linear_new 1).length_buffer
  rw [if_neg (by simp [BlockByBlockReader.new, StreamBlockReader.new])] at hdst
  obtain ⟨hlinear, -, -, hcontent⟩ := hdst
  rw [BlockByBlockReader.rest_new] at hleft hcontent
  have hrest : (new file disk blockSize).rest = file := by
    calc _ = file.take _ ++ file.drop _ := congrArg₂ _ hcontent hleft
      _ = file := List.take_append_drop _ _
  have hfile := BlockByBlockReader.file_nextBlock (BlockByBlockReader.new file disk blockSize)
    (CircularBuffer.new 1)
  refine ⟨⟨hvalid, hlinear⟩, hblock, hfile, hrest,
    fun _ hempty => ?_, by simp⟩
  have hnil := hcontent.symm.trans (CircularBuffer.content_eq_nil.mpr hempty)
  rw [hrest]
  exact (List.take_eq_nil_iff.mp hnil).resolve_left (by omega)

/-- Whatever is called in whatever order, a byte or a block at a time, the reader of a file
delivers what a cursor delivers if, and only if, after a seek a block is read before any byte. -/
theorem calls_eq_delivers_iff (file : List Byte) (disk : DiskReads) (blockSize : Nat)
    (cs : List Call) :
    (new file disk blockSize).calls cs =
        delivers (if blockSize = 0 then defaultDiskBlockSize else blockSize) file file cs ↔
      BlockFirst file false cs :=
  (at_new file disk blockSize).calls_eq_iff cs

/-- The only byte of a file is not delivered after a seek to it. -/
theorem calls_ne_delivers_seek_zero :
    (new [7] ⟨fun _ => 1, fun _ => true⟩ 1).calls [.seek ⟨0, by norm_num⟩, .nextByte] ≠
      delivers 1 [7] [7] [.seek ⟨0, by norm_num⟩, .nextByte] := by
  have hcalls : (new [7] ⟨fun _ => 1, fun _ => true⟩ 1).calls [.seek ⟨0, by norm_num⟩, .nextByte] =
      [.sought, .byte none] := rfl
  rw [hcalls]
  decide

end ByteByByteReader

end BackupProgram
