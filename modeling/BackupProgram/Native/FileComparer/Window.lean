import BackupProgram.Native.FileComparer.Search

/-!
# The window over the new file

`Fed` says that every byte that has been read is in the queue of the digest thread, in its next
block, or still to be added to it. `Window` says that the buffer of the comparer is the window of
the new file at a position, and that the maintained checksum is the checksum of that window.
-/

namespace BackupProgram

namespace FileComparer

variable {sha1 : List Byte → Digest} {oldFile : RsyncableFile} {newFile : File}

/-- The bytes in `pending` have been read, but not yet added to the blocks of the new file. -/
structure Fed (oldFile : RsyncableFile) (newFile : File) (pending : List Byte)
    (c : FileComparer) : Prop where
  oldFile_eq : c.oldFile = oldFile
  newBlockSize_eq : c.newBlockSize = RsyncableFile.scalerFunction newFile.size
  newTable_eq : c.newTable = []
  reader : c.reader.Valid
  blockSize_eq : c.reader.blockSize = oldFile.blockSize
  length_buffer : c.buffer.buffer.length = c.buffer.mCapacity
  capacity_eq : c.newBuffer.capacity = c.newBlockSize
  room : c.newBuffer.bytes.length < c.newBlockSize
  full : ∀ b ∈ c.processingQueue, b.capacity = c.newBlockSize ∧ b.bytes.length = c.newBlockSize
  bytes : (c.processingQueue.map SimpleBuffer.bytes).flatten ++
    (c.newBuffer.bytes ++ (pending ++ c.reader.rest)) = newFile.bytes

/-- The window of the new file at a position. -/
def window (oldFile : RsyncableFile) (newFile : File) (pos : Nat) : List Byte :=
  (newFile.bytes.drop pos).take oldFile.blockSize

structure Window (oldFile : RsyncableFile) (newFile : File) (pos : Nat) (c : FileComparer) : Prop
    extends Fed oldFile newFile [] c where
  primed : c.reader.Primed
  buffer : c.buffer.Valid
  mCapacity_eq : c.buffer.mCapacity = oldFile.blockSize
  content_eq : c.buffer.content = window oldFile newFile pos
  rest_eq : c.reader.rest = newFile.bytes.drop (pos + oldFile.blockSize)
  checksum_eq : c.checksum = computeRsyncRollingChecksum c.buffer.content
  pos_lt : pos < newFile.size

/-- Reading leaves the commands and the offsets alone. -/
structure Keeps (c c' : FileComparer) : Prop where
  result_eq : c'.result = c.result
  newOffset_eq : c'.newOffset = c.newOffset
  oldOffset_eq : c'.oldOffset = c.oldOffset

/-! ### Feeding -/

/-- The next block is pushed to the queue exactly when it is full. -/
lemma Fed.processNewBuffer {c : FileComparer} {pending pending' newBytes : List Byte}
    (h : Fed oldFile newFile pending c) (hle : newBytes.length ≤ c.newBlockSize)
    (hbytes : newBytes ++ pending' = c.newBuffer.bytes ++ pending) :
    Fed oldFile newFile pending'
      (FileComparer.processNewBuffer
        { c with newBuffer := { c.newBuffer with bytes := newBytes } }) := by
  have hpos : 0 < c.newBlockSize := by have := h.room; omega
  have hall : (c.processingQueue.map SimpleBuffer.bytes).flatten ++
      (newBytes ++ (pending' ++ c.reader.rest)) = newFile.bytes := by
    rw [← List.append_assoc newBytes, hbytes, List.append_assoc]
    exact h.bytes
  rw [FileComparer.processNewBuffer]
  simp only [SimpleBuffer.full, Bool.not_false, Bool.true_and, Bool.not_eq_true',
    beq_eq_false_iff_ne, ne_eq, h.capacity_eq]
  split_ifs with hfull
  · refine ⟨h.oldFile_eq, h.newBlockSize_eq, h.newTable_eq, h.reader, h.blockSize_eq,
      h.length_buffer, rfl, hpos, fun b hb => ?_, ?_⟩
    · rcases List.mem_append.mp hb with hb | hb
      · exact h.full b hb
      · rw [List.mem_singleton.mp hb]
        exact ⟨rfl, by simp only; omega⟩
    · simpa [SimpleBuffer.new] using hall
  · exact ⟨h.oldFile_eq, h.newBlockSize_eq, h.newTable_eq, h.reader, h.blockSize_eq,
      h.length_buffer, rfl, by simp only; omega, h.full, hall⟩

lemma Fed.addByte {c : FileComparer} {byte : Byte} {pending : List Byte}
    (h : Fed oldFile newFile (byte :: pending) c) :
    Fed oldFile newFile pending (c.addByte byte) := by
  have hroom := h.room
  exact h.processNewBuffer (by simp; omega) (by simp)

lemma Fed.addPieceLoop {fuel : Nat} {c : FileComparer} {piece pending : List Byte}
    (h : Fed oldFile newFile (piece ++ pending) c) (hfuel : piece.length ≤ fuel) :
    Fed oldFile newFile pending (addPieceLoop fuel c piece) := by
  induction fuel generalizing c piece with
  | zero =>
    rw [List.length_eq_zero_iff.mp (Nat.le_zero.mp hfuel), List.nil_append] at h
    exact h
  | succ fuel ih =>
    have hroom := h.room
    have hcap := h.capacity_eq
    rw [FileComparer.addPieceLoop]
    split_ifs with hnil
    · rw [List.length_eq_zero_iff.mp hnil, List.nil_append] at h
      exact h
    · refine ih (h.processNewBuffer ?_ ?_) ?_
      · simp only [List.length_append, List.length_take]
        omega
      · rw [List.append_assoc, ← List.append_assoc (List.take _ _), List.take_append_drop]
      · rw [List.length_drop]
        omega

lemma Fed.addBlock {c : FileComparer} {buffer : CircularBuffer} {pending : List Byte}
    (hlin : buffer.Linear) (h : Fed oldFile newFile (buffer.content ++ pending) c) :
    Fed oldFile newFile pending (c.addBlock buffer) := by
  rw [FileComparer.addBlock, CircularBuffer.processWhole, if_pos hlin.start_add_size_le]
  rw [hlin.content_eq] at h
  exact h.addPieceLoop (le_refl _)

/-- Feeding touches only the queue and the next block. -/
lemma addPieceLoop_eq (fuel : Nat) (c : FileComparer) (piece : List Byte) :
    ∃ queue newBuffer, addPieceLoop fuel c piece =
      { c with processingQueue := queue, newBuffer := newBuffer } := by
  induction fuel generalizing c piece with
  | zero => exact ⟨_, _, rfl⟩
  | succ fuel ih =>
    rw [addPieceLoop]
    split_ifs with hnil
    · exact ⟨_, _, rfl⟩
    · obtain ⟨queue, newBuffer, heq⟩ := ih _ (piece.drop _)
      rw [heq, processNewBuffer]
      split_ifs <;> exact ⟨_, _, rfl⟩

lemma addBlock_eq (c : FileComparer) {buffer : CircularBuffer} (hlin : buffer.Linear) :
    ∃ queue newBuffer, c.addBlock buffer =
      { c with processingQueue := queue, newBuffer := newBuffer } := by
  rw [addBlock, CircularBuffer.processWhole, if_pos hlin.start_add_size_le]
  exact addPieceLoop_eq _ _ _

lemma addByte_eq (c : FileComparer) (byte : Byte) :
    ∃ queue newBuffer, c.addByte byte =
      { c with processingQueue := queue, newBuffer := newBuffer } := by
  rw [addByte, processNewBuffer]
  split_ifs <;> exact ⟨_, _, rfl⟩

/-! ### Reading -/

/-- What the reader hands over has to be added to the blocks. -/
lemma Fed.read {c : FileComparer} {pending pending' : List Byte} {reader : ByteByByteReader}
    {buffer : CircularBuffer} {checksum : RollingChecksum} (h : Fed oldFile newFile pending c)
    (hvalid : reader.Valid) (hsize : reader.blockSize = oldFile.blockSize)
    (hbuffer : buffer.buffer.length = buffer.mCapacity)
    (hrest : pending' ++ reader.rest = pending ++ c.reader.rest) :
    Fed oldFile newFile pending'
      { c with reader := reader, buffer := buffer, checksum := checksum } :=
  ⟨h.oldFile_eq, h.newBlockSize_eq, h.newTable_eq, hvalid, hsize, hbuffer, h.capacity_eq, h.room,
    h.full, by rw [hrest]; exact h.bytes⟩

/-- At the end of the file the whole window stays as it is. -/
lemma readMoreData_of_rest_eq_nil {c : FileComparer} (h : Fed oldFile newFile [] c)
    (hrest : c.reader.rest = []) :
    c.readMoreData.1 = false ∧ Fed oldFile newFile [] c.readMoreData.2 ∧
      c.readMoreData.2.reader.rest = [] ∧ Keeps c c.readMoreData.2 := by
  obtain ⟨hret, hvalid, hsize, hrest', hdst⟩ :=
    ByteByByteReader.wholeBlock_of_rest_eq_nil h.reader c.buffer hrest
  have heq : c.readMoreData = (false, { c with reader := (c.reader.wholeBlock c.buffer).2.1 }) := by
    simp only [readMoreData, readAnotherBlock, hret, hdst, Bool.false_eq_true, if_false]
  rw [heq]
  refine ⟨rfl, h.read hvalid (hsize.trans h.blockSize_eq) h.length_buffer ?_, hrest',
    ⟨rfl, rfl, rfl⟩⟩
  rw [hrest, hrest']

/-- Reading a block moves the window to where the reader is. -/
lemma readMoreData_window {c : FileComparer} {pos : Nat} (h : Fed oldFile newFile [] c)
    (hrest : c.reader.rest = newFile.bytes.drop pos) (hpos : pos < newFile.size) :
    c.readMoreData.1 = true ∧ Window oldFile newFile pos c.readMoreData.2 ∧
      Keeps c c.readMoreData.2 := by
  have hne : c.reader.rest ≠ [] := by
    rw [hrest, ne_eq, List.drop_eq_nil_iff]
    exact not_le.mpr hpos
  obtain ⟨hret, hvalid, hprimed, hsize, hrest', hlin, hstart, hcap, hcontent⟩ :=
    ByteByByteReader.wholeBlock_spec h.reader h.length_buffer hne
  rw [h.blockSize_eq] at hsize hrest' hcap hcontent
  have hpos' : 0 < oldFile.blockSize := h.blockSize_eq ▸ h.reader.base.blockSize_pos
  rw [hrest] at hrest' hcontent
  set buffer := (c.reader.wholeBlock c.buffer).2.2
  have hbuffer : buffer.Valid :=
    ⟨hlin.length_buffer, by have := hlin.start_add_size_le; omega, by omega⟩
  have hfed : Fed oldFile newFile (buffer.content ++ [])
      { c with reader := (c.reader.wholeBlock c.buffer).2.1, buffer := buffer } := by
    apply h.read hvalid hsize hlin.length_buffer
    rw [List.append_nil, hcontent, hrest', List.take_append_drop, List.nil_append, hrest]
  have hadded := Fed.addBlock hlin hfed
  obtain ⟨queue, newBuffer, heq⟩ := addBlock_eq
    { c with reader := (c.reader.wholeBlock c.buffer).2.1, buffer := buffer } hlin
  rw [heq] at hadded
  have hread : c.readMoreData = (true,
      { c with
        reader := (c.reader.wholeBlock c.buffer).2.1
        buffer := buffer
        processingQueue := queue
        newBuffer := newBuffer
        checksum := buffer.computeRsyncRollingChecksum }) := by
    simp only [readMoreData, readAnotherBlock, hret, if_true]
    rw [heq]
  rw [hread]
  refine ⟨rfl, ⟨hadded.read hadded.reader hadded.blockSize_eq hlin.length_buffer rfl, hprimed,
    hbuffer, hcap, hcontent, ?_, ?_, hpos⟩, ⟨rfl, rfl, rfl⟩⟩
  · rw [hrest', List.drop_drop]
  · exact hbuffer.computeRsyncRollingChecksum_eq

/-- The next window is the tail of the window and the byte behind it, if there is one. -/
lemma window_succ {pos : Nat} {k : Byte} {ks : List Byte}
    (h : window oldFile newFile pos = k :: ks) :
    window oldFile newFile (pos + 1) =
        ks ++ (newFile.bytes.drop (pos + oldFile.blockSize)).head?.toList ∧
      newFile.bytes.drop (pos + 1 + oldFile.blockSize) =
        (newFile.bytes.drop (pos + oldFile.blockSize)).tail := by
  rw [window] at h
  obtain ⟨n, hn⟩ : ∃ n, oldFile.blockSize = n + 1 := by
    refine ⟨oldFile.blockSize - 1, ?_⟩
    have : oldFile.blockSize ≠ 0 := fun hz => by simp [hz] at h
    omega
  rw [hn] at h
  rw [window, hn]
  constructor
  · rw [← List.drop_drop, List.head?_drop]
    rcases hdrop : newFile.bytes.drop pos with _ | ⟨x, xs⟩
    · simp [hdrop] at h
    · rw [hdrop, List.take_succ_cons, List.cons.injEq] at h
      have hget : newFile.bytes[pos + (n + 1)]? = xs[n]? := by
        rw [← List.getElem?_drop, hdrop, List.getElem?_cons_succ]
      rw [← h.2, hget, List.drop_one, List.tail_cons, List.take_add_one]
  · rw [List.tail_drop]
    congr 1
    omega

/-- The window without its first byte. -/
def popFirst (c : FileComparer) : FileComparer :=
  { c with
    buffer := c.buffer.pop.2
    checksum := subtractRsyncRollingChecksum c.checksum c.buffer.pop.1 c.buffer.size }

lemma Window.popFirst_spec {c : FileComparer} {pos : Nat} (h : Window oldFile newFile pos c) :
    c.popFirst.buffer.Valid ∧ c.popFirst.buffer.mCapacity = oldFile.blockSize ∧
      c.popFirst.buffer.mSize + 1 = min oldFile.blockSize (newFile.size - pos) ∧
      c.popFirst.checksum = computeRsyncRollingChecksum c.popFirst.buffer.content ∧
      window oldFile newFile (pos + 1) = c.popFirst.buffer.content ++
        (newFile.bytes.drop (pos + oldFile.blockSize)).head?.toList := by
  have hpos : 0 < oldFile.blockSize := h.blockSize_eq ▸ h.reader.base.blockSize_pos
  have hlt := h.pos_lt
  have hlen := congrArg List.length h.content_eq
  rw [window, CircularBuffer.length_content, List.length_take, List.length_drop, ← File.size]
    at hlen
  have hpop := h.buffer.content_pop (by omega)
  have hlenPop : c.buffer.pop.2.mSize + 1 = c.buffer.mSize := by
    have := congrArg List.length hpop
    simpa using this.symm
  refine ⟨h.buffer.pop, ?_, hlenPop.trans hlen, ?_,
    (window_succ (h.content_eq.symm.trans hpop)).1⟩
  · rw [popFirst, CircularBuffer.mCapacity_pop, h.mCapacity_eq]
  · have hlength : c.buffer.size = c.buffer.pop.2.content.length + 1 := by
      rw [CircularBuffer.length_content, hlenPop, CircularBuffer.size]
    rw [popFirst, h.checksum_eq, hpop, hlength, subtract_computeRsyncRollingChecksum]

/-- With no byte left behind it, the window shrinks. -/
lemma Window.shrink {c : FileComparer} {pos : Nat} (h : Window oldFile newFile pos c)
    (hnil : newFile.bytes.drop (pos + oldFile.blockSize) = []) :
    ∃ reader, c.nonMatchingReadMoreData =
        (decide (c.popFirst.buffer.size ≠ 0), { c.popFirst with reader := reader }) ∧
      Fed oldFile newFile [] { c.popFirst with reader := reader } ∧ reader.Primed ∧
      reader.rest = [] := by
  obtain ⟨hbyte, hvalid, hprimed, hblock, hrest⟩ :=
    ByteByByteReader.nextByte_spec h.reader h.primed
  rw [h.rest_eq, hnil] at hbyte hrest
  rcases hnext : c.reader.nextByte with ⟨byte, reader⟩
  simp only [hnext] at hbyte hvalid hprimed hblock hrest
  subst hbyte
  refine ⟨reader, ?_, ?_, hprimed, hrest⟩
  · simp only [nonMatchingReadMoreData, readAnotherByte, hnext, List.head?_nil]
    rfl
  · apply h.toFed.read hvalid (hblock.trans h.blockSize_eq) h.buffer.pop.length_buffer
    rw [hrest, h.rest_eq, hnil, List.tail_nil]

/-- The byte behind the window takes the place of the first one. -/
lemma Window.slide {c : FileComparer} {pos : Nat} {x : Byte} {xs : List Byte}
    (h : Window oldFile newFile pos c)
    (hcons : newFile.bytes.drop (pos + oldFile.blockSize) = x :: xs) :
    c.nonMatchingReadMoreData.1 = true ∧
      Window oldFile newFile (pos + 1) c.nonMatchingReadMoreData.2 ∧
      Keeps c c.nonMatchingReadMoreData.2 := by
  obtain ⟨hpopValid, hcapacity, hlenPop, hsub, hwindow⟩ := h.popFirst_spec
  have hlong : pos + oldFile.blockSize < newFile.size := by
    by_contra hc
    rw [List.drop_eq_nil_of_le (not_lt.mp hc)] at hcons
    cases hcons
  have hpos : 0 < oldFile.blockSize := h.blockSize_eq ▸ h.reader.base.blockSize_pos
  have hpush := hpopValid.content_push x (by omega)
  obtain ⟨hbyte, hvalid, hprimed, hblock, hrest⟩ :=
    ByteByByteReader.nextByte_spec h.reader h.primed
  rw [h.rest_eq, hcons] at hbyte hrest
  rcases hnext : c.reader.nextByte with ⟨byte, reader⟩
  simp only [hnext] at hbyte hvalid hprimed hblock hrest
  rw [h.blockSize_eq] at hblock
  subst hbyte
  have hfed : Fed oldFile newFile [x] { c.popFirst with reader := reader } := by
    apply h.toFed.read hvalid hblock hpopValid.length_buffer
    rw [hrest, h.rest_eq, hcons]
    rfl
  have hadded := hfed.addByte
  obtain ⟨queue, newBuffer, heq⟩ := addByte_eq { c.popFirst with reader := reader } x
  rw [heq] at hadded
  have hread : c.nonMatchingReadMoreData = (true,
      { c.popFirst with
        buffer := c.popFirst.buffer.push x
        checksum := addRsyncRollingChecksum c.popFirst.checksum x (c.popFirst.buffer.push x).size
        reader := reader
        processingQueue := queue
        newBuffer := newBuffer }) := by
    simp only [popFirst] at heq
    simp only [nonMatchingReadMoreData, readAnotherByte, hnext, List.head?_cons, heq, popFirst]
  rw [hread]
  refine ⟨rfl, ⟨hadded.read hadded.reader hadded.blockSize_eq (hpopValid.push x).length_buffer rfl,
    hprimed, hpopValid.push x, ?_, ?_, ?_, ?_, by omega⟩, ⟨rfl, rfl, rfl⟩⟩
  · rw [CircularBuffer.mCapacity_push, hcapacity]
  · rw [hpush, hwindow, hcons, List.head?_cons, Option.toList_some]
  · rw [hrest, ← hcons, List.tail_drop, Nat.add_right_comm]
  · rw [hsub, add_computeRsyncRollingChecksum, hpush]

/-- Sliding the window by a byte. -/
lemma nonMatchingReadMoreData_window {c : FileComparer} {pos : Nat}
    (h : Window oldFile newFile pos c) :
    (pos + 1 < newFile.size ∧ c.nonMatchingReadMoreData.1 = true ∧
        Window oldFile newFile (pos + 1) c.nonMatchingReadMoreData.2 ∧
        Keeps c c.nonMatchingReadMoreData.2) ∨
      (pos + 1 = newFile.size ∧ c.nonMatchingReadMoreData.1 = false ∧
        Fed oldFile newFile [] c.nonMatchingReadMoreData.2 ∧
        c.nonMatchingReadMoreData.2.reader.rest = [] ∧ Keeps c c.nonMatchingReadMoreData.2) := by
  rcases hcase : newFile.bytes.drop (pos + oldFile.blockSize) with _ | ⟨x, xs⟩
  · obtain ⟨reader, hread, hfed, hprimed, hrest⟩ := h.shrink hcase
    obtain ⟨hpopValid, hcapacity, hlenPop, hsub, hwindow⟩ := h.popFirst_spec
    rw [hcase, List.head?_nil, Option.toList_none, List.append_nil] at hwindow
    have hlt := h.pos_lt
    have hshort : newFile.size ≤ pos + oldFile.blockSize := List.drop_eq_nil_iff.mp hcase
    rw [hread]
    by_cases hlast : pos + 1 = newFile.size
    · refine Or.inr ⟨hlast, ?_, hfed, hrest, ⟨rfl, rfl, rfl⟩⟩
      rw [decide_eq_false_iff_not, not_not, CircularBuffer.size]
      omega
    · refine Or.inl ⟨by omega, ?_, ⟨hfed, hprimed, hpopValid, hcapacity, hwindow.symm, ?_, hsub,
        by omega⟩, ⟨rfl, rfl, rfl⟩⟩
      · rw [decide_eq_true_eq, CircularBuffer.size]
        omega
      · rw [hrest, Nat.add_right_comm, ← List.tail_drop, hcase, List.tail_nil]
  · obtain ⟨hret, hslide, hkeeps⟩ := h.slide hcase
    exact Or.inl ⟨hslide.pos_lt, hret, hslide, hkeeps⟩

/-- The constructor, then `reset_state`: nothing has been read. -/
lemma fed_resetState (disk : DiskReads) (h : 0 < oldFile.blockSize) :
    Fed oldFile newFile [] (new newFile disk oldFile).resetState ∧
      (new newFile disk oldFile).resetState.reader.rest = newFile.bytes := by
  obtain ⟨hvalid, hsize, hfile⟩ := ByteByByteReader.new_spec newFile.bytes disk h
  obtain ⟨hvalid', hsize', hrest⟩ := ByteByByteReader.seek_spec hvalid 0
  have hpos : 0 < RsyncableFile.scalerFunction newFile.size :=
    RsyncableFile.scalerFunction_pos newFile.length_lt
  rw [hfile, List.drop_zero] at hrest
  exact ⟨⟨rfl, rfl, rfl, hvalid', hsize'.trans hsize, (CircularBuffer.linear_new 1).length_buffer,
    rfl, hpos, by simp [resetState, new], by simpa [resetState, new, SimpleBuffer.new] using hrest⟩,
    hrest⟩

end FileComparer

end BackupProgram
