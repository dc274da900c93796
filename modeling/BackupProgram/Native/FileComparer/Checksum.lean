import BackupProgram.Native.ByteByByteReader
import BackupProgram.Native.FileComparer.Delta

/-!
# The maintained checksum

The comparer reads whole blocks and slides by single bytes in any order the searches lead to. The
checksum it maintains is that of its buffer in every state it can get into, and its searches find
all there is to find.
-/

namespace BackupProgram

namespace FileComparer

/-- The states of a comparer once its first block has been read: it may read a block, slide by a
byte or shrink at the end of the file, search, and go on with its commands. -/
inductive Reachable (sha1 : List Byte → Digest) (newFile : File) (disk : DiskReads)
    (oldFile : RsyncableFile) : FileComparer → Prop where
  | start {c : FileComparer} :
    { (new newFile disk oldFile).resetState with newOffset := 0, oldOffset := 0 }.readMoreData =
      (true, c) →
    Reachable sha1 newFile disk oldFile c
  | readMoreData {c : FileComparer} :
    Reachable sha1 newFile disk oldFile c → Reachable sha1 newFile disk oldFile c.readMoreData.2
  | nonMatchingReadMoreData {c : FileComparer} :
    Reachable sha1 newFile disk oldFile c →
    Reachable sha1 newFile disk oldFile c.nonMatchingReadMoreData.2
  | search {c : FileComparer} (offsetValid : Bool) (targetOffset : Nat) :
    Reachable sha1 newFile disk oldFile c →
    Reachable sha1 newFile disk oldFile (c.search sha1 offsetValid targetOffset).2
  | command {c : FileComparer} (state : State) (result : List RsyncCommand) (newOffset : Nat) :
    Reachable sha1 newFile disk oldFile c →
    Reachable sha1 newFile disk oldFile
      { c with state := state, result := result, newOffset := newOffset }

/-- What reads and searches rely on: the reader and the buffer are as their operations leave them,
and the checksum is that of the buffer. -/
structure Maintained (c : FileComparer) : Prop where
  reader : c.reader.Valid
  primed : c.reader.Primed
  buffer : c.buffer.Valid
  checksum_eq : c.checksum = computeRsyncRollingChecksum c.buffer.content

variable {sha1 : List Byte → Digest} {newFile : File} {disk : DiskReads} {oldFile : RsyncableFile}
  {c : FileComparer}

/-- A block that has been read is the new window; at the end of the file the window stays. -/
lemma maintained_readMoreData (hreader : c.reader.Valid)
    (hlength : c.buffer.buffer.length = c.buffer.mCapacity) :
    (c.readMoreData.1 = true ∧ Maintained c.readMoreData.2) ∨
      (c.readMoreData.1 = false ∧ c.readMoreData.2.reader.Valid ∧ c.readMoreData.2.reader.Primed ∧
        c.readMoreData.2.buffer = c.buffer ∧ c.readMoreData.2.checksum = c.checksum) := by
  by_cases hrest : c.reader.rest = []
  · obtain ⟨hret, hvalid, -, hrest', hdst⟩ :=
      ByteByByteReader.wholeBlock_of_rest_eq_nil hreader c.buffer hrest
    have heq : c.readMoreData =
        (false, { c with reader := (c.reader.wholeBlock c.buffer).2.1 }) := by
      simp only [readMoreData, readAnotherBlock, hret, hdst, Bool.false_eq_true, if_false]
    rw [heq]
    exact Or.inr ⟨rfl, hvalid, fun _ => hrest', rfl, rfl⟩
  · obtain ⟨hret, hvalid, hprimed, -, -, hlin, hstart, hcap, -⟩ :=
      ByteByByteReader.wholeBlock_spec hreader hlength hrest
    have hpos := hreader.base.blockSize_pos
    set buffer := (c.reader.wholeBlock c.buffer).2.2
    have hbuffer : buffer.Valid :=
      ⟨hlin.length_buffer, by have := hlin.start_add_size_le; omega, by omega⟩
    obtain ⟨queue, newBuffer, heq⟩ := addBlock_eq
      { c with reader := (c.reader.wholeBlock c.buffer).2.1, buffer := buffer } hlin
    have hread : c.readMoreData = (true,
        { c with
          reader := (c.reader.wholeBlock c.buffer).2.1
          buffer := buffer
          processingQueue := queue
          newBuffer := newBuffer
          checksum := buffer.computeRsyncRollingChecksum }) := by
      simp only [readMoreData, readAnotherBlock, hret, if_true]
      rw [heq]
    rw [hread]
    exact Or.inl ⟨rfl, hvalid, hprimed, hbuffer, hbuffer.computeRsyncRollingChecksum_eq⟩

/-- Taking the first byte out of the checksum; an empty buffer gives a zero. -/
lemma subtract_pop (h : Maintained c) :
    subtractRsyncRollingChecksum c.checksum c.buffer.pop.1 c.buffer.size =
      computeRsyncRollingChecksum c.buffer.pop.2.content := by
  rw [h.checksum_eq]
  by_cases hsize : c.buffer.mSize = 0
  · have hpop : c.buffer.pop = (0, c.buffer) := by rw [CircularBuffer.pop, if_pos hsize]
    rw [hpop, CircularBuffer.content_eq_nil.mpr hsize, CircularBuffer.size, hsize]
    exact (by decide : subtractRsyncRollingChecksum (computeRsyncRollingChecksum []) 0 0 =
      computeRsyncRollingChecksum [])
  · have hcontent := h.buffer.content_pop hsize
    have hlength : c.buffer.size = c.buffer.pop.2.content.length + 1 := by
      rw [CircularBuffer.size, ← CircularBuffer.length_content, hcontent, List.length_cons]
    rw [hcontent, hlength, subtract_computeRsyncRollingChecksum]

lemma Maintained.nonMatchingReadMoreData (h : Maintained c) :
    Maintained c.nonMatchingReadMoreData.2 := by
  have hsub := subtract_pop h
  obtain ⟨hbyte, hvalid, hprimed, -, -⟩ := ByteByByteReader.nextByte_spec h.reader h.primed
  rcases hnext : c.reader.nextByte with ⟨_ | byte, reader⟩
  · rw [hnext] at hvalid hprimed
    simp only [FileComparer.nonMatchingReadMoreData, readAnotherByte, hnext]
    exact ⟨hvalid, hprimed, h.buffer.pop, hsub⟩
  · rw [hnext] at hvalid hprimed
    obtain ⟨queue, newBuffer, heq⟩ := addByte_eq
      { c with
        buffer := c.buffer.pop.2
        checksum := subtractRsyncRollingChecksum c.checksum c.buffer.pop.1 c.buffer.size
        reader := reader } byte
    have hroom : c.buffer.pop.2.mSize < c.buffer.pop.2.mCapacity := by
      have hle := h.buffer.size_le
      have hlt := h.buffer.start_lt
      rw [CircularBuffer.mCapacity_pop, CircularBuffer.pop]
      split_ifs <;> simp only <;> omega
    simp only [FileComparer.nonMatchingReadMoreData, readAnotherByte, hnext, heq]
    refine ⟨hvalid, hprimed, h.buffer.pop.push byte, ?_⟩
    rw [hsub, add_computeRsyncRollingChecksum, h.buffer.pop.content_push byte hroom]

variable (sha1) in
lemma search_eq (c : FileComparer) (offsetValid : Bool) (targetOffset : Nat) :
    ∃ oldOffset,
      (c.search sha1 offsetValid targetOffset).2 = { c with oldOffset := oldOffset } := by
  rw [search]
  dsimp only
  split_ifs <;> exact ⟨_, rfl⟩

lemma maintained_of_reachable (h : Reachable sha1 newFile disk oldFile c) : Maintained c := by
  induction h with
  | start hstart =>
    have hat := ByteByByteReader.at_new newFile.bytes disk oldFile.blockSize
    have hvalid := (ByteByByteReader.seek_spec hat.valid 0).1
    rcases maintained_readMoreData (c :=
      { (new newFile disk oldFile).resetState with newOffset := 0, oldOffset := 0 }) hvalid
      (CircularBuffer.linear_new 1).length_buffer with ⟨-, hmaintained⟩ | ⟨hret, -⟩
    · rw [hstart] at hmaintained
      exact hmaintained
    · rw [hstart] at hret
      cases hret
  | readMoreData _ ih =>
    rcases maintained_readMoreData ih.reader ih.buffer.length_buffer with
      ⟨-, hmaintained⟩ | ⟨-, hvalid, hprimed, hbuffer, hchecksum⟩
    · exact hmaintained
    · exact ⟨hvalid, hprimed, hbuffer ▸ ih.buffer, by rw [hchecksum, hbuffer, ih.checksum_eq]⟩
  | nonMatchingReadMoreData _ ih => exact ih.nonMatchingReadMoreData
  | @search c offsetValid targetOffset _ ih =>
    obtain ⟨oldOffset, heq⟩ := search_eq sha1 c offsetValid targetOffset
    rw [heq]
    exact ⟨ih.reader, ih.primed, ih.buffer, ih.checksum_eq⟩
  | command _ _ _ _ ih => exact ⟨ih.reader, ih.primed, ih.buffer, ih.checksum_eq⟩

lemma oldFile_addBlock (c : FileComparer) (buffer : CircularBuffer) :
    (c.addBlock buffer).oldFile = c.oldFile := by
  have hpiece : ∀ (c : FileComparer) (piece : List Byte),
    (c.addPiece piece).oldFile = c.oldFile := by
    intro c piece
    obtain ⟨queue, newBuffer, heq⟩ := addPieceLoop_eq piece.length c piece
    rw [addPiece, heq]
  rw [addBlock, CircularBuffer.processWhole]
  split_ifs
  · exact hpiece _ _
  · rw [hpiece, hpiece]

lemma oldFile_readMoreData (c : FileComparer) : c.readMoreData.2.oldFile = c.oldFile := by
  rcases hread : c.reader.wholeBlock c.buffer with ⟨ret, reader, buffer⟩
  simp only [readMoreData, readAnotherBlock, hread]
  cases ret with
  | false => rfl
  | true => exact oldFile_addBlock _ _

lemma oldFile_nonMatchingReadMoreData (c : FileComparer) :
    c.nonMatchingReadMoreData.2.oldFile = c.oldFile := by
  rcases hnext : c.reader.nextByte with ⟨_ | byte, reader⟩
  · simp only [nonMatchingReadMoreData, readAnotherByte, hnext]
  · obtain ⟨queue, newBuffer, heq⟩ := addByte_eq
      { c with
        buffer := c.buffer.pop.2
        checksum := subtractRsyncRollingChecksum c.checksum c.buffer.pop.1 c.buffer.size
        reader := reader } byte
    simp only [nonMatchingReadMoreData, readAnotherByte, hnext, heq]

/-- The comparer keeps the old file. -/
lemma oldFile_of_reachable (h : Reachable sha1 newFile disk oldFile c) : c.oldFile = oldFile := by
  induction h with
  | @start c hstart =>
    have hread := oldFile_readMoreData
      { (new newFile disk oldFile).resetState with newOffset := 0, oldOffset := 0 }
    rw [hstart] at hread
    exact hread
  | readMoreData _ ih => exact (oldFile_readMoreData _).trans ih
  | nonMatchingReadMoreData _ ih => exact (oldFile_nonMatchingReadMoreData _).trans ih
  | @search c offsetValid targetOffset _ ih =>
    obtain ⟨oldOffset, heq⟩ := search_eq sha1 c offsetValid targetOffset
    rw [heq]
    exact ih
  | command _ _ _ _ ih => exact ih

/-- All ways to compute a rolling checksum agree: the one that the comparer maintains, the one of
its buffer, wrapped around or not, and the one that is folded over the pieces of a byte string. -/
theorem checksum_eq_of_reachable (h : Reachable sha1 newFile disk oldFile c) :
    (c.checksum = computeRsyncRollingChecksum c.buffer.content ∧
        c.buffer.computeRsyncRollingChecksum = c.checksum) ∧
      (∀ b : CircularBuffer, b.Valid → ∀ offset logicalSize previous,
        b.computeRsyncRollingChecksumPiece offset logicalSize previous =
          computeRsyncRollingChecksumPiece b.content offset logicalSize previous) ∧
      ∀ pieces : List (List Byte), checksumOfPieces pieces.flatten.length 0 pieces 0 =
        computeRsyncRollingChecksum pieces.flatten := by
  have hmaintained := maintained_of_reachable h
  refine ⟨⟨hmaintained.checksum_eq, ?_⟩, fun b hb => hb.computeRsyncRollingChecksumPiece_eq,
    checksumOfPieces_eq⟩
  rw [hmaintained.buffer.computeRsyncRollingChecksum_eq, hmaintained.checksum_eq]

/-! ### Searching in any state -/

/-- The digest of an old file, as either constructor builds it. -/
inductive Built (sha1 : List Byte → Digest) : RsyncableFile → Prop where
  | ofPath (file : File) (disk : DiskReads) : Built sha1 (RsyncableFile.ofPath sha1 file disk)
  | ofComparer {fuel : Nat} {c c' : FileComparer} :
    c.process sha1 fuel = some c' → Built sha1 (RsyncableFile.ofComparer c')

/-- Both constructors leave a sorted table and its bitmap. -/
lemma Built.sorted {file : RsyncableFile} (h : Built sha1 file) :
    file.rsyncTable.Pairwise RsyncTableItem.Le ∧
      file.bitmap = RsyncableFile.initBitmap file.rsyncTable := by
  cases h with
  | ofPath file disk => exact ⟨(indexed_ofPath sha1 file disk).sorted,
      (indexed_ofPath sha1 file disk).bitmap_eq⟩
  | ofComparer hprocess =>
    obtain ⟨c, -, rfl⟩ := Option.map_eq_some_iff.mp hprocess
    exact ⟨sortTable_pairwise _, rfl⟩

/-- The search finds a block of the old file with the checksum and the SHA-1 of the buffer if there
is one: the one at the target offset if there is such a block there, and else the first. -/
theorem search_complete (hold : Built sha1 c.oldFile) (hbuffer : c.buffer.Valid)
    (hchecksum : c.checksum = computeRsyncRollingChecksum c.buffer.content) (offsetValid : Bool)
    (targetOffset : Nat) :
    let result := c.search sha1 offsetValid targetOffset
    let IsHit := Hit sha1 c.oldFile.rsyncTable c.buffer.content
    let Continues := offsetValid = true ∧ ∃ hit, IsHit hit ∧ hit.fileOffset = targetOffset
    (result.1 = true ↔ ∃ hit, IsHit hit) ∧
      (result.1 = true → (∃ hit, IsHit hit ∧ hit.fileOffset = result.2.oldOffset) ∧
        (Continues → result.2.oldOffset = targetOffset) ∧
        (¬ Continues → ∀ hit, IsHit hit → result.2.oldOffset ≤ hit.fileOffset)) ∧
      (result.1 = false → result.2.oldOffset = c.oldOffset) := by
  obtain ⟨hsorted, hbitmap⟩ := hold.sorted
  obtain ⟨found, hfinds, hsearch⟩ :=
    @search_spec sha1 c hsorted hbitmap hbuffer hchecksum offsetValid targetOffset
  simp only [hsearch]
  rcases found with _ | offset
  · refine ⟨⟨by simp, fun ⟨hit, hhit⟩ => absurd hhit (hfinds hit)⟩, by simp, fun _ => rfl⟩
  · obtain ⟨item, hitem, rfl, htarget, hfirst⟩ := hfinds
    refine ⟨⟨fun _ => ⟨item, hitem⟩, fun _ => rfl⟩, fun _ => ⟨⟨item, hitem, rfl⟩, ?_, ?_⟩, by simp⟩
    · rintro ⟨rfl, hit, hhit, rfl⟩
      exact Option.some.inj (htarget ⟨hit, hhit, rfl⟩)
    · intro hnot hit hhit
      refine hfirst (fun other hother heq => hnot ?_) hit hhit
      cases offsetValid with
      | true => exact ⟨rfl, other, hother, Option.some.inj heq⟩
      | false => cases heq

/-! ### A window that slides -/

lemma length_twoBlocks_lt : (zeroBlock ++ zeroBlock).length < 2 ^ 63 := by
  rw [List.length_append, length_zeroBlock]
  norm_num

/-- The same block twice. -/
def twoBlocks : RsyncableFile :=
  RsyncableFile.ofPath sha1OfBlocks ⟨zeroBlock ++ zeroBlock, length_twoBlocks_lt⟩ wholeReads

/-- The first block of the new file is read. -/
def firstRead : Bool × FileComparer :=
  { (new blockBetween wholeReads twoBlocks).resetState with
    newOffset := 0, oldOffset := 0 }.readMoreData

def blockRead : FileComparer := firstRead.2

lemma firstRead_eq : firstRead = (true, blockRead) := by
  have hmore : firstRead.1 = true := by decide +kernel
  rw [← hmore, blockRead]

/-- The window has slid over the first byte, and wraps around in the buffer. -/
def slidByOne : FileComparer := blockRead.nonMatchingReadMoreData.2

lemma reachable_slidByOne :
    Reachable sha1OfBlocks blockBetween wholeReads twoBlocks slidByOne := by
  exact .nonMatchingReadMoreData (.start firstRead_eq)

lemma content_slidByOne : slidByOne.buffer.content = zeroBlock := by decide +kernel

lemma rsyncTable_twoBlocks : twoBlocks.rsyncTable =
    [RsyncableFile.itemOf sha1OfBlocks 0 zeroBlock,
      RsyncableFile.itemOf sha1OfBlocks 512 zeroBlock] := by
  decide +kernel

/-- The checksum that has been maintained is that of the block. -/
theorem checksum_eq_of_reachable_slidByOne :
    slidByOne.buffer.start = 1 ∧
      slidByOne.checksum = computeRsyncRollingChecksum zeroBlock ∧
      slidByOne.buffer.computeRsyncRollingChecksum = slidByOne.checksum := by
  have h := (checksum_eq_of_reachable reachable_slidByOne).1
  rw [content_slidByOne] at h
  exact ⟨by decide +kernel, h⟩

lemma hit_itemOf {table : List RsyncTableItem} {offset : Nat} {block : List Byte}
    (h : RsyncableFile.itemOf sha1 offset block ∈ table) :
    Hit sha1 table block (RsyncableFile.itemOf sha1 offset block) := ⟨h, rfl, rfl⟩

/-- The first of the two blocks is found, unless the second one is asked for. -/
theorem search_complete_slidByOne :
    ((slidByOne.search sha1OfBlocks).1 = true ∧
        (slidByOne.search sha1OfBlocks).2.oldOffset = 0) ∧
      (slidByOne.search sha1OfBlocks true 512).1 = true ∧
        (slidByOne.search sha1OfBlocks true 512).2.oldOffset = 512 := by
  have hmaintained := maintained_of_reachable reachable_slidByOne
  have hold := oldFile_of_reachable reachable_slidByOne
  have hbuilt : Built sha1OfBlocks slidByOne.oldFile := hold ▸ .ofPath _ _
  have hhit : ∀ offset, offset = 0 ∨ offset = 512 →
      Hit sha1OfBlocks slidByOne.oldFile.rsyncTable slidByOne.buffer.content
        (RsyncableFile.itemOf sha1OfBlocks offset zeroBlock) := by
    rw [hold, rsyncTable_twoBlocks, content_slidByOne]
    rintro offset (rfl | rfl)
    · exact hit_itemOf List.mem_cons_self
    · exact hit_itemOf (List.mem_cons_of_mem _ List.mem_cons_self)
  have hsearch := search_complete hbuilt hmaintained.buffer hmaintained.checksum_eq
  refine ⟨?_, ?_⟩
  · obtain ⟨hiff, hfound, -⟩ := hsearch false 0
    have htrue := hiff.mpr ⟨_, hhit 0 (Or.inl rfl)⟩
    exact ⟨htrue, Nat.le_zero.mp ((hfound htrue).2.2 (by simp) _ (hhit 0 (Or.inl rfl)))⟩
  · obtain ⟨hiff, hfound, -⟩ := hsearch true 512
    have htrue := hiff.mpr ⟨_, hhit 512 (Or.inr rfl)⟩
    exact ⟨htrue, (hfound htrue).2.1 ⟨rfl, _, hhit 512 (Or.inr rfl), rfl⟩⟩

end FileComparer

end BackupProgram
