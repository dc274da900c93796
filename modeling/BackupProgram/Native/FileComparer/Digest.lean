import BackupProgram.Native.FileComparer.Delta

/-!
# The digest of the new file

The digest thread gets the blocks of the new file from the queue. The last buffer is pushed whether
or not there is anything in it.
-/

namespace BackupProgram

open Blocks RsyncableFile

namespace FileComparer

variable {sha1 : List Byte → Digest} {oldFile : RsyncableFile} {newFile : File}

lemma threadLoop_eq {queue : List SimpleBuffer} (h : ∀ b ∈ queue, b.isAllocated = true)
    (offset : Nat) (whole : List Byte) (newTable : List RsyncTableItem) :
    threadLoop sha1 (queue ++ [SimpleBuffer.new 0]) offset whole newTable =
      (whole ++ (queue.map SimpleBuffer.bytes).flatten,
        newTable ++ itemsOf sha1 offset (queue.map SimpleBuffer.bytes)) := by
  induction queue generalizing offset whole newTable with
  | nil => simp [threadLoop, SimpleBuffer.isAllocated, SimpleBuffer.new, itemsOf]
  | cons b queue ih =>
    have hb := h b List.mem_cons_self
    rw [List.cons_append, threadLoop]
    simp only [hb, Bool.not_true, Bool.false_eq_true, if_false]
    rw [ih fun b' hb' => h b' (List.mem_cons_of_mem _ hb')]
    simp only [List.map_cons, List.flatten_cons, itemsOf, List.append_assoc]
    rfl

/-- The blocks for the digest thread have the block size of the new file, which is positive. -/
lemma Ended.isAllocated {c : FileComparer} (h : Ended oldFile newFile c) :
    ∀ b ∈ c.processingQueue ++ [c.newBuffer], b.isAllocated = true := by
  have hpos : 0 < c.newBlockSize := by have := h.room; omega
  intro b hb
  rw [SimpleBuffer.isAllocated, bne_iff_ne]
  rcases List.mem_append.mp hb with hb | hb
  · rw [(h.full b hb).1]
    omega
  · rw [List.mem_singleton.mp hb, h.capacity_eq]
    omega

/-- What the digest thread has computed when it ends. -/
lemma ofComparer_finished {c : FileComparer} (h : Ended oldFile newFile c) :
    ofComparer (c.finished sha1) =
      { sha1 := sha1 newFile.bytes
        rsyncTable := sortTable (itemsOf sha1 0
          (c.processingQueue.map SimpleBuffer.bytes ++ [c.newBuffer.bytes]))
        bitmap := initBitmap (sortTable (itemsOf sha1 0
          (c.processingQueue.map SimpleBuffer.bytes ++ [c.newBuffer.bytes])))
        blockSize := newFile.blockSize } := by
  have hbytes : ((c.processingQueue ++ [c.newBuffer]).map SimpleBuffer.bytes).flatten =
      newFile.bytes := by
    have := h.bytes
    rw [h.rest_eq] at this
    simpa using this
  have hloop : threadLoop sha1 (_ ++ [SimpleBuffer.new 0]) 0 [] [] = _ :=
    threadLoop_eq h.isAllocated 0 [] []
  rw [hbytes, List.nil_append, List.nil_append] at hloop
  have hfinished : c.finished sha1 =
      { c with
        processingQueue := []
        newBuffer := SimpleBuffer.new c.newBuffer.capacity
        newDigest := sha1 newFile.bytes
        newTable := sortTable (itemsOf sha1 0
          ((c.processingQueue ++ [c.newBuffer]).map SimpleBuffer.bytes)) } := by
    rw [finished, requestThreadStop, processNewBuffer, threadFunc]
    simp only [Bool.not_true, Bool.false_and, Bool.false_eq_true, if_false, h.newTable_eq, hloop]
  rw [hfinished, ofComparer, List.map_append, h.newBlockSize_eq]
  rfl

/-- The table of the comparer has one item too many exactly if the last block is empty. -/
lemma ofComparer_eq_ofPath_iff {c : FileComparer} (h : Ended oldFile newFile c) (disk : DiskReads) :
    ofComparer (c.finished sha1) = ofPath sha1 newFile disk ↔
      ¬ newFile.blockSize ∣ newFile.size := by
  have hfull : ∀ b ∈ c.processingQueue.map SimpleBuffer.bytes, b.length = newFile.blockSize := by
    intro b hb
    obtain ⟨buffer, hmem, rfl⟩ := List.mem_map.mp hb
    exact (h.full buffer hmem).2.trans h.newBlockSize_eq
  have hlast : c.newBuffer.bytes.length < newFile.blockSize := by
    have := h.room
    rwa [h.newBlockSize_eq] at this
  have hbytes : (c.processingQueue.map SimpleBuffer.bytes).flatten ++ c.newBuffer.bytes =
      newFile.bytes := by
    have := h.bytes
    rw [h.rest_eq] at this
    simpa using this
  have hblocks := blocks_flatten_append hfull hlast
  have hmod := length_flatten_mod hfull hlast
  rw [hbytes] at hblocks hmod
  rw [Nat.dvd_iff_mod_eq_zero, File.size, hmod, List.length_eq_zero_iff, ofComparer_finished h,
    ofPath_eq]
  change _ ↔ ¬ c.newBuffer.bytes = []
  have hpath : Blocks.blocks (scalerFunction newFile.size) newFile.bytes = _ := hblocks
  rw [hpath]
  by_cases hnil : c.newBuffer.bytes = []
  · refine iff_of_false (fun heq => ?_) (not_not.mpr hnil)
    have hlen := congrArg (fun file => file.rsyncTable.length) heq
    simp [hnil] at hlen
  · rw [if_neg hnil]
    exact iff_of_true rfl hnil

end FileComparer

/-- After `process` the digest that the comparer has gathered is that of the new file, unless the
size of the file is a multiple of its block size. -/
theorem process_ofComparer_eq_ofPath_iff (sha1 : List Byte → Digest) (old new : File)
    (oldDisk newDisk disk : DiskReads) (fuel : Nat) :
    ∃ c, (FileComparer.new new newDisk (ofPath sha1 old oldDisk)).process sha1
        (new.size + 3 + fuel) = some c ∧
      (ofComparer c = ofPath sha1 new disk ↔ ¬ new.blockSize ∣ new.size) := by
  obtain ⟨c, hprocess, hended, -⟩ := FileComparer.process_spec
    (FileComparer.indexed_ofPath sha1 old oldDisk) new newDisk (Nat.le_add_right _ fuel)
  exact ⟨_, hprocess, FileComparer.ofComparer_eq_ofPath_iff hended disk⟩

/-- A file that has become empty: the comparer lists a block without bytes. -/
theorem process_ofComparer_ne_ofPath_emptyFile :
    ∃ c, (FileComparer.new emptyFile wholeReads (ofPath sha1OfZero zeroFile wholeReads)).process
        sha1OfZero 3 = some c ∧ ofComparer c ≠ ofPath sha1OfZero emptyFile wholeReads := by
  obtain ⟨c, hprocess, hended, -⟩ := FileComparer.process_spec
    (FileComparer.indexed_ofPath sha1OfZero zeroFile wholeReads) emptyFile wholeReads
    (show emptyFile.size + 3 ≤ 3 by decide)
  refine ⟨_, hprocess, fun heq => ?_⟩
  exact (FileComparer.ofComparer_eq_ofPath_iff hended wholeReads).mp heq (dvd_zero _)

end BackupProgram
