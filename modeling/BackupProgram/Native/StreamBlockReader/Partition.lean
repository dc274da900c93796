import BackupProgram.Lib.Blocks
import BackupProgram.Native.ByteByByteReader

/-!
# The blocks of a file

Called again and again, `next_block` cuts the file from the current position on into blocks, however
the operating system delivers it.
-/

namespace BackupProgram

open Blocks Loops

namespace BlockByBlockReader

/-- `next_block` with a bound for the rounds of its loop; there is no result if these do not
suffice. -/
def nextBlockWithin (rounds : Nat) (r : BlockByBlockReader) (dst : CircularBuffer) :
    Option (Bool × BlockByBlockReader × CircularBuffer) :=
  if r.eof then some (false, r, dst)
  else
    match nextBlockLoop rounds r (dst.realloc r.blockSize).resetSize with
    | .error _ => none
    | .ok (r, dst) => some (decide (dst.size ≠ 0), r, dst)

/-- The blocks that are returned until a call returns false; `dsts` are the buffers that the calls
are given. There is no result if `calls` calls do not suffice. -/
def nextBlocks (rounds : Nat) : Nat → (Nat → ByteBuffer) → BlockByBlockReader →
    Option (List (List Byte))
  | 0, _, _ => none
  | calls + 1, dsts, r => do
    let (ret, r, dst) ← nextBlockWithin rounds r (dsts 0).buffer
    if ret then
      let blocks ← nextBlocks rounds calls (fun k => dsts (k + 1)) r
      pure (dst.content :: blocks)
    else pure []

variable {r : BlockByBlockReader} {rounds : Nat}

lemma nextBlockWithin_eq (h : r.Valid) {dst : CircularBuffer}
    (hdst : dst.buffer.length = dst.mCapacity) (hrounds : 2 * r.blockSize + 2 ≤ rounds) :
    nextBlockWithin rounds r dst = some (r.nextBlock dst) := by
  rw [nextBlockWithin, nextBlock]
  by_cases heof : r.eof = true
  · rw [if_pos heof, if_pos heof]
  · rw [if_neg heof, if_neg heof]
    obtain ⟨out, hloop, -⟩ := exists_nextBlockLoop h hdst (Bool.eq_false_iff.mpr heof) (le_refl _)
    have hmore : nextBlockLoop rounds r (dst.realloc r.blockSize).resetSize = .ok out :=
      loop_of_le hloop hrounds
    simp only [hloop, hmore]

/-- What a reader has in front of it is returned in blocks. -/
lemma nextBlocks_eq_blocks (h : r.Valid) (dsts : Nat → ByteBuffer)
    (hrounds : 2 * r.blockSize + 2 ≤ rounds) {calls : Nat} (hcalls : r.rest.length < calls) :
    nextBlocks rounds calls dsts r = some (blocks r.blockSize r.rest) := by
  induction calls generalizing r dsts with
  | zero => omega
  | succ calls ih =>
    have hpos := h.blockSize_pos
    obtain ⟨hret, hvalid, hblockSize, hrest, hdst⟩ := nextBlock_spec h (dsts 0).length_buffer
    rw [nextBlocks, nextBlockWithin_eq h (dsts 0).length_buffer hrounds]
    simp only [Option.bind_eq_bind, Option.bind_some, hret]
    by_cases hnil : r.rest = []
    · simp [hnil]
    · have hnot : r.eof = true → False := fun heof => hnil (h.rest_of_eof heof)
      rw [if_neg hnot] at hdst
      have hlen := List.length_pos_iff.mpr hnil
      have key := ih hvalid (fun k => dsts (k + 1)) (hblockSize ▸ hrounds)
        (by rw [hrest, List.length_drop]; omega)
      rw [if_pos (decide_eq_true hnil), key, hblockSize, hrest, hdst.2.2.2,
        blocks_of_ne_nil hpos hnil]
      rfl

/-- From any position on, `next_block` cuts the file into blocks of the block size, of which only
the last one may be shorter, and then returns false; each call comes to an end. -/
theorem nextBlocks_partition (file : List Byte) (disk : DiskReads) {blockSize : Nat}
    (hpos : 0 < blockSize) (start : FileOffset) (dsts : Nat → ByteBuffer) :
    ∃ bs, (∀ rounds calls, 2 * blockSize + 2 ≤ rounds → file.length < calls →
        nextBlocks rounds calls dsts ((new file disk blockSize).seek start.offset) = some bs) ∧
      bs.flatten = file.drop start.offset ∧ (∀ b ∈ bs.dropLast, b.length = blockSize) ∧
      ∀ b ∈ bs, b ≠ [] ∧ b.length ≤ blockSize := by
  have hvalid := valid_seek (valid_new file disk blockSize) start.offset
  have hsize : ((new file disk blockSize).seek start.offset).blockSize = blockSize :=
    blockSize_new file disk hpos
  have hrest : ((new file disk blockSize).seek start.offset).rest = file.drop start.offset :=
    rest_seek _ _
  refine ⟨blocks blockSize (file.drop start.offset), fun rounds calls hrounds hcalls => ?_,
    flatten_blocks hpos _, fun b hb => ?_, fun b hb => ?_⟩
  · rw [nextBlocks_eq_blocks hvalid dsts (by rwa [hsize])
      (by rw [hrest, List.length_drop]; omega), hsize, hrest]
  · exact length_of_mem_dropLast_blocks hpos hb
  · obtain ⟨k, hk, rfl⟩ := (mem_blocks hpos).mp hb
    refine ⟨?_, by simp⟩
    rw [ne_eq, List.take_eq_nil_iff, List.drop_eq_nil_iff]
    omega

/-- Three bytes, delivered one by one, are read in blocks of two from the second on. -/
theorem nextBlocks_partition_threeBytes :
    ∃ bs, (∀ rounds calls, 2 * 2 + 2 ≤ rounds → 3 < calls →
        nextBlocks rounds calls (fun _ => ⟨CircularBuffer.new 1, rfl⟩)
          ((new [1, 2, 3] ⟨fun _ => 1, fun _ => true⟩ 2).seek 1) = some bs) ∧
      bs.flatten = [2, 3] ∧ (∀ b ∈ bs.dropLast, b.length = 2) ∧ ∀ b ∈ bs, b ≠ [] ∧ b.length ≤ 2 :=
  nextBlocks_partition [1, 2, 3] ⟨fun _ => 1, fun _ => true⟩ (by decide) ⟨1, by decide⟩
    fun _ => ⟨CircularBuffer.new 1, rfl⟩

end BlockByBlockReader

end BackupProgram
