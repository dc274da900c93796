import BackupProgram.Native.RsyncableFile
import BackupProgram.Native.StreamBlockReader.Partition

/-!
# The block size and the number of blocks

`scaler_function` doubles the block size until the table of the file fits in 64 MiB. Of the files
below `2 ^ 63` bytes, which are all, none makes it wrap around, and the blocks it leaves are as many
as `blocks_per_file` reserves room for.
-/

namespace BackupProgram

open Blocks

/-- `blocks_per_file`, with the wrap-around of the sum. -/
def blocksPerFile (fileSize blockSize : Nat) : Nat :=
  (fileSize + (blockSize - 1)) % 2 ^ 64 / blockSize

namespace RsyncableFile

variable {x y : Nat}

/-- Larger files do not get smaller blocks: what is too small for `y` is too small for `x`. -/
lemma scalerFunction_mono (hx : x < 2 ^ 63) (hle : y ≤ x) :
    scalerFunction y ≤ scalerFunction x := by
  obtain ⟨k, -, hk, hfits, -⟩ := scalerFunction_least hx
  obtain ⟨l, -, hl, -, hleast⟩ := scalerFunction_least (hle.trans_lt hx)
  have hlk : l ≤ k := by
    by_contra hlt
    apply hleast k (not_le.mp hlt)
    rw [← hk]
    exact hfits.mono (scalerFunction_pos hx) hle
  rw [hk, hl]
  exact Nat.mul_le_mul_left _ (Nat.pow_le_pow_right (by norm_num) hlk)

/-- At the chosen block size the sum does not wrap around, so the quotient is rounded up. -/
lemma blocksPerFile_eq (hx : x < 2 ^ 63) :
    blocksPerFile x (scalerFunction x) = x ⌈/⌉ scalerFunction x := by
  have hpos := scalerFunction_pos hx
  have hlt := scalerFunction_lt hx
  rw [blocksPerFile, Nat.mod_eq_of_lt (by omega), Nat.ceilDiv_eq_add_pred_div,
    Nat.add_sub_assoc hpos]

lemma ceilDiv_scalerFunction_le (hx : x < 2 ^ 63) : x ⌈/⌉ scalerFunction x ≤ 2 ^ 21 := by
  obtain ⟨-, -, -, hfits, -⟩ := scalerFunction_least hx
  exact (ceilDiv_le_iff_le_mul (scalerFunction_pos hx)).mpr
    ((tableFits_iff (scalerFunction_pos hx)).mp hfits)

lemma length_rsyncTable (sha1 : List Byte → Digest) (file : File) (disk : DiskReads) :
    (ofPath sha1 file disk).rsyncTable.length =
      (blocks (scalerFunction file.size) file.bytes).length := by
  rw [ofPath_eq]
  simp only [length_sortTable, length_itemsOf]

/-- The choice of the block size is sound: it ends without a wrap-around, returns the least doubling
of 512 for which the table fits, and grows with the file; the blocks that are read are those that
room is reserved for, and so are the items of the table, at most `2 ^ 21`. -/
theorem scalerFunction_sound (hx : x < 2 ^ 63) :
    (∃ n, ∀ fuel ≥ n, scalerFunctionChecked fuel x = .ok (scalerFunction x)) ∧
    (∃ k, scalerFunction x = 512 * 2 ^ k ∧ TableFits x (512 * 2 ^ k) ∧
      ∀ j < k, ¬ TableFits x (512 * 2 ^ j)) ∧
    (∀ y ≤ x, scalerFunction y ≤ scalerFunction x) ∧
    ∀ (file : File) (disk : DiskReads) (dsts : Nat → ByteBuffer), file.size = x →
      ∃ bs, (∀ rounds calls, 2 * scalerFunction x + 2 ≤ rounds → x < calls →
          BlockByBlockReader.nextBlocks rounds calls dsts
            (BlockByBlockReader.new file.bytes disk (scalerFunction x)) = some bs) ∧
        blocksPerFile x (scalerFunction x) = bs.length ∧ bs.length ≤ 2 ^ 21 ∧
        ∀ sha1, (ofPath sha1 file disk).rsyncTable.length = bs.length := by
  have hpos := scalerFunction_pos hx
  refine ⟨⟨34, fun fuel hfuel => scalerFunctionChecked_eq hx hfuel⟩, ?_,
    fun y hle => scalerFunction_mono hx hle, ?_⟩
  · obtain ⟨k, -, heq, hfits, hleast⟩ := scalerFunction_least hx
    exact ⟨k, heq, heq ▸ hfits, hleast⟩
  · rintro file disk dsts rfl
    have hlength : (blocks (scalerFunction file.size) file.bytes).length =
        file.size ⌈/⌉ scalerFunction file.size := length_blocks hpos _
    have hvalid := BlockByBlockReader.valid_new file.bytes disk (scalerFunction file.size)
    refine ⟨blocks (scalerFunction file.size) file.bytes, fun rounds calls hrounds hcalls => ?_,
      ?_, ?_, fun sha1 => length_rsyncTable sha1 file disk⟩
    · rw [BlockByBlockReader.nextBlocks_eq_blocks hvalid dsts, BlockByBlockReader.rest_new,
        BlockByBlockReader.blockSize_new _ _ hpos]
      · rwa [BlockByBlockReader.blockSize_new _ _ hpos]
      · rwa [BlockByBlockReader.rest_new]
    · rw [blocksPerFile_eq hx, hlength]
    · rw [hlength]
      exact ceilDiv_scalerFunction_le hx

/-- A file of one tebibyte is cut into blocks of half a mebibyte. -/
theorem scalerFunction_sound_tebibyte :
    scalerFunction (2 ^ 40) = 512 * 2 ^ 10 ∧
    (∃ n, ∀ fuel ≥ n, scalerFunctionChecked fuel (2 ^ 40) = .ok (scalerFunction (2 ^ 40))) ∧
    (∃ k, scalerFunction (2 ^ 40) = 512 * 2 ^ k ∧ TableFits (2 ^ 40) (512 * 2 ^ k) ∧
      ∀ j < k, ¬ TableFits (2 ^ 40) (512 * 2 ^ j)) ∧
    (∀ y ≤ 2 ^ 40, scalerFunction y ≤ scalerFunction (2 ^ 40)) ∧
    ∀ (file : File) (disk : DiskReads) (dsts : Nat → ByteBuffer), file.size = 2 ^ 40 →
      ∃ bs, (∀ rounds calls, 2 * scalerFunction (2 ^ 40) + 2 ≤ rounds → 2 ^ 40 < calls →
          BlockByBlockReader.nextBlocks rounds calls dsts
            (BlockByBlockReader.new file.bytes disk (scalerFunction (2 ^ 40))) = some bs) ∧
        blocksPerFile (2 ^ 40) (scalerFunction (2 ^ 40)) = bs.length ∧ bs.length ≤ 2 ^ 21 ∧
        ∀ sha1, (ofPath sha1 file disk).rsyncTable.length = bs.length :=
  ⟨by decide, scalerFunction_sound (by norm_num)⟩

end RsyncableFile

end BackupProgram
