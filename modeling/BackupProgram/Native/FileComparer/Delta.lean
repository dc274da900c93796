import BackupProgram.Native.FileComparer.Scan

/-!
# When the delta reproduces the new file

A copy command always grows by a whole block. This is right for every window but a short one at
the end of the new file, which can be equal to the short last block of the old file.
-/

namespace BackupProgram

open Blocks RsyncableFile

namespace File

/-- The block size of the digest of the file. -/
def blockSize (file : File) : Nat := scalerFunction file.size

lemma blockSize_pos (file : File) : 0 < file.blockSize := scalerFunction_pos file.length_lt

lemma blockSize_lt (file : File) : file.blockSize < 2 ^ 63 := scalerFunction_lt file.length_lt

def blocks (file : File) : List (List Byte) := Blocks.blocks file.blockSize file.bytes

/-- `n` bytes from an offset on, fewer at the end of the file. -/
def window (file : File) (n pos : Nat) : List Byte := (file.bytes.drop pos).take n

end File

/-- The file a command copies from. -/
def RsyncCommand.source (c : RsyncCommand) (old new : File) : File :=
  if c.copyFromOld then old else new

/-- The command list reproduces the new file. -/
structure DeltaCorrect (old new : File) (commands : List RsyncCommand) : Prop where
  reproduces :
    (commands.map fun c => (c.source old new).window c.getLength c.fileOffset).flatten = new.bytes
  in_range : ∀ c ∈ commands, c.fileOffset + c.getLength ≤ (c.source old new).size
  sum_lengths : (commands.map RsyncCommand.getLength).sum = new.size

/-- A block of the old file and a window of the new one that agree in checksum and SHA-1 are
equal. -/
def CollisionFree (sha1 : List Byte → Digest) (old new : File) : Prop :=
  ∀ block ∈ old.blocks, ∀ pos < new.size,
    computeRsyncRollingChecksum block =
        computeRsyncRollingChecksum (new.window old.blockSize pos) →
      sha1 block = sha1 (new.window old.blockSize pos) → block = new.window old.blockSize pos

/-- Where the scan of the new file goes on: behind a window that is a block of the old file, and
else one byte further. -/
def nextPosition (old new : File) (pos : Nat) : Nat :=
  if new.window old.blockSize pos ∈ old.blocks then pos + old.blockSize else pos + 1

/-- The rest of the new file is shorter than a block, and is the last block of the old file. -/
structure ShortMatch (old new : File) (pos : Nat) : Prop where
  pos_lt : pos < new.size
  lt_add : new.size < pos + old.blockSize
  mem_blocks : new.bytes.drop pos ∈ old.blocks

/-! ### What the commands cover -/

/-- The commands reproduce the new file up to `pos`. -/
structure Covers (old new : File) (commands : List RsyncCommand) (pos : Nat) : Prop where
  reproduces :
    (commands.map fun c => (c.source old new).window c.getLength c.fileOffset).flatten =
      new.bytes.take pos
  in_range : ∀ c ∈ commands, c.fileOffset + c.getLength ≤ (c.source old new).size
  sum_lengths : (commands.map RsyncCommand.getLength).sum = pos
  le_size : pos ≤ new.size

variable {sha1 : List Byte → Digest} {old new : File} {commands : List RsyncCommand} {pos : Nat}

lemma Covers.deltaCorrect (h : Covers old new commands new.size) :
    DeltaCorrect old new commands :=
  ⟨h.reproduces.trans (List.take_length), h.in_range, h.sum_lengths⟩

lemma File.window_append (file : File) (pos n k : Nat) :
    file.window (n + k) pos = file.window n pos ++ file.window k (pos + n) := by
  rw [File.window, File.window, File.window, List.take_add, List.drop_drop]

/-- A new command of length zero. -/
lemma Covers.push (h : Covers old new commands pos) (offset : Nat) (fromOld : Bool)
    (hle : offset ≤ (if fromOld then old else new).size) :
    Covers old new (commands ++ [RsyncCommand.setCopyFromOld ⟨offset, 0⟩ fromOld]) pos := by
  have hset := RsyncCommand.says_setCopyFromOld offset fromOld
  have hoffset : (RsyncCommand.setCopyFromOld ⟨offset, 0⟩ fromOld).fileOffset = offset := by
    cases fromOld <;> rfl
  generalize RsyncCommand.setCopyFromOld ⟨offset, 0⟩ fromOld = command at *
  refine ⟨?_, fun c hc => ?_, ?_, h.le_size⟩
  · rw [List.map_append, List.flatten_append, h.reproduces]
    simp [hset.getLength, File.window]
  · rcases List.mem_append.mp hc with hc | hc
    · exact h.in_range c hc
    · rw [List.mem_singleton.mp hc, hset.getLength, hoffset, RsyncCommand.source,
        hset.copyFromOld]
      exact hle
  · simp [h.sum_lengths, hset.getLength]

/-- The last command grows by bytes that are the next ones of the new file. -/
lemma Covers.grow {init : List RsyncCommand} {last : RsyncCommand} {fromOld : Bool} {n k : Nat}
    (h : Covers old new (init ++ [last]) pos) (hlast : last.Says fromOld n)
    (hle : pos + k ≤ new.size) (hsource : last.fileOffset + n + k ≤ (last.source old new).size)
    (hbytes : (last.source old new).window k (last.fileOffset + n) = new.window k pos) :
    (last.addLength k).Says fromOld (n + k) ∧
      Covers old new (init ++ [last.addLength k]) (pos + k) := by
  have hsize := (last.source old new).length_lt
  rw [File.size] at hsource
  have hgrown := hlast.addLength (k := k) (by omega)
  have hsame : (last.addLength k).source old new = last.source old new := by
    rw [RsyncCommand.source, RsyncCommand.source, hgrown.copyFromOld, hlast.copyFromOld]
  have hoffset : (last.addLength k).fileOffset = last.fileOffset := rfl
  refine ⟨hgrown, ⟨?_, fun c hc => ?_, ?_, hle⟩⟩
  · have hrep := h.reproduces
    simp only [List.map_append, List.map_cons, List.map_nil, List.flatten_append, List.flatten_cons,
      List.flatten_nil, List.append_nil, hlast.getLength] at hrep
    simp only [List.map_append, List.map_cons, List.map_nil, List.flatten_append, List.flatten_cons,
      List.flatten_nil, List.append_nil, hgrown.getLength, hsame, hoffset]
    rw [File.window_append, ← List.append_assoc, hrep, hbytes, List.take_add, File.window]
  · rcases List.mem_append.mp hc with hc | hc
    · exact h.in_range c (List.mem_append_left _ hc)
    · rw [List.mem_singleton.mp hc, hgrown.getLength, hsame, hoffset, File.size]
      omega
  · have hsum := h.sum_lengths
    simp only [List.map_append, List.map_cons, List.map_nil, List.sum_append, List.sum_cons,
      List.sum_nil, hlast.getLength] at hsum
    simp only [List.map_append, List.map_cons, List.map_nil, List.sum_append, List.sum_cons,
      List.sum_nil, hgrown.getLength]
    omega

/-- A copy command that grows beyond the end of the new file makes the lengths sum to something
else than its size. -/
lemma Covers.not_deltaCorrect {init : List RsyncCommand} {last : RsyncCommand} {n k : Nat}
    {fromOld : Bool} (h : Covers old new (init ++ [last]) pos) (hlast : last.Says fromOld n)
    (hlt : new.size < pos + k) (hk : k < 2 ^ 63) :
    ¬ DeltaCorrect old new (init ++ [last.addLength k]) := by
  intro hcorrect
  have hsum := h.sum_lengths
  have hsum' := hcorrect.sum_lengths
  have hle := h.le_size
  have hsize : new.size < 2 ^ 63 := new.length_lt
  simp only [List.map_append, List.map_cons, List.map_nil, List.sum_append, List.sum_cons,
    List.sum_nil, hlast.getLength] at hsum
  simp only [List.map_append, List.map_cons, List.map_nil, List.sum_append, List.sum_cons,
    List.sum_nil, RsyncCommand.getLength_addLength, hlast.getLength] at hsum'
  omega

/-! ### What the search finds -/

/-- A window that is found is a block of the old file, at the offset of the hit; one that is not
found is no block of it. -/
lemma finds_ofPath (hsha1 : CollisionFree sha1 old new) (disk : DiskReads) (hpos : pos < new.size)
    {target found : Option Nat}
    (h : FileComparer.Finds sha1 (ofPath sha1 old disk).rsyncTable
      (new.window old.blockSize pos) target found) :
    match found with
    | some offset => new.window old.blockSize pos ∈ old.blocks ∧ offset < old.size ∧
        old.window old.blockSize offset = new.window old.blockSize pos
    | none => new.window old.blockSize pos ∉ old.blocks := by
  have hblock := old.blockSize_pos
  have hmem : ∀ item, item ∈ (ofPath sha1 old disk).rsyncTable ↔
      ∃ k, k * old.blockSize < old.size ∧
        item = itemOf sha1 (k * old.blockSize) (old.window old.blockSize (k * old.blockSize)) := by
    intro item
    rw [ofPath_eq, mem_sortTable]
    exact mem_itemsOf_blocks hblock
  rcases found with _ | offset
  · intro hblocks
    obtain ⟨k, hk, heq⟩ := (mem_blocks hblock).mp hblocks
    exact h _ ⟨(hmem _).mpr ⟨k, hk, rfl⟩, congrArg computeRsyncRollingChecksum heq.symm,
      congrArg sha1 heq.symm⟩
  · obtain ⟨item, hhit, rfl, -⟩ := h
    obtain ⟨k, hk, rfl⟩ := (hmem item).mp hhit.mem
    have hblocks : old.window old.blockSize (k * old.blockSize) ∈ old.blocks :=
      (mem_blocks hblock).mpr ⟨k, hk, rfl⟩
    have heq := hsha1 _ hblocks pos hpos hhit.rollingChecksum_eq hhit.complexHash_eq
    exact ⟨heq ▸ hblocks, hk, heq⟩

/-! ### The scan -/

/-- What is known of the window and of the last command in each mode of the scan. -/
def Ready (old new : File) (pos : Nat) (commands : List RsyncCommand) : FileComparer.Mode → Prop
  | .copy fresh offset =>
    (new.window old.blockSize pos ∈ old.blocks ∧ offset < old.size ∧
        old.window old.blockSize offset = new.window old.blockSize pos) ∧
      (fresh = false → ∃ init last n, commands = init ++ [last] ∧ last.Says true n ∧
        last.fileOffset + n = offset)
  | .literal fresh =>
    new.window old.blockSize pos ∉ old.blocks ∧
      (fresh = false → ∃ init last n, commands = init ++ [last] ∧ last.Says false n ∧
        last.fileOffset + n = pos)

/-- Pushing a command if need be leaves a last command that continues at `offset`. -/
lemma Covers.begin (h : Covers old new commands pos) {fresh fromOld : Bool} {offset : Nat}
    (hle : offset ≤ (if fromOld then old else new).size)
    (hlast : fresh = false → ∃ init last n, commands = init ++ [last] ∧ last.Says fromOld n ∧
      last.fileOffset + n = offset) :
    ∃ init last n, last.Says fromOld n ∧ last.fileOffset + n = offset ∧
      (if fresh then commands ++ [RsyncCommand.setCopyFromOld ⟨offset, 0⟩ fromOld]
        else commands) = init ++ [last] ∧ Covers old new (init ++ [last]) pos := by
  cases fresh with
  | true =>
    refine ⟨commands, _, 0, RsyncCommand.says_setCopyFromOld offset fromOld, ?_, rfl,
      h.push offset fromOld hle⟩
    cases fromOld <;> rfl
  | false =>
    obtain ⟨init, last, n, rfl, hset, hoffset⟩ := hlast rfl
    exact ⟨init, last, n, hset, hoffset, rfl, h⟩

/-- A window that is as long as a block, and one that the end of the file cuts short. -/
lemma File.length_window (file : File) (n pos : Nat) :
    (file.window n pos).length = min n (file.size - pos) := by
  rw [File.window, List.length_take, List.length_drop, File.size]

lemma File.window_eq_drop {file : File} {n pos : Nat} (h : file.size ≤ pos + n) :
    file.window n pos = file.bytes.drop pos := by
  rw [File.size] at h
  rw [File.window, List.take_of_length_le (by rw [List.length_drop]; omega)]

lemma shortMatch_iff (hpos : pos < new.size) (hlt : new.size < pos + old.blockSize) :
    ShortMatch old new pos ↔ new.window old.blockSize pos ∈ old.blocks := by
  rw [File.window_eq_drop hlt.le]
  exact ⟨fun h => h.mem_blocks, fun h => ⟨hpos, hlt, h⟩⟩

lemma le_nextPosition_iterate (k : Nat) : pos ≤ (nextPosition old new)^[k] pos := by
  induction k generalizing pos with
  | zero => exact le_refl _
  | succ k ih =>
    have hstep : pos ≤ nextPosition old new pos := by
      rw [nextPosition]
      split_ifs <;> omega
    rw [Function.iterate_succ_apply]
    exact hstep.trans ih

lemma not_shortMatch_of_size_le (h : new.size ≤ pos) (k : Nat) :
    ¬ ShortMatch old new ((nextPosition old new)^[k] pos) := by
  intro hshort
  have hle : pos ≤ (nextPosition old new)^[k] pos := le_nextPosition_iterate k
  have hlt := hshort.pos_lt
  omega

/-- The positions of the scan are the current one and those from the next one on. -/
lemma forall_not_shortMatch_iff {next : Nat} (hnext : nextPosition old new pos = next) :
    (∀ k, ¬ ShortMatch old new ((nextPosition old new)^[k] pos)) ↔
      ¬ ShortMatch old new pos ∧ ∀ k, ¬ ShortMatch old new ((nextPosition old new)^[k] next) := by
  subst hnext
  constructor
  · intro h
    exact ⟨h 0, fun k => h (k + 1)⟩
  · rintro ⟨h0, h⟩ k
    cases k with
    | zero => exact h0
    | succ k => exact h k

@[simp] lemma blockSize_ofPath (sha1 : List Byte → Digest) (file : File) (disk : DiskReads) :
    (ofPath sha1 file disk).blockSize = file.blockSize := by
  rw [ofPath_eq]
  rfl

lemma window_ofPath (sha1 : List Byte → Digest) (old new : File) (disk : DiskReads) (pos : Nat) :
    FileComparer.window (ofPath sha1 old disk) new pos = new.window old.blockSize pos := by
  rw [FileComparer.window, blockSize_ofPath, File.window]

/-- One copy: the last command grows by a block, which covers a block of the new file. -/
lemma Covers.emitCopy (h : Covers old new commands pos) {fresh : Bool} {offset : Nat}
    (hready : Ready old new pos commands (.copy fresh offset)) (disk : DiskReads) :
    ∃ init last n, last.Says true n ∧ Covers old new (init ++ [last]) pos ∧
      FileComparer.emitCopy (ofPath sha1 old disk) fresh offset commands =
        init ++ [last.addLength old.blockSize] ∧
      (pos + old.blockSize ≤ new.size →
        (last.addLength old.blockSize).Says true (n + old.blockSize) ∧
          Covers old new (init ++ [last.addLength old.blockSize]) (pos + old.blockSize)) := by
  obtain ⟨⟨-, hoffset, hwindow⟩, hlast⟩ := hready
  obtain ⟨init, last, n, hset, hlastOffset, hbegin, hcovers⟩ :=
    h.begin hoffset.le hlast
  have hsource : last.source old new = old := by
    rw [RsyncCommand.source, hset.copyFromOld, if_pos rfl]
  refine ⟨init, last, n, hset, hcovers, ?_, fun hfull => ?_⟩
  · rw [FileComparer.emitCopy, hbegin, List.modifyLast_concat, blockSize_ofPath]
  · have hlen := congrArg List.length hwindow
    rw [File.length_window, File.length_window] at hlen
    refine hcovers.grow hset hfull ?_ ?_
    · rw [hsource, hlastOffset]
      have := old.blockSize_pos
      omega
    · rw [hsource, hlastOffset, hwindow]

/-- One literal: the last command grows by the next byte of the new file. -/
lemma Covers.emitLiteral (h : Covers old new commands pos) {fresh : Bool}
    (hready : Ready old new pos commands (.literal fresh)) (hpos : pos < new.size) :
    ∃ init last n, last.Says false n ∧ last.fileOffset + n = pos + 1 ∧
      FileComparer.emitLiteral fresh pos commands = init ++ [last] ∧
      Covers old new (init ++ [last]) (pos + 1) := by
  obtain ⟨-, hlast⟩ := hready
  obtain ⟨init, last, n, hset, hlastOffset, hbegin, hcovers⟩ :=
    h.begin hpos.le hlast
  have hsource : last.source old new = new := by
    rw [RsyncCommand.source, hset.copyFromOld]
    rfl
  obtain ⟨hset', hcovers'⟩ := hcovers.grow (k := 1) hset hpos
    (by rw [hsource, hlastOffset]; exact hpos) (by rw [hsource, hlastOffset])
  refine ⟨init, last.addLength 1, n + 1, hset', ?_, ?_, hcovers'⟩
  · rw [← hlastOffset]
    rfl
  · rw [FileComparer.emitLiteral, hbegin, List.modifyLast_concat]

/-- From a position on, the list is correct if and only if no short match is met. -/
lemma scan_deltaCorrect_iff (hsha1 : CollisionFree sha1 old new) (disk : DiskReads)
    {mode : FileComparer.Mode} {out : List RsyncCommand}
    (h : FileComparer.Scan sha1 (ofPath sha1 old disk) new mode pos commands out)
    (hcovers : Covers old new commands pos) (hready : Ready old new pos commands mode)
    (hpos : pos < new.size) :
    DeltaCorrect old new out ↔ ∀ k, ¬ ShortMatch old new ((nextPosition old new)^[k] pos) := by
  induction h with
  | @copyEnd fresh offset pos commands hend =>
    rw [blockSize_ofPath] at hend
    have hmem := hready.1.1
    have hnext : nextPosition old new pos = pos + old.blockSize := if_pos hmem
    obtain ⟨init, last, n, hset, hbegin, hemit, hgrow⟩ :=
      hcovers.emitCopy hready disk
    rw [hemit, forall_not_shortMatch_iff hnext]
    rcases Nat.eq_or_lt_of_le hend with heq | hlt
    · -- the last window is a whole block
      obtain ⟨-, hcovers'⟩ := hgrow heq.ge
      rw [← heq] at hcovers'
      refine iff_of_true hcovers'.deltaCorrect ⟨fun hshort => ?_, not_shortMatch_of_size_le heq.le⟩
      have := hshort.lt_add
      omega
    · exact iff_of_false (hbegin.not_deltaCorrect hset hlt old.blockSize_lt)
        fun h => h.1 ((shortMatch_iff hpos hlt).mpr hmem)
  | @copyNext fresh offset pos commands found out hlt hfinds _ ih =>
    rw [window_ofPath, blockSize_ofPath] at hfinds
    rw [blockSize_ofPath] at hlt ih
    have hnext : nextPosition old new pos = pos + old.blockSize := if_pos hready.1.1
    obtain ⟨init, last, n, hset, hbegin, hemit, hgrow⟩ :=
      hcovers.emitCopy hready disk
    obtain ⟨hset', hcovers'⟩ := hgrow hlt.le
    rw [hemit] at hfinds ih
    have hfound := finds_ofPath hsha1 disk hlt hfinds
    have hready' : Ready old new (pos + old.blockSize) (init ++ [last.addLength old.blockSize])
        (FileComparer.modeAfterCopy
          (FileComparer.target (init ++ [last.addLength old.blockSize])) found) := by
      rcases found with _ | o
      · exact ⟨hfound, by simp⟩
      · refine ⟨hfound, fun hfresh => ⟨init, _, _, rfl, hset', ?_⟩⟩
        simp only [bne_eq_false_iff_eq, FileComparer.target, List.getLast?_append,
          List.getLast?_singleton, Option.some_or, Option.map_some, Option.getD_some,
          hset'.getLength] at hfresh
        exact hfresh.symm
    rw [ih hcovers' hready' hlt, forall_not_shortMatch_iff hnext]
    refine (and_iff_right fun hshort => ?_).symm
    have := hshort.lt_add
    omega
  | @literalEnd fresh pos commands hend =>
    have hnext : nextPosition old new pos = pos + 1 := if_neg hready.1
    obtain ⟨init, last, n, hset, -, hemit, hcovers'⟩ := hcovers.emitLiteral hready hpos
    rw [hemit, forall_not_shortMatch_iff hnext]
    rw [hend] at hcovers'
    refine iff_of_true hcovers'.deltaCorrect
      ⟨fun hshort => hready.1 ((shortMatch_iff hpos hshort.lt_add).mp hshort),
        not_shortMatch_of_size_le hend.ge⟩
  | @literalNext fresh pos commands found out hlt hfinds _ ih =>
    rw [window_ofPath] at hfinds
    have hnext : nextPosition old new pos = pos + 1 := if_neg hready.1
    obtain ⟨init, last, n, hset, hoffset, hemit, hcovers'⟩ := hcovers.emitLiteral hready hpos
    rw [hemit] at ih
    have hfound := finds_ofPath hsha1 disk hlt hfinds
    have hready' : Ready old new (pos + 1) (init ++ [last])
        (FileComparer.modeAfterLiteral false found) := by
      rcases found with _ | o
      · exact ⟨hfound, fun _ => ⟨init, last, n, rfl, hset, hoffset⟩⟩
      · exact ⟨hfound, by simp⟩
    rw [ih hcovers' hready' hlt, forall_not_shortMatch_iff hnext]
    exact (and_iff_right fun hshort =>
      hready.1 ((shortMatch_iff hpos hshort.lt_add).mp hshort)).symm

/-- The delta of a file is correct if and only if the scan meets no short match. -/
lemma delta_deltaCorrect_iff (hsha1 : CollisionFree sha1 old new) (disk : DiskReads)
    {out : List RsyncCommand} (h : FileComparer.Delta sha1 (ofPath sha1 old disk) new out) :
    DeltaCorrect old new out ↔ ∀ k, ¬ ShortMatch old new ((nextPosition old new)^[k] 0) := by
  have hcovers : Covers old new [] 0 := ⟨by simp, by simp, rfl, Nat.zero_le _⟩
  rw [FileComparer.Delta] at h
  split_ifs at h with hempty
  · rw [h]
    rw [← hempty] at hcovers
    exact iff_of_true hcovers.deltaCorrect (not_shortMatch_of_size_le hempty.le)
  · obtain ⟨found, hfinds, hscan⟩ := h
    rw [window_ofPath] at hfinds
    have hpos : 0 < new.size := Nat.pos_of_ne_zero hempty
    have hfound := finds_ofPath hsha1 disk hpos hfinds
    refine scan_deltaCorrect_iff hsha1 disk hscan hcovers ?_ hpos
    rcases found with _ | o
    · exact ⟨hfound, by simp⟩
    · exact ⟨hfound, by simp⟩

/-! ### The comparer -/

lemma FileComparer.result_finished (sha1 : List Byte → Digest) (c : FileComparer) :
    (c.finished sha1).result = c.result := by
  rw [finished, threadFunc, requestThreadStop, processNewBuffer]
  split_ifs <;> rfl

/-- `process` ends, and its commands reproduce the new file unless the scan comes to a rest of the
new file that is shorter than a block and equal to the last block of the old file. -/
theorem process_deltaCorrect_iff (hsha1 : CollisionFree sha1 old new)
    (oldDisk newDisk : DiskReads) {fuel : Nat} (hfuel : new.size + 3 ≤ fuel) :
    ∃ c, (FileComparer.new new newDisk (ofPath sha1 old oldDisk)).process sha1 fuel = some c ∧
      (DeltaCorrect old new c.result ↔
        ∀ k, ¬ ShortMatch old new ((nextPosition old new)^[k] 0)) := by
  obtain ⟨c, hprocess, -, hdelta⟩ := FileComparer.process_spec
    (FileComparer.indexed_ofPath sha1 old oldDisk) new newDisk hfuel
  refine ⟨_, hprocess, ?_⟩
  rw [FileComparer.result_finished]
  exact delta_deltaCorrect_iff hsha1 oldDisk hdelta

/-! ### A block with other bytes around it -/

def wholeReads : DiskReads := ⟨fun _ => defaultDiskBlockSize, fun _ => true⟩

def zeroBlock : List Byte := List.replicate 512 0

lemma length_zeroBlock : zeroBlock.length = 512 := List.length_replicate

/-- SHA-1 on what is hashed below. -/
def sha1OfBlocks (bytes : List Byte) : Digest :=
  if bytes = zeroBlock then 0x5c3eb80066420002bc3dcc7ca4ab6efad7ed4ae5#160
  else if bytes = [7] then 0x5d1be7e9dda1ee8896be5b7e34a85ee16452a7b4#160
  else if bytes = zeroBlock ++ [7] then 0x95f4afa1ca0753c1aadd0a12d741de07de256475#160
  else if bytes = 1 :: zeroBlock.tail then 0x4174927c59854c80d33c69e7a43856b2b6c6af84#160
  else if bytes = [0, 8] then 0xace6f761db204030c1a65c0930bd01fd55ecc429#160
  else if bytes = 1 :: zeroBlock ++ [8] then 0x9ba2154799019a7eaa633c87ba430142721ea4b2#160
  else if bytes = zeroBlock ++ zeroBlock then 0x60cacbf3d72e1e7834203da608037b1bf83b40e8#160
  else 0

lemma eq_of_sha1_zeroBlock {bytes : List Byte}
    (h : sha1OfBlocks zeroBlock = sha1OfBlocks bytes) : zeroBlock = bytes := by
  by_contra hne
  rw [sha1OfBlocks, if_pos rfl, sha1OfBlocks, if_neg (Ne.symm hne)] at h
  split_ifs at h <;> revert h <;> decide

lemma eq_of_sha1_seven {bytes : List Byte} (h : sha1OfBlocks [7] = sha1OfBlocks bytes) :
    [7] = bytes := by
  by_contra hne
  have hseven : sha1OfBlocks [7] = 0x5d1be7e9dda1ee8896be5b7e34a85ee16452a7b4#160 := by
    decide +kernel
  rw [hseven, sha1OfBlocks, if_neg (c := bytes = [7]) (Ne.symm hne)] at h
  split_ifs at h <;> revert h <;> decide

lemma length_blockBefore_lt : (zeroBlock ++ [7]).length < 2 ^ 63 := by
  rw [List.length_append, length_zeroBlock]
  norm_num

lemma length_blockBetween_lt : (1 :: zeroBlock ++ [8]).length < 2 ^ 63 := by
  rw [List.length_append, List.length_cons, length_zeroBlock]
  norm_num

/-- A block and a byte. -/
def blockBefore : File := ⟨zeroBlock ++ [7], length_blockBefore_lt⟩

/-- The same block between two other bytes. -/
def blockBetween : File := ⟨1 :: zeroBlock ++ [8], length_blockBetween_lt⟩

lemma blocks_blockBefore : blockBefore.blocks = [zeroBlock, [7]] := by
  have hsize : blockBefore.blockSize = 512 := by decide +kernel
  have hblocks := @Blocks.blocks_flatten_append _ 512 [zeroBlock] [(7 : Byte)]
    (by simpa using length_zeroBlock) (by norm_num)
  rw [File.blocks, hsize, blockBefore]
  simpa using hblocks

lemma collisionFree_blockBetween : CollisionFree sha1OfBlocks blockBefore blockBetween := by
  intro block hblock pos _ _ hsha1
  rw [blocks_blockBefore, List.mem_cons, List.mem_singleton] at hblock
  rcases hblock with rfl | rfl
  · exact eq_of_sha1_zeroBlock hsha1
  · exact eq_of_sha1_seven hsha1

lemma size_blockBetween : blockBetween.size = 514 := by decide +kernel

/-- The only rest that is as short as the last block of the old file is another byte. -/
lemma not_shortMatch_blockBetween (pos : Nat) : ¬ ShortMatch blockBefore blockBetween pos := by
  rintro ⟨hpos, hlt, hmem⟩
  have hsize := size_blockBetween
  have hblockSize : blockBefore.blockSize = 512 := by decide +kernel
  have hlength : (blockBetween.bytes.drop pos).length = 514 - pos := by
    rw [List.length_drop, ← hsize, File.size]
  rw [blocks_blockBefore, List.mem_cons, List.mem_singleton] at hmem
  rcases hmem with hblock | hseven
  · rw [hblock, length_zeroBlock] at hlength
    omega
  · rw [hseven, List.length_singleton] at hlength
    obtain rfl : pos = 513 := by omega
    revert hseven
    decide +kernel

/-- A byte of the new file, the block of the old one, and another byte of the new file. -/
def blockBetweenCommands : List RsyncCommand :=
  [⟨0, 1⟩, ⟨0, RsyncCommand.mask + 512⟩, ⟨513, 1⟩]

lemma result_blockBetween :
    ((FileComparer.new blockBetween wholeReads
        (ofPath sha1OfBlocks blockBefore wholeReads)).process sha1OfBlocks 520).map
      FileComparer.result = some blockBetweenCommands := by
  decide +kernel

/-- The window slides over the first byte, the block is copied, and what is left is not the last
block of the old file. -/
theorem process_deltaCorrect_blockBetween :
    ∃ c, (FileComparer.new blockBetween wholeReads
        (ofPath sha1OfBlocks blockBefore wholeReads)).process sha1OfBlocks 520 = some c ∧
      c.result = blockBetweenCommands ∧ DeltaCorrect blockBefore blockBetween c.result := by
  obtain ⟨c, hprocess, hiff⟩ :=
    process_deltaCorrect_iff collisionFree_blockBetween wholeReads wholeReads
      (show blockBetween.size + 3 ≤ 520 by rw [size_blockBetween]; norm_num)
  have hresult := result_blockBetween
  rw [hprocess] at hresult
  exact ⟨c, hprocess, Option.some.inj hresult,
    hiff.mpr fun k => not_shortMatch_blockBetween _⟩

/-! ### Files of at most one byte -/

/-- SHA-1 on the only byte strings that are hashed below. -/
def sha1OfZero (bytes : List Byte) : Digest :=
  if bytes = [0] then 0x5ba93c9db0cff93f52b521d7420e43f6eda2784f#160
  else if bytes = [] then 0xda39a3ee5e6b4b0d3255bfef95601890afd80709#160
  else 0

def emptyFile : File := ⟨[], by norm_num⟩

lemma length_zeroFile_lt : ([0] : List Byte).length < 2 ^ 63 := by norm_num

def zeroFile : File := ⟨[0], length_zeroFile_lt⟩

lemma blockSize_zeroFile : zeroFile.blockSize = 512 := by decide

lemma blocks_zeroFile : zeroFile.blocks = [[0]] := by
  rw [File.blocks, blockSize_zeroFile, zeroFile, blocks_of_ne_nil (by norm_num) (by simp)]
  simp

/-- A file of one byte that has not changed: the only command copies a whole block. -/
theorem process_not_deltaCorrect_zeroFile :
    CollisionFree sha1OfZero zeroFile zeroFile ∧
      ∃ c, (FileComparer.new zeroFile wholeReads (ofPath sha1OfZero zeroFile wholeReads)).process
        sha1OfZero 4 = some c ∧ ¬ DeltaCorrect zeroFile zeroFile c.result := by
  have hsha1 : CollisionFree sha1OfZero zeroFile zeroFile := by
    intro block hblock pos hpos _ _
    have hzero : pos = 0 := Nat.lt_one_iff.mp hpos
    rw [blocks_zeroFile, List.mem_singleton] at hblock
    rw [hblock, hzero, blockSize_zeroFile]
    rfl
  have hshort : ShortMatch zeroFile zeroFile 0 := by
    refine ⟨by decide, by rw [blockSize_zeroFile]; decide, ?_⟩
    rw [blocks_zeroFile]
    exact List.mem_singleton.mpr rfl
  obtain ⟨c, hprocess, -, hdelta⟩ := FileComparer.process_spec
    (FileComparer.indexed_ofPath sha1OfZero zeroFile wholeReads) zeroFile wholeReads
    (show zeroFile.size + 3 ≤ 4 by decide)
  refine ⟨hsha1, _, hprocess, fun hcorrect => ?_⟩
  rw [FileComparer.result_finished] at hcorrect
  exact (delta_deltaCorrect_iff hsha1 wholeReads hdelta).mp hcorrect 0 hshort

end BackupProgram
