import BackupProgram.Lib.Blocks
import BackupProgram.Lib.Loops
import BackupProgram.Lib.Results
import BackupProgram.Native.MiscTypes
import BackupProgram.Native.StreamBlockReader

/-!
# The digest of a file

`RsyncableFile` holds what the delta of a later version is computed from: the sorted table of the
blocks of a file, a bitmap of the low halves of their rolling checksums, and the SHA-1 of the whole
file. SHA-1 itself is a parameter.
-/

namespace BackupProgram

open Blocks Loops Results

/-- A file: its size is a signed 64-bit number. -/
structure File where
  bytes : List Byte
  length_lt : bytes.length < 2 ^ 63

namespace File

def size (file : File) : Nat := file.bytes.length

end File

structure RsyncableFile where
  sha1 : Digest
  rsyncTable : List RsyncTableItem
  bitmap : BitVec 24 → Bool
  blockSize : Nat

namespace RsyncableFile

def sizeofRsyncTableItem : Nat := 32

/-- The loop of `scaler_function`. -/
def scalerLoop (x : Nat) : Nat → Nat → Nat
  | 0, ret => ret
  | fuel + 1, ret =>
    if (x + (ret - 1)) / ret * sizeofRsyncTableItem > 64 <<< 20 then scalerLoop x fuel (ret <<< 1)
    else ret

/-- The block size for a file of `x` bytes. -/
def scalerFunction (x : Nat) : Nat := scalerLoop x 64 512

def initBitmap (rsyncTable : List RsyncTableItem) : BitVec 24 → Bool :=
  rsyncTable.foldl (fun bitmap i => Function.update bitmap (i.rollingChecksum.setWidth 24) true)
    fun _ => false

/-- The loop of the constructor; `whole` is what `global_sha1` has been fed. Every round but the
last takes at least one byte from the stream. -/
def ofPathLoop (sha1 : List Byte → Digest) : Nat → BlockByBlockReader → CircularBuffer →
    List Byte → Nat → List RsyncTableItem → List Byte × List RsyncTableItem
  | 0, _, _, whole, _, rsyncTable => (whole, rsyncTable)
  | fuel + 1, stream, buffer, whole, offset, rsyncTable =>
    let (more, stream, buffer) := stream.nextBlock buffer
    if more then
      let data := CircularBuffer.slice buffer.buffer 0 buffer.size
      let item : RsyncTableItem :=
        { rollingChecksum := buffer.computeRsyncRollingChecksum
          complexHash := sha1 data
          fileOffset := offset }
      ofPathLoop sha1 fuel stream buffer (whole ++ data) (offset + buffer.size)
        (rsyncTable ++ [item])
    else (whole, rsyncTable)

/-- The constructor that reads the file at a path. -/
def ofPath (sha1 : List Byte → Digest) (file : File) (disk : DiskReads) : RsyncableFile :=
  let blockSize := scalerFunction file.size
  let stream := BlockByBlockReader.new file.bytes disk blockSize
  let (whole, rsyncTable) := ofPathLoop sha1 (file.size + 1) stream (CircularBuffer.new 1) [] 0 []
  let rsyncTable := sortTable rsyncTable
  { sha1 := sha1 whole
    rsyncTable := rsyncTable
    bitmap := initBitmap rsyncTable
    blockSize := blockSize }

def doesNotContain (file : RsyncableFile) (x : RollingChecksum) : Bool :=
  !file.bitmap (x.setWidth 24)

end RsyncableFile

/-! ### The block size -/

namespace RsyncableFile

inductive ScalerFault where
  | overflow
  | outOfFuel
deriving DecidableEq

/-- The result of an operation that must fit in 64 bits. -/
def checkU64 (n : Nat) : Except ScalerFault Nat := if n < 2 ^ 64 then pure n else throw .overflow

/-- A round of the loop of `scaler_function` that fails where an operation would wrap around. -/
def scalerRound (x ret : Nat) : Except ScalerFault (Round Nat Nat) :=
  if ret = 0 then throw .overflow
  else do
    let rounded ← checkU64 (x + (ret - 1))
    let tableSize ← checkU64 (rounded / ret * sizeofRsyncTableItem)
    if tableSize > 64 <<< 20 then
      let ret ← checkU64 (ret <<< 1)
      pure (.again ret)
    else pure (.done ret)

/-- `scaler_function` with these rounds, and a bound for their number. -/
def scalerFunctionChecked (fuel x : Nat) : Except ScalerFault Nat :=
  loop .outOfFuel (scalerRound x) fuel 512

/-- The table of a file of `x` bytes stays within 64 MiB. -/
def TableFits (x blockSize : Nat) : Prop := (x ⌈/⌉ blockSize) * sizeofRsyncTableItem ≤ 64 * 2 ^ 20

lemma tableFits_iff {x blockSize : Nat} (hpos : 0 < blockSize) :
    TableFits x blockSize ↔ x ≤ blockSize * 2 ^ 21 := by
  rw [← ceilDiv_le_iff_le_mul hpos, TableFits, sizeofRsyncTableItem]
  omega

lemma TableFits.mono {x y blockSize : Nat} (hpos : 0 < blockSize) (hle : y ≤ x)
    (h : TableFits x blockSize) : TableFits y blockSize :=
  (tableFits_iff hpos).mpr (hle.trans ((tableFits_iff hpos).mp h))

/-- The condition of the loop. -/
lemma tableFits_iff_le {x ret : Nat} (hpos : 0 < ret) :
    TableFits x ret ↔ (x + (ret - 1)) / ret * sizeofRsyncTableItem ≤ 64 <<< 20 := by
  rw [TableFits, Nat.ceilDiv_eq_add_pred_div, Nat.add_sub_assoc hpos]
  rfl

/-- No round wraps around before the block size exceeds `2 ^ 42`. -/
lemma scalerRound_spec {x k : Nat} (hx : x < 2 ^ 63) (hk : k ≤ 33) :
    TableFits x (512 * 2 ^ k) ∧ scalerRound x (512 * 2 ^ k) = .ok (.done (512 * 2 ^ k)) ∨
      ¬ TableFits x (512 * 2 ^ k) ∧
        scalerRound x (512 * 2 ^ k) = .ok (.again (512 * 2 ^ (k + 1))) := by
  have hpos : 0 < 512 * 2 ^ k := by positivity
  have hle : 512 * 2 ^ k ≤ 512 * 2 ^ 33 :=
    Nat.mul_le_mul_left _ (Nat.pow_le_pow_right (by norm_num) hk)
  have hge : 512 ≤ 512 * 2 ^ k := Nat.le_mul_of_pos_right _ (by positivity)
  have hfits := tableFits_iff_le (x := x) hpos
  have hdouble : (512 * 2 ^ k) <<< 1 = 512 * 2 ^ (k + 1) := by
    rw [Nat.shiftLeft_eq, pow_one, pow_succ, Nat.mul_assoc]
  have hquot : (x + (512 * 2 ^ k - 1)) / (512 * 2 ^ k) ≤ (x + (512 * 2 ^ k - 1)) / 512 :=
    Nat.div_le_div_left hge (by norm_num)
  have hsum : checkU64 (x + (512 * 2 ^ k - 1)) = .ok (x + (512 * 2 ^ k - 1)) :=
    if_pos (by omega)
  have hsize : checkU64 ((x + (512 * 2 ^ k - 1)) / (512 * 2 ^ k) * sizeofRsyncTableItem) =
      .ok ((x + (512 * 2 ^ k - 1)) / (512 * 2 ^ k) * sizeofRsyncTableItem) :=
    if_pos (by rw [sizeofRsyncTableItem]; omega)
  have hret : checkU64 (512 * 2 ^ (k + 1)) = .ok (512 * 2 ^ (k + 1)) :=
    if_pos (by rw [pow_succ]; omega)
  rw [scalerRound, if_neg hpos.ne', hsum, hdouble]
  simp only [bind, Except.bind, hsize, hret]
  by_cases h : TableFits x (512 * 2 ^ k)
  · left
    refine ⟨h, ?_⟩
    rw [if_neg (not_lt.mpr (hfits.mp h))]
    rfl
  · right
    refine ⟨h, ?_⟩
    rw [if_pos (not_le.mp (hfits.not.mp h))]
    rfl

/-- The loop ends with the least block size for which the table fits. -/
lemma exists_loop_scalerRound {x : Nat} (hx : x < 2 ^ 63) {fuel : Nat} (hfuel : 34 ≤ fuel) :
    ∃ r, scalerFunctionChecked fuel x = .ok r ∧
      ∃ k ≤ 33, r = 512 * 2 ^ k ∧ TableFits x r ∧ ∀ j < k, ¬ TableFits x (512 * 2 ^ j) := by
  have hlog : ∀ k, Nat.log 2 (512 * 2 ^ k) = k + 9 := fun k => by
    rw [show 512 * 2 ^ k = 2 ^ (k + 9) by rw [pow_add]; ring, Nat.log_pow (by norm_num)]
  refine loop_of_variant ScalerFault.outOfFuel
    (fun ret => ∃ k ≤ 33, ret = 512 * 2 ^ k ∧ ∀ j < k, ¬ TableFits x (512 * 2 ^ j)) _
    (fun ret => 42 - Nat.log 2 ret) ?_ ⟨0, by norm_num, rfl, by simp⟩ ?_
  · rintro _ ⟨k, hk, rfl, hleast⟩
    rcases scalerRound_spec hx hk with ⟨hfits, hround⟩ | ⟨hfits, hround⟩
    · exact Or.inl ⟨_, hround, k, hk, rfl, hfits, hleast⟩
    · have hlt : k < 33 := by
        refine lt_of_le_of_ne hk ?_
        rintro rfl
        exact hfits ((tableFits_iff (by positivity)).mpr (by omega))
      refine Or.inr ⟨_, hround, ⟨k + 1, hlt, rfl, fun j hj => ?_⟩, ?_⟩
      · rcases Nat.lt_succ_iff_lt_or_eq.mp hj with hj | rfl
        · exact hleast j hj
        · exact hfits
      · rw [hlog, hlog]
        omega
  · have h0 := hlog 0
    rw [pow_zero, Nat.mul_one] at h0
    rw [h0]
    omega

/-- A round without a fault goes on as the plain loop does. -/
lemma scalerRound_eq_ok {x ret : Nat} {out : Round Nat Nat} (h : scalerRound x ret = .ok out) :
    out = if (x + (ret - 1)) / ret * sizeofRsyncTableItem > 64 <<< 20 then .again (ret <<< 1)
      else .done ret := by
  have hcheck : ∀ n m, checkU64 n = .ok m ↔ n < 2 ^ 64 ∧ n = m := fun n m => by
    rw [checkU64, ite_throw_eq_ok, pure_eq_ok]
  rw [scalerRound] at h
  split_ifs at h
  simp only [bind_eq_ok, hcheck] at h
  obtain ⟨_, ⟨-, rfl⟩, _, ⟨-, rfl⟩, h⟩ := h
  split_ifs at h ⊢
  · simp only [bind_eq_ok, hcheck, pure_eq_ok] at h
    obtain ⟨_, ⟨-, rfl⟩, h⟩ := h
    exact h.symm
  · exact (pure_eq_ok.mp h).symm

lemma scalerLoop_eq_of_loop {x fuel ret r : Nat}
    (h : loop .outOfFuel (scalerRound x) fuel ret = .ok r) : scalerLoop x fuel ret = r := by
  induction fuel generalizing ret with
  | zero => cases h
  | succ fuel ih =>
    rw [loop] at h
    rw [scalerLoop]
    rcases hround : scalerRound x ret with e | out
    · rw [hround] at h
      cases h
    · rw [hround, scalerRound_eq_ok hround] at h
      split_ifs at h ⊢
      · exact ih h
      · exact Except.ok.inj h

lemma scalerFunctionChecked_eq {x fuel : Nat} (hx : x < 2 ^ 63) (hfuel : 34 ≤ fuel) :
    scalerFunctionChecked fuel x = .ok (scalerFunction x) := by
  obtain ⟨r, hloop, -⟩ := exists_loop_scalerRound hx (le_refl 34)
  rw [scalerFunction, scalerLoop_eq_of_loop (loop_of_le hloop (by norm_num))]
  exact loop_of_le hloop hfuel

/-- The block size is the least one for which the table fits. -/
lemma scalerFunction_least {x : Nat} (hx : x < 2 ^ 63) :
    ∃ k ≤ 33, scalerFunction x = 512 * 2 ^ k ∧ TableFits x (scalerFunction x) ∧
      ∀ j < k, ¬ TableFits x (512 * 2 ^ j) := by
  obtain ⟨r, hloop, hr⟩ := exists_loop_scalerRound hx (le_refl 34)
  rw [scalerFunctionChecked_eq hx (le_refl 34), Except.ok.injEq] at hloop
  rwa [hloop]

/-- The block size is a power of two between `2 ^ 9` and `2 ^ 42`, and the table of a file of that
size stays within 64 MiB. -/
theorem scalerFunction_spec {x : Nat} (hx : x < 2 ^ 63) :
    ∃ k, 9 ≤ k ∧ k ≤ 42 ∧ scalerFunction x = 2 ^ k ∧
      (x + (scalerFunction x - 1)) / scalerFunction x * sizeofRsyncTableItem ≤ 64 <<< 20 := by
  obtain ⟨k, hk, heq, hfits, -⟩ := scalerFunction_least hx
  have hpow : scalerFunction x = 2 ^ (k + 9) := by
    rw [heq, pow_add, Nat.mul_comm]
    rfl
  refine ⟨k + 9, by omega, by omega, hpow, (tableFits_iff_le ?_).mp hfits⟩
  rw [heq]
  positivity

lemma scalerFunction_pos {x : Nat} (hx : x < 2 ^ 63) : 0 < scalerFunction x := by
  obtain ⟨k, -, -, heq, -⟩ := scalerFunction_spec hx
  rw [heq]
  positivity

lemma scalerFunction_lt {x : Nat} (hx : x < 2 ^ 63) : scalerFunction x < 2 ^ 63 := by
  obtain ⟨k, -, hk, heq, -⟩ := scalerFunction_spec hx
  rw [heq]
  exact Nat.pow_lt_pow_right (by norm_num) (by omega)

/-! ### The bitmap -/

lemma initBitmap_eq_true_iff {rsyncTable : List RsyncTableItem} {x : BitVec 24} :
    initBitmap rsyncTable x = true ↔
      ∃ item ∈ rsyncTable, item.rollingChecksum.setWidth 24 = x := by
  have key : ∀ (table : List RsyncTableItem) (bitmap : BitVec 24 → Bool),
      table.foldl (fun bitmap i => Function.update bitmap (i.rollingChecksum.setWidth 24) true)
        bitmap x = true ↔
      bitmap x = true ∨ ∃ item ∈ table, item.rollingChecksum.setWidth 24 = x := by
    intro table
    induction table with
    | nil => simp
    | cons item table ih =>
      intro bitmap
      rw [List.foldl_cons, ih, Function.update_apply]
      split_ifs with hx
      · simp [hx]
      · have hne : item.rollingChecksum.setWidth 24 ≠ x := Ne.symm hx
        simp [hne]
  rw [initBitmap, key]
  simp

/-! ### The table -/

/-- The item of a block at an offset. -/
def itemOf (sha1 : List Byte → Digest) (offset : Nat) (block : List Byte) : RsyncTableItem where
  rollingChecksum := computeRsyncRollingChecksum block
  complexHash := sha1 block
  fileOffset := offset

/-- The items of consecutive blocks, the first of them at an offset. -/
def itemsOf (sha1 : List Byte → Digest) : Nat → List (List Byte) → List RsyncTableItem
  | _, [] => []
  | offset, block :: bs => itemOf sha1 offset block :: itemsOf sha1 (offset + block.length) bs

variable {sha1 : List Byte → Digest}

@[simp] lemma length_itemsOf (offset : Nat) (bs : List (List Byte)) :
    (itemsOf sha1 offset bs).length = bs.length := by
  induction bs generalizing offset with
  | nil => rfl
  | cons b bs ih => simp [itemsOf, ih]

/-- The items of the blocks of a file: each one describes the window at its offset. -/
lemma mem_itemsOf_blocks {n : Nat} (hn : 0 < n) {file : List Byte} {item : RsyncTableItem} :
    item ∈ itemsOf sha1 0 (blocks n file) ↔
      ∃ k, k * n < file.length ∧ item = itemOf sha1 (k * n) ((file.drop (k * n)).take n) := by
  suffices h : ∀ offset (l : List Byte), item ∈ itemsOf sha1 offset (blocks n l) ↔
      ∃ k, k * n < l.length ∧ item = itemOf sha1 (offset + k * n) ((l.drop (k * n)).take n) by
    simpa using h 0 file
  intro offset l
  induction l using block_induction hn generalizing offset with
  | nil => simp [itemsOf]
  | block l hl ih =>
    have hpos := List.length_pos_iff.mpr hl
    rw [blocks_of_ne_nil hn hl, itemsOf, List.mem_cons, ih]
    by_cases hshort : l.length ≤ n
    · -- the only block
      rw [List.drop_eq_nil_of_le hshort]
      constructor
      · rintro (rfl | ⟨k, hk, -⟩)
        · exact ⟨0, by omega, by simp⟩
        · simp at hk
      · rintro ⟨k, hk, rfl⟩
        rcases k with _ | k
        · left
          simp
        · rw [Nat.succ_mul] at hk
          omega
    · have hlen : (l.take n).length = n := by
        rw [List.length_take]
        omega
      rw [hlen]
      constructor
      · rintro (rfl | ⟨k, hk, rfl⟩)
        · exact ⟨0, by omega, by simp⟩
        · rw [List.length_drop] at hk
          refine ⟨k + 1, by rw [Nat.succ_mul]; omega, ?_⟩
          rw [List.drop_drop, Nat.succ_mul, Nat.add_comm n, ← Nat.add_assoc, Nat.add_right_comm]
      · rintro ⟨k, hk, rfl⟩
        rcases k with _ | k
        · left
          simp
        · right
          rw [Nat.succ_mul] at hk
          refine ⟨k, by rw [List.length_drop]; omega, ?_⟩
          rw [List.drop_drop, Nat.succ_mul, Nat.add_comm n, ← Nat.add_assoc, Nat.add_right_comm]

lemma ofPathLoop_eq {fuel : Nat} {stream : BlockByBlockReader} {buffer : CircularBuffer}
    (whole : List Byte) (offset : Nat) (rsyncTable : List RsyncTableItem) (h : stream.Valid)
    (hbuffer : buffer.buffer.length = buffer.mCapacity) (hfuel : stream.rest.length < fuel) :
    ofPathLoop sha1 fuel stream buffer whole offset rsyncTable =
      (whole ++ stream.rest,
        rsyncTable ++ itemsOf sha1 offset (blocks stream.blockSize stream.rest)) := by
  induction fuel generalizing stream buffer whole offset rsyncTable with
  | zero => omega
  | succ fuel ih =>
    obtain ⟨hmore, hvalid, hsize, hrest, hdst⟩ := BlockByBlockReader.nextBlock_spec h hbuffer
    have hpos := h.blockSize_pos
    rw [ofPathLoop]
    by_cases hnil : stream.rest = []
    · simp [hmore, hnil, itemsOf]
    · have heof : ¬ stream.eof = true := fun he => hnil (h.rest_of_eof he)
      rw [if_neg heof] at hdst
      obtain ⟨hlin, hstart, hcap, hcontent⟩ := hdst
      have hlen := List.length_pos_iff.mpr hnil
      have hvalidBuffer : (stream.nextBlock buffer).2.2.Valid :=
        ⟨hlin.length_buffer, by have := hlin.start_add_size_le; omega, by omega⟩
      have hdata : CircularBuffer.slice (stream.nextBlock buffer).2.2.buffer 0
          (stream.nextBlock buffer).2.2.size = stream.rest.take stream.blockSize := by
        rw [← hcontent, hlin.content_eq, hstart]
        rfl
      have hsize' : (stream.nextBlock buffer).2.2.size =
          (stream.rest.take stream.blockSize).length := by
        rw [← hcontent, CircularBuffer.length_content]
        rfl
      simp only [hmore, hnil, ne_eq, not_false_eq_true, decide_true, if_true]
      rw [ih _ _ _ hvalid hlin.length_buffer (by rw [hrest, List.length_drop]; omega), hdata,
        hvalidBuffer.computeRsyncRollingChecksum_eq, hcontent, hsize', hrest, hsize,
        blocks_of_ne_nil hpos hnil, itemsOf, List.append_assoc, List.append_assoc,
        List.take_append_drop]
      rfl

/-- The digest of a file, whatever pieces the disk delivers it in. -/
theorem ofPath_eq (file : File) (disk : DiskReads) :
    ofPath sha1 file disk =
      { sha1 := sha1 file.bytes
        rsyncTable :=
          sortTable (itemsOf sha1 0 (blocks (scalerFunction file.size) file.bytes))
        bitmap := initBitmap
          (sortTable (itemsOf sha1 0 (blocks (scalerFunction file.size) file.bytes)))
        blockSize := scalerFunction file.size } := by
  have hpos : 0 < scalerFunction file.size := scalerFunction_pos file.length_lt
  have hloop : ofPathLoop sha1 (file.size + 1)
      (BlockByBlockReader.new file.bytes disk (scalerFunction file.size)) (CircularBuffer.new 1)
      [] 0 [] = _ :=
    ofPathLoop_eq [] 0 [] (BlockByBlockReader.valid_new file.bytes disk (scalerFunction file.size))
    (CircularBuffer.linear_new 1).length_buffer (by simp [File.size])
  rw [BlockByBlockReader.rest_new, BlockByBlockReader.blockSize_new _ _ hpos] at hloop
  rw [ofPath, hloop]
  rfl

end RsyncableFile

end BackupProgram
