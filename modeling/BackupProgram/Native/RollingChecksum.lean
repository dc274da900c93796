import BackupProgram.Native.CircularBuffer

/-!
# The rolling checksum

The checksum of a window packs two sums modulo `2 ^ 16`: the sum of the bytes and the sum of the
bytes weighted by their distance from the end. `packed` and `weighted` give the two sums as
natural numbers; the lemmas below say that computing the checksum from scratch, removing the first
byte and adding a byte at the end all agree, whatever wraps around in the 32-bit arithmetic.
-/

namespace BackupProgram

abbrev RollingChecksum := BitVec 32

def Byte.toChecksum (k : Byte) : RollingChecksum := BitVec.ofNat 32 k.toNat

/-- The loop of `compute_rsync_rolling_checksum`, from index `i` on. -/
def computeRsyncRollingChecksumLoop (size : Nat) :
    Nat → List Byte → RollingChecksum → RollingChecksum → RollingChecksum × RollingChecksum
  | _, [], a, b => (a, b)
  | i, k :: ks, a, b =>
    computeRsyncRollingChecksumLoop size (i + 1) ks (a + k.toChecksum)
      (b + k.toChecksum * BitVec.ofNat 32 (size - i + 1))

def computeRsyncRollingChecksum (buffer : List Byte) : RollingChecksum :=
  let (a, b) := computeRsyncRollingChecksumLoop buffer.length 0 buffer 0 0
  (a &&& 0xFFFF#32) ||| ((b &&& 0xFFFF#32) <<< 16)

/-- The overload for circular buffers; one that wraps is read through `operator[]`. -/
def CircularBuffer.computeRsyncRollingChecksum (buffer : CircularBuffer) : RollingChecksum :=
  if buffer.singlePiece then
    BackupProgram.computeRsyncRollingChecksum
      (CircularBuffer.slice buffer.buffer buffer.start buffer.size)
  else
    BackupProgram.computeRsyncRollingChecksum ((List.range buffer.size).map buffer.get)

/-- The version with five arguments, for a piece that starts at `offset` of a whole of
`logicalSize` bytes; its loop gives the byte at index `i` the weight of index `i + offset`. -/
def computeRsyncRollingChecksumPiece (buffer : List Byte) (offset logicalSize : Nat)
    (previous : RollingChecksum := 0) : RollingChecksum :=
  let a := previous &&& 0xFFFF#32
  let b := (previous >>> 16) &&& 0xFFFF#32
  let (a, b) := computeRsyncRollingChecksumLoop logicalSize offset buffer a b
  (a &&& 0xFFFF#32) ||| ((b &&& 0xFFFF#32) <<< 16)

/-- The overload for circular buffers. -/
def CircularBuffer.computeRsyncRollingChecksumPiece (buffer : CircularBuffer)
    (offset logicalSize : Nat) (previous : RollingChecksum := 0) : RollingChecksum :=
  if buffer.singlePiece then
    BackupProgram.computeRsyncRollingChecksumPiece
      (CircularBuffer.slice buffer.buffer buffer.start buffer.size) offset logicalSize previous
  else
    BackupProgram.computeRsyncRollingChecksumPiece ((List.range buffer.size).map buffer.get) offset
      logicalSize previous

/-- Consecutive pieces, the first of them at `offset`, one after the other. -/
def checksumOfPieces (logicalSize : Nat) :
    Nat → List (List Byte) → RollingChecksum → RollingChecksum
  | _, [], previous => previous
  | offset, piece :: pieces, previous =>
    checksumOfPieces logicalSize (offset + piece.length) pieces
      (computeRsyncRollingChecksumPiece piece offset logicalSize previous)

def subtractRsyncRollingChecksum (previous : RollingChecksum) (byteToSubtract : Byte)
    (size : Nat) : RollingChecksum :=
  let a := previous &&& 0xFFFF#32
  let b := (previous >>> 16) &&& 0xFFFF#32
  let a := (a + 0x10000#32 - byteToSubtract.toChecksum) &&& 0xFFFF#32
  let b := (b + 0xFFFF0000#32 - BitVec.ofNat 32 (byteToSubtract.toNat * (size + 1))) &&& 0xFFFF#32
  a ||| (b <<< 16)

/-- The size is not used. -/
def addRsyncRollingChecksum (previous : RollingChecksum) (byteToAdd : Byte)
    (_size : Nat) : RollingChecksum :=
  let a := previous &&& 0xFFFF#32
  let b := (previous >>> 16) &&& 0xFFFF#32
  let a := (a + byteToAdd.toChecksum) &&& 0xFFFF#32
  let b := (b + a + byteToAdd.toChecksum) &&& 0xFFFF#32
  a ||| (b <<< 16)

/-! ### The two sums -/

/-- The sum of the bytes of a window. -/
def byteSum : List Byte → Nat
  | [] => 0
  | k :: ks => k.toNat + byteSum ks

/-- The sum of the bytes of a window, the last one taken twice, the one before it thrice, ... -/
def weighted : List Byte → Nat
  | [] => 0
  | k :: ks => k.toNat * (ks.length + 2) + weighted ks

/-- The checksum whose halves are `a` and `b` modulo `2 ^ 16`. -/
def packed (a b : Nat) : RollingChecksum := BitVec.ofNat 32 (a % 65536 + 65536 * (b % 65536))

lemma byteSum_append (xs ys : List Byte) : byteSum (xs ++ ys) = byteSum xs + byteSum ys := by
  induction xs with
  | nil => simp [byteSum]
  | cons k ks ih => simp [byteSum, ih, Nat.add_assoc]

lemma weighted_append_singleton (xs : List Byte) (k : Byte) :
    weighted (xs ++ [k]) = weighted xs + byteSum xs + 2 * k.toNat := by
  induction xs with
  | nil => simp [weighted, byteSum, Nat.mul_comm]
  | cons x xs ih =>
    simp only [List.cons_append, weighted, byteSum, ih, List.length_append, List.length_cons,
      List.length_nil]
    ring

/-! ### The packed form -/

lemma toNat_and_mask (x : BitVec 32) : (x &&& 0xFFFF#32).toNat = x.toNat % 65536 := by
  rw [BitVec.toNat_and]
  exact Nat.and_two_pow_sub_one_eq_mod x.toNat 16

lemma toNat_toChecksum (k : Byte) : k.toChecksum.toNat = k.toNat := by
  have := k.toNat_lt
  simp only [Byte.toChecksum, BitVec.toNat_ofNat]
  omega

/-- Joining the two masked halves gives the packed form. -/
lemma or_shiftLeft_eq_packed (x y : BitVec 32) :
    (x &&& 0xFFFF#32) ||| ((y &&& 0xFFFF#32) <<< 16) = packed x.toNat y.toNat := by
  apply BitVec.eq_of_toNat_eq
  have hx : (x &&& 0xFFFF#32).toNat = x.toNat % 65536 := toNat_and_mask x
  have hy : ((y &&& 0xFFFF#32) <<< 16).toNat = 65536 * (y.toNat % 65536) := by
    rw [BitVec.toNat_shiftLeft, toNat_and_mask, Nat.shiftLeft_eq]
    omega
  have hor := Nat.two_pow_add_eq_or_of_lt (i := 16) (b := x.toNat % 65536) (by omega)
    (y.toNat % 65536)
  rw [BitVec.toNat_or, hx, hy, Nat.or_comm, packed, BitVec.toNat_ofNat]
  norm_num at hor
  omega

lemma toNat_packed (a b : Nat) : (packed a b).toNat = a % 65536 + 65536 * (b % 65536) := by
  simp only [packed, BitVec.toNat_ofNat]
  omega

lemma toNat_packed_low (a b : Nat) : (packed a b &&& 0xFFFF#32).toNat = a % 65536 := by
  rw [toNat_and_mask, toNat_packed]
  omega

lemma toNat_packed_high (a b : Nat) :
    ((packed a b >>> 16) &&& 0xFFFF#32).toNat = b % 65536 := by
  rw [toNat_and_mask, BitVec.toNat_ushiftRight, toNat_packed, Nat.shiftRight_eq_div_pow]
  omega

lemma packed_congr {a a' b b' : Nat} (ha : a % 65536 = a' % 65536) (hb : b % 65536 = b' % 65536) :
    packed a b = packed a' b' := by
  rw [packed, packed, ha, hb]

/-! ### The computations in packed form -/

lemma computeRsyncRollingChecksumLoop_spec (size i : Nat) (ks : List Byte) (a b : BitVec 32)
    (h : i + ks.length = size) :
    (computeRsyncRollingChecksumLoop size i ks a b).1.toNat % 65536 =
        (a.toNat + byteSum ks) % 65536 ∧
      (computeRsyncRollingChecksumLoop size i ks a b).2.toNat % 65536 =
        (b.toNat + weighted ks) % 65536 := by
  induction ks generalizing i a b with
  | nil => simp [computeRsyncRollingChecksumLoop, byteSum, weighted]
  | cons k ks ih =>
    simp only [List.length_cons] at h
    have hweight : size - i + 1 = ks.length + 2 := by omega
    obtain ⟨ih1, ih2⟩ := ih (i + 1) (a + k.toChecksum)
      (b + k.toChecksum * BitVec.ofNat 32 (size - i + 1)) (by omega)
    simp only [computeRsyncRollingChecksumLoop, byteSum, weighted]
    constructor
    · rw [ih1, BitVec.toNat_add, toNat_toChecksum]
      omega
    · have hmul : (k.toNat * ((ks.length + 2) % 2 ^ 32)) % 65536 =
          (k.toNat * (ks.length + 2)) % 65536 := by
        rw [Nat.mul_mod, Nat.mul_mod k.toNat (ks.length + 2)]
        congr 2
        omega
      rw [ih2, BitVec.toNat_add, BitVec.toNat_mul, toNat_toChecksum, hweight,
        BitVec.toNat_ofNat]
      omega

lemma computeRsyncRollingChecksum_eq (bs : List Byte) :
    computeRsyncRollingChecksum bs = packed (byteSum bs) (weighted bs) := by
  obtain ⟨h1, h2⟩ := computeRsyncRollingChecksumLoop_spec bs.length 0 bs 0 0 (by simp)
  unfold computeRsyncRollingChecksum
  dsimp only
  rw [or_shiftLeft_eq_packed]
  exact packed_congr (by simpa using h1) (by simpa using h2)

lemma subtractRsyncRollingChecksum_packed (a b : Nat) (k : Byte) (size : Nat) :
    subtractRsyncRollingChecksum (packed (k.toNat + a) (k.toNat * (size + 1) + b)) k size =
      packed a b := by
  have hk := k.toNat_lt
  rw [subtractRsyncRollingChecksum, or_shiftLeft_eq_packed]
  apply packed_congr
  · rw [BitVec.toNat_sub, BitVec.toNat_add, toNat_packed_low, toNat_toChecksum]
    simp only [BitVec.toNat_ofNat]
    omega
  · rw [BitVec.toNat_sub, BitVec.toNat_add, toNat_packed_high]
    simp only [BitVec.toNat_ofNat]
    generalize k.toNat * (size + 1) = x
    omega

lemma addRsyncRollingChecksum_packed (a b : Nat) (k : Byte) (size : Nat) :
    addRsyncRollingChecksum (packed a b) k size = packed (a + k.toNat) (b + a + 2 * k.toNat) := by
  have hk := k.toNat_lt
  rw [addRsyncRollingChecksum, or_shiftLeft_eq_packed]
  apply packed_congr
  · rw [BitVec.toNat_add, toNat_packed_low, toNat_toChecksum]
    omega
  · rw [BitVec.toNat_add, BitVec.toNat_add, toNat_packed_high, toNat_and_mask, BitVec.toNat_add,
      toNat_packed_low, toNat_toChecksum]
    omega

/-! ### Sliding a window -/

/-- Removing the first byte of a window. -/
theorem subtract_computeRsyncRollingChecksum (k : Byte) (ks : List Byte) :
    subtractRsyncRollingChecksum (computeRsyncRollingChecksum (k :: ks)) k (ks.length + 1) =
      computeRsyncRollingChecksum ks := by
  rw [computeRsyncRollingChecksum_eq, computeRsyncRollingChecksum_eq]
  exact subtractRsyncRollingChecksum_packed (byteSum ks) (weighted ks) k (ks.length + 1)

/-- Adding a byte at the end of a window. -/
theorem add_computeRsyncRollingChecksum (ks : List Byte) (k : Byte) (size : Nat) :
    addRsyncRollingChecksum (computeRsyncRollingChecksum ks) k size =
      computeRsyncRollingChecksum (ks ++ [k]) := by
  rw [computeRsyncRollingChecksum_eq, computeRsyncRollingChecksum_eq,
    addRsyncRollingChecksum_packed, weighted_append_singleton, byteSum_append]
  rfl

lemma CircularBuffer.map_get_eq_content (b : CircularBuffer) :
    (List.range b.size).map b.get = b.content := by
  apply List.ext_getElem
  · simp [CircularBuffer.size]
  · intro i h1 h2
    simp [CircularBuffer.get_eq_getElem_content b i h2]

/-- The overload for circular buffers is the checksum of the content. -/
theorem CircularBuffer.Valid.computeRsyncRollingChecksum_eq {b : CircularBuffer} (h : b.Valid) :
    b.computeRsyncRollingChecksum = BackupProgram.computeRsyncRollingChecksum b.content := by
  unfold CircularBuffer.computeRsyncRollingChecksum
  split_ifs with hs
  · rw [Linear.content_eq ⟨h.length_buffer, by simpa [singlePiece] using hs⟩]
    rfl
  · rw [b.map_get_eq_content]

/-! ### Piece by piece -/

lemma computeRsyncRollingChecksumLoop_append (size i : Nat) (xs ys : List Byte)
    (a b : RollingChecksum) :
    computeRsyncRollingChecksumLoop size i (xs ++ ys) a b =
      computeRsyncRollingChecksumLoop size (i + xs.length) ys
        (computeRsyncRollingChecksumLoop size i xs a b).1
        (computeRsyncRollingChecksumLoop size i xs a b).2 := by
  induction xs generalizing i a b with
  | nil => rfl
  | cons x xs ih =>
    rw [List.cons_append, computeRsyncRollingChecksumLoop, ih, computeRsyncRollingChecksumLoop,
      List.length_cons, Nat.add_right_comm, Nat.add_assoc]

/-- The low halves of the two sums depend on the low halves of where they start. -/
lemma computeRsyncRollingChecksumLoop_congr (size i : Nat) (ks : List Byte)
    (a a' b b' : RollingChecksum) (ha : a.toNat % 65536 = a'.toNat % 65536)
    (hb : b.toNat % 65536 = b'.toNat % 65536) :
    (computeRsyncRollingChecksumLoop size i ks a b).1.toNat % 65536 =
        (computeRsyncRollingChecksumLoop size i ks a' b').1.toNat % 65536 ∧
      (computeRsyncRollingChecksumLoop size i ks a b).2.toNat % 65536 =
        (computeRsyncRollingChecksumLoop size i ks a' b').2.toNat % 65536 := by
  induction ks generalizing i a a' b b' with
  | nil => exact ⟨ha, hb⟩
  | cons k ks ih =>
    rw [computeRsyncRollingChecksumLoop, computeRsyncRollingChecksumLoop]
    refine ih (i + 1) _ _ _ _ ?_ ?_
    · rw [BitVec.toNat_add, BitVec.toNat_add]
      omega
    · rw [BitVec.toNat_add, BitVec.toNat_add]
      omega

/-- A piece goes on where the loop over the bytes before it has stopped. -/
lemma computeRsyncRollingChecksumPiece_packed (ks : List Byte) (offset size : Nat)
    (a b : RollingChecksum) :
    computeRsyncRollingChecksumPiece ks offset size (packed a.toNat b.toNat) =
      packed (computeRsyncRollingChecksumLoop size offset ks a b).1.toNat
        (computeRsyncRollingChecksumLoop size offset ks a b).2.toNat := by
  obtain ⟨h1, h2⟩ := computeRsyncRollingChecksumLoop_congr size offset ks
    (packed a.toNat b.toNat &&& 0xFFFF#32) a
    ((packed a.toNat b.toNat >>> 16) &&& 0xFFFF#32) b
    (by rw [toNat_packed_low, Nat.mod_mod]) (by rw [toNat_packed_high, Nat.mod_mod])
  rw [computeRsyncRollingChecksumPiece]
  dsimp only
  rw [or_shiftLeft_eq_packed]
  exact packed_congr h1 h2

/-- The overload for circular buffers is that of the content. -/
theorem CircularBuffer.Valid.computeRsyncRollingChecksumPiece_eq {b : CircularBuffer}
    (h : b.Valid) (offset logicalSize : Nat) (previous : RollingChecksum) :
    b.computeRsyncRollingChecksumPiece offset logicalSize previous =
      BackupProgram.computeRsyncRollingChecksumPiece b.content offset logicalSize previous := by
  unfold CircularBuffer.computeRsyncRollingChecksumPiece
  split_ifs with hs
  · rw [Linear.content_eq ⟨h.length_buffer, by simpa [singlePiece] using hs⟩]
    rfl
  · rw [b.map_get_eq_content]

/-- Folding over the pieces is the loop over all their bytes. -/
lemma checksumOfPieces_packed (size offset : Nat) (pieces : List (List Byte))
    (a b : RollingChecksum) :
    checksumOfPieces size offset pieces (packed a.toNat b.toNat) =
      packed (computeRsyncRollingChecksumLoop size offset pieces.flatten a b).1.toNat
        (computeRsyncRollingChecksumLoop size offset pieces.flatten a b).2.toNat := by
  induction pieces generalizing offset a b with
  | nil => rfl
  | cons piece pieces ih =>
    rw [checksumOfPieces, computeRsyncRollingChecksumPiece_packed, ih, List.flatten_cons,
      computeRsyncRollingChecksumLoop_append]

/-- However a byte string is cut into pieces, folding over them gives the checksum of the whole. -/
theorem checksumOfPieces_eq (pieces : List (List Byte)) :
    checksumOfPieces pieces.flatten.length 0 pieces 0 =
      computeRsyncRollingChecksum pieces.flatten := by
  rw [computeRsyncRollingChecksum]
  dsimp only
  rw [or_shiftLeft_eq_packed]
  exact checksumOfPieces_packed _ 0 pieces 0 0

end BackupProgram
