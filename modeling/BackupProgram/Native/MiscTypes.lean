import BackupProgram.Native.RollingChecksum

/-!
# Table items and delta commands
-/

namespace BackupProgram

/-- The 20 bytes of a SHA-1, the first byte the most significant: `memcmp` compares the numbers. -/
abbrev Digest := BitVec 160

def memcmp (a b : Digest) : Int :=
  if a.toNat < b.toNat then -1 else if a.toNat > b.toNat then 1 else 0

def unsignedcmp (a b : Nat) : Int :=
  if a < b then -1 else if a > b then 1 else 0

lemma memcmp_eq_unsignedcmp (a b : Digest) : memcmp a b = unsignedcmp a.toNat b.toNat := rfl

structure RsyncTableItem where
  rollingChecksum : RollingChecksum
  complexHash : Digest
  fileOffset : Nat
deriving DecidableEq, Repr

/-- `operator<`. -/
def RsyncTableItem.lt (a b : RsyncTableItem) : Bool :=
  if a.rollingChecksum.toNat < b.rollingChecksum.toNat then true
  else if a.rollingChecksum.toNat > b.rollingChecksum.toNat then false
  else
    let cmp := memcmp a.complexHash b.complexHash
    if cmp < 0 then true
    else if cmp > 0 then false
    else a.fileOffset < b.fileOffset

/-- `std::sort` by `operator<`, which is a total order, so that the result is unique. -/
def sortTable (table : List RsyncTableItem) : List RsyncTableItem :=
  table.insertionSort fun a b => ¬ b.lt a

structure RsyncCommand where
  fileOffset : Nat
  length : BitVec 64
deriving DecidableEq, Repr

namespace RsyncCommand

def mask : BitVec 64 := 1#64 <<< 63

def copyFromOld (c : RsyncCommand) : Bool := (c.length >>> 63) != 0

def setCopyFromOld (c : RsyncCommand) (x : Bool) : RsyncCommand :=
  if x then { c with length := c.length ||| mask }
  else { c with length := c.length &&& ~~~mask }

def getLength (c : RsyncCommand) : Nat := (c.length &&& ~~~mask).toNat

/-- `command.length += n`, the flag bit taking part in the sum. -/
def addLength (c : RsyncCommand) (n : Nat) : RsyncCommand :=
  { c with length := c.length + BitVec.ofNat 64 n }

end RsyncCommand

/-! ### The order on table items -/

namespace RsyncTableItem

/-- The keys of an item, in the order in which they are compared. -/
def key (a : RsyncTableItem) : Nat × Nat × Nat :=
  (a.rollingChecksum.toNat, a.complexHash.toNat, a.fileOffset)

lemma key_injective : Function.Injective key := by
  intro a b h
  obtain ⟨h1, h2, h3⟩ : a.rollingChecksum.toNat = b.rollingChecksum.toNat ∧
      a.complexHash.toNat = b.complexHash.toNat ∧ a.fileOffset = b.fileOffset := by
    simpa [key] using h
  obtain ⟨ac, ah, ao⟩ := a
  obtain ⟨bc, bh, bo⟩ := b
  simp only at h1 h2 h3
  rw [BitVec.eq_of_toNat_eq h1, BitVec.eq_of_toNat_eq h2, h3]

lemma memcmp_neg {a b : Digest} : memcmp a b < 0 ↔ a.toNat < b.toNat := by
  unfold memcmp
  split_ifs <;> omega

lemma memcmp_pos {a b : Digest} : 0 < memcmp a b ↔ b.toNat < a.toNat := by
  unfold memcmp
  split_ifs <;> omega

lemma lt_iff (a b : RsyncTableItem) :
    a.lt b = true ↔ a.rollingChecksum.toNat < b.rollingChecksum.toNat ∨
      (a.rollingChecksum.toNat = b.rollingChecksum.toNat ∧
        (a.complexHash.toNat < b.complexHash.toNat ∨
          (a.complexHash.toNat = b.complexHash.toNat ∧ a.fileOffset < b.fileOffset))) := by
  unfold lt
  simp only [gt_iff_lt, memcmp_neg, memcmp_pos]
  split_ifs <;> simp <;> omega

/-- `a` stands no later than `b` in a sorted table. -/
def Le (a b : RsyncTableItem) : Prop := ¬ b.lt a

instance : DecidableRel Le := fun a b => inferInstanceAs (Decidable (¬ b.lt a))

lemma le_iff (a b : RsyncTableItem) :
    a.Le b ↔ a.rollingChecksum.toNat < b.rollingChecksum.toNat ∨
      (a.rollingChecksum.toNat = b.rollingChecksum.toNat ∧
        (a.complexHash.toNat < b.complexHash.toNat ∨
          (a.complexHash.toNat = b.complexHash.toNat ∧ a.fileOffset ≤ b.fileOffset))) := by
  rw [Le, lt_iff]
  omega

instance : Std.Total Le := ⟨fun a b => by rw [le_iff, le_iff]; omega⟩

instance : IsTrans RsyncTableItem Le := ⟨fun a b c => by simp only [le_iff]; omega⟩

instance : Std.Antisymm Le := ⟨fun a b hab hba => by
  rw [le_iff] at hab hba
  apply key_injective
  simp only [key, Prod.mk.injEq]
  omega⟩

end RsyncTableItem

lemma sortTable_perm (table : List RsyncTableItem) : (sortTable table).Perm table :=
  List.perm_insertionSort _ _

lemma sortTable_pairwise (table : List RsyncTableItem) :
    (sortTable table).Pairwise RsyncTableItem.Le :=
  List.pairwise_insertionSort RsyncTableItem.Le table

@[simp] lemma mem_sortTable {table : List RsyncTableItem} {item : RsyncTableItem} :
    item ∈ sortTable table ↔ item ∈ table :=
  (sortTable_perm table).mem_iff

@[simp] lemma length_sortTable (table : List RsyncTableItem) :
    (sortTable table).length = table.length :=
  (sortTable_perm table).length_eq

/-! ### The flag and the length of a command -/

namespace RsyncCommand

lemma getLength_eq (c : RsyncCommand) : c.getLength = c.length.toNat % 2 ^ 63 := by
  have hmask : ~~~mask = BitVec.ofNat 64 (2 ^ 63 - 1) := by decide
  rw [getLength, hmask, BitVec.toNat_and, BitVec.toNat_ofNat,
    Nat.mod_eq_of_lt (by norm_num : 2 ^ 63 - 1 < 2 ^ 64), Nat.and_two_pow_sub_one_eq_mod]

lemma copyFromOld_eq (c : RsyncCommand) : c.copyFromOld = decide (2 ^ 63 ≤ c.length.toNat) := by
  have hlt := c.length.isLt
  have hdiv : (c.length >>> 63).toNat = c.length.toNat / 2 ^ 63 := by
    rw [BitVec.toNat_ushiftRight, Nat.shiftRight_eq_div_pow]
  have hzero : (c.length >>> 63) = 0 ↔ c.length.toNat / 2 ^ 63 = 0 := by
    rw [← hdiv, ← BitVec.toNat_inj]
    rfl
  rw [copyFromOld, bne_eq, Bool.eq_iff_iff]
  simp only [Bool.not_eq_true', beq_eq_false_iff_ne, ne_eq, hzero, decide_eq_true_eq]
  omega

/-- `c` says to copy `n` bytes, from the old file or from the new one. -/
structure Says (c : RsyncCommand) (fromOld : Bool) (n : Nat) : Prop where
  length_eq : c.length = BitVec.ofNat 64 (n + if fromOld then 2 ^ 63 else 0)
  lt : n < 2 ^ 63

lemma Says.toNat_length {c : RsyncCommand} {fromOld : Bool} {n : Nat} (h : c.Says fromOld n) :
    c.length.toNat = n + if fromOld then 2 ^ 63 else 0 := by
  have := h.lt
  rw [h.length_eq, BitVec.toNat_ofNat, Nat.mod_eq_of_lt (by split_ifs <;> omega)]

lemma Says.getLength {c : RsyncCommand} {fromOld : Bool} {n : Nat} (h : c.Says fromOld n) :
    c.getLength = n := by
  have := h.lt
  rw [getLength_eq, h.toNat_length]
  split_ifs <;> omega

lemma Says.copyFromOld {c : RsyncCommand} {fromOld : Bool} {n : Nat} (h : c.Says fromOld n) :
    c.copyFromOld = fromOld := by
  have := h.lt
  rw [copyFromOld_eq, h.toNat_length]
  cases fromOld
  · simp; omega
  · simp

/-- A fresh command, after `set_copy_from_old`. -/
lemma says_setCopyFromOld (offset : Nat) (fromOld : Bool) :
    (setCopyFromOld ⟨offset, 0⟩ fromOld).Says fromOld 0 := by
  cases fromOld
  · exact ⟨by simp [setCopyFromOld], by norm_num⟩
  · exact ⟨by simp [setCopyFromOld, mask], by norm_num⟩

lemma Says.addLength {c : RsyncCommand} {fromOld : Bool} {n k : Nat} (h : c.Says fromOld n)
    (hlt : n + k < 2 ^ 63) : (c.addLength k).Says fromOld (n + k) := by
  refine ⟨?_, hlt⟩
  simp only [RsyncCommand.addLength, h.length_eq, ← BitVec.ofNat_add]
  congr 1
  omega

/-- The length without its flag grows modulo `2 ^ 63`, whatever happens to the flag. -/
lemma getLength_addLength (c : RsyncCommand) (k : Nat) :
    (c.addLength k).getLength = (c.getLength + k) % 2 ^ 63 := by
  rw [getLength_eq, getLength_eq, addLength, BitVec.toNat_add, BitVec.toNat_ofNat]
  omega

end RsyncCommand

end BackupProgram
