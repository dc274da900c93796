import BackupProgram.Native.FileComparer

/-!
# What the search finds

Three searches, one inside the other, narrow the sorted table to the items with the checksum, the
SHA-1 and the offset looked for.
-/

namespace BackupProgram

namespace FileComparer

variable {sha1 : List Byte → Digest} {table : List RsyncTableItem}

/-- The item has the checksum and the SHA-1 of the window. -/
structure Hit (sha1 : List Byte → Digest) (table : List RsyncTableItem) (window : List Byte)
    (item : RsyncTableItem) : Prop where
  mem : item ∈ table
  rollingChecksum_eq : item.rollingChecksum = computeRsyncRollingChecksum window
  complexHash_eq : item.complexHash = sha1 window

/-- The result of a search: no hit at all, or the offset of one, the one at the target offset if
there is such a hit, and else the first. -/
def Finds (sha1 : List Byte → Digest) (table : List RsyncTableItem) (window : List Byte)
    (target : Option Nat) : Option Nat → Prop
  | none => ∀ item, ¬ Hit sha1 table window item
  | some offset =>
    ∃ item, Hit sha1 table window item ∧ item.fileOffset = offset ∧
      ((∃ hit, Hit sha1 table window hit ∧ some hit.fileOffset = target) → some offset = target) ∧
      ((∀ hit, Hit sha1 table window hit → some hit.fileOffset ≠ target) →
        ∀ hit, Hit sha1 table window hit → offset ≤ hit.fileOffset)

/-! ### Equal ranges -/

lemma tripleSorted_unsignedcmp {g : Nat → Nat} {first last : Nat} (x : Nat)
    (h : ∀ i j, first ≤ i → i ≤ j → j < last → g i ≤ g j) :
    TripleSorted (fun i => unsignedcmp (g i) x) first last := by
  constructor <;>
  · intro i j h1 h2 h3
    have := h i j h1 h2 h3
    simp only [unsignedcmp]
    split_ifs <;> omega

/-- Searching a number in a range along which `g` grows. -/
lemma tripleSearch_unsignedcmp {g : Nat → Nat} {first last : Nat} (x : Nat) (hle : first ≤ last)
    (h : ∀ i j, first ≤ i → i ≤ j → j < last → g i ≤ g j) :
    (∃ lo hi, first ≤ lo ∧ lo < hi ∧ hi ≤ last ∧
        tripleSearch first last (fun i => unsignedcmp (g i) x) = (some lo, some hi) ∧
        ∀ i, first ≤ i → i < last → (g i = x ↔ lo ≤ i ∧ i < hi)) ∨
      ((tripleSearch first last fun i => unsignedcmp (g i) x).1 =
          (tripleSearch first last fun i => unsignedcmp (g i) x).2 ∧
        ∀ i, first ≤ i → i < last → g i ≠ x) := by
  have hzero : ∀ i, unsignedcmp (g i) x = 0 ↔ g i = x := by
    intro i
    simp only [unsignedcmp]
    split_ifs <;> simp <;> omega
  simpa only [hzero, ne_eq] using tripleSearch_spec hle (tripleSorted_unsignedcmp x h)

/-! ### The three searches -/

lemma itemAt_mem {i : Nat} (h : i < table.length) : itemAt table i ∈ table := by
  rw [itemAt, List.getD_eq_getElem _ _ h]
  exact List.getElem_mem h

lemma exists_itemAt {item : RsyncTableItem} (h : item ∈ table) :
    ∃ i, i < table.length ∧ itemAt table i = item := by
  obtain ⟨i, hi, heq⟩ := List.mem_iff_getElem.mp h
  exact ⟨i, hi, by rw [itemAt, List.getD_eq_getElem _ _ hi, heq]⟩

lemma itemAt_le (hsorted : table.Pairwise RsyncTableItem.Le) {i j : Nat} (hij : i ≤ j)
    (hj : j < table.length) : (itemAt table i).Le (itemAt table j) := by
  rw [itemAt, itemAt, List.getD_eq_getElem _ _ hj, List.getD_eq_getElem _ _ (by omega)]
  rcases Nat.eq_or_lt_of_le hij with rfl | hlt
  · exact (RsyncTableItem.le_iff _ _).mpr (by omega)
  · exact List.pairwise_iff_getElem.mp hsorted i j (by omega) hj hlt

lemma doesNotContain_eq_false {file : RsyncableFile}
    (hbitmap : file.bitmap = RsyncableFile.initBitmap file.rsyncTable) {item : RsyncTableItem}
    (h : item ∈ file.rsyncTable) : file.doesNotContain item.rollingChecksum = false := by
  rw [RsyncableFile.doesNotContain, hbitmap,
    RsyncableFile.initBitmap_eq_true_iff.mpr ⟨item, h, rfl⟩]
  rfl

/-- Along the table the checksums grow, and along the items with one checksum the hashes do. -/
lemma rollingChecksum_le (hsorted : table.Pairwise RsyncTableItem.Le) {i j : Nat} (hij : i ≤ j)
    (hj : j < table.length) :
    (itemAt table i).rollingChecksum.toNat ≤ (itemAt table j).rollingChecksum.toNat := by
  have := (RsyncTableItem.le_iff _ _).mp (itemAt_le hsorted hij hj)
  omega

lemma complexHash_le (hsorted : table.Pairwise RsyncTableItem.Le) {i j : Nat} (hij : i ≤ j)
    (hj : j < table.length)
    (heq : (itemAt table i).rollingChecksum.toNat = (itemAt table j).rollingChecksum.toNat) :
    (itemAt table i).complexHash.toNat ≤ (itemAt table j).complexHash.toNat := by
  have := (RsyncTableItem.le_iff _ _).mp (itemAt_le hsorted hij hj)
  omega

/-- The hits are the items from `lo` to `hi`, of which there is one. -/
structure HitRange (sha1 : List Byte → Digest) (table : List RsyncTableItem) (window : List Byte)
    (lo hi : Nat) : Prop where
  lt : lo < hi
  le : hi ≤ table.length
  hit_iff : ∀ i, i < table.length → (Hit sha1 table window (itemAt table i) ↔ lo ≤ i ∧ i < hi)

section HitRange

variable {window : List Byte} {lo hi : Nat}

lemma HitRange.hit (h : HitRange sha1 table window lo hi) {i : Nat} (hlo : lo ≤ i) (hhi : i < hi) :
    Hit sha1 table window (itemAt table i) :=
  (h.hit_iff i (hhi.trans_le h.le)).mpr ⟨hlo, hhi⟩

lemma HitRange.exists_itemAt (h : HitRange sha1 table window lo hi) {item : RsyncTableItem}
    (hitem : Hit sha1 table window item) : ∃ i, lo ≤ i ∧ i < hi ∧ itemAt table i = item := by
  obtain ⟨i, hi, rfl⟩ := FileComparer.exists_itemAt hitem.mem
  obtain ⟨h1, h2⟩ := (h.hit_iff i hi).mp hitem
  exact ⟨i, h1, h2, rfl⟩

/-- The hits differ in their offsets only, so these grow along the range. -/
lemma HitRange.fileOffset_le (h : HitRange sha1 table window lo hi)
    (hsorted : table.Pairwise RsyncTableItem.Le) (i j : Nat) (h1 : lo ≤ i) (h2 : i ≤ j)
    (h3 : j < hi) : (itemAt table i).fileOffset ≤ (itemAt table j).fileOffset := by
  have hi := h.hit h1 (h2.trans_lt h3)
  have hj := h.hit (h1.trans h2) h3
  have hle := (RsyncTableItem.le_iff _ _).mp (itemAt_le hsorted h2 (h3.trans_le h.le))
  rw [hi.rollingChecksum_eq, hj.rollingChecksum_eq, hi.complexHash_eq, hj.complexHash_eq] at hle
  omega

/-- Without a hit at the target offset, the first one is to be found. -/
lemma HitRange.finds_first (h : HitRange sha1 table window lo hi)
    (hsorted : table.Pairwise RsyncTableItem.Le) {target : Option Nat}
    (hnone : ∀ i, lo ≤ i → i < hi → some (itemAt table i).fileOffset ≠ target) :
    Finds sha1 table window target (some (itemAt table lo).fileOffset) := by
  refine ⟨_, h.hit (le_refl _) h.lt, rfl, ?_, fun _ hit hhit => ?_⟩
  · rintro ⟨hit, hhit, htarget⟩
    obtain ⟨i, h1, h2, rfl⟩ := h.exists_itemAt hhit
    exact absurd htarget (hnone i h1 h2)
  · obtain ⟨i, h1, h2, rfl⟩ := h.exists_itemAt hhit
    exact h.fileOffset_le hsorted lo i (le_refl _) h1 h2

lemma HitRange.finds_target (h : HitRange sha1 table window lo hi) {i target : Nat} (h1 : lo ≤ i)
    (h2 : i < hi) (htarget : (itemAt table i).fileOffset = target) :
    Finds sha1 table window (some target) (some (itemAt table i).fileOffset) := by
  refine ⟨_, h.hit h1 h2, rfl, fun _ => by rw [htarget], fun hnone => ?_⟩
  exact absurd (congrArg some htarget) (hnone _ (h.hit h1 h2))

/-- The first two searches narrow the table to the hits, or one of them finds that there are
none. -/
lemma narrowed (sha1 : List Byte → Digest) (hsorted : table.Pairwise RsyncTableItem.Le)
    (window : List Byte) :
    let byChecksum := tripleSearch 0 table.length fun i =>
      unsignedcmp (itemAt table i).rollingChecksum.toNat (computeRsyncRollingChecksum window).toNat
    let byHash (begin0 end0 : Nat) := tripleSearch begin0 end0 fun i =>
      unsignedcmp (itemAt table i).complexHash.toNat (sha1 window).toNat
    (byChecksum.1 = byChecksum.2 ∧ ∀ item, ¬ Hit sha1 table window item) ∨
      ∃ lo0 hi0, lo0 < hi0 ∧ byChecksum = (some lo0, some hi0) ∧
        ((byHash lo0 hi0).1 = (byHash lo0 hi0).2 ∧ (∀ item, ¬ Hit sha1 table window item) ∨
          ∃ lo1 hi1, byHash lo0 hi0 = (some lo1, some hi1) ∧
            HitRange sha1 table window lo1 hi1) := by
  intro byChecksum byHash
  rcases tripleSearch_unsignedcmp (computeRsyncRollingChecksum window).toNat (Nat.zero_le _)
    (fun i j _ => rollingChecksum_le hsorted) with
    ⟨lo0, hi0, -, hlt0, hle0, heq0, hrange0⟩ | ⟨heq0, hnone0⟩
  swap
  · refine Or.inl ⟨heq0, fun item h => ?_⟩
    obtain ⟨i, hi, rfl⟩ := exists_itemAt h.mem
    exact hnone0 i (Nat.zero_le _) hi (by rw [h.rollingChecksum_eq])
  refine Or.inr ⟨lo0, hi0, hlt0, heq0, ?_⟩
  have hchecksum : ∀ i, lo0 ≤ i → i < hi0 → (itemAt table i).rollingChecksum.toNat =
      (computeRsyncRollingChecksum window).toNat := fun i h1 h2 =>
    (hrange0 i (Nat.zero_le _) (by omega)).mpr ⟨h1, h2⟩
  -- a hit lies in the range of its checksum
  have hbetween : ∀ i, i < table.length → Hit sha1 table window (itemAt table i) →
      lo0 ≤ i ∧ i < hi0 := fun i hi h =>
    (hrange0 i (Nat.zero_le _) hi).mp (by rw [h.rollingChecksum_eq])
  rcases tripleSearch_unsignedcmp (sha1 window).toNat hlt0.le
    (fun i j h1 h2 h3 => complexHash_le hsorted h2 (h3.trans_le hle0)
      ((hchecksum i h1 (by omega)).trans (hchecksum j (by omega) h3).symm)) with
    ⟨lo1, hi1, hlo1, hlt1, hle1, heq1, hrange1⟩ | ⟨heq1, hnone1⟩
  · refine Or.inr ⟨lo1, hi1, heq1, hlt1, by omega, fun i hi => ⟨fun h => ?_, ?_⟩⟩
    · obtain ⟨h1, h2⟩ := hbetween i hi h
      exact (hrange1 i h1 h2).mp (by rw [h.complexHash_eq])
    · rintro ⟨h1, h2⟩
      have hhash := (hrange1 i (by omega) (by omega)).mpr ⟨h1, h2⟩
      exact ⟨itemAt_mem hi, BitVec.eq_of_toNat_eq (hchecksum i (by omega) (by omega)),
        BitVec.eq_of_toNat_eq hhash⟩
  · refine Or.inl ⟨heq1, fun item h => ?_⟩
    obtain ⟨i, hi, rfl⟩ := exists_itemAt h.mem
    obtain ⟨h1, h2⟩ := hbetween i hi h
    exact hnone1 i h1 h2 (by rw [h.complexHash_eq])

end HitRange

/-- The search finds what there is to find, and changes the old offset only then. -/
theorem search_spec {c : FileComparer} (hsorted : c.oldFile.rsyncTable.Pairwise RsyncTableItem.Le)
    (hbitmap : c.oldFile.bitmap = RsyncableFile.initBitmap c.oldFile.rsyncTable)
    (hbuffer : c.buffer.Valid)
    (hchecksum : c.checksum = computeRsyncRollingChecksum c.buffer.content)
    (offsetValid : Bool) (targetOffset : Nat) :
    ∃ found, Finds sha1 c.oldFile.rsyncTable c.buffer.content
        (if offsetValid then some targetOffset else none) found ∧
      c.search sha1 offsetValid targetOffset =
        (found.isSome, { c with oldOffset := found.getD c.oldOffset }) := by
  have hhash : c.buffer.processWhole (· ++ ·) [] = c.buffer.content := by
    rw [hbuffer.processWhole_append (by simp), List.nil_append]
  rw [search]
  set table := c.oldFile.rsyncTable
  by_cases hcontain : c.oldFile.doesNotContain c.checksum = true
  · -- no item has the low half of the checksum
    refine ⟨none, fun item h => ?_, by rw [if_pos hcontain]; rfl⟩
    have := doesNotContain_eq_false hbitmap h.mem
    rw [h.rollingChecksum_eq, ← hchecksum, hcontain] at this
    exact absurd this (by simp)
  rw [if_neg hcontain, hhash]
  rcases narrowed sha1 hsorted c.buffer.content with
    ⟨heq0, hnone⟩ | ⟨lo0, hi0, hlt0, heq0, ⟨heq1, hnone⟩ | ⟨lo1, hi1, heq1, hrange⟩⟩
  · rw [← hchecksum] at heq0
    refine ⟨none, hnone, ?_⟩
    simp only [heq0, if_true]
    rfl
  · rw [← hchecksum] at heq0
    refine ⟨none, hnone, ?_⟩
    simp only [heq0, Option.some.injEq, Nat.ne_of_lt hlt0, if_false, index, Option.getD_some,
      memcmp_eq_unsignedcmp, heq1, if_true]
    rfl
  rw [← hchecksum] at heq0
  have hlt1 := hrange.lt
  simp only [heq0, Option.some.injEq, Nat.ne_of_lt hlt0, if_false, index, Option.getD_some,
    memcmp_eq_unsignedcmp, heq1, Nat.ne_of_lt hlt1]
  cases offsetValid with
  | false => exact ⟨_, hrange.finds_first hsorted (by simp), rfl⟩
  | true =>
    simp only [Bool.not_true, Bool.false_eq_true, if_false, if_true]
    rcases tripleSearch_unsignedcmp targetOffset hlt1.le (hrange.fileOffset_le hsorted) with
      ⟨lo2, hi2, hlo2, hlt2, hle2, heq2, hrange2⟩ | ⟨heq2, hnone2⟩
    · have hoffset := (hrange2 lo2 hlo2 (by omega)).mpr ⟨le_refl _, hlt2⟩
      refine ⟨_, hrange.finds_target hlo2 (by omega) hoffset, ?_⟩
      simp [heq2, Nat.ne_of_lt hlt2]
    · refine ⟨_, hrange.finds_first hsorted fun i h1 h2 h => ?_, ?_⟩
      · exact hnone2 i h1 h2 (Option.some.inj h)
      · simp [heq2]

end FileComparer

end BackupProgram
