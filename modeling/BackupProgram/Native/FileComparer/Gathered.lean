import BackupProgram.Native.FileComparer.Canonical
import BackupProgram.Native.FileComparer.Digest

/-!
# Deltas against gathered digests

`RsyncableFile` can take its table from a comparer instead of reading the file once more. The two
tables differ by an item for an empty block, which no window of a file is a hit of. So a run over
the versions of a file that always takes the gathered digest finds the deltas of the run that reads
every digest from the disk.
-/

namespace BackupProgram

open Blocks RsyncableFile

namespace FileComparer

variable {sha1 : List Byte → Digest} {digest digest' oldFile : RsyncableFile} {new : File}
  {commands out out' : List RsyncCommand} {mode : Mode} {pos : Nat}

/-! ### What a delta depends on -/

/-- The two digests cut the new file into the same windows, and these have the same hits in both. -/
structure SameHits (sha1 : List Byte → Digest) (digest digest' : RsyncableFile) (new : File) :
    Prop where
  blockSize_eq : digest.blockSize = digest'.blockSize
  hit_iff : ∀ pos < new.size, ∀ item,
    Hit sha1 digest.rsyncTable (window digest new pos) item ↔
      Hit sha1 digest'.rsyncTable (window digest' new pos) item

lemma SameHits.finds (h : SameHits sha1 digest digest' new) (hpos : pos < new.size)
    {target found : Option Nat}
    (hfinds : Finds sha1 digest.rsyncTable (window digest new pos) target found) :
    Finds sha1 digest'.rsyncTable (window digest' new pos) target found := by
  rcases found with _ | offset
  · intro item hhit
    exact hfinds item ((h.hit_iff pos hpos item).mpr hhit)
  · simp only [Finds, h.hit_iff pos hpos] at hfinds
    exact hfinds

/-- The scan looks at the digest for hits only. -/
lemma SameHits.scan (h : SameHits sha1 digest digest' new)
    (hscan : Scan sha1 digest new mode pos commands out) :
    Scan sha1 digest' new mode pos commands out := by
  have hemit : ∀ fresh oldOffset result, FileComparer.emitCopy digest fresh oldOffset result =
      FileComparer.emitCopy digest' fresh oldOffset result := by
    intro fresh oldOffset result
    rw [emitCopy, emitCopy, h.blockSize_eq]
  induction hscan with
  | copyEnd hend =>
    rw [hemit]
    rw [h.blockSize_eq] at hend
    exact Scan.copyEnd hend
  | copyNext hlt hfinds _ ih =>
    have hfinds' := h.finds hlt hfinds
    rw [h.blockSize_eq] at hlt hfinds' ih
    rw [hemit] at hfinds' ih
    exact Scan.copyNext hlt hfinds' ih
  | literalEnd hend => exact Scan.literalEnd hend
  | literalNext hlt hfinds _ ih => exact Scan.literalNext hlt (h.finds hlt hfinds) ih

lemma SameHits.delta (h : SameHits sha1 digest digest' new)
    (hdelta : Delta sha1 digest new out) : Delta sha1 digest' new out := by
  rw [Delta] at hdelta ⊢
  split_ifs at hdelta ⊢ with hempty
  · exact hdelta
  · obtain ⟨found, hfinds, hscan⟩ := hdelta
    exact ⟨found, h.finds (Nat.pos_of_ne_zero hempty) hfinds, h.scan hscan⟩

/-- The search has one result: the hit at the target if there is one, and else the first hit. -/
lemma Finds.unique {table : List RsyncTableItem} {bytes : List Byte}
    {target found found' : Option Nat} (h : Finds sha1 table bytes target found)
    (h' : Finds sha1 table bytes target found') : found = found' := by
  rcases found with _ | offset <;> rcases found' with _ | offset'
  · rfl
  · obtain ⟨item, hhit, -⟩ := h'
    exact absurd hhit (h item)
  · obtain ⟨item, hhit, -⟩ := h
    exact absurd hhit (h' item)
  · obtain ⟨item, hhit, hoffset, hat, hfirst⟩ := h
    obtain ⟨item', hhit', hoffset', hat', hfirst'⟩ := h'
    by_cases htarget : ∃ hit, Hit sha1 table bytes hit ∧ some hit.fileOffset = target
    · rw [hat htarget, hat' htarget]
    · push Not at htarget
      have hle := hfirst htarget item' hhit'
      have hle' := hfirst' htarget item hhit
      rw [hoffset'] at hle
      rw [hoffset] at hle'
      rw [Nat.le_antisymm hle hle']

lemma Scan.unique (h : Scan sha1 oldFile new mode pos commands out)
    (h' : Scan sha1 oldFile new mode pos commands out') : out = out' := by
  induction h with
  | copyEnd hend =>
    cases h' with
    | copyEnd _ => rfl
    | copyNext hlt _ _ => omega
  | copyNext hlt hfinds _ ih =>
    cases h' with
    | copyEnd hend => omega
    | copyNext _ hfinds' hscan =>
      obtain rfl := hfinds.unique hfinds'
      exact ih hscan
  | literalEnd hend =>
    cases h' with
    | literalEnd _ => rfl
    | literalNext hlt _ _ => omega
  | literalNext hlt hfinds _ ih =>
    cases h' with
    | literalEnd hend => omega
    | literalNext _ hfinds' hscan =>
      obtain rfl := hfinds.unique hfinds'
      exact ih hscan

lemma Delta.unique (h : Delta sha1 oldFile new out) (h' : Delta sha1 oldFile new out') :
    out = out' := by
  rw [Delta] at h h'
  split_ifs at h h' with hempty
  · rw [h, h']
  · obtain ⟨found, hfinds, hscan⟩ := h
    obtain ⟨found', hfinds', hscan'⟩ := h'
    obtain rfl := hfinds.unique hfinds'
    exact hscan.unique hscan'

/-! ### The table of a comparer -/

lemma mem_itemsOf_append {offset : Nat} {bs : List (List Byte)} {b : List Byte}
    {item : RsyncTableItem} : item ∈ itemsOf sha1 offset (bs ++ [b]) ↔
      item ∈ itemsOf sha1 offset bs ∨ item = itemOf sha1 (offset + bs.flatten.length) b := by
  induction bs generalizing offset with
  | nil => simp [itemsOf]
  | cons c bs ih =>
    rw [List.cons_append, itemsOf, itemsOf, List.mem_cons, List.mem_cons, ih, List.flatten_cons,
      List.length_append, or_assoc, Nat.add_assoc]

variable {file : File}

/-- The table that has been gathered lists the blocks of the file and, behind them, what is left in
the buffer if this is nothing. -/
lemma Ended.mem_table {c : FileComparer} (h : Ended oldFile file c) (disk : DiskReads)
    (item : RsyncTableItem) : item ∈ (ofComparer (c.finished sha1)).rsyncTable ↔
      item ∈ (ofPath sha1 file disk).rsyncTable ∨
        file.blockSize ∣ file.size ∧ item = itemOf sha1 file.size [] := by
  by_cases hdvd : file.blockSize ∣ file.size
  · have hfull : ∀ b ∈ c.processingQueue.map SimpleBuffer.bytes, b.length = file.blockSize := by
      intro b hb
      obtain ⟨buffer, hmem, rfl⟩ := List.mem_map.mp hb
      exact (h.full buffer hmem).2.trans h.newBlockSize_eq
    have hlast : c.newBuffer.bytes.length < file.blockSize := by
      have hroom := h.room
      rwa [h.newBlockSize_eq] at hroom
    have hbytes : (c.processingQueue.map SimpleBuffer.bytes).flatten ++ c.newBuffer.bytes =
        file.bytes := by
      have hall := h.bytes
      rw [h.rest_eq] at hall
      simpa using hall
    have hmod := length_flatten_mod hfull hlast
    have hblocks := blocks_flatten_append hfull hlast
    rw [hbytes] at hmod hblocks
    rw [← File.size, Nat.mod_eq_zero_of_dvd hdvd] at hmod
    have hnil : c.newBuffer.bytes = [] := List.length_eq_zero_iff.mp hmod.symm
    rw [if_pos hnil, List.append_nil] at hblocks
    rw [hnil, List.append_nil] at hbytes
    have hpath : Blocks.blocks (scalerFunction file.size) file.bytes =
        c.processingQueue.map SimpleBuffer.bytes := hblocks
    rw [ofComparer_finished h, ofPath_eq]
    simp only [mem_sortTable, hpath]
    rw [hnil, mem_itemsOf_append, hbytes, Nat.zero_add, ← File.size, and_iff_right hdvd]
  · rw [(ofComparer_eq_ofPath_iff h disk).mpr hdvd]
    simp [hdvd]

end FileComparer

/-- No window of the new file is taken for the empty block. -/
def EmptyApart (sha1 : List Byte → Digest) (old new : File) : Prop :=
  ∀ pos < new.size,
    computeRsyncRollingChecksum (new.window old.blockSize pos) = computeRsyncRollingChecksum [] →
      sha1 (new.window old.blockSize pos) ≠ sha1 []

namespace FileComparer

variable {sha1 : List Byte → Digest} {oldFile : RsyncableFile} {file new : File}

/-- The empty block makes no difference. -/
lemma Ended.sameHits {c : FileComparer} (h : Ended oldFile file c) (disk : DiskReads)
    (hempty : EmptyApart sha1 file new) :
    SameHits sha1 (ofComparer (c.finished sha1)) (ofPath sha1 file disk) new := by
  have hsize : (ofComparer (c.finished sha1)).blockSize = file.blockSize := by
    rw [ofComparer_finished h]
  refine ⟨by rw [hsize, blockSize_ofPath], fun pos hpos item => ?_⟩
  have hwindow : window (ofComparer (c.finished sha1)) new pos =
      window (ofPath sha1 file disk) new pos := by
    rw [window, window, hsize, blockSize_ofPath]
  rw [hwindow]
  constructor
  · intro hhit
    refine ⟨?_, hhit.rollingChecksum_eq, hhit.complexHash_eq⟩
    rcases (h.mem_table disk item).mp hhit.mem with hmem | ⟨-, rfl⟩
    · exact hmem
    · -- the empty block
      have hchecksum := hhit.rollingChecksum_eq
      have hhash := hhit.complexHash_eq
      rw [window_ofPath] at hchecksum hhash
      exact absurd hhash.symm (hempty pos hpos hchecksum.symm)
  · intro hhit
    exact ⟨(h.mem_table disk item).mpr (Or.inl hhit.mem), hhit.rollingChecksum_eq,
      hhit.complexHash_eq⟩

lemma Ended.indexed {c : FileComparer} (h : Ended oldFile file c) :
    Indexed (ofComparer (c.finished sha1)) := by
  rw [ofComparer_finished h]
  exact ⟨sortTable_pairwise _, rfl, file.blockSize_pos⟩

end FileComparer

/-! ### Runs over the versions of a file -/

/-- A version of a file, and how the disk hands it out. -/
structure FileVersion where
  file : File
  disk : DiskReads

/-- The deltas of the versions, the digest of each taken from its comparer. -/
def deltas (sha1 : List Byte → Digest) (fuel : Nat) :
    RsyncableFile → List FileVersion → Option (List (List RsyncCommand))
  | _, [] => some []
  | digest, version :: versions => do
    let c ← (FileComparer.new version.file version.disk digest).process sha1 fuel
    let tables ← deltas sha1 fuel (ofComparer c) versions
    return c.result :: tables

/-- The deltas of the versions, the digest of each read from the disk. -/
def deltasFromDisk (sha1 : List Byte → Digest) (fuel : Nat) :
    FileVersion → List FileVersion → Option (List (List RsyncCommand))
  | _, [] => some []
  | old, version :: versions => do
    let c ← (FileComparer.new version.file version.disk (ofPath sha1 old.file old.disk)).process
      sha1 fuel
    let tables ← deltasFromDisk sha1 fuel version versions
    return c.result :: tables

variable {sha1 : List Byte → Digest} {fuel : Nat}

/-- A digest as good as the one on the disk, for whatever version comes next. -/
structure GoodDigest (sha1 : List Byte → Digest) (digest : RsyncableFile) (old : FileVersion) :
    Prop where
  indexed : FileComparer.Indexed digest
  sameHits : ∀ new : File, EmptyApart sha1 old.file new →
    FileComparer.SameHits sha1 digest (ofPath sha1 old.file old.disk) new

lemma goodDigest_ofPath (sha1 : List Byte → Digest) (old : FileVersion) :
    GoodDigest sha1 (ofPath sha1 old.file old.disk) old :=
  ⟨FileComparer.indexed_ofPath sha1 old.file old.disk, fun _ _ => ⟨rfl, fun _ _ _ => Iff.rfl⟩⟩

/-- One comparison: its commands are those against the digest on the disk, and the digest that it
gathers is good again. -/
lemma GoodDigest.process {digest : RsyncableFile} {old : FileVersion}
    (h : GoodDigest sha1 digest old) {version : FileVersion}
    (hempty : EmptyApart sha1 old.file version.file) (hfuel : version.file.size + 3 ≤ fuel) :
    ∃ c, (FileComparer.new version.file version.disk digest).process sha1 fuel = some c ∧
      FileComparer.Delta sha1 (ofPath sha1 old.file old.disk) version.file c.result ∧
      GoodDigest sha1 (ofComparer c) version := by
  obtain ⟨c, hprocess, hended, hdelta⟩ :=
    @FileComparer.process_spec sha1 _ h.indexed version.file version.disk _ hfuel
  refine ⟨_, hprocess, ?_, hended.indexed, fun new hnew => hended.sameHits version.disk hnew⟩
  rw [FileComparer.result_finished]
  exact (h.sameHits version.file hempty).delta hdelta

/-- By induction over the versions: every digest that has been gathered is good. -/
lemma GoodDigest.deltas_eq {digest : RsyncableFile} {old : FileVersion}
    (h : GoodDigest sha1 digest old) {versions : List FileVersion}
    (hempty : (old :: versions).IsChain fun old new => EmptyApart sha1 old.file new.file)
    (hfuel : ∀ version ∈ versions, version.file.size + 3 ≤ fuel) :
    ∃ tables, deltas sha1 fuel digest versions = some tables ∧
      deltasFromDisk sha1 fuel old versions = some tables := by
  induction versions generalizing digest old with
  | nil => exact ⟨[], rfl, rfl⟩
  | cons version versions ih =>
    obtain ⟨hfirst, hrest⟩ := List.isChain_cons_cons.mp hempty
    obtain ⟨hversion, hversions⟩ := List.forall_mem_cons.mp hfuel
    obtain ⟨c, hprocess, hdelta, hgood⟩ := h.process hfirst hversion
    obtain ⟨c', hprocess', hdelta', -⟩ := (goodDigest_ofPath sha1 old).process hfirst hversion
    obtain ⟨tables, hgathered, hdisk⟩ := ih hgood hrest hversions
    refine ⟨c.result :: tables, ?_, ?_⟩
    · rw [deltas, hprocess]
      simp only [Option.bind_eq_bind, Option.bind_some, hgathered]
      rfl
    · rw [deltasFromDisk, hprocess', hdelta.unique hdelta']
      simp only [Option.bind_eq_bind, Option.bind_some, hdisk]
      rfl

/-- The run that reads the first version from the disk and then always takes the digest its last
comparer has gathered ends, with the deltas of the run that reads every digest from the disk,
although the digests differ where a size is a multiple of its block size. -/
theorem deltas_eq_deltasFromDisk (first : FileVersion) {versions : List FileVersion}
    (hempty : (first :: versions).IsChain fun old new => EmptyApart sha1 old.file new.file)
    (hfuel : ∀ version ∈ versions, version.file.size + 3 ≤ fuel) :
    ∃ tables, deltas sha1 fuel (ofPath sha1 first.file first.disk) versions = some tables ∧
      deltasFromDisk sha1 fuel first versions = some tables :=
  (goodDigest_ofPath sha1 first).deltas_eq hempty hfuel

/-- A file of one byte loses it and gets it back; the digest of the empty file lists a block. -/
theorem deltas_eq_deltasFromDisk_emptied :
    ∃ tables, deltas sha1OfZero 4 (ofPath sha1OfZero zeroFile wholeReads)
          [⟨emptyFile, wholeReads⟩, ⟨zeroFile, wholeReads⟩] = some tables ∧
      deltasFromDisk sha1OfZero 4 ⟨zeroFile, wholeReads⟩
          [⟨emptyFile, wholeReads⟩, ⟨zeroFile, wholeReads⟩] = some tables := by
  refine deltas_eq_deltasFromDisk ⟨zeroFile, wholeReads⟩ ?_ (by decide)
  refine .cons_cons (fun pos hpos => absurd hpos (Nat.not_lt_zero pos))
    (.cons_cons ?_ (.singleton _))
  intro pos hpos _
  have hzero : pos = 0 := Nat.lt_one_iff.mp hpos
  subst hzero
  decide

end BackupProgram
