import BackupProgram.Native.Rsync.Reconstruct

/-!
# Sparse files

A `SparseFile` stores only the segments of a file that a table takes from it, and is to find them by
their offsets in the whole file. Its constructor stores the commands that copy from the old file
instead, and the index of the part that a seek finds is computed from the end of the list.
-/

namespace BackupProgram

namespace Rsync

open Loops

/-- A plain file as a stream. -/
def NormalFile.stream : Stream NormalFile where
  seek f offset := .ok (f.seek offset)
  read f size := (f.read size).mapError fun _ => .outOfFuel

/-- `σ` are the states of the base class. -/
abbrev SparseFile (σ : Type) := Parted σ SparseFile.Part

namespace SparseFile

variable {σ : Type}

/-- The parts of the constructor, for the rest of a table that starts at `offset`; a length is added
with its flag. -/
def storedParts : Nat → List RsyncCommand → List Part
  | _, [] => []
  | offset, item :: table =>
    let parts := storedParts (addU64 offset item.length.toNat) table
    if item.copyFromOld then
      { physicalOffset := offset
        virtualOffset := item.fileOffset
        size := item.getLength } :: parts
    else parts

/-- What `std::sort` may make of the parts: those with the same offset end up in any order. -/
structure IsSorted (stored sorted : List Part) : Prop where
  perm : sorted.Perm stored
  pairwise : sorted.Pairwise partOrder

/-- The end of the constructor, on the sorted parts. `garbage` is what the offset happens to hold if
there are none. -/
def new (base : σ) (sorted : List Part) (garbage : Nat) : SparseFile σ where
  streams := base
  parts := sorted
  current := 0
  offset := (sorted.head?.map Part.virtualOffset).getD garbage

def transformOffset (f : SparseFile σ) (offset : Nat) : Option (Nat × Nat) :=
  Parted.transformOffset (subU64 · f.parts.length) f.parts offset

def seek (base : Stream σ) (f : SparseFile σ) (offset : Nat) : Except Fault (Bool × SparseFile σ) :=
  match f.transformOffset offset with
  | none => .ok (false, f)
  | some (containingPart, offset) => do
    let f := { f with current := containingPart }
    let (ret, streams) ← base.seek f.streams offset
    let f := { f with streams := streams }
    return (ret, if ret then { f with offset := offset } else f)

/-- The loop of `read`. -/
def readLoop (base : Stream σ) (fuel : Nat) (f : SparseFile σ) (size : Nat) (dst : List Byte) :
    Except Fault (Bool × List Byte × SparseFile σ) :=
  loop .outOfFuel (Parted.readRound id (fun _ => base.read) (seek base)) fuel (f, size, dst)

def toStream (base : Stream σ) (fuel : Nat) : Stream (SparseFile σ) where
  seek := seek base
  read f size := readLoop base fuel f size []

def reconstructSection (uniqueId : Nat) (f : SparseFile σ) : Reconstruction :=
  fun dst virtualOffset size =>
    loop .outOfFuel
      (Parted.reconstructRound id transformOffset
        (fun _ dst physicalOffset consumed => .ok (dst ++ [⟨uniqueId, physicalOffset, consumed⟩]))
        f)
      (size + 1) (dst, virtualOffset, size)

/-! ### The parts, by the commands -/

/-- What the constructor has added up before it comes to the command at an index: the lengths of the
commands before it, each with its flag. -/
def accumulated (table : List RsyncCommand) (i : Nat) : Nat :=
  ((table.take i).map fun item => item.length.toNat).sum % 2 ^ 64

def partOf (table : List RsyncCommand) (i : Nat) (item : RsyncCommand) : Part where
  physicalOffset := accumulated table i
  virtualOffset := item.fileOffset
  size := item.getLength

/-- The command at index `i` copies from the old file, its segment ends behind `v`, and from the
start of its part `v` is at a physical offset that a file accepts, below `2 ^ 63`. After an odd
number of copies it is not, since their flags have been added up. -/
structure Leads (table : List RsyncCommand) (i : Nat) (item : RsyncCommand) (v : Nat) : Prop where
  getElem? : table[i]? = some item
  copied : item.copyFromOld = true
  lt_end : v < addU64 item.fileOffset item.getLength
  accepted : ((accumulated table i : Int) + v - item.fileOffset) % 2 ^ 64 < 2 ^ 63

/-- Of two segments, given by their offsets and lengths, one starts before the other and does not
end behind it. -/
def Staggering (a b : Nat × Nat) : Prop :=
  a.1 < b.1 ∧ a.1 + a.2 ≤ b.1 + b.2 ∨ b.1 < a.1 ∧ b.1 + b.2 ≤ a.1 + a.2

/-- The segments that a table copies from the old file are not empty, none of them is inside of
another, and their ends are 64-bit numbers. -/
structure Staggered (table : List RsyncCommand) : Prop where
  pos : ∀ item ∈ table, item.copyFromOld = true → 0 < item.getLength
  end_lt : ∀ item ∈ table, item.copyFromOld = true →
    item.fileOffset + item.getLength < 2 ^ 64
  pairwise : ((table.filter (·.copyFromOld)).map fun item =>
    (item.fileOffset, item.getLength)).Pairwise Staggering

/-! ### Segments of the new file -/

/-- The command takes the offset `v` from the new file. -/
structure InSegment (item : RsyncCommand) (v : Nat) : Prop where
  fromNew : item.copyFromOld = false
  offset_le : item.fileOffset ≤ v
  lt_add : v < item.fileOffset + item.getLength

/-- The physical file: the segments of the new file, one behind the other. -/
def physicalBytes (newBytes : List Byte) (table : List RsyncCommand) : List Byte :=
  (table.filter (!·.copyFromOld)).flatMap fun item =>
    (newBytes.drop item.fileOffset).take item.getLength

/-- A seek to an offset in a segment of the new file succeeds, and what is read and reconstructed
from there on are the bytes of the segment; a seek to any other offset fails. -/
structure Addresses (newBytes : List Byte) (table : List RsyncCommand) (f : SparseFile NormalFile)
    (v : Nat) : Prop where
  seek_succeeds : ∀ item ∈ table, InSegment item v →
    ∃ f', f.seek NormalFile.stream v = .ok (true, f') ∧
      ∀ sizes : List Nat, v + sizes.sum ≤ item.fileOffset + item.getLength →
        ∃ fuel f'', (toStream NormalFile.stream fuel).readMany f' sizes =
          .ok (true, (newBytes.drop v).take sizes.sum, f'')
  reconstructs : ∀ item ∈ table, InSegment item v →
    ∀ dst n, v + n ≤ item.fileOffset + item.getLength →
      ∃ pieces, f.reconstructSection f.streams.uniqueId dst v n = .ok (dst ++ pieces) ∧
        (∀ p ∈ pieces, p.source = f.streams.uniqueId ∧
          p.offsetInSource + p.size ≤ (physicalBytes newBytes table).length) ∧
        pieces.flatMap (ReconstructedPart.bytes fun _ => physicalBytes newBytes table) =
          (newBytes.drop v).take n
  seek_fails : (∀ item ∈ table, ¬ InSegment item v) →
    ∃ f', f.seek NormalFile.stream v = .ok (false, f')

/-! ### What a seek does -/

lemma length_storedParts_le (offset : Nat) (table : List RsyncCommand) :
    (storedParts offset table).length ≤ table.length := by
  induction table generalizing offset with
  | nil => exact le_refl _
  | cons item table ih =>
    have hle := ih (addU64 offset item.length.toNat)
    rw [storedParts, List.length_cons]
    split_ifs
    · rw [List.length_cons]
      omega
    · omega

lemma transformOffset_of_part {f : SparseFile σ} {v : Nat} {it : Part}
    (h : f.parts[findPart f.parts v]? = some it) :
    f.transformOffset v =
      if v ≥ addU64 it.virtualOffset it.size then none
      else some (subU64 (findPart f.parts v) f.parts.length,
        addU64 it.physicalOffset (subU64 v it.virtualOffset)) := by
  rw [transformOffset, Parted.transformOffset, h]

/-- What `transform_offset` returns comes from the part that the search ends at. -/
lemma exists_part_of_transformOffset {f : SparseFile σ} {v containingPart physicalOffset : Nat}
    (h : f.transformOffset v = some (containingPart, physicalOffset)) :
    ∃ it, f.parts[findPart f.parts v]? = some it ∧ v < addU64 it.virtualOffset it.size ∧
      containingPart = subU64 (findPart f.parts v) f.parts.length ∧
      physicalOffset = addU64 it.physicalOffset (subU64 v it.virtualOffset) := by
  rcases hpart : f.parts[findPart f.parts v]? with _ | it
  · rw [transformOffset, Parted.transformOffset, hpart] at h
    cases h
  · rw [transformOffset_of_part hpart] at h
    split_ifs at h with hend
    obtain ⟨hindex, hphysical⟩ := Prod.mk.inj (Option.some.inj h)
    exact ⟨it, rfl, not_le.mp hend, hindex.symm, hphysical.symm⟩

/-- The index that `transform_offset` computes lies outside of the list. -/
lemma length_le_of_transformOffset {f : SparseFile σ} (hlen : f.parts.length < 2 ^ 63)
    {v containingPart physicalOffset : Nat}
    (h : f.transformOffset v = some (containingPart, physicalOffset)) :
    f.parts.length ≤ containingPart := by
  obtain ⟨it, hpart, -, rfl, -⟩ := exists_part_of_transformOffset h
  obtain ⟨hlt, -⟩ := List.getElem?_eq_some_iff.mp hpart
  rw [subU64]
  omega

lemma seek_of_none (base : Stream σ) {f : SparseFile σ} {v : Nat}
    (h : f.transformOffset v = none) : f.seek base v = .ok (false, f) := by
  rw [seek, h]

/-- Once a part has been found, the current index lies outside of the list, whatever the base class
says to the physical offset. -/
lemma seek_of_some {base : Stream σ} {f : SparseFile σ} {v containingPart physicalOffset : Nat}
    (h : f.transformOffset v = some (containingPart, physicalOffset)) {ret : Bool} {streams : σ}
    (hbase : base.seek f.streams physicalOffset = .ok (ret, streams)) :
    f.seek base v = .ok (ret,
      { f with
        streams := streams
        current := containingPart
        offset := if ret then physicalOffset else f.offset }) := by
  rw [seek, h]
  simp only [hbase, bind, Except.bind, pure, Except.pure]
  cases ret <;> rfl

/-- A plain file refuses the offsets that are no signed numbers. -/
lemma stream_seek (f : NormalFile) (offset : Nat) :
    NormalFile.stream.seek f offset = .ok (decide (offset < 2 ^ 63), (f.seek offset).2) := by
  refine congrArg Except.ok (Prod.ext ?_ rfl)
  rw [NormalFile.seek]
  split_ifs with h
  · exact (decide_eq_true h).symm
  · exact (decide_eq_false h).symm

lemma readLoop_of_outside (base : Stream σ) {f : SparseFile σ} (h : f.parts.length ≤ f.current)
    {size : Nat} (hsize : size ≠ 0) (fuel : Nat) (dst : List Byte)
    (r : Bool × List Byte × SparseFile σ) : f.readLoop base fuel size dst ≠ .ok r := fun hloop =>
  not_ends_of_error (Parted.readRound_of_outside h hsize dst) (ends_of_loop hloop)

/-! ### When the data is addressed correctly -/

variable {newBytes : List Byte} {table : List RsyncCommand} {f : SparseFile NormalFile} {v : Nat}

/-- Nothing can be read after a seek that has found a part. -/
lemma not_addresses_of_inSegment (hlen : f.parts.length < 2 ^ 63) {item : RsyncCommand}
    (hitem : item ∈ table) (hsegment : InSegment item v) : ¬ Addresses newBytes table f v := by
  intro h
  obtain ⟨f', hseek, hreads⟩ := h.seek_succeeds item hitem hsegment
  have hlt := hsegment.lt_add
  obtain ⟨fuel, f'', hread⟩ := hreads [1] (by rw [List.sum_singleton]; omega)
  rcases hfind : f.transformOffset v with _ | ⟨containingPart, physicalOffset⟩
  · rw [seek_of_none _ hfind] at hseek
    cases hseek
  · rw [seek_of_some hfind (stream_seek _ _)] at hseek
    obtain ⟨-, rfl⟩ := Prod.mk.inj (Except.ok.inj hseek)
    have houtside := length_le_of_transformOffset hlen hfind
    obtain ⟨r, hfirst⟩ := Stream.read_of_readMany hread
    exact readLoop_of_outside NormalFile.stream houtside Nat.one_ne_zero fuel [] r hfirst

/-- The parts are those of the commands that copy from the old file. -/
lemma mem_storedParts_from {start : Nat} (hstart : start < 2 ^ 64) {p : Part} :
    p ∈ storedParts start table ↔
      ∃ i item, table[i]? = some item ∧ item.copyFromOld = true ∧
        p = ⟨addU64 start (accumulated table i), item.fileOffset, item.getLength⟩ := by
  induction table generalizing start with
  | nil => simp [storedParts]
  | cons item table ih =>
    have hnext : addU64 start item.length.toNat < 2 ^ 64 := Nat.mod_lt _ (by norm_num)
    have hzero : addU64 start (accumulated (item :: table) 0) = start := by
      rw [accumulated, List.take_zero, List.map_nil, List.sum_nil, addU64]
      omega
    have hsucc : ∀ i, addU64 start (accumulated (item :: table) (i + 1)) =
        addU64 (addU64 start item.length.toNat) (accumulated table i) := by
      intro i
      rw [accumulated, accumulated, List.take_succ_cons, List.map_cons, List.sum_cons, addU64,
        addU64, addU64]
      omega
    have hrest : p ∈ storedParts (addU64 start item.length.toNat) table ↔
        ∃ i item', (item :: table)[i + 1]? = some item' ∧ item'.copyFromOld = true ∧
          p = ⟨addU64 start (accumulated (item :: table) (i + 1)), item'.fileOffset,
            item'.getLength⟩ := by
      simp only [ih hnext, hsucc, List.getElem?_cons_succ]
    have hsplit : p ∈ storedParts start (item :: table) ↔
        (item.copyFromOld = true ∧ p = ⟨start, item.fileOffset, item.getLength⟩) ∨
          p ∈ storedParts (addU64 start item.length.toNat) table := by
      rw [storedParts]
      split_ifs with hcopied
      · rw [List.mem_cons, and_iff_right hcopied]
      · exact ⟨Or.inr, fun h => h.resolve_left fun h' => hcopied h'.1⟩
    rw [hsplit, hrest]
    constructor
    · rintro (⟨hcopied, hp⟩ | ⟨i, item', hitem', h⟩)
      · exact ⟨0, item, rfl, hcopied, by rw [hzero]; exact hp⟩
      · exact ⟨i + 1, item', hitem', h⟩
    · rintro ⟨_ | i, item', hitem', hcopied, hp⟩
      · cases hitem'
        rw [hzero] at hp
        exact Or.inl ⟨hcopied, hp⟩
      · exact Or.inr ⟨i, item', hitem', hcopied, hp⟩

lemma mem_storedParts {p : Part} : p ∈ storedParts 0 table ↔
    ∃ i item, table[i]? = some item ∧ item.copyFromOld = true ∧ p = partOf table i item := by
  have hzero : ∀ i, addU64 0 (accumulated table i) = accumulated table i := fun i => by
    rw [addU64, Nat.zero_add, accumulated, Nat.mod_mod]
  simp only [mem_storedParts_from (Nat.two_pow_pos 64), hzero, partOf]

lemma map_storedParts (start : Nat) (table : List RsyncCommand) :
    (storedParts start table).map (fun p => (p.virtualOffset, p.size)) =
      (table.filter (·.copyFromOld)).map fun item => (item.fileOffset, item.getLength) := by
  induction table generalizing start with
  | nil => rfl
  | cons item table ih =>
    rw [storedParts, List.filter_cons]
    split_ifs
    · rw [List.map_cons, List.map_cons, ih]
    · exact ih _

/-- The physical offset of `v`, as a number modulo `2 ^ 64`. -/
lemma addU64_subU64 (a v o : Nat) :
    ((addU64 a (subU64 v o) : Nat) : Int) = ((a : Int) + v - o) % 2 ^ 64 := by
  rw [addU64, subU64]
  omega

/-- A seek succeeds if the search ends at the part of a command that leads somewhere. -/
lemma seek_of_leads {i : Nat} {item : RsyncCommand} (hleads : Leads table i item v)
    (hfound : f.parts[findPart f.parts v]? = some (partOf table i item)) :
    ∃ f', f.seek NormalFile.stream v = .ok (true, f') := by
  have hoffset := addU64_subU64 (accumulated table i) v item.fileOffset
  have haccepted := hleads.accepted
  have htransform : f.transformOffset v = some (subU64 (findPart f.parts v) f.parts.length,
      addU64 (accumulated table i) (subU64 v item.fileOffset)) :=
    (transformOffset_of_part hfound).trans (if_neg (not_le.mpr hleads.lt_end))
  have hret : decide (addU64 (accumulated table i) (subU64 v item.fileOffset) < 2 ^ 63) = true :=
    decide_eq_true (by omega)
  exact ⟨_, seek_of_some htransform (hret ▸ stream_seek f.streams _)⟩

/-- A seek fails if the search ends at no such part. -/
lemma seek_of_not_leads (hsorted : IsSorted (storedParts 0 table) f.parts)
    (hnone : ∀ i item, Leads table i item v →
      f.parts[findPart f.parts v]? ≠ some (partOf table i item)) :
    ∃ f', f.seek NormalFile.stream v = .ok (false, f') := by
  rcases hfind : f.transformOffset v with _ | ⟨containingPart, physicalOffset⟩
  · exact ⟨f, seek_of_none _ hfind⟩
  · obtain ⟨it, hpart, hlt, -, rfl⟩ := exists_part_of_transformOffset hfind
    have hmem := hsorted.perm.mem_iff.mp (List.mem_of_getElem? hpart)
    obtain ⟨i, item, hitem, hcopied, rfl⟩ := mem_storedParts.mp hmem
    have hoffset := addU64_subU64 (accumulated table i) v item.fileOffset
    have hret :
        decide (addU64 (accumulated table i) (subU64 v item.fileOffset) < 2 ^ 63) = false := by
      refine decide_eq_false fun haccepted => ?_
      exact hnone i item ⟨hitem, hcopied, hlt, by omega⟩ hpart
    exact ⟨_, seek_of_some hfind (hret ▸ stream_seek f.streams _)⟩

/-! ### Segments that are staggered -/

lemma IsSorted.pairwise_of_staggered (h : IsSorted (storedParts 0 table) f.parts)
    (hstaggered : Staggered table) :
    f.parts.Pairwise fun p q => p.virtualOffset < q.virtualOffset ∧
      p.virtualOffset + p.size ≤ q.virtualOffset + q.size := by
  have hpairwise := hstaggered.pairwise
  rw [← map_storedParts 0 table] at hpairwise
  have hsymmetric : ∀ {a b : Nat × Nat}, Staggering a b → Staggering b a := Or.symm
  have hparts := ((h.perm.map _).pairwise_iff hsymmetric).mpr hpairwise
  refine (h.pairwise.and (List.pairwise_map.mp hparts)).imp ?_
  rintro p q ⟨hle, hlt | hgt⟩
  · exact hlt
  · exact absurd hle (not_le.mpr hgt.1)

/-- What the search looks for is a part that ends behind the offset. -/
lemma partPredicate_partOf (hstaggered : Staggered table) {i : Nat} {item : RsyncCommand}
    (hitem : table[i]? = some item) (hcopied : item.copyFromOld = true) :
    partPredicate v (partOf table i item) = true ↔
      v < addU64 item.fileOffset item.getLength := by
  have hmem := List.mem_of_getElem? hitem
  have hpos := hstaggered.pos item hmem hcopied
  have hend := addU64_of_lt (hstaggered.end_lt item hmem hcopied)
  rw [partPredicate_eq_true_iff]
  change item.fileOffset ≤ v ∧ v < addU64 item.fileOffset item.getLength ∨ v ≤ item.fileOffset ↔ _
  omega

/-- In a staggered table the search ends at the first segment that ends behind the offset. -/
lemma found_iff (hsorted : IsSorted (storedParts 0 table) f.parts) (hstaggered : Staggered table)
    {i : Nat} {item : RsyncCommand} (hleads : Leads table i item v) :
    f.parts[findPart f.parts v]? = some (partOf table i item) ↔
      ∀ item' ∈ table, item'.copyFromOld = true →
        v < addU64 item'.fileOffset item'.getLength → item.fileOffset ≤ item'.fileOffset := by
  have hstarts := hsorted.pairwise_of_staggered hstaggered
  have hmem : ∀ p, p ∈ f.parts ↔ _ := fun p => hsorted.perm.mem_iff.trans mem_storedParts
  have hmonotone : f.parts.Pairwise fun p q =>
      partPredicate v p = true → partPredicate v q = true := by
    refine hstarts.imp_of_mem fun {p q} hp hq hpq => ?_
    obtain ⟨j, a, ha, hacopied, rfl⟩ := (hmem p).mp hp
    obtain ⟨k, b, hb, hbcopied, rfl⟩ := (hmem q).mp hq
    rw [partPredicate_partOf hstaggered ha hacopied, partPredicate_partOf hstaggered hb hbcopied,
      addU64_of_lt (hstaggered.end_lt a (List.mem_of_getElem? ha) hacopied),
      addU64_of_lt (hstaggered.end_lt b (List.mem_of_getElem? hb) hbcopied)]
    exact fun hv => hv.trans_le hpq.2
  obtain ⟨pre, post, hparts, hpre, hpost⟩ := Bisection.exists_split hmonotone
  have hbehind : ∀ p ∈ f.parts, partPredicate v p = true → p ∈ post := by
    intro p hp htrue
    rw [hparts] at hp
    refine (List.mem_append.mp hp).resolve_left fun hfront => ?_
    rw [hpre p hfront] at htrue
    cases htrue
  have hpart : partOf table i item ∈ post := by
    refine hbehind _ ((hmem _).mpr ⟨i, item, hleads.getElem?, hleads.copied, rfl⟩) ?_
    exact (partPredicate_partOf hstaggered hleads.getElem? hleads.copied).mpr hleads.lt_end
  have hfound : f.parts[findPart f.parts v]? = post.head? := by
    rw [hparts, findPart_append hpre hpost, List.getElem?_append_right (le_refl _), Nat.sub_self,
      List.head?_eq_getElem?]
  have hpairwise := hstarts
  rw [hparts] at hpairwise
  replace hpairwise := (List.pairwise_append.mp hpairwise).2.1
  obtain ⟨q, rest, rfl⟩ := List.exists_cons_of_ne_nil (List.ne_nil_of_mem hpart)
  rw [hfound, List.head?_cons, Option.some.injEq]
  constructor
  · rintro rfl item' hitem' hcopied' hlt'
    obtain ⟨j, hj⟩ := List.mem_iff_getElem?.mp hitem'
    have hpart' : partOf table j item' ∈ partOf table i item :: rest :=
      hbehind _ ((hmem _).mpr ⟨j, item', hj, hcopied', rfl⟩)
        ((partPredicate_partOf hstaggered hj hcopied').mpr hlt')
    rcases List.mem_cons.mp hpart' with heq | hrest
    · exact (congrArg Part.virtualOffset heq).ge
    · exact ((List.pairwise_cons.mp hpairwise).1 _ hrest).1.le
  · intro hfirst
    obtain ⟨j, item', hj, hcopied', rfl⟩ :=
      (hmem q).mp (hparts ▸ List.mem_append_right pre List.mem_cons_self)
    rcases List.mem_cons.mp hpart with heq | hrest
    · exact heq.symm
    · have hlt := ((List.pairwise_cons.mp hpairwise).1 _ hrest).1
      have hle := hfirst item' (List.mem_of_getElem? hj) hcopied'
        ((partPredicate_partOf hstaggered hj hcopied').mp (hpost _ List.mem_cons_self))
      exact absurd hlt (not_lt.mpr hle)

/-! ### The condition -/

/-- A sparse file addresses an offset correctly if, and only if, no segment of the new file contains
it and the search does not end at a command that copies from the old file and leads somewhere. Where
no copied segment is inside of another, that is the first one that ends behind the offset. -/
theorem addresses_iff (hlen : table.length < 2 ^ 63)
    (hsorted : IsSorted (storedParts 0 table) f.parts) (newBytes : List Byte) (v : Nat) :
    (Addresses newBytes table f v ↔
      (∀ item ∈ table, ¬ InSegment item v) ∧
        ∀ i item, Leads table i item v →
          f.parts[findPart f.parts v]? ≠ some (partOf table i item)) ∧
    (Staggered table →
      (Addresses newBytes table f v ↔
        (∀ item ∈ table, ¬ InSegment item v) ∧
          ∀ i item, Leads table i item v →
            ∃ item' ∈ table, item'.copyFromOld = true ∧
              v < addU64 item'.fileOffset item'.getLength ∧
              item'.fileOffset < item.fileOffset)) := by
  have hparts : f.parts.length < 2 ^ 63 := by
    rw [hsorted.perm.length_eq]
    exact (length_storedParts_le 0 table).trans_lt hlen
  have hiff : Addresses newBytes table f v ↔
      (∀ item ∈ table, ¬ InSegment item v) ∧
        ∀ i item, Leads table i item v →
          f.parts[findPart f.parts v]? ≠ some (partOf table i item) := by
    constructor
    · intro h
      have hnone : ∀ item ∈ table, ¬ InSegment item v := fun item hitem hsegment =>
        not_addresses_of_inSegment hparts hitem hsegment h
      refine ⟨hnone, fun i item hleads hfound => ?_⟩
      obtain ⟨f', hsucceeds⟩ := seek_of_leads hleads hfound
      obtain ⟨f'', hfails⟩ := h.seek_fails hnone
      exact absurd (congrArg Prod.fst (Except.ok.inj (hsucceeds.symm.trans hfails))) (by simp)
    · rintro ⟨hnone, hleads⟩
      exact ⟨fun item hitem hsegment => absurd hsegment (hnone item hitem),
        fun item hitem hsegment => absurd hsegment (hnone item hitem),
        fun _ => seek_of_not_leads hsorted hleads⟩
  refine ⟨hiff, fun hstaggered => hiff.trans (and_congr_right fun _ => ?_)⟩
  refine forall₂_congr fun i item => forall_congr' fun hleads => ?_
  rw [Ne, found_iff hsorted hstaggered hleads]
  push Not
  rfl

/-! ### A byte and two copies -/

/-- Take the only byte of the new file. -/
def newByte : RsyncCommand := (RsyncCommand.setCopyFromOld ⟨0, 0⟩ false).addLength 1

/-- The byte, and behind it two bytes of the old file from 4 on and two from 10 on. -/
def byteAndCopies : List RsyncCommand :=
  [newByte, (RsyncCommand.setCopyFromOld ⟨4, 0⟩ true).addLength 2,
    (RsyncCommand.setCopyFromOld ⟨10, 0⟩ true).addLength 2]

def fileOf (table : List RsyncCommand) : SparseFile NormalFile :=
  new (NormalFile.new [7] ⟨fun _ => 1, fun _ => true⟩ 1) (storedParts 0 table) 0

lemma isSorted_byteAndCopies :
    IsSorted (storedParts 0 byteAndCopies) (fileOf byteAndCopies).parts :=
  ⟨List.Perm.refl _, by decide⟩

lemma getElem?_byteAndCopies {i : Nat} {item : RsyncCommand} (h : byteAndCopies[i]? = some item)
    (hcopied : item.copyFromOld = true) :
    i = 1 ∧ item = byteAndCopies[1] ∨ i = 2 ∧ item = byteAndCopies[2] := by
  rcases i with _ | _ | _ | i
  · cases h
    exact absurd hcopied (by decide)
  · exact Or.inl ⟨rfl, (Option.some.inj h).symm⟩
  · exact Or.inr ⟨rfl, (Option.some.inj h).symm⟩
  · cases h

lemma not_inSegment_byteAndCopies (hv : 1 ≤ v) : ∀ item ∈ byteAndCopies, ¬ InSegment item v := by
  rintro item hitem ⟨hnew, hle, hlt⟩
  obtain ⟨i, hi⟩ := List.mem_iff_getElem?.mp hitem
  rcases i with _ | _ | _ | i
  · cases hi
    have hlength : newByte.getLength = 1 := by decide
    have hoffset : newByte.fileOffset = 0 := rfl
    omega
  · cases hi
    exact absurd hnew (by decide)
  · cases hi
    exact absurd hnew (by decide)
  · cases hi

lemma staggered_byteAndCopies : Staggered byteAndCopies := by
  refine ⟨by decide, by decide, ?_⟩
  have hsegments : (byteAndCopies.filter (·.copyFromOld)).map
      (fun item => (item.fileOffset, item.getLength)) = [(4, 2), (10, 2)] := by decide
  rw [hsegments]
  simp [Staggering]

/-- In the second copied segment the seek fails as it should, since the flag of the first copy makes
the offset too large, and so it does well before the first one, since the offset would be negative;
in the first copied segment and just before it the seek succeeds. -/
theorem addresses_newByte :
    Addresses [7] byteAndCopies (fileOf byteAndCopies) 10 ∧
      Addresses [7] byteAndCopies (fileOf byteAndCopies) 2 ∧
      ¬ Addresses [7] byteAndCopies (fileOf byteAndCopies) 3 ∧
      ¬ Addresses [7] byteAndCopies (fileOf byteAndCopies) 5 := by
  have hiff := fun v => (addresses_iff (f := fileOf byteAndCopies) (by decide)
    isSorted_byteAndCopies [7] v).2 staggered_byteAndCopies
  have hfirst : ∀ v, Leads byteAndCopies 1 byteAndCopies[1] v →
      ¬ Addresses [7] byteAndCopies (fileOf byteAndCopies) v := by
    intro v hleads h
    obtain ⟨item', hitem', hcopied', -, hlt⟩ := ((hiff v).mp h).2 1 _ hleads
    obtain ⟨i, hi⟩ := List.mem_iff_getElem?.mp hitem'
    rcases getElem?_byteAndCopies hi hcopied' with ⟨-, rfl⟩ | ⟨-, rfl⟩
    · exact absurd hlt (by decide)
    · exact absurd hlt (by decide)
  refine ⟨(hiff 10).mpr ⟨not_inSegment_byteAndCopies (by decide), fun i item h => ?_⟩,
    (hiff 2).mpr ⟨not_inSegment_byteAndCopies (by decide), fun i item h => ?_⟩,
    hfirst 3 ⟨rfl, by decide, by decide, by decide⟩,
    hfirst 5 ⟨rfl, by decide, by decide, by decide⟩⟩
  · rcases getElem?_byteAndCopies h.getElem? h.copied with ⟨rfl, rfl⟩ | ⟨rfl, rfl⟩
    · exact absurd h.lt_end (by decide)
    · exact absurd h.accepted (by decide)
  · rcases getElem?_byteAndCopies h.getElem? h.copied with ⟨rfl, rfl⟩ | ⟨rfl, rfl⟩
    · exact absurd h.accepted (by decide)
    · exact ⟨byteAndCopies[1], List.getElem_mem _, by decide, by decide, by decide⟩

/-- The byte of the segment cannot be sought. -/
theorem not_addresses_newByte :
    (fileOf [newByte]).seek NormalFile.stream 0 = .ok (false, fileOf [newByte]) ∧
      ¬ Addresses [7] [newByte] (fileOf [newByte]) 0 :=
  ⟨rfl, not_addresses_of_inSegment (by decide) (List.mem_singleton_self newByte)
    ⟨by decide, by decide, by decide⟩⟩

end SparseFile

end Rsync

end BackupProgram
