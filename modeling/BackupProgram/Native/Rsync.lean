import BackupProgram.Lib.Bisection
import BackupProgram.Lib.Loops
import BackupProgram.Native.MiscTypes

/-!
# Streams over delta chains

`RsyncChainLink` presents a file as the segments that a command table takes from the previous
version and from the stored new data. A run of it can go wrong in two ways that are no results of a
read: an index outside the list of parts, and a read that never ends.
-/

namespace BackupProgram

namespace Rsync

open Bisection Loops

inductive Fault where
  | outOfRange
  | outOfFuel
deriving DecidableEq, Repr

/-- The interface of the streams, over the states `σ` of an implementation. A read returns its
success, the bytes read and the new state. -/
structure Stream (σ : Type) where
  seek : σ → Nat → Except Fault (Bool × σ)
  read : σ → Nat → Except Fault (Bool × List Byte × σ)

/-- One read after the other; all of them must succeed. -/
def Stream.readMany {σ : Type} (S : Stream σ) : σ → List Nat → Except Fault (Bool × List Byte × σ)
  | s, [] => .ok (true, [], s)
  | s, size :: sizes => do
    let (ok, bytes, s) ← S.read s size
    if !ok then return (false, bytes, s)
    let (ok, more, s) ← S.readMany s sizes
    return (ok, bytes ++ more, s)

lemma Stream.readMany_cons {σ : Type} {S : Stream σ} {s s' s'' : σ} {size : Nat}
    {sizes : List Nat} {bytes more : List Byte} (h : S.read s size = .ok (true, bytes, s'))
    (h' : S.readMany s' sizes = .ok (true, more, s'')) :
    S.readMany s (size :: sizes) = .ok (true, bytes ++ more, s'') := by
  rw [readMany, h]
  simp only [bind, Except.bind, Bool.not_true, Bool.false_eq_true, if_false, h']
  rfl

/-- The first of several reads returns. -/
lemma Stream.read_of_readMany {σ : Type} {S : Stream σ} {s : σ} {size : Nat} {sizes : List Nat}
    {r : Bool × List Byte × σ} (h : S.readMany s (size :: sizes) = .ok r) :
    ∃ r', S.read s size = .ok r' := by
  rw [readMany] at h
  rcases hread : S.read s size with e | r'
  · rw [hread] at h
    cases h
  · exact ⟨r', rfl⟩

/-- The contract of the streams: after `seek(o)` succeeds, reads return the bytes from `o` on. -/
def Stream.Obeys {σ : Type} (S : Stream σ) (bytes : List Byte) : Prop :=
  ∀ s offset s', S.seek s offset = .ok (true, s') →
    ∀ sizes, ∃ s'', S.readMany s' sizes = .ok (true, (bytes.drop offset).take sizes.sum, s'')

/-- A stream over given bytes, with its contract. -/
structure ByteStream (σ : Type) (bytes : List Byte) extends Stream σ where
  obeys : toStream.Obeys bytes

/-! ### Parts -/

/-- Addition of unsigned 64-bit numbers. -/
def addU64 (a b : Nat) : Nat := (a + b) % 2 ^ 64

/-- Subtraction of unsigned 64-bit numbers. -/
def subU64 (a b : Nat) : Nat := (a + (2 ^ 64 - b % 2 ^ 64)) % 2 ^ 64

/-- `find_all` on the indices from `first` to `last`. -/
def findAll (first last : Nat) (f : Nat → Bool) : Nat :=
  if first ≥ last then last
  else if f first then first
  else (bisect f (last - first) first last).2

structure SparseFile.Part where
  physicalOffset : Nat
  virtualOffset : Nat
  size : Nat
deriving DecidableEq, Repr

structure RsyncChainLink.Part extends SparseFile.Part where
  file : Nat
deriving DecidableEq, Repr

/-- What both classes whose objects are made of parts have: the parts, of type `P`, the place in
them, and the state `β` of the streams that the bytes come from. -/
structure Parted (β P : Type) where
  streams : β
  parts : List P
  current : Nat
  offset : Nat

def findPart (parts : List SparseFile.Part) (offset : Nat) : Nat :=
  findAll 0 parts.length fun i =>
    let p := parts.getD i ⟨0, 0, 0⟩
    decide (p.virtualOffset ≤ offset ∧ offset < addU64 p.virtualOffset p.size ∨
      p.virtualOffset ≥ offset)

/-- `part_order`, as the order for `std::sort`. -/
def partOrder (a b : SparseFile.Part) : Prop := a.virtualOffset ≤ b.virtualOffset

instance : DecidableRel partOrder := fun a b =>
  inferInstanceAs (Decidable (a.virtualOffset ≤ b.virtualOffset))

namespace Parted

variable {β P : Type}

/-- The containing part and the physical offset, or `none` for `false`; the two classes compute the
index from the iterator in different ways. -/
def transformOffset (index : Nat → Nat) (parts : List SparseFile.Part) (offset : Nat) :
    Option (Nat × Nat) :=
  match parts[findPart parts offset]? with
  | none => none
  | some it =>
    if offset ≥ addU64 it.virtualOffset it.size then none
    else some (index (findPart parts offset),
      addU64 it.physicalOffset (subU64 offset it.virtualOffset))

def eof (s : Parted β P) : Bool := decide (s.current ≥ s.parts.length)

/-- One round of the loop of `read`, on the object, the size that is left and what has been read so
far. `place` is the part as `find_part` sees it, `readPart` reads from the stream a part is in. -/
def readRound (place : P → SparseFile.Part)
    (readPart : P → β → Nat → Except Fault (Bool × List Byte × β))
    (seek : Parted β P → Nat → Except Fault (Bool × Parted β P)) :
    Parted β P × Nat × List Byte →
      Except Fault (Round (Parted β P × Nat × List Byte) (Bool × List Byte × Parted β P))
  | (s, size, dst) =>
    if size = 0 then return .done (true, dst, s)
    else
      match s.parts[s.current]? with
      | none => throw .outOfRange
      | some part => do
        let consumed :=
          min size (subU64 (place part).size (subU64 s.offset (place part).virtualOffset))
        let (ok, bytes, streams) ← readPart part s.streams consumed
        let s := { s with streams := streams }
        if !ok then return .done (false, dst, s)
        let dst := dst ++ bytes
        let size := size - bytes.length
        let s := { s with offset := addU64 s.offset bytes.length }
        if s.offset = addU64 (place part).virtualOffset (place part).size then
          let s := { s with current := s.current + 1 }
          match s.parts[s.current]? with
          | none => return .done (true, dst, s)
          | some part =>
            let (ret, s) ← seek s (place part).virtualOffset
            if !ret then return .done (false, dst, s)
            return .again ({ s with offset := (place part).virtualOffset }, size, dst)
        else return .again (s, size, dst)

/-- With the place outside the list of parts nothing can be read. -/
lemma readRound_of_outside {place : P → SparseFile.Part}
    {readPart : P → β → Nat → Except Fault (Bool × List Byte × β)}
    {seek : Parted β P → Nat → Except Fault (Bool × Parted β P)} {s : Parted β P} {size : Nat}
    (h : s.parts.length ≤ s.current) (hsize : size ≠ 0) (dst : List Byte) :
    readRound place readPart seek (s, size, dst) = .error .outOfRange := by
  rw [readRound, if_neg hsize, List.getElem?_eq_none h]
  rfl

end Parted

/-! ### Links -/

/-- The parts of the constructor, for the rest of a table that starts at `offset`. -/
def partsFrom : Nat → List RsyncCommand → List RsyncChainLink.Part
  | _, [] => []
  | offset, item :: table =>
    { physicalOffset := item.fileOffset
      virtualOffset := offset
      size := item.getLength
      file := if item.copyFromOld then 0 else 1 } ::
        partsFrom (addU64 offset item.getLength) table

structure RsyncChainLink.Files (σ τ : Type) where
  oldFile : σ
  newFile : τ

/-- `σ` and `τ` are the states of the two streams the link is made of. -/
abbrev RsyncChainLink (σ τ : Type) := Parted (RsyncChainLink.Files σ τ) RsyncChainLink.Part

namespace RsyncChainLink

variable {σ τ : Type}

/-- The constructor. -/
def new (oldFile : σ) (newFile : τ) (table : List RsyncCommand) : RsyncChainLink σ τ where
  streams := ⟨oldFile, newFile⟩
  parts := (partsFrom 0 table).insertionSort fun a b => partOrder a.toPart b.toPart
  current := 0
  offset := 0

def transformOffset (link : RsyncChainLink σ τ) (offset : Nat) : Option (Nat × Nat) :=
  Parted.transformOffset id (link.parts.map Part.toPart) offset

/-- A call on the stream that a part is in. -/
def onStream {α : Type} (part : Part) (old : σ → Except Fault (α × σ))
    (new : τ → Except Fault (α × τ)) (files : Files σ τ) : Except Fault (α × Files σ τ) :=
  if part.file = 0 then do
    let (a, oldFile) ← old files.oldFile
    return (a, { files with oldFile := oldFile })
  else do
    let (a, newFile) ← new files.newFile
    return (a, { files with newFile := newFile })

/-- `garbage` is what the variable `containing_part` happens to hold before it is set. -/
def seek (old : Stream σ) (new : Stream τ) (garbage : Nat) (link : RsyncChainLink σ τ)
    (offset : Nat) : Except Fault (Bool × RsyncChainLink σ τ) :=
  match link.transformOffset offset with
  | some _ => .ok (false, link)
  | none => do
    let containingPart := garbage
    let link := { link with current := containingPart }
    match link.parts[link.current]? with
    | none => throw .outOfRange
    | some part =>
      let (ret, files) ← onStream part (old.seek · offset) (new.seek · offset) link.streams
      let link := { link with streams := files }
      return (ret, if ret then { link with offset := offset } else link)

def readPart (old : Stream σ) (new : Stream τ) (part : Part) (files : Files σ τ) (size : Nat) :
    Except Fault (Bool × List Byte × Files σ τ) := do
  let ((ok, bytes), files) ← onStream part
    (fun s => do let (ok, bytes, s) ← old.read s size; return ((ok, bytes), s))
    (fun s => do let (ok, bytes, s) ← new.read s size; return ((ok, bytes), s)) files
  return (ok, bytes, files)

/-- The loop of `read`. -/
def readLoop (old : Stream σ) (new : Stream τ) (garbage fuel : Nat) (link : RsyncChainLink σ τ)
    (size : Nat) (dst : List Byte) : Except Fault (Bool × List Byte × RsyncChainLink σ τ) :=
  loop .outOfFuel (Parted.readRound Part.toPart (readPart old new) (seek old new garbage)) fuel
    (link, size, dst)

/-- The link as a stream, with a bound on the rounds of a read. -/
def toStream (old : Stream σ) (new : Stream τ) (garbage fuel : Nat) :
    Stream (RsyncChainLink σ τ) where
  seek := seek old new garbage
  read link size := readLoop old new garbage fuel link size []

end RsyncChainLink

/-! ### Byte cursors -/

/-- The bytes that the commands of a table select from the two files, in table order. -/
def reconstruct (old new : List Byte) (table : List RsyncCommand) : List Byte :=
  (table.map fun item =>
    ((if item.copyFromOld then old else new).drop item.fileOffset).take item.getLength).flatten

def totalLength (table : List RsyncCommand) : Nat := (table.map RsyncCommand.getLength).sum

/-- In state `s` the stream is a byte cursor at the start of `bytes`: reads return them in order,
a seek succeeds exactly below `total`, and reads after it return the bytes from its offset on. -/
structure Stream.IsCursor {σ : Type} (S : Stream σ) (s : σ) (bytes : List Byte) (total : Nat) :
    Prop where
  read : ∀ sizes, ∃ s', S.readMany s sizes = .ok (true, bytes.take sizes.sum, s')
  seek : ∀ offset, ∃ ret s', S.seek s offset = .ok (ret, s') ∧ (ret = true ↔ offset < total)
  read_seek : ∀ offset s', S.seek s offset = .ok (true, s') →
    ∀ sizes, ∃ s'', S.readMany s' sizes = .ok (true, (bytes.drop offset).take sizes.sum, s'')

instance : Std.Total partOrder := ⟨fun a b => Nat.le_total a.virtualOffset b.virtualOffset⟩

instance : IsTrans SparseFile.Part partOrder := ⟨fun _ _ _ => Nat.le_trans⟩

lemma addU64_of_lt {a b : Nat} (h : a + b < 2 ^ 64) : addU64 a b = a + b := Nat.mod_eq_of_lt h

lemma mem_partsFrom {offset : Nat} {table : List RsyncCommand} {p : RsyncChainLink.Part}
    (h : p ∈ partsFrom offset table) : ∃ item ∈ table, p.size = item.getLength := by
  induction table generalizing offset with
  | nil => cases h
  | cons item table ih =>
    rw [partsFrom, List.mem_cons] at h
    rcases h with rfl | h
    · exact ⟨item, List.mem_cons_self, rfl⟩
    · obtain ⟨item', hitem', hsize⟩ := ih h
      exact ⟨item', List.mem_cons_of_mem _ hitem', hsize⟩

namespace RsyncChainLink

variable {σ τ : Type}

/-- The part that is sorted to the front contains the offset zero. -/
lemma transformOffset_zero (oldFile : σ) (newFile : τ) {table : List RsyncCommand}
    (hne : table ≠ []) (hpos : ∀ item ∈ table, 0 < item.getLength) :
    ∃ found, (new oldFile newFile table).transformOffset 0 = some found := by
  obtain ⟨item, rest, rfl⟩ := List.exists_cons_of_ne_nil hne
  have hsorted := List.pairwise_insertionSort
    (fun a b : Part => partOrder a.toPart b.toPart) (partsFrom 0 (item :: rest))
  have hmem : ∀ p, p ∈ (new oldFile newFile (item :: rest)).parts ↔
      p ∈ partsFrom 0 (item :: rest) := fun p =>
    (List.perm_insertionSort (fun a b : Part => partOrder a.toPart b.toPart)
      (partsFrom 0 (item :: rest))).mem_iff
  rw [transformOffset]
  change (new oldFile newFile (item :: rest)).parts.Pairwise _ at hsorted
  rcases hparts : (new oldFile newFile (item :: rest)).parts with _ | ⟨p, parts⟩
  · have := (hmem _).mpr List.mem_cons_self
    rw [hparts] at this
    cases this
  · rw [hparts] at hsorted hmem
    obtain ⟨item', hitem', hsize⟩ := mem_partsFrom ((hmem p).mp List.mem_cons_self)
    have hlt : item'.getLength < 2 ^ 63 := by
      rw [RsyncCommand.getLength_eq]
      exact Nat.mod_lt _ (by norm_num)
    have hpos' := hpos item' hitem'
    have hzero : p.virtualOffset = 0 := by
      rcases List.mem_cons.mp ((hmem _).mpr List.mem_cons_self) with heq | hrest
      · rw [← heq]
      · exact Nat.le_zero.mp ((List.pairwise_cons.mp hsorted).1 _ hrest)
    have hfind : findPart ((p :: parts).map Part.toPart) 0 = 0 := by
      simp [findPart, findAll]
    have hend : ¬ 0 ≥ addU64 p.virtualOffset p.size := by
      rw [hzero, hsize, addU64_of_lt (by omega)]
      omega
    rw [Parted.transformOffset, hfind]
    simp only [List.map_cons, List.getElem?_cons_zero, if_neg hend]
    exact ⟨_, rfl⟩

/-- `seek` takes the success of `transform_offset` for its failure. -/
lemma seek_of_transformOffset (old : Stream σ) (new : Stream τ) (garbage : Nat)
    {link : RsyncChainLink σ τ} {offset : Nat} {found : Nat × Nat}
    (h : link.transformOffset offset = some found) :
    link.seek old new garbage offset = .ok (false, link) := by
  rw [seek, h]

/-- In a link without parts `seek` reads a part that is not there. -/
lemma seek_of_parts_eq_nil (old : Stream σ) (new : Stream τ) (garbage : Nat)
    {link : RsyncChainLink σ τ} (h : link.parts = []) (offset : Nat) :
    link.seek old new garbage offset = .error .outOfRange := by
  have hnone : link.transformOffset offset = none := by
    rw [transformOffset, h]
    rfl
  rw [seek, hnone]
  simp only [h, List.getElem?_nil]
  rfl

/-- A seek to the start of a freshly constructed link never succeeds as it should. -/
lemma not_isCursor_core (old : Stream σ) (new : Stream τ) (garbage fuel : Nat) (s : σ) (t : τ)
    {table : List RsyncCommand} (hpos : ∀ item ∈ table, 0 < item.getLength) (bytes : List Byte) :
    ¬ (toStream old new garbage fuel).IsCursor (RsyncChainLink.new s t table) bytes
      (totalLength table) := by
  intro h
  obtain ⟨ret, link, hseek, hiff⟩ := h.seek 0
  rcases table with _ | ⟨item, table⟩
  · have hfault := seek_of_parts_eq_nil old new garbage
      (show (RsyncChainLink.new s t []).parts = [] from rfl) 0
    rw [show (toStream old new garbage fuel).seek = seek old new garbage from rfl, hfault] at hseek
    cases hseek
  · have hitem := hpos item List.mem_cons_self
    obtain ⟨found, hfound⟩ := transformOffset_zero s t (List.cons_ne_nil item table) hpos
    have hfail := seek_of_transformOffset old new garbage hfound
    rw [show (toStream old new garbage fuel).seek = seek old new garbage from rfl, hfail] at hseek
    have hret : false = ret := congrArg Prod.fst (Except.ok.inj hseek)
    have htotal : 0 < totalLength (item :: table) := by
      rw [totalLength, List.map_cons, List.sum_cons]
      omega
    exact absurd (hret.trans (hiff.mpr htotal)) (by simp)

/-- Whatever the table, the streams and the value of the variable that is not set, a freshly
constructed link is no byte cursor over the reconstructed file. -/
theorem not_isCursor {oldBytes newBytes : List Byte} (old : ByteStream σ oldBytes)
    (new : ByteStream τ newBytes) (garbage fuel : Nat) (s : σ) (t : τ)
    {table : List RsyncCommand} (hpos : ∀ item ∈ table, 0 < item.getLength) :
    ¬ (toStream old.toStream new.toStream garbage fuel).IsCursor (RsyncChainLink.new s t table)
      (reconstruct oldBytes newBytes table) (totalLength table) :=
  not_isCursor_core old.toStream new.toStream garbage fuel s t hpos _

end RsyncChainLink

/-! ### A link over two byte strings -/

/-- A byte string as a stream; the state is the position. -/
def bytesStream (bytes : List Byte) : Stream Nat where
  seek pos offset :=
    .ok (if offset ≤ bytes.length then (true, offset) else (false, pos))
  read pos size :=
    .ok (true, (bytes.drop pos).take size, pos + ((bytes.drop pos).take size).length)

lemma readMany_bytesStream (bytes : List Byte) (pos : Nat) (sizes : List Nat) :
    ∃ pos', (bytesStream bytes).readMany pos sizes =
      .ok (true, (bytes.drop pos).take sizes.sum, pos') := by
  induction sizes generalizing pos with
  | nil => exact ⟨pos, by simp [Stream.readMany]⟩
  | cons size sizes ih =>
    obtain ⟨pos', h⟩ := ih (pos + ((bytes.drop pos).take size).length)
    refine ⟨pos', ?_⟩
    have hsplit : (bytes.drop pos).take (size + sizes.sum) =
        (bytes.drop pos).take size ++
          (bytes.drop (pos + ((bytes.drop pos).take size).length)).take sizes.sum := by
      rw [List.take_add, ← List.drop_drop, List.length_take]
      congr 2
      rcases Nat.le_total size (bytes.drop pos).length with hle | hle
      · rw [Nat.min_eq_left hle]
      · rw [Nat.min_eq_right hle, List.drop_eq_nil_of_le hle, List.drop_length]
    rw [List.sum_cons, hsplit]
    exact Stream.readMany_cons rfl h

/-- A byte string obeys the contract. -/
def ofBytes (bytes : List Byte) : ByteStream Nat bytes where
  toStream := bytesStream bytes
  obeys := by
    intro pos offset pos' hseek sizes
    have hpos : pos' = offset := by
      simp only [bytesStream, Except.ok.injEq] at hseek
      split_ifs at hseek with h
      · exact (congrArg Prod.snd hseek).symm
      · exact absurd (congrArg Prod.fst hseek) (by simp)
    exact hpos ▸ readMany_bytesStream bytes pos' sizes

/-- Copy the only byte of the old file. -/
def copyByte : RsyncCommand := (RsyncCommand.setCopyFromOld ⟨0, 0⟩ true).addLength 1

lemma getLength_copyByte : copyByte.getLength = 1 := by decide

namespace RsyncChainLink

/-- A link with one part. -/
theorem not_isCursor_copyByte :
    ¬ (toStream (ofBytes [7]).toStream (ofBytes []).toStream 0 9).IsCursor
      (RsyncChainLink.new 0 0 [copyByte]) (reconstruct [7] [] [copyByte])
      (totalLength [copyByte]) :=
  not_isCursor (ofBytes [7]) (ofBytes []) 0 9 0 0 (by simp [getLength_copyByte])

/-- The start of this link cannot be sought. -/
theorem seek_copyByte_fails :
    (reconstruct [7] [] [copyByte] = [7] ∧ totalLength [copyByte] = 1) ∧
      ¬ ∃ link, (toStream (ofBytes [7]).toStream (ofBytes []).toStream 0 9).seek
        (RsyncChainLink.new 0 0 [copyByte]) 0 = .ok (true, link) := by
  refine ⟨by decide, ?_⟩
  rintro ⟨link, hseek⟩
  obtain ⟨found, hfound⟩ := transformOffset_zero 0 0 (List.cons_ne_nil copyByte [])
    (by simp [getLength_copyByte])
  have hfail := seek_of_transformOffset (ofBytes [7]).toStream (ofBytes []).toStream 0 hfound
  have hret := congrArg Prod.fst (Except.ok.inj (hfail.symm.trans hseek))
  exact absurd hret (by simp)

end RsyncChainLink

end Rsync

end BackupProgram
