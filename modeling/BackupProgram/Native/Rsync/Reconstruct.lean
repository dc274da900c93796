import BackupProgram.Lib.Spans
import BackupProgram.Native.NormalFile
import BackupProgram.Native.Rsync

/-!
# Flattening a chain

`reconstruct_section` lists the pieces of base files that a section of a stream consists of. A link
asks its two streams, which may be links in their turn; a plain file is a piece by itself.
-/

namespace BackupProgram

namespace Rsync

open Bisection Loops Spans

structure ReconstructedPart where
  source : Nat
  offsetInSource : Nat
  size : Nat
deriving DecidableEq, Repr

/-- `reconstruct_section` of a stream: what it appends to for an offset and a size. -/
abbrev Reconstruction :=
  List ReconstructedPart → Nat → Nat → Except Fault (List ReconstructedPart)

def NormalFile.reconstructSection (f : NormalFile) (dst : List ReconstructedPart)
    (virtualOffset size : Nat) : List ReconstructedPart :=
  dst ++ [⟨f.uniqueId, virtualOffset, size⟩]

/-- One round of the loop of `reconstruct_section`. The two classes have it in common, up to what
they append for a part. -/
def Parted.reconstructRound {β P : Type} (place : P → SparseFile.Part)
    (transformOffset : Parted β P → Nat → Option (Nat × Nat)) (append : P → Reconstruction)
    (s : Parted β P) :
    List ReconstructedPart × Nat × Nat →
      Except Fault (Round (List ReconstructedPart × Nat × Nat) (List ReconstructedPart))
  | (dst, virtualOffset, size) =>
    if size = 0 then return .done dst
    else
      match transformOffset s virtualOffset with
      | none => return .done dst
      | some (containingPart, physicalOffset) =>
        match s.parts[containingPart]? with
        | none => throw .outOfRange
        | some part => do
          let consumed :=
            min size (subU64 (place part).size (subU64 virtualOffset (place part).virtualOffset))
          let dst ← append part dst physicalOffset consumed
          return .again (dst, addU64 virtualOffset consumed, size - consumed)

namespace RsyncChainLink

variable {σ τ : Type}

/-- What is appended for a part comes from the stream that the part is in. -/
def appendPart (old new : Reconstruction) (part : Part) : Reconstruction :=
  if part.file = 0 then old else new

/-- As long as every round takes a byte off the size, one more round than bytes is enough. -/
def reconstructSection (old new : Reconstruction) (link : RsyncChainLink σ τ) : Reconstruction :=
  fun dst virtualOffset size =>
    loop .outOfFuel
      (Parted.reconstructRound Part.toPart transformOffset (appendPart old new) link) (size + 1)
      (dst, virtualOffset, size)

end RsyncChainLink

/-- A chain of links over plain files. -/
inductive Chain where
  | normal (file : NormalFile)
  | link (old new : Chain) (table : List RsyncCommand)

def Chain.reconstructSection : Chain → Reconstruction
  | normal file =>
    fun dst virtualOffset size => .ok (file.reconstructSection dst virtualOffset size)
  | link old new table =>
    RsyncChainLink.reconstructSection old.reconstructSection new.reconstructSection
      (RsyncChainLink.new () () table)

/-! ### What the pieces contain -/

/-- The bytes of a piece, given the contents of the base files. -/
def ReconstructedPart.bytes (contents : Nat → List Byte) (p : ReconstructedPart) : List Byte :=
  ((contents p.source).drop p.offsetInSource).take p.size

/-- For a request in range, pieces of the `allowed` kind are appended whose bytes are the requested
ones. -/
def Faithful (contents : Nat → List Byte) (allowed : ReconstructedPart → Prop) (bytes : List Byte)
    (reconstruction : Reconstruction) : Prop :=
  ∀ dst virtualOffset size, virtualOffset + size ≤ bytes.length →
    ∃ pieces, reconstruction dst virtualOffset size = .ok (dst ++ pieces) ∧
      pieces.flatMap (ReconstructedPart.bytes contents) = (bytes.drop virtualOffset).take size ∧
      ∀ p ∈ pieces, allowed p

/-- The bytes of the file a command copies from. -/
def sourceBytes (oldBytes newBytes : List Byte) (item : RsyncCommand) : List Byte :=
  if item.copyFromOld then oldBytes else newBytes

/-- The table makes a file out of two others: its commands copy something that is there. -/
structure Fits (oldBytes newBytes : List Byte) (table : List RsyncCommand) : Prop where
  length_pos : ∀ item ∈ table, 0 < item.getLength
  in_range : ∀ item ∈ table,
    item.fileOffset + item.getLength ≤ (sourceBytes oldBytes newBytes item).length
  old_lt : oldBytes.length < 2 ^ 64
  new_lt : newBytes.length < 2 ^ 64
  total_lt : totalLength table < 2 ^ 64

namespace Chain

/-- The bytes a chain stands for. -/
def bytes : Chain → List Byte
  | normal file => file.reader.file
  | link old new table => reconstruct old.bytes new.bytes table

def baseIds : Chain → List Nat
  | normal file => [file.uniqueId]
  | link old new _ => old.baseIds ++ new.baseIds

/-- The identifiers tell the base files apart, and every table fits its two streams. -/
def WellFormed (contents : Nat → List Byte) : Chain → Prop
  | normal file => contents file.uniqueId = file.reader.file
  | link old new table =>
    old.WellFormed contents ∧ new.WellFormed contents ∧ Fits old.bytes new.bytes table

/-- A piece of one of the base files, within its bounds. -/
def Base (contents : Nat → List Byte) (c : Chain) (p : ReconstructedPart) : Prop :=
  p.source ∈ c.baseIds ∧ p.offsetInSource + p.size ≤ (contents p.source).length

end Chain

/-! ### The parts of a table that fits -/

lemma subU64_of_le {a b : Nat} (h : b ≤ a) (ha : a < 2 ^ 64) : subU64 a b = a - b := by
  rw [subU64]
  omega

lemma totalLength_eq (table : List RsyncCommand) :
    totalLength table = total RsyncCommand.getLength table := rfl

lemma length_partsFrom (offset : Nat) (table : List RsyncCommand) :
    (partsFrom offset table).length = table.length := by
  induction table generalizing offset with
  | nil => rfl
  | cons item table ih => rw [partsFrom, List.length_cons, List.length_cons, ih]

lemma partsFrom_append {offset : Nat} {init rest : List RsyncCommand}
    (h : offset + totalLength init < 2 ^ 64) :
    partsFrom offset (init ++ rest) =
      partsFrom offset init ++ partsFrom (offset + totalLength init) rest := by
  induction init generalizing offset with
  | nil => rfl
  | cons item init ih =>
    rw [totalLength_eq, total_cons, ← totalLength_eq] at h ⊢
    rw [List.cons_append, partsFrom, partsFrom, addU64_of_lt (by omega), ih (by omega),
      List.cons_append, Nat.add_assoc]

/-- The part of a command starts where the commands before it end. -/
lemma partsFrom_getElem? (init rest : List RsyncCommand) (item : RsyncCommand)
    (h : totalLength init < 2 ^ 64) :
    (partsFrom 0 (init ++ item :: rest))[init.length]? =
      some ⟨⟨item.fileOffset, totalLength init, item.getLength⟩,
        if item.copyFromOld then 0 else 1⟩ := by
  rw [partsFrom_append (by omega), List.getElem?_append_right (by rw [length_partsFrom]),
    length_partsFrom, Nat.sub_self, Nat.zero_add]
  rfl

lemma pairwise_partsFrom {offset : Nat} {table : List RsyncCommand}
    (h : offset + totalLength table < 2 ^ 64) :
    (∀ p ∈ partsFrom offset table, offset ≤ p.virtualOffset) ∧
      (partsFrom offset table).Pairwise fun a b => partOrder a.toPart b.toPart := by
  induction table generalizing offset with
  | nil => simp [partsFrom]
  | cons item table ih =>
    rw [totalLength_eq, total_cons, ← totalLength_eq] at h
    obtain ⟨hle, hpair⟩ := @ih (offset + item.getLength) (by omega)
    rw [partsFrom, addU64_of_lt (by omega)]
    simp only [List.forall_mem_cons, List.pairwise_cons]
    refine ⟨⟨le_refl _, fun p hp => ?_⟩, fun p hp => ?_, hpair⟩
    · exact le_trans (Nat.le_add_right _ _) (hle p hp)
    · exact le_trans (Nat.le_add_right _ _) (hle p hp)

/-- The parts are in table order already. -/
lemma RsyncChainLink.parts_new {σ τ : Type} (oldFile : σ) (newFile : τ) {table : List RsyncCommand}
    (h : totalLength table < 2 ^ 64) : (new oldFile newFile table).parts = partsFrom 0 table :=
  List.Pairwise.insertionSort_eq (pairwise_partsFrom (by omega)).2

/-! ### The search for a part -/

/-- `find_all` finds the first index from which on the predicate holds. -/
lemma findAll_eq {first last b : Nat} {f : Nat → Bool} (hb : first ≤ b) (hlast : b ≤ last)
    (hf : ∀ k, first ≤ k → k < last → (f k = true ↔ b ≤ k)) : findAll first last f = b := by
  rw [findAll]
  exact lowerBound_boundary (Nat.le_succ _) hb hlast hf

/-- The predicate of `find_part`. -/
def partPredicate (offset : Nat) (p : SparseFile.Part) : Bool :=
  decide (p.virtualOffset ≤ offset ∧ offset < addU64 p.virtualOffset p.size ∨
    p.virtualOffset ≥ offset)

lemma partPredicate_eq_true_iff {offset : Nat} {p : SparseFile.Part} :
    partPredicate offset p = true ↔
      p.virtualOffset ≤ offset ∧ offset < addU64 p.virtualOffset p.size ∨
        offset ≤ p.virtualOffset := decide_eq_true_iff

lemma findPart_append {offset : Nat} {pre post : List SparseFile.Part}
    (hpre : ∀ p ∈ pre, partPredicate offset p = false)
    (hpost : ∀ p ∈ post, partPredicate offset p = true) :
    findPart (pre ++ post) offset = pre.length := by
  refine findAll_eq (Nat.zero_le _) (by rw [List.length_append]; omega) fun k _ hk => ?_
  change partPredicate offset ((pre ++ post).getD k ⟨0, 0, 0⟩) = true ↔ _
  rw [List.getD_eq_getElem?_getD, List.getElem?_eq_getElem hk, Option.getD_some]
  rcases Nat.lt_or_ge k pre.length with hlt | hge
  · rw [List.getElem_append_left hlt, hpre _ (List.getElem_mem hlt)]
    exact iff_of_false (by simp) (not_le.mpr hlt)
  · rw [List.getElem_append_right hge]
    exact iff_of_true (hpost _ (List.getElem_mem _)) hge

/-- The predicate of `find_part` on the parts of a table, which ascend without gaps. -/
lemma findPart_partsFrom {table : List RsyncCommand} {v b : Nat}
    (hpos : ∀ item ∈ table, 0 < item.getLength) (htotal : totalLength table < 2 ^ 64)
    (hb : b ≤ table.length)
    (hspan : ∀ k < table.length, v < total RsyncCommand.getLength (table.take (k + 1)) ↔ b ≤ k) :
    findPart ((partsFrom 0 table).map RsyncChainLink.Part.toPart) v = b := by
  refine findAll_eq (Nat.zero_le b) (by rwa [List.length_map, length_partsFrom]) fun k _ hk => ?_
  rw [List.length_map, length_partsFrom] at hk
  obtain ⟨init, item, rest, rfl, hlen⟩ : ∃ init item rest,
      table = init ++ item :: rest ∧ init.length = k :=
    ⟨table.take k, table.get ⟨k, hk⟩, table.drop (k + 1), by simp, by simp; omega⟩
  subst hlen
  have hitem := hpos item (List.mem_append_right _ List.mem_cons_self)
  rw [totalLength_eq, total_append, total_cons] at htotal
  have hpart := partsFrom_getElem? init rest item
    (by rw [totalLength_eq]; omega)
  have htake : (init ++ item :: rest).take (init.length + 1) = init ++ [item] := by
    rw [List.take_length_add_append, List.take_succ_cons, List.take_zero]
  rw [← hspan init.length hk, htake, total_append, total_cons, total_nil, Nat.add_zero,
    decide_eq_true_eq, List.getD_eq_getElem?_getD, List.getElem?_map, hpart]
  simp only [Option.map_some, Option.getD_some, totalLength_eq]
  rw [addU64_of_lt (by omega)]
  omega

namespace RsyncChainLink

variable {σ τ : Type} {link : RsyncChainLink σ τ} {v : Nat}

/-- An offset in the span of a command is transformed to an offset in the file it copies from. -/
lemma transformOffset_of_span {oldBytes newBytes : List Byte} {init rest : List RsyncCommand}
    {item : RsyncCommand} (hfits : Fits oldBytes newBytes (init ++ item :: rest))
    (hlink : link.parts = partsFrom 0 (init ++ item :: rest)) (hle : totalLength init ≤ v)
    (hlt : v < totalLength init + item.getLength) :
    link.transformOffset v =
      some (init.length, item.fileOffset + (v - totalLength init)) := by
  have hmem : item ∈ init ++ item :: rest := List.mem_append_right _ List.mem_cons_self
  have hrange := hfits.in_range item hmem
  have hsource : (sourceBytes oldBytes newBytes item).length < 2 ^ 64 := by
    rw [sourceBytes]
    split_ifs
    · exact hfits.old_lt
    · exact hfits.new_lt
  have htotal := hfits.total_lt
  rw [totalLength_eq, total_append, total_cons, ← totalLength_eq] at htotal
  have hfind : findPart (link.parts.map Part.toPart) v = init.length := by
    rw [hlink]
    exact findPart_partsFrom hfits.length_pos hfits.total_lt (by simp)
      fun k _ => lt_total_take_iff hle hlt
  have hpart := partsFrom_getElem? init rest item (by omega)
  rw [transformOffset, Parted.transformOffset, hfind, hlink, List.getElem?_map, hpart]
  simp only [Option.map_some]
  rw [if_neg (by rw [addU64_of_lt (by omega)]; omega), subU64_of_le hle (by omega),
    addU64_of_lt (by omega)]
  rfl

/-- There is no part from the total length on. -/
lemma transformOffset_of_ge {table : List RsyncCommand}
    (hpos : ∀ item ∈ table, 0 < item.getLength) (htotal : totalLength table < 2 ^ 64)
    (hlink : link.parts = partsFrom 0 table) (hge : totalLength table ≤ v) :
    link.transformOffset v = none := by
  have hfind : findPart (link.parts.map Part.toPart) v = table.length := by
    rw [hlink]
    refine findPart_partsFrom hpos htotal (le_refl _) fun k hk => ?_
    have hle := total_take_le RsyncCommand.getLength table (k + 1)
    rw [totalLength_eq] at hge
    omega
  rw [transformOffset, Parted.transformOffset, hfind,
    List.getElem?_eq_none (by rw [List.length_map, hlink, length_partsFrom])]

end RsyncChainLink

/-! ### Flattening -/

variable {contents : Nat → List Byte} {allowed : ReconstructedPart → Prop}
  {oldBytes newBytes : List Byte} {table : List RsyncCommand}

/-- The bytes of a command are as many as it says. -/
lemma Fits.length_segment (h : Fits oldBytes newBytes table) {item : RsyncCommand}
    (hitem : item ∈ table) :
    (((sourceBytes oldBytes newBytes item).drop item.fileOffset).take item.getLength).length =
      item.getLength := by
  have hrange := h.in_range item hitem
  rw [List.length_take, List.length_drop]
  omega

lemma reconstruct_eq_flatMap (oldBytes newBytes : List Byte) (table : List RsyncCommand) :
    reconstruct oldBytes newBytes table = table.flatMap fun item =>
      ((sourceBytes oldBytes newBytes item).drop item.fileOffset).take item.getLength := by
  rw [reconstruct, List.flatMap_def]
  rfl

lemma Fits.length_reconstruct (h : Fits oldBytes newBytes table) :
    (reconstruct oldBytes newBytes table).length = totalLength table := by
  rw [reconstruct_eq_flatMap, totalLength_eq]
  exact length_flatMap fun item hitem => h.length_segment hitem

/-- Within the span of a command the reconstructed file is the file the command copies from. -/
lemma Fits.take_drop_reconstruct {init rest : List RsyncCommand} {item : RsyncCommand} {v n : Nat}
    (h : Fits oldBytes newBytes (init ++ item :: rest)) (hle : totalLength init ≤ v)
    (hlt : v + n ≤ totalLength init + item.getLength) :
    ((reconstruct oldBytes newBytes (init ++ item :: rest)).drop v).take n =
      ((sourceBytes oldBytes newBytes item).drop
        (item.fileOffset + (v - totalLength init))).take n := by
  rw [reconstruct_eq_flatMap, take_drop_flatMap (fun b hb => h.length_segment hb) hle hlt,
    ← totalLength_eq, List.drop_take, List.take_take, List.drop_drop, Nat.min_eq_left (by omega)]

lemma Faithful.appendPart {old new : Reconstruction}
    (hold : Faithful contents allowed oldBytes old) (hnew : Faithful contents allowed newBytes new)
    (part : RsyncChainLink.Part) (item : RsyncCommand)
    (hpart : part.file = if item.copyFromOld then 0 else 1) :
    Faithful contents allowed (sourceBytes oldBytes newBytes item)
      (RsyncChainLink.appendPart old new part) := by
  cases hitem : item.copyFromOld
  · simpa [RsyncChainLink.appendPart, sourceBytes, hpart, hitem] using hnew
  · simpa [RsyncChainLink.appendPart, sourceBytes, hpart, hitem] using hold

/-- What the loop has done and what it still has to do: the pieces so far and the bytes of the rest
of the section are the bytes of the whole section. -/
structure Flattened (contents : Nat → List Byte) (allowed : ReconstructedPart → Prop)
    (bytes wanted : List Byte) (dst : List ReconstructedPart)
    (s : List ReconstructedPart × Nat × Nat) (pieces : List ReconstructedPart) : Prop where
  dst_eq : s.1 = dst ++ pieces
  bytes_eq : pieces.flatMap (ReconstructedPart.bytes contents) ++ (bytes.drop s.2.1).take s.2.2 =
    wanted
  allowed : ∀ p ∈ pieces, allowed p

variable {σ τ : Type} {link : RsyncChainLink σ τ} {old new : Reconstruction}

/-- One round: the loop ends, or the stream of a part appends pieces and the size gets less. -/
lemma Flattened.round (hold : Faithful contents allowed oldBytes old)
    (hnew : Faithful contents allowed newBytes new) (hfits : Fits oldBytes newBytes table)
    (hlink : link.parts = partsFrom 0 table) {wanted : List Byte}
    {dst : List ReconstructedPart} {s : List ReconstructedPart × Nat × Nat}
    {pieces : List ReconstructedPart}
    (h : Flattened contents allowed (reconstruct oldBytes newBytes table) wanted dst s pieces) :
    (∃ r, Parted.reconstructRound RsyncChainLink.Part.toPart RsyncChainLink.transformOffset
          (RsyncChainLink.appendPart old new) link s = .ok (.done r) ∧
        Flattened contents allowed (reconstruct oldBytes newBytes table) wanted dst (r, s.2.1, 0)
          pieces) ∨
      ∃ s' pieces', Parted.reconstructRound RsyncChainLink.Part.toPart
          RsyncChainLink.transformOffset (RsyncChainLink.appendPart old new) link s =
            .ok (.again s') ∧
        Flattened contents allowed (reconstruct oldBytes newBytes table) wanted dst s' pieces' ∧
        s'.2.2 < s.2.2 := by
  obtain ⟨dst', v, size⟩ := s
  obtain ⟨hdst, hbytes, hallowed⟩ := h
  simp only at hdst hbytes
  rw [Parted.reconstructRound]
  by_cases hsize : size = 0
  · subst hsize
    exact Or.inl ⟨dst', by simp [pure, Except.pure], hdst, hbytes, hallowed⟩
  rw [if_neg hsize]
  rcases Nat.lt_or_ge v (totalLength table) with hlt | hge
  · -- the offset lies in the span of a command
    obtain ⟨init, item, rest, rfl, hle, hlt⟩ := exists_span hlt
    rw [← totalLength_eq] at hle hlt
    have hmem : item ∈ init ++ item :: rest := List.mem_append_right _ List.mem_cons_self
    have hrange := hfits.in_range item hmem
    have htotal := hfits.total_lt
    rw [totalLength_eq, total_append, total_cons, ← totalLength_eq] at htotal
    have hpart := partsFrom_getElem? init rest item (by omega)
    rw [RsyncChainLink.transformOffset_of_span hfits hlink hle hlt]
    simp only [hlink, hpart]
    rw [subU64_of_le hle (by omega), subU64_of_le (by omega) (by omega),
      addU64_of_lt (by omega)]
    set consumed := min size (item.getLength - (v - totalLength init)) with hconsumed
    obtain ⟨pieces', happend, hpieces, hallowed'⟩ :=
      hold.appendPart hnew ⟨⟨item.fileOffset, totalLength init, item.getLength⟩,
        if item.copyFromOld then 0 else 1⟩ item rfl dst'
        (item.fileOffset + (v - totalLength init)) consumed (by omega)
    refine Or.inr ⟨(dst' ++ pieces', v + consumed, size - consumed), pieces ++ pieces', ?_,
      ⟨?_, ?_, fun p hp => ?_⟩, ?_⟩
    · rw [happend]
      rfl
    · rw [hdst, List.append_assoc]
    · have hsplit : size = consumed + (size - consumed) := by omega
      rw [← hbytes]
      conv_rhs => rw [hsplit, List.take_add, List.drop_drop,
        hfits.take_drop_reconstruct hle (n := consumed) (by omega), ← hpieces]
      rw [List.flatMap_append, List.append_assoc]
    · rcases List.mem_append.mp hp with hp | hp
      · exact hallowed p hp
      · exact hallowed' p hp
    · simp only
      omega
  · -- behind the last command
    rw [RsyncChainLink.transformOffset_of_ge hfits.length_pos hfits.total_lt hlink hge]
    refine Or.inl ⟨dst', rfl, hdst, ?_, hallowed⟩
    rw [← hbytes, List.drop_eq_nil_of_le (hfits.length_reconstruct.trans_le hge), List.take_nil,
      List.take_nil]

/-- The whole loop on a link. -/
lemma reconstructSection_of_fits (hold : Faithful contents allowed oldBytes old)
    (hnew : Faithful contents allowed newBytes new) (hfits : Fits oldBytes newBytes table)
    (hlink : link.parts = partsFrom 0 table) (dst : List ReconstructedPart) (v n : Nat) :
    ∃ pieces, link.reconstructSection old new dst v n = .ok (dst ++ pieces) ∧
      pieces.flatMap (ReconstructedPart.bytes contents) =
        ((reconstruct oldBytes newBytes table).drop v).take n ∧
      ∀ p ∈ pieces, allowed p := by
  obtain ⟨r, hloop, pieces, w, hend⟩ := loop_of_variant Fault.outOfFuel
    (fun s => ∃ pieces, Flattened contents allowed (reconstruct oldBytes newBytes table)
      (((reconstruct oldBytes newBytes table).drop v).take n) dst s pieces)
    (fun r => ∃ pieces w, Flattened contents allowed (reconstruct oldBytes newBytes table)
      (((reconstruct oldBytes newBytes table).drop v).take n) dst (r, w, 0) pieces)
    (fun s => s.2.2)
    (fun s hs => by
      obtain ⟨pieces, hpieces⟩ := hs
      rcases hpieces.round hold hnew hfits hlink with
        ⟨r, hround, hr⟩ | ⟨s', pieces', hround, hs', hlt⟩
      · exact Or.inl ⟨r, hround, pieces, s.2.1, hr⟩
      · exact Or.inr ⟨s', hround, ⟨pieces', hs'⟩, hlt⟩)
    (s := (dst, v, n)) ⟨[], by simp, by simp, by simp⟩ (Nat.lt_succ_self n)
  refine ⟨pieces, ?_, ?_, hend.allowed⟩
  · rw [RsyncChainLink.reconstructSection, hloop, show r = dst ++ pieces from hend.dst_eq]
  · have hbytes := hend.bytes_eq
    rwa [List.take_zero, List.append_nil] at hbytes

lemma Faithful.mono {bytes : List Byte} {reconstruction : Reconstruction}
    (h : Faithful contents allowed bytes reconstruction) (allowed' : ReconstructedPart → Prop)
    (himp : ∀ p, allowed p → allowed' p) : Faithful contents allowed' bytes reconstruction := by
  intro dst v n hrange
  obtain ⟨pieces, happend, hbytes, hallowed⟩ := h dst v n hrange
  exact ⟨pieces, happend, hbytes, fun p hp => himp p (hallowed p hp)⟩

/-- By induction on the chain: the two streams of a link are faithful, so it is faithful too. -/
lemma Chain.faithful {c : Chain} (h : c.WellFormed contents) :
    Faithful contents (c.Base contents) c.bytes c.reconstructSection := by
  induction c with
  | normal file =>
    intro dst v n hrange
    have hcontents : contents file.uniqueId = file.reader.file := h
    refine ⟨[⟨file.uniqueId, v, n⟩], rfl, ?_, fun p hp => ?_⟩
    · rw [List.flatMap_singleton, ReconstructedPart.bytes, hcontents]
      rfl
    · rw [List.mem_singleton.mp hp]
      exact ⟨List.mem_singleton_self _, by rw [hcontents]; exact hrange⟩
  | link old new table ihold ihnew =>
    obtain ⟨hold, hnew, hfits⟩ := h
    have hold' := (ihold hold).mono ((link old new table).Base contents)
      fun p hp => ⟨List.mem_append_left _ hp.1, hp.2⟩
    have hnew' := (ihnew hnew).mono ((link old new table).Base contents)
      fun p hp => ⟨List.mem_append_right _ hp.1, hp.2⟩
    intro dst v n _
    exact reconstructSection_of_fits hold' hnew' hfits
      (RsyncChainLink.parts_new () () hfits.total_lt) dst v n

/-- The flattening of a link over faithful streams ends, leaves the earlier pieces alone and appends
pieces of the allowed kind whose bytes are those of the section, as far as there are any. So a chain
of links over plain files is flattened to pieces of these files. -/
theorem reconstructSection_flattens :
    (∀ (σ τ : Type) (oldFile : σ) (newFile : τ) (contents : Nat → List Byte)
        (allowed : ReconstructedPart → Prop) (oldBytes newBytes : List Byte)
        (old new : Reconstruction) (table : List RsyncCommand) (link : RsyncChainLink σ τ),
      Faithful contents allowed oldBytes old → Faithful contents allowed newBytes new →
      Fits oldBytes newBytes table →
      link.parts = (RsyncChainLink.new oldFile newFile table).parts →
      ∀ dst v n, ∃ pieces, link.reconstructSection old new dst v n = .ok (dst ++ pieces) ∧
        pieces.flatMap (ReconstructedPart.bytes contents) =
          ((reconstruct oldBytes newBytes table).drop v).take (min n (totalLength table - v)) ∧
        ∀ p ∈ pieces, allowed p) ∧
    ∀ (contents : Nat → List Byte) (c : Chain), c.WellFormed contents →
      ∀ dst v n, v + n ≤ c.bytes.length →
        ∃ pieces, c.reconstructSection dst v n = .ok (dst ++ pieces) ∧
          pieces.flatMap (ReconstructedPart.bytes contents) = (c.bytes.drop v).take n ∧
          ∀ p ∈ pieces, c.Base contents p := by
  refine ⟨?_, fun contents c h => Chain.faithful h⟩
  intro σ τ oldFile newFile contents allowed oldBytes newBytes old new table link hold hnew hfits
    hlink dst v n
  rw [RsyncChainLink.parts_new oldFile newFile hfits.total_lt] at hlink
  obtain ⟨pieces, happend, hbytes, hallowed⟩ :=
    reconstructSection_of_fits hold hnew hfits hlink dst v n
  refine ⟨pieces, happend, ?_, hallowed⟩
  rw [hbytes, ← hfits.length_reconstruct, ← List.length_drop]
  exact List.take_eq_take_min

/-! ### A link over another one -/

def plainFile (uniqueId : Nat) (bytes : List Byte) : Chain :=
  .normal (NormalFile.new bytes ⟨fun _ => 1, fun _ => true⟩ uniqueId)

def takeOld (offset n : Nat) : RsyncCommand :=
  (RsyncCommand.setCopyFromOld ⟨offset, 0⟩ true).addLength n

def takeNew (offset n : Nat) : RsyncCommand :=
  (RsyncCommand.setCopyFromOld ⟨offset, 0⟩ false).addLength n

/-- Two bytes of the file before and a new one make a version. -/
def secondVersion : Chain :=
  .link (plainFile 1 [7, 8, 9]) (plainFile 2 [5]) [takeOld 1 2, takeNew 0 1]

/-- A new byte and two bytes of that version make another one. -/
def thirdVersion : Chain :=
  .link secondVersion (plainFile 3 [6]) [takeNew 0 1, takeOld 1 2]

def versionContents : Nat → List Byte
  | 1 => [7, 8, 9]
  | 2 => [5]
  | 3 => [6]
  | _ => []

lemma bytes_secondVersion : secondVersion.bytes = [8, 9, 5] := by decide

lemma fits_secondVersion : Fits [7, 8, 9] [5] [takeOld 1 2, takeNew 0 1] :=
  ⟨by decide, by decide, by norm_num, by norm_num, by decide⟩

lemma fits_thirdVersion : Fits [8, 9, 5] [6] [takeNew 0 1, takeOld 1 2] :=
  ⟨by decide, by decide, by norm_num, by norm_num, by decide⟩

lemma wellFormed_secondVersion : secondVersion.WellFormed versionContents :=
  ⟨rfl, rfl, fits_secondVersion⟩

lemma wellFormed_thirdVersion : thirdVersion.WellFormed versionContents :=
  ⟨wellFormed_secondVersion, rfl, bytes_secondVersion ▸ fits_thirdVersion⟩

/-- A section of a chain of two links takes bytes of two files; it may be longer than what the link
reconstructs. -/
theorem reconstructSection_thirdVersion :
    (∃ pieces, thirdVersion.reconstructSection [⟨5, 0, 3⟩] 1 2 = .ok ([⟨5, 0, 3⟩] ++ pieces) ∧
        pieces.flatMap (ReconstructedPart.bytes versionContents) = [9, 5] ∧
        ∀ p ∈ pieces, thirdVersion.Base versionContents p) ∧
      ∃ pieces, (RsyncChainLink.new () () [takeNew 0 1, takeOld 1 2]).reconstructSection
          secondVersion.reconstructSection (plainFile 3 [6]).reconstructSection [] 0 4 =
            .ok pieces ∧
        pieces.flatMap (ReconstructedPart.bytes versionContents) = [6, 9, 5] := by
  constructor
  · exact reconstructSection_flattens.2 versionContents thirdVersion wellFormed_thirdVersion _ 1 2
      (by decide)
  · obtain ⟨hold, hnew, hfits⟩ := wellFormed_thirdVersion
    obtain ⟨pieces, happend, hbytes, -⟩ := reconstructSection_flattens.1 Unit Unit () ()
      versionContents (fun _ => True) _ _ _ _ _ _
      ((Chain.faithful hold).mono _ fun _ _ => trivial)
      ((Chain.faithful hnew).mono _ fun _ _ => trivial) hfits rfl [] 0 4
    exact ⟨pieces, happend, hbytes⟩

end Rsync

end BackupProgram
