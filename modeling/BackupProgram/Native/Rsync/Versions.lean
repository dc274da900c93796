import BackupProgram.Native.FileComparer.Gathered
import BackupProgram.Native.Rsync.Reconstruct

/-!
# All versions of a file

A chain of links is built over the versions of a file, one link for every delta. The last command of
a delta may copy more than is left of the new file; but what it copies up to there is right, and
`reconstruct_section` asks for no more than that. So every section of the last version is flattened
to pieces of the versions, whatever the deltas are like.
-/

namespace BackupProgram

open RsyncableFile

/-! ### What the last command copies -/

section Trimmed

variable {sha1 : List Byte → Digest} {old new : File} {commands out : List RsyncCommand} {pos : Nat}

/-- The commands are `trimmed`, or their last one copies more than that of `trimmed`. -/
def Overshoots (trimmed out : List RsyncCommand) : Prop :=
  ∃ init last last', trimmed = init ++ [last] ∧ out = init ++ [last'] ∧
    last'.fileOffset = last.fileOffset ∧ last'.copyFromOld = last.copyFromOld ∧
    last.getLength ≤ last'.getLength

variable (sha1) in
/-- A copy of a short window: as much of it as there is continues the new file. -/
lemma Covers.trim (h : Covers old new commands pos) {fresh : Bool} {offset : Nat}
    (hready : Ready old new pos commands (.copy fresh offset)) (hpos : pos < new.size)
    (hend : new.size ≤ pos + old.blockSize) (hsize : new.size + old.blockSize < 2 ^ 63)
    (disk : DiskReads) :
    ∃ trimmed, Covers old new trimmed new.size ∧
      Overshoots trimmed
        (FileComparer.emitCopy (ofPath sha1 old disk) fresh offset commands) := by
  obtain ⟨⟨-, hoffset, hwindow⟩, hlast⟩ := hready
  obtain ⟨init, last, n, hset, hlastOffset, hbegin, hcovers⟩ := h.begin hoffset.le hlast
  have hsource : last.source old new = old := by
    rw [RsyncCommand.source, hset.copyFromOld, if_pos rfl]
  have hlength := congrArg List.length hwindow
  rw [File.length_window, File.length_window] at hlength
  have hle : pos + (new.size - pos) ≤ new.size := by omega
  have hbytes : old.window (new.size - pos) offset = new.window (new.size - pos) pos := by
    have htake := congrArg (List.take (new.size - pos)) hwindow
    rwa [File.window, File.window, List.take_take, List.take_take,
      Nat.min_eq_left (by omega)] at htake
  obtain ⟨hgrown, hcovers'⟩ := hcovers.grow (k := new.size - pos) hset hle
    (by rw [hsource, hlastOffset]; omega) (by rw [hsource, hlastOffset, hbytes])
  rw [Nat.add_sub_cancel' hpos.le] at hcovers'
  have hn : n ≤ pos := by
    have hsum := hcovers.sum_lengths
    rw [List.map_append, List.sum_append, List.map_singleton, List.sum_singleton,
      hset.getLength] at hsum
    omega
  have hset' := hset.addLength (k := old.blockSize) (by omega)
  refine ⟨_, hcovers', init, _, last.addLength old.blockSize, rfl, ?_, rfl, ?_, ?_⟩
  · rw [FileComparer.emitCopy, hbegin, List.modifyLast_concat, blockSize_ofPath]
  · rw [hset'.copyFromOld, hgrown.copyFromOld]
  · rw [hset'.getLength, hgrown.getLength]
    omega

/-- From a position on, the commands of the scan cover the new file, if not more. -/
lemma scan_covers (hsha1 : CollisionFree sha1 old new) (disk : DiskReads)
    (hsize : new.size + old.blockSize < 2 ^ 63) {mode : FileComparer.Mode}
    (h : FileComparer.Scan sha1 (ofPath sha1 old disk) new mode pos commands out)
    (hcovers : Covers old new commands pos) (hready : Ready old new pos commands mode)
    (hpos : pos < new.size) :
    ∃ trimmed, Covers old new trimmed new.size ∧ (trimmed = out ∨ Overshoots trimmed out) := by
  induction h with
  | @copyEnd fresh offset pos commands hend =>
    rw [blockSize_ofPath] at hend
    obtain ⟨trimmed, htrimmed, hover⟩ := hcovers.trim sha1 hready hpos hend hsize disk
    exact ⟨trimmed, htrimmed, Or.inr hover⟩
  | @copyNext fresh offset pos commands found out hlt hfinds _ ih =>
    rw [window_ofPath, blockSize_ofPath] at hfinds
    rw [blockSize_ofPath] at hlt ih
    obtain ⟨init, last, n, hset, hbegin, hemit, hgrow⟩ := hcovers.emitCopy hready disk
    obtain ⟨hset', hcovers'⟩ := hgrow hlt.le
    rw [hemit] at hfinds ih
    have hfound := finds_ofPath hsha1 disk hlt hfinds
    refine ih hcovers' ?_ hlt
    rcases found with _ | o
    · exact ⟨hfound, by simp⟩
    · refine ⟨hfound, fun hfresh => ⟨init, _, _, rfl, hset', ?_⟩⟩
      simp only [bne_eq_false_iff_eq, FileComparer.target, List.getLast?_append,
        List.getLast?_singleton, Option.some_or, Option.map_some, Option.getD_some,
        hset'.getLength] at hfresh
      exact hfresh.symm
  | @literalEnd fresh pos commands hend =>
    obtain ⟨init, last, n, -, -, hemit, hcovers'⟩ := hcovers.emitLiteral hready hpos
    rw [hend] at hcovers'
    rw [hemit]
    exact ⟨_, hcovers', Or.inl rfl⟩
  | @literalNext fresh pos commands found out hlt hfinds _ ih =>
    rw [window_ofPath] at hfinds
    obtain ⟨init, last, n, hset, hoffset, hemit, hcovers'⟩ := hcovers.emitLiteral hready hpos
    rw [hemit] at ih
    have hfound := finds_ofPath hsha1 disk hlt hfinds
    refine ih hcovers' ?_ hlt
    rcases found with _ | o
    · exact ⟨hfound, fun _ => ⟨init, last, n, rfl, hset, hoffset⟩⟩
    · exact ⟨hfound, by simp⟩

lemma delta_covers (hsha1 : CollisionFree sha1 old new) (disk : DiskReads)
    (hsize : new.size + old.blockSize < 2 ^ 63)
    (h : FileComparer.Delta sha1 (ofPath sha1 old disk) new out) :
    ∃ trimmed, Covers old new trimmed new.size ∧ (trimmed = out ∨ Overshoots trimmed out) := by
  have hcovers : Covers old new [] 0 := ⟨by simp, by simp, rfl, Nat.zero_le _⟩
  rw [FileComparer.Delta] at h
  split_ifs at h with hempty
  · rw [← hempty] at hcovers
    exact ⟨[], hcovers, Or.inl h.symm⟩
  · obtain ⟨found, hfinds, hscan⟩ := h
    rw [window_ofPath] at hfinds
    have hpos : 0 < new.size := Nat.pos_of_ne_zero hempty
    have hfound := finds_ofPath hsha1 disk hpos hfinds
    refine scan_covers hsha1 disk hsize hscan hcovers ?_ hpos
    rcases found with _ | o
    · exact ⟨hfound, by simp⟩
    · exact ⟨hfound, by simp⟩

end Trimmed

namespace Rsync

open Loops Spans

/-! ### Tables that render a file -/

/-- Within the span of a command and within `bytes` the command copies what stands in `bytes`. -/
structure RendersSpan (oldBytes newBytes bytes : List Byte) (init : List RsyncCommand)
    (item : RsyncCommand) : Prop where
  in_range : ∀ v n, totalLength init ≤ v → v + n ≤ totalLength init + item.getLength →
    v + n ≤ bytes.length → item.fileOffset + (v - totalLength init) + n ≤
      (sourceBytes oldBytes newBytes item).length
  bytes_eq : ∀ v n, totalLength init ≤ v → v + n ≤ totalLength init + item.getLength →
    v + n ≤ bytes.length → ((sourceBytes oldBytes newBytes item).drop
      (item.fileOffset + (v - totalLength init))).take n = (bytes.drop v).take n

/-- The table covers `bytes`, and all its commands copy what stands there. -/
structure Renders (oldBytes newBytes bytes : List Byte) (table : List RsyncCommand) : Prop where
  length_pos : ∀ item ∈ table, 0 < item.getLength
  offset_lt : ∀ item ∈ table, item.fileOffset + item.getLength < 2 ^ 64
  total_lt : totalLength table < 2 ^ 64
  covers : bytes.length ≤ totalLength table
  span : ∀ init item rest, table = init ++ item :: rest →
    RendersSpan oldBytes newBytes bytes init item

variable {contents : Nat → List Byte} {allowed : ReconstructedPart → Prop}
  {oldBytes newBytes bytes : List Byte} {table : List RsyncCommand}

/-- The table fits files that are long enough. -/
lemma Renders.exists_fits (h : Renders oldBytes newBytes bytes table) :
    ∃ long, Fits long long table := by
  refine ⟨List.replicate (2 ^ 64 - 1) 0, h.length_pos, fun item hitem => ?_, ?_, ?_, h.total_lt⟩
  · have hlt := h.offset_lt item hitem
    rw [sourceBytes, ite_self, List.length_replicate]
    omega
  · rw [List.length_replicate]
    norm_num
  · rw [List.length_replicate]
    norm_num

variable {σ τ : Type} {link : RsyncChainLink σ τ} {old new : Reconstruction}

/-- One round, within `bytes`: the loop ends, or a stream appends pieces and the size gets less. -/
lemma Flattened.renderRound (hold : Faithful contents allowed oldBytes old)
    (hnew : Faithful contents allowed newBytes new)
    (hrenders : Renders oldBytes newBytes bytes table) (hlink : link.parts = partsFrom 0 table)
    {wanted : List Byte} {dst dst' : List ReconstructedPart} {v size : Nat}
    {pieces : List ReconstructedPart}
    (h : Flattened contents allowed bytes wanted dst (dst', v, size) pieces)
    (hrange : v + size ≤ bytes.length) :
    (size = 0 ∧ Parted.reconstructRound RsyncChainLink.Part.toPart RsyncChainLink.transformOffset
        (RsyncChainLink.appendPart old new) link (dst', v, size) = .ok (.done dst')) ∨
      ∃ consumed pieces', 0 < consumed ∧ consumed ≤ size ∧
        Parted.reconstructRound RsyncChainLink.Part.toPart RsyncChainLink.transformOffset
          (RsyncChainLink.appendPart old new) link (dst', v, size) =
            .ok (.again (dst' ++ pieces', v + consumed, size - consumed)) ∧
        Flattened contents allowed bytes wanted dst (dst' ++ pieces', v + consumed, size - consumed)
          (pieces ++ pieces') := by
  obtain ⟨hdst, hbytes, hallowed⟩ := h
  simp only at hdst hbytes
  rw [Parted.reconstructRound]
  by_cases hsize : size = 0
  · refine Or.inl ⟨hsize, ?_⟩
    rw [if_pos hsize]
    rfl
  rw [if_neg hsize]
  have hv : v < totalLength table := by
    have hcovers := hrenders.covers
    omega
  obtain ⟨init, item, rest, rfl, hle, hlt⟩ := exists_span hv
  rw [← totalLength_eq] at hle hlt
  obtain ⟨long, hfits⟩ := hrenders.exists_fits
  have hoffset := hrenders.offset_lt item (List.mem_append_right _ List.mem_cons_self)
  have htotal := hrenders.total_lt
  rw [totalLength_eq, total_append, total_cons, ← totalLength_eq] at htotal
  have hpart := partsFrom_getElem? init rest item (by omega)
  rw [RsyncChainLink.transformOffset_of_span hfits hlink hle hlt]
  simp only [hlink, hpart]
  rw [subU64_of_le hle (by omega), subU64_of_le (by omega) (by omega)]
  set consumed := min size (item.getLength - (v - totalLength init)) with hconsumed
  rw [addU64_of_lt (show v + consumed < 2 ^ 64 by omega)]
  have hspan := hrenders.span init item rest rfl
  obtain ⟨pieces', happend, hpieces, hallowed'⟩ :=
    hold.appendPart hnew ⟨⟨item.fileOffset, totalLength init, item.getLength⟩,
      if item.copyFromOld then 0 else 1⟩ item rfl dst'
      (item.fileOffset + (v - totalLength init)) consumed
      (hspan.in_range v consumed hle (by omega) (by omega))
  refine Or.inr ⟨consumed, pieces', by omega, by omega, ?_, ?_, ?_, fun p hp => ?_⟩
  · rw [happend]
    rfl
  · simp only
    rw [hdst, List.append_assoc]
  · have hsplit : size = consumed + (size - consumed) := by omega
    rw [← hbytes]
    conv_rhs => rw [hsplit, List.take_add, List.drop_drop,
      ← hspan.bytes_eq v consumed hle (by omega) (by omega), ← hpieces]
    rw [List.flatMap_append, List.append_assoc]
  · rcases List.mem_append.mp hp with hp | hp
    · exact hallowed p hp
    · exact hallowed' p hp

/-- A link over faithful streams is faithful to what its table renders. -/
lemma faithful_of_renders (hold : Faithful contents allowed oldBytes old)
    (hnew : Faithful contents allowed newBytes new)
    (hrenders : Renders oldBytes newBytes bytes table) (hlink : link.parts = partsFrom 0 table) :
    Faithful contents allowed bytes (link.reconstructSection old new) := by
  intro dst v n hrange
  obtain ⟨r, hloop, pieces, hend⟩ := loop_of_variant Fault.outOfFuel
    (fun s => s.2.1 + s.2.2 ≤ bytes.length ∧
      ∃ pieces, Flattened contents allowed bytes ((bytes.drop v).take n) dst s pieces)
    (fun r => ∃ pieces, r = dst ++ pieces ∧
      pieces.flatMap (ReconstructedPart.bytes contents) = (bytes.drop v).take n ∧
      ∀ p ∈ pieces, allowed p)
    (fun s => s.2.2)
    (fun s hs => by
      obtain ⟨dst', w, size⟩ := s
      obtain ⟨hs, pieces, hpieces⟩ := hs
      rcases hpieces.renderRound hold hnew hrenders hlink hs with
        ⟨hzero, hround⟩ | ⟨consumed, pieces', hpos, hle, hround, hflat⟩
      · subst hzero
        have hbytes := hpieces.bytes_eq
        rw [List.take_zero, List.append_nil] at hbytes
        exact Or.inl ⟨dst', hround, pieces, hpieces.dst_eq, hbytes, hpieces.allowed⟩
      · refine Or.inr ⟨_, hround, ⟨?_, _, hflat⟩, ?_⟩
        · simp only at hs ⊢
          omega
        · simp only
          omega)
    (s := (dst, v, n)) ⟨hrange, [], by simp, by simp, by simp⟩ (Nat.lt_succ_self n)
  obtain ⟨hr, hbytes, hallowed⟩ := hend
  refine ⟨pieces, ?_, hbytes, hallowed⟩
  rw [RsyncChainLink.reconstructSection, hloop, hr]

/-! ### Deltas render -/

section Deltas

variable {sha1 : List Byte → Digest} {old new : File} {trimmed out : List RsyncCommand}

lemma sourceBytes_eq (old new : File) (c : RsyncCommand) :
    sourceBytes old.bytes new.bytes c = (c.source old new).bytes := by
  rw [sourceBytes, RsyncCommand.source]
  split_ifs
  · rfl
  · rfl

/-- Commands that cover the new file copy in every span what stands there. -/
lemma rendersSpan_of_covers {init rest : List RsyncCommand} {item : RsyncCommand}
    (h : Covers old new (init ++ item :: rest) new.size) :
    RendersSpan old.bytes new.bytes new.bytes init item := by
  have hitem : item ∈ init ++ item :: rest := List.mem_append_right _ List.mem_cons_self
  have hrange := h.in_range item hitem
  have hlength : ∀ c ∈ init ++ item :: rest,
      ((c.source old new).window c.getLength c.fileOffset).length = c.getLength := by
    intro c hc
    have hle := h.in_range c hc
    rw [File.length_window]
    omega
  have hbytes : new.bytes = (init ++ item :: rest).flatMap
      fun c => (c.source old new).window c.getLength c.fileOffset := by
    rw [List.flatMap_def, h.reproduces, File.size, List.take_length]
  refine ⟨fun v n hle hlt _ => ?_, fun v n hle hlt _ => ?_⟩
  · rw [sourceBytes_eq, ← File.size]
    omega
  · rw [sourceBytes_eq, hbytes, take_drop_flatMap hlength hle hlt, ← totalLength_eq, File.window,
      List.drop_take, List.take_take, List.drop_drop, Nat.min_eq_left (by omega)]

/-- A command may be longer if it is the last one anyway. -/
lemma RendersSpan.lengthen {oldBytes newBytes bytes : List Byte} {init : List RsyncCommand}
    {last last' : RsyncCommand} (h : RendersSpan oldBytes newBytes bytes init last)
    (hend : bytes.length ≤ totalLength init + last.getLength)
    (hoffset : last'.fileOffset = last.fileOffset) (hfrom : last'.copyFromOld = last.copyFromOld) :
    RendersSpan oldBytes newBytes bytes init last' := by
  have hsource : sourceBytes oldBytes newBytes last' = sourceBytes oldBytes newBytes last := by
    rw [sourceBytes, sourceBytes, hfrom]
  refine ⟨fun v n hle _ hrange => ?_, fun v n hle _ hrange => ?_⟩
  · rw [hsource, hoffset]
    exact h.in_range v n hle (hrange.trans hend) hrange
  · rw [hsource, hoffset]
    exact h.bytes_eq v n hle (hrange.trans hend) hrange

lemma rendersSpan_of_overshoots (h : Covers old new trimmed new.size)
    (hover : trimmed = out ∨ Overshoots trimmed out) {init rest : List RsyncCommand}
    {item : RsyncCommand} (heq : out = init ++ item :: rest) :
    RendersSpan old.bytes new.bytes new.bytes init item := by
  rcases hover with rfl | ⟨before, last, last', rfl, rfl, hoffset, hfrom, -⟩
  · subst heq
    exact rendersSpan_of_covers h
  · rcases List.eq_nil_or_concat rest with rfl | ⟨rest, b, rfl⟩
    · -- the command is the last one
      obtain ⟨rfl, hlast⟩ := List.append_inj' heq rfl
      obtain rfl := List.singleton_inj.mp hlast
      refine (rendersSpan_of_covers h).lengthen ?_ hoffset hfrom
      have htotal := h.sum_lengths
      rw [List.map_append, List.sum_append, List.map_singleton, List.sum_singleton] at htotal
      exact htotal.ge
    · rw [List.concat_eq_append, ← List.cons_append, ← List.append_assoc] at heq
      obtain rfl := List.append_inj_left' heq rfl
      rw [List.append_assoc, List.cons_append] at h
      exact rendersSpan_of_covers h

/-- Every command of a delta has a length, and together they are less than a block longer than the
new file. -/
lemma delta_lengths {digest : RsyncableFile} (hblock : 0 < digest.blockSize)
    (hsize : new.size + digest.blockSize < 2 ^ 63) (h : FileComparer.Delta sha1 digest new out) :
    (∀ item ∈ out, 0 < item.getLength) ∧ totalLength out < 2 ^ 63 := by
  obtain ⟨final, segments, ⟨rfl, hcanonical, hsum⟩, hlt⟩ := delta_segmented hblock h
  have hlength : ∀ s ∈ segments, s.command.getLength = s.size := by
    intro s hs
    have hle : s.size ≤ (segments.map Segment.size).sum :=
      List.le_sum_of_mem (List.mem_map_of_mem hs)
    exact (Segment.says_command (by omega)).getLength
  constructor
  · intro item hitem
    obtain ⟨s, hs, rfl⟩ := List.mem_map.mp hitem
    rw [hlength s hs]
    exact hcanonical.size_pos s hs
  · have hsizes : totalLength (segments.map Segment.command) = (segments.map Segment.size).sum := by
      rw [totalLength, List.map_map]
      exact congrArg List.sum (List.map_congr_left hlength)
    omega

/-- The delta of a file renders it, whether or not its last command is too long. -/
lemma delta_renders (hsha1 : CollisionFree sha1 old new) (disk : DiskReads)
    (hsize : new.size + old.blockSize < 2 ^ 63)
    (h : FileComparer.Delta sha1 (ofPath sha1 old disk) new out) :
    Renders old.bytes new.bytes new.bytes out := by
  obtain ⟨hpos, htotal⟩ := delta_lengths
    (by rw [blockSize_ofPath]; exact old.blockSize_pos) (by rwa [blockSize_ofPath]) h
  obtain ⟨trimmed, hcovers, hover⟩ := delta_covers hsha1 disk hsize h
  have hsource : ∀ c : RsyncCommand, (c.source old new).size < 2 ^ 63 :=
    fun c => (c.source old new).length_lt
  have hoffset : ∀ item ∈ out, item.fileOffset < 2 ^ 63 := by
    intro item hitem
    rcases hover with rfl | ⟨init, last, last', rfl, rfl, hlast, -, -⟩
    · have hle := hcovers.in_range item hitem
      have hlt := hsource item
      omega
    · rcases List.mem_append.mp hitem with hmem | hmem
      · have hle := hcovers.in_range item (List.mem_append_left _ hmem)
        have hlt := hsource item
        omega
      · have hle := hcovers.in_range last (List.mem_append_right _ (List.mem_singleton_self _))
        have hlt := hsource last
        rw [List.mem_singleton.mp hmem, hlast]
        omega
  refine ⟨hpos, fun item hitem => ?_, htotal.trans (by norm_num), ?_,
    fun init item rest heq => rendersSpan_of_overshoots hcovers hover heq⟩
  · have hlt : item.getLength ≤ totalLength out :=
      List.le_sum_of_mem (List.mem_map_of_mem hitem)
    have hitem' := hoffset item hitem
    omega
  · have hsum := hcovers.sum_lengths
    rcases hover with rfl | ⟨init, last, last', rfl, rfl, -, -, hle⟩
    · exact hsum.ge
    · rw [List.map_append, List.sum_append, List.map_singleton, List.sum_singleton] at hsum
      rw [totalLength, List.map_append, List.sum_append, List.map_singleton, List.sum_singleton]
      change new.size ≤ _
      omega

end Deltas

/-! ### Chains over all versions -/

/-- The chain over the versions of a file: each link is over the chain so far and the next
version. -/
def versionChain : Chain → Nat → List FileVersion → List (List RsyncCommand) → Chain
  | chain, id, version :: versions, table :: tables =>
    versionChain (.link chain (.normal (NormalFile.new version.file.bytes version.disk id)) table)
      (id + 1) versions tables
  | chain, _, _, _ => chain

/-- The contents of the version with an identifier. -/
def versionBytes (versions : List FileVersion) (id : Nat) : List Byte :=
  (versions[id]?.map fun version => version.file.bytes).getD []

/-- The piece lies in one of the versions. -/
def InVersions (versions : List FileVersion) (p : ReconstructedPart) : Prop :=
  ∃ version, versions[p.source]? = some version ∧ p.offsetInSource + p.size ≤ version.file.size

variable {sha1 : List Byte → Digest} {fuel : Nat}

/-- A version as a plain file. -/
lemma faithful_version {versions : List FileVersion} {id : Nat} {version : FileVersion}
    (h : versions[id]? = some version) :
    Faithful (versionBytes versions) (InVersions versions) version.file.bytes
      (Chain.normal (NormalFile.new version.file.bytes version.disk id)).reconstructSection := by
  have hbytes : versionBytes versions id = version.file.bytes := by
    rw [versionBytes, h]
    rfl
  have hwell : (Chain.normal (NormalFile.new version.file.bytes version.disk id)).WellFormed
      (versionBytes versions) := hbytes
  refine (Chain.faithful hwell).mono _ fun p hp => ?_
  obtain ⟨hsource, hrange⟩ := hp
  rw [List.mem_singleton.mp hsource] at hrange
  refine ⟨version, ?_, ?_⟩
  · rw [List.mem_singleton.mp hsource]
    exact h
  · rwa [show (NormalFile.new version.file.bytes version.disk id).uniqueId = id from rfl,
      hbytes] at hrange

/-- What is asked of two successive versions: no window collides with a block, and lengths do not
run into the flag. -/
structure Comparable (sha1 : List Byte → Digest) (old new : FileVersion) : Prop where
  collisionFree : CollisionFree sha1 old.file new.file
  emptyApart : EmptyApart sha1 old.file new.file
  size_lt : new.file.size + old.file.blockSize < 2 ^ 63

/-- By induction over the versions: the chain up to a version is faithful to it, and so is the link
of the delta to the next one. -/
lemma faithful_versionChain {init versions : List FileVersion} {old : FileVersion}
    {digest : RsyncableFile} {chain : Chain} (hgood : GoodDigest sha1 digest old)
    (hchain : Faithful (versionBytes (init ++ old :: versions))
      (InVersions (init ++ old :: versions)) old.file.bytes chain.reconstructSection)
    (hcomparable : (old :: versions).IsChain (Comparable sha1))
    (hfuel : ∀ version ∈ versions, version.file.size + 3 ≤ fuel) :
    ∃ tables, deltas sha1 fuel digest versions = some tables ∧
      Faithful (versionBytes (init ++ old :: versions)) (InVersions (init ++ old :: versions))
        (versions.getLastD old).file.bytes
        (versionChain chain (init.length + 1) versions tables).reconstructSection := by
  induction versions generalizing init old digest chain with
  | nil => exact ⟨[], rfl, hchain⟩
  | cons version versions ih =>
    obtain ⟨hfirst, hrest⟩ := List.isChain_cons_cons.mp hcomparable
    obtain ⟨hversion, hversions⟩ := List.forall_mem_cons.mp hfuel
    obtain ⟨c, hprocess, hdelta, hgood'⟩ := hgood.process hfirst.emptyApart hversion
    have hrenders := delta_renders hfirst.collisionFree old.disk hfirst.size_lt hdelta
    have hnew := faithful_version
      (show (init ++ old :: version :: versions)[init.length + 1]? = some version by simp)
    have hlink : Faithful _ _ _ (Chain.link chain (.normal (NormalFile.new version.file.bytes
        version.disk (init.length + 1))) c.result).reconstructSection :=
      faithful_of_renders hchain hnew hrenders
        (RsyncChainLink.parts_new () () hrenders.total_lt)
    rw [List.append_cons] at hlink ⊢
    obtain ⟨tables, hdeltas, hfaithful⟩ := ih hgood' hlink hrest hversions
    refine ⟨c.result :: tables, ?_, ?_⟩
    · rw [deltas, hprocess]
      simp only [Option.bind_eq_bind, Option.bind_some, hdeltas]
      rfl
    · rw [List.getLastD_cons, versionChain]
      rwa [List.length_append] at hfaithful

/-- Compare every version of a file with the one before it, each time with the digest that has been
gathered, and chain up the deltas: any section of the last version is flattened to pieces of the
versions whose bytes are those of the section. -/
theorem versions_reconstructed (first : FileVersion) {versions : List FileVersion}
    (hcomparable : (first :: versions).IsChain (Comparable sha1))
    (hfuel : ∀ version ∈ versions, version.file.size + 3 ≤ fuel) :
    ∃ tables, deltas sha1 fuel (ofPath sha1 first.file first.disk) versions = some tables ∧
      ∀ dst v n, v + n ≤ (versions.getLastD first).file.size →
        ∃ pieces, (versionChain (.normal (NormalFile.new first.file.bytes first.disk 0)) 1 versions
            tables).reconstructSection dst v n = .ok (dst ++ pieces) ∧
          pieces.flatMap (ReconstructedPart.bytes (versionBytes (first :: versions))) =
            ((versions.getLastD first).file.bytes.drop v).take n ∧
          ∀ p ∈ pieces, InVersions (first :: versions) p :=
  faithful_versionChain (goodDigest_ofPath sha1 first)
    (faithful_version (show ([] ++ first :: versions)[0]? = some first from rfl)) hcomparable hfuel

lemma comparable_zeroFile :
    Comparable sha1OfZero ⟨zeroFile, wholeReads⟩ ⟨zeroFile, wholeReads⟩ where
  collisionFree := by
    intro block hblock pos hpos _ _
    rw [blocks_zeroFile, List.mem_singleton] at hblock
    rw [hblock, Nat.lt_one_iff.mp hpos, blockSize_zeroFile]
    rfl
  emptyApart := by
    intro pos hpos _
    rw [Nat.lt_one_iff.mp hpos]
    decide
  size_lt := by
    rw [blockSize_zeroFile]
    decide

/-- A file of one byte that does not change: the only command copies a whole block, but the section
is the byte. -/
theorem versions_reconstructed_zeroFile :
    ∃ tables pieces, deltas sha1OfZero 4 (ofPath sha1OfZero zeroFile wholeReads)
        [⟨zeroFile, wholeReads⟩] = some tables ∧
      (versionChain (.normal (NormalFile.new [0] wholeReads 0)) 1 [⟨zeroFile, wholeReads⟩]
        tables).reconstructSection [] 0 1 = .ok pieces ∧
      pieces.flatMap (ReconstructedPart.bytes (versionBytes
        [⟨zeroFile, wholeReads⟩, ⟨zeroFile, wholeReads⟩])) = [0] := by
  obtain ⟨tables, hdeltas, hsections⟩ := versions_reconstructed ⟨zeroFile, wholeReads⟩
    (.cons_cons comparable_zeroFile (.singleton _))
    (show ∀ version ∈ [(⟨zeroFile, wholeReads⟩ : FileVersion)], version.file.size + 3 ≤ 4 by decide)
  obtain ⟨pieces, hpieces, hbytes, -⟩ := hsections [] 0 1 (by decide)
  exact ⟨tables, pieces, hdeltas, hpieces, hbytes⟩

end Rsync

end BackupProgram
