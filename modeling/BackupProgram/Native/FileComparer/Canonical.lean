import BackupProgram.Native.FileComparer.Delta

/-!
# Delta lists are canonical

The commands of a delta are the maximal segments of the scan: a segment grows as long as the scan
goes on in the same file and, in the old file, at the same place. A command is given by its history,
that is by the flag it was pushed with and by the total of the lengths that were added to it.
-/

namespace BackupProgram

/-! ### Canonical lists of segments -/

section Canonical

variable {α β : Type*} (fromOld : α → Bool) (offset size : α → Nat)

/-- The two cannot be one segment. -/
structure Separate (a b : α) : Prop where
  fromOld_or : fromOld a = true ∨ fromOld b = true
  not_contiguous : ¬ (fromOld a = true ∧ fromOld b = true ∧ offset b = offset a + size a)

structure Canonical (l : List α) : Prop where
  size_pos : ∀ a ∈ l, 0 < size a
  isChain : l.IsChain (Separate fromOld offset size)
  offset_eq : ∀ init a rest, l = init ++ a :: rest → fromOld a = false →
    offset a = (init.map size).sum

variable {fromOld offset size}

lemma Canonical.append_singleton {l : List α} {a : α} (h : Canonical fromOld offset size l)
    (hsize : 0 < size a) (hlast : ∀ last ∈ l.getLast?, Separate fromOld offset size last a)
    (hoffset : fromOld a = false → offset a = (l.map size).sum) :
    Canonical fromOld offset size (l ++ [a]) := by
  refine ⟨fun b hb => ?_, ?_, fun init b rest heq hnew => ?_⟩
  · rcases List.mem_append.mp hb with hb | hb
    · exact h.size_pos b hb
    · rwa [List.mem_singleton.mp hb]
  · refine h.isChain.append (List.isChain_singleton a) fun last hmem b hb => ?_
    rw [List.head?_cons, Option.mem_some_iff] at hb
    exact hb ▸ hlast last hmem
  · rcases List.eq_nil_or_concat rest with rfl | ⟨rest, b', rfl⟩
    · obtain ⟨rfl, hba⟩ := List.append_inj' heq rfl
      rw [List.singleton_inj] at hba
      exact hba ▸ hoffset (hba ▸ hnew)
    · rw [List.concat_eq_append, ← List.cons_append, ← List.append_assoc] at heq
      exact h.offset_eq init b rest (List.append_inj_left' heq rfl) hnew

lemma Canonical.init {l : List α} {a : α} (h : Canonical fromOld offset size (l ++ [a])) :
    Canonical fromOld offset size l := by
  refine ⟨fun b hb => h.size_pos b (List.mem_append_left _ hb), h.isChain.left_of_append,
    fun init b rest heq => h.offset_eq init b (rest ++ [a]) ?_⟩
  rw [heq, List.append_assoc, List.cons_append]

/-- The size of the last segment is of no account to the segments before it. -/
lemma Canonical.replace_last {l : List α} {a b : α} (h : Canonical fromOld offset size (l ++ [a]))
    (hfrom : fromOld b = fromOld a) (hoffset : offset b = offset a) (hsize : 0 < size b) :
    Canonical fromOld offset size (l ++ [b]) := by
  refine h.init.append_singleton hsize (fun last hmem => ?_) fun hnew => ?_
  · obtain ⟨hor, hnot⟩ := (List.isChain_append.mp h.isChain).2.2 last hmem a rfl
    rw [← hfrom] at hor hnot
    exact ⟨hor, hoffset ▸ hnot⟩
  · rw [hoffset]
    exact h.offset_eq l a [] rfl (hfrom ▸ hnew)

/-- Canonicity is about the three values of each element only. -/
lemma Canonical.map {fromOld' : β → Bool} {offset' size' : β → Nat} {l : List α} (f : α → β)
    (h : Canonical fromOld offset size l) (hfrom : ∀ a ∈ l, fromOld' (f a) = fromOld a)
    (hoffset : ∀ a ∈ l, offset' (f a) = offset a) (hsize : ∀ a ∈ l, size' (f a) = size a) :
    Canonical fromOld' offset' size' (l.map f) := by
  refine ⟨fun b hb => ?_, ?_, fun init b rest heq hnew => ?_⟩
  · obtain ⟨a, ha, rfl⟩ := List.mem_map.mp hb
    rw [hsize a ha]
    exact h.size_pos a ha
  · rw [List.isChain_map]
    refine h.isChain.imp_of_mem_imp fun a b ha hb hab => ?_
    obtain ⟨hor, hnot⟩ := hab
    refine ⟨?_, ?_⟩
    · rwa [hfrom a ha, hfrom b hb]
    · rwa [hfrom a ha, hfrom b hb, hoffset a ha, hoffset b hb, hsize a ha]
  · obtain ⟨init, tail, rfl, rfl, htail⟩ := List.map_eq_append_iff.mp heq
    obtain ⟨a, rest, rfl, rfl, rfl⟩ := List.map_eq_cons_iff.mp htail
    have ha : a ∈ init ++ a :: rest := List.mem_append_right _ List.mem_cons_self
    rw [hfrom a ha] at hnew
    rw [hoffset a ha, h.offset_eq init a rest rfl hnew, List.map_map]
    refine congrArg List.sum (List.map_congr_left fun b hb => ?_)
    exact (hsize b (List.mem_append_left _ hb)).symm

end Canonical

/-! ### Segments and their commands -/

/-- The history of a command: it is pushed with the flag `fromOld` and grows by `size` in all. -/
structure Segment where
  fromOld : Bool
  offset : Nat
  size : Nat

namespace Segment

def command (s : Segment) : RsyncCommand :=
  (RsyncCommand.setCopyFromOld ⟨s.offset, 0⟩ s.fromOld).addLength s.size

@[simp] lemma fileOffset_command (s : Segment) : s.command.fileOffset = s.offset := by
  rcases s with ⟨_ | _, offset, size⟩ <;> rfl

/-- The flag of a command and its length do not disturb each other below `2 ^ 63`. -/
lemma says_command {s : Segment} (h : s.size < 2 ^ 63) : s.command.Says s.fromOld s.size := by
  have hsays := (RsyncCommand.says_setCopyFromOld s.offset s.fromOld).addLength (k := s.size)
    (by omega)
  rwa [Nat.zero_add] at hsays

lemma command_addLength (s : Segment) (k : Nat) :
    s.command.addLength k = command { s with size := s.size + k } := by
  simp only [command, RsyncCommand.addLength, BitVec.ofNat_add, BitVec.add_assoc]

end Segment

abbrev CanonicalSegments (segments : List Segment) : Prop :=
  Canonical Segment.fromOld Segment.offset Segment.size segments

/-- The canonical list behind the commands that have been emitted up to `pos`. -/
structure Segmented (pos : Nat) (commands : List RsyncCommand) (segments : List Segment) :
    Prop where
  commands_eq : commands = segments.map Segment.command
  canonical : CanonicalSegments segments
  sum_eq : (segments.map Segment.size).sum = pos

variable {sha1 : List Byte → Digest} {oldFile : RsyncableFile} {new : File} {pos : Nat}
  {commands : List RsyncCommand} {segments : List Segment}

lemma Segmented.size_le {init : List Segment} {last : Segment}
    (h : Segmented pos commands (init ++ [last])) : last.size ≤ pos := by
  rw [← h.sum_eq, List.map_append, List.sum_append]
  exact Nat.le_add_left _ _

/-- Either a new segment of `k` bytes, or the last one grows by `k`. -/
lemma Segmented.emit (h : Segmented pos commands segments) {fresh fromOld : Bool} {offset k : Nat}
    (hk : 0 < k) (hoffset : fromOld = false → offset = pos)
    (hgrow : fresh = false → ∃ init last, segments = init ++ [last] ∧ last.fromOld = fromOld)
    (hpush : fresh = true → ∀ last ∈ segments.getLast?,
      Separate Segment.fromOld Segment.offset Segment.size last ⟨fromOld, offset, k⟩) :
    ∃ init last, last.fromOld = fromOld ∧
      Segmented (pos + k)
        ((if fresh then commands ++ [RsyncCommand.setCopyFromOld ⟨offset, 0⟩ fromOld]
          else commands).modifyLast (·.addLength k)) (init ++ [last]) := by
  cases fresh with
  | true =>
    refine ⟨segments, ⟨fromOld, offset, k⟩, rfl, ?_, ?_, ?_⟩
    · rw [if_pos rfl, List.modifyLast_concat, h.commands_eq, List.map_append]
      rfl
    · exact h.canonical.append_singleton hk (hpush rfl)
        fun hnew => (hoffset hnew).trans h.sum_eq.symm
    · rw [List.map_append, List.sum_append, h.sum_eq]
      simp
  | false =>
    obtain ⟨init, last, rfl, rfl⟩ := hgrow rfl
    refine ⟨init, { last with size := last.size + k }, rfl, ?_, ?_, ?_⟩
    · rw [if_neg Bool.false_ne_true, h.commands_eq, List.map_append, List.map_singleton,
        List.modifyLast_concat, Segment.command_addLength, List.map_append, List.map_singleton]
    · exact h.canonical.replace_last rfl rfl (Nat.add_pos_right _ hk)
    · rw [← h.sum_eq]
      simp [Nat.add_assoc]

/-- Where the next bytes of the last segment are in the old file. -/
lemma Segmented.target_eq {init : List Segment} {last : Segment}
    (h : Segmented pos commands (init ++ [last])) (hpos : pos < 2 ^ 63) :
    FileComparer.target commands = last.offset + last.size := by
  have hsays := Segment.says_command (h.size_le.trans_lt hpos)
  rw [FileComparer.target, h.commands_eq, List.map_append, List.map_singleton,
    List.getLast?_concat, Option.map_some, Option.getD_some, Segment.fileOffset_command,
    hsays.getLength]

/-! ### The scan -/

/-- What each mode of the scan says of the last segment. -/
def Joined (segments : List Segment) : FileComparer.Mode → Prop
  | .copy false _ => ∃ init last, segments = init ++ [last] ∧ last.fromOld = true
  | .copy true offset => ∀ last ∈ segments.getLast?,
      ¬ (last.fromOld = true ∧ offset = last.offset + last.size)
  | .literal false => ∃ init last, segments = init ++ [last] ∧ last.fromOld = false
  | .literal true => ∀ last ∈ segments.getLast?, last.fromOld = true

lemma Segmented.emitCopy (h : Segmented pos commands segments) (hblock : 0 < oldFile.blockSize)
    {fresh : Bool} {offset : Nat} (hjoined : Joined segments (.copy fresh offset)) :
    ∃ init last, last.fromOld = true ∧
      Segmented (pos + oldFile.blockSize) (FileComparer.emitCopy oldFile fresh offset commands)
        (init ++ [last]) := by
  refine h.emit hblock (fun hnew => absurd hnew.symm Bool.false_ne_true) (fun hfresh => ?_)
    fun hfresh last hmem => ?_
  · subst hfresh
    exact hjoined
  · subst hfresh
    exact ⟨Or.inr rfl, fun hand => hjoined last hmem ⟨hand.1, hand.2.2⟩⟩

lemma Segmented.emitLiteral (h : Segmented pos commands segments) {fresh : Bool}
    (hjoined : Joined segments (.literal fresh)) :
    ∃ init last, last.fromOld = false ∧
      Segmented (pos + 1) (FileComparer.emitLiteral fresh pos commands) (init ++ [last]) := by
  refine h.emit Nat.one_pos (fun _ => rfl) (fun hfresh => ?_) fun hfresh last hmem => ?_
  · subst hfresh
    exact hjoined
  · subst hfresh
    exact ⟨Or.inl (hjoined last hmem), fun hand => Bool.false_ne_true hand.2.1⟩

/-- After a copy the search prefers the continuation of the last segment, so that what is found
elsewhere is not contiguous to it. -/
lemma Segmented.joined_modeAfterCopy {init : List Segment} {last : Segment}
    (h : Segmented pos commands (init ++ [last])) (hpos : pos < 2 ^ 63)
    (hlast : last.fromOld = true) (found : Option Nat) :
    Joined (init ++ [last])
      (FileComparer.modeAfterCopy (FileComparer.target commands) found) := by
  rw [h.target_eq hpos]
  rcases found with _ | offset
  · intro b hb
    rw [List.getLast?_concat, Option.mem_some_iff] at hb
    exact hb ▸ hlast
  · rw [FileComparer.modeAfterCopy]
    by_cases hoffset : offset = last.offset + last.size
    · rw [hoffset, bne_self_eq_false]
      exact ⟨init, last, rfl, hlast⟩
    · rw [bne_iff_ne.mpr hoffset]
      intro b hb
      rw [List.getLast?_concat, Option.mem_some_iff] at hb
      subst hb
      exact fun hand => hoffset hand.2

lemma joined_modeAfterLiteral {init : List Segment} {last : Segment} (hlast : last.fromOld = false)
    (found : Option Nat) :
    Joined (init ++ [last]) (FileComparer.modeAfterLiteral false found) := by
  rcases found with _ | offset
  · exact ⟨init, last, rfl, hlast⟩
  · intro b hb
    rw [List.getLast?_concat, Option.mem_some_iff] at hb
    subst hb
    rw [hlast]
    exact fun hand => Bool.false_ne_true hand.1

/-- From a position on, the scan keeps the list canonical; its last copy may go beyond the end of
the new file by less than a block. -/
lemma scan_segmented (hblock : 0 < oldFile.blockSize) {mode : FileComparer.Mode}
    {out : List RsyncCommand} (h : FileComparer.Scan sha1 oldFile new mode pos commands out)
    (hsegmented : Segmented pos commands segments) (hjoined : Joined segments mode)
    (hpos : pos < new.size) :
    ∃ final segments', Segmented final out segments' ∧ final < new.size + oldFile.blockSize := by
  have hsize : new.size < 2 ^ 63 := new.length_lt
  induction h generalizing segments with
  | copyEnd hend =>
    obtain ⟨init, last, -, hsegmented'⟩ := hsegmented.emitCopy hblock hjoined
    exact ⟨_, _, hsegmented', by omega⟩
  | copyNext hlt hfinds hscan ih =>
    obtain ⟨init, last, hlast, hsegmented'⟩ := hsegmented.emitCopy hblock hjoined
    exact ih hsegmented' (hsegmented'.joined_modeAfterCopy (by omega) hlast _) hlt
  | literalEnd hend =>
    obtain ⟨init, last, -, hsegmented'⟩ := hsegmented.emitLiteral hjoined
    exact ⟨_, _, hsegmented', by omega⟩
  | literalNext hlt hfinds hscan ih =>
    obtain ⟨init, last, hlast, hsegmented'⟩ := hsegmented.emitLiteral hjoined
    exact ih hsegmented' (joined_modeAfterLiteral hlast _) hlt

lemma delta_segmented (hblock : 0 < oldFile.blockSize) {out : List RsyncCommand}
    (h : FileComparer.Delta sha1 oldFile new out) :
    ∃ final segments, Segmented final out segments ∧ final < new.size + oldFile.blockSize := by
  have hempty : Segmented 0 [] [] := ⟨rfl, ⟨by simp, .nil, by simp⟩, rfl⟩
  rw [FileComparer.Delta] at h
  split_ifs at h with hsize
  · exact ⟨0, [], h ▸ hempty, by omega⟩
  · obtain ⟨found, -, hscan⟩ := h
    refine scan_segmented hblock hscan hempty ?_ (Nat.pos_of_ne_zero hsize)
    rcases found with _ | offset
    · simp [FileComparer.modeAfterLiteral, Joined]
    · simp [FileComparer.modeAfterLiteral, Joined]

/-! ### The comparer -/

/-- The commands of `process` come from a canonical list of segments, whose sizes sum to less than
the size of the new file and a block. A command keeps flag and size of its segment if this size is
below `2 ^ 63`; if all are, the commands are canonical themselves. -/
theorem process_canonical (sha1 : List Byte → Digest) (old new : File) (oldDisk newDisk : DiskReads)
    {fuel : Nat} (hfuel : new.size + 3 ≤ fuel) :
    ∃ c segments,
      (FileComparer.new new newDisk (RsyncableFile.ofPath sha1 old oldDisk)).process sha1 fuel =
          some c ∧
        c.result = segments.map Segment.command ∧
        CanonicalSegments segments ∧
        (segments.map Segment.size).sum < new.size + old.blockSize ∧
        (∀ s ∈ segments, s.size < 2 ^ 63 →
          s.command.copyFromOld = s.fromOld ∧ s.command.getLength = s.size) ∧
        ((∀ s ∈ segments, s.size < 2 ^ 63) →
          Canonical RsyncCommand.copyFromOld RsyncCommand.fileOffset RsyncCommand.getLength
            c.result) := by
  have hindexed := FileComparer.indexed_ofPath sha1 old oldDisk
  obtain ⟨c, hprocess, -, hdelta⟩ :=
    @FileComparer.process_spec sha1 _ hindexed new newDisk _ hfuel
  obtain ⟨final, segments, ⟨hcommands, hcanonical, hsum⟩, hlt⟩ :=
    delta_segmented hindexed.blockSize_pos hdelta
  rw [blockSize_ofPath] at hlt
  have hresult : (c.finished sha1).result = segments.map Segment.command := by
    rw [FileComparer.result_finished, hcommands]
  refine ⟨_, segments, hprocess, hresult, hcanonical, hsum.trans_lt hlt, fun s _ hs => ?_,
    fun hsizes => ?_⟩
  · have hsays := Segment.says_command hs
    exact And.intro hsays.copyFromOld hsays.getLength
  · rw [hresult]
    exact hcanonical.map Segment.command
      (fun s hs => (Segment.says_command (hsizes s hs)).copyFromOld)
      (fun s _ => s.fileOffset_command)
      fun s hs => (Segment.says_command (hsizes s hs)).getLength

/-- The three commands of a block between two other bytes are canonical. -/
theorem process_canonical_blockBetween :
    ∃ c segments,
      (FileComparer.new blockBetween wholeReads
          (RsyncableFile.ofPath sha1OfBlocks blockBefore wholeReads)).process sha1OfBlocks 520 =
            some c ∧
        c.result = blockBetweenCommands ∧ c.result = segments.map Segment.command ∧
        CanonicalSegments segments ∧
        Canonical RsyncCommand.copyFromOld RsyncCommand.fileOffset RsyncCommand.getLength
          c.result := by
  obtain ⟨c, segments, hprocess, hcommands, hcanonical, hsum, -, hall⟩ :=
    process_canonical sha1OfBlocks blockBefore blockBetween wholeReads wholeReads
      (show blockBetween.size + 3 ≤ 520 by rw [size_blockBetween]; norm_num)
  have hresult := result_blockBetween
  rw [hprocess] at hresult
  refine ⟨c, segments, hprocess, Option.some.inj hresult, hcommands, hcanonical,
    hall fun s hs => ?_⟩
  have hle := List.single_le_sum (by simp) _ (List.mem_map_of_mem (f := Segment.size) hs)
  have hblockSize : blockBefore.blockSize = 512 := by decide +kernel
  rw [size_blockBetween, hblockSize] at hsum
  omega

end BackupProgram
