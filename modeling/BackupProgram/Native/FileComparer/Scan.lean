import BackupProgram.Native.FileComparer.Window

/-!
# The greedy scan

`Scan` describes the delta without buffers and readers: from left to right, a window that is found
in the table of the old file is copied from there and the next window is the one behind it, any
other is given up for the window one byte further. `process_spec` says that the state machine of
the comparer ends and that its commands are those of the scan.
-/

namespace BackupProgram

namespace FileComparer

/-- What is done with the window at the current position: it is copied from the old file, or its
first byte is taken from the new file; `fresh` says that this needs a new command. -/
inductive Mode where
  | copy (fresh : Bool) (oldOffset : Nat)
  | literal (fresh : Bool)

def emitCopy (oldFile : RsyncableFile) (fresh : Bool) (oldOffset : Nat)
    (result : List RsyncCommand) : List RsyncCommand :=
  (if fresh then result ++ [RsyncCommand.setCopyFromOld ⟨oldOffset, 0⟩ true]
    else result).modifyLast (·.addLength oldFile.blockSize)

def emitLiteral (fresh : Bool) (pos : Nat) (result : List RsyncCommand) : List RsyncCommand :=
  (if fresh then result ++ [RsyncCommand.setCopyFromOld ⟨pos, 0⟩ false]
    else result).modifyLast (·.addLength 1)

/-- The mode after a copy whose continuation in the old file would be at `target`. -/
def modeAfterCopy (target : Nat) : Option Nat → Mode
  | some oldOffset => .copy (oldOffset != target) oldOffset
  | none => .literal true

def modeAfterLiteral (fresh : Bool) : Option Nat → Mode
  | some oldOffset => .copy true oldOffset
  | none => .literal fresh

/-- `Scan mode pos result out`: from the window at `pos` on, the commands in `result` are continued
to those in `out`. -/
inductive Scan (sha1 : List Byte → Digest) (oldFile : RsyncableFile) (newFile : File) :
    Mode → Nat → List RsyncCommand → List RsyncCommand → Prop where
  | copyEnd {fresh oldOffset pos result} :
    newFile.size ≤ pos + oldFile.blockSize →
    Scan sha1 oldFile newFile (.copy fresh oldOffset) pos result
      (emitCopy oldFile fresh oldOffset result)
  | copyNext {fresh oldOffset pos result found out} :
    pos + oldFile.blockSize < newFile.size →
    Finds sha1 oldFile.rsyncTable (window oldFile newFile (pos + oldFile.blockSize))
      (some (target (emitCopy oldFile fresh oldOffset result))) found →
    Scan sha1 oldFile newFile
      (modeAfterCopy (target (emitCopy oldFile fresh oldOffset result)) found)
      (pos + oldFile.blockSize) (emitCopy oldFile fresh oldOffset result) out →
    Scan sha1 oldFile newFile (.copy fresh oldOffset) pos result out
  | literalEnd {fresh pos result} :
    pos + 1 = newFile.size →
    Scan sha1 oldFile newFile (.literal fresh) pos result (emitLiteral fresh pos result)
  | literalNext {fresh pos result found out} :
    pos + 1 < newFile.size →
    Finds sha1 oldFile.rsyncTable (window oldFile newFile (pos + 1)) none found →
    Scan sha1 oldFile newFile (modeAfterLiteral false found) (pos + 1)
      (emitLiteral fresh pos result) out →
    Scan sha1 oldFile newFile (.literal fresh) pos result out

/-- The delta of the whole file; there is nothing to emit for an empty one. -/
def Delta (sha1 : List Byte → Digest) (oldFile : RsyncableFile) (newFile : File)
    (out : List RsyncCommand) : Prop :=
  if newFile.size = 0 then out = []
  else ∃ found, Finds sha1 oldFile.rsyncTable (window oldFile newFile 0) none found ∧
    Scan sha1 oldFile newFile (modeAfterLiteral true found) 0 [] out

/-- The table is sorted and the bitmap is that of the table. -/
structure Indexed (oldFile : RsyncableFile) : Prop where
  sorted : oldFile.rsyncTable.Pairwise RsyncTableItem.Le
  bitmap_eq : oldFile.bitmap = RsyncableFile.initBitmap oldFile.rsyncTable
  blockSize_pos : 0 < oldFile.blockSize

variable {sha1 : List Byte → Digest} {oldFile : RsyncableFile} {newFile : File}

lemma indexed_ofPath (sha1 : List Byte → Digest) (file : File) (disk : DiskReads) :
    Indexed (RsyncableFile.ofPath sha1 file disk) := by
  rw [RsyncableFile.ofPath_eq]
  exact ⟨sortTable_pairwise _, rfl, RsyncableFile.scalerFunction_pos file.length_lt⟩

/-! ### Commands, offsets and state do not matter to the window -/

lemma Fed.congr {c : FileComparer} {pending : List Byte} (h : Fed oldFile newFile pending c)
    (state : State) (result : List RsyncCommand) (newOffset oldOffset : Nat) :
    Fed oldFile newFile pending
      { c with state := state, result := result, newOffset := newOffset, oldOffset := oldOffset } :=
  ⟨h.oldFile_eq, h.newBlockSize_eq, h.newTable_eq, h.reader, h.blockSize_eq, h.length_buffer,
    h.capacity_eq, h.room, h.full, h.bytes⟩

lemma Window.congr {c : FileComparer} {pos : Nat} (h : Window oldFile newFile pos c)
    (state : State) (result : List RsyncCommand) (newOffset oldOffset : Nat) :
    Window oldFile newFile pos
      { c with state := state, result := result, newOffset := newOffset, oldOffset := oldOffset } :=
  ⟨h.toFed.congr state result newOffset oldOffset, h.primed, h.buffer, h.mCapacity_eq,
    h.content_eq, h.rest_eq, h.checksum_eq, h.pos_lt⟩

variable (sha1) in
lemma Window.search {c : FileComparer} {pos : Nat} (hold : Indexed oldFile)
    (h : Window oldFile newFile pos c) (offsetValid : Bool) (targetOffset : Nat) :
    ∃ found, Finds sha1 oldFile.rsyncTable (window oldFile newFile pos)
        (if offsetValid then some targetOffset else none) found ∧
      c.search sha1 offsetValid targetOffset =
        (found.isSome, { c with oldOffset := found.getD c.oldOffset }) := by
  have holdFile := h.oldFile_eq
  rw [← h.content_eq, ← holdFile]
  exact search_spec (holdFile ▸ hold.sorted) (holdFile ▸ hold.bitmap_eq) h.buffer h.checksum_eq
    offsetValid targetOffset

/-! ### The loops -/

/-- The comparer has read the whole file. -/
structure Ended (oldFile : RsyncableFile) (newFile : File) (c : FileComparer) : Prop
    extends Fed oldFile newFile [] c where
  state_eq : c.state = .final
  rest_eq : c.reader.rest = []

/-- The comparer is about to enter the other loop at a later position. -/
structure Entering (oldFile : RsyncableFile) (newFile : File) (state : State) (pos : Nat)
    (c : FileComparer) : Prop extends Window oldFile newFile pos c where
  state_eq : c.state = state
  newOffset_eq : c.newOffset = pos

variable (sha1) in
/-- The loop of copies ends at the end of the file, or where a window is not found. -/
lemma matchingLoop_spec (hold : Indexed oldFile) (fuel : Nat) (fresh : Bool) {c : FileComparer}
    {pos : Nat} (h : Window oldFile newFile pos c) (hoffset : c.newOffset = pos)
    (hfuel : newFile.size - pos < fuel) :
    ∃ c', matchingLoop sha1 fuel fresh c = some c' ∧
      ((Ended oldFile newFile c' ∧
          Scan sha1 oldFile newFile (.copy fresh c.oldOffset) pos c.result c'.result) ∨
        ∃ pos', pos < pos' ∧ Entering oldFile newFile .nonMatching pos' c' ∧
          ∀ out, Scan sha1 oldFile newFile (.literal true) pos' c'.result out →
            Scan sha1 oldFile newFile (.copy fresh c.oldOffset) pos c.result out) := by
  induction fuel generalizing fresh c pos with
  | zero => omega
  | succ fuel ih =>
    have hblock := hold.blockSize_pos
    set c1 : FileComparer :=
      { c with
        result := emitCopy oldFile fresh c.oldOffset c.result
        newOffset := pos + oldFile.blockSize } with hc1
    have hfed : Fed oldFile newFile [] c1 := h.toFed.congr _ _ _ _
    have hgrow : (if fresh = true then c.pushCommand c.oldOffset true else c).growLast
        (if fresh = true then c.pushCommand c.oldOffset true else c).matchingIncrement = c1 := by
      have holdFile := h.oldFile_eq
      cases fresh <;>
        simp [hc1, growLast, matchingIncrement, pushCommand, emitCopy, holdFile, hoffset]
    rw [matchingLoop]
    simp only [hgrow]
    by_cases hend : newFile.size ≤ pos + oldFile.blockSize
    · -- nothing is left to read
      have hnil : c1.reader.rest = [] := h.rest_eq.trans (List.drop_eq_nil_of_le hend)
      obtain ⟨hmore, hfed', hrest', hkeeps⟩ := readMoreData_of_rest_eq_nil hfed hnil
      simp only [hmore, Bool.not_false, if_true]
      refine ⟨_, rfl, Or.inl ⟨⟨hfed'.congr _ _ _ _, rfl, hrest'⟩, ?_⟩⟩
      simp only [hkeeps.result_eq]
      exact Scan.copyEnd hend
    · obtain ⟨hmore, hwindow, hkeeps⟩ := readMoreData_window hfed h.rest_eq (by omega)
      obtain ⟨found, hfinds, hsearch⟩ := hwindow.search sha1 hold true
        (target c1.readMoreData.2.result)
      have hresult : c1.readMoreData.2.result = emitCopy oldFile fresh c.oldOffset c.result :=
        hkeeps.result_eq
      simp only [hmore, Bool.not_true, Bool.false_eq_true, if_false, hsearch]
      rw [if_pos rfl, hresult] at hfinds
      rw [hresult]
      have hoffset' : c1.readMoreData.2.newOffset = pos + oldFile.blockSize := hkeeps.newOffset_eq
      rcases found with _ | o
      · -- the next window is not found
        refine ⟨_, rfl, Or.inr ⟨pos + oldFile.blockSize, by omega,
          ⟨hwindow.congr _ _ _ _, rfl, hoffset'⟩, fun out hout => ?_⟩⟩
        exact Scan.copyNext (by omega) hfinds hout
      · simp only [Option.isSome_some, Bool.not_true, Bool.false_eq_true, if_false,
          Option.getD_some]
        obtain ⟨c', hloop, hcases⟩ := ih (o != target _)
          (hwindow.congr c1.readMoreData.2.state c1.readMoreData.2.result
            c1.readMoreData.2.newOffset o) hoffset' (by omega)
        simp only [hresult] at hloop hcases
        refine ⟨c', hloop, ?_⟩
        rcases hcases with ⟨hended, hscan⟩ | ⟨pos', hlt, hentering, hscan⟩
        · exact Or.inl ⟨hended, Scan.copyNext (by omega) hfinds hscan⟩
        · exact Or.inr ⟨pos', by omega, hentering, fun out hout =>
            Scan.copyNext (by omega) hfinds (hscan out hout)⟩

variable (sha1) in
/-- The commands before the first round of the loop of literals and before the others. -/
lemma nonMatchingLoop_spec (hold : Indexed oldFile) (fuel : Nat) (fresh : Bool) {c : FileComparer}
    {pos : Nat} (result : List RsyncCommand) (h : Window oldFile newFile pos c)
    (hoffset : c.newOffset = pos)
    (hresult : c.result.modifyLast (·.addLength 1) = emitLiteral fresh pos result)
    (hfuel : newFile.size - pos < fuel) :
    ∃ c', nonMatchingLoop sha1 fuel c = some c' ∧
      ((Ended oldFile newFile c' ∧
          Scan sha1 oldFile newFile (.literal fresh) pos result c'.result) ∨
        ∃ pos', pos < pos' ∧ Entering oldFile newFile .matching pos' c' ∧
          ∀ out, Scan sha1 oldFile newFile (.copy true c'.oldOffset) pos' c'.result out →
            Scan sha1 oldFile newFile (.literal fresh) pos result out) := by
  induction fuel generalizing fresh c pos result with
  | zero => omega
  | succ fuel ih =>
    set c1 : FileComparer :=
      { c with
        result := emitLiteral fresh pos result
        newOffset := pos + 1 } with hc1
    have hwindow1 : Window oldFile newFile pos c1 := h.congr _ _ _ _
    have hgrow : c.growLast c.nonMatchingIncrement = c1 := by
      simp [hc1, growLast, nonMatchingIncrement, hoffset, hresult]
    rw [nonMatchingLoop]
    simp only [hgrow]
    rcases nonMatchingReadMoreData_window hwindow1 with
      ⟨hlt, hmore, hwindow, hkeeps⟩ | ⟨hend, hmore, hfed, hrest, hkeeps⟩
    · obtain ⟨found, hfinds, hsearch⟩ := hwindow.search sha1 hold false 0
      have hresult' : c1.nonMatchingReadMoreData.2.result = emitLiteral fresh pos result :=
        hkeeps.result_eq
      have hoffset' : c1.nonMatchingReadMoreData.2.newOffset = pos + 1 := hkeeps.newOffset_eq
      simp only [Bool.false_eq_true, if_false] at hfinds
      simp only [hmore, Bool.not_true, Bool.false_eq_true, if_false, hsearch]
      rcases found with _ | o
      · simp only [Option.isSome_none, Bool.false_eq_true, if_false, Option.getD_none]
        obtain ⟨c', hloop, hcases⟩ := ih false (emitLiteral fresh pos result)
          hwindow hoffset' (by rw [hresult']; rfl) (by omega)
        refine ⟨c', hloop, ?_⟩
        rcases hcases with ⟨hended, hscan⟩ | ⟨pos', hlt', hentering, hscan⟩
        · exact Or.inl ⟨hended, Scan.literalNext hlt hfinds hscan⟩
        · exact Or.inr ⟨pos', by omega, hentering, fun out hout =>
            Scan.literalNext hlt hfinds (hscan out hout)⟩
      · -- the next window is found
        refine ⟨_, rfl, Or.inr ⟨pos + 1, by omega, ⟨hwindow.congr _ _ _ _, rfl, hoffset'⟩,
          fun out hout => ?_⟩⟩
        simp only [hresult'] at hout
        exact Scan.literalNext hlt hfinds hout
    · simp only [hmore, Bool.not_false, if_true]
      refine ⟨_, rfl, Or.inl ⟨⟨hfed.congr _ _ _ _, rfl, hrest⟩, ?_⟩⟩
      simp only [hkeeps.result_eq]
      exact Scan.literalEnd hend

variable (sha1) in
/-- From either loop on, the machine reaches its final state. -/
lemma processLoop_spec (hold : Indexed oldFile) (fuel : Nat) {c : FileComparer} {pos : Nat}
    (mode : Mode) (h : Window oldFile newFile pos c) (hoffset : c.newOffset = pos)
    (hmode : (c.state = .matching ∧ mode = .copy true c.oldOffset) ∨
      (c.state = .nonMatching ∧ mode = .literal true))
    (hfuel : newFile.size - pos + 1 < fuel) :
    ∃ c', processLoop sha1 fuel c = some c' ∧ Ended oldFile newFile c' ∧
      Scan sha1 oldFile newFile mode pos c.result c'.result := by
  induction fuel generalizing c pos mode with
  | zero => omega
  | succ fuel ih =>
    have hlt := h.pos_lt
    rcases hmode with ⟨hstate, rfl⟩ | ⟨hstate, rfl⟩
    · obtain ⟨c', hloop, ⟨hended, hscan⟩ | ⟨pos', hpos', hentering, hscan⟩⟩ :=
        matchingLoop_spec sha1 hold fuel true h hoffset (by omega)
      · obtain ⟨fuel, rfl⟩ : ∃ k, fuel = k + 1 := ⟨fuel - 1, by omega⟩
        refine ⟨c', ?_, hended, hscan⟩
        rw [processLoop, hstate]
        simp only [stateMatching, hloop, Option.bind_some]
        rw [processLoop, hended.state_eq]
      · have hlt' := hentering.pos_lt
        obtain ⟨c'', hloop', hended, hscan'⟩ := ih (.literal true) hentering.toWindow
          hentering.newOffset_eq (Or.inr ⟨hentering.state_eq, rfl⟩) (by omega)
        refine ⟨c'', ?_, hended, hscan _ hscan'⟩
        rw [processLoop, hstate]
        simp only [stateMatching, hloop, Option.bind_some, hloop']
    · obtain ⟨c', hloop, ⟨hended, hscan⟩ | ⟨pos', hpos', hentering, hscan⟩⟩ :=
        nonMatchingLoop_spec sha1 (c := c.pushCommand c.newOffset false) hold fuel true c.result
          (h.congr c.state (c.pushCommand c.newOffset false).result c.newOffset c.oldOffset) hoffset
          (by rw [← hoffset]; rfl) (by omega)
      · obtain ⟨fuel, rfl⟩ : ∃ k, fuel = k + 1 := ⟨fuel - 1, by omega⟩
        refine ⟨c', ?_, hended, hscan⟩
        rw [processLoop, hstate]
        simp only [stateNonMatching, hloop, Option.bind_some]
        rw [processLoop, hended.state_eq]
      · have hlt' := hentering.pos_lt
        obtain ⟨c'', hloop', hended, hscan'⟩ := ih (.copy true c'.oldOffset)
          hentering.toWindow hentering.newOffset_eq (Or.inl ⟨hentering.state_eq, rfl⟩) (by omega)
        refine ⟨c'', ?_, hended, hscan _ hscan'⟩
        rw [processLoop, hstate]
        simp only [stateNonMatching, hloop, Option.bind_some, hloop']

variable (sha1) in
/-- The initial state reads the first window and searches it. -/
lemma stateInitial_spec (hold : Indexed oldFile) {c : FileComparer}
    (hfed : Fed oldFile newFile [] c.resetState) (hrest : c.resetState.reader.rest = newFile.bytes)
    (hresult : c.result = []) :
    (c.stateInitial sha1).result = [] ∧
      ((newFile.size = 0 ∧ Ended oldFile newFile (c.stateInitial sha1)) ∨
        ∃ found, Finds sha1 oldFile.rsyncTable (window oldFile newFile 0) none found ∧
          Window oldFile newFile 0 (c.stateInitial sha1) ∧ (c.stateInitial sha1).newOffset = 0 ∧
          (((c.stateInitial sha1).state = .matching ∧
              modeAfterLiteral true found = .copy true (c.stateInitial sha1).oldOffset) ∨
            ((c.stateInitial sha1).state = .nonMatching ∧
              modeAfterLiteral true found = .literal true))) := by
  rw [stateInitial]
  dsimp only
  have hfed0 : Fed oldFile newFile [] { c.resetState with newOffset := 0, oldOffset := 0 } :=
    hfed.congr _ _ _ _
  have hkeeps0 : ({ c.resetState with newOffset := 0, oldOffset := 0 } : FileComparer).result = [] ∧
      ({ c.resetState with newOffset := 0, oldOffset := 0 } : FileComparer).newOffset = 0 ∧
      ({ c.resetState with newOffset := 0, oldOffset := 0 } : FileComparer).reader.rest =
        newFile.bytes := ⟨hresult, rfl, hrest⟩
  revert hfed0 hkeeps0
  generalize ({ c.resetState with newOffset := 0, oldOffset := 0 } : FileComparer) = c0
  rintro hfed0 ⟨hresult0, hoffset0, hrest0⟩
  by_cases hempty : newFile.size = 0
  · -- an empty file
    have hnil : c0.reader.rest = [] := hrest0.trans (List.length_eq_zero_iff.mp hempty)
    obtain ⟨hmore, hfed', hrest', hkeeps⟩ := readMoreData_of_rest_eq_nil hfed0 hnil
    simp only [hmore, Bool.not_false, if_true]
    exact ⟨hkeeps.result_eq.trans hresult0,
      Or.inl ⟨hempty, ⟨hfed'.congr _ _ _ _, rfl, hrest'⟩⟩⟩
  · obtain ⟨hmore, hwindow, hkeeps⟩ := readMoreData_window hfed0
      (show c0.reader.rest = newFile.bytes.drop 0 from hrest0) (by omega)
    obtain ⟨found, hfinds, hsearch⟩ := hwindow.search sha1 hold false 0
    simp only [Bool.false_eq_true, if_false] at hfinds
    simp only [hmore, Bool.not_true, Bool.false_eq_true, if_false, hsearch]
    refine ⟨hkeeps.result_eq.trans hresult0, Or.inr ⟨found, hfinds, hwindow.congr _ _ _ _,
      hkeeps.newOffset_eq.trans hoffset0, ?_⟩⟩
    rcases found with _ | o
    · exact Or.inr ⟨rfl, rfl⟩
    · exact Or.inl ⟨rfl, rfl⟩

/-- The states are gone through to the final one; by then every byte of the new file has been handed
to the digest thread or stands in its next block. -/
theorem processLoop_new_spec (hold : Indexed oldFile) (newFile : File) (disk : DiskReads)
    {fuel : Nat} (hfuel : newFile.size + 3 ≤ fuel) :
    ∃ c, processLoop sha1 fuel { new newFile disk oldFile with state := .initial } = some c ∧
      Ended oldFile newFile c ∧ Delta sha1 oldFile newFile c.result := by
  obtain ⟨fuel, rfl⟩ : ∃ k, fuel = k + 1 := ⟨fuel - 1, by omega⟩
  obtain ⟨hfed, hrest⟩ := fed_resetState disk hold.blockSize_pos
  obtain ⟨hresult, hcases⟩ := stateInitial_spec sha1 hold hfed hrest rfl
  have hrun : processLoop sha1 (fuel + 1) { new newFile disk oldFile with state := .initial } =
      processLoop sha1 fuel ((new newFile disk oldFile).stateInitial sha1) := by
    rw [processLoop]
    rfl
  rw [hrun]
  revert hresult hcases
  generalize (new newFile disk oldFile).stateInitial sha1 = c0
  intro hresult hcases
  rcases hcases with ⟨hempty, hended⟩ | ⟨found, hfinds, hwindow, hoffset, hmode⟩
  · obtain ⟨fuel, rfl⟩ : ∃ k, fuel = k + 1 := ⟨fuel - 1, by omega⟩
    refine ⟨c0, ?_, hended, ?_⟩
    · rw [processLoop, hended.state_eq]
    · rw [Delta, if_pos hempty]
      exact hresult
  · have hpos := hwindow.pos_lt
    obtain ⟨c', hloop, hended, hscan⟩ :=
      processLoop_spec sha1 hold fuel _ hwindow hoffset hmode (by omega)
    refine ⟨c', hloop, hended, ?_⟩
    rw [hresult] at hscan
    rw [Delta, if_neg (by omega)]
    exact ⟨found, hfinds, hscan⟩

/-- `process` ends and its commands are those of the scan. -/
theorem process_spec (hold : Indexed oldFile) (newFile : File) (disk : DiskReads) {fuel : Nat}
    (hfuel : newFile.size + 3 ≤ fuel) :
    ∃ c, process sha1 fuel (new newFile disk oldFile) = some (finished sha1 c) ∧
      Ended oldFile newFile c ∧ Delta sha1 oldFile newFile c.result := by
  obtain ⟨c, hloop, hended, hdelta⟩ := processLoop_new_spec hold newFile disk hfuel
  exact ⟨c, by rw [process, hloop, Option.map_some], hended, hdelta⟩

end FileComparer

end BackupProgram
