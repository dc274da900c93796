import BackupProgram.Native.Streams.Bridge

/-!
# Reading and writing files

The loops that read and write a file go on until nothing is left of the size they have been given. At
the end of the file, and as soon as the lower 32 bits of what is left are zero, nothing more is read
or written, and they never end.
-/

namespace BackupProgram

open CircularBuffer Loops

namespace FileInputStream

variable {rest memory : List Byte} {size : Nat} {p : ReadProgress FileInputStream}

/-- How many bytes a round reads. -/
def roundLength (p : ReadProgress FileInputStream) : Nat :=
  min (max 1 (p.stream.transferred p.stream.completed))
    (min (p.size % 2 ^ 32) p.stream.rest.length)

lemma readRound_eq (hpos : 0 < p.size) :
    readRound p = .ok (.again (p.copy 0 (p.stream.readFile (p.size % 2 ^ 32)).2
      (p.stream.rest.take (roundLength p)))) := by
  have hlen : (p.stream.rest.take (roundLength p)).length = roundLength p := by
    rw [List.length_take]
    exact Nat.min_eq_left ((Nat.min_le_right _ _).trans (Nat.min_le_right _ _))
  have hle : roundLength p ≤ p.size :=
    ((Nat.min_le_right _ _).trans (Nat.min_le_left _ _)).trans (Nat.mod_le _ _)
  have hread : (p.stream.readFile (p.size % 2 ^ 32)).1 = p.stream.rest.take (roundLength p) := by
    rw [readFile, roundLength, rest, List.length_drop]
    rfl
  rw [readRound, if_pos hpos]
  dsimp only
  rw [hread, hlen, if_neg (not_lt.mpr hle)]

lemma rest_readFile (s : FileInputStream) (count : Nat) : (s.readFile count).2.rest =
    s.rest.drop (min (max 1 (s.transferred s.completed)) (min count s.rest.length)) := by
  rw [readFile, rest, rest, List.drop_drop, List.length_drop]

/-- As long as the size has 32 bits and does not reach beyond the end, each round reads a byte. -/
lemma readRound_spec (hroom : size ≤ memory.length) (hsize : size < 2 ^ 32)
    (hrest : size ≤ rest.length) (p : ReadProgress FileInputStream)
    (h : Fills FileInputStream.rest rest memory 0 size p) :
    (∃ q, readRound p = .ok (.done q) ∧ Fills FileInputStream.rest rest memory 0 size q ∧
        q.size = 0) ∨
      ∃ q, readRound p = .ok (.again q) ∧ Fills FileInputStream.rest rest memory 0 size q ∧
        q.size < p.size := by
  by_cases hpos : 0 < p.size
  · have hsum := h.size_eq
    have hleft : p.stream.rest.length = rest.length - p.ret := by
      rw [h.rest_eq, List.length_drop]
    have hmod : p.size % 2 ^ 32 = p.size := Nat.mod_eq_of_lt (by omega)
    have hlen : (p.stream.rest.take (roundLength p)).length = roundLength p := by
      rw [List.length_take, roundLength]
      omega
    have hlength : 0 < roundLength p ∧ roundLength p ≤ p.size ∧
        roundLength p ≤ p.stream.rest.length := by
      rw [roundLength, hmod]
      omega
    refine .inr ⟨_, readRound_eq hpos,
      h.copy (by omega) hlength.2.1 hlength.2.2 _ (rest_readFile _ _), ?_⟩
    simp only [ReadProgress.copy, hlen]
    omega
  · exact .inl ⟨p, by rw [readRound, if_neg hpos], h, by omega⟩

/-- The loop goes on for ever once it asks for more than there is, or for more than 32 bits. -/
def Endless (p : ReadProgress FileInputStream) : Prop :=
  2 ^ 32 ≤ p.size ∨ p.stream.rest.length < p.size

lemma readRound_endless (p : ReadProgress FileInputStream) (h : Endless p) :
    ∃ q, readRound p = .ok (.again q) ∧ Endless q := by
  have hpos : 0 < p.size := by
    rcases h with h | h
    · exact Nat.lt_of_lt_of_le (by decide) h
    · omega
  refine ⟨_, readRound_eq hpos, ?_⟩
  have hlen : (p.stream.rest.take (roundLength p)).length = roundLength p := by
    rw [List.length_take, roundLength]
    omega
  have hmod : roundLength p ≤ p.size % 2 ^ 32 := by
    rw [roundLength]
    omega
  have hle : roundLength p ≤ p.stream.rest.length := by
    rw [roundLength]
    omega
  simp only [Endless, ReadProgress.copy, hlen, rest_readFile, List.length_drop]
  rw [← roundLength]
  rcases h with h | h
  · exact .inl (by omega)
  · exact .inr (by omega)

/-- The loop ends, and has read the next bytes, as many as asked for as long as there are so
many. -/
def Finishes (s : FileInputStream) (dst : Destination) : Prop :=
  ∃ p, Ends readRound ⟨s, dst.memory, dst.size, 0⟩ p ∧ p.ret = min dst.size s.rest.length ∧
    p.memory = overwrite dst.memory 0 (s.rest.take dst.size) ∧
    p.stream.rest = s.rest.drop dst.size

lemma finishes_iff (s : FileInputStream) (dst : Destination) :
    s.Finishes dst ↔ dst.size < 2 ^ 32 ∧ dst.size ≤ s.rest.length := by
  constructor
  · rintro ⟨p, hends, -⟩
    by_contra hnot
    have hendless : Endless ⟨s, dst.memory, dst.size, 0⟩ := by
      simp only [Endless]
      omega
    exact not_ends_of_forever readRound_endless hendless p hends
  · rintro ⟨hsize, hrest⟩
    have hstart := fills_start FileInputStream.rest s dst.memory 0 dst.size
    obtain ⟨p, hloop, hfills, hzero⟩ := loop_of_variant () _ _ ReadProgress.size
      (readRound_spec dst.size_le hsize hrest) hstart (Nat.lt_succ_self dst.size)
    exact ⟨p, ends_of_loop hloop, hfills.ret_eq (.inl hzero), hfills.eq_of_stop (.inl hzero)⟩

end FileInputStream

namespace FileOutputStream

/-- The bytes that are left are those that have not been written. -/
structure Writes (file buffer : List Byte) (p : FileOutputStream × List Byte × Nat) : Prop where
  file_eq : p.1.file ++ p.2.1 = file ++ buffer
  size_eq : p.2.2 = p.2.1.length

variable {file buffer : List Byte}

/-- How many bytes a round writes. -/
def roundLength (p : FileOutputStream × List Byte × Nat) : Nat :=
  min (max 1 (p.1.transferred p.1.completed)) (p.2.1.take (p.2.2 % 2 ^ 32)).length

lemma Writes.round {p : FileOutputStream × List Byte × Nat} (h : Writes file buffer p)
    (hpos : 0 < p.2.2) :
    ∃ stream, writeRound p =
        .ok (.again (stream, p.2.1.drop (roundLength p), p.2.2 - roundLength p)) ∧
      Writes file buffer (stream, p.2.1.drop (roundLength p), p.2.2 - roundLength p) := by
  obtain ⟨stream, left, size⟩ := p
  obtain ⟨hfile, hsize⟩ := h
  dsimp only at hfile hsize hpos
  have hle : roundLength (stream, left, size) ≤ (left.take (size % 2 ^ 32)).length :=
    Nat.min_le_right _ _
  have htake : (left.take (size % 2 ^ 32)).take (roundLength (stream, left, size)) =
      left.take (roundLength (stream, left, size)) := by
    rw [List.take_take, Nat.min_eq_left]
    exact hle.trans (List.length_take_le _ _)
  have hsmall : roundLength (stream, left, size) ≤ size := by
    refine hle.trans ((List.length_take_le _ _).trans (Nat.mod_le _ _))
  refine ⟨(stream.writeFile (left.take (size % 2 ^ 32))).2, ?_, ?_, ?_⟩
  · simp only [writeRound, if_pos hpos]
    change Except.ok (Round.again (_, left.drop (roundLength (stream, left, size)),
      if roundLength (stream, left, size) > size then 0
      else size - roundLength (stream, left, size))) = _
    rw [if_neg (by omega)]
  · change stream.file ++ (left.take (size % 2 ^ 32)).take (roundLength (stream, left, size)) ++
      left.drop (roundLength (stream, left, size)) = file ++ buffer
    rw [htake, List.append_assoc, List.take_append_drop, hfile]
  · dsimp only
    rw [List.length_drop, hsize]

lemma writeRound_spec (hbuffer : buffer.length < 2 ^ 32) (p : FileOutputStream × List Byte × Nat)
    (h : Writes file buffer p ∧ p.2.2 ≤ buffer.length) :
    (∃ s, writeRound p = .ok (.done s) ∧ s.file = file ++ buffer) ∨
      ∃ q, writeRound p = .ok (.again q) ∧
        (Writes file buffer q ∧ q.2.2 ≤ buffer.length) ∧ q.2.2 < p.2.2 := by
  obtain ⟨hwrites, hle⟩ := h
  have hsize := hwrites.size_eq
  by_cases hpos : 0 < p.2.2
  · obtain ⟨stream, hround, hnext⟩ := hwrites.round hpos
    have hlength : 0 < roundLength p := by
      have hmod : p.2.2 % 2 ^ 32 = p.2.2 := Nat.mod_eq_of_lt (by omega)
      rw [roundLength, hmod, List.length_take]
      omega
    refine .inr ⟨_, hround, ⟨hnext, ?_⟩, ?_⟩ <;> dsimp only <;> omega
  · have hnil : p.2.1 = [] := List.length_eq_zero_iff.mp (by omega)
    have hfile := hwrites.file_eq
    rw [hnil, List.append_nil] at hfile
    exact .inl ⟨p.1, by simp only [writeRound, if_neg hpos], hfile⟩

lemma writeRound_endless (p : FileOutputStream × List Byte × Nat)
    (h : Writes file buffer p ∧ 2 ^ 32 ≤ p.2.2) :
    ∃ q, writeRound p = .ok (.again q) ∧ Writes file buffer q ∧ 2 ^ 32 ≤ q.2.2 := by
  obtain ⟨hwrites, hsize⟩ := h
  obtain ⟨stream, hround, hnext⟩ :=
    hwrites.round (Nat.lt_of_lt_of_le (by decide) hsize)
  have hle : roundLength p ≤ p.2.2 % 2 ^ 32 := by
    rw [roundLength, List.length_take]
    omega
  refine ⟨_, hround, hnext, ?_⟩
  dsimp only
  omega

/-- The loop ends, and has written the whole buffer. -/
def Finishes (s : FileOutputStream) (buffer : List Byte) : Prop :=
  ∃ s', Ends writeRound (s, buffer, buffer.length) s' ∧ s'.file = s.file ++ buffer

lemma finishes_iff (s : FileOutputStream) (buffer : List Byte) :
    s.Finishes buffer ↔ buffer.length < 2 ^ 32 := by
  have hstart : Writes s.file buffer (s, buffer, buffer.length) := ⟨rfl, rfl⟩
  constructor
  · rintro ⟨s', hends, -⟩
    by_contra hnot
    exact not_ends_of_forever writeRound_endless ⟨hstart, by dsimp only; omega⟩ s' hends
  · intro hbuffer
    obtain ⟨s', hloop, hfile⟩ := loop_of_variant ()
      (fun p : FileOutputStream × List Byte × Nat => Writes s.file buffer p ∧ p.2.2 ≤ buffer.length)
      (fun s' : FileOutputStream => s'.file = s.file ++ buffer)
      (fun p : FileOutputStream × List Byte × Nat => p.2.2)
      (writeRound_spec hbuffer) ⟨hstart, le_rfl⟩ (Nat.lt_succ_self buffer.length)
    exact ⟨s', ends_of_loop hloop, hfile⟩

end FileOutputStream

/-- A read of a file comes to an end exactly if its size has 32 bits and no more is asked for than
is left; a write exactly if its size has 32 bits. Then all is read, or written. -/
theorem fileStreams_finish_iff (input : FileInputStream) (dst : Destination)
    (output : FileOutputStream) (buffer : List Byte) :
    (input.Finishes dst ↔ dst.size < 2 ^ 32 ∧ dst.size ≤ input.rest.length) ∧
      (output.Finishes buffer ↔ buffer.length < 2 ^ 32) :=
  ⟨input.finishes_iff dst, output.finishes_iff buffer⟩

/-- Reading one byte at the end of a file. -/
theorem fileStreams_not_finish_emptyFile :
    ¬ FileInputStream.Finishes ⟨[], 0, fun _ => 1, 0⟩ ⟨[0], 1, by decide⟩ := by
  rw [FileInputStream.finishes_iff]
  decide

end BackupProgram
