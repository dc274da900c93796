import BackupProgram.Native.Streams

/-!
# Bytes across the bridge

Whatever the sizes of the reads and of the pieces that a managed stream returns, native code reads the
bytes of the stream in order; and a managed stream receives the bytes that native code writes.
-/

namespace BackupProgram

open CircularBuffer Loops

/-! ### Filling a buffer -/

/-- The bytes that have been read are the first ones of `rest`, and stand in the buffer from `dst`
on. -/
structure Fills {σ : Type} (restOf : σ → List Byte) (rest memory : List Byte) (dst size : Nat)
    (p : ReadProgress σ) : Prop where
  memory_eq : p.memory = overwrite memory dst (rest.take p.ret)
  rest_eq : restOf p.stream = rest.drop p.ret
  ret_le : p.ret ≤ rest.length
  size_eq : p.size + p.ret = size

section Fills

variable {σ : Type} {restOf : σ → List Byte} {rest memory : List Byte} {dst size : Nat}
  {p : ReadProgress σ}

lemma fills_start (restOf : σ → List Byte) (stream : σ) (memory : List Byte) (dst size : Nat) :
    Fills restOf (restOf stream) memory dst size ⟨stream, memory, size, 0⟩ := by
  refine ⟨?_, rfl, Nat.zero_le _, rfl⟩
  simp [overwrite]

lemma Fills.copy (h : Fills restOf rest memory dst size p) (hroom : dst + size ≤ memory.length)
    {n : Nat} (hn : n ≤ p.size) (hle : n ≤ (restOf p.stream).length) (stream : σ)
    (hrest : restOf stream = (restOf p.stream).drop n) :
    Fills restOf rest memory dst size (p.copy dst stream ((restOf p.stream).take n)) := by
  obtain ⟨hmemory, hrestOf, hret, hsize⟩ := h
  rw [hrestOf, List.length_drop] at hle
  have htake : (rest.take p.ret).length = p.ret := by
    rw [List.length_take]
    omega
  have hbytes : ((restOf p.stream).take n).length = n := by
    rw [hrestOf, List.length_take, List.length_drop]
    omega
  refine ⟨?_, ?_, ?_, ?_⟩
  · have hover : overwrite (overwrite memory dst (rest.take p.ret)) (dst + (rest.take p.ret).length)
        ((restOf p.stream).take n) =
          overwrite memory dst (rest.take p.ret ++ (restOf p.stream).take n) :=
      overwrite_overwrite (by omega)
    rw [htake] at hover
    simp only [ReadProgress.copy, hmemory, hover, hbytes]
    rw [hrestOf, ← List.take_add]
  · simp only [ReadProgress.copy, hrest, hbytes]
    rw [hrestOf, List.drop_drop]
  · simp only [ReadProgress.copy, hbytes]
    omega
  · simp only [ReadProgress.copy, hbytes]
    omega

/-- A loop that stops only when enough has been read, or all. -/
lemma Fills.ret_eq (h : Fills restOf rest memory dst size p)
    (hstop : p.size = 0 ∨ restOf p.stream = []) : p.ret = min size rest.length := by
  have hsize := h.size_eq
  have hret := h.ret_le
  rcases hstop with hzero | hnil
  · omega
  · rw [h.rest_eq, List.drop_eq_nil_iff] at hnil
    omega

lemma Fills.eq_of_stop (h : Fills restOf rest memory dst size p)
    (hstop : p.size = 0 ∨ restOf p.stream = []) :
    p.memory = overwrite memory dst (rest.take size) ∧ restOf p.stream = rest.drop size := by
  have hret := h.ret_eq hstop
  rw [h.memory_eq, h.rest_eq, hret, ← List.take_eq_take_min]
  refine ⟨rfl, ?_⟩
  rcases Nat.le_total size rest.length with hle | hle
  · rw [Nat.min_eq_left hle]
  · rw [Nat.min_eq_right hle, List.drop_length, List.drop_of_length_le hle]

end Fills

/-! ### Reading -/

/-- The mark for the end is only set there. -/
def ManagedInputStream.Honest (s : ManagedInputStream) : Prop := s.eof = true → s.rest = []

variable {rest memory : List Byte} {dst size temp fuel : Nat} {p : ReadProgress ManagedInputStream}

/-- Two for each byte that is asked for, and one for the end. -/
def readsLeft (p : ReadProgress ManagedInputStream) : Nat :=
  2 * p.size + if p.stream.eof then 0 else 1

lemma readCallbackRound_spec (hroom : dst + size ≤ memory.length) (htemp : 0 < size → 0 < temp)
    (p : ReadProgress ManagedInputStream)
    (h : Fills ManagedInputStream.rest rest memory dst size p ∧ p.stream.Honest) :
    (∃ q, readCallbackRound dst temp p = .ok (.done q) ∧
        (Fills ManagedInputStream.rest rest memory dst size q ∧ q.stream.Honest) ∧
        (q.size = 0 ∨ q.stream.eof = true)) ∨
      ∃ q, readCallbackRound dst temp p = .ok (.again q) ∧
        (Fills ManagedInputStream.rest rest memory dst size q ∧ q.stream.Honest) ∧
        readsLeft q < readsLeft p := by
  obtain ⟨hfills, hhonest⟩ := h
  rw [readCallbackRound]
  by_cases hgo : 0 < p.size ∧ p.stream.eof = false
  · rw [if_pos hgo]
    obtain ⟨hpos, heof⟩ := hgo
    have hsize := hfills.size_eq
    have htemp := htemp (by omega)
    -- the number of bytes that are returned
    set n := min (max 1 (p.stream.transferred p.stream.completed))
      (min (min p.size temp) p.stream.rest.length) with hn
    have hzero : n = 0 ↔ p.stream.rest = [] := by
      rw [← List.length_eq_zero_iff]
      omega
    have hcopy := hfills.copy hroom (n := n) (by omega) (by omega)
      (p.stream.read (min p.size temp)).2 rfl
    have hlen : (p.stream.rest.take n).length = n := by
      rw [List.length_take]
      omega
    refine .inr ⟨_, rfl, ⟨hcopy, fun hend => ?_⟩, ?_⟩
    · simp only [ReadProgress.copy, heof, Bool.false_or,
        decide_eq_true_eq] at hend ⊢
      rw [hzero.mp hend, List.drop_nil]
    · simp only [readsLeft, ReadProgress.copy, heof, Bool.false_or,
        decide_eq_true_eq, Bool.false_eq_true, if_false, ← hn, hlen]
      split_ifs <;> omega
  · rw [if_neg hgo]
    refine .inl ⟨p, rfl, ⟨hfills, hhonest⟩, ?_⟩
    rcases Nat.eq_zero_or_pos p.size with hzero | hpos
    · exact .inl hzero
    · exact .inr (by simpa [hpos] using hgo)

/-- The callback reads what it is asked for, or all that is left. -/
lemma readCallback_spec {stream : ManagedInputStream} (hhonest : stream.Honest)
    (hroom : dst + size ≤ memory.length) (hfuel : 2 * size + 1 < fuel) :
    ∃ q, readCallback fuel stream memory dst size = .ok q ∧
      (Fills ManagedInputStream.rest stream.rest memory dst size q ∧ q.stream.Honest) ∧
      (q.size = 0 ∨ q.stream.eof = true) := by
  refine loop_of_variant () _ _ readsLeft
    (readCallbackRound_spec hroom fun hpos => by rw [tempLength]; omega)
    ⟨fills_start _ _ _ _ _, hhonest⟩ ?_
  simp only [readsLeft]
  split_ifs <;> omega

namespace DotNetInputStream

lemma readRound_spec (hroom : size ≤ memory.length) (hfuel : 2 * size + 1 < fuel)
    (p : ReadProgress ManagedInputStream)
    (h : Fills ManagedInputStream.rest rest memory 0 size p ∧ p.stream.Honest) :
    (∃ q, readRound fuel p = .ok (.done q) ∧
        (Fills ManagedInputStream.rest rest memory 0 size q ∧ q.stream.Honest) ∧
        (q.size = 0 ∨ q.stream.eof = true)) ∨
      ∃ q, readRound fuel p = .ok (.again q) ∧
        (Fills ManagedInputStream.rest rest memory 0 size q ∧ q.stream.Honest) ∧
        readsLeft q < readsLeft p := by
  obtain ⟨hfills, hhonest⟩ := h
  rw [readRound]
  by_cases hgo : 0 < p.size ∧ p.stream.eof = false
  · rw [if_pos hgo]
    obtain ⟨hpos, heof⟩ := hgo
    have hsize := hfills.size_eq
    have hread : 0 < min p.size maxReadSize := by
      rw [maxReadSize]
      omega
    have hmemory : p.memory.length = memory.length := by
      rw [hfills.memory_eq, length_overwrite]
      rw [List.length_take]
      omega
    have hroom' : p.ret + min p.size maxReadSize ≤ p.memory.length := by omega
    have hfuel' : 2 * min p.size maxReadSize + 1 < fuel := by omega
    obtain ⟨q, hcallback, ⟨hq, hhonest'⟩, hstop⟩ := readCallback_spec hhonest hroom' hfuel'
    have hqsize := hq.size_eq
    have hlen : (p.stream.rest.take q.ret).length = q.ret := by
      rw [List.length_take]
      exact Nat.min_eq_left hq.ret_le
    -- the callback has copied its bytes behind those of the rounds before
    have hnext : (⟨q.stream, q.memory, p.size - q.ret, p.ret + q.ret⟩ :
        ReadProgress ManagedInputStream) =
          p.copy 0 q.stream (p.stream.rest.take q.ret) := by
      simp only [ReadProgress.copy, hlen, Nat.zero_add, hq.memory_eq]
    have hcopy := hfills.copy (by omega) (n := q.ret) (by omega) hq.ret_le q.stream hq.rest_eq
    refine .inr ⟨_, ?_, ⟨hcopy, hhonest'⟩, ?_⟩
    · rw [hcallback]
      exact congrArg (fun q => Except.ok (Round.again q)) hnext
    · simp only [readsLeft, ReadProgress.copy, hlen, heof, Bool.false_eq_true, if_false]
      rcases hstop with hzero | hend
      · split_ifs <;> omega
      · rw [if_pos hend]
        omega
  · rw [if_neg hgo]
    refine .inl ⟨p, rfl, ⟨hfills, hhonest⟩, ?_⟩
    rcases Nat.eq_zero_or_pos p.size with hzero | hpos
    · exact .inl hzero
    · exact .inr (by simpa [hpos] using hgo)

/-- One read. -/
lemma read_spec {stream : ManagedInputStream} (hhonest : stream.Honest) (dst : Destination)
    (hfuel : 2 * dst.size + 1 < fuel) :
    ∃ p, read fuel stream dst = .ok p ∧ p.stream.Honest ∧
      p.ret = min dst.size stream.rest.length ∧
      p.memory = overwrite dst.memory 0 (stream.rest.take dst.size) ∧
      p.stream.rest = stream.rest.drop dst.size := by
  have hleft : readsLeft ⟨stream, dst.memory, dst.size, 0⟩ < fuel := by
    simp only [readsLeft]
    split_ifs <;> omega
  obtain ⟨p, hread, ⟨hfills, hhonest'⟩, hstop⟩ := loop_of_variant () _ _ readsLeft
    (readRound_spec dst.size_le hfuel)
    ⟨fills_start ManagedInputStream.rest stream dst.memory 0 dst.size, hhonest⟩ hleft
  have hstop' := hstop.imp_right hhonest'
  exact ⟨p, hread, hhonest', hfills.ret_eq hstop', hfills.eq_of_stop hstop'⟩

/-- Each read returns the next bytes of `rest` in its buffer, as many as asked for as long as there
are so many; the end is reported only after the last one. -/
def Delivers : List Byte → List Destination → List ReadResult → Prop
  | _, [], [] => True
  | rest, dst :: dsts, result :: results =>
    result.ret = min dst.size rest.length ∧
      result.memory = overwrite dst.memory 0 (rest.take dst.size) ∧
      (result.eof = true → rest.drop dst.size = []) ∧
      Delivers (rest.drop dst.size) dsts results
  | _, _, _ => False

lemma exists_reads (dsts : List Destination) {stream : ManagedInputStream}
    (hhonest : stream.Honest) (hfuel : ∀ dst ∈ dsts, 2 * dst.size + 1 < fuel) :
    ∃ results, reads fuel stream dsts = .ok results ∧ Delivers stream.rest dsts results := by
  induction dsts generalizing stream with
  | nil => exact ⟨[], rfl, trivial⟩
  | cons dst dsts ih =>
    obtain ⟨hfirst, hothers⟩ := List.forall_mem_cons.mp hfuel
    obtain ⟨p, hread, hhonest', hret, hmemory, hrest⟩ := read_spec hhonest dst hfirst
    obtain ⟨results, hreads, hdelivers⟩ := ih hhonest' hothers
    refine ⟨⟨p.ret, p.memory, p.stream.eof⟩ :: results, ?_, hret, hmemory, fun heof => ?_, ?_⟩
    · rw [reads, hread]
      simp only [bind, Except.bind, hreads]
      rfl
    · rw [← hrest]
      exact hhonest' heof
    · rwa [hrest] at hdelivers

end DotNetInputStream

/-! ### Writing -/

/-- What has been written is what stands in front of the offset. -/
structure Written (buffer : List Byte) (size : Nat) (p : WriteProgress) : Prop where
  flatten_eq : p.written.flatten = buffer.take p.offset
  size_eq : p.size + p.offset = size

lemma Written.piece {buffer : List Byte} {p : WriteProgress} (h : Written buffer size p) {n : Nat}
    (hn : n ≤ p.size) {pieces : List (List Byte)}
    (hpieces : pieces.flatten = slice buffer p.offset n) :
    Written buffer size ⟨p.size - n, p.offset + n, p.written ++ pieces⟩ := by
  have hsize := h.size_eq
  refine ⟨?_, by dsimp only; omega⟩
  rw [List.flatten_append, h.flatten_eq, hpieces, slice, ← List.take_add]

lemma writeCallbackRound_spec (buffer : List Byte) (htemp : 0 < size → 0 < temp)
    (p : WriteProgress) (h : Written buffer size p) :
    (∃ q, writeCallbackRound buffer temp p = .ok (.done q) ∧ Written buffer size q ∧ q.size = 0) ∨
      ∃ q, writeCallbackRound buffer temp p = .ok (.again q) ∧ Written buffer size q ∧
        q.size < p.size := by
  have hsize := h.size_eq
  rw [writeCallbackRound]
  by_cases hpos : 0 < p.size
  · rw [if_pos hpos]
    have htemp := htemp (by omega)
    refine .inr ⟨_, rfl, h.piece (Nat.min_le_left _ _) (by simp), ?_⟩
    dsimp only
    omega
  · rw [if_neg hpos]
    exact .inl ⟨p, rfl, h, by omega⟩

lemma writeCallback_spec (buffer : List Byte) (hfuel : size < fuel) :
    ∃ pieces, writeCallback fuel buffer size = .ok pieces ∧ pieces.flatten = buffer.take size := by
  have htemp : 0 < size → 0 < tempLength size := by
    rw [tempLength]
    omega
  have hstart : Written buffer size ⟨size, 0, []⟩ := ⟨by simp, rfl⟩
  obtain ⟨p, hloop, hwritten, hzero⟩ := loop_of_variant () _ _ WriteProgress.size
    (writeCallbackRound_spec buffer htemp) hstart hfuel
  refine ⟨p.written, by rw [writeCallback, hloop]; rfl, ?_⟩
  have hsize := hwritten.size_eq
  rw [hwritten.flatten_eq, ← hsize, hzero, Nat.zero_add]

namespace DotNetOutputStream

lemma writeRound_spec (buffer : List Byte) (hfuel : size < fuel) (p : WriteProgress)
    (h : Written buffer size p) :
    (∃ q, writeRound fuel buffer p = .ok (.done q) ∧ Written buffer size q ∧ q.size = 0) ∨
      ∃ q, writeRound fuel buffer p = .ok (.again q) ∧ Written buffer size q ∧ q.size < p.size := by
  have hsize := h.size_eq
  rw [writeRound]
  by_cases hpos : 0 < p.size
  · rw [if_pos hpos]
    have hfuel' : min p.size maxReadSize < fuel := by omega
    obtain ⟨pieces, hcallback, hpieces⟩ := writeCallback_spec (buffer.drop p.offset) hfuel'
    refine .inr ⟨⟨p.size - min p.size maxReadSize, p.offset + min p.size maxReadSize,
      p.written ++ pieces⟩, ?_, h.piece (Nat.min_le_left _ _) hpieces, ?_⟩
    · simp only [hcallback]
      rfl
    · rw [maxReadSize]
      dsimp only
      omega
  · rw [if_neg hpos]
    exact .inl ⟨p, rfl, h, by omega⟩

lemma write_spec (buffer : List Byte) (hfuel : buffer.length < fuel) :
    ∃ pieces, write fuel buffer = .ok pieces ∧ pieces.flatten = buffer := by
  have hstart : Written buffer buffer.length ⟨buffer.length, 0, []⟩ := ⟨by simp, rfl⟩
  obtain ⟨p, hloop, hwritten, hzero⟩ := loop_of_variant () _ _ WriteProgress.size
    (writeRound_spec buffer hfuel) hstart hfuel
  refine ⟨p.written, by rw [write, hloop]; rfl, ?_⟩
  have hsize := hwritten.size_eq
  rw [hwritten.flatten_eq, List.take_of_length_le (by omega)]

lemma exists_writes (buffers : List (List Byte))
    (hfuel : ∀ buffer ∈ buffers, buffer.length < fuel) :
    ∃ pieces, writes fuel buffers = .ok pieces ∧ pieces.flatten = buffers.flatten := by
  induction buffers with
  | nil => exact ⟨[], rfl, rfl⟩
  | cons buffer buffers ih =>
    obtain ⟨hfirst, hothers⟩ := List.forall_mem_cons.mp hfuel
    obtain ⟨pieces, hwrite, hpieces⟩ := write_spec buffer hfirst
    obtain ⟨rest, hwrites, hrest⟩ := ih hothers
    refine ⟨pieces ++ rest, ?_, ?_⟩
    · rw [writes, hwrite]
      simp only [bind, Except.bind, hwrites]
      rfl
    · rw [List.flatten_append, hpieces, hrest, List.flatten_cons]

end DotNetOutputStream

lemma exists_bound {α : Type} (as : List α) (f : α → Nat) : ∃ n, ∀ fuel, n ≤ fuel →
    ∀ a ∈ as, f a < fuel :=
  ⟨(as.map f).sum + 1, fun fuel hfuel a ha => by
    have hle := List.single_le_sum (fun _ _ => Nat.zero_le _) _ (List.mem_map_of_mem (f := f) ha)
    omega⟩

/-- Reads of any sizes across the bridge come to an end and return the bytes of the managed stream,
whatever pieces it returns; writes of any sizes come to an end and the managed stream receives their
bytes. -/
theorem bridge_preserves (bytes : List Byte) (transferred : Nat → Nat) (dsts : List Destination)
    (buffers : List (List Byte)) :
    (∃ n, ∀ fuel, n ≤ fuel → ∃ results,
      DotNetInputStream.reads fuel { rest := bytes, transferred := transferred } dsts =
        .ok results ∧
        DotNetInputStream.Delivers bytes dsts results) ∧
    ∃ n, ∀ fuel, n ≤ fuel → ∃ pieces,
      DotNetOutputStream.writes fuel buffers = .ok pieces ∧ pieces.flatten = buffers.flatten := by
  obtain ⟨n, hn⟩ := exists_bound dsts fun dst => 2 * dst.size + 1
  obtain ⟨m, hm⟩ := exists_bound buffers List.length
  have hhonest : ManagedInputStream.Honest { rest := bytes, transferred := transferred } := nofun
  exact ⟨⟨n, fun fuel hfuel => DotNetInputStream.exists_reads dsts hhonest (hn fuel hfuel)⟩,
    ⟨m, fun fuel hfuel => DotNetOutputStream.exists_writes buffers (hm fuel hfuel)⟩⟩

end BackupProgram
