import BackupProgram.Archive.RoundTrip
import BackupProgram.Lib.Repetition

/-!
# The streams that callbacks are handed

All streams of an archive are windows on one stream that only goes forward. The next window begins
where the callback has stopped reading, and a callback may stop anywhere.
-/

namespace BackupProgram

open Results FilterGenerator

/-- A window on the stream below, which is what that stream still has to give. -/
structure BoundedStream where
  stream : List Byte
  size : Nat
  bytesRead : Nat

namespace BoundedStream

/-- The constructor. -/
def new (stream : List Byte) (boundedSize : Nat) : BoundedStream := ⟨stream, boundedSize, 0⟩

/-- The stream below may give less than it is asked for: at most `chunk` bytes. -/
def read (b : BoundedStream) (count chunk : Nat) : List Byte × BoundedStream :=
  let count := if count > b.size - b.bytesRead then b.size - b.bytesRead else count
  let ret := b.stream.take (min count chunk)
  (ret, { b with stream := b.stream.drop ret.length, bytesRead := b.bytesRead + ret.length })

end BoundedStream

/-- What a callback does with its stream: it asks for some bytes, goes on according to what it
gets, and stops when it likes. -/
inductive ReadProgram (σ : Type) where
  | done (s : σ)
  | read (count chunk : Nat) (next : List Byte → ReadProgram σ)

namespace ReadProgram

variable {σ : Type}

def run : ReadProgram σ → BoundedStream → σ × BoundedStream
  | done s, b => (s, b)
  | read count chunk next, b => (next (b.read count chunk).1).run (b.read count chunk).2

/-- The callback, given all that its window shows; it returns how much of that it has read. -/
def callback (program : σ → Nat → ReadProgram σ) (s : σ) (id : Nat) (bounded : List Byte) :
    σ × Nat :=
  let (s, b) := (program s id).run (BoundedStream.new bounded bounded.length)
  (s, b.bytesRead)

/-- `Begin` with the windows themselves. -/
def zipBounded (program : σ → Nat → ReadProgram σ) :
    List Nat → List Int → Option (List Byte) → σ → Except ArchiveError σ
  | id :: streamIds, size :: streamSizes, data, s => do
    let data ← ArchiveReader.orThrow .filter data
    if size < 0 then throw .argumentOutOfRange
    let (s, b) := (program s id).run (BoundedStream.new data size.toNat)
    zipBounded program streamIds streamSizes (some b.stream) s
  | _, _, _, s => return s

/-! ### A window shows nothing but itself -/

/-- A window on a whole stream, and the window of the same size on the part of it that shows. -/
structure Agree (data : List Byte) (size : Nat) (b b' : BoundedStream) : Prop where
  stream_eq : b.stream = data.drop b.bytesRead
  stream_eq' : b'.stream = (data.take size).drop b.bytesRead
  bytesRead_eq : b'.bytesRead = b.bytesRead
  size_eq : b.size = size
  size_eq' : b'.size = (data.take size).length
  bytesRead_le : b.bytesRead ≤ (data.take size).length

lemma Agree.read {data : List Byte} {size : Nat} {b b' : BoundedStream} (h : Agree data size b b')
    (count chunk : Nat) :
    (b'.read count chunk).1 = (b.read count chunk).1 ∧
      Agree data size (b.read count chunk).2 (b'.read count chunk).2 := by
  obtain ⟨stream, size, bytesRead⟩ := b
  obtain ⟨stream', size', bytesRead'⟩ := b'
  obtain ⟨hs, hs', hb, hsize, hsize', hle⟩ := h
  simp only at hs hs' hb hsize hsize' hle
  subst hs hs' hb hsize hsize'
  rw [List.length_take] at hle
  have hret : ((BoundedStream.mk ((data.take size).drop bytesRead') (data.take size).length
        bytesRead').read count chunk).1 =
      ((BoundedStream.mk (data.drop bytesRead') size bytesRead').read count chunk).1 := by
    simp only [BoundedStream.read, List.drop_take, List.take_take, List.length_take]
    refine List.take_eq_take_iff.mpr ?_
    rw [List.length_drop]
    split_ifs <;> omega
  refine ⟨hret, ?_, ?_, ?_, rfl, rfl, ?_⟩
  · simp only [BoundedStream.read, List.drop_drop]
  · refine Eq.trans ?_ List.drop_drop
    exact congrArg (fun ret => List.drop (List.length ret) _) hret
  · exact congrArg (fun ret => bytesRead' + List.length ret) hret
  · simp only [BoundedStream.read, List.length_take, List.length_drop]
    split_ifs <;> omega

lemma Agree.run {data : List Byte} {size : Nat} (program : ReadProgram σ) {b b' : BoundedStream}
    (h : Agree data size b b') :
    (program.run b').1 = (program.run b).1 ∧
      Agree data size (program.run b).2 (program.run b').2 := by
  induction program generalizing b b' with
  | done s => exact ⟨rfl, h⟩
  | read count chunk next ih =>
    obtain ⟨hret, hagree⟩ := h.read count chunk
    rw [ReadProgram.run, ReadProgram.run, hret]
    exact ih _ hagree

lemma agree_new (data : List Byte) (size : Nat) :
    Agree data size (BoundedStream.new data size)
      (BoundedStream.new (data.take size) (data.take size).length) :=
  ⟨rfl, rfl, rfl, rfl, rfl, Nat.zero_le _⟩

/-- A callback never reads beyond its window. -/
lemma callback_le (program : σ → Nat → ReadProgram σ) (s : σ) (id : Nat) (bounded : List Byte) :
    (callback program s id bounded).2 ≤ bounded.length := by
  have h := ((agree_new bounded bounded.length).run (program s id)).2
  rw [List.take_length] at h
  exact h.bytesRead_eq.trans_le (h.bytesRead_le.trans (by rw [List.take_length]))

/-- A callback reads what it reads if the stream below ends with the window, and leaves what
lies behind. -/
theorem zipBounded_eq (program : σ → Nat → ReadProgram σ) (streamIds : List Nat)
    (streamSizes : List Int) (data : Option (List Byte)) (s : σ) :
    zipBounded program streamIds streamSizes data s =
      ArchiveReader.zipStreams (callback program) streamIds streamSizes data s := by
  induction streamIds generalizing streamSizes data s with
  | nil => simp only [zipBounded, ArchiveReader.zipStreams]
  | cons id streamIds ih =>
    cases streamSizes with
    | nil => simp only [zipBounded, ArchiveReader.zipStreams]
    | cons size streamSizes =>
      cases data with
      | none => rfl
      | some data =>
        obtain ⟨hs, h⟩ := (agree_new data size.toNat).run (program s id)
        simp only [zipBounded, ArchiveReader.zipStreams, ArchiveReader.orThrow, pure_bind, ih]
        rw [min_eq_left (callback_le program s id _)]
        simp only [callback, hs, h.bytesRead_eq, h.stream_eq]

end ReadProgram

namespace ArchiveReader

open ArchiveWriter

variable {Fso σ : Type} {env : ArchiveEnv Fso} {files : List (Nat × List Byte × HashType)}
  {fsos : List Fso} {manifest : VersionManifest}

/-! ### What the callbacks are handed -/

/-- A callback that is watched: what it is handed is written down. -/
def recorded (callback : σ → Nat → List Byte → σ × Nat) (s : List (Nat × List Byte) × σ)
    (id : Nat) (bounded : List Byte) : (List (Nat × List Byte) × σ) × Nat :=
  let (s', taken) := callback s.2 id bounded
  ((s.1 ++ [(id, bounded)], s'), taken)

/-- Nothing has been left unread when a callback is handed its stream, or the stream goes on as
what has been left. -/
def Aligned (callback : σ → Nat → List Byte → σ × Nat) :
    List (Nat × List Byte × HashType) → σ → List Byte → Prop
  | [], _, _ => True
  | (id, bytes, _) :: files, s, left =>
    Repetition.Repeats left bytes ∧
      Aligned callback files (callback s id bytes).1 ((left ++ bytes).drop (callback s id bytes).2)

/-- Callbacks that read all of their streams leave nothing. -/
lemma aligned_of_reads_all {callback : σ → Nat → List Byte → σ × Nat}
    (h : ∀ s id bytes, (callback s id bytes).2 = bytes.length)
    (files : List (Nat × List Byte × HashType)) (s : σ) : Aligned callback files s [] := by
  induction files generalizing s with
  | nil => trivial
  | cons file files ih =>
    refine ⟨Repetition.repeats_nil_left _, ?_⟩
    rw [h, List.nil_append, List.drop_length]
    exact ih _

/-- The windows on what has been left, followed by the streams. -/
lemma zipStreams_recorded {callback : σ → Nat → List Byte → σ × Nat}
    (hle : ∀ s id bytes, (callback s id bytes).2 ≤ bytes.length)
    (files : List (Nat × List Byte × HashType)) (left : List Byte)
    (given : List (Nat × List Byte)) (s : σ) :
    ∃ handed s', zipStreams (recorded callback) (files.map (·.1))
        (files.map fun file => (file.2.1.length : Int)) (some (left ++ fileData files)) (given, s) =
          .ok (given ++ handed, s') ∧
      handed.map (·.1) = files.map (·.1) ∧
      (handed = files.map (fun file => (file.1, file.2.1)) ↔ Aligned callback files s left) := by
  induction files generalizing left given s with
  | nil => exact ⟨[], s, by simp [zipStreams, pure, Except.pure], rfl, by simp [Aligned]⟩
  | cons file files ih =>
    obtain ⟨id, bytes, hashType⟩ := file
    have hdata : left ++ fileData ((id, bytes, hashType) :: files) =
        (left ++ bytes) ++ fileData files := by
      rw [List.append_assoc]
      rfl
    have hbounded : (left ++ bytes ++ fileData files).take bytes.length =
        (left ++ bytes).take bytes.length :=
      List.take_append_of_le_length (by rw [List.length_append]; omega)
    have hcons : zipStreams (recorded callback) (((id, bytes, hashType) :: files).map (·.1))
        (((id, bytes, hashType) :: files).map fun file => (file.2.1.length : Int))
        (some (left ++ fileData ((id, bytes, hashType) :: files))) (given, s) =
      let bounded := (left ++ bytes).take bytes.length
      zipStreams (recorded callback) (files.map (·.1))
        (files.map fun file => (file.2.1.length : Int))
        (some ((left ++ bytes).drop (callback s id bounded).2 ++ fileData files))
        (given ++ [(id, bounded)], (callback s id bounded).1) := by
      have htaken := hle s id ((left ++ bytes).take bytes.length)
      have hlength : ((left ++ bytes).take bytes.length).length ≤ (left ++ bytes).length :=
        List.length_take_le' ..
      rw [List.map_cons, List.map_cons, hdata, zipStreams]
      simp only [orThrow, pure_bind, if_neg (not_lt.mpr (Int.natCast_nonneg _)), Int.toNat_natCast,
        hbounded, recorded, min_eq_left htaken,
        List.drop_append_of_le_length (htaken.trans hlength)]
    obtain ⟨handed, s', hzip, hids, hiff⟩ :=
      ih ((left ++ bytes).drop (callback s id ((left ++ bytes).take bytes.length)).2)
        (given ++ [(id, (left ++ bytes).take bytes.length)])
        (callback s id ((left ++ bytes).take bytes.length)).1
    refine ⟨(id, (left ++ bytes).take bytes.length) :: handed, s', ?_, ?_, ?_⟩
    · rw [hcons]
      simpa only [List.append_assoc, List.singleton_append] using hzip
    · rw [List.map_cons, List.map_cons, hids]
    · have hinitial : (left ++ bytes).take bytes.length = bytes ↔
          Repetition.Repeats left bytes := by
        rw [Repetition.repeats_iff_prefix, List.prefix_iff_eq_take, eq_comm]
      rw [List.map_cons, List.cons.injEq, Prod.mk.injEq, Aligned, ← hinitial, hiff]
      constructor
      · rintro ⟨⟨-, hbytes⟩, haligned⟩
        rw [hbytes] at haligned
        exact ⟨hbytes, haligned⟩
      · rintro ⟨hbytes, haligned⟩
        rw [hbytes]
        exact ⟨⟨rfl, rfl⟩, haligned⟩

lemma begin_recorded (h : Layout env files fsos manifest) {r : ArchiveReader Fso}
    (hopen : Open env files fsos manifest r) {callback : σ → Nat → List Byte → σ × Nat}
    (hle : ∀ s id bytes, (callback s id bytes).2 ≤ bytes.length) (s : σ) (ahead ahead' : Nat) :
    ∃ handed s' r', r.begin env (recorded callback) ([], s) ahead ahead' =
        .ok ((handed, s'), r') ∧
      handed.map (·.1) = files.map (·.1) ∧
      (handed = files.map (fun file => (file.1, file.2.1)) ↔ Aligned callback files s []) := by
  obtain ⟨r1, hr1, hloaded, -⟩ := ensureManifest_spec h hopen ahead
  obtain ⟨sha, hsha, hbytes⟩ := archiveBytes_eq env files fsos manifest
  obtain ⟨handed, s', hzip, hids, hiff⟩ := zipStreams_recorded hle files [] [] s
  have hread : zipStreams (recorded callback) r1.streamIds r1.streamSizes
      ((env.archive.doInputFiltering (.stream false)).read (r1.stream.drop 0)) ([], s) =
        .ok (handed, s') := by
    rw [hloaded.streamIds_eq, hloaded.streamSizes_eq]
    by_cases hfiles : files = []
    · subst hfiles
      exact hzip
    · rw [List.drop_zero, hloaded.stream_eq, hbytes, List.append_assoc, List.append_assoc,
        fileSection, if_neg hfiles, h.read_encodeAll]
      exact hzip
  rw [begin, hr1]
  simp only [ok_bind, show (0 : Int) = (0 : Nat) from rfl, seek_natCast hloaded.closed_eq, hread]
  exact ⟨handed, s', _, rfl, hids, hiff⟩

/-- The callbacks of an archive are called with the ids of its streams, and are handed the streams
themselves if, and only if, what the earlier ones have left unread does not get in the way. -/
theorem handed_iff_aligned {decompress : List Byte → Option (List Byte)}
    {compress : List Byte → List Byte}
    (harchive : env.archive = Archive.new (compressionFilterGenerator decompress compress))
    (hself : (compressionFilterGenerator decompress compress).SelfDelimiting)
    (hmanifests : env.manifests.InvertsManifests) (hobjects : env.fsos.Inverts) (hfsos : fsos ≠ [])
    {manifest' : VersionManifest} {bytes : List Byte}
    (h : writeArchive env files fsos manifest = .ok (manifest', some bytes))
    (program : σ → Nat → ReadProgram σ) (s : σ) (ahead ahead' : Nat) :
    ∃ handed s' r, (ArchiveReader.new bytes).begin env (recorded (ReadProgram.callback program))
        ([], s) ahead ahead' = .ok ((handed, s'), r) ∧
      handed.map (·.1) = files.map (·.1) ∧
      (handed = files.map (fun file => (file.1, file.2.1)) ↔
        Aligned (ReadProgram.callback program) files s []) := by
  obtain ⟨rfl, hcommitted, hlt⟩ := writeArchive_eq_ok hfsos h
  obtain rfl := Option.some.inj hcommitted
  exact begin_recorded ⟨⟨decompress, compress, harchive, hself⟩, hmanifests, hobjects, hlt⟩
    (Or.inl ⟨rfl, rfl, rfl, rfl⟩) (ReadProgram.callback_le program) s ahead ahead'

/-- A callback that asks for as many bytes as its list says for the id it is called with. -/
def readsFor (counts : List (Nat × Nat)) (s : Unit) (id : Nat) : ReadProgram Unit :=
  match counts.lookup id with
  | none => .done s
  | some count => .read count count fun _ => .done s

def twoFiles : List (Nat × List Byte × HashType) := [(1, [5, 6], .sha256), (2, [7], .none)]

/-- The second stream is what is stored if the first has been read. -/
theorem handed_iff_aligned_twoFiles :
    ∃ manifest' bytes s' r,
      writeArchive smallEnv twoFiles [3, 0] smallManifest = .ok (manifest', some bytes) ∧
      (ArchiveReader.new bytes).begin smallEnv
          (recorded (ReadProgram.callback (readsFor [(1, 2)]))) ([], ()) 4 9 =
        .ok (([(1, [5, 6]), (2, [7])], s'), r) := by
  have hok : (writeArchive smallEnv twoFiles [3, 0] smallManifest).toOption.any
      (·.2.isSome) = true := by
    decide +kernel
  rcases hwrite : writeArchive smallEnv twoFiles [3, 0] smallManifest with
    e | ⟨manifest', - | bytes⟩
  · rw [hwrite] at hok
    cases hok
  · rw [hwrite] at hok
    cases hok
  obtain ⟨handed, s', r, hbegin, -, hiff⟩ := handed_iff_aligned rfl selfDelimiting_unary
    inverts_manifestSerializer (inverts_serializerOf Codec.nat) (by simp) hwrite
    (readsFor [(1, 2)]) () 4 9
  have haligned : Aligned (ReadProgram.callback (readsFor [(1, 2)])) twoFiles () [] :=
    ⟨.inl rfl, .inl rfl, trivial⟩
  obtain rfl := hiff.mpr haligned
  exact ⟨manifest', bytes, s', r, rfl, hbegin⟩

/-- A callback that leaves its first stream alone is handed the beginning of that as the second. -/
theorem not_handed_twoFiles :
    ∃ manifest' bytes s' r,
      writeArchive smallEnv twoFiles [3, 0] smallManifest = .ok (manifest', some bytes) ∧
      (ArchiveReader.new bytes).begin smallEnv
          (recorded (ReadProgram.callback (readsFor []))) ([], ()) 4 9 =
        .ok (([(1, [5, 6]), (2, [5])], s'), r) ∧
      [(1, [5, 6]), (2, [5])] ≠ twoFiles.map fun file => (file.1, file.2.1) := by
  have hrun : ((writeArchive smallEnv twoFiles [3, 0] smallManifest).toOption.bind fun written =>
      written.2.bind fun bytes =>
        ((ArchiveReader.new bytes).begin smallEnv
          (recorded (ReadProgram.callback (readsFor []))) ([], ()) 4 9).toOption.map
            (·.1.1)) = some [(1, [5, 6]), (2, [5])] := by
    decide +kernel
  rcases hwrite : writeArchive smallEnv twoFiles [3, 0] smallManifest with
    e | ⟨manifest', - | bytes⟩
  · rw [hwrite] at hrun
    cases hrun
  · rw [hwrite] at hrun
    cases hrun
  rw [hwrite] at hrun
  rcases hbegin : (ArchiveReader.new bytes).begin smallEnv
      (recorded (ReadProgram.callback (readsFor []))) ([], ()) 4 9 with e | ⟨⟨handed, s'⟩, r⟩
  · simp [Except.toOption, hbegin] at hrun
  · simp only [Except.toOption, Option.bind_some, hbegin, Option.map_some, Option.some.injEq]
      at hrun
    subst hrun
    exact ⟨manifest', bytes, s', r, rfl, hbegin, by decide⟩

end ArchiveReader

end BackupProgram
