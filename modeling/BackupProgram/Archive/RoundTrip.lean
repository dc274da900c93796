import BackupProgram.Archive.ArchiveReader
import BackupProgram.Lib.Codec

/-!
# What is written to an archive is read back

The reader finds the three sections where the writer has put them, whatever has been read before.
-/

namespace BackupProgram

open Results FilterGenerator

/-- Decoding stops at the end of the encoding, whatever follows. -/
def FilterGenerator.SelfDelimiting (g : FilterGenerator) : Prop :=
  ∀ bytes rest, g.filterInput (g.filterOutput bytes ++ rest) = some bytes

namespace ArchiveReader

open ArchiveWriter

variable {Fso : Type} {env : ArchiveEnv Fso} {files : List (Nat × List Byte × HashType)}
  {fsos : List Fso} {manifest : VersionManifest}

/-- The sections of the archive, and what is known of the sizes. -/
structure Layout (env : ArchiveEnv Fso) (files : List (Nat × List Byte × HashType))
    (fsos : List Fso) (manifest : VersionManifest) : Prop where
  selfDelimiting : ∃ decompress compress,
    env.archive = Archive.new (compressionFilterGenerator decompress compress) ∧
      (compressionFilterGenerator decompress compress).SelfDelimiting
  manifests : env.manifests.InvertsManifests
  objects : env.fsos.Inverts
  length_lt : (archiveBytes env files fsos manifest).length < maxLength

/-- The compression is the only filter, with or without encryption. -/
lemma Layout.read_encodeAll (h : Layout env files fsos manifest) (inFile includeEncryption : Bool)
    (bytes rest : List Byte) :
    (env.archive.doInputFiltering (.stream inFile) includeEncryption).read
      (encodeAll (env.archive.enumeration includeEncryption) bytes ++ rest) = some bytes := by
  obtain ⟨decompress, compress, harchive, hself⟩ := h.selfDelimiting
  have henumeration : env.archive.enumeration includeEncryption =
      [compressionFilterGenerator decompress compress] := by
    rw [harchive]
    cases includeEncryption <;> rfl
  rw [Archive.read_doInputFiltering, henumeration, FilterNest.read, Option.bind_some,
    decodeAll_cons]
  exact (congrArg (Option.bind · _) (hself bytes rest)).trans rfl

/-- What the reader knows once it has read the manifest. -/
structure Loaded (env : ArchiveEnv Fso) (files : List (Nat × List Byte × HashType))
    (fsos : List Fso) (manifest : VersionManifest) (r : ArchiveReader Fso) : Prop where
  stream_eq : r.stream = archiveBytes env files fsos manifest
  closed_eq : r.closed = false
  versionManifest_eq : r.versionManifest = some (writtenManifest env files fsos manifest)
  manifestOffset_eq : r.manifestOffset = (fileSection env files ++ fsoSection env fsos).length
  manifestSize_eq : r.manifestSize =
    (manifestSection env (writtenManifest env files fsos manifest)).length
  baseObjectsOffset_eq : r.baseObjectsOffset = (fileSection env files).length
  streamIds_eq : r.streamIds = files.map (·.1)
  streamSizes_eq : r.streamSizes = files.map fun file => (file.2.1.length : Int)

/-- Nothing has been read from the archive, or its manifest has. -/
def Open (env : ArchiveEnv Fso) (files : List (Nat × List Byte × HashType))
    (fsos : List Fso) (manifest : VersionManifest) (r : ArchiveReader Fso) : Prop :=
  (r.stream = archiveBytes env files fsos manifest ∧ r.closed = false ∧ r.manifestOffset = -1 ∧
      r.versionManifest = none) ∨
    Loaded env files fsos manifest r

lemma slice_append_append (a b c : List Byte) :
    CircularBuffer.slice (a ++ b ++ c) a.length b.length = b := by
  rw [CircularBuffer.slice, List.append_assoc, List.drop_left, List.take_left]

lemma Open.closed_eq {r : ArchiveReader Fso} (h : Open env files fsos manifest r) :
    r.closed = false :=
  h.elim (fun hnew => hnew.2.1) fun hloaded => hloaded.closed_eq

lemma seek_natCast {r : ArchiveReader Fso} (hclosed : r.closed = false) (n : Nat) :
    r.seek n = .ok { r with position := n } := by
  rw [seek, hclosed, if_neg (by decide), if_pos (Int.natCast_nonneg n)]
  rfl

/-- What the first filter of an archive reads from keeps open. -/
lemma Layout.keepsOpen (h : Layout env files fsos manifest) :
    (env.archive.doInputFiltering (.stream false)).keepsOpen = true := by
  obtain ⟨decompress, compress, harchive, -⟩ := h.selfDelimiting
  rw [harchive]
  rfl

/-- The lists of a manifest that has been written are not null. -/
lemma ensureNonNull_writtenManifest (env : ArchiveEnv Fso)
    (files : List (Nat × List Byte × HashType)) (fsos : List Fso) (manifest : VersionManifest) :
    (writtenManifest env files fsos manifest).ensureNonNull =
      writtenManifest env files fsos manifest :=
  rfl

lemma boundedStream_natCast (r : ArchiveReader Fso) (n : Nat) :
    r.boundedStream n = .ok (CircularBuffer.slice r.stream r.position n) := by
  rw [boundedStream, if_pos (Int.natCast_nonneg n)]
  rfl

/-- The sections, the length of the last one, and the hash. -/
lemma archiveBytes_eq (env : ArchiveEnv Fso) (files : List (Nat × List Byte × HashType))
    (fsos : List Fso) (manifest : VersionManifest) :
    ∃ sha : List Byte, sha.length = 32 ∧ archiveBytes env files fsos manifest =
      fileSection env files ++ fsoSection env fsos ++
        manifestSection env (writtenManifest env files fsos manifest) ++
        (getBytes (manifestSection env (writtenManifest env files fsos manifest)).length ++
          sha) :=
  ⟨_, env.length_sha256 _, by rw [archiveBytes, hashedBytes, List.append_assoc _ (getBytes _)]⟩

/-- The manifest is found both from the end of the file and at its recorded offset. -/
lemma locateManifest_spec (h : Layout env files fsos manifest) {r : ArchiveReader Fso}
    (hopen : Open env files fsos manifest r) :
    r.locateManifest = .ok { r with
      position := (fileSection env files ++ fsoSection env fsos).length
      manifestSize := (manifestSection env (writtenManifest env files fsos manifest)).length
      manifestOffset := (fileSection env files ++ fsoSection env fsos).length } := by
  obtain ⟨sha, hsha, hbytes⟩ := archiveBytes_eq env files fsos manifest
  have hlt := h.length_lt
  rw [hbytes] at hlt
  rw [locateManifest]
  have hclosed := hopen.closed_eq
  rcases hopen with ⟨hstream, -, hoffset, -⟩ | hloaded
  · rw [hbytes] at hstream
    generalize fileSection env files ++ fsoSection env fsos = sections at *
    generalize manifestSection env (writtenManifest env files fsos manifest) = section3 at *
    simp only [List.length_append, length_getBytes, hsha, maxLength] at hlt
    have hlength : (r.stream.length : Int) + (-8 - 256 / 8) =
        ((sections ++ section3).length : Nat) := by
      rw [hstream]
      simp only [List.length_append, length_getBytes, hsha]
      push_cast
      omega
    have htemp : CircularBuffer.slice r.stream (sections ++ section3).length 8 =
        getBytes section3.length := by
      rw [hstream, ← length_getBytes section3.length, ← List.append_assoc]
      exact slice_append_append _ _ _
    have hstart : (r.stream.length : Int) + (-8 - 256 / 8 - (section3.length : Int)) =
        (sections.length : Nat) := by
      rw [hstream]
      simp only [List.length_append, length_getBytes, hsha]
      push_cast
      omega
    rw [if_pos (by rw [hoffset]; norm_num)]
    have hseek : ({ r with position := (sections ++ section3).length } : ArchiveReader Fso).seek
        sections.length = .ok { r with position := sections.length } :=
      seek_natCast (r := { r with position := _ }) hclosed _
    simp only [hlength, seek_natCast hclosed, ok_bind, htemp, length_getBytes, ne_eq,
      not_true_eq_false, if_false, toInt64_getBytes (show section3.length < 2 ^ 63 by omega),
      hstart, hseek]
    rfl
  · rw [if_neg (by rw [hloaded.manifestOffset_eq]; omega), hloaded.manifestOffset_eq,
      seek_natCast hclosed, ← hloaded.manifestOffset_eq, ← hloaded.manifestSize_eq]

lemma readManifest_spec (h : Layout env files fsos manifest) {r : ArchiveReader Fso}
    (hopen : Open env files fsos manifest r) (ahead : Nat) :
    ∃ r', r.readManifest env ahead = .ok (writtenManifest env files fsos manifest, r') ∧
      Loaded env files fsos manifest r' ∧ r'.leaked = r.leaked := by
  obtain ⟨sha, hsha, hbytes⟩ := archiveBytes_eq env files fsos manifest
  have hstream : r.stream = archiveBytes env files fsos manifest :=
    hopen.elim (fun hnew => hnew.1) fun hloaded => hloaded.stream_eq
  have hclosed := hopen.closed_eq
  have hslice : CircularBuffer.slice r.stream (fileSection env files ++ fsoSection env fsos).length
      (manifestSection env (writtenManifest env files fsos manifest)).length =
        manifestSection env (writtenManifest env files fsos manifest) := by
    rw [hstream, hbytes, slice_append_append]
  have hread := h.read_encodeAll false false
    (env.manifests.serialize (writtenManifest env files fsos manifest)) []
  rw [List.append_nil] at hread
  rw [readManifest, locateManifest_spec h hopen]
  simp only [ok_bind, boundedStream_natCast, hslice]
  -- what is deserialized may have null lists in place of empty ones
  obtain ⟨m, hm, hnonNull⟩ := h.manifests (writtenManifest env files fsos manifest)
  rw [ensureNonNull_writtenManifest] at hnonNull
  obtain ⟨metadata, hmetadata⟩ : ∃ metadata, m.archiveMetadata = some metadata := by
    refine Option.ne_none_iff_exists'.mp fun hnone => ?_
    have hsame := congrArg VersionManifest.archiveMetadata hnonNull
    simp [VersionManifest.ensureNonNull, hnone, writtenManifest] at hsame
  have hwritten : { m with archiveMetadata := some metadata.ensureNonNull } =
      writtenManifest env files fsos manifest := by
    rw [← hnonNull, VersionManifest.ensureNonNull, hmetadata, Option.map_some]
  have hlists := Option.some.inj (congrArg VersionManifest.archiveMetadata hwritten)
  simp only [manifestSection, hread, orThrow, hm, hmetadata, pure_bind, hwritten]
  rw [hlists]
  refine ⟨_, rfl, ⟨hstream, hclosed, rfl, rfl, rfl, ?_, rfl, rfl⟩, rfl⟩
  simp only [List.length_append]
  push_cast
  ring

lemma ensureManifest_spec (h : Layout env files fsos manifest) {r : ArchiveReader Fso}
    (hopen : Open env files fsos manifest r) (ahead : Nat) :
    ∃ r', r.ensureManifest env ahead = .ok (writtenManifest env files fsos manifest, r') ∧
      Loaded env files fsos manifest r' ∧ r'.leaked = r.leaked := by
  rw [ensureManifest]
  rcases hopen with hnew | hloaded
  · rw [hnew.2.2.2]
    exact readManifest_spec h (Or.inl hnew) ahead
  · rw [hloaded.versionManifest_eq]
    exact ⟨r, rfl, hloaded, rfl⟩

/-- The objects are cut out of their section by their sizes. -/
lemma deserializeEntries_spec (h : env.fsos.Inverts) (fsos : List Fso) :
    deserializeEntries env (fsos.map fun fso => ((env.fsos.serialize fso).length : Int))
      (fsoData env fsos) = .ok fsos := by
  induction fsos with
  | nil => rfl
  | cons fso fsos ih =>
    have hdata : fsoData env (fso :: fsos) = env.fsos.serialize fso ++ fsoData env fsos := rfl
    rw [List.map_cons, deserializeEntries, hdata]
    simp only [Int.toNat_natCast, List.take_left, List.drop_left, orThrow, h fso, pure_bind, ih,
      ok_bind, if_neg (not_lt.mpr (Int.natCast_nonneg _))]
    rfl

lemma readBaseObjects_spec (h : Layout env files fsos manifest) {r : ArchiveReader Fso}
    (hopen : Open env files fsos manifest r) (ahead ahead' : Nat) :
    ∃ r', r.readBaseObjects env ahead ahead' = .ok (fsos, r') ∧
      Loaded env files fsos manifest r' ∧ r'.leaked = r.leaked := by
  obtain ⟨r1, hr1, hloaded, hleaked⟩ := ensureManifest_spec h hopen ahead
  obtain ⟨sha, hsha, hbytes⟩ := archiveBytes_eq env files fsos manifest
  have hslice : CircularBuffer.slice r1.stream (fileSection env files).length
      (fsoSection env fsos).length = fsoSection env fsos := by
    rw [hloaded.stream_eq, hbytes, List.append_assoc (fileSection env files ++ fsoSection env fsos),
      slice_append_append]
  have hsize : ((fileSection env files ++ fsoSection env fsos).length : Int) -
      (fileSection env files).length = ((fsoSection env fsos).length : Nat) := by
    rw [List.length_append]
    push_cast
    ring
  have hread := h.read_encodeAll false true (fsoData env fsos) []
  rw [List.append_nil] at hread
  rw [readBaseObjects, hr1]
  simp only [ok_bind, hloaded.baseObjectsOffset_eq, hloaded.manifestOffset_eq,
    seek_natCast hloaded.closed_eq, hsize, boundedStream_natCast, hslice]
  simp only [fsoSection, hread, orThrow, pure_bind, writtenManifest,
    deserializeEntries_spec h.objects, ok_bind]
  exact ⟨_, rfl, ⟨hloaded.stream_eq, hloaded.closed_eq, hloaded.versionManifest_eq, rfl,
    hloaded.manifestSize_eq, rfl, hloaded.streamIds_eq, hloaded.streamSizes_eq⟩, hleaked⟩

/-- A callback that reads its whole stream is handed the streams one after the other. -/
lemma zipStreams_collect (files : List (Nat × List Byte × HashType))
    (s : List (Nat × List Byte)) :
    zipStreams collect (files.map (·.1)) (files.map fun file => (file.2.1.length : Int))
      (some (fileData files)) s = .ok (s ++ files.map fun file => (file.1, file.2.1)) := by
  induction files generalizing s with
  | nil => simp [zipStreams, pure, Except.pure]
  | cons file files ih =>
    have hdata : fileData (file :: files) = file.2.1 ++ fileData files := rfl
    rw [List.map_cons, List.map_cons, zipStreams, hdata]
    simp only [orThrow, pure_bind, if_neg (not_lt.mpr (Int.natCast_nonneg _)), Int.toNat_natCast,
      List.take_left, collect, Nat.min_self, List.drop_left]
    exact (ih _).trans (by simp)

lemma begin_spec (h : Layout env files fsos manifest) {r : ArchiveReader Fso}
    (hopen : Open env files fsos manifest r) (ahead ahead' : Nat) :
    ∃ r', r.begin env collect [] ahead ahead' =
        .ok (files.map fun file => (file.1, file.2.1), r') ∧
      Loaded env files fsos manifest r' ∧ r'.leaked = true := by
  obtain ⟨r1, hr1, hloaded, -⟩ := ensureManifest_spec h hopen ahead
  obtain ⟨sha, hsha, hbytes⟩ := archiveBytes_eq env files fsos manifest
  have hzip : zipStreams collect r1.streamIds r1.streamSizes
      ((env.archive.doInputFiltering (.stream false)).read (r1.stream.drop 0)) [] =
        .ok (files.map fun file => (file.1, file.2.1)) := by
    rw [hloaded.streamIds_eq, hloaded.streamSizes_eq]
    by_cases hfiles : files = []
    · subst hfiles
      rfl
    · rw [List.drop_zero, hloaded.stream_eq, hbytes, List.append_assoc, List.append_assoc,
        fileSection, if_neg hfiles, h.read_encodeAll, zipStreams_collect, List.nil_append]
  rw [begin, hr1]
  simp only [ok_bind, show (0 : Int) = (0 : Nat) from rfl, seek_natCast hloaded.closed_eq, hzip]
  exact ⟨_, rfl, ⟨hloaded.stream_eq, hloaded.closed_eq, hloaded.versionManifest_eq,
    hloaded.manifestOffset_eq, hloaded.manifestSize_eq, hloaded.baseObjectsOffset_eq,
    hloaded.streamIds_eq, hloaded.streamSizes_eq⟩, by simp only [h.keepsOpen, Bool.or_true]⟩

/-- What a call on the reader of an archive is to return. -/
def expected (files : List (Nat × List Byte × HashType)) (fsos : List Fso)
    (versionManifest : VersionManifest) : ReaderCall → CallResult Fso
  | .readManifest => .manifest versionManifest
  | .readBaseObjects => .baseObjects fsos
  | .begin => .streams (files.map fun file => (file.1, file.2.1))

/-- A native stream that has been left closes the file of its reader when it is finalized. -/
lemma Open.finalizeStreams {r : ArchiveReader Fso} (h : Open env files fsos manifest r)
    (hleaked : r.leaked = false) : Open env files fsos manifest r.finalizeStreams := by
  have hclosed : r.finalizeStreams.closed = false := by
    rw [ArchiveReader.finalizeStreams, h.closed_eq, hleaked]
    rfl
  rcases h with ⟨hstream, -, hoffset, hmanifest⟩ | hloaded
  · exact .inl ⟨hstream, hclosed, hoffset, hmanifest⟩
  · exact .inr ⟨hloaded.stream_eq, hclosed, hloaded.versionManifest_eq, hloaded.manifestOffset_eq,
      hloaded.manifestSize_eq, hloaded.baseObjectsOffset_eq, hloaded.streamIds_eq,
      hloaded.streamSizes_eq⟩

/-- A call returns what is expected as long as the file is open. Only `Begin` leaves a native stream
on the file. -/
lemma call_spec (h : Layout env files fsos manifest) {r : ArchiveReader Fso}
    (hopen : Open env files fsos manifest r) {c : CallOnReader}
    (hfinalized : r.leaked = true → c.finalized = false) :
    ∃ r', r.call env c =
        .ok (expected files fsos (writtenManifest env files fsos manifest) c.call, r') ∧
      Loaded env files fsos manifest r' ∧ r'.leaked = (r.leaked || decide (c.call = .begin)) := by
  obtain ⟨r0, hr0, hopen0, hleaked0⟩ : ∃ r0,
      (if c.finalized then r.finalizeStreams else r) = r0 ∧ Open env files fsos manifest r0 ∧
        r0.leaked = r.leaked := by
    rcases hfin : c.finalized with _ | _
    · exact ⟨r, rfl, hopen, rfl⟩
    · have hleaked : r.leaked = false := by
        rw [Bool.eq_false_iff]
        intro hleaked
        rw [hfinalized hleaked] at hfin
        cases hfin
      exact ⟨_, rfl, hopen.finalizeStreams hleaked, hleaked.symm⟩
  rw [call, hr0, ← hleaked0]
  obtain ⟨c, ahead, ahead', finalized⟩ := c
  cases c with
  | readManifest =>
    obtain ⟨r', hr', hloaded, hleaked⟩ := readManifest_spec h hopen0 ahead
    exact ⟨r', by simp only [hr', ok_bind]; rfl, hloaded, by simp [hleaked]⟩
  | readBaseObjects =>
    obtain ⟨r', hr', hloaded, hleaked⟩ := readBaseObjects_spec h hopen0 ahead ahead'
    exact ⟨r', by simp only [hr', ok_bind]; rfl, hloaded, by simp [hleaked]⟩
  | begin =>
    obtain ⟨r', hr', hloaded, hleaked⟩ := begin_spec h hopen0 ahead ahead'
    exact ⟨r', by simp only [hr', ok_bind]; rfl, hloaded, by simp [hleaked]⟩

lemma seek_closed {r : ArchiveReader Fso} (hclosed : r.closed = true) (offset : Int) :
    r.seek offset = .error .objectDisposed := by
  rw [seek, if_pos hclosed]
  rfl

lemma readManifest_closed {r : ArchiveReader Fso} (hclosed : r.closed = true) (ahead : Nat) :
    r.readManifest env ahead = .error .objectDisposed := by
  have hlocate : r.locateManifest = .error .objectDisposed := by
    rw [locateManifest]
    split_ifs
    · simp only [seek_closed hclosed]
      rfl
    · exact seek_closed hclosed _
  rw [readManifest, hlocate]
  rfl

/-- Nothing can be read from a file that is closed. -/
lemma call_closed {r : ArchiveReader Fso} (hclosed : r.closed = true) (c : CallOnReader) :
    r.call env c = .error .objectDisposed := by
  have hclosed0 : (if c.finalized then r.finalizeStreams else r).closed = true := by
    split_ifs
    · rw [finalizeStreams, hclosed]
      rfl
    · exact hclosed
  have hensure : ∀ {r : ArchiveReader Fso}, r.closed = true → ∀ ahead,
      r.ensureManifest env ahead = .error .objectDisposed ∨
        ∃ m, r.ensureManifest env ahead = .ok (m, r) := by
    intro r hr ahead
    rw [ensureManifest]
    cases r.versionManifest with
    | none => exact .inl (readManifest_closed hr ahead)
    | some m => exact .inr ⟨m, rfl⟩
  rw [call]
  generalize (if c.finalized then r.finalizeStreams else r) = r0 at hclosed0
  obtain ⟨c, ahead, ahead', finalized⟩ := c
  cases c with
  | readManifest =>
    simp only [readManifest_closed hclosed0]
    rfl
  | readBaseObjects =>
    rcases hensure hclosed0 ahead with h | ⟨m, h⟩
    · simp only [readBaseObjects, h]
      rfl
    · simp only [readBaseObjects, h, ok_bind, seek_closed hclosed0]
      rfl
  | begin =>
    rcases hensure hclosed0 ahead with h | ⟨m, h⟩
    · simp only [begin, h]
      rfl
    · simp only [begin, h, ok_bind, seek_closed hclosed0]
      rfl

/-- By induction over the calls: the results are the expected ones until native streams that have
been left are finalized. -/
lemma calls_spec (h : Layout env files fsos manifest) {r : ArchiveReader Fso}
    (hopen : Open env files fsos manifest r) (cs : List CallOnReader) :
    r.calls env cs = .ok (cs.map fun c =>
        expected files fsos (writtenManifest env files fsos manifest) c.call) ↔
      (r.leaked = true → ∀ c ∈ cs, c.finalized = false) ∧
        cs.Pairwise fun c c' => c.call = .begin → c'.finalized = false := by
  induction cs generalizing r with
  | nil => exact iff_of_true rfl ⟨fun _ _ hc => absurd hc List.not_mem_nil, .nil⟩
  | cons c cs ih =>
    by_cases hfinalized : r.leaked = true → c.finalized = false
    · obtain ⟨r', hr', hloaded, hleaked⟩ := call_spec h hopen hfinalized
      have hrest := ih (.inr hloaded)
      rw [hleaked, Bool.or_eq_true, decide_eq_true_eq, or_imp] at hrest
      have hcons : r.calls env (c :: cs) = .ok ((c :: cs).map fun c =>
          expected files fsos (writtenManifest env files fsos manifest) c.call) ↔
          r'.calls env cs = .ok (cs.map fun c =>
            expected files fsos (writtenManifest env files fsos manifest) c.call) := by
        rw [calls, hr', ok_bind]
        simp only [bind_eq_ok, pure_eq_ok, List.map_cons, List.cons.injEq, true_and,
          exists_eq_right]
      rw [hcons, hrest, List.forall_mem_cons, List.pairwise_cons]
      constructor
      · rintro ⟨⟨hbefore, hbegin⟩, hpairwise⟩
        exact ⟨fun hl => ⟨hfinalized hl, hbefore hl⟩, fun c' hc' hc => hbegin hc c' hc', hpairwise⟩
      · rintro ⟨hbefore, hbegin, hpairwise⟩
        exact ⟨⟨fun hl => (hbefore hl).2, fun hc c' hc' => hbegin c' hc' hc⟩, hpairwise⟩
    · -- the file is closed before the call
      rw [Classical.not_imp, Bool.not_eq_false] at hfinalized
      obtain ⟨hleaked, hfin⟩ := hfinalized
      have hclosed : r.finalizeStreams.closed = true := by
        rw [finalizeStreams, hleaked, Bool.or_true]
      have hsame : r.call env c = r.finalizeStreams.call env { c with finalized := false } := by
        rw [call, call, hfin]
        rfl
      refine iff_of_false (fun hok => ?_) fun hcond => ?_
      · rw [calls, hsame, call_closed hclosed] at hok
        cases hok
      · rw [hcond.1 hleaked c List.mem_cons_self] at hfin
        cases hfin

/-- What a reader of the bytes does, if they are those of an archive. -/
lemma calls_new_spec (h : Layout env files fsos manifest) (cs : List CallOnReader) :
    (ArchiveReader.new (archiveBytes env files fsos manifest)).calls env cs = .ok (cs.map fun c =>
        expected files fsos (writtenManifest env files fsos manifest) c.call) ↔
      cs.Pairwise fun c c' => c.call = .begin → c'.finalized = false := by
  rw [calls_spec h (.inl ⟨rfl, rfl, rfl, rfl⟩)]
  exact and_iff_right fun hleaked => by cases hleaked

/-- Calls on a reader of what has been written return the manifest, the objects and the streams that
were written, in any order and as often as one likes, if and only if no native stream that a `Begin`
has left is finalized before a later call is done. -/
theorem calls_writeArchive {decompress : List Byte → Option (List Byte)}
    {compress : List Byte → List Byte}
    (harchive : env.archive = Archive.new (compressionFilterGenerator decompress compress))
    (hself : (compressionFilterGenerator decompress compress).SelfDelimiting)
    (hmanifests : env.manifests.InvertsManifests) (hobjects : env.fsos.Inverts) (hfsos : fsos ≠ [])
    {manifest' : VersionManifest} {committed : Option (List Byte)}
    (h : writeArchive env files fsos manifest = .ok (manifest', committed)) :
    { manifest with archiveMetadata := manifest'.archiveMetadata } = manifest' ∧
      ∃ bytes, committed = some bytes ∧ ∀ cs : List CallOnReader,
        (ArchiveReader.new bytes).calls env cs =
            .ok (cs.map fun c => expected files fsos manifest' c.call) ↔
          cs.Pairwise fun c c' => c.call = .begin → c'.finalized = false := by
  obtain ⟨rfl, hcommitted, hlt⟩ := writeArchive_eq_ok hfsos h
  exact ⟨rfl, _, hcommitted, fun cs =>
    calls_new_spec ⟨⟨decompress, compress, harchive, hself⟩, hmanifests, hobjects, hlt⟩ cs⟩

/-! ### A small archive -/

/-- An encoding that ends by itself: a one before each byte, and a zero at the end. -/
def unaryCompress (bytes : List Byte) : List Byte := bytes.flatMap (fun b => [1, b]) ++ [0]

def unaryDecompress : List Byte → Option (List Byte)
  | 1 :: b :: rest => (unaryDecompress rest).map (b :: ·)
  | 0 :: _ => some []
  | _ => none

lemma selfDelimiting_unary :
    (compressionFilterGenerator unaryDecompress unaryCompress).SelfDelimiting := by
  intro bytes rest
  change unaryDecompress (unaryCompress bytes ++ rest) = some bytes
  induction bytes with
  | nil => rfl
  | cons b bytes ih =>
    have hcons : unaryCompress (b :: bytes) ++ rest = 1 :: b :: (unaryCompress bytes ++ rest) := by
      simp [unaryCompress]
    rw [hcons, unaryDecompress, ih]
    rfl

def metadataCodec : Codec ArchiveMetadata :=
  Codec.via
    (fun m => (m.entriesSizeInArchive, m.entrySizes, m.streamIds, m.streamSizes))
    (fun t => ⟨t.1, t.2.1, t.2.2.1, t.2.2.2⟩) (fun _ => rfl)
    (Codec.pair Codec.int (Codec.pair (Codec.option (Codec.list Codec.int))
      (Codec.pair (Codec.option (Codec.list Codec.nat)) (Codec.option (Codec.list Codec.int)))))

def manifestCodec : Codec VersionManifest :=
  Codec.via
    (fun m => (([m.creationTime, m.versionNumber, m.entryCount], m.versionDependencies),
      [m.firstStreamUniqueId, m.nextStreamUniqueId, m.firstDifferentialChainUniqueId,
        m.nextDifferentialChainUniqueId], m.archiveMetadata))
    (fun t =>
      { creationTime := t.1.1.getD 0 0
        versionNumber := t.1.1.getD 1 0
        entryCount := t.1.1.getD 2 0
        versionDependencies := t.1.2
        firstStreamUniqueId := t.2.1.getD 0 0
        nextStreamUniqueId := t.2.1.getD 1 0
        firstDifferentialChainUniqueId := t.2.1.getD 2 0
        nextDifferentialChainUniqueId := t.2.1.getD 3 0
        archiveMetadata := t.2.2 }) (fun _ => rfl)
    (Codec.pair (Codec.pair (Codec.list Codec.int) (Codec.list Codec.int))
      (Codec.pair (Codec.list Codec.nat) (Codec.option metadataCodec)))

/-- The serializer that a codec gives. -/
def serializerOf {α : Type} (c : Codec α) : Serializer α where
  serialize := c.encode
  deserialize bytes := (c.decode bytes).map Prod.fst

lemma inverts_serializerOf {α : Type} (c : Codec α) : (serializerOf c).Inverts := by
  intro a
  have h := c.decode_encode a []
  rw [List.append_nil] at h
  exact congrArg (Option.map Prod.fst) h

/-- Empty lists come back as null. -/
def withNulls (m : VersionManifest) : VersionManifest :=
  { m with archiveMetadata := m.archiveMetadata.map fun metadata =>
      { metadata with
        entrySizes := metadata.entrySizes.filter (!·.isEmpty)
        streamIds := metadata.streamIds.filter (!·.isEmpty)
        streamSizes := metadata.streamSizes.filter (!·.isEmpty) } }

lemma ensureNonNull_withNulls (m : VersionManifest) :
    (withNulls m).ensureNonNull = m.ensureNonNull := by
  have hlist : ∀ {α : Type} (l : Option (List α)),
      (l.filter (!·.isEmpty)).getD [] = l.getD [] := by
    intro α l
    rcases l with _ | _ | _ <;> rfl
  simp only [VersionManifest.ensureNonNull, withNulls, Option.map_map, VersionManifest.mk.injEq,
    true_and]
  refine congrArg (Option.map · m.archiveMetadata) (funext fun metadata => ?_)
  simp only [Function.comp_apply, ArchiveMetadata.ensureNonNull, hlist]

/-- Manifests are serialized as protobuf does it. -/
def manifestSerializer : Serializer VersionManifest where
  serialize := manifestCodec.encode
  deserialize bytes := (manifestCodec.decode bytes).map fun m => withNulls m.1

lemma inverts_manifestSerializer : manifestSerializer.InvertsManifests := by
  intro m
  refine ⟨withNulls m, ?_, ensureNonNull_withNulls m⟩
  have h := manifestCodec.decode_encode m []
  rw [List.append_nil] at h
  exact congrArg (Option.map fun m => withNulls m.1) h

/-- An environment whose objects are numbers. -/
def smallEnv : ArchiveEnv Nat where
  archive := Archive.new (compressionFilterGenerator unaryDecompress unaryCompress)
  manifests := manifestSerializer
  fsos := serializerOf Codec.nat
  hash _ _ := List.replicate 32 0
  length_sha256 _ := rfl

def smallManifest : VersionManifest := ⟨0, 0, [], 2, 1, 3, 1, 1, none⟩

def smallFiles : List (Nat × List Byte × HashType) := [(1, [5, 6], .sha256), (2, [], .none)]

/-- Nothing is finalized, and then the stream that a first `Begin` has left. -/
def smallCalls (finalized : Bool) : List CallOnReader :=
  [⟨.readManifest, 1, 0, true⟩, ⟨.begin, 4, 9, true⟩, ⟨.readBaseObjects, 0, 7, finalized⟩,
    ⟨.begin, 0, 2, false⟩]

/-- Two streams, one of them empty, and two objects are read back, some of them twice. -/
theorem calls_writeArchive_smallEnv :
    ∃ manifest' bytes,
      writeArchive smallEnv smallFiles [3, 0] smallManifest = .ok (manifest', some bytes) ∧
      (ArchiveReader.new bytes).calls smallEnv (smallCalls false) =
        .ok [.manifest manifest', .streams [(1, [5, 6]), (2, [])], .baseObjects [3, 0],
          .streams [(1, [5, 6]), (2, [])]] := by
  have hok : (writeArchive smallEnv smallFiles [3, 0] smallManifest).toOption.isSome = true := by
    decide +kernel
  rcases hwrite : writeArchive smallEnv smallFiles [3, 0] smallManifest with
    e | ⟨manifest', committed⟩
  · rw [hwrite] at hok
    cases hok
  obtain ⟨-, bytes, rfl, hcalls⟩ := calls_writeArchive rfl selfDelimiting_unary
    inverts_manifestSerializer (inverts_serializerOf Codec.nat) (by simp) hwrite
  exact ⟨manifest', bytes, rfl, (hcalls (smallCalls false)).mpr (by decide)⟩

/-- The garbage collector runs between a `Begin` and the next call. -/
theorem not_calls_writeArchive_finalized :
    ∃ manifest' bytes,
      writeArchive smallEnv smallFiles [3, 0] smallManifest = .ok (manifest', some bytes) ∧
      (ArchiveReader.new bytes).calls smallEnv
          [⟨.begin, 4, 9, false⟩, ⟨.readManifest, 1, 0, true⟩] ≠
        .ok [.streams [(1, [5, 6]), (2, [])], .manifest manifest'] := by
  have hok : (writeArchive smallEnv smallFiles [3, 0] smallManifest).toOption.isSome = true := by
    decide +kernel
  rcases hwrite : writeArchive smallEnv smallFiles [3, 0] smallManifest with
    e | ⟨manifest', committed⟩
  · rw [hwrite] at hok
    cases hok
  obtain ⟨rfl, rfl, hlt⟩ := writeArchive_eq_ok (by simp) hwrite
  refine ⟨_, _, rfl, fun hcalls => ?_⟩
  have hpairwise := (calls_new_spec ⟨⟨_, _, rfl, selfDelimiting_unary⟩, inverts_manifestSerializer,
    inverts_serializerOf Codec.nat, hlt⟩ [⟨.begin, 4, 9, false⟩, ⟨.readManifest, 1, 0, true⟩]).mp
    hcalls
  exact absurd hpairwise (by decide)

end ArchiveReader

end BackupProgram
