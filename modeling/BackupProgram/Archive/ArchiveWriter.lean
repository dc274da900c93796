import BackupProgram.Archive.Filters
import BackupProgram.Lib.Results

/-!
# Writing an archive

An archive consists of the filtered contents of the streams, the filtered base objects, the filtered
manifest, the length of the latter, and a hash of all this. The positions of the sections are
recorded in the manifest as the writer goes along.
-/

namespace BackupProgram

/-- The lists may be null after deserialization. -/
structure ArchiveMetadata where
  entriesSizeInArchive : Int
  entrySizes : Option (List Int)
  streamIds : Option (List Nat)
  streamSizes : Option (List Int)
deriving DecidableEq, Repr

structure VersionManifest where
  creationTime : Int
  versionNumber : Int
  versionDependencies : List Int
  entryCount : Int
  firstStreamUniqueId : Nat
  nextStreamUniqueId : Nat
  firstDifferentialChainUniqueId : Nat
  nextDifferentialChainUniqueId : Nat
  archiveMetadata : Option ArchiveMetadata
deriving DecidableEq, Repr

def ArchiveMetadata.ensureNonNull (m : ArchiveMetadata) : ArchiveMetadata :=
  { m with
    entrySizes := some (m.entrySizes.getD [])
    streamIds := some (m.streamIds.getD [])
    streamSizes := some (m.streamSizes.getD []) }

/-- What `ReadManifest` makes of a manifest that has been deserialized. -/
def VersionManifest.ensureNonNull (m : VersionManifest) : VersionManifest :=
  { m with archiveMetadata := m.archiveMetadata.map ArchiveMetadata.ensureNonNull }

/-- The exceptions of the archive classes. -/
inductive ArchiveError where
  | invalidProgramState
  | invalidData
  | argumentOutOfRange
  | argumentNull
  | nullReference
  | objectDisposed
  | io
  | filter
deriving DecidableEq, Repr

inductive HashType where
  | none
  | sha1
  | md5
  | sha256
deriving DecidableEq, Repr

/-- Protobuf for one type. -/
structure Serializer (α : Type) where
  serialize : α → List Byte
  deserialize : List Byte → Option α

def Serializer.Inverts {α : Type} (s : Serializer α) : Prop :=
  ∀ a, s.deserialize (s.serialize a) = some a

/-- Null lists and empty ones are serialized alike. -/
def Serializer.InvertsManifests (s : Serializer VersionManifest) : Prop :=
  ∀ m, ∃ m', s.deserialize (s.serialize m) = some m' ∧ m'.ensureNonNull = m.ensureNonNull

/-- What the archive classes use of other code: the filters, protobuf, and the hashes. -/
structure ArchiveEnv (Fso : Type) where
  archive : Archive
  manifests : Serializer VersionManifest
  fsos : Serializer Fso
  hash : HashType → List Byte → List Byte
  length_sha256 : ∀ bytes, (hash .sha256 bytes).length = 32

/-- Numbers of type `long` end here. -/
def maxLength : Nat := 2 ^ 63

/-- `BitConverter.GetBytes` of a `long`. -/
def getBytes (n : Int) : List Byte :=
  (List.range 8).map fun i => UInt8.ofNat ((n % 2 ^ 64).toNat / 256 ^ i)

/-- `BitConverter.ToInt64` of eight bytes. -/
def toInt64 (bytes : List Byte) : Int :=
  let n : Nat := bytes.foldr (fun b n => b.toNat + 256 * n) 0
  if n < 2 ^ 63 then n else n - 2 ^ 64

/-- An output filter chain: what has been written to it, and whether it has been flushed, which
ends the encoding. -/
structure OutputFilter where
  nest : FilterNest
  input : List Byte
  flushed : Bool

namespace OutputFilter

def new (nest : FilterNest) : OutputFilter := ⟨nest, [], false⟩

def bytesWritten (f : OutputFilter) : Int := f.input.length

def write (f : OutputFilter) (bytes : List Byte) : OutputFilter :=
  { f with input := f.input ++ bytes }

/-- Flushing or disposing; the bytes go to the stream below once. -/
def flush (f : OutputFilter) : List Byte × OutputFilter :=
  (if f.flushed then [] else f.nest.written f.input, { f with flushed := true })

end OutputFilter

inductive ArchiveState where
  | initial
  | pushingFiles
  | pushingFsos
  | final
deriving DecidableEq, Repr

def ArchiveState.toNat : ArchiveState → Nat
  | .initial => 0
  | .pushingFiles => 1
  | .pushingFsos => 2
  | .final => 3

/-- `hashedStream` holds the bytes that have been written through the hash to the file, and
`committed` the content of the target path after the transaction. -/
structure ArchiveWriter where
  hashedStream : List Byte
  outputFilter : Option OutputFilter
  state : ArchiveState
  streamIds : List Nat
  streamSizes : List Int
  baseObjectEntrySizes : List Int
  initialFsoOffset : Int
  anyFile : Bool
  committed : Option (List Byte)

namespace ArchiveWriter

variable {Fso : Type} (env : ArchiveEnv Fso)

/-- The constructor. -/
def new : ArchiveWriter where
  hashedStream := []
  outputFilter := none
  state := .initial
  streamIds := []
  streamSizes := []
  baseObjectEntrySizes := []
  initialFsoOffset := 0
  anyFile := false
  committed := none

def ensureMinimumState (w : ArchiveWriter) (minState : ArchiveState) : Except ArchiveError Unit :=
  if w.state.toNat < minState.toNat then throw .invalidProgramState else return ()

def ensureMaximumState (w : ArchiveWriter) (maxState : ArchiveState) : Except ArchiveError Unit :=
  if w.state.toNat > maxState.toNat then throw .invalidProgramState else return ()

/-- A write to the hashed stream fails if the file would grow beyond what a `long` can index. -/
def writeHashed (w : ArchiveWriter) (bytes : List Byte) : Except ArchiveError ArchiveWriter :=
  if (w.hashedStream ++ bytes).length < maxLength then
    return { w with hashedStream := w.hashedStream ++ bytes }
  else throw .io

/-- `_outputFilter.Flush(); _outputFilter.Dispose();` -/
def closeFilter (w : ArchiveWriter) : Except ArchiveError ArchiveWriter :=
  match w.outputFilter with
  | none => throw .nullReference
  | some filter => do
    let (bytes, filter) := filter.flush
    let w ← w.writeHashed bytes
    let (bytes, filter) := filter.flush
    let w ← w.writeHashed bytes
    return { w with outputFilter := some filter }

/-- The hashed stream is itself an output filter. -/
def newFilter (includeEncryption : Bool := true) : OutputFilter :=
  OutputFilter.new (env.archive.doOutputFiltering (.stream true) includeEncryption)

def writeFilter (w : ArchiveWriter) (bytes : List Byte) : Except ArchiveError ArchiveWriter :=
  match w.outputFilter with
  | none => throw .nullReference
  | some filter => return { w with outputFilter := some (filter.write bytes) }

/-- `file` is the content of the stream, whose length the source reads from the stream. -/
def addFile (w : ArchiveWriter) (streamId : Nat) (file : List Byte) (type : HashType := .none) :
    Except ArchiveError (Option (List Byte) × ArchiveWriter) := do
  w.ensureMaximumState .pushingFiles
  let w :=
    if w.state = .initial then
      { w with outputFilter := some (newFilter env), state := .pushingFiles }
    else w
  let w :=
    { w with
      streamIds := w.streamIds ++ [streamId]
      streamSizes := w.streamSizes ++ [(file.length : Int)] }
  let w ← w.writeFilter file
  let ret := if type = .none then none else some (env.hash type file)
  return (ret, { w with anyFile := true })

def addFso (w : ArchiveWriter) (fso : Fso) : Except ArchiveError ArchiveWriter := do
  w.ensureMaximumState .pushingFsos
  let w ←
    if w.state = .initial then
      pure
        { w with
          initialFsoOffset := w.hashedStream.length
          outputFilter := some (newFilter env)
          state := .pushingFsos }
    else if w.state = .pushingFiles then do
      let w ← w.closeFilter
      pure
        { w with
          initialFsoOffset := w.hashedStream.length
          outputFilter := some (newFilter env)
          state := .pushingFsos }
    else pure w
  let x0 := (w.outputFilter.map OutputFilter.bytesWritten).getD 0
  let w ← w.writeFilter (env.fsos.serialize fso)
  let x1 := (w.outputFilter.map OutputFilter.bytesWritten).getD 0
  return { w with baseObjectEntrySizes := w.baseObjectEntrySizes ++ [x1 - x0] }

/-- The manifest is changed by the call and returned with the writer. -/
def addVersionManifest (w : ArchiveWriter) (versionManifest : VersionManifest) :
    Except ArchiveError (VersionManifest × ArchiveWriter) := do
  w.ensureMinimumState .pushingFsos
  w.ensureMaximumState .pushingFsos
  let w ← w.closeFilter
  let w := { w with outputFilter := none }
  let versionManifest :=
    { versionManifest with
      archiveMetadata := some
        { entrySizes := some w.baseObjectEntrySizes
          streamIds := some w.streamIds
          streamSizes := some w.streamSizes
          entriesSizeInArchive := w.hashedStream.length - w.initialFsoOffset } }
  let x0 : Int := w.hashedStream.length
  let filter := (newFilter env false).write (env.manifests.serialize versionManifest)
  let (bytes, filter) := filter.flush
  let w ← w.writeHashed bytes
  let x1 : Int := w.hashedStream.length
  let manifestLength := x1 - x0
  let (bytes, _) := filter.flush
  let w ← w.writeHashed bytes
  let w ← w.writeHashed (getBytes manifestLength)
  let bytes := env.hash .sha256 w.hashedStream
  if (w.hashedStream ++ bytes).length < maxLength then
    return (versionManifest,
      { w with committed := some (w.hashedStream ++ bytes), state := .final })
  else throw .io

/-- All calls for one archive, in the order of the class: the manifest as written, and the content
of the target path. -/
def writeArchive (files : List (Nat × List Byte × HashType)) (fsos : List Fso)
    (versionManifest : VersionManifest) :
    Except ArchiveError (VersionManifest × Option (List Byte)) := do
  let w ← files.foldlM (fun w file => do
    let (_, w) ← addFile env w file.1 file.2.1 file.2.2
    return w) new
  let w ← fsos.foldlM (addFso env) w
  let (manifest, w) ← addVersionManifest env w versionManifest
  return (manifest, w.committed)

/-! ### What has been written -/

variable {env}

/-- The content of the streams, one after the other. -/
def fileData (files : List (Nat × List Byte × HashType)) : List Byte :=
  (files.map fun file => file.2.1).flatten

def fsoData (env : ArchiveEnv Fso) (fsos : List Fso) : List Byte :=
  (fsos.map env.fsos.serialize).flatten

/-- The section of the streams; it is left out if there are none. -/
def fileSection (env : ArchiveEnv Fso) (files : List (Nat × List Byte × HashType)) : List Byte :=
  if files = [] then []
  else FilterGenerator.encodeAll (env.archive.enumeration true) (fileData files)

def fsoSection (env : ArchiveEnv Fso) (fsos : List Fso) : List Byte :=
  FilterGenerator.encodeAll (env.archive.enumeration true) (fsoData env fsos)

def manifestSection (env : ArchiveEnv Fso) (manifest : VersionManifest) : List Byte :=
  FilterGenerator.encodeAll (env.archive.enumeration false) (env.manifests.serialize manifest)

/-- The writer after calls of `AddFile`. -/
def pushed (env : ArchiveEnv Fso) (files : List (Nat × List Byte × HashType)) : ArchiveWriter :=
  if files = [] then new
  else
    { new with
      outputFilter := some { newFilter env with input := fileData files }
      state := .pushingFiles
      streamIds := files.map (·.1)
      streamSizes := files.map fun file => (file.2.1.length : Int)
      anyFile := true }

/-- The writer after calls of `AddFile` and then of `AddFso`. -/
def pushedFsos (env : ArchiveEnv Fso) (files : List (Nat × List Byte × HashType))
    (fsos : List Fso) : ArchiveWriter :=
  { pushed env files with
    hashedStream := fileSection env files
    outputFilter := some { newFilter env with input := fsoData env fsos }
    state := .pushingFsos
    baseObjectEntrySizes := fsos.map fun fso => ((env.fsos.serialize fso).length : Int)
    initialFsoOffset := (fileSection env files).length }

open Results

lemma writeHashed_eq_ok {w w' : ArchiveWriter} {bytes : List Byte} :
    w.writeHashed bytes = .ok w' ↔ (w.hashedStream ++ bytes).length < maxLength ∧
      { w with hashedStream := w.hashedStream ++ bytes } = w' := by
  rw [writeHashed, ite_throw_eq_ok, pure_eq_ok]

/-- Closing a filter that has not been flushed ends its encoding. -/
lemma closeFilter_eq_ok {w w' : ArchiveWriter} {filter : OutputFilter}
    (hfilter : w.outputFilter = some filter) (hflushed : filter.flushed = false)
    (h : w.closeFilter = .ok w') :
    w' = { w with
      hashedStream := w.hashedStream ++ filter.nest.written filter.input
      outputFilter := some { filter with flushed := true } } := by
  rw [closeFilter, hfilter] at h
  simp only [OutputFilter.flush, hflushed, Bool.false_eq_true, if_false, if_true, bind_eq_ok,
    writeHashed_eq_ok, pure_eq_ok, List.append_nil] at h
  obtain ⟨_, ⟨-, rfl⟩, _, ⟨-, rfl⟩, rfl⟩ := h
  rfl

lemma written_newFilter (includeEncryption : Bool) (bytes : List Byte) :
    (newFilter env includeEncryption).nest.written bytes =
      FilterGenerator.encodeAll (env.archive.enumeration includeEncryption) bytes :=
  Archive.written_doOutputFiltering _ _ _ _

/-- `AddFile` never fails while files are pushed. -/
lemma addFile_pushed_eq (files : List (Nat × List Byte × HashType)) (streamId : Nat)
    (file : List Byte) (type : HashType) :
    addFile env (pushed env files) streamId file type =
      .ok (if type = .none then none else some (env.hash type file),
        pushed env (files ++ [(streamId, file, type)])) := by
  by_cases hfiles : files = []
  · subst hfiles
    simp [addFile, pushed, new, ensureMaximumState, ArchiveState.toNat, writeFilter, fileData,
      newFilter, OutputFilter.new, OutputFilter.write]
  · simp [addFile, pushed, new, ensureMaximumState, ArchiveState.toNat, writeFilter, fileData,
      newFilter, OutputFilter.new, OutputFilter.write, hfiles]

lemma addFile_pushed (files : List (Nat × List Byte × HashType))
    (file : Nat × List Byte × HashType) :
    ∃ ret, addFile env (pushed env files) file.1 file.2.1 file.2.2 =
      .ok (ret, pushed env (files ++ [file])) :=
  ⟨_, addFile_pushed_eq files file.1 file.2.1 file.2.2⟩

/-- The first `AddFso` closes the section of the streams. -/
lemma addFso_pushed {files : List (Nat × List Byte × HashType)} {fso : Fso} {w : ArchiveWriter}
    (h : addFso env (pushed env files) fso = .ok w) : w = pushedFsos env files [fso] := by
  by_cases hfiles : files = []
  · subst hfiles
    simp [addFso, pushed, new, ensureMaximumState, ArchiveState.toNat, writeFilter, newFilter,
      OutputFilter.new, OutputFilter.write, OutputFilter.bytesWritten] at h
    simp [← h, pushedFsos, pushed, new, fileSection, fsoData, newFilter, OutputFilter.new]
  · simp only [addFso, bind_eq_ok] at h
    obtain ⟨-, -, h⟩ := h
    have hstate : (pushed env files).state = .pushingFiles := by rw [pushed, if_neg hfiles]
    simp only [hstate, reduceCtorEq, if_false, if_true, bind_eq_ok, pure_eq_ok] at h
    obtain ⟨w2, hclose, _, rfl, w3, hwrite, rfl⟩ := h
    have hclosed := closeFilter_eq_ok
      (by rw [pushed, if_neg hfiles]) rfl hclose
    rw [written_newFilter] at hclosed
    subst hclosed
    simp only [writeFilter, pure_eq_ok] at hwrite
    subst hwrite
    simp [pushedFsos, pushed, hfiles, new, fileSection, fsoData, newFilter, OutputFilter.new,
      OutputFilter.write, OutputFilter.bytesWritten]

lemma addFso_pushedFsos (files : List (Nat × List Byte × HashType)) (fsos : List Fso) (fso : Fso) :
    addFso env (pushedFsos env files fsos) fso = .ok (pushedFsos env files (fsos ++ [fso])) := by
  simp [addFso, pushedFsos, ensureMaximumState, ArchiveState.toNat, writeFilter, fsoData,
      newFilter, OutputFilter.new, OutputFilter.write, OutputFilter.bytesWritten]

/-- The manifest as it is written: it records where everything is. -/
def writtenManifest (env : ArchiveEnv Fso) (files : List (Nat × List Byte × HashType))
    (fsos : List Fso) (manifest : VersionManifest) : VersionManifest :=
  { manifest with
    archiveMetadata := some
      { entrySizes := some (fsos.map fun fso => ((env.fsos.serialize fso).length : Int))
        streamIds := some (files.map (·.1))
        streamSizes := some (files.map fun file => (file.2.1.length : Int))
        entriesSizeInArchive := (fsoSection env fsos).length } }

/-- What is hashed. -/
def hashedBytes (env : ArchiveEnv Fso) (files : List (Nat × List Byte × HashType))
    (fsos : List Fso) (manifest : VersionManifest) : List Byte :=
  fileSection env files ++ fsoSection env fsos ++
    manifestSection env (writtenManifest env files fsos manifest) ++
    getBytes (manifestSection env (writtenManifest env files fsos manifest)).length

/-- The archive. -/
def archiveBytes (env : ArchiveEnv Fso) (files : List (Nat × List Byte × HashType))
    (fsos : List Fso) (manifest : VersionManifest) : List Byte :=
  hashedBytes env files fsos manifest ++ env.hash .sha256 (hashedBytes env files fsos manifest)

lemma addVersionManifest_pushedFsos {files : List (Nat × List Byte × HashType)} {fsos : List Fso}
    {manifest manifest' : VersionManifest} {w : ArchiveWriter}
    (h : addVersionManifest env (pushedFsos env files fsos) manifest = .ok (manifest', w)) :
    manifest' = writtenManifest env files fsos manifest ∧
      w.committed = some (archiveBytes env files fsos manifest) ∧
      (archiveBytes env files fsos manifest).length < maxLength := by
  simp only [addVersionManifest, bind_eq_ok] at h
  obtain ⟨-, -, -, -, w1, hclose, h⟩ := h
  have hclosed := closeFilter_eq_ok
    rfl rfl hclose
  rw [written_newFilter] at hclosed
  have hids : (pushed env files).streamIds = files.map (·.1) ∧
      (pushed env files).streamSizes = files.map fun file => (file.2.1.length : Int) := by
    by_cases hfiles : files = []
    · subst hfiles
      exact ⟨rfl, rfl⟩
    · rw [pushed, if_neg hfiles]
      exact ⟨rfl, rfl⟩
  have hinput : ((newFilter env false).write (env.manifests.serialize
      (writtenManifest env files fsos manifest))).flush.1 =
        manifestSection env (writtenManifest env files fsos manifest) :=
    written_newFilter false _
  have hagain : ∀ filter : OutputFilter, filter.flush.2.flush.1 = [] := fun _ => rfl
  have hmanifest : { manifest with
      archiveMetadata := some
        { entrySizes := some w1.baseObjectEntrySizes
          streamIds := some w1.streamIds
          streamSizes := some w1.streamSizes
          entriesSizeInArchive := (w1.hashedStream.length : Int) - w1.initialFsoOffset } } =
        writtenManifest env files fsos manifest := by
    rw [hclosed]
    simp [writtenManifest, pushedFsos, hids.1, hids.2, fsoSection]
  have hstream : w1.hashedStream = fileSection env files ++ fsoSection env fsos := by
    rw [hclosed]
    rfl
  simp only [hmanifest, hinput, hagain] at h
  simp only [writeHashed_eq_ok, ite_throw_eq_ok, pure_eq_ok, hstream, List.append_nil] at h
  obtain ⟨_, ⟨-, rfl⟩, _, ⟨-, rfl⟩, _, ⟨-, rfl⟩, hlt, heq⟩ := h
  have hlength : ((fileSection env files ++ fsoSection env fsos ++
      manifestSection env (writtenManifest env files fsos manifest)).length : Int) -
        (fileSection env files ++ fsoSection env fsos).length =
      (manifestSection env (writtenManifest env files fsos manifest)).length := by
    rw [List.length_append]
    push_cast
    ring
  simp only [hlength] at hlt heq
  exact ⟨(congrArg Prod.fst heq).symm, (congrArg (fun r => r.2.committed) heq).symm, hlt⟩

/-- What all the calls together write, if none of them fails. -/
theorem writeArchive_eq_ok {files : List (Nat × List Byte × HashType)} {fsos : List Fso}
    (hfsos : fsos ≠ []) {manifest manifest' : VersionManifest} {committed : Option (List Byte)}
    (h : writeArchive env files fsos manifest = .ok (manifest', committed)) :
    manifest' = writtenManifest env files fsos manifest ∧
      committed = some (archiveBytes env files fsos manifest) ∧
      (archiveBytes env files fsos manifest).length < maxLength := by
  obtain ⟨fso, fsos, rfl⟩ := List.exists_cons_of_ne_nil hfsos
  have hfiles := foldlM_of_forall
    (f := fun w file => do
      let (_, w) ← addFile env w file.1 file.2.1 file.2.2
      return w)
    (fun files file => by
      obtain ⟨ret, heq⟩ := addFile_pushed files file
      rw [heq]
      rfl) [] files
  rw [List.nil_append] at hfiles
  simp only [writeArchive, show (new : ArchiveWriter) = pushed env [] from rfl, hfiles,
    List.foldlM_cons, bind_eq_ok, Except.ok.injEq, exists_eq_left', pure_eq_ok] at h
  obtain ⟨w1, ⟨w2, hfirst, hrest⟩, ⟨manifest1, w3⟩, hmanifest, heq⟩ := h
  rw [addFso_pushed hfirst, foldlM_of_forall
    (fun fsos fso => addFso_pushedFsos files fsos fso) [fso] fsos] at hrest
  rw [← Except.ok.inj hrest] at hmanifest
  obtain ⟨h1, h2, h3⟩ := addVersionManifest_pushedFsos hmanifest
  simp only [Prod.mk.injEq] at heq
  exact ⟨heq.1 ▸ h1, heq.2 ▸ h2, h3⟩

/-! ### What is short enough is written -/

lemma writeHashed_of_lt {w : ArchiveWriter} {bytes : List Byte}
    (h : (w.hashedStream ++ bytes).length < maxLength) :
    w.writeHashed bytes = .ok { w with hashedStream := w.hashedStream ++ bytes } :=
  writeHashed_eq_ok.mpr ⟨h, rfl⟩

lemma closeFilter_of_lt {w : ArchiveWriter} {filter : OutputFilter}
    (hfilter : w.outputFilter = some filter) (hflushed : filter.flushed = false)
    (hlt : (w.hashedStream ++ filter.nest.written filter.input).length < maxLength) :
    w.closeFilter = .ok { w with
      hashedStream := w.hashedStream ++ filter.nest.written filter.input
      outputFilter := some { filter with flushed := true } } := by
  rw [closeFilter, hfilter]
  simp only [OutputFilter.flush, hflushed, Bool.false_eq_true, if_false, if_true]
  rw [writeHashed_of_lt hlt, ok_bind, writeHashed_of_lt (by rwa [List.append_nil])]
  simp only [ok_bind, List.append_nil]
  rfl

lemma addFso_pushed_of_lt {files : List (Nat × List Byte × HashType)} (fso : Fso)
    (hlt : (fileSection env files).length < maxLength) :
    addFso env (pushed env files) fso = .ok (pushedFsos env files [fso]) := by
  by_cases hfiles : files = []
  · subst hfiles
    simp [addFso, pushed, new, ensureMaximumState, ArchiveState.toNat, writeFilter, newFilter,
      OutputFilter.new, OutputFilter.write, OutputFilter.bytesWritten, pushedFsos, fileSection,
      fsoData]
  · have hpushed : pushed env files = { new with
        outputFilter := some { newFilter env with input := fileData files }
        state := .pushingFiles
        streamIds := files.map (·.1)
        streamSizes := files.map fun file => (file.2.1.length : Int)
        anyFile := true } := if_neg hfiles
    rw [fileSection, if_neg hfiles] at hlt
    have hopen : (pushed env files).outputFilter =
        some { newFilter env with input := fileData files } := by rw [hpushed]
    have hclose := closeFilter_of_lt hopen rfl (by rw [written_newFilter, hpushed]; exact hlt)
    have hstate : (pushed env files).state = .pushingFiles := by rw [hpushed]
    simp only [addFso, ensureMaximumState, hstate, ArchiveState.toNat, hclose, reduceCtorEq,
      if_false, if_true, ok_bind, pure_bind, written_newFilter]
    simp [hpushed, new, writeFilter, newFilter, OutputFilter.new, OutputFilter.write,
      OutputFilter.bytesWritten, pushedFsos, fileSection, fsoData, hfiles]

lemma addVersionManifest_of_lt {files : List (Nat × List Byte × HashType)} {fsos : List Fso}
    {manifest : VersionManifest} (hlt : (archiveBytes env files fsos manifest).length < maxLength) :
    ∃ w, addVersionManifest env (pushedFsos env files fsos) manifest =
        .ok (writtenManifest env files fsos manifest, w) ∧
      w.committed = some (archiveBytes env files fsos manifest) := by
  have hids : (pushed env files).streamIds = files.map (·.1) ∧
      (pushed env files).streamSizes = files.map fun file => (file.2.1.length : Int) := by
    by_cases hfiles : files = []
    · subst hfiles
      exact ⟨rfl, rfl⟩
    · rw [pushed, if_neg hfiles]
      exact ⟨rfl, rfl⟩
  rw [archiveBytes, hashedBytes] at hlt
  have hopen : (pushedFsos env files fsos).outputFilter =
      some { newFilter env with input := fsoData env fsos } := rfl
  have hclose := closeFilter_of_lt hopen rfl (by
      rw [written_newFilter, ← fsoSection]
      simp only [List.length_append] at hlt ⊢
      change (fileSection env files).length + _ < _
      omega)
  rw [written_newFilter, ← fsoSection] at hclose
  have hmanifest : { manifest with
      archiveMetadata := some
        { entrySizes := some (pushedFsos env files fsos).baseObjectEntrySizes
          streamIds := some (pushedFsos env files fsos).streamIds
          streamSizes := some (pushedFsos env files fsos).streamSizes
          entriesSizeInArchive := ((fileSection env files ++ fsoSection env fsos).length : Int) -
            (fileSection env files).length } } =
        writtenManifest env files fsos manifest := by
    simp [writtenManifest, pushedFsos, hids.1, hids.2]
  have hinput : ((newFilter env false).write (env.manifests.serialize
      (writtenManifest env files fsos manifest))).flush.1 =
        manifestSection env (writtenManifest env files fsos manifest) :=
    written_newFilter false _
  have hagain : ∀ filter : OutputFilter, filter.flush.2.flush.1 = [] := fun _ => rfl
  have hlength : ((fileSection env files ++ fsoSection env fsos ++
      manifestSection env (writtenManifest env files fsos manifest)).length : Int) -
        (fileSection env files ++ fsoSection env fsos).length =
      (manifestSection env (writtenManifest env files fsos manifest)).length := by
    rw [List.length_append]
    push_cast
    ring
  simp only [addVersionManifest, ensureMinimumState, ensureMaximumState, pushedFsos,
    ArchiveState.toNat, lt_irrefl, if_false, pure_bind] at hclose hmanifest ⊢
  rw [hclose]
  simp only [ok_bind, hmanifest, hinput, hagain]
  have hroom : ∀ {bytes rest : List Byte}, (bytes ++ rest).length < maxLength →
      bytes.length < maxLength := fun h => lt_of_le_of_lt (by simp) h
  rw [writeHashed_of_lt (hroom (hroom hlt)), ok_bind,
    writeHashed_of_lt (by rw [List.append_nil]; exact hroom (hroom hlt)), ok_bind]
  simp only [List.append_nil, hlength]
  rw [writeHashed_of_lt (hroom hlt), ok_bind, if_pos hlt]
  exact ⟨_, rfl, rfl⟩

/-- The calls after those of `AddFile`. -/
def finish (env : ArchiveEnv Fso) (w : ArchiveWriter) (fsos : List Fso)
    (versionManifest : VersionManifest) : Except ArchiveError (Option (List Byte)) := do
  let w ← fsos.foldlM (addFso env) w
  let (_, w) ← addVersionManifest env w versionManifest
  return w.committed

/-- They succeed if there is an object, and if the archive does not get too long. -/
theorem finish_pushed_eq_ok {files : List (Nat × List Byte × HashType)} {fsos : List Fso}
    {manifest : VersionManifest} {committed : Option (List Byte)} :
    finish env (pushed env files) fsos manifest = .ok committed ↔ fsos ≠ [] ∧
      (archiveBytes env files fsos manifest).length < maxLength ∧
      committed = some (archiveBytes env files fsos manifest) := by
  rcases fsos with _ | ⟨fso, fsos⟩
  · have hstate : (pushed env files).state.toNat < ArchiveState.pushingFsos.toNat := by
      by_cases hfiles : files = []
      · simp [pushed, hfiles, new, ArchiveState.toNat]
      · simp [pushed, hfiles, ArchiveState.toNat]
    simp [finish, addVersionManifest, ensureMinimumState, hstate]
  · have hrest : fsos.foldlM (addFso env) (pushedFsos env files [fso]) =
        .ok (pushedFsos env files (fso :: fsos)) :=
      foldlM_of_forall (fun fsos fso => addFso_pushedFsos files fsos fso) [fso] fsos
    simp only [finish, List.foldlM_cons, ne_eq, reduceCtorEq, not_false_eq_true, true_and]
    constructor
    · intro h
      simp only [bind_eq_ok, pure_eq_ok] at h
      obtain ⟨w1, ⟨w2, hfirst, hw1⟩, ⟨_, w3⟩, hmanifest, rfl⟩ := h
      rw [addFso_pushed hfirst, hrest, Except.ok.injEq] at hw1
      rw [← hw1] at hmanifest
      obtain ⟨-, hcommitted, hlt⟩ := addVersionManifest_pushedFsos hmanifest
      exact ⟨hlt, hcommitted⟩
    · rintro ⟨hlt, rfl⟩
      have hfiles : (fileSection env files).length < maxLength := by
        refine lt_of_le_of_lt ?_ hlt
        simp only [archiveBytes, hashedBytes, List.length_append]
        omega
      obtain ⟨w, hmanifest, hcommitted⟩ := addVersionManifest_of_lt hlt
      rw [addFso_pushed_of_lt fso hfiles, ok_bind, hrest, ok_bind, hmanifest, ok_bind]
      exact congrArg Except.ok hcommitted

end ArchiveWriter

end BackupProgram
