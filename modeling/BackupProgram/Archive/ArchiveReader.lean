import BackupProgram.Archive.ArchiveWriter

/-!
# Reading an archive

The reader finds the manifest from the end of the file and the other sections from the manifest. Its
operations share the position of the file, which the filters move ahead by as much as they like; the
argument `ahead` of an operation says by how much.

A filter that keeps the stream below it open does not dispose of its own native stream either. It is
left to its finalizer, which may run at any time afterwards, and which closes what lies below.
-/

namespace BackupProgram

open Results

/-- Offsets that are not known yet are negative. `leaked` says that a native stream that reads from
the file itself has been left to its finalizer, and `closed` that such a finalizer has run. -/
structure ArchiveReader (Fso : Type) where
  stream : List Byte
  closed : Bool
  leaked : Bool
  position : Nat
  streamIds : List Nat
  streamSizes : List Int
  versionManifest : Option VersionManifest
  baseObjects : Option (List Fso)
  manifestOffset : Int
  manifestSize : Int
  baseObjectsOffset : Int

namespace ArchiveReader

variable {Fso : Type} (env : ArchiveEnv Fso)

/-- The constructor. -/
def new (file : List Byte) : ArchiveReader Fso where
  stream := file
  closed := false
  leaked := false
  position := 0
  streamIds := []
  streamSizes := []
  versionManifest := none
  baseObjects := none
  manifestOffset := -1
  manifestSize := -1
  baseObjectsOffset := -1

/-- The finalizers of the native streams that have been left run. -/
def finalizeStreams (r : ArchiveReader Fso) : ArchiveReader Fso :=
  { r with closed := r.closed || r.leaked, leaked := false }

/-- Seeking from the beginning of the file; a position before it is refused, and so is everything
once the file is closed. All reads come after this. -/
def seek (r : ArchiveReader Fso) (offset : Int) : Except ArchiveError (ArchiveReader Fso) :=
  if r.closed then throw .objectDisposed
  else if 0 ≤ offset then return { r with position := offset.toNat } else throw .io

/-- What can be read through a `BoundedStream` from the current position. -/
def boundedStream (r : ArchiveReader Fso) (boundedSize : Int) :
    Except ArchiveError (List Byte) :=
  if 0 ≤ boundedSize then return CircularBuffer.slice r.stream r.position boundedSize.toNat
  else throw .argumentOutOfRange

/-- A value that is there, or else an exception. -/
def orThrow {α : Type} (e : ArchiveError) : Option α → Except ArchiveError α
  | none => throw e
  | some a => return a

/-- The first half of `ReadManifest`: the manifest is located from the end of the file, or sought
at its known offset. -/
def locateManifest (r : ArchiveReader Fso) : Except ArchiveError (ArchiveReader Fso) :=
  if r.manifestOffset < 0 then do
    let start : Int := -8 - 256 / 8
    let r ← r.seek (r.stream.length + start)
    let temp := CircularBuffer.slice r.stream r.position 8
    if temp.length ≠ 8 then throw .invalidData
    let manifestSize := toInt64 temp
    let start := start - manifestSize
    let r ← r.seek (r.stream.length + start)
    return { r with manifestSize := manifestSize, manifestOffset := r.stream.length + start }
  else r.seek r.manifestOffset

/-- The native stream that is left reads from a `BoundedStream`, which has nothing to dispose of. -/
def readManifest (r : ArchiveReader Fso) (ahead : Nat) :
    Except ArchiveError (VersionManifest × ArchiveReader Fso) := do
  let r ← r.locateManifest
  let bytes ← r.boundedStream r.manifestSize
  let bytes ← orThrow .filter ((env.archive.doInputFiltering (.stream false) false).read bytes)
  let versionManifest ← orThrow .filter (env.manifests.deserialize bytes)
  let metadata ← orThrow .nullReference versionManifest.archiveMetadata
  let metadata := metadata.ensureNonNull
  let versionManifest := { versionManifest with archiveMetadata := some metadata }
  let streamIds ← orThrow .argumentNull metadata.streamIds
  let streamSizes ← orThrow .argumentNull metadata.streamSizes
  return (versionManifest,
    { r with
      position := r.position + ahead
      versionManifest := some versionManifest
      baseObjectsOffset := r.manifestOffset - metadata.entriesSizeInArchive
      streamIds := streamIds
      streamSizes := streamSizes })

/-- The manifest is read unless this has happened before. -/
def ensureManifest (r : ArchiveReader Fso) (ahead : Nat) :
    Except ArchiveError (VersionManifest × ArchiveReader Fso) :=
  match r.versionManifest with
  | none => r.readManifest env ahead
  | some versionManifest => return (versionManifest, r)

/-- One object after the other is deserialized from a bounded stream. -/
def deserializeEntries : List Int → List Byte → Except ArchiveError (List Fso)
  | [], _ => return []
  | entrySize :: entrySizes, data => do
    if entrySize < 0 then throw .argumentOutOfRange
    let entry := data.take entrySize.toNat
    let fso ← orThrow .filter (env.fsos.deserialize entry)
    let fsos ← deserializeEntries entrySizes (data.drop entry.length)
    return fso :: fsos

def readBaseObjects (r : ArchiveReader Fso) (ahead ahead' : Nat) :
    Except ArchiveError (List Fso × ArchiveReader Fso) := do
  let (versionManifest, r) ← r.ensureManifest env ahead
  let r ← r.seek r.baseObjectsOffset
  let bytes ← r.boundedStream (r.manifestOffset - r.baseObjectsOffset)
  let data ← orThrow .filter ((env.archive.doInputFiltering (.stream false)).read bytes)
  let metadata ← orThrow .nullReference versionManifest.archiveMetadata
  let entrySizes ← orThrow .argumentNull metadata.entrySizes
  let baseObjects ← deserializeEntries env entrySizes data
  return (baseObjects,
    { r with position := r.position + ahead', baseObjects := some baseObjects })

def getBaseObjects (r : ArchiveReader Fso) (ahead ahead' : Nat) :
    Except ArchiveError (List Fso × ArchiveReader Fso) := do
  let (ret, r) ← r.readBaseObjects env ahead ahead'
  return (ret, { r with baseObjects := none })

/-- The streams are handed to the callback one after the other; it returns how many bytes it has
taken from the one it was given. The filter is not read from if there is no stream. -/
def zipStreams {σ : Type} (callback : σ → Nat → List Byte → σ × Nat) :
    List Nat → List Int → Option (List Byte) → σ → Except ArchiveError σ
  | id :: streamIds, size :: streamSizes, data, s => do
    let data ← orThrow .filter data
    if size < 0 then throw .argumentOutOfRange
    let bounded := data.take size.toNat
    let (s, taken) := callback s id bounded
    zipStreams callback streamIds streamSizes (some (data.drop (min taken bounded.length))) s
  | _, _, _, s => return s

def begin {σ : Type} (r : ArchiveReader Fso) (callback : σ → Nat → List Byte → σ × Nat) (s : σ)
    (ahead ahead' : Nat) : Except ArchiveError (σ × ArchiveReader Fso) := do
  let (_, r) ← r.ensureManifest env ahead
  let r ← r.seek 0
  let filteredStream := env.archive.doInputFiltering (.stream false)
  let data := filteredStream.read (r.stream.drop r.position)
  let s ← zipStreams callback r.streamIds r.streamSizes data s
  return (s, { r with
    position := r.position + ahead'
    leaked := r.leaked || filteredStream.keepsOpen })

/-- A callback that reads its whole stream and keeps what it gets. -/
def collect (s : List (Nat × List Byte)) (id : Nat) (bytes : List Byte) :
    List (Nat × List Byte) × Nat :=
  (s ++ [(id, bytes)], bytes.length)

end ArchiveReader

/-! ### Calls on one reader -/

inductive ReaderCall where
  | readManifest
  | readBaseObjects
  | begin
deriving DecidableEq, Repr

/-- A call on a reader. The two numbers say how far the filters read ahead; `finalized` says that
the garbage collector has the native streams finalized that earlier calls have left, before this
call is done with the file. -/
structure CallOnReader where
  call : ReaderCall
  ahead : Nat
  ahead' : Nat
  finalized : Bool
deriving DecidableEq, Repr

inductive CallResult (Fso : Type) where
  | manifest (versionManifest : VersionManifest)
  | baseObjects (fsos : List Fso)
  | streams (streams : List (Nat × List Byte))

namespace ArchiveReader

variable {Fso : Type} (env : ArchiveEnv Fso)

def call (r : ArchiveReader Fso) (c : CallOnReader) :
    Except ArchiveError (CallResult Fso × ArchiveReader Fso) :=
  let r := if c.finalized then r.finalizeStreams else r
  match c.call with
  | .readManifest => do
    let (versionManifest, r) ← r.readManifest env c.ahead
    return (.manifest versionManifest, r)
  | .readBaseObjects => do
    let (fsos, r) ← r.readBaseObjects env c.ahead c.ahead'
    return (.baseObjects fsos, r)
  | .begin => do
    let (streams, r) ← r.begin env collect [] c.ahead c.ahead'
    return (.streams streams, r)

def calls : ArchiveReader Fso → List CallOnReader → Except ArchiveError (List (CallResult Fso))
  | _, [] => return []
  | r, c :: cs => do
    let (result, r) ← r.call env c
    let results ← calls r cs
    return result :: results

end ArchiveReader

/-! ### Numbers in eight bytes -/

lemma length_getBytes (n : Int) : (getBytes n).length = 8 := by
  simp [getBytes]

lemma toInt64_getBytes {n : Nat} (h : n < 2 ^ 63) : toInt64 (getBytes n) = n := by
  have hmod : ((n : Int) % 2 ^ 64).toNat = n := by omega
  have hsum : (getBytes n).foldr (fun b (n : Nat) => b.toNat + 256 * n) 0 = n := by
    simp only [getBytes, hmod, List.range_succ, List.range_zero, List.nil_append,
      List.map_append, List.map_cons, List.map_nil, List.foldr_append, List.foldr_cons,
      List.foldr_nil, UInt8.toNat_ofNat']
    omega
  simp only [toInt64, hsum]
  rw [if_pos h]

end BackupProgram
