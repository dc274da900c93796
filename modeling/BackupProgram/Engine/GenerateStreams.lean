import BackupProgram.FileSystem.Create
import BackupProgram.Lib.Results

/-!
# Streams of a backup

For every object of the new version it is decided whether its data are stored, or whether a
reference to a former version is, or to the data of another name of the same file. The objects are
visited in the order of the trees; streams and objects refer to one another by position.
-/

namespace BackupProgram

inductive ChangeCriterium where
  | archiveFlag
  | size
  | date
  | hash
  | custom
deriving DecidableEq, Repr

/-- What a backup asks of its surroundings: the file system, the methods that a derived engine
defines, and the hashes. -/
structure BackupEnv extends Settings where
  culture : Culture
  fs : FileSystemView
  getChangeCriterium : PathedObject → ChangeCriterium
  customFileHasChanged : PathedObject → FileSystemObject → Bool
  hashAlgorithm : HashType
  hash : HashType → List Byte → List Byte

/-- Surroundings without errors, in which files are compared by their sizes. -/
def BackupEnv.plain (fs : FileSystemView) (backupMode : PathedObject → BackupMode) : BackupEnv where
  reportError _ := false
  getBackupModeForObject o := (backupMode o, false)
  listSort := .insertion
  culture := .ordinal
  fs := fs
  getChangeCriterium _ := .size
  customFileHasChanged _ _ := true
  hashAlgorithm := .sha256
  hash _ bytes := List.replicate 32 bytes.sum

/-- Streams that have no data refer to the version that does. -/
inductive StreamData where
  | full
  | unmodified (containingVersion : Int)
deriving DecidableEq, Repr

def StreamData.hasData : StreamData → Bool
  | full => true
  | unmodified _ => false

/-- The objects are given by their positions. -/
structure BackupStream where
  data : StreamData
  uniqueId : Nat
  fileSystemObjects : List Nat
deriving DecidableEq, Repr

/-- `objects` are the objects visited so far, `heap` all the streams there are, `streams` those of
the current base object and `streamDict` those of the former ones, if they have data. -/
structure GenerateState where
  objects : List FileSystemObject
  heap : List BackupStream
  knownGuids : List (Guid × Nat)
  streams : List Nat
  streamDict : List (List Nat)
  nextStreamUniqueId : Nat
deriving DecidableEq, Repr

namespace GenerateState

/-- The stream of the file with the given GUID. -/
def known (st : GenerateState) (fileSystemGuid : Option Guid) : Option (Nat × BackupStream) :=
  match fileSystemGuid with
  | none => none
  | some guid =>
    match st.knownGuids.lookup guid with
    | none => none
    | some s => st.heap[s]?.map fun stream => (s, stream)

/-- The first object of a stream. -/
def firstObject (st : GenerateState) (stream : BackupStream) : Option FileSystemObject :=
  stream.fileSystemObjects.head?.bind fun i => st.objects[i]?

/-- The current object has been visited. -/
def addObject (st : GenerateState) (fso : FileSystemObject) : GenerateState :=
  { st with objects := st.objects ++ [fso] }

/-- A new stream whose only object is the current one; its GUID becomes known. -/
def addStream (st : GenerateState) (fso : FileSystemObject) (data : StreamData) :
    GenerateState × Nat :=
  ({ st with
      heap := st.heap ++ [⟨data, fso.streamUniqueId, [st.objects.length]⟩]
      knownGuids :=
        match fso.fileSystemGuid with
        | none => st.knownGuids
        | some guid => (guid, st.heap.length) :: st.knownGuids },
    st.heap.length)

end GenerateState

/-! ### Changes of a file -/

section FileHasChanged

variable (env : BackupEnv)

/-- `ComputeHash`; a hash that is there already is not computed again. -/
def computeHash (o : PathedObject) (type : HashType) :
    Except EngineError (Option (List Byte) × FileSystemObject) :=
  if o.2.isDirectoryish then return (none, o.2)
  else
    match o.2.hashes.lookup type with
    | some digest => return (some digest, o.2)
    | none =>
      match if type = .none then none else env.fs.readFile o.1.mappedPath with
      | some bytes =>
        let digest := env.hash type bytes
        return (some digest, o.2.setHash type digest)
      | none =>
        if env.reportError o.1.mappedPath then return (none, o.2) else throw .io

def compareHashes (newFile : PathedObject) (oldFile : FileSystemObject) :
    Except EngineError (Bool × FileSystemObject) :=
  match oldFile.hashes with
  | [] => return (true, newFile.2)
  | kv :: _ => do
    let (newHash, fso) ← computeHash env newFile kv.1
    match newHash with
    | none => throw .argumentNull
    | some newHash => return (newHash != kv.2, fso)

/-- The criterion that has been chosen is applied. -/
def applyCriterium (newFile : PathedObject) (oldFile : FileSystemObject) :
    Except EngineError (Bool × FileSystemObject) :=
  match env.getChangeCriterium newFile with
  | .archiveFlag => return (newFile.2.archiveFlag, newFile.2)
  | .size => return (newFile.2.size != oldFile.size, newFile.2)
  | .date => return (newFile.2.modificationTime != oldFile.modificationTime, newFile.2)
  | .hash => compareHashes env newFile oldFile
  | .custom => return (env.customFileHasChanged newFile oldFile, newFile.2)

/-- `FileHasChanged(FileSystemObject, out int)`: the answer, the existing version, and the object
with the hashes that are known now. -/
def fileHasChanged (oldObjects : List FileSystemTree) (newFile : PathedObject) :
    Except EngineError (Bool × Int × FileSystemObject) :=
  match findPath env.culture oldObjects newFile.1.mappedPath with
  | none => do
    let (_, fso) ← computeHash env newFile env.hashAlgorithm
    return (true, -1, fso)
  | some oldFile => do
    let (ret, fso) ← applyCriterium env newFile oldFile
    if ret then return (true, -1, fso)
    else
      let fso := oldFile.hashes.foldl (fun fso kv => fso.setHash kv.1 kv.2) fso
      return (false, oldFile.latestVersion,
        { fso with latestVersion := oldFile.latestVersion })

end FileHasChanged

/-! ### The stream generators -/

/-- Objects that a version has data of. -/
def FileSystemObject.isIncluded (fso : FileSystemObject) : Bool :=
  !fso.isDirectoryish && fso.backupMode != .noBackup &&
    (!fso.isLinkish || fso.type == .fileHardlink)

section Generators

variable (env : BackupEnv) (newVersionNumber : Int)

def shouldBeAdded (st : GenerateState) (fso : FileSystemObject) : Bool × FileSystemObject :=
  let fso := { fso with latestVersion := -1 }
  if fso.isDirectoryish then (false, fso)
  else if fso.backupMode = .noBackup then (false, fso)
  else if fso.isLinkish ∧ fso.type ≠ .fileHardlink then (false, fso)
  else
    let fso := { fso with latestVersion := newVersionNumber }
    if (st.known fso.fileSystemGuid).isSome then (false, fso) else (true, fso)

def fixUpStreamReference (st : GenerateState) (fso : FileSystemObject) :
    GenerateState × FileSystemObject :=
  if fso.type = .fileHardlink then
    match st.known fso.fileSystemGuid with
    | none => (st, fso)
    | some (s, stream) =>
      let latestVersion :=
        ((st.firstObject stream).map fun first => first.latestVersion).getD fso.latestVersion
      let objects := stream.fileSystemObjects ++ [st.objects.length]
      ({ st with heap := st.heap.set s { stream with fileSystemObjects := objects } },
        { fso with
          streamUniqueId := stream.uniqueId
          backupStream := some s
          latestVersion := latestVersion })
  else (st, fso)

/-- What a stream generator does to the state and to the object, and the stream it returns. -/
abbrev Generator : Type :=
  GenerateState → PathedObject →
    Except EngineError (GenerateState × FileSystemObject × Option Nat)

def generateInitialStream : Generator := fun st o =>
  let (add, fso) := shouldBeAdded newVersionNumber st o.2
  if !add then
    let (st, fso) := fixUpStreamReference st fso
    return (st, fso, none)
  else
    let (st, ret) := st.addStream fso .full
    return (st, fso, some ret)

/-- The part of `CheckAndMaybeAdd` that chooses the stream. -/
def chooseStream (oldObjects : List FileSystemTree) (o : PathedObject) :
    Except EngineError (FileSystemObject × StreamData) := do
  let (existingVersion, fso) ←
    if o.2.backupMode ≠ .forceFull then do
      let (changed, existingVersion, fso) ← fileHasChanged env oldObjects o
      pure (existingVersion, if changed then fso else { fso with backupMode := .unmodified })
    else pure (-1, o.2)
  match fso.backupMode with
  | .unmodified => return (fso, .unmodified existingVersion)
  | .forceFull => return (fso, .full)
  | .full => return (fso, .full)
  | .rsync => throw .notImplemented
  | .noBackup => throw .argumentOutOfRange
  | .directory => throw .argumentOutOfRange

def checkAndMaybeAdd (oldObjects : List FileSystemTree) : Generator := fun st o => do
  let (add, fso) := shouldBeAdded newVersionNumber st o.2
  if !add then
    let (st, fso) := fixUpStreamReference st fso
    return (st, fso, none)
  else
    let (fso, data) ← chooseStream env oldObjects (o.1, fso)
    let (st, newStream) := st.addStream fso data
    return (st, fso, some newStream)

end Generators

/-! ### All objects -/

/-- The object gets a new id, and so does its stream, which is kept. -/
def setUniqueIds (st : GenerateState) (fso : FileSystemObject) (s : Nat) :
    GenerateState × FileSystemObject :=
  ({ st with
      heap := st.heap.modify s fun stream => { stream with uniqueId := st.nextStreamUniqueId }
      streams := st.streams ++ [s]
      nextStreamUniqueId := st.nextStreamUniqueId + 1 },
    { fso with streamUniqueId := st.nextStreamUniqueId })

/-- The body of the inner loop of `GenerateStreams`. -/
def generateStream (streamGenerator : Generator) (st : GenerateState) (o : PathedObject) :
    Except EngineError GenerateState := do
  let (st, fso, stream) ← streamGenerator st o
  match stream with
  | none => return st.addObject fso
  | some s =>
    if st.heap[s]?.any fun stream => stream.data.hasData then
      let (st, fso) := setUniqueIds st fso s
      return st.addObject fso
    else return st.addObject fso

/-- The body of the outer loop; every base object has a list of streams of its own. -/
def generateBase (streamGenerator : Generator) (st : GenerateState) (base : List PathedObject) :
    Except EngineError GenerateState := do
  let st ← base.foldlM (generateStream streamGenerator) st
  return { st with streamDict := st.streamDict ++ [st.streams], streams := [] }

/-- The streams that exist already may belong to former backups by the same engine. -/
def generateStreams (streamGenerator : Generator) (heap : List BackupStream)
    (nextStreamUniqueId : Nat) (baseObjects : List FileSystemTree) :
    Except EngineError GenerateState :=
  (baseObjects.map FileSystemTree.iterate).foldlM (generateBase streamGenerator)
    { objects := []
      heap := heap
      knownGuids := []
      streams := []
      streamDict := []
      nextStreamUniqueId := nextStreamUniqueId }

end BackupProgram
