import BackupProgram.Engine.GenerateStreams

/-!
# The archive of a version

After the streams have been generated, the versions that the new one depends on are collected, the
files are read, and the archive is written.
-/

namespace BackupProgram

/-- What the calls of the archive writer are given: the files, the base objects, and the
manifest. -/
structure VersionArchive where
  files : List (Nat × List Byte × HashType)
  baseObjects : List FileSystemTree
  manifest : VersionManifest
deriving DecidableEq, Repr

namespace VersionArchive

/-- The ids of the streams, which the archive writer adds to the manifest. -/
def streamIds (a : VersionArchive) : List Nat := a.files.map (·.1)

/-- The bytes that are stored for a stream. -/
def streamData (a : VersionArchive) (id : Nat) : Option (List Byte) :=
  (a.files.find? fun file => file.1 = id).map (·.2.1)

/-- All objects of the version, as they were archived. -/
def objects (a : VersionArchive) : List PathedObject :=
  a.baseObjects.flatMap FileSystemTree.iterate

/-- The base objects that a reader gets. -/
def getBaseObjects (a : VersionArchive) : List FileSystemTree :=
  a.baseObjects.map fun t => t.map FileSystemObject.stored

end VersionArchive

section GenerateArchive

variable (env : BackupEnv)

/-- `y.BackupStream = x` for one stream. -/
def attachStream (heap : List BackupStream) (objects : List FileSystemObject) (s : Nat) :
    List FileSystemObject :=
  match heap[s]? with
  | none => objects
  | some stream =>
    stream.fileSystemObjects.foldl (fun objects i =>
      objects.modify i fun fso => { fso with backupStream := some s }) objects

def StreamData.getDependencies : StreamData → Finset Int → Finset Int
  | full, versionDependencies => versionDependencies
  | unmodified containingVersion, versionDependencies =>
    insert containingVersion versionDependencies

def getDependencies (heap : List BackupStream) (versionDependencies : Finset Int)
    (fso : FileSystemObject) : Finset Int :=
  if fso.latestVersion < 0 then versionDependencies
  else
    match fso.backupStream.bind fun s => heap[s]? with
    | none => insert fso.latestVersion versionDependencies
    | some stream => stream.data.getDependencies versionDependencies

structure ArchiveProgress where
  objects : List FileSystemObject
  versionDependencies : Finset Int
  files : List (Nat × List Byte × HashType)

/-- One stream is added to the archive; its first object gets the hash, unless it has one. -/
def addStreamFile (paths : List ObjectPaths) (heap : List BackupStream) (p : ArchiveProgress)
    (s : Nat) : Except EngineError ArchiveProgress :=
  match heap[s]? with
  | none => throw .argumentOutOfRange
  | some backupStream =>
    match backupStream.fileSystemObjects.head? with
    | none => throw .argumentOutOfRange
    | some i =>
      match p.objects[i]?, paths[i]? with
      | some fso, some path => do
        let compute := (fso.getHash env.hashAlgorithm).isNone
        let type := if compute then env.hashAlgorithm else .none
        match env.fs.readFile path.mappedPath with
        | none => throw .io
        | some bytes =>
          let objects :=
            if type = .none then p.objects
            else p.objects.set i (fso.setHash env.hashAlgorithm (env.hash type bytes))
          return { p with
            objects := objects
            files := p.files ++ [(backupStream.uniqueId, bytes, type)] }
      | _, _ => throw .argumentOutOfRange

/-- The body of the loop over the base objects, of which one has `size` objects from `start` on. -/
def archiveBase (paths : List ObjectPaths) (heap : List BackupStream) (p : ArchiveProgress)
    (start size : Nat) (streams : List Nat) : Except EngineError ArchiveProgress :=
  let objects := streams.foldl (attachStream heap) p.objects
  let versionDependencies :=
    ((objects.drop start).take size).foldl (getDependencies heap) p.versionDependencies
  streams.foldlM (addStreamFile env paths heap)
    { p with objects := objects, versionDependencies := versionDependencies }

/-- The loop over the base objects. -/
def archiveBases (paths : List ObjectPaths) (heap : List BackupStream) :
    ArchiveProgress → Nat → List Nat → List (List Nat) → Except EngineError ArchiveProgress
  | p, start, size :: sizes, streams :: streamDict => do
    let p ← archiveBase env paths heap p start size streams
    archiveBases paths heap p (start + size) sizes streamDict
  | p, _, _, _ => return p

/-- `Sorted().ToList()` -/
def sortedDependencies (versionDependencies : Finset Int) : List Int :=
  versionDependencies.sort (· ≤ ·)

/-- The numbers that the engine hands out. -/
structure StreamCounters where
  nextStreamUniqueId : Nat
  nextDifferentialChainUniqueId : Nat
deriving DecidableEq, Repr

/-- What `GenerateArchive` leaves behind: the archive, and the state of the engine. -/
structure GeneratedArchive where
  archive : VersionArchive
  heap : List BackupStream
  counters : StreamCounters

/-- The archive writer takes a manifest only after some base object. -/
def generateArchive (startTime : Int) (streamGenerator : Generator) (versionNumber : Int)
    (heap : List BackupStream) (counters : StreamCounters) (baseObjects : List FileSystemTree) :
    Except EngineError GeneratedArchive := do
  let st ← generateStreams streamGenerator heap counters.nextStreamUniqueId baseObjects
  let paths := (baseObjects.flatMap FileSystemTree.iterate).map Prod.fst
  let p ← archiveBases env paths st.heap ⟨st.objects, ∅, []⟩ 0
    (baseObjects.map fun x => x.toList.length) st.streamDict
  let archivedObjects := RoseTree.refillAll baseObjects p.objects
  if baseObjects = [] then throw .invalidProgramState
  else return {
    archive :=
      { files := p.files
        baseObjects := archivedObjects
        manifest :=
          { creationTime := startTime
            versionNumber := versionNumber
            versionDependencies := sortedDependencies p.versionDependencies
            entryCount := baseObjects.length
            firstStreamUniqueId := counters.nextStreamUniqueId
            nextStreamUniqueId := st.nextStreamUniqueId
            firstDifferentialChainUniqueId := counters.nextDifferentialChainUniqueId
            nextDifferentialChainUniqueId := counters.nextDifferentialChainUniqueId
            archiveMetadata := none } }
    heap := st.heap
    counters := { counters with nextStreamUniqueId := st.nextStreamUniqueId } }

end GenerateArchive

end BackupProgram
