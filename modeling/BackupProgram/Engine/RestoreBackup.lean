import BackupProgram.Archive.ArchiveReader
import BackupProgram.Engine.BackupEngine
import BackupProgram.FileSystem.Disk
import BackupProgram.Lib.Bisection
import BackupProgram.Lib.Worklist
import BackupProgram.Util.ListSort

/-!
# Restoring

The newest version and those it depends on are loaded. Then every object of the newest version is
deleted from the disk and, if it is not a file, created again; the files are put on a list, which is
sorted by stream id, and get their contents while the streams of the archives go by.
-/

namespace BackupProgram

/-- Why restoring does not finish: an exception, or the end of the process. -/
inductive RestoreError where
  | exception (e : EngineError)
  | crash
deriving DecidableEq, Repr

/-- What a reader finds in an archive, where each part may turn out to be unreadable; `data` is what
the filters give from the beginning of the file on. -/
structure ArchiveFile where
  manifest : Except EngineError VersionManifest
  baseObjects : Except EngineError (List FileSystemTree)
  streamIds : List Nat
  streamSizes : List Int
  data : Option (List Byte)

/-- An archive as it has been written. -/
def ArchiveFile.ofVersionArchive (a : VersionArchive) : ArchiveFile where
  manifest := .ok a.manifest
  baseObjects := .ok a.getBaseObjects
  streamIds := a.streamIds
  streamSizes := a.files.map fun file => (file.2.1.length : Int)
  data := some (a.files.flatMap fun file => file.2.1)

/-- A file that is not an archive. -/
def ArchiveFile.unreadable : ArchiveFile where
  manifest := .error .invalidArchive
  baseObjects := .error .invalidArchive
  streamIds := []
  streamSizes := []
  data := none

def TargetDirectory.archiveFiles (dir : TargetDirectory) : Directory ArchiveFile :=
  dir.map fun file =>
    (file.1, match file.2 with
      | none => .unreadable
      | some a => .ofVersionArchive a)

/-- The machine: how a list is sorted, where a path leads on the disk and where opening a link there
does, what the system refuses to change, and how deep calls can be nested. -/
structure RestoreEnv where
  sort : ListSort
  locate : Str → Location
  openLink : Disk → Location → Option Location
  refuses : Disk → Location → Bool
  maxDepth : Nat

abbrev RestoreM : Type → Type := EStateM RestoreError Disk

/-! ### Loading the versions -/

/-- A version with what is read from it; the objects are only read from the newest one. -/
structure VersionForRestore where
  manifest : VersionManifest
  baseObjects : List FileSystemTree

def openArchive (archives : Directory ArchiveFile) (version : Int) :
    Except EngineError ArchiveFile :=
  match archives.get? (getVersionName version) with
  | none => throw .io
  | some archive => return archive

def loadVersion (archives : Directory ArchiveFile) (latestVersionNumber version : Int) :
    Except EngineError VersionForRestore := do
  let archive ← openArchive archives version
  let manifest ← archive.manifest
  let baseObjects ← (if version = latestVersionNumber then archive.baseObjects else return [])
  return ⟨manifest, baseObjects⟩

/-- The loop over the stack of version numbers. -/
def loadVersions (archives : Directory ArchiveFile) (latestVersionNumber : Int) (fuel : Nat) :
    Option (Worklist.Outcome Int VersionForRestore EngineError) :=
  Worklist.explore (loadVersion archives latestVersionNumber)
    (fun version => version.manifest.versionDependencies) fuel [] [latestVersionNumber]

/-- `FillDependencies`, which comes back to a version before it is marked as full if that depends on
itself; `full` are the marked versions. There is no result if the calls are nested too deep. -/
def fillDependencies (dependencies : Int → List Int) : Nat → List Int → Int → Option (List Int)
  | 0, _, _ => none
  | depth + 1, full, version =>
    if version ∈ full then some full
    else
      ((dependencies version).foldlM (fillDependencies dependencies depth) full).map (version :: ·)

/-! ### Changing the disk -/

section Operations

variable (env : RestoreEnv)

/-- The system may refuse to change anything at a location. -/
def checkAccess (location : Location) : RestoreM Unit := do
  let disk ← get
  if env.refuses disk location then throw (.exception .io)

/-- `File.Delete` and `Directory.Delete`, the latter recursively. -/
def delete (location : Location) : RestoreM Unit := do
  checkAccess env location
  let disk ← get
  set (disk.delete location)

def create (location : Location) (entry : DiskEntry) : RestoreM Unit := do
  checkAccess env location
  let disk ← get
  match disk.create location entry with
  | none => throw (.exception .win32)
  | some disk => set disk

/-- `Directory.CreateDirectory`, from some directory that exists on. -/
def createDirectoryFrom (parent : Location) : List Str → RestoreM Unit
  | [] => return ()
  | name :: names => do
    let location := parent ++ [name]
    let disk ← get
    match disk.get? location with
    | some .directory => createDirectoryFrom location names
    | some (.directoryLink _) => if names = [] then return () else throw (.exception .io)
    | some _ => throw (.exception .io)
    | none => do
      create env location .directory
      createDirectoryFrom location names

def createDirectory (location : Location) : RestoreM Unit := createDirectoryFrom env [] location

/-- The native function that makes a link; it cannot be given a null target. -/
def createLink (location : Location) (entry : Str → DiskEntry) (target : Option Str) :
    RestoreM Unit := do
  let disk ← get
  match target with
  | none => throw .crash
  | some target =>
    if (disk.get? location).isSome then throw (.exception .win32)
    else create env location (entry target)

/-- The directory becomes a junction if there is nothing in it. -/
def createDirectoryJunction (location : Location) (target : Option Str) : RestoreM Unit := do
  createDirectory env location
  let disk ← get
  match target with
  | none => throw .crash
  | some target =>
    if disk.get? location = some .directory ∧ disk.isEmpty location then do
      delete env location
      create env location (.directoryLink target)
    else throw (.exception .win32)

def createHardlink (location existing : Location) : RestoreM Unit := do
  let disk ← get
  if (disk.get? location).isSome then throw (.exception .win32)
  else
    match disk.get? existing with
    | some (.file id) => create env location (.file id)
    | some (.fileLink target) => create env location (.fileLink target)
    | _ => throw (.exception .win32)

/-- Opening a link opens what it leads to. -/
def openedLocation (disk : Disk) (location : Location) : Option Location :=
  match disk.get? location with
  | some (.fileLink _) => env.openLink disk location
  | _ => some location

/-- `File.Open` with `FileMode.Create`, and `CopyTo`. A file that exists is overwritten. -/
def createFile (location : Location) (bytes : List Byte) : RestoreM Unit := do
  checkAccess env location
  let disk ← get
  match openedLocation env disk location with
  | none => throw (.exception .io)
  | some location =>
    match disk.get? location with
    | some (.file id) => set (disk.write id bytes)
    | none => do
      create env location (.file disk.freshId)
      let created ← get
      set (created.write disk.freshId bytes)
    | some _ => throw (.exception .io)

/-! ### Objects -/

def location (o : PathedObject) : Location := env.locate o.1.unmappedPath

def deleteExisting (o : PathedObject) : RestoreM Unit := do
  let path := location env o
  let disk ← get
  let exist := if o.2.isDirectoryish then disk.directoryExists path else disk.fileExists path
  if exist then delete env path else return ()

/-- `Restore()`; it returns whether the object has been restored without a stream. -/
def restoreObject (o : PathedObject) : RestoreM Bool := do
  let path := location env o
  match o.2.type with
  | .regularFile => return false
  | .fileHardlink =>
    match o.2.target with
    | none => return false
    | some target => do
      createHardlink env path (env.locate target)
      return true
  | .directory => do
    createDirectory env path
    return true
  | .directorySymlink => do
    createLink env path .directoryLink o.2.target
    return true
  | .junction => do
    createDirectoryJunction env path o.2.target
    return true
  | .fileSymlink => do
    createLink env path .fileLink o.2.target
    return true
  | .fileReparsePoint => throw (.exception .fileReparsePointsNotImplemented)

/-- An object that is restored later, with its place among all objects. -/
structure Deferred where
  place : Nat
  object : PathedObject
deriving DecidableEq

def Deferred.streamUniqueId (x : Deferred) : Nat := x.object.2.streamUniqueId

def Deferred.location (x : Deferred) : Location := BackupProgram.location env x.object

/-- `VersionForRestore.Restore` for one object after the other. -/
def restoreObjects : Nat → List PathedObject → RestoreM (List Deferred)
  | _, [] => return []
  | place, o :: objects => do
    deleteExisting env o
    let restored ← restoreObject env o
    let restoreLater ← restoreObjects (place + 1) objects
    return if !restored && decide (0 ≤ o.2.latestVersion) then ⟨place, o⟩ :: restoreLater
      else restoreLater

/-! ### Streams -/

def binaryFindFirst {α : Type} (sequence : List α) (geqPredicate : α → Bool) : Nat :=
  let geq k := (sequence[k]?.map geqPredicate).getD false
  if sequence.length = 0 then sequence.length
  else if geq 0 then 0
  else (Bisection.bisect geq sequence.length 0 sequence.length).2

/-- The objects behind the one at `index` that share the stream. -/
def peers (restoreLater : List Deferred) (index streamId : Nat) : List Deferred :=
  (restoreLater.drop (index + 1)).takeWhile fun x => x.streamUniqueId == streamId

/-- A further name for the file that has been restored as `x`. -/
def restoreHardlink (x : Deferred) (targets : List (Nat × Str)) (y : Deferred) :
    RestoreM (List (Nat × Str)) := do
  if y.object.2.type ≠ .fileHardlink then throw (.exception .invalidCast)
  else do
    createHardlink env (y.location env) (x.location env)
    return targets ++ [(y.place, x.object.1.unmappedPath)]

/-- The callback that is handed a stream. `targets` lists the targets that objects have got so
far. -/
def restoreStream (restoreLater : List Deferred) (targets : List (Nat × Str)) (streamId : Nat)
    (stream : List Byte) : RestoreM (List (Nat × Str)) :=
  let index := binaryFindFirst restoreLater fun x => decide (streamId ≤ x.streamUniqueId)
  match restoreLater[index]? with
  | none => return targets
  | some x => do
    createFile env (x.location env) stream
    (peers restoreLater index streamId).foldlM (restoreHardlink env x) targets

/-- How much of its stream the callback reads: all of it or nothing. -/
def streamTaken (restoreLater : List Deferred) (streamId : Nat) (stream : List Byte) : Nat :=
  if binaryFindFirst restoreLater (fun x => decide (streamId ≤ x.streamUniqueId)) <
      restoreLater.length then
    stream.length
  else 0

/-- `Begin` with this callback. -/
def restoreStreams (restoreLater : List Deferred) :
    List Nat → List Int → Option (List Byte) → List (Nat × Str) → RestoreM (List (Nat × Str))
  | id :: streamIds, size :: streamSizes, data, targets =>
    match data with
    | none => throw (.exception .invalidArchive)
    | some data =>
      if size < 0 then throw (.exception .argumentOutOfRange)
      else do
        let bounded := data.take size.toNat
        let targets ← restoreStream env restoreLater targets id bounded
        restoreStreams restoreLater streamIds streamSizes
          (some (data.drop (streamTaken restoreLater id bounded))) targets
  | _, _, _, targets => return targets

def liftExcept {α : Type} : Except EngineError α → RestoreM α
  | .error e => throw (.exception e)
  | .ok a => return a

def restoreVersion (archives : Directory ArchiveFile) (restoreLater : List Deferred)
    (targets : List (Nat × Str)) (version : Int) : RestoreM (List (Nat × Str)) := do
  let archive ← liftExcept (openArchive archives version)
  let _ ← liftExcept archive.manifest
  restoreStreams env restoreLater archive.streamIds archive.streamSizes archive.data targets

/-! ### The whole -/

/-- The objects of hard links remember their targets. -/
def setTargets (targets : List (Nat × Str)) (trees : List FileSystemTree) : List FileSystemTree :=
  RoseTree.refillAll trees
    ((trees.flatMap RoseTree.toList).mapIdx fun place fso =>
      match targets.lookup place with
      | none => fso
      | some target => { fso with target := some target })

/-- All objects that are gone through. -/
def restoredObjects (oldObjects : List FileSystemTree) (latestVersion : VersionForRestore) :
    List PathedObject :=
  (oldObjects ++ latestVersion.baseObjects).flatMap FileSystemTree.iterate

/-- What happens once the versions are loaded; the old objects of the engine are returned. -/
def restoreLoaded (archives : Directory ArchiveFile) (oldObjects : List FileSystemTree)
    (latestVersionNumber : Int) (versions : List (Int × VersionForRestore)) :
    RestoreM (List FileSystemTree) :=
  match versions.lookup latestVersionNumber with
  | none => throw (.exception .argumentOutOfRange)
  | some latestVersion =>
    let dependencies version :=
      ((versions.lookup version).map (·.manifest.versionDependencies)).getD []
    match fillDependencies dependencies env.maxDepth [] latestVersionNumber with
    | none => throw .crash
    | some _ => do
      let restoreLater ← restoreObjects env 0 (restoredObjects oldObjects latestVersion)
      let restoreLater := env.sort.sortBy Deferred.streamUniqueId restoreLater
      let targets ← (latestVersionNumber :: latestVersion.manifest.versionDependencies).foldlM
        (restoreVersion env archives restoreLater) []
      return setTargets targets (oldObjects ++ latestVersion.baseObjects)

/-- `RestoreBackup`; the loop that loads the versions takes fuel. -/
def restoreBackup (archives : Directory ArchiveFile) (fuel : Nat) (e : BackupEngine)
    (disk : Disk) : Option (EStateM.Result RestoreError Disk BackupEngine) :=
  match e.versions.getLast? with
  | none => some (.error (.exception .argumentOutOfRange) disk)
  | some latestVersionNumber =>
    (loadVersions archives latestVersionNumber fuel).map fun outcome =>
      match outcome.failure with
      | some (_, error) => .error (.exception error) disk
      | none =>
        ((restoreLoaded env archives e.oldObjects latestVersionNumber outcome.loaded).bind
          fun oldObjects => return { e with oldObjects := oldObjects }) disk

end Operations

end BackupProgram
