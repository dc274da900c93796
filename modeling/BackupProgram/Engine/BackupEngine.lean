import BackupProgram.Engine.GenerateArchive
import BackupProgram.Engine.PathMapper
import BackupProgram.Engine.Versions

/-!
# The backup engine

An engine belongs to a target directory. It looks for the versions there when it is constructed; a
backup makes a first version or a further one.
-/

namespace BackupProgram

open StringUtils

/-- The files of the target directory; those that are not archives have no content here. -/
abbrev TargetDirectory : Type := Directory (Option VersionArchive)

/-- What a backup finds: the methods and the file system, the source locations, the shadow copies if
snapshots are used, and whether the archive can be written in the end. -/
structure BackupCall where
  env : BackupEnv
  sourceLocations : List Str
  shadows : Option (List Shadow)
  startTime : Int
  writeError : Option EngineError

namespace BackupCall

def pathMapper (call : BackupCall) : Option PathMap := call.shadows.map fun s => (setPathMapper s).1

def reversePathMapper (call : BackupCall) : Option PathMap :=
  call.shadows.map fun s => (setPathMapper s).2

def mapPathForward (call : BackupCall) (path : Str) : Str :=
  mapPath call.env.culture path call.pathMapper

def mapPathBack (call : BackupCall) (path : Str) : Str :=
  mapPath call.env.culture path call.reversePathMapper

end BackupCall

/-- `cachedVersionCount` is `_versionCount`; `oldObjectsDict` has the newest entry of a key in
front. -/
structure BackupEngine where
  versions : List Int
  cachedVersionCount : Int
  counters : StreamCounters
  baseObjectsSet : Bool
  baseObjects : List FileSystemTree
  oldObjects : List FileSystemTree
  oldObjectsDict : List (Str × FileSystemObject)
  heap : List BackupStream

namespace BackupEngine

/-- The constructor, under the culture that is current then. -/
def new (culture : Culture) (targetLocation : Str) (dir : TargetDirectory) :
    Except EngineError BackupEngine := do
  let versions ← setVersions culture targetLocation dir
  return {
    versions := versions
    cachedVersionCount := -1
    counters := ⟨1, 1⟩
    baseObjectsSet := false
    baseObjects := []
    oldObjects := []
    oldObjectsDict := []
    heap := [] }

def versionCount (e : BackupEngine) : Int :=
  if 0 ≤ e.cachedVersionCount then e.cachedVersionCount
  else
    match e.versions.getLast? with
    | none => 0
    | some back => toInt32 (back + 1)

def newVersionNumber (e : BackupEngine) : Int := e.versionCount

/-- Reading `VersionCount` sets the cache. -/
def cacheVersionCount (e : BackupEngine) : BackupEngine :=
  { e with cachedVersionCount := e.versionCount }

def openLatestVersion (e : BackupEngine) (dir : TargetDirectory) :
    Except EngineError VersionArchive :=
  match e.versions.getLast? with
  | none => throw .argumentOutOfRange
  | some back =>
    match dir.get? (getVersionName back) with
    | none => throw .io
    | some none => throw .invalidArchive
    | some (some archive) => return archive

/-! ### Base objects -/

def getCurrentSourceLocations (call : BackupCall) (e : BackupEngine) : List Str :=
  if e.versionCount = 0 then call.sourceLocations
  else (e.oldObjects.filter fun x => x.root.isMain).map fun x => x.root.basePaths.mappedPath

/-- `RecalculateFileGuids` for one object that may be in the queue. -/
def recalculateFileGuid (call : BackupCall) (o : PathedObject) :
    Except EngineError FileSystemObject :=
  if o.2.guidEnqueued then
    let path := call.mapPathBack o.1.mappedPath
    FileSystemObject.setFileSystemGuid call.env.toSettings path false (call.env.fs.getFileGuid path)
      { o.2 with guidEnqueued := false }
  else return o.2

def recalculateFileGuids (call : BackupCall) (baseObjects : List FileSystemTree) :
    Except EngineError (List FileSystemTree) := do
  let objects ← (baseObjects.flatMap FileSystemTree.iterate).mapM (recalculateFileGuid call)
  return RoseTree.refillAll baseObjects objects

def createBaseObject (call : BackupCall) (currentSourceLocation : Str) :
    Except EngineError FileSystemTree := do
  let x ← FileSystemObject.create call.env.toSettings call.env.fs
    (call.mapPathForward currentSourceLocation) currentSourceLocation
  return { x with root := { x.root with isMain := true } }

def setBaseObjects (call : BackupCall) (e : BackupEngine) : Except EngineError BackupEngine :=
  if e.baseObjectsSet then return e
  else do
    let created ← (e.getCurrentSourceLocations call).mapM (createBaseObject call)
    let baseObjects ← recalculateFileGuids call (e.baseObjects ++ created)
    return { e with baseObjectsSet := true, baseObjects := baseObjects }

/-! ### Backups -/

/-- `GenerateArchive`; the archive gets into the directory when it is complete. -/
def archiveVersion (call : BackupCall) (streamGenerator : Generator) (versionNumber : Int)
    (e : BackupEngine) (dir : TargetDirectory) :
    Except EngineError (BackupEngine × TargetDirectory) := do
  let r ← generateArchive call.env call.startTime streamGenerator versionNumber e.heap e.counters
    e.baseObjects
  match call.writeError with
  | some error => throw error
  | none =>
    return ({ e with baseObjects := r.archive.baseObjects, heap := r.heap, counters := r.counters },
      dir.put (getVersionName versionNumber) (some r.archive))

def createInitialVersion (call : BackupCall) (e : BackupEngine) (dir : TargetDirectory) :
    Except EngineError (BackupEngine × TargetDirectory) := do
  let e ← e.setBaseObjects call
  e.archiveVersion call (generateInitialStream e.newVersionNumber) 0 dir

def setOldObjectsDict (culture : Culture) (e : BackupEngine) : BackupEngine :=
  { e with
    oldObjectsDict := (e.oldObjects.flatMap FileSystemTree.iterate).foldl
      (fun dict x => (simplifyPath culture x.1.mappedPath, x.2) :: dict) e.oldObjectsDict }

/-- An object gets the id that the object of the same path had. -/
def copyStreamUniqueId (culture : Culture) (dict : List (Str × FileSystemObject))
    (o : PathedObject) : FileSystemObject :=
  match dict.lookup (simplifyPath culture o.1.mappedPath) with
  | none => o.2
  | some found => { o.2 with streamUniqueId := found.streamUniqueId }

def updateExistingVersion (call : BackupCall) (e : BackupEngine) (dir : TargetDirectory) :
    Except EngineError (BackupEngine × TargetDirectory) := do
  let archive ← e.openLatestVersion dir
  let e :=
    { e with
      oldObjects := archive.getBaseObjects
      counters := ⟨archive.manifest.nextStreamUniqueId,
        archive.manifest.nextDifferentialChainUniqueId⟩ }
  let e := e.setOldObjectsDict call.env.culture
  let e ← e.setBaseObjects call
  let e :=
    { e with
      baseObjects := e.baseObjects.map fun t =>
        (FileSystemTree.pathed t).map (copyStreamUniqueId call.env.culture e.oldObjectsDict) }
  e.archiveVersion call (checkAndMaybeAdd call.env e.newVersionNumber e.oldObjects)
    e.newVersionNumber dir

/-- A backup that fails leaves the directory as it is. -/
def performBackup (call : BackupCall) (e : BackupEngine) (dir : TargetDirectory) :
    Except EngineError (BackupEngine × TargetDirectory) :=
  let e := e.cacheVersionCount
  if e.versionCount = 0 then e.createInitialVersion call dir
  else e.updateExistingVersion call dir

end BackupEngine

end BackupProgram
