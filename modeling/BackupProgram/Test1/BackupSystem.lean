import BackupProgram.Engine.BackupEngine
import BackupProgram.Engine.RestoreBackup
import BackupProgram.Lib.Comparers

/-!
# The backup system of the console program

`BackupSystem` is an engine whose sources, exclusions and change criterium are set from outside.
-/

namespace BackupProgram

open StringUtils

/-- The cultures of the process. -/
structure Locale where
  culture : Culture
  invariantCulture : Comparer Str

/-- What a command of the console program finds: the file system, the shadow copies that can be
made, the directory that a target path leads to (or a file), and the machine for a restore. -/
structure Machine where
  listSort : ListSort
  fs : FileSystemView
  hash : HashType → List Byte → List Byte
  shadows : List Shadow
  startTime : Int
  writeError : Option EngineError
  target : Str → Option TargetDirectory
  restoreEnv : RestoreEnv
  restoreFuel : Nat
  disk : Disk

/-- The flags are those of files and of directories. -/
inductive NameIgnoreType where
  | none
  | file
  | directory
  | all
deriving DecidableEq, Repr

namespace NameIgnoreType

def hasFile : NameIgnoreType → Bool
  | none | directory => false
  | file | all => true

def hasDirectory : NameIgnoreType → Bool
  | none | file => false
  | directory | all => true

end NameIgnoreType

inductive BackupSystem.ChangeCriterium where
  | archiveFlag
  | size
  | date
  | hash
  | hashAuto
deriving DecidableEq, Repr

structure BackupSystem where
  targetLocation : Str
  engine : BackupEngine
  useSnapshots : Bool
  sources : List Str
  ignoredExtensions : List Str
  ignoredPaths : List Str
  ignoredNames : List (Str × NameIgnoreType)
  globalChangeCriterium : BackupSystem.ChangeCriterium

/-- `Path.GetExtension`: from the last dot on, unless a separator comes after it or nothing does. It
throws for characters that are invalid in paths; names that are enumerated have none. -/
def getExtension (path : Str) : Str :=
  let isEnd := fun c => c == '.' || pathSplitters c || c == ':'
  let tail := path.rtakeWhile (!isEnd ·)
  if tail = [] then []
  else if (path.rdropWhile (!isEnd ·)).getLast? = some '.' then '.' :: tail else []

namespace BackupSystem

def new (targetLocation : Str) (engine : BackupEngine) : BackupSystem where
  targetLocation := targetLocation
  engine := engine
  useSnapshots := true
  sources := []
  ignoredExtensions := []
  ignoredPaths := []
  ignoredNames := []
  globalChangeCriterium := .hash

variable (l : Locale) (m : Machine) (s : BackupSystem)

def getBackupModeForObject (o : PathedObject) : BackupMode × Bool :=
  let nit := (l.invariantCulture.get? s.ignoredNames o.2.name).getD .none
  if (l.invariantCulture.get? s.ignoredNames o.2.name).isSome &&
      (nit.hasFile && !o.2.isDirectoryish || nit.hasDirectory && o.2.isDirectoryish) then
    (.noBackup, false)
  else if l.invariantCulture.contains s.ignoredExtensions (getExtension o.2.name) &&
      !o.2.isDirectoryish || l.invariantCulture.contains s.ignoredPaths o.1.unmappedPath then
    (.noBackup, false)
  else (if o.2.isDirectoryish then .directory else .full, false)

def getChangeCriterium (newFile : PathedObject) : BackupProgram.ChangeCriterium :=
  match s.globalChangeCriterium with
  | .archiveFlag => .archiveFlag
  | .size => .size
  | .date => .date
  | .hash => .hash
  | .hashAuto => if newFile.2.size < 1024 * 1024 then .hash else .date

/-- The surroundings of a backup; the error reporter always wants to go on. -/
def backupCall : BackupCall where
  env :=
    { reportError := fun _ => true
      getBackupModeForObject := s.getBackupModeForObject l
      listSort := m.listSort
      culture := l.culture
      fs := m.fs
      getChangeCriterium := s.getChangeCriterium
      customFileHasChanged := fun _ _ => true
      hashAlgorithm := .sha256
      hash := m.hash }
  sourceLocations := s.sources
  shadows := if s.useSnapshots then some m.shadows else none
  startTime := m.startTime
  writeError := m.writeError

/-- The directory of the engine; a system without one has not been opened. -/
def targetDirectory : TargetDirectory := (m.target s.targetLocation).getD []

/-- The archive reader of `GetVersionDependencies` and `GetEntries`. -/
def archiveReader (version : Int) : Except EngineError VersionArchive :=
  match (s.targetDirectory m).get? (getVersionName version) with
  | none => throw .io
  | some none => throw .invalidArchive
  | some (some archive) => return archive

def getVersionDependencies (version : Int) : Except EngineError (List Int) := do
  let archive ← s.archiveReader m version
  return archive.manifest.versionDependencies

def getEntries (version : Int) : Except EngineError (List FileSystemTree) := do
  let archive ← s.archiveReader m version
  return archive.getBaseObjects

end BackupSystem

end BackupProgram
