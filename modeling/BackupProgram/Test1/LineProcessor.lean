import BackupProgram.Lib.Results
import BackupProgram.Test1.BackupSystem

/-!
# The commands of the console program

A line is an array of arguments, the first of which names a command. Commands select a target
directory, set up what is to be backed up, and run backups and restores; `if` makes a command depend
on the arguments of the program. No exception is caught: the first one ends the program.
-/

namespace BackupProgram

open Results

inductive ConsoleError where
  | indexOutOfRange
  | nullReference
  | format
  | overflow
  | noBackupSelected
  | neverPerformed
  | noSuchVersion
  | targetLocationIsFile
  | engine (e : EngineError)
  | restore (e : RestoreError)
  | outOfFuel
deriving DecidableEq, Repr

/-- What is shown in user mode. -/
inductive Display where
  | selectedVersion (version : Int)
  | dependencies (versions : List Int)
  | versions (versions : List Int)
  | versionCount (count : Nat) (latest : Int)
  | noVersions
  | paths (entries : List FileSystemTree)

/-- What a command does apart from the changes to the processor: something is shown, the archive of
a version is read, a directory or the disk is changed. -/
inductive ConsoleEvent where
  | display (d : Display)
  | read (targetLocation : Str) (version : Int)
  | backup (targetLocation : Str) (dir : TargetDirectory)
  | restore (disk : Disk)

inductive OperationMode where
  | pipe
  | user
deriving DecidableEq, Repr

structure LineProcessor where
  backupSystem : Option BackupSystem
  selectedVersion : Int
  operationMode : OperationMode
  arguments : List Str

/-- The processor after a command, and what the command has done. -/
abbrev Processed : Type := Except ConsoleError (LineProcessor × List ConsoleEvent)

/-- White space around a number. -/
def isWhite (c : Char) : Bool := c == ' ' || '\t' ≤ c && c ≤ '\r'

/-- `Convert.ToInt32` of a string: digits after an optional sign, with white space around. -/
def convertToInt32 (s : Str) : Except ConsoleError Int :=
  let s := (s.dropWhile isWhite).rdropWhile isWhite
  let digits := match s with
    | '-' :: rest => rest
    | '+' :: rest => rest
    | rest => rest
  if digits.isEmpty || digits.any (!·.isDigit) then throw .format
  else
    let n : Int := (if s.head? = some '-' then -1 else 1) * Nat.ofDigitChars 10 digits 0
    if -2 ^ 31 ≤ n ∧ n ≤ maxInt then return n else throw .overflow

namespace LineProcessor

variable (l : Locale) (m : Machine)

/-- The constructor. -/
def new (arguments : List Str) : LineProcessor where
  backupSystem := none
  selectedVersion := 0
  operationMode :=
    if arguments.any (l.culture.equalsIgnoreCase "--pipe".toList) then .pipe else .user
  arguments := arguments

/-- `ToLower` of the argument that a `switch` is about. -/
def keyword (argument : Str) : String := String.ofList (argument.map l.culture.toLower)

/-- `line[i]` -/
def argumentAt (words : List Str) (i : Nat) : Except ConsoleError Str :=
  match words[i]? with
  | none => throw .indexOutOfRange
  | some argument => return argument

/-- Numbers of versions are shown in user mode. -/
def shown (p : LineProcessor) (d : Display) : List ConsoleEvent :=
  if p.operationMode = .user then [.display d] else []

/-- A member of `_backupSystem` is used. -/
def system (p : LineProcessor) : Except ConsoleError BackupSystem :=
  match p.backupSystem with
  | none => throw .nullReference
  | some s => return s

/-- A member of `_backupSystem` is set. -/
def setSystem (p : LineProcessor) (s : BackupSystem) : LineProcessor :=
  { p with backupSystem := some s }

/-- Reading the number of versions caches it. -/
def ensureExistingBackup (p : LineProcessor) : Except ConsoleError BackupSystem :=
  match p.backupSystem with
  | none => throw .noBackupSelected
  | some s =>
    if s.engine.versionCount = 0 then throw .neverPerformed
    else return { s with engine := s.engine.cacheVersionCount }

/-- An exception of the engine is not caught. -/
def ofEngine {α : Type} : Except EngineError α → Except ConsoleError α
  | .ok a => .ok a
  | .error e => .error (.engine e)

/-! ### Opening and setting up -/

def processOpen (p : LineProcessor) (line : List Str) : Processed := do
  let targetLocation ← argumentAt line 1
  match m.target targetLocation with
  | none => throw .targetLocationIsFile
  | some dir =>
    let engine ← ofEngine (BackupEngine.new l.culture targetLocation dir)
    let s := BackupSystem.new targetLocation engine.cacheVersionCount
    return ({ p with
      backupSystem := some s
      selectedVersion := toInt32 (engine.versionCount - 1) }, [])

def processAdd (p : LineProcessor) (line : List Str) : Processed := do
  let s ← p.system
  let source ← argumentAt line 1
  return (p.setSystem { s with sources := s.sources ++ [source] }, [])

def processExcludeExtension (p : LineProcessor) (line : List Str) : Processed := do
  let s ← p.system
  let extension ← argumentAt line 2
  return (p.setSystem
    { s with ignoredExtensions := l.invariantCulture.add s.ignoredExtensions extension }, [])

def processExcludePath (p : LineProcessor) (line : List Str) : Processed := do
  let s ← p.system
  let path ← argumentAt line 2
  return (p.setSystem
    { s with ignoredPaths :=
        l.invariantCulture.add s.ignoredPaths (StringUtils.normalizePath path) }, [])

/-- `ProcessExcludeNameFiles` and the two others. -/
def processExcludeNameAs (type : NameIgnoreType) (p : LineProcessor) (line : List Str) :
    Processed := do
  let s ← p.system
  let name ← argumentAt line 3
  return (p.setSystem
    { s with ignoredNames := l.invariantCulture.put s.ignoredNames name type }, [])

def processExcludeNameFiles := processExcludeNameAs l .file

def processExcludeNameDirs := processExcludeNameAs l .directory

def processExcludeNameAll := processExcludeNameAs l .all

def processExcludeName (p : LineProcessor) (line : List Str) : Processed := do
  let type ← argumentAt line 2
  match keyword l type with
  | "files" => processExcludeNameFiles l p line
  | "dirs" => processExcludeNameDirs l p line
  | "all" => processExcludeNameAll l p line
  | _ => return (p, [])

def processExclude (p : LineProcessor) (line : List Str) : Processed := do
  let what ← argumentAt line 1
  match keyword l what with
  | "extension" => processExcludeExtension l p line
  | "path" => processExcludePath l p line
  | "name" => processExcludeName l p line
  | _ => return (p, [])

def setUseSnapshots (p : LineProcessor) (b : Bool) : Processed := do
  let s ← p.system
  return (p.setSystem { s with useSnapshots := b }, [])

def processSetUseSnapshots (p : LineProcessor) (line : List Str) : Processed := do
  let value ← argumentAt line 2
  match keyword l value with
  | "true" => p.setUseSnapshots true
  | "false" => p.setUseSnapshots false
  | _ => return (p, [])

def setGlobalChangeCriterium (p : LineProcessor) (c : BackupSystem.ChangeCriterium) :
    Processed := do
  let s ← p.system
  return (p.setSystem { s with globalChangeCriterium := c }, [])

def processSetChangeCriterium (p : LineProcessor) (line : List Str) : Processed := do
  let value ← argumentAt line 2
  match keyword l value with
  | "archive_flag" => p.setGlobalChangeCriterium .archiveFlag
  | "size" => p.setGlobalChangeCriterium .size
  | "date" => p.setGlobalChangeCriterium .date
  | "hash" => p.setGlobalChangeCriterium .hash
  | "hash_auto" => p.setGlobalChangeCriterium .hashAuto
  | _ => return (p, [])

def processSet (p : LineProcessor) (line : List Str) : Processed := do
  let what ← argumentAt line 1
  match keyword l what with
  | "use_snapshots" => processSetUseSnapshots l p line
  | "change_criterium" => processSetChangeCriterium l p line
  | _ => return (p, [])

/-! ### Backups, restores and versions -/

def processBackup (p : LineProcessor) : Processed := do
  let s ← p.system
  let (engine, dir) ← ofEngine (s.engine.performBackup (s.backupCall l m) (s.targetDirectory m))
  return (p.setSystem { s with engine := engine }, [.backup s.targetLocation dir])

def processRestore (p : LineProcessor) : Processed := do
  let s ← p.system
  match restoreBackup m.restoreEnv (s.targetDirectory m).archiveFiles m.restoreFuel s.engine
      m.disk with
  | none => throw .outOfFuel
  | some (.error e _) => throw (.restore e)
  | some (.ok engine disk) => return (p.setSystem { s with engine := engine }, [.restore disk])

def processSelectVersion (p : LineProcessor) (line : List Str) : Processed := do
  let argument ← argumentAt line 2
  let versionNumber ← convertToInt32 argument
  let s ← p.ensureExistingBackup
  let versionNumber :=
    if versionNumber < 0 then toInt32 (s.engine.versionCount + versionNumber) else versionNumber
  if versionNumber ∉ s.engine.versions then throw .noSuchVersion
  else
    return ({ p.setSystem s with selectedVersion := versionNumber },
      p.shown (.selectedVersion versionNumber))

def processSelect (p : LineProcessor) (line : List Str) : Processed := do
  let what ← argumentAt line 1
  match keyword l what with
  | "version" => p.processSelectVersion line
  | _ => return (p, [])

def processShowDependencies (p : LineProcessor) : Processed := do
  let s ← p.ensureExistingBackup
  let dependencies ← ofEngine (s.getVersionDependencies m p.selectedVersion)
  return (p.setSystem s,
    .read s.targetLocation p.selectedVersion :: p.shown (.dependencies dependencies))

def processShowVersions (p : LineProcessor) : Processed := do
  if p.operationMode = .user then
    let s ← p.system
    return (p, p.shown (.versions s.engine.versions))
  else return (p, [])

def processShowVersionCount (p : LineProcessor) : Processed := do
  if p.operationMode = .user then
    let s ← p.system
    let count := s.engine.versionCount
    return (p.setSystem { s with engine := s.engine.cacheVersionCount },
      p.shown (if 0 < count then .versionCount s.engine.versions.length (toInt32 (count - 1))
        else .noVersions))
  else return (p, [])

def processShowPaths (p : LineProcessor) : Processed := do
  let s ← p.ensureExistingBackup
  let entries ← ofEngine (s.getEntries m p.selectedVersion)
  return (p.setSystem s, .read s.targetLocation p.selectedVersion :: p.shown (.paths entries))

def processShow (p : LineProcessor) (line : List Str) : Processed := do
  let what ← argumentAt line 1
  match keyword l what with
  | "dependencies" => processShowDependencies m p
  | "versions" => p.processShowVersions
  | "version_count" => p.processShowVersionCount
  | "paths" => processShowPaths m p
  | _ => return (p, [])

/-! ### Lines -/

/-- Words that are not commands are ignored. -/
def processLine (p : LineProcessor) : List Str → Processed
  | [] => throw .indexOutOfRange
  | command :: line =>
    match keyword l command with
    | "open" => processOpen l m p (command :: line)
    | "add" => p.processAdd (command :: line)
    | "exclude" => processExclude l p (command :: line)
    | "backup" => processBackup l m p
    | "restore" => processRestore m p
    | "select" => processSelect l p (command :: line)
    | "show" => processShow l m p (command :: line)
    | "if" =>
      match line with
      | [] => throw .indexOutOfRange
      | argument :: line =>
        if p.arguments.any (l.culture.equalsIgnoreCase argument) then processLine p line
        else return (p, [])
    | "set" => processSet l p (command :: line)
    | _ => return (p, [])

end LineProcessor

/-- The loop of `Process`; every line is read on a machine that may have changed in the meantime. -/
def LineProcessor.process (l : Locale) : LineProcessor → List (Machine × List Str) → Processed
  | p, [] => return (p, [])
  | p, (m, line) :: lines =>
    match line with
    | [] => p.process l lines
    | command :: _ =>
      if l.culture.equalsIgnoreCase command "quit".toList then return (p, [])
      else do
        let (p, events) ← processLine l m p line
        let (p, more) ← p.process l lines
        return (p, events ++ more)

end BackupProgram
