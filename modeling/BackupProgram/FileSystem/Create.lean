import BackupProgram.FileSystem.FileSystemObject
import BackupProgram.Lib.Results
import BackupProgram.Util.ListSort

/-!
# Creating objects

The constructors of the objects ask the operating system about what lies at a path and below it.
What they find depends on the file system, on the exclusion rules, and on the decision of the error
reporter whether to go on after an error.
-/

namespace BackupProgram

open StringUtils

/-- The exceptions of the backup engine. -/
inductive EngineError where
  | argumentOutOfRange
  | argumentNull
  | invalidCast
  | notImplemented
  | incorrectImplementation
  | invalidProgramState
  | overflow
  | unableToDetermineFileSystemObjectType
  | fileReparsePointsNotImplemented
  | win32
  | io
  | invalidArchive
deriving DecidableEq, Repr

inductive GuidResult where
  | found (guid : Guid)
  | unableToObtainGuid
  | failed
deriving DecidableEq, Repr

/-- What the operating system reports of an object; a call that fails reports nothing. -/
structure Entry where
  name : Str
  type : Option FileSystemObjectType
  archiveFlag : Option Bool := some false
  lastWriteTime : Option Int := some 0
  size : Option Nat := some 0
  guid : GuidResult := .failed
  reparsePointTarget : Option Str := none
  hardlinksListed : Bool := true
  entriesListed : Bool := true

/-- The file system during a backup: what lies at and below a path, and two calls that may be made
with paths other than those of the enumeration. At a path where there is nothing, the operating
system is asked for attributes that have all bits set then: the entry is a junction, and all other
calls fail. -/
structure FileSystemView where
  lookup : Str → Option (RoseTree Entry)
  getFileGuid : Str → GuidResult
  readFile : Str → Option (List Byte)

/-- `FileSystemObjectSettings`. The mode of an object comes with the wish to follow its link target;
`reportError` says whether to go on after an error at a path. -/
structure Settings where
  reportError : Str → Bool
  getBackupModeForObject : PathedObject → BackupMode × Bool
  listSort : ListSort

namespace FileSystemObject

variable (settings : Settings)

/-- The result of a call, or else a default if the error may be ignored. -/
def reported {α : Type} (path : Str) (default : α) : Option α → Except EngineError α
  | some a => return a
  | none => if settings.reportError path then return default else throw .win32

/-- `MakeMap` -/
def setBackupMode (o : PathedObject) : Except EngineError FileSystemObject := do
  let (mode, follow) := settings.getBackupModeForObject o
  if follow && (o.2.target.getD []) != [] then throw .notImplemented
  return { o.2 with backupMode := mode }

def setFileAttributes (path : Str) (e : Entry) (fso : FileSystemObject) :
    Except EngineError FileSystemObject := do
  let archiveFlag ← reported settings path true e.archiveFlag
  let modificationTime ← reported settings path 0 e.lastWriteTime
  return { fso with archiveFlag := archiveFlag, modificationTime := modificationTime }

def setFileSystemGuid (path : Str) (retry : Bool) (guid : GuidResult) (fso : FileSystemObject) :
    Except EngineError FileSystemObject :=
  match guid, retry with
  | .found guid, _ => return { fso with fileSystemGuid := some guid }
  | .unableToObtainGuid, true => return { fso with guidEnqueued := true }
  | _, _ => do
    reported settings path () none
    return { fso with fileSystemGuid := none }

/-- `SetMembers` of the objects that are not like directories. -/
def setMembers (path : Str) (e : Entry) (fso : FileSystemObject) :
    Except EngineError FileSystemObject := do
  let size ← reported settings path 0 e.size
  setFileSystemGuid settings path true e.guid { fso with size := size }

def setTarget (path : Str) (e : Entry) (fso : FileSystemObject) :
    Except EngineError FileSystemObject := do
  let target ← reported settings path none (e.reparsePointTarget.map some)
  return { fso with target := target }

/-- The constructors, apart from the children of a directory. The names are known already. -/
def construct (paths : FileSystemObject → ObjectPaths) (path : Str) (e : Entry)
    (fso : FileSystemObject) : Except EngineError FileSystemObject := do
  let fso ← setFileAttributes settings path e fso
  let fso ← match fso.type with
    | .directory => pure fso
    | .directorySymlink | .junction => setTarget settings path e fso
    | .regularFile => setMembers settings path e fso
    | .fileSymlink => do
      let fso ← setMembers settings path e fso
      setTarget settings path e fso
    | .fileReparsePoint => throw .fileReparsePointsNotImplemented
    | .fileHardlink => do
      let fso ← setMembers settings path e fso
      if e.hardlinksListed then pure fso else throw .win32
  setBackupMode settings (paths fso, fso)

/-- A path as it is enumerated. -/
def enumerated (path name : Str) : Str :=
  ensureLastCharacterIsNotBackslash path ++ '\\' :: name

def determineType (e : Entry) : Except EngineError FileSystemObjectType :=
  match e.type with
  | some type => return type
  | none => throw .unableToDetermineFileSystemObjectType

def nameOf (path : Str) : Except EngineError Str :=
  match getNameFromPath path with
  | some name => return name
  | none => throw .argumentOutOfRange

/-- Directories come first. -/
def sortChildren (children : List FileSystemTree) : List FileSystemTree :=
  settings.listSort.sortBy (fun x => if x.root.isDirectoryish then 0 else 1) children

/-- `ConstructChildrenList`, up to the sorting, for a directory with the given paths that is
enumerated under `path`. -/
def constructChildrenList (paths : ObjectPaths) (path : Str) :
    Forest Entry → Except EngineError (List FileSystemTree)
  | .nil => return []
  | .cons e entries siblings => do
    let childPath := enumerated path e.name
    let type ← determineType e
    let name ← nameOf childPath
    let child ← construct settings paths.child childPath e { type := type, name := name }
    let children ←
      if child.type = .directory ∧ child.backupMode = .directory then do
        reported settings childPath () (if e.entriesListed then some () else none)
        if e.entriesListed then constructChildrenList (paths.child child) childPath entries
        else pure []
      else pure []
    let rest ← constructChildrenList paths path siblings
    return ⟨child, Forest.ofTrees (sortChildren settings children)⟩ :: rest

/-- `Create(string, string, FileSystemObjectSettings)`. A path of which nothing is known is one
whose type cannot be determined; a path where there is nothing is not one of these. -/
def create (fs : FileSystemView) (path unmappedPath : Str) : Except EngineError FileSystemTree := do
  match fs.lookup path with
  | none => throw .unableToDetermineFileSystemObjectType
  | some entry =>
    let e := entry.root
    let type ← determineType e
    match splitIntoObjectAndContainer path, splitIntoObjectAndContainer unmappedPath with
    | some (mappedContainer, _), some (unmappedContainer, name) => do
      let fso ← construct settings basePaths path e
        { type := type
          name := name
          mappedBasePath := mappedContainer
          unmappedBasePath := unmappedContainer }
      let children ←
        if fso.type = .directory ∧ fso.backupMode = .directory then do
          reported settings path () (if e.entriesListed then some () else none)
          if e.entriesListed then constructChildrenList settings fso.basePaths path entry.children
          else pure []
        else pure []
      return ⟨fso, Forest.ofTrees (sortChildren settings children)⟩
    | _, _ => throw .argumentOutOfRange

/-! ### What is created -/

variable {settings : Settings}

open Results

/-- A constructor sets what the operating system reports, and the backup mode. -/
def SameConstructed (fso' fso : FileSystemObject) : Prop :=
  fso' = { fso with
    archiveFlag := fso'.archiveFlag
    modificationTime := fso'.modificationTime
    size := fso'.size
    fileSystemGuid := fso'.fileSystemGuid
    guidEnqueued := fso'.guidEnqueued
    target := fso'.target
    backupMode := fso'.backupMode }

lemma SameConstructed.trans {a b c : FileSystemObject} (h : SameConstructed a b)
    (h' : SameConstructed b c) : SameConstructed a c := by
  rw [SameConstructed] at h h' ⊢
  rw [h, h']

lemma setFileSystemGuid_eq_ok {path : Str} {retry : Bool} {guid : GuidResult}
    {fso fso' : FileSystemObject} (h : setFileSystemGuid settings path retry guid fso = .ok fso') :
    SameConstructed fso' fso := by
  rw [setFileSystemGuid.eq_def] at h
  split at h
  · rw [pure_eq_ok] at h
    exact h ▸ rfl
  · rw [pure_eq_ok] at h
    exact h ▸ rfl
  · simp only [bind_eq_ok, pure_eq_ok] at h
    obtain ⟨-, -, rfl⟩ := h
    rfl

lemma setMembers_eq_ok {path : Str} {e : Entry} {fso fso' : FileSystemObject}
    (h : setMembers settings path e fso = .ok fso') : SameConstructed fso' fso := by
  simp only [setMembers, bind_eq_ok] at h
  obtain ⟨size, -, h⟩ := h
  exact (setFileSystemGuid_eq_ok h).trans rfl

lemma setTarget_eq_ok {path : Str} {e : Entry} {fso fso' : FileSystemObject}
    (h : setTarget settings path e fso = .ok fso') : SameConstructed fso' fso := by
  simp only [setTarget, bind_eq_ok, pure_eq_ok] at h
  obtain ⟨target, -, rfl⟩ := h
  rfl

lemma setBackupMode_eq_ok {o : PathedObject} {fso' : FileSystemObject}
    (h : setBackupMode settings o = .ok fso') : SameConstructed fso' o.2 := by
  simp only [setBackupMode] at h
  split at h
  · simp at h
  · rw [pure_eq_ok] at h
    exact h ▸ rfl

lemma construct_eq_ok {paths : FileSystemObject → ObjectPaths} {path : Str} {e : Entry}
    {fso fso' : FileSystemObject} (h : construct settings paths path e fso = .ok fso') :
    SameConstructed fso' fso := by
  simp only [construct, bind_eq_ok] at h
  obtain ⟨fso1, hattributes, h⟩ := h
  have hfirst : SameConstructed fso1 fso := by
    simp only [setFileAttributes, bind_eq_ok, pure_eq_ok] at hattributes
    obtain ⟨archiveFlag, -, modificationTime, -, rfl⟩ := hattributes
    rfl
  refine SameConstructed.trans ?_ hfirst
  split at h <;> simp only [bind_eq_ok, pure_eq_ok, exists_eq_left'] at h
  · exact setBackupMode_eq_ok h
  · obtain ⟨fso2, htarget, h⟩ := h
    exact (setBackupMode_eq_ok h).trans (setTarget_eq_ok htarget)
  · obtain ⟨fso2, htarget, h⟩ := h
    exact (setBackupMode_eq_ok h).trans (setTarget_eq_ok htarget)
  · obtain ⟨fso2, hmembers, h⟩ := h
    exact (setBackupMode_eq_ok h).trans (setMembers_eq_ok hmembers)
  · obtain ⟨fso2, hmembers, fso3, htarget, h⟩ := h
    exact (setBackupMode_eq_ok h).trans
      ((setTarget_eq_ok htarget).trans (setMembers_eq_ok hmembers))
  · simp at h
  · obtain ⟨fso2, hmembers, h⟩ := h
    split_ifs at h
    · simp only [bind_eq_ok, pure_eq_ok, exists_eq_left'] at h
      exact (setBackupMode_eq_ok h).trans (setMembers_eq_ok hmembers)
    · simp at h

/-- The members of an object that has just been created, apart from those of its constructor. -/
structure Created (fso : FileSystemObject) : Prop where
  streamUniqueId : fso.streamUniqueId = 0
  hashes : fso.hashes = []
  backupStream : fso.backupStream = none

lemma SameConstructed.created {fso' fso : FileSystemObject} (h : SameConstructed fso' fso)
    (hfso : Created fso) : Created fso' := by
  rw [h]
  exact ⟨hfso.streamUniqueId, hfso.hashes, hfso.backupStream⟩

lemma mem_sortChildren {children : List FileSystemTree} {fso : FileSystemObject} :
    fso ∈ (Forest.ofTrees (sortChildren settings children)).toList ↔
      ∃ t ∈ children, fso ∈ t.toList := by
  simp [sortChildren]

lemma created_of_root {root : FileSystemObject} {below : List FileSystemTree}
    (hroot : Created root) (hbelow : ∀ t ∈ below, ∀ fso ∈ t.toList, Created fso) :
    ∀ fso ∈ RoseTree.toList ⟨root, Forest.ofTrees (sortChildren settings below)⟩, Created fso := by
  intro fso hfso
  rcases List.mem_cons.mp hfso with rfl | hfso
  · exact hroot
  · obtain ⟨t, ht, hfso⟩ := mem_sortChildren.mp hfso
    exact hbelow t ht fso hfso

/-- One child, with what is below it, and the others. -/
lemma constructChildrenList_cons_eq_ok {paths : ObjectPaths} {path : Str} {e : Entry}
    {entries siblings : Forest Entry} {children : List FileSystemTree}
    (h : constructChildrenList settings paths path (.cons e entries siblings) = .ok children) :
    ∃ type name child below rest, determineType e = .ok type ∧
      nameOf (enumerated path e.name) = .ok name ∧
      construct settings paths.child (enumerated path e.name) e { type := type, name := name } =
        .ok child ∧
      (if child.type = .directory ∧ child.backupMode = .directory ∧ e.entriesListed then
        constructChildrenList settings (paths.child child)
        (enumerated path e.name) entries = .ok below
      else below = []) ∧
      constructChildrenList settings paths path siblings = .ok rest ∧
      children = ⟨child, Forest.ofTrees (sortChildren settings below)⟩ :: rest := by
  simp only [constructChildrenList, bind_eq_ok] at h
  obtain ⟨type, htype, name, hname, child, hchild, h⟩ := h
  split at h
  · rename_i hdirectory
    simp only [bind_eq_ok] at h
    obtain ⟨-, -, h⟩ := h
    split at h
    · rename_i hlisted
      simp only [bind_eq_ok, pure_eq_ok] at h
      obtain ⟨below, hbelow, rest, hrest, rfl⟩ := h
      exact ⟨type, name, child, below, rest, htype, hname, hchild,
        by rwa [if_pos ⟨hdirectory.1, hdirectory.2, hlisted⟩], hrest, rfl⟩
    · rename_i hlisted
      simp only [bind_eq_ok, pure_eq_ok, exists_eq_left'] at h
      obtain ⟨rest, hrest, rfl⟩ := h
      exact ⟨type, name, child, [], rest, htype, hname, hchild,
        by rw [if_neg fun h => hlisted h.2.2], hrest, rfl⟩
  · rename_i hdirectory
    simp only [bind_eq_ok, pure_eq_ok, exists_eq_left'] at h
    obtain ⟨rest, hrest, rfl⟩ := h
    exact ⟨type, name, child, [], rest, htype, hname, hchild,
      by rw [if_neg fun h => hdirectory ⟨h.1, h.2.1⟩], hrest, rfl⟩

/-- A tree, from the entry that lies at its path. -/
lemma create_eq_ok {fs : FileSystemView} {path unmappedPath : Str} {t : FileSystemTree}
    (h : create settings fs path unmappedPath = .ok t) :
    ∃ entry type mapped unmapped root below, fs.lookup path = some entry ∧
      determineType entry.root = .ok type ∧ splitIntoObjectAndContainer path = some mapped ∧
      splitIntoObjectAndContainer unmappedPath = some unmapped ∧
      construct settings basePaths path entry.root
        { type := type
          name := unmapped.2
          mappedBasePath := mapped.1
          unmappedBasePath := unmapped.1 } = .ok root ∧
      (if root.type = .directory ∧ root.backupMode = .directory ∧ entry.root.entriesListed then
        constructChildrenList settings root.basePaths path entry.children = .ok below
      else below = []) ∧
      t = ⟨root, Forest.ofTrees (sortChildren settings below)⟩ := by
  rw [create] at h
  split at h
  · simp at h
  rename_i entry hlookup
  simp only [bind_eq_ok] at h
  obtain ⟨type, htype, h⟩ := h
  split at h
  case h_2 => simp at h
  rename_i mappedContainer mappedName unmappedContainer name hmapped hunmapped
  simp only [bind_eq_ok] at h
  obtain ⟨root, hroot, h⟩ := h
  refine ⟨entry, type, (mappedContainer, mappedName), (unmappedContainer, name), root, ?_⟩
  split at h
  · rename_i hdirectory
    simp only [bind_eq_ok] at h
    obtain ⟨-, -, h⟩ := h
    split at h
    · rename_i hlisted
      simp only [bind_eq_ok, pure_eq_ok] at h
      obtain ⟨below, hbelow, rfl⟩ := h
      exact ⟨below, hlookup, htype, hmapped, hunmapped, hroot,
        by rwa [if_pos ⟨hdirectory.1, hdirectory.2, hlisted⟩], rfl⟩
    · rename_i hlisted
      simp only [bind_eq_ok, pure_eq_ok, exists_eq_left'] at h
      exact ⟨[], hlookup, htype, hmapped, hunmapped, hroot,
        by rw [if_neg fun h => hlisted h.2.2], h.symm⟩
  · rename_i hdirectory
    simp only [bind_eq_ok, pure_eq_ok, exists_eq_left'] at h
    exact ⟨[], hlookup, htype, hmapped, hunmapped, hroot,
      by rw [if_neg fun h => hdirectory ⟨h.1, h.2.1⟩], h.symm⟩

lemma created_of_constructChildrenList {paths : ObjectPaths} {path : Str} {entries : Forest Entry}
    {children : List FileSystemTree}
    (h : constructChildrenList settings paths path entries = .ok children) :
    ∀ t ∈ children, ∀ fso ∈ t.toList, Created fso := by
  induction entries generalizing paths path children with
  | nil =>
    rw [constructChildrenList, pure_eq_ok] at h
    simp [← h]
  | cons e entries siblings ihe ihs =>
    obtain ⟨type, name, child, below, rest, -, -, hchild, hbelow, hrest, rfl⟩ :=
      constructChildrenList_cons_eq_ok h
    have hroot := (construct_eq_ok hchild).created ⟨rfl, rfl, rfl⟩
    intro t ht fso hfso
    rcases List.mem_cons.mp ht with rfl | ht
    · refine created_of_root hroot ?_ fso hfso
      split_ifs at hbelow
      · exact ihe hbelow
      · simp [hbelow]
    · exact ihs hrest t ht fso hfso

/-- All objects of a tree that has been created are new. -/
theorem created_of_create {fs : FileSystemView} {path unmappedPath : Str} {t : FileSystemTree}
    (h : create settings fs path unmappedPath = .ok t) : ∀ fso ∈ t.toList, Created fso := by
  obtain ⟨entry, type, mapped, unmapped, root, below, -, -, -, -, hroot, hbelow, rfl⟩ :=
    create_eq_ok h
  refine created_of_root ((construct_eq_ok hroot).created ⟨rfl, rfl, rfl⟩) ?_
  split_ifs at hbelow
  · exact created_of_constructChildrenList hbelow
  · simp [hbelow]

/-- What holds of all objects that a constructor makes holds of all objects of a tree. -/
lemma forall_of_constructChildrenList {P : FileSystemObject → Prop}
    (hP : ∀ paths path e type name mapped unmapped fso,
      construct settings paths path e
        { type := type, name := name, mappedBasePath := mapped, unmappedBasePath := unmapped } =
          .ok fso → P fso)
    {paths : ObjectPaths} {path : Str} {entries : Forest Entry} {children : List FileSystemTree}
    (h : constructChildrenList settings paths path entries = .ok children) :
    ∀ t ∈ children, ∀ fso ∈ t.toList, P fso := by
  induction entries generalizing paths path children with
  | nil =>
    rw [constructChildrenList, pure_eq_ok] at h
    simp [← h]
  | cons e entries siblings ihe ihs =>
    obtain ⟨type, name, child, below, rest, -, -, hchild, hbelow, hrest, rfl⟩ :=
      constructChildrenList_cons_eq_ok h
    intro t ht fso hfso
    rcases List.mem_cons.mp ht with rfl | ht
    · rcases List.mem_cons.mp hfso with rfl | hfso
      · exact hP _ _ _ _ _ _ _ _ hchild
      · obtain ⟨t', ht', hfso⟩ := mem_sortChildren.mp hfso
        split_ifs at hbelow
        · exact ihe hbelow t' ht' fso hfso
        · simp [hbelow] at ht'
    · exact ihs hrest t ht fso hfso

lemma forall_of_create {P : FileSystemObject → Prop}
    (hP : ∀ paths path e type name mapped unmapped fso,
      construct settings paths path e
        { type := type, name := name, mappedBasePath := mapped, unmappedBasePath := unmapped } =
          .ok fso → P fso)
    {fs : FileSystemView} {path unmappedPath : Str} {t : FileSystemTree}
    (h : create settings fs path unmappedPath = .ok t) : ∀ fso ∈ t.toList, P fso := by
  obtain ⟨entry, type, mapped, unmapped, root, below, -, -, -, -, hroot, hbelow, rfl⟩ :=
    create_eq_ok h
  intro fso hfso
  rcases List.mem_cons.mp hfso with rfl | hfso
  · exact hP _ _ _ _ _ _ _ _ hroot
  · obtain ⟨t', ht', hfso⟩ := mem_sortChildren.mp hfso
    split_ifs at hbelow
    · exact forall_of_constructChildrenList hP hbelow t' ht' fso hfso
    · simp [hbelow] at ht'

lemma target_of_setFileSystemGuid {path : Str} {retry : Bool} {guid : GuidResult}
    {fso fso' : FileSystemObject} (h : setFileSystemGuid settings path retry guid fso = .ok fso') :
    fso'.target = fso.target := by
  rw [setFileSystemGuid.eq_def] at h
  split at h
  · rw [pure_eq_ok] at h
    rw [← h]
  · rw [pure_eq_ok] at h
    rw [← h]
  · simp only [bind_eq_ok, pure_eq_ok] at h
    obtain ⟨-, -, rfl⟩ := h
    rfl

/-- There are no objects of file reparse points, and those of hard links have no targets. -/
structure Constructed (fso : FileSystemObject) : Prop where
  noReparsePoint : fso.type ≠ .fileReparsePoint
  untargeted : fso.type = .fileHardlink → fso.target = none

/-- Nothing else counts. -/
lemma Constructed.congr {fso fso' : FileSystemObject} (h : Constructed fso)
    (htype : fso'.type = fso.type) (htarget : fso'.target = fso.target) : Constructed fso' := by
  refine ⟨htype ▸ h.noReparsePoint, fun hlink => ?_⟩
  rw [htarget]
  exact h.untargeted (htype ▸ hlink)

lemma constructed_of_construct {paths : FileSystemObject → ObjectPaths} {path : Str} {e : Entry}
    {fso fso' : FileSystemObject} (h : construct settings paths path e fso = .ok fso')
    (hnone : fso.target = none) : Constructed fso' := by
  have hsame : fso'.type = fso.type := by rw [construct_eq_ok h]
  simp only [construct, bind_eq_ok] at h
  obtain ⟨fso1, hattributes, h⟩ := h
  obtain ⟨htype1, htarget1⟩ : fso1.type = fso.type ∧ fso1.target = fso.target := by
    simp only [setFileAttributes, bind_eq_ok, pure_eq_ok] at hattributes
    obtain ⟨archiveFlag, -, modificationTime, -, rfl⟩ := hattributes
    exact ⟨rfl, rfl⟩
  constructor
  · intro htype
    rw [htype1, ← hsame, htype] at h
    simp at h
  · intro htype
    rw [htype1, ← hsame, htype] at h
    simp only [bind_eq_ok] at h
    obtain ⟨fso2, hmembers, h⟩ := h
    split_ifs at h
    · simp only [bind_eq_ok, pure_eq_ok, exists_eq_left'] at h
      simp only [setMembers, bind_eq_ok] at hmembers
      obtain ⟨size, -, hguid⟩ := hmembers
      have htarget2 : fso'.target = fso2.target := by
        simp only [setBackupMode] at h
        split at h
        · simp at h
        · rw [pure_eq_ok] at h
          rw [← h]
      rw [htarget2, target_of_setFileSystemGuid hguid, htarget1, hnone]
    · simp at h

/-- The mode of an object is the one that has been asked for, when its name and type were known. -/
lemma mode_of_construct {paths : FileSystemObject → ObjectPaths} {path : Str} {e : Entry}
    {fso0 fso : FileSystemObject} (h : construct settings paths path e fso0 = .ok fso) :
    ∃ fso1 : FileSystemObject, fso =
      { fso1 with backupMode := (settings.getBackupModeForObject (paths fso1, fso1)).1 } := by
  have hmode : ∀ fso1 : FileSystemObject, setBackupMode settings (paths fso1, fso1) = .ok fso →
      fso = { fso1 with backupMode := (settings.getBackupModeForObject (paths fso1, fso1)).1 } := by
    intro fso1 h
    simp only [setBackupMode] at h
    split at h
    · simp at h
    · rw [pure_eq_ok] at h
      exact h.symm
  simp only [construct, bind_eq_ok] at h
  obtain ⟨fso1, -, h⟩ := h
  split at h <;> simp only [bind_eq_ok, pure_eq_ok, exists_eq_left'] at h
  · exact ⟨_, hmode _ h⟩
  · obtain ⟨fso2, -, h⟩ := h
    exact ⟨_, hmode _ h⟩
  · obtain ⟨fso2, -, h⟩ := h
    exact ⟨_, hmode _ h⟩
  · obtain ⟨fso2, -, h⟩ := h
    exact ⟨_, hmode _ h⟩
  · obtain ⟨fso2, -, fso3, -, h⟩ := h
    exact ⟨_, hmode _ h⟩
  · simp at h
  · obtain ⟨fso2, -, h⟩ := h
    split_ifs at h
    · simp only [bind_eq_ok, pure_eq_ok, exists_eq_left'] at h
      exact ⟨_, hmode _ h⟩
    · simp at h

/-- What holds of all objects that a constructor makes, with their paths, holds of all objects of a
tree, with theirs. -/
lemma forall_inherit_of_constructChildrenList {P : PathedObject → Prop}
    (hP : ∀ (paths : ObjectPaths) path e fso0 fso,
      construct settings paths.child path e fso0 = .ok fso → P (paths.child fso, fso))
    {paths : ObjectPaths} {path : Str} {entries : Forest Entry} {children : List FileSystemTree}
    (h : constructChildrenList settings paths path entries = .ok children) :
    ∀ t ∈ children, ∀ o ∈ (t.inherit ObjectPaths.child (paths.child t.root)).toList, P o := by
  induction entries generalizing paths path children with
  | nil =>
    rw [constructChildrenList, pure_eq_ok] at h
    simp [← h]
  | cons e entries siblings ihe ihs =>
    obtain ⟨type, name, child, below, rest, -, -, hchild, hbelow, hrest, rfl⟩ :=
      constructChildrenList_cons_eq_ok h
    intro t ht o ho
    rcases List.mem_cons.mp ht with rfl | ht
    · rcases List.mem_cons.mp ho with rfl | ho
      · exact hP _ _ _ _ _ hchild
      · obtain ⟨t', ht', ho⟩ := RoseTree.mem_inherit_ofTrees.mp ho
        rw [sortChildren, ListSort.mem_sortBy] at ht'
        split_ifs at hbelow
        · exact ihe hbelow t' ht' o ho
        · simp [hbelow] at ht'
    · exact ihs hrest t ht o ho

lemma forall_iterate_of_create {P : PathedObject → Prop}
    (hP : ∀ (paths : ObjectPaths) path e fso0 fso,
      construct settings paths.child path e fso0 = .ok fso → P (paths.child fso, fso))
    (hroot : ∀ path e fso0 fso, construct settings basePaths path e fso0 = .ok fso →
      P (fso.basePaths, fso))
    {fs : FileSystemView} {path unmappedPath : Str} {t : FileSystemTree}
    (h : create settings fs path unmappedPath = .ok t) : ∀ o ∈ t.iterate, P o := by
  obtain ⟨entry, type, mapped, unmapped, root, below, -, -, -, -, hconstruct, hbelow, rfl⟩ :=
    create_eq_ok h
  intro o ho
  rcases List.mem_cons.mp ho with rfl | ho
  · exact hroot _ _ _ _ hconstruct
  · obtain ⟨t', ht', ho⟩ := RoseTree.mem_inherit_ofTrees.mp ho
    rw [sortChildren, ListSort.mem_sortBy] at ht'
    split_ifs at hbelow
    · exact forall_inherit_of_constructChildrenList hP hbelow t' ht' o ho
    · simp [hbelow] at ht'

end FileSystemObject

end BackupProgram
