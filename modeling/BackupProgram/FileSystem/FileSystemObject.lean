import BackupProgram.Archive.ArchiveWriter
import BackupProgram.Lib.Forest
import BackupProgram.Util.StringUtils

/-!
# File system objects

What an archive records of the files and directories that have been backed up. The objects form
trees; the path of an object is put together from the names on the way to it.
-/

namespace BackupProgram

open StringUtils

inductive FileSystemObjectType where
  | directory
  | regularFile
  | directorySymlink
  | junction
  | fileSymlink
  | fileReparsePoint
  | fileHardlink
deriving DecidableEq, Repr

inductive BackupMode where
  | noBackup
  | directory
  | forceFull
  | full
  | unmodified
  | rsync
deriving DecidableEq, Repr

abbrev Guid : Type := Nat

/-- An object without the objects below it. `fileSystemGuid` is null if the identity of the file is
not known, `backupStream` stands for a reference to one of the streams of the engine, and
`guidEnqueued` says that the object waits in the queue of `EnqueueFileForGuidGet`. -/
structure FileSystemObject where
  type : FileSystemObjectType
  name : Str
  mappedBasePath : Str := []
  unmappedBasePath : Str := []
  streamUniqueId : Nat := 0
  differentialChainUniqueId : Nat := 0
  target : Option Str := none
  size : Nat := 0
  modificationTime : Int := 0
  fileSystemGuid : Option Guid := none
  hashes : List (HashType × List Byte) := []
  isMain : Bool := false
  latestVersion : Int := 0
  archiveFlag : Bool := false
  backupMode : BackupMode := .noBackup
  backupStream : Option Nat := none
  guidEnqueued : Bool := false
deriving DecidableEq, Repr

namespace FileSystemObject

def isDirectoryish (fso : FileSystemObject) : Bool :=
  fso.type = .directory ∨ fso.type = .directorySymlink ∨ fso.type = .junction

def isLinkish (fso : FileSystemObject) : Bool :=
  fso.type = .directorySymlink ∨ fso.type = .junction ∨ fso.type = .fileSymlink ∨
    fso.type = .fileHardlink

/-- A regular file, or one of several names of a file. -/
def streamRequired (fso : FileSystemObject) : Bool :=
  fso.type = .regularFile ∨ fso.type = .fileHardlink

def getHash (fso : FileSystemObject) (type : HashType) : Option (List Byte) :=
  if fso.isDirectoryish then none else fso.hashes.lookup type

/-- An entry of the dictionary is added or replaced. -/
def setHash (fso : FileSystemObject) (type : HashType) (digest : List Byte) : FileSystemObject :=
  if (fso.hashes.lookup type).isSome then
    { fso with hashes := fso.hashes.map fun kv => if kv.1 = type then (type, digest) else kv }
  else { fso with hashes := fso.hashes ++ [(type, digest)] }

/-- The object after it has been serialized and deserialized. -/
def stored (fso : FileSystemObject) : FileSystemObject :=
  { fso with
    archiveFlag := false
    backupMode := .noBackup
    backupStream := none
    guidEnqueued := false }

end FileSystemObject

/-! ### Paths of objects -/

/-- The rule of `PathOverrideBase`: a backslash comes before a name unless nothing else does. -/
def appendName (path name : Str) : Str := if path.isEmpty then name else path ++ '\\' :: name

structure ObjectPaths where
  mappedPath : Str
  unmappedPath : Str
deriving DecidableEq, Repr

/-- The paths of an object, from those of the one above it. -/
def ObjectPaths.child (paths : ObjectPaths) (fso : FileSystemObject) : ObjectPaths :=
  ⟨appendName paths.mappedPath fso.name, appendName paths.unmappedPath fso.name⟩

def FileSystemObject.basePaths (fso : FileSystemObject) : ObjectPaths :=
  (ObjectPaths.mk fso.mappedBasePath fso.unmappedBasePath).child fso

/-- An object together with its paths. -/
abbrev PathedObject : Type := ObjectPaths × FileSystemObject

abbrev FileSystemTree : Type := RoseTree FileSystemObject

namespace FileSystemTree

def pathed (t : FileSystemTree) : RoseTree PathedObject :=
  t.inherit ObjectPaths.child t.root.basePaths

/-- The objects that `Iterate` passes to its argument, in order. -/
def iterate (t : FileSystemTree) : List PathedObject := t.pathed.toList

@[simp] lemma map_snd_iterate (t : FileSystemTree) : t.iterate.map Prod.snd = t.toList :=
  RoseTree.map_snd_inherit _ _ _

@[simp] lemma length_iterate (t : FileSystemTree) : t.iterate.length = t.toList.length := by
  rw [← map_snd_iterate, List.length_map]

/-- What the paths are made of. -/
def pathKey (fso : FileSystemObject) : Str × Str × Str :=
  (fso.name, fso.mappedBasePath, fso.unmappedBasePath)

/-- The paths are those of the names. -/
lemma map_fst_iterate_congr {t t' : FileSystemTree} (h : t.map pathKey = t'.map pathKey) :
    t.iterate.map Prod.fst = t'.iterate.map Prod.fst := by
  let child : ObjectPaths → Str × Str × Str → ObjectPaths := fun paths key =>
    ⟨appendName paths.mappedPath key.1, appendName paths.unmappedPath key.1⟩
  have hchildren : ∀ (paths : ObjectPaths) (forest : Forest FileSystemObject),
      (forest.inherit ObjectPaths.child paths).toList.map Prod.fst =
        ((forest.map pathKey).inherit child paths).toList.map Prod.fst := by
    intro paths forest
    rw [Forest.inherit_map ObjectPaths.child pathKey child fun _ _ => rfl, Forest.toList_map,
      List.map_map]
    rfl
  obtain ⟨root, children⟩ := t
  obtain ⟨root', children'⟩ := t'
  simp only [RoseTree.map, RoseTree.mk.injEq, pathKey, Prod.mk.injEq] at h
  obtain ⟨⟨hname, hmapped, hunmapped⟩, hforest⟩ := h
  have hbase : root.basePaths = root'.basePaths := by
    simp only [FileSystemObject.basePaths, ObjectPaths.child, hname, hmapped, hunmapped]
  simp only [iterate, pathed, RoseTree.inherit, RoseTree.toList, List.map_cons, hchildren, hbase]
  rw [show children.map pathKey = children'.map pathKey from hforest]

/-- Objects that are replaced keep their paths if they keep what these are made of. -/
lemma iterate_map_pathed (t : FileSystemTree) {f : PathedObject → FileSystemObject}
    (hf : ∀ o, pathKey (f o) = pathKey o.2) :
    FileSystemTree.iterate ((pathed t).map f) = t.iterate.map fun o => (o.1, f o) := by
  have hkey : RoseTree.map pathKey ((pathed t).map f) = t.map pathKey := by
    simp only [RoseTree.map, pathed, RoseTree.inherit, Forest.map_map, hf, RoseTree.mk.injEq,
      true_and]
    have hcomp : (pathKey ∘ f) = fun o : PathedObject => pathKey o.2 := funext hf
    rw [hcomp, Forest.map_inherit]
  have hfst := map_fst_iterate_congr hkey
  have hsnd : (FileSystemTree.iterate ((pathed t).map f)).map Prod.snd = t.iterate.map f := by
    rw [map_snd_iterate, RoseTree.toList_map]
    rfl
  rw [List.zip_of_prod hfst hsnd]
  exact (List.zip_of_prod (by rw [List.map_map]; rfl) (by rw [List.map_map]; rfl)).symm

end FileSystemTree

/-! ### Finding an object by its path -/

section Find

variable (culture : Culture)

/-- `Find` for the children of a directory, at the given rest of the path: the first child that has
or contains the object. -/
def findChild : Forest FileSystemObject → List Str → Option FileSystemObject
  | .nil, _ => none
  | .cons _ _ _, [] => none
  | .cons child children siblings, part :: rest =>
    let found :=
      if !pathMatch culture part child.name then none
      else if rest.isEmpty then some child
      else findChild children rest
    match found with
    | some fso => some fso
    | none => findChild siblings (part :: rest)

namespace FileSystemTree

/-- `Find(string)` -/
def find (t : FileSystemTree) (path : Str) : Option FileSystemObject :=
  let myDecomposedPath := decomposePath t.root.basePaths.mappedPath
  let decomposedPath := decomposePath path
  if !pathStartsWith culture decomposedPath myDecomposedPath then none
  else if decomposedPath.length = myDecomposedPath.length then some t.root
  else
    match decomposedPath.drop (myDecomposedPath.length - 1) with
    | [] => none
    | part :: rest =>
      if !pathMatch culture part t.root.name then none
      else findChild culture t.children rest

end FileSystemTree

def findPath (fso : List FileSystemTree) (path : Str) : Option FileSystemObject :=
  fso.findSome? fun x => x.find culture path

variable {culture}

lemma mem_of_findChild {forest : Forest FileSystemObject} {parts : List Str}
    {fso : FileSystemObject} (h : findChild culture forest parts = some fso) :
    fso ∈ forest.toList := by
  induction forest generalizing parts with
  | nil => simp [findChild] at h
  | cons child children siblings ihc ihs =>
    cases parts with
    | nil => simp [findChild] at h
    | cons part rest =>
      simp only [findChild] at h
      rw [Forest.toList, List.mem_cons, List.mem_append]
      split at h
      · rename_i found hfound
        split_ifs at hfound
        · rw [Option.some.injEq] at h hfound
          exact .inl (h ▸ hfound.symm)
        · exact .inr (.inl (ihc (hfound.trans h)))
      · exact .inr (.inr (ihs h))

lemma FileSystemTree.mem_of_find {t : FileSystemTree} {path : Str} {fso : FileSystemObject}
    (h : t.find culture path = some fso) : fso ∈ t.toList := by
  rw [FileSystemTree.find] at h
  split_ifs at h
  · exact Option.some.inj h ▸ List.mem_cons_self
  · split at h
    · simp at h
    · split_ifs at h
      exact List.mem_cons_of_mem _ (mem_of_findChild h)

/-- What is found is there. -/
lemma mem_of_findPath {ts : List FileSystemTree} {path : Str} {fso : FileSystemObject}
    (h : findPath culture ts path = some fso) : ∃ t ∈ ts, fso ∈ t.toList := by
  obtain ⟨t, ht, hfind⟩ := List.exists_of_findSome?_eq_some h
  exact ⟨t, ht, t.mem_of_find hfind⟩

end Find

end BackupProgram
