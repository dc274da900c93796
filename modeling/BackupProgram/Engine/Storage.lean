import BackupProgram.Archive.RoundTrip
import BackupProgram.Engine.Chain

/-!
# Archives as bytes

A backup reads the newest archive and writes the next one through the archive classes, byte by byte.
Elsewhere an archive is what the calls of its writer are given; here the files of the target
directory have the bytes, and backups on them are shown to be backups on the archives that these
stand for.
-/

namespace BackupProgram

open Results

/-- A tree as it comes out of an archive. -/
structure StoredTree where
  tree : FileSystemTree
  map_stored : tree.map FileSystemObject.stored = tree

lemma FileSystemTree.map_stored_stored (t : FileSystemTree) :
    (t.map FileSystemObject.stored).map FileSystemObject.stored =
      t.map FileSystemObject.stored := by
  simp only [RoseTree.map, Forest.map_map]
  rfl

/-- What protobuf makes of a tree. -/
def FileSystemTree.toStored (t : FileSystemTree) : StoredTree :=
  ⟨t.map FileSystemObject.stored, t.map_stored_stored⟩

/-- What the archive classes use of other code, with what is relied on: compression ends by itself,
and protobuf gives back what it was given, empty lists of a manifest possibly as null. `ahead` says
how far the filters read ahead. -/
structure Storage extends ArchiveEnv StoredTree where
  ahead : Nat
  selfDelimiting : ∃ decompress compress,
    archive = Archive.new (compressionFilterGenerator decompress compress) ∧
      (compressionFilterGenerator decompress compress).SelfDelimiting
  inverts_manifests : manifests.InvertsManifests
  inverts_fsos : fsos.Inverts

/-- The files of the target directory with their bytes. -/
abbrev StoredDirectory : Type := Directory (List Byte)

namespace Stored

/-- What the writer throws, if there is no base object or the archive gets too long. -/
def ofWriter {α : Type} : Except ArchiveError α → Except EngineError α
  | .error .invalidProgramState => .error .invalidProgramState
  | .error _ => .error .io
  | .ok a => .ok a

/-- All that a reader throws is one here. -/
def ofReader {α : Type} : Except ArchiveError α → Except EngineError α
  | .error _ => .error .invalidArchive
  | .ok a => .ok a

section GenerateArchive

variable (storage : Storage) (env : BackupEnv)

/-- `ArchiveProgress` with the writer in place of the files. -/
structure Progress where
  objects : List FileSystemObject
  versionDependencies : Finset Int
  archive : ArchiveWriter

/-- One stream is added to the archive; the digest is that of the writer. -/
def addStreamFile (paths : List ObjectPaths) (heap : List BackupStream) (p : Progress) (s : Nat) :
    Except EngineError Progress :=
  match heap[s]? with
  | none => throw .argumentOutOfRange
  | some backupStream =>
    match backupStream.fileSystemObjects.head? with
    | none => throw .argumentOutOfRange
    | some i =>
      match p.objects[i]?, paths[i]? with
      | some fso, some path => do
        let compute := (fso.getHash env.hashAlgorithm).isNone
        let type := if compute then env.hashAlgorithm else .none
        match env.fs.readFile path.mappedPath with
        | none => throw .io
        | some bytes => do
          let (digest, archive) ← ofWriter
            (ArchiveWriter.addFile storage.toArchiveEnv p.archive backupStream.uniqueId bytes type)
          let objects :=
            match digest with
            | none => p.objects
            | some digest => p.objects.set i (fso.setHash env.hashAlgorithm digest)
          return { p with objects := objects, archive := archive }
      | _, _ => throw .argumentOutOfRange

/-- The body of the loop over the base objects. -/
def archiveBase (paths : List ObjectPaths) (heap : List BackupStream) (p : Progress)
    (start size : Nat) (streams : List Nat) : Except EngineError Progress :=
  let objects := streams.foldl (attachStream heap) p.objects
  let versionDependencies :=
    ((objects.drop start).take size).foldl (getDependencies heap) p.versionDependencies
  streams.foldlM (addStreamFile storage env paths heap)
    { p with objects := objects, versionDependencies := versionDependencies }

/-- The loop over the base objects. -/
def archiveBases (paths : List ObjectPaths) (heap : List BackupStream) :
    Progress → Nat → List Nat → List (List Nat) → Except EngineError Progress
  | p, start, size :: sizes, streams :: streamDict => do
    let p ← archiveBase storage env paths heap p start size streams
    archiveBases paths heap p (start + size) sizes streamDict
  | p, _, _, _ => return p

/-- What `GenerateArchive` leaves behind: the bytes that are committed, and the state of the
engine. -/
structure Generated where
  committed : Option (List Byte)
  baseObjects : List FileSystemTree
  heap : List BackupStream
  counters : StreamCounters

def generateArchive (startTime : Int) (streamGenerator : Generator) (versionNumber : Int)
    (heap : List BackupStream) (counters : StreamCounters) (baseObjects : List FileSystemTree) :
    Except EngineError Generated := do
  let st ← generateStreams streamGenerator heap counters.nextStreamUniqueId baseObjects
  let paths := (baseObjects.flatMap FileSystemTree.iterate).map Prod.fst
  let p ← archiveBases storage env paths st.heap ⟨st.objects, ∅, .new⟩ 0
    (baseObjects.map fun x => x.toList.length) st.streamDict
  let archivedObjects := RoseTree.refillAll baseObjects p.objects
  let committed ← ofWriter (ArchiveWriter.finish storage.toArchiveEnv p.archive
    (archivedObjects.map FileSystemTree.toStored)
    { creationTime := startTime
      versionNumber := versionNumber
      versionDependencies := sortedDependencies p.versionDependencies
      entryCount := baseObjects.length
      firstStreamUniqueId := counters.nextStreamUniqueId
      nextStreamUniqueId := st.nextStreamUniqueId
      firstDifferentialChainUniqueId := counters.nextDifferentialChainUniqueId
      nextDifferentialChainUniqueId := counters.nextDifferentialChainUniqueId
      archiveMetadata := none })
  return {
    committed := committed
    baseObjects := archivedObjects
    heap := st.heap
    counters := { counters with nextStreamUniqueId := st.nextStreamUniqueId } }

end GenerateArchive

/-! ### The engine -/

section Engine

variable (storage : Storage)

/-- The constructor looks at the names only. -/
def newEngine (culture : Culture) (targetLocation : Str) (files : StoredDirectory) :
    Except EngineError BackupEngine :=
  BackupEngine.new culture targetLocation (files.map fun file => (file.1, none))

/-- `OpenLatestVersion`, `ReadManifest` and `GetBaseObjects`. -/
def readLatestVersion (e : BackupEngine) (files : StoredDirectory) :
    Except EngineError (VersionManifest × List FileSystemTree) :=
  match e.versions.getLast? with
  | none => throw .argumentOutOfRange
  | some back =>
    match files.get? (getVersionName back) with
    | none => throw .io
    | some bytes => do
      let (manifest, archive) ← ofReader
        ((ArchiveReader.new bytes).readManifest storage.toArchiveEnv storage.ahead)
      let (baseObjects, _) ← ofReader
        (archive.getBaseObjects storage.toArchiveEnv storage.ahead storage.ahead)
      return (manifest, baseObjects.map StoredTree.tree)

def archiveVersion (call : BackupCall) (streamGenerator : Generator) (versionNumber : Int)
    (e : BackupEngine) (files : StoredDirectory) :
    Except EngineError (BackupEngine × StoredDirectory) := do
  let r ← generateArchive storage call.env call.startTime streamGenerator versionNumber e.heap
    e.counters e.baseObjects
  match call.writeError with
  | some error => throw error
  | none =>
    return ({ e with baseObjects := r.baseObjects, heap := r.heap, counters := r.counters },
      match r.committed with
      | none => files
      | some bytes => files.put (getVersionName versionNumber) bytes)

def createInitialVersion (call : BackupCall) (e : BackupEngine) (files : StoredDirectory) :
    Except EngineError (BackupEngine × StoredDirectory) := do
  let e ← e.setBaseObjects call
  archiveVersion storage call (generateInitialStream e.newVersionNumber) 0 e files

def updateExistingVersion (call : BackupCall) (e : BackupEngine) (files : StoredDirectory) :
    Except EngineError (BackupEngine × StoredDirectory) := do
  let (manifest, oldObjects) ← readLatestVersion storage e files
  let e :=
    { e with
      oldObjects := oldObjects
      counters := ⟨manifest.nextStreamUniqueId, manifest.nextDifferentialChainUniqueId⟩ }
  let e := e.setOldObjectsDict call.env.culture
  let e ← e.setBaseObjects call
  let e :=
    { e with
      baseObjects := e.baseObjects.map fun t => (FileSystemTree.pathed t).map
        (BackupEngine.copyStreamUniqueId call.env.culture e.oldObjectsDict) }
  archiveVersion storage call (checkAndMaybeAdd call.env e.newVersionNumber e.oldObjects)
    e.newVersionNumber e files

def performBackup (call : BackupCall) (e : BackupEngine) (files : StoredDirectory) :
    Except EngineError (BackupEngine × StoredDirectory) :=
  let e := e.cacheVersionCount
  if e.versionCount = 0 then createInitialVersion storage call e files
  else updateExistingVersion storage call e files

end Engine

/-! ### Archives and their bytes -/

/-- The bytes of an archive. -/
def archiveBytes (storage : Storage) (a : VersionArchive) : List Byte :=
  ArchiveWriter.archiveBytes storage.toArchiveEnv a.files
  (a.baseObjects.map FileSystemTree.toStored)
    a.manifest

/-- The archive is not too long to be written. -/
def Fits (storage : Storage) (a : VersionArchive) : Prop :=
  (archiveBytes storage a).length < maxLength

variable {storage : Storage} {env : BackupEnv} {a : VersionArchive}

lemma Fits.layout (h : Fits storage a) :
    ArchiveReader.Layout storage.toArchiveEnv a.files (a.baseObjects.map FileSystemTree.toStored)
      a.manifest :=
  ⟨storage.selfDelimiting, storage.inverts_manifests, storage.inverts_fsos, h⟩

lemma map_tree_toStored (a : VersionArchive) :
    (a.baseObjects.map FileSystemTree.toStored).map StoredTree.tree = a.getBaseObjects := by
  rw [List.map_map]
  rfl

/-- The manifest with the sizes and ids that the writer adds to it. -/
def storedManifest (storage : Storage) (a : VersionArchive) : VersionManifest :=
  ArchiveWriter.writtenManifest storage.toArchiveEnv a.files
    (a.baseObjects.map FileSystemTree.toStored) a.manifest

/-! ### What a backup writes -/

/-- The files that have been given to the writer. -/
def writing (storage : Storage) (p : ArchiveProgress) : Progress :=
  ⟨p.objects, p.versionDependencies, ArchiveWriter.pushed storage.toArchiveEnv p.files⟩

variable {paths : List ObjectPaths} {heap : List BackupStream}

lemma addStreamFile_writing (hhash : env.hash = storage.hash) (p : ArchiveProgress) (s : Nat) :
    addStreamFile storage env paths heap (writing storage p) s =
      (BackupProgram.addStreamFile env paths heap p s).map (writing storage) := by
  rw [addStreamFile, BackupProgram.addStreamFile]
  rcases heap[s]? with _ | backupStream
  · rfl
  dsimp only
  rcases backupStream.fileSystemObjects.head? with _ | i
  · rfl
  dsimp only [writing]
  rcases p.objects[i]? with _ | fso
  · rfl
  rcases paths[i]? with _ | path
  · rfl
  dsimp only
  rcases env.fs.readFile path.mappedPath with _ | bytes
  · rfl
  dsimp only
  rw [ArchiveWriter.addFile_pushed_eq, ofWriter, hhash]
  dsimp only [ok_bind]
  split_ifs <;> rfl

lemma archiveBase_writing (hhash : env.hash = storage.hash) (p : ArchiveProgress)
    (start size : Nat) (streams : List Nat) :
    archiveBase storage env paths heap (writing storage p) start size streams =
      (BackupProgram.archiveBase env paths heap p start size streams).map (writing storage) := by
  rw [archiveBase, BackupProgram.archiveBase]
  exact foldlM_map_state (addStreamFile_writing hhash) streams { p with
    objects := streams.foldl (attachStream heap) p.objects
    versionDependencies := (((streams.foldl (attachStream heap) p.objects).drop start).take
      size).foldl (getDependencies heap) p.versionDependencies }

lemma archiveBases_writing (hhash : env.hash = storage.hash) (p : ArchiveProgress) (start : Nat)
    (sizes : List Nat) (streamDict : List (List Nat)) :
    archiveBases storage env paths heap (writing storage p) start sizes streamDict =
      (BackupProgram.archiveBases env paths heap p start sizes streamDict).map
        (writing storage) := by
  induction sizes generalizing p start streamDict with
  | nil => cases streamDict <;> rfl
  | cons size sizes ih =>
    rcases streamDict with _ | ⟨streams, streamDict⟩
    · rfl
    rw [archiveBases, BackupProgram.archiveBases, archiveBase_writing hhash]
    rcases BackupProgram.archiveBase env paths heap p start size streams with e | p'
    · rfl
    · exact ih p' (start + size) streamDict

lemma ofWriter_eq_ok {α : Type} {x : Except ArchiveError α} {r : α} :
    ofWriter x = .ok r ↔ x = .ok r := by
  rcases x with (_ | _ | _ | _ | _ | _) | r' <;> simp [ofWriter]

/-- `GenerateArchive` writes the bytes of the archive that it has generated, unless they are too
many. -/
theorem generateArchive_eq_ok (hhash : env.hash = storage.hash) {startTime : Int}
    {streamGenerator : Generator} {versionNumber : Int} {counters : StreamCounters}
    {baseObjects : List FileSystemTree} {g : Generated} :
    generateArchive storage env startTime streamGenerator versionNumber heap counters baseObjects =
        .ok g ↔
      ∃ r, BackupProgram.generateArchive env startTime streamGenerator versionNumber heap counters
          baseObjects = .ok r ∧ Fits storage r.archive ∧
        g = ⟨some (archiveBytes storage r.archive), r.archive.baseObjects, r.heap, r.counters⟩ := by
  rw [generateArchive, BackupProgram.generateArchive]
  rcases generateStreams streamGenerator heap counters.nextStreamUniqueId baseObjects with e | st
  · simp [bind, Except.bind]
  simp only [ok_bind]
  rw [show (⟨st.objects, ∅, .new⟩ : Progress) = writing storage ⟨st.objects, ∅, []⟩ from rfl,
    archiveBases_writing hhash]
  rcases BackupProgram.archiveBases env _ st.heap ⟨st.objects, ∅, []⟩ 0 _ st.streamDict with e | p
  · simp [bind, Except.bind, Except.map]
  simp only [Except.map, ok_bind, bind_eq_ok, ofWriter_eq_ok, pure_eq_ok, writing,
    ArchiveWriter.finish_pushed_eq_ok]
  by_cases hbase : baseObjects = []
  · simp [hbase, RoseTree.refillAll]
  · have hne : (RoseTree.refillAll baseObjects p.objects).map FileSystemTree.toStored ≠ [] := by
      intro h
      have hlength := congrArg List.length h
      rw [List.length_map, RoseTree.length_refillAll] at hlength
      exact hbase (List.length_eq_zero_iff.mp hlength)
    rw [if_neg hbase]
    constructor
    · rintro ⟨_, ⟨-, hlt, rfl⟩, rfl⟩
      exact ⟨_, rfl, hlt, rfl⟩
    · rintro ⟨r, hr, hlt, rfl⟩
      rw [pure_eq_ok] at hr
      subst hr
      exact ⟨_, ⟨hne, hlt, rfl⟩, rfl⟩

lemma archiveVersion_eq_ok {call : BackupCall} (hhash : call.env.hash = storage.hash)
    {streamGenerator : Generator} {versionNumber : Int} {e e' : BackupEngine}
    {files files' : StoredDirectory} (dir : TargetDirectory) :
    archiveVersion storage call streamGenerator versionNumber e files = .ok (e', files') ↔
      ∃ archive, e.archiveVersion call streamGenerator versionNumber dir =
          .ok (e', dir.put (getVersionName versionNumber) (some archive)) ∧
        Fits storage archive ∧
        files' = files.put (getVersionName versionNumber) (archiveBytes storage archive) := by
  rw [archiveVersion, BackupEngine.archiveVersion]
  simp only [bind_eq_ok, generateArchive_eq_ok hhash]
  rcases call.writeError with _ | error
  · simp only [pure_eq_ok, Prod.mk.injEq]
    constructor
    · rintro ⟨_, ⟨r, hr, hfits, rfl⟩, rfl, rfl⟩
      exact ⟨r.archive, ⟨r, hr, rfl, rfl⟩, hfits, rfl⟩
    · rintro ⟨archive, ⟨r, hr, rfl, hdir⟩, hfits, rfl⟩
      have harchive : r.archive = archive := by
        have hget := congrArg (Directory.get? · (getVersionName versionNumber)) hdir
        simpa only [Directory.get?_put_self, Option.some.injEq] using hget
      subst harchive
      exact ⟨_, ⟨r, hr, hfits, rfl⟩, rfl, rfl⟩
  · simp

/-! ### Directories -/

/-- No archive can be read from the bytes. -/
def Unreadable (storage : Storage) (bytes : List Byte) : Prop :=
  ∃ error, (ArchiveReader.new bytes).readManifest storage.toArchiveEnv storage.ahead = .error error

/-- A file that has the bytes of an archive, or from which no archive is read: since there is none
in it, or since its name is not that of a version. -/
inductive StoredFile (storage : Storage) : Str × Option VersionArchive → Str × List Byte → Prop
  | archive (name : Str) {a : VersionArchive} (hfits : Fits storage a) :
      StoredFile storage (name, some a) (name, archiveBytes storage a)
  | unreadable (name : Str) {bytes : List Byte} (h : Unreadable storage bytes) :
      StoredFile storage (name, none) (name, bytes)
  | stray (name : Str) (bytes : List Byte) (h : ∀ v, lower name ≠ lower (getVersionName v)) :
      StoredFile storage (name, none) (name, bytes)

/-- The files of the directory are those archives. -/
def Represents (storage : Storage) (dir : TargetDirectory) (files : StoredDirectory) : Prop :=
  List.Forall₂ (StoredFile storage) dir files

variable {dir : TargetDirectory} {files files' : StoredDirectory}

lemma StoredFile.name_eq {file : Str × Option VersionArchive} {file' : Str × List Byte}
    (h : StoredFile storage file file') : file'.1 = file.1 := by
  cases h <;> rfl

lemma Represents.names (h : Represents storage dir files) :
    files.map Prod.fst = dir.map Prod.fst := by
  induction h with
  | nil => rfl
  | cons hfile _ ih => rw [List.map_cons, List.map_cons, hfile.name_eq, ih]

/-- What is found under a name. -/
lemma Represents.get?_cases (h : Represents storage dir files) (name : Str) :
    (dir.get? name = none ∧ files.get? name = none) ∨
      ∃ file file', StoredFile storage file file' ∧ lower file.1 = lower name ∧
        dir.get? name = some file.2 ∧ files.get? name = some file'.2 := by
  induction h with
  | nil => exact .inl ⟨rfl, rfl⟩
  | @cons file file' dir files hfile _ ih =>
    simp only [Directory.get?, List.find?_cons, hfile.name_eq] at ih ⊢
    by_cases hname : lower file.1 = lower name
    · refine .inr ⟨file, file', hfile, hname, ?_, ?_⟩
      · simp [hname]
      · simp [hname]
    · simpa [hname] using ih

lemma Represents.put (h : Represents storage dir files) (name : Str) (hfits : Fits storage a) :
    Represents storage (dir.put name (some a)) (files.put name (archiveBytes storage a)) := by
  have hreplaced : Represents storage
      (dir.map fun file => if lower file.1 = lower name then (file.1, some a) else file)
      (files.map fun file =>
        if lower file.1 = lower name then (file.1, archiveBytes storage a) else file) := by
    induction h with
    | nil => exact .nil
    | cons hfile _ ih =>
      refine .cons ?_ ih
      simp only [hfile.name_eq]
      split_ifs
      · exact .archive _ hfits
      · exact hfile
  rw [Directory.put, Directory.put]
  rcases h.get?_cases name with ⟨hdir, hfiles⟩ | ⟨_, _, -, -, hdir, hfiles⟩
  · rw [hdir, hfiles]
    exact List.rel_append h (.cons (.archive name hfits) .nil)
  · rw [hdir, hfiles]
    exact hreplaced

/-! ### Backups -/

lemma setVersions_congr {α β : Type} (culture : Culture) (targetLocation : Str) {dir : Directory α}
    {dir' : Directory β} (h : dir.map Prod.fst = dir'.map Prod.fst) :
    setVersions culture targetLocation dir = setVersions culture targetLocation dir' := by
  have hpaths : (dir.map fun file => targetLocation ++ '\\' :: file.1) =
      dir'.map fun file => targetLocation ++ '\\' :: file.1 := by
    have hmap := congrArg (List.map fun name => targetLocation ++ '\\' :: name) h
    rwa [List.map_map, List.map_map] at hmap
  rw [setVersions, setVersions, hpaths]

lemma Represents.newEngine_eq (h : Represents storage dir files) (culture : Culture)
    (targetLocation : Str) :
    newEngine culture targetLocation files = BackupEngine.new culture targetLocation dir := by
  have hnames : (files.map fun file => (file.1, (none : Option VersionArchive))).map Prod.fst =
      dir.map Prod.fst := by
    rw [← h.names, List.map_map]
    rfl
  rw [newEngine, BackupEngine.new, BackupEngine.new,
    setVersions_congr culture targetLocation hnames]

/-- Both parts of an archive are read back. -/
lemma readParts_archiveBytes (hfits : Fits storage a) :
    ∃ r r', (ArchiveReader.new (archiveBytes storage a)).readManifest storage.toArchiveEnv
        storage.ahead = .ok (storedManifest storage a, r) ∧
      r.getBaseObjects storage.toArchiveEnv storage.ahead storage.ahead =
        .ok (a.baseObjects.map FileSystemTree.toStored, r') := by
  obtain ⟨r, hread, hloaded, -⟩ := ArchiveReader.readManifest_spec hfits.layout
    (r := .new (archiveBytes storage a)) (.inl ⟨rfl, rfl, rfl, rfl⟩) storage.ahead
  obtain ⟨r', hobjects, -⟩ := ArchiveReader.readBaseObjects_spec hfits.layout (.inr hloaded)
    storage.ahead storage.ahead
  refine ⟨r, { r' with baseObjects := none }, hread, ?_⟩
  rw [ArchiveReader.getBaseObjects, hobjects]
  rfl

/-- What is read of the newest version. -/
lemma Represents.readLatestVersion_eq_ok (h : Represents storage dir files) {e : BackupEngine}
    {p : VersionManifest × List FileSystemTree} :
    readLatestVersion storage e files = .ok p ↔
      ∃ archive, e.openLatestVersion dir = .ok archive ∧
        p = (storedManifest storage archive, archive.getBaseObjects) := by
  rw [readLatestVersion, BackupEngine.openLatestVersion]
  rcases e.versions.getLast? with _ | back
  · simp
  dsimp only
  rcases h.get?_cases (getVersionName back) with ⟨hdir, hfiles⟩ | ⟨_, _, hfile, hname, hdir, hfiles⟩
  · simp [hdir, hfiles]
  rw [hdir, hfiles]
  cases hfile with
  | @archive name a hfits =>
    obtain ⟨r, r', hmanifest, hobjects⟩ := readParts_archiveBytes hfits
    simp only [hmanifest, hobjects, ofReader, ok_bind, map_tree_toStored, pure_eq_ok,
      exists_eq_left']
    exact eq_comm
  | unreadable _ hunreadable =>
    obtain ⟨error, herror⟩ := hunreadable
    simp [herror, ofReader, bind, Except.bind]
  | stray _ _ hstray => exact absurd hname (hstray back)

variable {call : BackupCall} {e e' : BackupEngine}

lemma createInitialVersion_eq_ok (hhash : call.env.hash = storage.hash) (dir : TargetDirectory) :
    createInitialVersion storage call e files = .ok (e', files') ↔
      ∃ archive, e.createInitialVersion call dir =
          .ok (e', dir.put (getVersionName 0) (some archive)) ∧ Fits storage archive ∧
        files' = files.put (getVersionName 0) (archiveBytes storage archive) := by
  rw [createInitialVersion, BackupEngine.createInitialVersion]
  rcases e.setBaseObjects call with error | e1
  · simp [bind, Except.bind]
  · simp only [ok_bind]
    exact archiveVersion_eq_ok hhash dir

lemma Represents.updateExistingVersion_eq_ok (h : Represents storage dir files)
    (hhash : call.env.hash = storage.hash) :
    updateExistingVersion storage call e files = .ok (e', files') ↔
      ∃ archive, e.updateExistingVersion call dir =
          .ok (e', dir.put (getVersionName e.newVersionNumber) (some archive)) ∧
        Fits storage archive ∧
        files' = files.put (getVersionName e.newVersionNumber) (archiveBytes storage archive) := by
  -- the number is that of the engine, whose versions stay
  have hnumber : ∀ {e1 e2 : BackupEngine} {ts : List FileSystemTree},
      e1.setBaseObjects call = .ok e2 → e1.versions = e.versions →
      e1.cachedVersionCount = e.cachedVersionCount →
      ({ e2 with baseObjects := ts } : BackupEngine).newVersionNumber = e.newVersionNumber := by
    intro e1 e2 ts hbase hversions hcached
    obtain ⟨hversions', hcached'⟩ := BackupEngine.setBaseObjects_eq_ok hbase
    exact BackupEngine.versionCount_of_cached (hversions'.trans hversions)
      (.inl (hcached'.trans hcached))
  rw [updateExistingVersion, BackupEngine.updateExistingVersion]
  simp only [bind_eq_ok, h.readLatestVersion_eq_ok, archiveVersion_eq_ok hhash dir]
  constructor
  · rintro ⟨_, ⟨latest, hopen, rfl⟩, e2, hbase, archive, hwrite, hfits, hfiles⟩
    rw [hnumber hbase rfl rfl] at hfiles
    refine ⟨archive, ⟨latest, hopen, e2, hbase, ?_⟩, hfits, hfiles⟩
    rwa [hnumber hbase rfl rfl] at hwrite ⊢
  · rintro ⟨archive, ⟨latest, hopen, e2, hbase, hwrite⟩, hfits, hfiles⟩
    refine ⟨_, ⟨latest, hopen, rfl⟩, e2, hbase, archive, ?_, hfits, ?_⟩
    · rwa [hnumber hbase rfl rfl] at hwrite ⊢
    · rwa [hnumber hbase rfl rfl]

/-- A backup on the files succeeds if and only if it does on the archives and the new archive is not
too long; then the engine is left alike, and the file that is written has the bytes of the archive
that is written. -/
theorem Represents.performBackup_eq_ok (h : Represents storage dir files)
    (hhash : call.env.hash = storage.hash) :
    performBackup storage call e files = .ok (e', files') ↔
      ∃ archive, e.performBackup call dir =
          .ok (e', dir.put (getVersionName e.newVersionNumber) (some archive)) ∧
        Fits storage archive ∧
        files' = files.put (getVersionName e.newVersionNumber) (archiveBytes storage archive) := by
  have hcount : e.cacheVersionCount.versionCount = e.versionCount :=
    BackupEngine.versionCount_of_cached rfl (.inr rfl)
  have hnumber : e.cacheVersionCount.newVersionNumber = e.newVersionNumber := hcount
  rw [performBackup, BackupEngine.performBackup]
  simp only [hcount]
  by_cases hzero : e.versionCount = 0
  · rw [if_pos hzero, if_pos hzero, createInitialVersion_eq_ok hhash dir,
      show e.newVersionNumber = 0 from hzero]
  · rw [if_neg hzero, if_neg hzero, h.updateExistingVersion_eq_ok hhash, hnumber]

end Stored

end BackupProgram
