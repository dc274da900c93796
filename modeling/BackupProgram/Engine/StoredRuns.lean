import BackupProgram.Engine.RoundTrip
import BackupProgram.Engine.Storage

/-!
# Backups and restores on bytes

A restore reads all its archives through the archive classes. On what backups have written it does
the same as on the archives themselves, so that all that is known of chains of versions holds of the
files in the target directory.
-/

namespace BackupProgram

open Results

/-! ### Archives that are restored alike -/

/-- The manifest without what only the reader uses. -/
def VersionManifest.plain (m : VersionManifest) : VersionManifest :=
  { m with archiveMetadata := none }

def VersionForRestore.plain (version : VersionForRestore) : VersionForRestore :=
  { version with manifest := version.manifest.plain }

/-- The data makes no difference if there are no streams. -/
structure SameArchive (a a' : ArchiveFile) : Prop where
  manifest : a'.manifest.map VersionManifest.plain = a.manifest.map VersionManifest.plain
  baseObjects : a'.baseObjects = a.baseObjects
  streamIds : a'.streamIds = a.streamIds
  streamSizes : a'.streamSizes = a.streamSizes
  data : a.streamIds ≠ [] → a'.data = a.data

/-- Every version has the same archive in both. -/
def SameArchives (archives archives' : Directory ArchiveFile) : Prop :=
  ∀ version, (archives.get? (getVersionName version) = none ∧
      archives'.get? (getVersionName version) = none) ∨
    ∃ a a', archives.get? (getVersionName version) = some a ∧
      archives'.get? (getVersionName version) = some a' ∧ SameArchive a a'

variable {env : RestoreEnv} {archives archives' : Directory ArchiveFile}

lemma SameArchive.restoreStreams_eq {a a' : ArchiveFile} (h : SameArchive a a')
    (restoreLater : List Deferred) (targets : List (Nat × Str)) :
    restoreStreams env restoreLater a'.streamIds a'.streamSizes a'.data targets =
      restoreStreams env restoreLater a.streamIds a.streamSizes a.data targets := by
  rw [h.streamIds, h.streamSizes]
  by_cases hids : a.streamIds = []
  · rw [hids]
    rfl
  · rw [h.data hids]

lemma SameArchives.loadVersion_eq (h : SameArchives archives archives')
    (latestVersionNumber version : Int) :
    (loadVersion archives' latestVersionNumber version).map VersionForRestore.plain =
      (loadVersion archives latestVersionNumber version).map VersionForRestore.plain := by
  rw [loadVersion, loadVersion, openArchive, openArchive]
  rcases h version with ⟨hnone, hnone'⟩ | ⟨a, a', hsome, hsome', hsame⟩
  · rw [hnone, hnone']
  · rw [hsome, hsome']
    have hmanifest := hsame.manifest
    simp only [pure_bind, hsame.baseObjects]
    rcases ha : a.manifest with error | manifest <;>
      rcases ha' : a'.manifest with error' | manifest'
    · rw [ha, ha'] at hmanifest
      cases hmanifest
      rfl
    · rw [ha, ha'] at hmanifest
      cases hmanifest
    · rw [ha, ha'] at hmanifest
      cases hmanifest
    · rw [ha, ha', Except.map, Except.map, Except.ok.injEq] at hmanifest
      simp only [ok_bind]
      rcases (if version = latestVersionNumber then a.baseObjects else return []) with
        error | objects
      · rfl
      · simp only [ok_bind]
        exact congrArg (fun m => Except.ok (VersionForRestore.mk m objects)) hmanifest

lemma SameArchives.restoreVersion_eq (h : SameArchives archives archives')
    (restoreLater : List Deferred) (targets : List (Nat × Str)) (version : Int) :
    restoreVersion env archives' restoreLater targets version =
      restoreVersion env archives restoreLater targets version := by
  rw [restoreVersion, restoreVersion, openArchive, openArchive]
  rcases h version with ⟨hnone, hnone'⟩ | ⟨a, a', hsome, hsome', hsame⟩
  · rw [hnone, hnone']
  · rw [hsome, hsome']
    have hmanifest := hsame.manifest
    change (do
        let _ ← liftExcept a'.manifest
        restoreStreams env restoreLater a'.streamIds a'.streamSizes a'.data targets) =
      do
        let _ ← liftExcept a.manifest
        restoreStreams env restoreLater a.streamIds a.streamSizes a.data targets
    rw [hsame.restoreStreams_eq]
    rcases ha : a.manifest with error | manifest <;>
      rcases ha' : a'.manifest with error' | manifest'
    · rw [ha, ha'] at hmanifest
      cases hmanifest
      rfl
    · rw [ha, ha'] at hmanifest
      cases hmanifest
    · rw [ha, ha'] at hmanifest
      cases hmanifest
    · rfl

lemma lookup_mapped {α β : Type} (f : α → β) (kvs : List (Int × α)) (k : Int) :
    (kvs.map fun kv => (kv.1, f kv.2)).lookup k = (kvs.lookup k).map f := by
  induction kvs with
  | nil => rfl
  | cons kv kvs ih =>
    rw [List.map_cons, List.lookup_cons, List.lookup_cons, ih]
    cases k == kv.1 <;> rfl

/-- Only the dependencies and the objects of what has been loaded are used. -/
lemma restoreLoaded_plain (oldObjects : List FileSystemTree) (latestVersionNumber : Int)
    (versions : List (Int × VersionForRestore)) :
    restoreLoaded env archives oldObjects latestVersionNumber
        (versions.map fun version => (version.1, version.2.plain)) =
      restoreLoaded env archives oldObjects latestVersionNumber versions := by
  rw [restoreLoaded, restoreLoaded]
  simp only [lookup_mapped, Option.map_map]
  rcases versions.lookup latestVersionNumber with _ | latestVersion
  · rfl
  · rfl

lemma SameArchives.restoreLoaded_eq (h : SameArchives archives archives')
    (oldObjects : List FileSystemTree) (latestVersionNumber : Int)
    (versions : List (Int × VersionForRestore)) :
    restoreLoaded env archives' oldObjects latestVersionNumber versions =
      restoreLoaded env archives oldObjects latestVersionNumber versions := by
  have hversion : restoreVersion env archives' = restoreVersion env archives :=
    funext fun _ => funext fun _ => funext fun _ => h.restoreVersion_eq _ _ _
  rw [restoreLoaded, restoreLoaded, hversion]

/-- The loads are alike up to what is not used of them. -/
lemma SameArchives.loadVersions_eq (h : SameArchives archives archives') (latestVersionNumber : Int)
    (fuel : Nat) :
    (loadVersions archives' latestVersionNumber fuel).map
        (Worklist.Outcome.map VersionForRestore.plain) =
      (loadVersions archives latestVersionNumber fuel).map
        (Worklist.Outcome.map VersionForRestore.plain) := by
  have hview : ∀ archives : Directory ArchiveFile,
      Worklist.explore (fun version => (loadVersion archives latestVersionNumber version).map
          VersionForRestore.plain)
        (fun version => version.manifest.versionDependencies) fuel [] [latestVersionNumber] =
      (loadVersions archives latestVersionNumber fuel).map
        (Worklist.Outcome.map VersionForRestore.plain) :=
    fun _ => Worklist.explore_map (fun _ => rfl) fuel [] [latestVersionNumber]
  rw [← hview, ← hview]
  simp only [h.loadVersion_eq]

/-- What follows the loop that loads the versions. -/
def restoreOutcome (env : RestoreEnv) (archives : Directory ArchiveFile) (e : BackupEngine)
    (d : Disk)
    (latestVersionNumber : Int) (outcome : Worklist.Outcome Int VersionForRestore EngineError) :
    EStateM.Result RestoreError Disk BackupEngine :=
  match outcome.failure with
  | some (_, error) => .error (.exception error) d
  | none =>
    ((restoreLoaded env archives e.oldObjects latestVersionNumber outcome.loaded).bind
      fun oldObjects => return { e with oldObjects := oldObjects }) d

/-- Archives that are alike are restored alike, by every engine and on every disk. -/
theorem SameArchives.restoreBackup_eq (h : SameArchives archives archives') (fuel : Nat)
    (e : BackupEngine) (d : Disk) :
    restoreBackup env archives' fuel e d = restoreBackup env archives fuel e d := by
  rw [restoreBackup, restoreBackup]
  rcases e.versions.getLast? with _ | latestVersionNumber
  · rfl
  dsimp only
  have hfinish : ∀ (archives : Directory ArchiveFile)
      (outcomes : Option (Worklist.Outcome Int VersionForRestore EngineError)),
      (outcomes.map (Worklist.Outcome.map VersionForRestore.plain)).map
          (restoreOutcome env archives e d latestVersionNumber) =
        outcomes.map (restoreOutcome env archives e d latestVersionNumber) := by
    intro archives outcomes
    rw [Option.map_map]
    refine congrArg (Option.map · outcomes) (funext fun outcome => ?_)
    simp only [Function.comp_apply, restoreOutcome, Worklist.Outcome.map, restoreLoaded_plain]
  have hsame : restoreOutcome env archives' e d latestVersionNumber =
      restoreOutcome env archives e d latestVersionNumber := by
    funext outcome
    simp only [restoreOutcome, h.restoreLoaded_eq]
  change (loadVersions archives' latestVersionNumber fuel).map
      (restoreOutcome env archives' e d latestVersionNumber) =
    (loadVersions archives latestVersionNumber fuel).map
      (restoreOutcome env archives e d latestVersionNumber)
  rw [hsame, ← hfinish, h.loadVersions_eq, hfinish]

namespace Stored

/-! ### Restores -/

variable {storage : Storage} {dir : TargetDirectory} {files files' : StoredDirectory}
  {culture : Culture} {targetLocation : Str} {calls : List BackupCall}

/-- What `ReadManifest`, `GetBaseObjects` and `Begin` find in a file. -/
def archiveFile (storage : Storage) (bytes : List Byte) : ArchiveFile :=
  match (ArchiveReader.new bytes).readManifest storage.toArchiveEnv storage.ahead with
  | .error _ => .unreadable
  | .ok (manifest, archive) =>
    { manifest := .ok manifest
      baseObjects :=
        (ofReader (archive.getBaseObjects storage.toArchiveEnv storage.ahead storage.ahead)).map
          fun objects => objects.1.map StoredTree.tree
      streamIds := archive.streamIds
      streamSizes := archive.streamSizes
      data := (storage.archive.doInputFiltering (.stream false)).read archive.stream }

def archiveFiles (storage : Storage) (files : StoredDirectory) : Directory ArchiveFile :=
  files.map fun file => (file.1, archiveFile storage file.2)

def restoreBackup (storage : Storage) (env : RestoreEnv) (files : StoredDirectory) (fuel : Nat)
    (e : BackupEngine) (disk : Disk) : Option (EStateM.Result RestoreError Disk BackupEngine) :=
  BackupProgram.restoreBackup env (archiveFiles storage files) fuel e disk

lemma sameArchive_archiveFile {a : VersionArchive} (hfits : Fits storage a) :
    SameArchive (.ofVersionArchive a) (archiveFile storage (archiveBytes storage a)) := by
  obtain ⟨r, hread, hloaded, -⟩ := ArchiveReader.readManifest_spec hfits.layout
    (r := .new (archiveBytes storage a)) (.inl ⟨rfl, rfl, rfl, rfl⟩) storage.ahead
  obtain ⟨r', hobjects, -⟩ := ArchiveReader.readBaseObjects_spec hfits.layout (.inr hloaded)
    storage.ahead storage.ahead
  have hget : (ofReader (r.getBaseObjects storage.toArchiveEnv storage.ahead storage.ahead)).map
      (fun objects => objects.1.map StoredTree.tree) = .ok a.getBaseObjects := by
    rw [ArchiveReader.getBaseObjects, hobjects]
    simp only [ok_bind, pure, Except.pure, ofReader, Except.map, map_tree_toStored]
  rw [archiveFile, hread]
  refine ⟨rfl, hget, hloaded.streamIds_eq, hloaded.streamSizes_eq, fun hids => ?_⟩
  have hfiles : a.files ≠ [] := by
    rintro hnil
    exact hids (by rw [ArchiveFile.ofVersionArchive, VersionArchive.streamIds, hnil]; rfl)
  obtain ⟨sha, -, hbytes⟩ := ArchiveReader.archiveBytes_eq storage.toArchiveEnv a.files
    (a.baseObjects.map FileSystemTree.toStored) a.manifest
  dsimp only
  rw [hloaded.stream_eq, hbytes, List.append_assoc, List.append_assoc, ArchiveWriter.fileSection,
    if_neg hfiles, hfits.layout.read_encodeAll, ArchiveFile.ofVersionArchive,
    ArchiveWriter.fileData, List.flatMap_def]

lemma Represents.sameArchives (h : Represents storage dir files) :
    SameArchives dir.archiveFiles (archiveFiles storage files) := by
  intro version
  have hfiles : ∀ name, (archiveFiles storage files).get? name =
      (files.get? name).map (archiveFile storage) := by
    intro name
    rw [archiveFiles, Directory.get?, Directory.get?, List.find?_map, Option.map_map,
      Option.map_map]
    rfl
  rw [get?_archiveFiles, hfiles]
  rcases h.get?_cases (getVersionName version) with
    ⟨hdir, hfiles⟩ | ⟨_, _, hfile, hname, hdir, hfiles⟩
  · exact .inl (by rw [hdir, hfiles]; exact ⟨rfl, rfl⟩)
  · rw [hdir, hfiles]
    refine .inr ⟨_, _, rfl, rfl, ?_⟩
    cases hfile with
    | archive _ hfits => exact sameArchive_archiveFile hfits
    | unreadable _ hunreadable =>
      obtain ⟨error, herror⟩ := hunreadable
      rw [archiveFile, herror]
      exact ⟨rfl, rfl, rfl, rfl, fun _ => rfl⟩
    | stray _ _ hstray => exact absurd hname (hstray version)

/-! ### Runs -/

/-- Successful backups on files, each by an engine of its own, in a directory where no version is
found at first and no file has the name of one. -/
inductive FreshBackups (storage : Storage) (culture : Culture) (targetLocation : Str) :
    List BackupCall → StoredDirectory → Prop
  | start (files : StoredDirectory) (hculture : culture.KeepsNames)
      (hnone : setVersions culture targetLocation files = .ok [])
      (hnames : ∀ file ∈ files, ∀ v, lower file.1 ≠ lower (getVersionName v)) :
      FreshBackups storage culture targetLocation [] files
  | backup {calls : List BackupCall} {files files' : StoredDirectory} {e e' : BackupEngine}
      (call : BackupCall) (hruns : FreshBackups storage culture targetLocation calls files)
      (hhash : call.env.hash = storage.hash) (hnew : newEngine culture targetLocation files = .ok e)
      (hbackup : performBackup storage call e files = .ok (e', files')) :
      FreshBackups storage culture targetLocation
        (if 0 ≤ e.newVersionNumber then calls ++ [call] else calls) files'

/-- In such a directory nothing is an archive. -/
lemma represents_start {files : StoredDirectory}
    (hnames : ∀ file ∈ files, ∀ v, lower file.1 ≠ lower (getVersionName v)) :
    Represents storage (files.map fun file => (file.1, none)) files := by
  induction files with
  | nil => exact .nil
  | cons file files ih =>
    exact .cons (.stray file.1 file.2 (hnames file List.mem_cons_self))
      (ih fun file' hfile' => hnames file' (List.mem_cons_of_mem _ hfile'))

/-- By induction over the backups: the archives that the files stand for are those of a run of
backups on archives. -/
lemma FreshBackups.represented (h : FreshBackups storage culture targetLocation calls files) :
    ∃ vs dir, BackupProgram.FreshBackups culture targetLocation vs dir ∧
    vs.map Version.call = calls ∧
      Represents storage dir files := by
  induction h with
  | start files hculture hnone hnames =>
    refine ⟨[], _, .start (files.map fun file => (file.1, none)) hculture ?_ ?_, rfl,
      represents_start hnames⟩
    · rintro k ⟨-, hget⟩
      obtain ⟨a, ha⟩ := Option.isSome_iff_exists.mp hget
      obtain ⟨x, hx, hname, -⟩ := Directory.exists_of_get? ha
      obtain ⟨file, hfile, rfl⟩ := List.mem_map.mp hx
      exact hnames file hfile k hname
    · rw [← hnone]
      exact setVersions_congr culture targetLocation (by rw [List.map_map]; rfl)
  | @backup calls files files' e e' call _ hhash hnew hbackup ih =>
    obtain ⟨vs, dir, hruns, rfl, hdir⟩ := ih
    rw [hdir.newEngine_eq] at hnew
    obtain ⟨archive, hperform, hfits, rfl⟩ := (hdir.performBackup_eq_ok hhash).mp hbackup
    refine ⟨_, _, .backup call hruns hnew hperform (Directory.get?_put_self _ _ _), ?_,
      hdir.put _ hfits⟩
    split_ifs
    · rw [List.map_append, List.map_singleton]
    · rfl

/-- Backups that write bytes and read them back are backups on archives, whose directory the files
represent; and with every engine, machine and disk, restoring from the bytes is restoring from these
archives. -/
theorem freshBackups_refine (h : FreshBackups storage culture targetLocation calls files) :
    ∃ vs dir, BackupProgram.FreshBackups culture targetLocation vs dir ∧
    vs.map Version.call = calls ∧
      Represents storage dir files ∧
      newEngine culture targetLocation files = BackupEngine.new culture targetLocation dir ∧
      ∀ (env : RestoreEnv) (fuel : Nat) (e : BackupEngine) (disk : Disk),
        restoreBackup storage env files fuel e disk =
          BackupProgram.restoreBackup env dir.archiveFiles fuel e disk := by
  obtain ⟨vs, dir, hruns, hcalls, hdir⟩ := h.represented
  exact ⟨vs, dir, hruns, hcalls, hdir, hdir.newEngine_eq culture targetLocation,
    fun _ fuel e disk => hdir.sameArchives.restoreBackup_eq fuel e disk⟩

/-! ### Two backups as bytes -/

def types : List FileSystemObjectType :=
  [.directory, .regularFile, .directorySymlink, .junction, .fileSymlink, .fileReparsePoint,
    .fileHardlink]

def hashTypes : List HashType := [.none, .sha1, .md5, .sha256]

lemma getD_idxOf_types (t : FileSystemObjectType) : types.getD (types.idxOf t) .directory = t := by
  cases t <;> rfl

lemma getD_idxOf_hashTypes (t : HashType) : hashTypes.getD (hashTypes.idxOf t) .none = t := by
  cases t <;> rfl

lemma decide_toNat (b : Bool) : decide (b.toNat = 1) = b := by cases b <;> rfl

def strCodec : Codec Str :=
  .list (.via Char.toNat Char.ofNat Char.ofNat_toNat .nat)

lemma ofNat_toNat_byte (b : Byte) : UInt8.ofNat b.toNat = b := UInt8.ofNat_toNat

def bytesCodec : Codec (List Byte) := .list (.via UInt8.toNat UInt8.ofNat ofNat_toNat_byte .nat)

/-- What is serialized of an object. -/
abbrev Fields : Type :=
  (FileSystemObjectType × Str × Str × Str) × (Nat × Nat × Option Str × Nat) ×
    (Int × Option Guid × List (HashType × List Byte)) × Bool × Int

def fieldsOf (o : FileSystemObject) : Fields :=
  ((o.type, o.name, o.mappedBasePath, o.unmappedBasePath),
    (o.streamUniqueId, o.differentialChainUniqueId, o.target, o.size),
    (o.modificationTime, o.fileSystemGuid, o.hashes), o.isMain, o.latestVersion)

def ofFields : Fields → FileSystemObject
  | ((type, name, mappedBasePath, unmappedBasePath),
      (streamUniqueId, differentialChainUniqueId, target, size),
      (modificationTime, fileSystemGuid, hashes), isMain, latestVersion) =>
    { type, name, mappedBasePath, unmappedBasePath, streamUniqueId, differentialChainUniqueId,
      target, size, modificationTime, fileSystemGuid, hashes, isMain, latestVersion }

lemma ofFields_fieldsOf (o : FileSystemObject) : ofFields (fieldsOf o) = o.stored := rfl

def fieldsCodec : Codec Fields :=
  ((Codec.via types.idxOf (types.getD · .directory) getD_idxOf_types .nat).pair
    (strCodec.pair (strCodec.pair strCodec))).pair
  ((Codec.nat.pair (Codec.nat.pair (strCodec.option.pair .nat))).pair
    ((Codec.int.pair (Codec.nat.option.pair
      ((Codec.via hashTypes.idxOf (hashTypes.getD · .none) getD_idxOf_hashTypes .nat).pair
        bytesCodec).list)).pair
      ((Codec.via Bool.toNat (fun n => decide (n = 1)) decide_toNat .nat).pair .int)))

def forestOf (t : StoredTree) : Forest Fields :=
  .cons (fieldsOf t.tree.root) (t.tree.children.map fieldsOf) .nil

def ofForest : Forest Fields → StoredTree
  | .nil => FileSystemTree.toStored ⟨{ type := .directory, name := [] }, .nil⟩
  | .cons root children _ => FileSystemTree.toStored ⟨ofFields root, children.map ofFields⟩

lemma ofForest_forestOf (t : StoredTree) : ofForest (forestOf t) = t := by
  obtain ⟨tree, hstored⟩ := t
  have hroot : tree.root.stored = tree.root := congrArg RoseTree.root hstored
  have hchildren : tree.children.map FileSystemObject.stored = tree.children :=
    congrArg RoseTree.children hstored
  have hfields : ofFields ∘ fieldsOf = FileSystemObject.stored := funext ofFields_fieldsOf
  simp only [forestOf, ofForest, FileSystemTree.toStored, StoredTree.mk.injEq, Forest.map_map,
    hfields, ofFields_fieldsOf, hroot, hchildren]
  exact hstored

/-- Lengths in unary, and sums for hashes. -/
def plainStorage : Storage where
  archive := .new (compressionFilterGenerator ArchiveReader.unaryDecompress
    ArchiveReader.unaryCompress)
  manifests := ArchiveReader.manifestSerializer
  fsos := ArchiveReader.serializerOf (.via forestOf ofForest ofForest_forestOf fieldsCodec.forest)
  hash := (changedBackup []).env.hash
  length_sha256 _ := List.length_replicate
  ahead := 0
  selfDelimiting := ⟨_, _, rfl, ArchiveReader.selfDelimiting_unary⟩
  inverts_manifests := ArchiveReader.inverts_manifestSerializer
  inverts_fsos := ArchiveReader.inverts_serializerOf _

lemma fits_firstDirectoryArchive : Fits plainStorage firstDirectoryArchive := by
  rw [Fits]
  decide +kernel

lemma fits_secondDirectoryArchive : Fits plainStorage secondDirectoryArchive := by
  rw [Fits]
  decide +kernel

/-- The files after the two backups. -/
lemma freshBackups_directory : FreshBackups plainStorage .ordinal ['T']
    [changedBackup [1], changedBackup [2, 2]]
    [(getVersionName 0, archiveBytes plainStorage firstDirectoryArchive),
      (getVersionName 1, archiveBytes plainStorage secondDirectoryArchive)] := by
  obtain ⟨e1, e2, hbackup1, hbackup2⟩ := exists_backups_directory
  have hempty : Represents plainStorage [] [] := .nil
  have hone : Represents plainStorage [(getVersionName 0, some firstDirectoryArchive)]
      [(getVersionName 0, archiveBytes plainStorage firstDirectoryArchive)] :=
    .cons (.archive _ fits_firstDirectoryArchive) .nil
  have hhash : ∀ bytes, (changedBackup bytes).env.hash = plainStorage.hash := fun _ => rfl
  have hput : ∀ {α : Type} (a : α),
      Directory.put [] (getVersionName (engineOf []).newVersionNumber) a =
      [(getVersionName 0, a)] := fun _ => rfl
  have hput' : ∀ {α : Type} (a b : α), Directory.put [(getVersionName 0, a)]
      (getVersionName (engineOf [0]).newVersionNumber) b =
        [(getVersionName 0, a), (getVersionName 1, b)] := fun _ _ => rfl
  have hfirst : performBackup plainStorage (changedBackup [1]) (engineOf []) [] =
      .ok (e1, [(getVersionName 0, archiveBytes plainStorage firstDirectoryArchive)]) :=
    (hempty.performBackup_eq_ok (hhash _)).mpr ⟨firstDirectoryArchive, by rw [hput]; exact hbackup1,
      fits_firstDirectoryArchive, (hput _).symm⟩
  have hsecond : performBackup plainStorage (changedBackup [2, 2]) (engineOf [0])
      [(getVersionName 0, archiveBytes plainStorage firstDirectoryArchive)] =
      .ok (e2, [(getVersionName 0, archiveBytes plainStorage firstDirectoryArchive),
        (getVersionName 1, archiveBytes plainStorage secondDirectoryArchive)]) :=
    (hone.performBackup_eq_ok (hhash _)).mpr ⟨secondDirectoryArchive, by rw [hput']; exact hbackup2,
      fits_secondDirectoryArchive, (hput' _ _).symm⟩
  exact .backup (e := engineOf [0]) _
    (.backup (e := engineOf []) _ (.start [] Culture.keepsNames_ordinal rfl (by simp)) (hhash _) rfl
      hfirst) (hhash _) rfl hsecond

theorem freshBackups_refine_directory : ∃ vs dir, BackupProgram.FreshBackups .ordinal ['T'] vs dir ∧
    vs.map Version.call = [changedBackup [1], changedBackup [2, 2]] ∧
    ∀ (env : RestoreEnv) (fuel : Nat) (e : BackupEngine) (disk : Disk),
      restoreBackup plainStorage env
          [(getVersionName 0, archiveBytes plainStorage firstDirectoryArchive),
            (getVersionName 1, archiveBytes plainStorage secondDirectoryArchive)] fuel e disk =
        BackupProgram.restoreBackup env dir.archiveFiles fuel e disk := by
  obtain ⟨vs, dir, hruns, hcalls, -, -, hrestore⟩ := freshBackups_refine freshBackups_directory
  exact ⟨vs, dir, hruns, hcalls, hrestore⟩

end Stored

end BackupProgram
