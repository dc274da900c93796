import BackupProgram.Engine.Discovery
import BackupProgram.Engine.RestoreBackup.Contents

/-!
# Several calls of one engine

An engine keeps the old objects of each call and never looks for versions again. So a restore goes
through what an earlier call has left as well, and does not see the versions that have been written
in the meantime.
-/

namespace BackupProgram

open Results TargetDirectory

/-! ### Calls -/

/-- A call of `RestoreBackup`: the machine, the engine, the directory and the disk before it, and
what it ends with. -/
structure RestoreCall where
  env : RestoreEnv
  fuel : Nat
  engine : BackupEngine
  dir : TargetDirectory
  disk : Disk
  result : EStateM.Result RestoreError Disk BackupEngine

/-- Calls of `PerformBackup` and `RestoreBackup` on one engine, with the latter listed. The disk may
change between them. A call that fails may leave any old objects behind in the engine, but keeps the
list of versions; their number may be cached. -/
inductive Session : BackupEngine → TargetDirectory → List RestoreCall → Prop
  | done (e : BackupEngine) (dir : TargetDirectory) : Session e dir []
  | backup {e e1 : BackupEngine} {dir dir1 : TargetDirectory} {restores : List RestoreCall}
      (call : BackupCall) (hbackup : e.performBackup call dir = .ok (e1, dir1))
      (hrest : Session e1 dir1 restores) : Session e dir restores
  | backupFailure {e e1 : BackupEngine} {dir : TargetDirectory} {restores : List RestoreCall}
      {error : EngineError} (call : BackupCall) (hbackup : e.performBackup call dir = .error error)
      (hversions : e1.versions = e.versions)
      (hcached : e1.cachedVersionCount = e.cachedVersionCount ∨
        e1.cachedVersionCount = e.versionCount)
      (hrest : Session e1 dir restores) : Session e dir restores
  | restore {e e1 : BackupEngine} {dir : TargetDirectory} {restores : List RestoreCall}
      {env : RestoreEnv} {fuel : Nat} {disk disk1 : Disk}
      (hrestore : restoreBackup env dir.archiveFiles fuel e disk = some (.ok e1 disk1))
      (hrest : Session e1 dir restores) :
      Session e dir (⟨env, fuel, e, dir, disk, .ok e1 disk1⟩ :: restores)
  | restoreFailure {e e1 : BackupEngine} {dir : TargetDirectory} {restores : List RestoreCall}
      {env : RestoreEnv} {fuel : Nat} {disk disk1 : Disk} {error : RestoreError}
      (hrestore : restoreBackup env dir.archiveFiles fuel e disk = some (.error error disk1))
      (hversions : e1.versions = e.versions)
      (hcached : e1.cachedVersionCount = e.cachedVersionCount)
      (hrest : Session e1 dir restores) :
      Session e dir (⟨env, fuel, e, dir, disk, .error error disk1⟩ :: restores)

/-- The objects that a restore goes through. -/
def processedObjects (archives : Directory ArchiveFile) (e : BackupEngine) :
    Option (List PathedObject) :=
  match e.versions.getLast? with
  | none => none
  | some latestVersionNumber =>
    match loadVersion archives latestVersionNumber latestVersionNumber with
    | .error _ => none
    | .ok latestVersion => some (restoredObjects e.oldObjects latestVersion)

/-- How a restore has ended, and the disk that it leaves. -/
def outcome : EStateM.Result RestoreError Disk BackupEngine → Option RestoreError × Disk
  | .ok _ disk => (none, disk)
  | .error error disk => (some error, disk)

/-- The call goes through the objects of the newest archive, each once and no others, and ends as it
does on a new engine. -/
structure AsFresh (culture : Culture) (targetLocation : Str) (r : RestoreCall) : Prop where
  once : ∀ e1 disk1, r.result = .ok e1 disk1 → ∃ newest archive, HasVersion r.dir newest ∧
    (∀ k, HasVersion r.dir k → k ≤ newest) ∧
    r.dir.get? (getVersionName newest) = some (some archive) ∧
    processedObjects r.dir.archiveFiles r.engine =
      some (archive.getBaseObjects.flatMap FileSystemTree.iterate)
  fresh : ∀ e0, BackupEngine.new culture targetLocation r.dir = .ok e0 →
    (restoreBackup r.env r.dir.archiveFiles r.fuel e0 r.disk).map outcome = some (outcome r.result)

/-- No call has left old objects behind, and no version is above those that were found when the
engine was constructed. -/
structure UpToDate (r : RestoreCall) : Prop where
  oldObjects : r.engine.oldObjects = []
  known : ∀ k, HasVersion r.dir k → ∃ version ∈ r.engine.versions, k ≤ version

/-! ### One restore -/

variable {culture : Culture} {targetLocation : Str} {dir dir' : TargetDirectory}
  {e e' : BackupEngine}
  {env : RestoreEnv} {archives : Directory ArchiveFile} {fuel : Nat} {d d' : Disk} {n : Int}

/-- What the objects are that a restore goes through. -/
lemma processedObjects_of_restoreBackup
    (h : restoreBackup env archives fuel e d = some (.ok e' d')) :
    ∃ latestVersionNumber latestVersion d₁, e.versions.getLast? = some latestVersionNumber ∧
      loadVersion archives latestVersionNumber latestVersionNumber = .ok latestVersion ∧
      processedObjects archives e = some (restoredObjects e.oldObjects latestVersion) ∧
      restoreObjects env 0 (restoredObjects e.oldObjects latestVersion) d =
        .ok (deferred 0 (restoredObjects e.oldObjects latestVersion)) d₁ := by
  obtain ⟨latestVersionNumber, latestVersion, d₁, targets, hback, hload, hobjects, -, -⟩ :=
    restoreBackup_eq_ok h
  refine ⟨latestVersionNumber, latestVersion, d₁, hback, hload, ?_, hobjects⟩
  simp only [processedObjects, hback, hload]

/-- Nothing else of an engine matters. -/
lemma restoreBackup_congr (hlast : e'.versions.getLast? = e.versions.getLast?)
    (hold : e'.oldObjects = e.oldObjects) :
    (restoreBackup env archives fuel e' d).map outcome =
      (restoreBackup env archives fuel e d).map outcome := by
  rw [restoreBackup, restoreBackup, hlast, hold]
  rcases e.versions.getLast? with _ | latestVersionNumber
  · rfl
  dsimp only
  rw [Option.map_map, Option.map_map]
  refine congrArg (Option.map · _) (funext fun loads => ?_)
  rcases hfailure : loads.failure with _ | failure
  · simp only [Function.comp_apply, hfailure, EStateM.bind]
    rcases restoreLoaded env archives e.oldObjects latestVersionNumber loads.loaded d with _ | _
    · rfl
    · rfl
  · simp only [Function.comp_apply, hfailure]

/-! ### The directory -/

/-- Files may have been added to a directory under the name of one version. -/
structure Grown (dir dir' : TargetDirectory) (n : Int) : Prop where
  kept : ∀ file ∈ dir, ∃ file' ∈ dir', file'.1 = file.1
  names : ∀ file' ∈ dir', (∃ file ∈ dir, file.1 = file'.1) ∨ file'.1 = getVersionName n

lemma Grown.refl (dir : TargetDirectory) (n : Int) : Grown dir dir n :=
  ⟨fun file hfile => ⟨file, hfile, rfl⟩, fun file hfile => .inl ⟨file, hfile, rfl⟩⟩

lemma Grown.trans {dir'' : TargetDirectory} (h : Grown dir dir' n) (h' : Grown dir' dir'' n) :
    Grown dir dir'' n := by
  refine ⟨fun file hfile => ?_, fun file'' hfile'' => ?_⟩
  · obtain ⟨file', hfile', hname⟩ := h.kept file hfile
    obtain ⟨file'', hfile'', hname'⟩ := h'.kept file' hfile'
    exact ⟨file'', hfile'', hname'.trans hname⟩
  · rcases h'.names file'' hfile'' with ⟨file', hfile', hname⟩ | hname
    · rcases h.names file' hfile' with ⟨file, hfile, hname'⟩ | hname'
      · exact .inl ⟨file, hfile, hname'.trans hname⟩
      · exact .inr (hname.symm.trans hname')
    · exact .inr hname

lemma grown_put (dir : TargetDirectory) (n : Int) (archive : Option VersionArchive) :
    Grown dir (dir.put (getVersionName n) archive) n := by
  rw [Directory.put]
  split_ifs
  · refine ⟨fun file hfile => ⟨_, List.mem_map_of_mem hfile, ?_⟩, fun file' hfile' => .inl ?_⟩
    · split_ifs <;> rfl
    · obtain ⟨file, hfile, rfl⟩ := List.mem_map.mp hfile'
      exact ⟨file, hfile, by split_ifs <;> rfl⟩
  · refine ⟨fun file hfile => ⟨file, List.mem_append_left _ hfile, rfl⟩, fun file' hfile' => ?_⟩
    rcases List.mem_append.mp hfile' with hfile' | hfile'
    · exact .inl ⟨file', hfile', rfl⟩
    · exact .inr (by rw [List.mem_singleton.mp hfile'])

/-- A new engine finds the same newest version if no version that has been written is above. -/
lemma getLast?_versions_eq {e0 : BackupEngine} (hculture : culture.KeepsNames)
    (hnew : BackupEngine.new culture targetLocation dir = .ok e)
    (hgrown : Grown dir dir' e.newVersionNumber)
    (hnew' : BackupEngine.new culture targetLocation dir' = .ok e0)
    (hknown : ∀ k, HasVersion dir' k → ∃ version ∈ e.versions, k ≤ version) :
    e0.versions.getLast? = e.versions.getLast? := by
  have hversions := (BackupEngine.versions_of_new hnew).2
  have hversions' := (BackupEngine.versions_of_new hnew').2
  have hexists : ∀ {versions : List Int} {k : Int}, k ∈ versions →
      ∃ back, versions.getLast? = some back :=
    fun hk => ⟨_, List.getLast?_eq_some_getLast (List.ne_nil_of_mem hk)⟩
  have hkept : ∀ k ∈ e.versions, k ∈ e0.versions := by
    intro k hk
    obtain ⟨file, hfile, hread⟩ := (mem_setVersions_iff hversions).mp hk
    obtain ⟨file', hfile', hname⟩ := hgrown.kept file hfile
    exact (mem_setVersions_iff hversions').mpr ⟨file', hfile', hname ▸ hread⟩
  have hbelow : ∀ k ∈ e0.versions, ∃ version ∈ e.versions, k ≤ version := by
    intro k hk
    obtain ⟨file', hfile', hread⟩ := (mem_setVersions_iff hversions').mp hk
    rcases hgrown.names file' hfile' with ⟨file, hfile, hname⟩ | hname
    · exact ⟨k, (mem_setVersions_iff hversions).mpr ⟨file, hfile, hname ▸ hread⟩, le_rfl⟩
    · rcases BackupEngine.newVersionNumber_of_new hnew with ⟨hnonneg, -⟩ | ⟨-, hlast⟩
      · rw [hname, readVersion_version hculture targetLocation hnonneg, Option.some.injEq] at hread
        refine hread ▸ hknown _ ⟨hnonneg, Option.isSome_iff_ne_none.mpr fun hnone => ?_⟩
        exact Directory.get?_eq_none_iff.mp hnone file' hfile' (congrArg lower hname)
      · obtain ⟨back, hback⟩ := hexists hk
        obtain ⟨-, hle, hlargest⟩ := getLast_setVersions hversions' hback
        exact ⟨maxInt, List.mem_of_getLast? hlast, (hlargest _ hk).trans hle⟩
  rcases hlast : e.versions.getLast? with _ | back
  · rw [List.getLast?_eq_none_iff] at hlast ⊢
    refine List.eq_nil_iff_forall_not_mem.mpr fun k hk => ?_
    obtain ⟨version, hversion, -⟩ := hbelow k hk
    rw [hlast] at hversion
    cases hversion
  · have hback := hkept back (List.mem_of_getLast? hlast)
    obtain ⟨back0, hlast0⟩ := hexists hback
    obtain ⟨-, -, hlargest⟩ := getLast_setVersions hversions hlast
    obtain ⟨-, -, hlargest0⟩ := getLast_setVersions hversions' hlast0
    obtain ⟨version, hversion, hle⟩ := hbelow back0 (List.mem_of_getLast? hlast0)
    rw [hlast0, Option.some.injEq]
    exact le_antisymm (hle.trans (hlargest version hversion)) (hlargest0 back hback)

/-! ### A session -/

/-- The engine of every restore knows the versions that were found in the beginning, and the
directory is the one of the beginning, but for one version. -/
lemma Session.grown {restores : List RestoreCall} (h : Session e dir restores) :
    ∀ r ∈ restores, r.engine.versions = e.versions ∧ Grown dir r.dir e.newVersionNumber := by
  induction h with
  | done => exact fun r hr => by cases hr
  | @backup e e1 dir dir1 restores call hbackup hrest ih =>
    obtain ⟨hversions, hcached, archive, rfl⟩ := BackupEngine.performBackup_eq_ok hbackup
    have hnumber : e1.newVersionNumber = e.newVersionNumber :=
      BackupEngine.versionCount_of_cached hversions (.inr hcached)
    intro r hr
    obtain ⟨hsame, hgrown⟩ := ih r hr
    rw [hnumber] at hgrown
    exact ⟨hsame.trans hversions, (grown_put _ _ _).trans hgrown⟩
  | @backupFailure e e1 dir restores error call hbackup hversions hcached hrest ih =>
    have hnumber : e1.newVersionNumber = e.newVersionNumber :=
      BackupEngine.versionCount_of_cached hversions hcached
    intro r hr
    obtain ⟨hsame, hgrown⟩ := ih r hr
    exact ⟨hsame.trans hversions, hnumber ▸ hgrown⟩
  | @restore e e1 dir restores env fuel disk disk1 hrestore hrest ih =>
    obtain ⟨_, _, _, _, -, -, -, -, rfl⟩ := restoreBackup_eq_ok hrestore
    intro r hr
    rcases List.mem_cons.mp hr with rfl | hr
    · exact ⟨rfl, .refl _ _⟩
    · exact ih r hr
  | @restoreFailure e e1 dir restores env fuel disk disk1 error hrestore hversions hcached
      hrest ih =>
    have hnumber : e1.newVersionNumber = e.newVersionNumber :=
      BackupEngine.versionCount_of_cached hversions (.inl hcached)
    intro r hr
    rcases List.mem_cons.mp hr with rfl | hr
    · exact ⟨rfl, .refl _ _⟩
    · obtain ⟨hsame, hgrown⟩ := ih r hr
      exact ⟨hsame.trans hversions, hnumber ▸ hgrown⟩

/-- What is recorded of a restore is what it does. -/
lemma Session.result {restores : List RestoreCall} (h : Session e dir restores) :
    ∀ r ∈ restores,
      restoreBackup r.env r.dir.archiveFiles r.fuel r.engine r.disk = some r.result := by
  induction h with
  | done => exact fun r hr => by cases hr
  | backup _ _ _ ih => exact ih
  | backupFailure _ _ _ _ _ ih => exact ih
  | restore hrestore _ ih => exact List.forall_mem_cons.mpr ⟨hrestore, ih⟩
  | restoreFailure hrestore _ _ _ ih => exact List.forall_mem_cons.mpr ⟨hrestore, ih⟩

lemma get?_archiveFiles (dir : TargetDirectory) (name : Str) :
    dir.archiveFiles.get? name = (dir.get? name).map fun file =>
      match file with
      | none => .unreadable
      | some archive => .ofVersionArchive archive := by
  rw [Directory.get?, Directory.get?, TargetDirectory.archiveFiles, List.find?_map, Option.map_map,
    Option.map_map]
  rfl

/-- A version that is loaded is in the directory, and its objects are those of its archive. -/
lemma exists_of_loadVersion {version : Int} {loaded : VersionForRestore}
    (h : loadVersion dir.archiveFiles version version = .ok loaded) :
    ∃ archive, dir.get? (getVersionName version) = some (some archive) ∧
      loaded.baseObjects = archive.getBaseObjects := by
  obtain ⟨file, hopen, -, hobjects⟩ := loadVersion_eq_ok h
  rw [openArchive, get?_archiveFiles] at hopen
  rcases hget : dir.get? (getVersionName version) with _ | (_ | archive)
  all_goals rw [hget] at hopen
  · cases hopen
  · cases hopen
    cases hobjects rfl
  · cases hopen
    exact ⟨archive, rfl, (Except.ok.inj (hobjects rfl)).symm⟩

/-- In a session of a new engine, a restore is as good as one on a new engine if no call before it
has left old objects behind or written a version above those that the engine knows. -/
theorem Session.asFresh {restores : List RestoreCall} (hculture : culture.KeepsNames)
    (hnew : BackupEngine.new culture targetLocation dir = .ok e) (h : Session e dir restores)
    (hsteps : ∀ r ∈ restores, UpToDate r) : ∀ r ∈ restores, AsFresh culture targetLocation r := by
  intro r hr
  obtain ⟨hversions, hgrown⟩ := h.grown r hr
  have hresult := h.result r hr
  have hknown := (hsteps r hr).known
  rw [hversions] at hknown
  refine ⟨fun e1 disk1 hok => ?_, fun e0 hnew0 => ?_⟩
  · rw [hok] at hresult
    obtain ⟨newest, loaded, d₁, hlast, hload, hprocessed, -⟩ :=
      processedObjects_of_restoreBackup hresult
    obtain ⟨archive, hget, hobjects⟩ := exists_of_loadVersion hload
    rw [hversions] at hlast
    obtain ⟨hnonneg, -, hlargest⟩ :=
      getLast_setVersions (BackupEngine.versions_of_new hnew).2 hlast
    refine ⟨newest, archive, ⟨hnonneg, by rw [hget]; rfl⟩, fun k hk => ?_, hget, ?_⟩
    · obtain ⟨version, hversion, hle⟩ := hknown k hk
      exact hle.trans (hlargest version hversion)
    · rw [hprocessed, restoredObjects, (hsteps r hr).oldObjects, List.nil_append, hobjects]
  · have hlast := getLast?_versions_eq hculture hnew hgrown hnew0 hknown
    have hold : e0.oldObjects = [] := by
      simp only [BackupEngine.new, bind_eq_ok, pure_eq_ok] at hnew0
      obtain ⟨versions, -, rfl⟩ := hnew0
      rfl
    rw [← hversions] at hlast
    rw [restoreBackup_congr hlast (hold.trans (hsteps r hr).oldObjects.symm), hresult,
      Option.map_some]

/-! ### Restoring twice -/

/-- A version with a file in a directory. -/
def fileArchive : VersionArchive where
  files := [(1, [10], .none)]
  baseObjects :=
    [⟨{ type := .directory
        name := ['d']
        mappedBasePath := ['C', ':']
        unmappedBasePath := ['C', ':']
        isMain := true
        latestVersion := -1 },
      .cons (storedFile 'a' 1 0) .nil .nil⟩]
  manifest := manifestWith 0 []

def fileDirectory : TargetDirectory := [(getVersionName 0, some fileArchive)]

theorem asFresh_once : ∃ e e1 disk1, BackupEngine.new .ordinal ['T'] fileDirectory = .ok e ∧
    restoreBackup plainMachine fileDirectory.archiveFiles 10 e emptyDrive = some (.ok e1 disk1) ∧
      ∀ r ∈ [RestoreCall.mk plainMachine 10 e fileDirectory emptyDrive (.ok e1 disk1)],
        AsFresh .ordinal ['T'] r := by
  have hrun : ∃ e e1 disk1, BackupEngine.new .ordinal ['T'] fileDirectory = .ok e ∧
      restoreBackup plainMachine fileDirectory.archiveFiles 10 e emptyDrive =
        some (.ok e1 disk1) ∧ e.oldObjects = [] := ⟨_, _, _, rfl, rfl, rfl⟩
  obtain ⟨e, e1, disk1, hnew, hrestore, hold⟩ := hrun
  refine ⟨e, e1, disk1, hnew, hrestore, Session.asFresh Culture.keepsNames_ordinal hnew
    (.restore hrestore (.done e1 _)) ?_⟩
  rw [List.forall_mem_singleton]
  refine ⟨hold, fun k hk => ⟨0, ?_, ?_⟩⟩
  · exact mem_setVersions Culture.keepsNames_ordinal (BackupEngine.versions_of_new hnew).2 le_rfl
      List.mem_cons_self
  · have hput : fileDirectory = Directory.put [] (getVersionName 0) (some fileArchive) := rfl
    have hk : HasVersion fileDirectory k := hk
    rw [hput, hasVersion_put_iff [] le_rfl] at hk
    exact (hk.resolve_right (not_hasVersion_nil k)).le

/-- The second restore finds the file among the old objects as well, and fails. -/
theorem not_asFresh_twice : ∃ e restores, BackupEngine.new .ordinal ['T'] fileDirectory = .ok e ∧
    Session e fileDirectory restores ∧ ¬ ∀ r ∈ restores, AsFresh .ordinal ['T'] r := by
  have hruns : ∃ e e1 e2 disk1 disk2 disk3, BackupEngine.new .ordinal ['T'] fileDirectory = .ok e ∧
      restoreBackup plainMachine fileDirectory.archiveFiles 10 e emptyDrive =
        some (.ok e1 disk1) ∧
      restoreBackup plainMachine fileDirectory.archiveFiles 10 e1 disk1 =
        some (.error (.exception .invalidCast) disk2) ∧
      restoreBackup plainMachine fileDirectory.archiveFiles 10 e disk1 =
        some (.ok e2 disk3) := ⟨_, _, _, _, _, _, rfl, rfl, rfl, rfl⟩
  obtain ⟨e, e1, e2, disk1, disk2, disk3, hnew, hfirst, hsecond, hfresh⟩ := hruns
  have hsession : Session e fileDirectory
      [⟨plainMachine, 10, e, fileDirectory, emptyDrive, .ok e1 disk1⟩,
        ⟨plainMachine, 10, e1, fileDirectory, disk1, .error (.exception .invalidCast) disk2⟩] :=
    .restore hfirst (.restoreFailure hsecond rfl rfl (.done e1 _))
  refine ⟨e, _, hnew, hsession, fun h => ?_⟩
  have hsame := (h _ (List.mem_cons_of_mem _ List.mem_cons_self)).fresh e hnew
  simp [hfresh, outcome] at hsame

end BackupProgram
