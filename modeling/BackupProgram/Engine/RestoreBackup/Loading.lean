import BackupProgram.Engine.RestoreBackup

/-!
# Loading before deleting

The newest version and all that it needs, directly or not, are loaded, each once, before anything on
the disk is touched; if one of them cannot be loaded, nothing on the disk changes.
-/

namespace BackupProgram

open Results Worklist

/-! ### Only finitely many versions can be opened -/

lemma digits_ne_minus {n : Nat} {c : Char} (hc : c ∈ Nat.toDigits 10 n) : c ≠ '-' := by
  rintro rfl
  exact absurd (Nat.isDigit_of_mem_toDigits (by decide) (by decide) hc) (by decide)

lemma formatVersion_injective : Function.Injective formatVersion := by
  intro v w h
  have hdigits : ∀ n : Nat, (Nat.ofDigitChars 10
      (List.replicate (8 - (Nat.toDigits 10 n).length) '0' ++ Nat.toDigits 10 n) 0) = n := by
    intro n
    rw [Nat.ofDigitChars_append, Nat.ofDigitChars_replicate_zero, Nat.mul_zero,
      Nat.ofDigitChars_toDigits (by decide) (by decide)]
  have hhead : ∀ n : Nat, (List.replicate (8 - (Nat.toDigits 10 n).length) '0' ++
      Nat.toDigits 10 n).head? ≠ some '-' := by
    intro n hhead
    have hmem := List.mem_of_head? hhead
    rcases List.mem_append.mp hmem with hmem | hmem
    · exact absurd (List.eq_of_mem_replicate hmem) (by decide)
    · exact digits_ne_minus hmem rfl
  simp only [formatVersion, List.append_assoc] at h
  split_ifs at h with hv hw hw
  · have heq := congrArg (fun s => Nat.ofDigitChars 10 s 0) (List.append_cancel_left h)
    simp only [hdigits] at heq
    omega
  · exact absurd (by rw [← List.nil_append (_ ++ _), ← h]; rfl) (hhead w.natAbs)
  · exact absurd (by rw [← List.nil_append (_ ++ _), h]; rfl) (hhead v.natAbs)
  · have heq := congrArg (fun s => Nat.ofDigitChars 10 s 0) h
    simp only [List.nil_append, hdigits] at heq
    omega

lemma lower_formatVersion (v : Int) : lower (formatVersion v) = formatVersion v := by
  refine (List.map_congr_left fun c hc => ?_).trans (List.map_id _)
  rw [formatVersion, List.append_assoc, List.mem_append, List.mem_append] at hc
  rcases hc with hc | hc | hc
  · split_ifs at hc
    · rw [List.mem_singleton.mp hc]
      decide
    · cases hc
  · rw [List.eq_of_mem_replicate hc]
    decide
  · exact toLower_of_isDigit (Nat.isDigit_of_mem_toDigits (by decide) (by decide) hc)

lemma lower_getVersionName_injective :
    Function.Injective fun v => lower (getVersionName v) := by
  intro v w h
  simp only [getVersionName, lower_append, lower_formatVersion] at h
  exact formatVersion_injective (List.append_cancel_left (List.append_cancel_right h))

variable {archives : Directory ArchiveFile} {latestVersionNumber version : Int}

lemma exists_openArchive_finset (archives : Directory ArchiveFile) :
    ∃ U : Finset Int, ∀ v archive, openArchive archives v = .ok archive → v ∈ U := by
  have hfinite := (archives.map fun file => lower file.1).finite_toSet.preimage
    (lower_getVersionName_injective.injOn)
  refine ⟨hfinite.toFinset, fun v archive h => ?_⟩
  rw [Set.Finite.mem_toFinset]
  rw [openArchive] at h
  rcases hget : archives.get? (getVersionName v) with _ | found
  · rw [hget] at h
    cases h
  · obtain ⟨file, hfile, hname, -⟩ := Directory.exists_of_get? hget
    exact List.mem_map.mpr ⟨file, hfile, hname⟩

/-! ### What is needed is loaded -/

lemma loadVersion_eq_ok {loaded : VersionForRestore}
    (h : loadVersion archives latestVersionNumber version = .ok loaded) :
    ∃ archive, openArchive archives version = .ok archive ∧
      archive.manifest = .ok loaded.manifest ∧
      (version = latestVersionNumber → archive.baseObjects = .ok loaded.baseObjects) := by
  simp only [loadVersion, bind_eq_ok, pure_eq_ok] at h
  obtain ⟨archive, harchive, manifest, hmanifest, baseObjects, hobjects, rfl⟩ := h
  refine ⟨archive, harchive, hmanifest, fun heq => ?_⟩
  rwa [if_pos heq] at hobjects

/-- One version lists the other among its dependencies. -/
def ListsDependency (archives : Directory ArchiveFile) (v w : Int) : Prop :=
  ∃ archive manifest, openArchive archives v = .ok archive ∧ archive.manifest = .ok manifest ∧
    w ∈ manifest.versionDependencies

/-- A version that can be reached from the newest one through dependencies. -/
def Needed (archives : Directory ArchiveFile) : Int → Int → Prop :=
  Relation.ReflTransGen (ListsDependency archives)

/-- The archive can be opened and its manifest read; for the newest version, its objects, too. -/
def Loadable (archives : Directory ArchiveFile) (latestVersionNumber version : Int) : Prop :=
  ∃ archive manifest, openArchive archives version = .ok archive ∧
    archive.manifest = .ok manifest ∧
    (version = latestVersionNumber → ∃ baseObjects, archive.baseObjects = .ok baseObjects)

/-- What has been loaded is in the archive of the version. -/
def ReadFrom (archives : Directory ArchiveFile) (latestVersionNumber version : Int)
    (loaded : VersionForRestore) : Prop :=
  ∃ archive, openArchive archives version = .ok archive ∧
    archive.manifest = .ok loaded.manifest ∧
    (version = latestVersionNumber → archive.baseObjects = .ok loaded.baseObjects)

/-- The versions whose archives are opened: those that are loaded, and one that cannot be. -/
def opened (outcome : Worklist.Outcome Int VersionForRestore EngineError) : List Int :=
  outcome.loaded.map Prod.fst ++ (outcome.failure.map Prod.fst).toList

lemma loadable_iff : Loadable archives latestVersionNumber version ↔
    ∃ loaded, loadVersion archives latestVersionNumber version = .ok loaded := by
  constructor
  · rintro ⟨archive, manifest, harchive, hmanifest, hobjects⟩
    by_cases heq : version = latestVersionNumber
    · obtain ⟨baseObjects, hbaseObjects⟩ := hobjects heq
      refine ⟨⟨manifest, baseObjects⟩, ?_⟩
      rw [loadVersion, harchive, ok_bind, hmanifest, ok_bind, if_pos heq, hbaseObjects]
      rfl
    · refine ⟨⟨manifest, []⟩, ?_⟩
      rw [loadVersion, harchive, ok_bind, hmanifest, ok_bind, if_neg heq]
      rfl
  · rintro ⟨loaded, hloaded⟩
    obtain ⟨archive, harchive, hmanifest, hobjects⟩ := loadVersion_eq_ok hloaded
    exact ⟨archive, loaded.manifest, harchive, hmanifest,
      fun heq => ⟨loaded.baseObjects, hobjects heq⟩⟩

lemma needed_of_reachable
    (h : Reachable (loadVersion archives latestVersionNumber)
      (fun v => v.manifest.versionDependencies) latestVersionNumber version) :
    Needed archives latestVersionNumber version := by
  induction h with
  | refl => exact .refl
  | tail _ hedge ih =>
    obtain ⟨loaded, hloaded, hw⟩ := hedge
    obtain ⟨archive, harchive, hmanifest, -⟩ := loadVersion_eq_ok hloaded
    exact ih.tail ⟨archive, loaded.manifest, harchive, hmanifest, hw⟩

/-- As long as everything that can be reached can be loaded, what is needed is reached. -/
lemma reachable_of_needed
    (hall : ∀ v, Reachable (loadVersion archives latestVersionNumber)
      (fun v => v.manifest.versionDependencies) latestVersionNumber v →
        Loadable archives latestVersionNumber v)
    (h : Needed archives latestVersionNumber version) :
    Reachable (loadVersion archives latestVersionNumber)
      (fun v => v.manifest.versionDependencies) latestVersionNumber version := by
  induction h with
  | refl => exact .refl
  | @tail v w _ hedge ih =>
    obtain ⟨archive, manifest, harchive, hmanifest, hw⟩ := hedge
    obtain ⟨loaded, hloaded⟩ := loadable_iff.mp (hall v ih)
    obtain ⟨archive', harchive', hmanifest', -⟩ := loadVersion_eq_ok hloaded
    cases harchive.symm.trans harchive'
    cases hmanifest.symm.trans hmanifest'
    exact ih.tail ⟨loaded, hloaded, hw⟩

/-- The loop ends for any dependencies, cyclic ones included. -/
lemma exists_loadVersions (archives : Directory ArchiveFile) (latestVersionNumber : Int) :
    ∃ outcome n, ∀ fuel, n ≤ fuel →
      loadVersions archives latestVersionNumber fuel = some outcome := by
  obtain ⟨U, hU⟩ := exists_openArchive_finset archives
  have hload : ∀ v loaded, loadVersion archives latestVersionNumber v = .ok loaded → v ∈ U := by
    intro v loaded hloaded
    obtain ⟨archive, harchive, -⟩ := loadVersion_eq_ok hloaded
    exact hU v archive harchive
  have hsome := @isSome_explore _ _ _ _ (fun v => v.manifest.versionDependencies) _ U hload _ []
    [latestVersionNumber] (Nat.lt_succ_self _)
  obtain ⟨outcome, houtcome⟩ := Option.isSome_iff_exists.mp hsome
  exact ⟨outcome, _, fun fuel hfuel => explore_of_le houtcome hfuel⟩

/-- No version is opened twice: the one that cannot be loaded has not been loaded before. -/
lemma nodup_opened {outcome : Worklist.Outcome Int VersionForRestore EngineError}
    (h : outcome.Correct (loadVersion archives latestVersionNumber)
      (fun v => v.manifest.versionDependencies) latestVersionNumber) : (opened outcome).Nodup := by
  rw [opened]
  rcases hfailure : outcome.failure with _ | ⟨w, error⟩
  · rw [Option.map_none, Option.toList_none, List.append_nil]
    exact h.nodup
  · rw [Option.map_some, Option.toList_some, List.nodup_append_comm]
    refine List.nodup_cons.mpr ⟨fun hw => ?_, h.nodup⟩
    obtain ⟨p, hp, rfl⟩ := List.mem_map.mp hw
    have herror := (h.failure _ error hfailure).2
    rw [h.load_eq p hp] at herror
    cases herror

lemma needed_of_mem_opened {outcome : Worklist.Outcome Int VersionForRestore EngineError}
    (h : outcome.Correct (loadVersion archives latestVersionNumber)
      (fun v => v.manifest.versionDependencies) latestVersionNumber)
    (hversion : version ∈ opened outcome) : Needed archives latestVersionNumber version := by
  rcases List.mem_append.mp hversion with hloaded | hfailure
  · exact needed_of_reachable (h.reachable version hloaded)
  · obtain ⟨⟨w, error⟩, hw, rfl⟩ := Option.map_eq_some_iff.mp (Option.mem_toList.mp hfailure)
    exact needed_of_reachable (h.failure w error hw).1

/-- The loop that loads the versions ends; it opens no version twice and none that is not needed,
and loads what is in the archives; if all that are needed can be loaded, they all are; and otherwise
restoring fails and the disk stays as it is. -/
theorem loadVersions_spec (env : RestoreEnv) (archives : Directory ArchiveFile) (e : BackupEngine)
    (disk : Disk) {latestVersionNumber : Int}
    (hback : e.versions.getLast? = some latestVersionNumber) :
    ∃ outcome n,
      (∀ fuel, n ≤ fuel → loadVersions archives latestVersionNumber fuel = some outcome) ∧
      (opened outcome).Nodup ∧
      (∀ v ∈ opened outcome, Needed archives latestVersionNumber v) ∧
      (∀ p ∈ outcome.loaded, ReadFrom archives latestVersionNumber p.1 p.2) ∧
      ((∀ v, Needed archives latestVersionNumber v → Loadable archives latestVersionNumber v) →
        outcome.failure = none ∧
        ∀ v, Needed archives latestVersionNumber v → v ∈ outcome.loaded.map Prod.fst) ∧
      ((∃ v, Needed archives latestVersionNumber v ∧ ¬ Loadable archives latestVersionNumber v) →
        ∃ error, ∀ fuel, n ≤ fuel →
          restoreBackup env archives fuel e disk = some (.error (.exception error) disk)) := by
  obtain ⟨outcome, n, hloads⟩ := exists_loadVersions archives latestVersionNumber
  have hcorrect := explore_correct (sound_start latestVersionNumber) (hloads n le_rfl)
  refine ⟨outcome, n, hloads, nodup_opened hcorrect, fun v => needed_of_mem_opened hcorrect,
    fun p hp => loadVersion_eq_ok (hcorrect.load_eq p hp), fun hall => ?_, ?_⟩
  · have hreachable := fun v hv => hall v (needed_of_reachable hv)
    have hnone := hcorrect.failure_eq_none_iff.mpr fun v hv => loadable_iff.mp (hreachable v hv)
    exact ⟨hnone, fun v hv => hcorrect.complete hnone v (reachable_of_needed hreachable hv)⟩
  · rintro ⟨v, hv, hnot⟩
    rcases hfailure : outcome.failure with _ | ⟨w, error⟩
    · have hall := fun v hv => loadable_iff.mpr (hcorrect.failure_eq_none_iff.mp hfailure v hv)
      exact absurd (hall v (reachable_of_needed hall hv)) hnot
    · refine ⟨error, fun fuel hfuel => ?_⟩
      rw [restoreBackup, hback]
      simp only [hloads fuel hfuel, Option.map_some, hfailure]

/-! ### A cycle -/

/-- An engine that has just been constructed. -/
def newEngine (versions : List Int) : BackupEngine where
  versions := versions
  cachedVersionCount := -1
  counters := ⟨1, 1⟩
  baseObjectsSet := false
  baseObjects := []
  oldObjects := []
  oldObjectsDict := []
  heap := []

def manifestWith (versionNumber : Int) (versionDependencies : List Int) : VersionManifest where
  creationTime := 0
  versionNumber := versionNumber
  versionDependencies := versionDependencies
  entryCount := 1
  firstStreamUniqueId := 1
  nextStreamUniqueId := 1
  firstDifferentialChainUniqueId := 1
  nextDifferentialChainUniqueId := 1
  archiveMetadata := none

/-- The objects of a version that has a directory in it. -/
def directoryObjects : List FileSystemTree :=
  [⟨{ type := .directory, name := "D".toList, mappedBasePath := "C:".toList }, .nil⟩]

/-- A version 1 that needs a version 0, and itself. -/
def archivesOver (version0 : ArchiveFile) : Directory ArchiveFile :=
  [(getVersionName 0, version0),
    (getVersionName 1,
      { ArchiveFile.unreadable with
        manifest := .ok (manifestWith 1 [0, 1])
        baseObjects := .ok directoryObjects })]

/-- Two versions that need each other, and one of them itself. -/
def cyclicArchives : Directory ArchiveFile :=
  archivesOver { ArchiveFile.unreadable with manifest := .ok (manifestWith 0 [1]) }

def emptyDisk : Disk := ⟨[], fun _ => [], fun _ _ h => by cases h⟩

/-- The machine on which every path leads to its parts. -/
def plainMachine : RestoreEnv where
  sort := .insertion
  locate := StringUtils.decomposePath
  openLink _ _ := none
  refuses _ _ := false
  maxDepth := 100

lemma needed_cyclicArchives (h : Needed cyclicArchives 1 version) : version = 1 ∨ version = 0 := by
  induction h with
  | refl => exact .inl rfl
  | tail _ hedge ih =>
    obtain ⟨archive, manifest, harchive, hmanifest, hw⟩ := hedge
    rcases ih with rfl | rfl
    all_goals
      cases harchive
      cases hmanifest
      simp only [manifestWith, List.mem_cons, List.not_mem_nil, or_false] at hw
    · exact hw.symm
    · exact .inl hw

lemma loadable_cyclicArchives (h : Needed cyclicArchives 1 version) :
    Loadable cyclicArchives 1 version := by
  rcases needed_cyclicArchives h with rfl | rfl
  · exact ⟨_, _, rfl, rfl, fun _ => ⟨_, rfl⟩⟩
  · exact ⟨_, _, rfl, rfl, fun h => by cases h⟩

lemma listsDependency_archivesOver (version0 : ArchiveFile) :
    ListsDependency (archivesOver version0) 1 0 :=
  ⟨_, manifestWith 1 [0, 1], rfl, rfl, List.mem_cons_self⟩

/-- Both versions are loaded, though they need each other, with the objects of the newest one; and
if the manifest of the older one cannot be read, nothing on the disk changes. -/
theorem loadVersions_spec_cyclicArchives :
    (∃ outcome n version0 version1,
      (∀ fuel, n ≤ fuel → loadVersions cyclicArchives 1 fuel = some outcome) ∧
      outcome.failure = none ∧
      (0, version0) ∈ outcome.loaded ∧ version0.manifest = manifestWith 0 [1] ∧
      (1, version1) ∈ outcome.loaded ∧ version1.manifest = manifestWith 1 [0, 1] ∧
      version1.baseObjects = directoryObjects) ∧
    ∀ disk, ∃ error n, ∀ fuel, n ≤ fuel →
      restoreBackup plainMachine (archivesOver .unreadable) fuel (newEngine [0, 1]) disk =
        some (.error (.exception error) disk) := by
  refine ⟨?_, fun disk => ?_⟩
  · obtain ⟨outcome, n, hloads, -, -, hread, hall, -⟩ :=
      loadVersions_spec plainMachine cyclicArchives (newEngine [0, 1]) emptyDisk rfl
    obtain ⟨hnone, hloaded⟩ := hall fun v hv => loadable_cyclicArchives hv
    have hneeded : Needed cyclicArchives 1 0 := .single (listsDependency_archivesOver _)
    obtain ⟨⟨v, version0⟩, h0, rfl⟩ := List.mem_map.mp (hloaded 0 hneeded)
    obtain ⟨⟨w, version1⟩, h1, rfl⟩ := List.mem_map.mp (hloaded 1 .refl)
    obtain ⟨archive0, hopen0, hmanifest0, -⟩ : ReadFrom cyclicArchives 1 0 version0 := hread _ h0
    obtain ⟨archive1, hopen1, hmanifest1, hobjects1⟩ : ReadFrom cyclicArchives 1 1 version1 :=
      hread _ h1
    cases hopen0
    cases hopen1
    exact ⟨outcome, n, version0, version1, hloads, hnone, h0, (Except.ok.inj hmanifest0).symm, h1,
      (Except.ok.inj hmanifest1).symm, (Except.ok.inj (hobjects1 rfl)).symm⟩
  · obtain ⟨outcome, n, -, -, -, -, -, hfails⟩ :=
      loadVersions_spec plainMachine (archivesOver .unreadable) (newEngine [0, 1]) disk rfl
    have hunreadable : ¬ Loadable (archivesOver .unreadable) 1 0 := by
      rintro ⟨archive, manifest, harchive, hmanifest, -⟩
      cases harchive
      cases hmanifest
    obtain ⟨error, herror⟩ :=
      hfails ⟨0, .single (listsDependency_archivesOver _), hunreadable⟩
    exact ⟨error, n, herror⟩

end BackupProgram
