import BackupProgram.Engine.Archived
import BackupProgram.Engine.VersionNumbers

/-!
# Chains of versions

When every backup is made by an engine of its own, it depends on nothing but what it finds: the file
system, and the archive of the previous version.
-/

namespace BackupProgram

open Results StringUtils TargetDirectory

/-! ### The backup of a new engine -/

namespace BackupCall

variable (call : BackupCall)

/-- The source locations: those of the main objects of the previous version, if there is one. -/
def currentSourceLocations : Option (List FileSystemTree) → List Str
  | none => call.sourceLocations
  | some oldObjects =>
    (oldObjects.filter fun x => x.root.isMain).map fun x => x.root.basePaths.mappedPath

/-- The base objects that are found. -/
def scan (oldObjects : Option (List FileSystemTree)) :
    Except EngineError (List FileSystemTree) := do
  let created ← (call.currentSourceLocations oldObjects).mapM (BackupEngine.createBaseObject call)
  BackupEngine.recalculateFileGuids call created

/-- The newest entry of a key is in front. -/
def oldObjectsDict (oldObjects : List FileSystemTree) : List (Str × FileSystemObject) :=
  (oldObjects.flatMap FileSystemTree.iterate).foldl
    (fun dict x => (simplifyPath call.env.culture x.1.mappedPath, x.2) :: dict) []

/-- The ids of the previous version are copied. -/
def copyStreamUniqueIds : Option (List FileSystemTree) → List FileSystemTree → List FileSystemTree
  | none, baseObjects => baseObjects
  | some oldObjects, baseObjects =>
    baseObjects.map fun t => (FileSystemTree.pathed t).map
      (BackupEngine.copyStreamUniqueId call.env.culture (call.oldObjectsDict oldObjects))

def startCounters : Option VersionArchive → StreamCounters
  | none => ⟨1, 1⟩
  | some archive =>
    ⟨archive.manifest.nextStreamUniqueId, archive.manifest.nextDifferentialChainUniqueId⟩

/-- The objects that the stream generator is given. -/
def baseObjects (previous : Option VersionArchive) : Except EngineError (List FileSystemTree) := do
  let oldObjects := previous.map VersionArchive.getBaseObjects
  let scanned ← call.scan oldObjects
  return call.copyStreamUniqueIds oldObjects scanned

/-- A new version, made from the previous one. -/
def newVersion (n : Int) (previous : Option VersionArchive) :
    Except EngineError GeneratedArchive := do
  let baseObjects ← call.baseObjects previous
  generateArchive call.env call.startTime
    (generatorFor call.env n (previous.map VersionArchive.getBaseObjects)) n []
    (startCounters previous) baseObjects

end BackupCall

namespace BackupEngine

variable {culture : Culture} {targetLocation : Str} {call : BackupCall} {e e' : BackupEngine}
  {dir dir' : TargetDirectory}

/-- An engine that has not made a backup yet. -/
structure Unused (e : BackupEngine) : Prop where
  baseObjectsSet : e.baseObjectsSet = false
  baseObjects : e.baseObjects = []
  oldObjectsDict : e.oldObjectsDict = []
  heap : e.heap = []
  counters : e.counters = ⟨1, 1⟩

lemma Unused.of_new (h : new culture targetLocation dir = .ok e) : e.Unused := by
  simp only [new, bind_eq_ok, pure_eq_ok] at h
  obtain ⟨versions, -, rfl⟩ := h
  exact ⟨rfl, rfl, rfl, rfl, rfl⟩

lemma setBaseObjects_of_unused {e1 : BackupEngine} {oldObjects : Option (List FileSystemTree)}
    (hset : e.baseObjectsSet = false) (hbase : e.baseObjects = [])
    (hlocations : e.getCurrentSourceLocations call = call.currentSourceLocations oldObjects)
    (h : e.setBaseObjects call = .ok e1) :
    ∃ baseObjects, call.scan oldObjects = .ok baseObjects ∧
      e1 = { e with baseObjectsSet := true, baseObjects := baseObjects } := by
  rw [setBaseObjects, hset] at h
  simp only [Bool.false_eq_true, if_false, hlocations, hbase, List.nil_append, bind_eq_ok,
    pure_eq_ok] at h
  obtain ⟨created, hcreated, baseObjects, hguids, rfl⟩ := h
  refine ⟨baseObjects, ?_, rfl⟩
  simp only [BackupCall.scan, bind_eq_ok]
  exact ⟨created, hcreated, hguids⟩

lemma createInitialVersion_of_unused (he : e.Unused) (hzero : e.versionCount = 0)
    (h : e.createInitialVersion call dir = .ok (e', dir')) :
    ∃ r, call.newVersion 0 none = .ok r ∧ dir' = dir.put (getVersionName 0) (some r.archive) := by
  simp only [createInitialVersion, bind_eq_ok] at h
  obtain ⟨e1, hbase, harchive⟩ := h
  have hlocations : e.getCurrentSourceLocations call = call.currentSourceLocations none := by
    rw [getCurrentSourceLocations, if_pos hzero]
    rfl
  obtain ⟨baseObjects, hscan, rfl⟩ :=
    setBaseObjects_of_unused he.baseObjectsSet he.baseObjects hlocations hbase
  obtain ⟨r, hr, -, hdir⟩ := archiveVersion_eq_ok harchive
  refine ⟨r, ?_, hdir⟩
  simp only [BackupCall.newVersion, BackupCall.baseObjects, bind_eq_ok, pure_eq_ok]
  refine ⟨baseObjects, ⟨baseObjects, hscan, rfl⟩, ?_⟩
  have hnumber :
      newVersionNumber { e with baseObjectsSet := true, baseObjects := baseObjects } = 0 := hzero
  rw [hnumber] at hr
  simp only [he.heap, he.counters] at hr
  exact hr

lemma updateExistingVersion_of_unused (he : e.Unused) (hnonzero : e.versionCount ≠ 0)
    (h : e.updateExistingVersion call dir = .ok (e', dir')) :
    ∃ archive r, e.openLatestVersion dir = .ok archive ∧
      call.newVersion e.newVersionNumber (some archive) = .ok r ∧
      dir' = dir.put (getVersionName e.newVersionNumber) (some r.archive) := by
  simp only [updateExistingVersion, bind_eq_ok] at h
  obtain ⟨archive, hopen, e1, hbase, harchive⟩ := h
  generalize he0 : setOldObjectsDict call.env.culture _ = e0 at hbase
  have hcount : e0.versionCount = e.versionCount := by
    rw [← he0]
    rfl
  have hlocations : e0.getCurrentSourceLocations call =
      call.currentSourceLocations (some archive.getBaseObjects) := by
    rw [getCurrentSourceLocations, if_neg (hcount ▸ hnonzero), ← he0]
    rfl
  obtain ⟨baseObjects, hscan, rfl⟩ := setBaseObjects_of_unused
    (by rw [← he0]; exact he.baseObjectsSet) (by rw [← he0]; exact he.baseObjects) hlocations hbase
  obtain ⟨r, hr, -, hdir⟩ := archiveVersion_eq_ok harchive
  refine ⟨archive, r, hopen, ?_, ?_⟩
  · simp only [BackupCall.newVersion, BackupCall.baseObjects, bind_eq_ok, pure_eq_ok]
    refine ⟨_, ⟨baseObjects, hscan, rfl⟩, ?_⟩
    subst he0
    simp only [setOldObjectsDict, he.oldObjectsDict, he.heap] at hr
    exact hr
  · rw [newVersionNumber, ← hcount]
    exact hdir

/-- The previous version is the newest one that the engine has found. -/
def Previous (e : BackupEngine) (dir : TargetDirectory) : Option VersionArchive → Prop
  | none => e.versions = []
  | some archive => ∃ back, e.versions.getLast? = some back ∧
      dir.get? (getVersionName back) = some (some archive)

lemma openLatestVersion_eq_ok {archive : VersionArchive}
    (h : e.openLatestVersion dir = .ok archive) : e.Previous dir (some archive) := by
  rw [openLatestVersion] at h
  split at h
  · simp at h
  rename_i back hlast
  split at h
  · simp at h
  · simp at h
  · rename_i archive' hget
    rw [pure_eq_ok] at h
    exact ⟨back, hlast, h ▸ hget⟩

lemma versionCount_of_getLast? {back : Int} (hcached : e.cachedVersionCount = -1)
    (hlast : e.versions.getLast? = some back) (hnonneg : 0 ≤ back) (hle : back ≤ maxInt) :
    e.versionCount = if back = maxInt then -2 ^ 31 else back + 1 := by
  rw [maxInt] at hle
  rw [versionCount, hcached, if_neg (by omega)]
  simp only [hlast, toInt32]
  split_ifs with hback
  · rw [hback]
    rfl
  · rw [maxInt] at hback
    exact Int.bmod_eq_of_le (by omega) (by omega)

theorem performBackup_of_new (hnew : new culture targetLocation dir = .ok e)
    (h : e.performBackup call dir = .ok (e', dir')) :
    ∃ previous r, e.Previous dir previous ∧ call.newVersion e.newVersionNumber previous = .ok r ∧
      dir' = dir.put (getVersionName e.newVersionNumber) (some r.archive) := by
  obtain ⟨hcached, hversions⟩ := versions_of_new hnew
  have hunused := Unused.of_new hnew
  have hcount : e.cacheVersionCount.versionCount = e.versionCount :=
    versionCount_of_cached rfl (.inr rfl)
  rw [performBackup] at h
  simp only [hcount] at h
  split_ifs at h with hzero
  · obtain ⟨r, hr, hdir⟩ := createInitialVersion_of_unused (e := e.cacheVersionCount)
      ⟨hunused.1, hunused.2, hunused.3, hunused.4, hunused.5⟩ (hcount.trans hzero) h
    have hnone : e.versions = [] := by
      cases hlast : e.versions.getLast? with
      | none => exact List.getLast?_eq_none_iff.mp hlast
      | some back =>
        obtain ⟨hnonneg, hle, -⟩ := getLast_setVersions hversions hlast
        rw [versionCount_of_getLast? hcached hlast hnonneg hle] at hzero
        split_ifs at hzero <;> omega
    rw [newVersionNumber, hzero]
    exact ⟨none, r, hnone, hr, hdir⟩
  · obtain ⟨archive, r, hopen, hr, hdir⟩ := updateExistingVersion_of_unused
      (e := e.cacheVersionCount) ⟨hunused.1, hunused.2, hunused.3, hunused.4, hunused.5⟩
      (hcount ▸ hzero) h
    rw [newVersionNumber, hcount] at hr hdir
    exact ⟨some archive, r, openLatestVersion_eq_ok hopen, hr, hdir⟩

end BackupEngine

/-! ### The objects that are scanned -/

namespace BackupEngine

variable {call : BackupCall}

/-- The objects that the queue is applied to stay where they are. -/
lemma mem_recalculateFileGuids {baseObjects baseObjects' : List FileSystemTree}
    (h : recalculateFileGuids call baseObjects = .ok baseObjects') {t' : FileSystemTree}
    (ht' : t' ∈ baseObjects') {fso' : FileSystemObject} (hfso' : fso' ∈ t'.toList) :
    ∃ t ∈ baseObjects, ∃ fso ∈ t.toList, FileSystemObject.SameConstructed fso' fso := by
  simp only [recalculateFileGuids, bind_eq_ok, pure_eq_ok] at h
  obtain ⟨objects, hobjects, rfl⟩ := h
  have hlength : objects.length = (baseObjects.flatMap RoseTree.toList).length := by
    rw [length_of_mapM hobjects, List.length_flatMap, List.length_flatMap]
    exact congrArg List.sum (List.map_congr_left fun t _ => FileSystemTree.length_iterate t)
  have hmem : fso' ∈ objects := by
    rw [← RoseTree.flatMap_toList_refillAll baseObjects hlength]
    exact List.mem_flatMap_of_mem ht' hfso'
  obtain ⟨o, ho, hrecalculate⟩ := exists_of_mem_mapM hobjects hmem
  obtain ⟨t, ht, ho⟩ := List.mem_flatMap.mp ho
  have hfso : o.2 ∈ t.toList := by
    rw [← FileSystemTree.map_snd_iterate]
    exact List.mem_map_of_mem ho
  refine ⟨t, ht, o.2, hfso, ?_⟩
  rw [recalculateFileGuid] at hrecalculate
  split_ifs at hrecalculate
  · exact (FileSystemObject.setFileSystemGuid_eq_ok hrecalculate).trans rfl
  · rw [pure_eq_ok] at hrecalculate
    exact hrecalculate ▸ rfl

end BackupEngine

namespace BackupCall

variable {call : BackupCall}

/-- What has been scanned has neither streams nor hashes. -/
theorem created_of_baseObjects {previous : Option VersionArchive}
    {baseObjects : List FileSystemTree} (h : call.baseObjects previous = .ok baseObjects) :
    ∀ o ∈ baseObjects.flatMap FileSystemTree.iterate,
      o.2.hashes = [] ∧ o.2.backupStream = none := by
  simp only [BackupCall.baseObjects, bind_eq_ok, pure_eq_ok] at h
  obtain ⟨scanned, hscan, rfl⟩ := h
  have hscanned : ∀ t ∈ scanned, ∀ fso ∈ t.toList, fso.hashes = [] ∧ fso.backupStream = none := by
    simp only [scan, bind_eq_ok] at hscan
    obtain ⟨created, hcreated, hguids⟩ := hscan
    intro t ht fso hfso
    obtain ⟨t0, ht0, fso0, hfso0, hsame⟩ := BackupEngine.mem_recalculateFileGuids hguids ht hfso
    obtain ⟨path, -, hcreate⟩ := exists_of_mem_mapM hcreated ht0
    simp only [BackupEngine.createBaseObject, bind_eq_ok, pure_eq_ok] at hcreate
    obtain ⟨x, hx, rfl⟩ := hcreate
    have hall := FileSystemObject.created_of_create hx
    rw [hsame]
    rcases List.mem_cons.mp hfso0 with rfl | hfso0
    · have hroot := hall x.root List.mem_cons_self
      exact ⟨hroot.hashes, hroot.backupStream⟩
    · have hbelow := hall fso0 (List.mem_cons_of_mem _ hfso0)
      exact ⟨hbelow.hashes, hbelow.backupStream⟩
  intro o ho
  obtain ⟨t, ht, ho⟩ := List.mem_flatMap.mp ho
  have hfso : o.2 ∈ t.toList := by
    rw [← FileSystemTree.map_snd_iterate]
    exact List.mem_map_of_mem ho
  cases previous with
  | none => exact hscanned t ht _ hfso
  | some archive =>
    obtain ⟨t0, ht0, rfl⟩ := List.mem_map.mp ht
    rw [RoseTree.toList_map, List.mem_map] at hfso
    obtain ⟨x, hx, hcopy⟩ := hfso
    have hx2 : x.2 ∈ t0.toList := by
      rw [← FileSystemTree.map_snd_iterate]
      exact List.mem_map_of_mem hx
    have hold := hscanned t0 ht0 x.2 hx2
    rw [← hcopy, BackupEngine.copyStreamUniqueId]
    split <;> exact hold

/-- A new version and the objects it has been made from. -/
theorem newVersion_eq_ok {n : Int} {previous : Option VersionArchive} {r : GeneratedArchive}
    (h : call.newVersion n previous = .ok r) :
    ∃ baseObjects st, call.baseObjects previous = .ok baseObjects ∧
      ArchiveOf call.env n (previous.map VersionArchive.getBaseObjects)
        (startCounters previous).nextStreamUniqueId
        (baseObjects.flatMap FileSystemTree.iterate) st r.archive ∧
      r.heap = st.heap ∧ r.archive.baseObjects ≠ [] ∧
      r.archive.manifest.firstStreamUniqueId = (startCounters previous).nextStreamUniqueId ∧
      r.archive.manifest.nextStreamUniqueId = st.nextStreamUniqueId := by
  simp only [newVersion, bind_eq_ok] at h
  obtain ⟨baseObjects, hbase, hr⟩ := h
  obtain ⟨st, harchive, hheap, hne, hfirst, hnext, -⟩ := generateArchive_eq_ok hr
  exact ⟨baseObjects, st, hbase, harchive, hheap, hne, hfirst, hnext⟩

end BackupCall

/-! ### Chains -/

/-- A version, with what its backup has found. -/
structure Version where
  call : BackupCall
  archive : VersionArchive

/-- The versions of a chain, the oldest one first. -/
inductive VersionChain : List Version → Prop
  | nil : VersionChain []
  | snoc {vs : List Version} {r : GeneratedArchive} (call : BackupCall) (hchain : VersionChain vs)
      (hbackup : call.newVersion vs.length (vs.getLast?.map Version.archive) = .ok r) :
      VersionChain (vs ++ [⟨call, r.archive⟩])

/-- What the backup of a version has found in the way of former versions. -/
def previousVersion (vs : List Version) (n : Nat) : Option VersionArchive :=
  (vs.take n).getLast?.map Version.archive

lemma VersionChain.newVersion_eq_ok {vs : List Version} (h : VersionChain vs) {n : Nat}
    {v : Version} (hv : vs[n]? = some v) :
    ∃ r, v.call.newVersion n (previousVersion vs n) = .ok r ∧ r.archive = v.archive := by
  induction h with
  | nil => simp at hv
  | @snoc vs r call hchain hbackup ih =>
    have hle : n ≤ vs.length := by
      have := (List.getElem?_eq_some_iff.mp hv).1
      simp at this
      omega
    rw [previousVersion, List.take_append_of_le_length hle]
    rcases hle.lt_or_eq with hlt | rfl
    · rw [List.getElem?_append_left hlt] at hv
      exact ih hv
    · rw [List.getElem?_concat_length, Option.some.injEq] at hv
      subst hv
      rw [List.take_length]
      exact ⟨r, hbackup, rfl⟩

lemma previousVersion_succ {vs : List Version} {n : Nat} {v : Version} (hv : vs[n]? = some v) :
    previousVersion vs (n + 1) = some v.archive := by
  rw [previousVersion, List.take_add_one, hv]
  simp

lemma previousVersion_eq_some {vs : List Version} {n : Nat} {v : Version} {a : VersionArchive}
    (hv : vs[n]? = some v) (h : previousVersion vs n = some a) :
    ∃ m w, n = m + 1 ∧ vs[m]? = some w ∧ a = w.archive := by
  cases n with
  | zero => simp [previousVersion] at h
  | succ m =>
    have hm : m < vs.length := by
      have := (List.getElem?_eq_some_iff.mp hv).1
      omega
    have hw := List.getElem?_eq_getElem hm
    rw [previousVersion_succ hw, Option.some.injEq] at h
    exact ⟨m, vs[m], rfl, hw, h.symm⟩

/-- Successful backups, each by an engine of its own, in a directory that has no versions at first
and none is found in. The culture stays the same. If the next number is not one of an `int`, the
file that is written is not found again. -/
inductive FreshBackups (culture : Culture) (targetLocation : Str) :
    List Version → TargetDirectory → Prop
  | start (dir : TargetDirectory) (hculture : culture.KeepsNames) (hfree : ∀ k, ¬ HasVersion dir k)
      (hnone : setVersions culture targetLocation dir = .ok []) :
      FreshBackups culture targetLocation [] dir
  | backup {vs : List Version} {dir dir' : TargetDirectory} {e e' : BackupEngine}
      {archive : VersionArchive} (call : BackupCall)
      (hruns : FreshBackups culture targetLocation vs dir)
      (hnew : BackupEngine.new culture targetLocation dir = .ok e)
      (hbackup : e.performBackup call dir = .ok (e', dir'))
      (harchive : dir'.get? (getVersionName e.newVersionNumber) = some (some archive)) :
      FreshBackups culture targetLocation
        (if 0 ≤ e.newVersionNumber then vs ++ [⟨call, archive⟩] else vs) dir'

/-- The directory of a chain has its versions under their exact names, and no other versions are
found there. -/
structure HasChain (culture : Culture) (targetLocation : Str) (vs : List Version)
    (dir : TargetDirectory) : Prop where
  keepsNames : culture.KeepsNames
  chain : VersionChain vs
  present : ∀ (k : Nat) (v : Version), vs[k]? = some v →
    dir.get? (getVersionName k) = some (some v.archive)
  named : ∀ k < vs.length, getVersionName k ∈ dir.map Prod.fst
  free : ∀ k, HasVersion dir k → k < vs.length
  found : ∀ versions, setVersions culture targetLocation dir = .ok versions →
    ∀ k ∈ versions, k < vs.length

section HasChain

variable {culture : Culture} {targetLocation : Str} {vs : List Version} {dir : TargetDirectory}

/-- A file is created under the name that it is given, or else it keeps its own. -/
lemma mem_put {name : Str} {file : Option VersionArchive} {x : Str × Option VersionArchive}
    (hx : x ∈ Directory.put dir name file) :
    x.1 ∈ dir.map Prod.fst ∨ x.1 = name := by
  rw [Directory.put] at hx
  split_ifs at hx
  · obtain ⟨x0, hx0, rfl⟩ := List.mem_map.mp hx
    refine .inl (List.mem_map.mpr ⟨x0, hx0, ?_⟩)
    split_ifs <;> rfl
  · rcases List.mem_append.mp hx with hx | hx
    · exact .inl (List.mem_map_of_mem hx)
    · exact .inr (by rw [List.mem_singleton.mp hx])

lemma mem_names_put {name : Str} (other : Str) (file : Option VersionArchive)
    (h : name ∈ dir.map Prod.fst) : name ∈ (Directory.put dir other file).map Prod.fst := by
  obtain ⟨x, hx, rfl⟩ := List.mem_map.mp h
  rw [Directory.put]
  split_ifs
  · refine List.mem_map.mpr ⟨_, List.mem_map_of_mem hx, ?_⟩
    split_ifs <;> rfl
  · exact List.mem_map_of_mem (List.mem_append_left _ hx)

lemma mem_names_put_self {name : Str} (file : Option VersionArchive) (h : dir.get? name = none) :
    name ∈ (Directory.put dir name file).map Prod.fst := by
  rw [Directory.put, if_neg (by rw [h]; decide), List.map_append]
  exact List.mem_append_right _ List.mem_cons_self

/-- What is found after a file has been written was found before, or is the version of this file. -/
lemma mem_setVersions_put {name : Str} {file : Option VersionArchive}
    {versions versions' : List Int}
    (h : setVersions culture targetLocation dir = .ok versions)
    (h' : setVersions culture targetLocation (dir.put name file) = .ok versions') {k : Int}
    (hk : k ∈ versions') : k ∈ versions ∨ readVersion culture targetLocation name = some k := by
  obtain ⟨x, hx, hread⟩ := (mem_setVersions_iff h').mp hk
  rcases mem_put hx with hname | hname
  · obtain ⟨x0, hx0, hname⟩ := List.mem_map.mp hname
    exact .inl ((mem_setVersions_iff h).mpr ⟨x0, hx0, hname ▸ hread⟩)
  · exact .inr (hname ▸ hread)

/-- The last version of a chain is the newest one that is found. -/
lemma HasChain.getLast? (h : HasChain culture targetLocation vs dir) {versions : List Int}
    (hversions : setVersions culture targetLocation dir = .ok versions) :
    versions.getLast? = vs.getLast?.map fun _ => (vs.length : Int) - 1 := by
  cases hlast : vs.getLast? with
  | none =>
    rw [List.getLast?_eq_none_iff] at hlast
    subst hlast
    rw [Option.map_none, List.getLast?_eq_none_iff, List.eq_nil_iff_forall_not_mem]
    intro k hk
    obtain ⟨back, hback⟩ := Option.ne_none_iff_exists'.mp
      (mt List.getLast?_eq_none_iff.mp (List.ne_nil_of_mem hk))
    have hlt := h.found versions hversions back (List.mem_of_getLast? hback)
    have hnonneg := (getLast_setVersions hversions hback).1
    simp at hlt
    omega
  | some v =>
    have hlength : 0 < vs.length := List.length_pos_of_mem (List.mem_of_getLast? hlast)
    have hmem := mem_setVersions h.keepsNames hversions (Int.natCast_nonneg _)
      (h.named (vs.length - 1) (by omega))
    obtain ⟨back, hback⟩ := Option.ne_none_iff_exists'.mp
      (mt List.getLast?_eq_none_iff.mp (List.ne_nil_of_mem hmem))
    have hle := (getLast_setVersions hversions hback).2.2 _ hmem
    have hlt := h.found versions hversions back (List.mem_of_getLast? hback)
    rw [hback, Option.map_some, Option.some.injEq]
    omega

/-- A new engine continues the chain. -/
lemma HasChain.of_new {e : BackupEngine} {previous : Option VersionArchive}
    (h : HasChain culture targetLocation vs dir)
    (hnew : BackupEngine.new culture targetLocation dir = .ok e)
    (hprevious : e.Previous dir previous) :
    previous = vs.getLast?.map Version.archive ∧
      (e.newVersionNumber = vs.length ∨ e.newVersionNumber < 0 ∧
      (vs.length : Int) = maxInt + 1) := by
  obtain ⟨hcached, hversions⟩ := BackupEngine.versions_of_new hnew
  have hback := h.getLast? hversions
  cases hlast : vs.getLast? with
  | none =>
    rw [hlast, Option.map_none] at hback
    rw [List.getLast?_eq_none_iff] at hlast
    refine ⟨?_, .inl ?_⟩
    · cases previous with
      | none => rfl
      | some archive =>
        obtain ⟨back, hsome, -⟩ := hprevious
        simp [hback] at hsome
    · rw [BackupEngine.newVersionNumber, BackupEngine.versionCount, hcached, hback, hlast]
      rfl
  | some v =>
    rw [hlast, Option.map_some] at hback
    obtain ⟨hnonneg, hle, -⟩ := getLast_setVersions hversions hback
    constructor
    · cases previous with
      | none =>
        have hnil : e.versions = [] := hprevious
        simp [hnil] at hback
      | some archive =>
        obtain ⟨back, hsome, hget⟩ := hprevious
        rw [hback, Option.some.injEq] at hsome
        rw [List.getLast?_eq_getElem?] at hlast
        have hpresent := h.present _ v hlast
        have hindex : back = ((vs.length - 1 : Nat) : Int) := by omega
        rw [hindex, hpresent, Option.some.injEq] at hget
        rw [Option.map_some, Option.some.inj hget]
    · rw [BackupEngine.newVersionNumber,
        BackupEngine.versionCount_of_getLast? hcached hback hnonneg hle]
      split_ifs with hmax
      · exact .inr ⟨by decide, by omega⟩
      · exact .inl (by omega)

theorem FreshBackups.hasChain (h : FreshBackups culture targetLocation vs dir) :
    HasChain culture targetLocation vs dir := by
  induction h with
  | start dir hculture hfree hnone =>
    refine ⟨hculture, .nil, fun k v hv => by simp at hv, fun k hk => by simp at hk,
      fun k hk => absurd hk (hfree k), fun versions hversions k hk => ?_⟩
    rw [hnone, Except.ok.injEq] at hversions
    simp [← hversions] at hk
  | @backup vs dir dir' e e' archive call hruns hnew hbackup harchive ih =>
    obtain ⟨previous, r, hprevious, hr, rfl⟩ := BackupEngine.performBackup_of_new hnew hbackup
    have hversions := (BackupEngine.versions_of_new hnew).2
    obtain ⟨rfl, hnumber⟩ := ih.of_new hnew hprevious
    rw [Directory.get?_put_self, Option.some.injEq, Option.some.injEq] at harchive
    subst harchive
    rcases hnumber with hnumber | ⟨hnegative, hlength⟩
    · rw [if_pos (by omega), hnumber]
      rw [hnumber] at hr
      refine ⟨ih.keepsNames, .snoc call ih.chain hr, fun k v hv => ?_, fun k hk => ?_,
        fun k hk => ?_, fun versions' hversions' k hk => ?_⟩
      · rcases Nat.lt_or_ge k vs.length with hlt | hge
        · rw [List.getElem?_append_left hlt] at hv
          rw [get?_put_version dir (Int.natCast_nonneg k) (by omega)]
          exact ih.present k v hv
        · have hk : k = vs.length := by
            have := (List.getElem?_eq_some_iff.mp hv).1
            simp at this
            omega
          rw [hk, List.getElem?_concat_length, Option.some.injEq] at hv
          rw [hk, Directory.get?_put_self, ← hv]
      · rw [List.length_append, List.length_singleton] at hk
        rcases Nat.lt_or_ge k vs.length with hlt | hge
        · exact mem_names_put _ _ (ih.named k hlt)
        · -- the place of the version is free, so that the file gets its exact name
          have hk : k = vs.length := by omega
          have hfree : dir.get? (getVersionName vs.length) = none := by
            by_contra hget
            exact lt_irrefl _ (ih.free vs.length
              ⟨Int.natCast_nonneg _, Option.isSome_iff_ne_none.mpr hget⟩)
          rw [hk]
          exact mem_names_put_self _ hfree
      · rw [List.length_append, List.length_singleton]
        rcases (hasVersion_put_iff dir (Int.natCast_nonneg vs.length) _).mp hk with rfl | hk
        · omega
        · have := ih.free k hk
          omega
      · rw [List.length_append, List.length_singleton]
        rcases mem_setVersions_put hversions hversions' hk with hk | hread
        · have := ih.found e.versions hversions k hk
          omega
        · rw [readVersion_version ih.keepsNames _ (Int.natCast_nonneg vs.length),
            Option.some.injEq] at hread
          omega
    · rw [if_neg (by omega)]
      refine ⟨ih.keepsNames, ih.chain, fun k v hv => ?_,
        fun k hk => mem_names_put _ _ (ih.named k hk), fun k hk => ?_, fun versions' hversions' k hk => ?_⟩
      · rw [get?_put_version dir (Int.natCast_nonneg k) (by omega)]
        exact ih.present k v hv
      · obtain ⟨hnonneg, hget⟩ := hk
        rw [get?_put_version dir hnonneg (by omega)] at hget
        exact ih.free k ⟨hnonneg, hget⟩
      · obtain ⟨back, hback⟩ := Option.ne_none_iff_exists'.mp
          (mt List.getLast?_eq_none_iff.mp (List.ne_nil_of_mem hk))
        obtain ⟨-, hle, hlargest⟩ := getLast_setVersions hversions' hback
        have := hlargest k hk
        omega

/-- Nothing is found in an empty directory. -/
lemma FreshBackups.nil (targetLocation : Str) : FreshBackups .ordinal targetLocation [] [] :=
  .start [] Culture.keepsNames_ordinal not_hasVersion_nil rfl

end HasChain

/-! ### The versions that objects refer to -/

/-- What a reader gets was archived. -/
lemma VersionArchive.mem_getBaseObjects {a : VersionArchive} {t : FileSystemTree}
    {f : FileSystemObject} (ht : t ∈ a.getBaseObjects) (hf : f ∈ t.toList) :
    ∃ o ∈ a.objects, f = o.2.stored := by
  obtain ⟨t0, ht0, rfl⟩ := List.mem_map.mp ht
  rw [RoseTree.toList_map, ← FileSystemTree.map_snd_iterate, List.map_map] at hf
  obtain ⟨o, ho, rfl⟩ := List.mem_map.mp hf
  exact ⟨o, List.mem_flatMap_of_mem ht0 ho, rfl⟩

lemma Chosen.latestVersion_le {env : BackupEnv} {n : Int} {old : Option (List FileSystemTree)}
    {o : PathedObject} {fso : FileSystemObject} {data : StreamData}
    (h : Chosen env n old o fso data)
    (hold : ∀ oldObjects, old = some oldObjects → ∀ t ∈ oldObjects, ∀ f ∈ t.toList,
      f.latestVersion ≤ n) : fso.latestVersion ≤ n := by
  cases h with
  | initial hversion | forced _ hversion | changed _ _ hversion | declared _ _ hversion =>
    exact hversion.le
  | unchanged hmode hchanged hversion =>
    obtain ⟨-, oldFile, hfind, rfl⟩ := (fileHasChanged_eq_ok hchanged).2.2 rfl
    obtain ⟨t, ht, hfile⟩ := mem_of_findPath hfind
    exact hversion ▸ hold _ rfl t ht oldFile hfile

/-- No object refers to a version that does not exist yet. -/
lemma Generation.latestVersion_le {env : BackupEnv} {n : Int} {old : Option (List FileSystemTree)}
    {firstId : Nat} {os : List PathedObject} {st : GenerateState}
    (h : Generation env n old firstId os st) (hn : 0 ≤ n)
    (hold : ∀ oldObjects, old = some oldObjects → ∀ t ∈ oldObjects, ∀ f ∈ t.toList,
      f.latestVersion ≤ n) {i : Nat} {o : PathedObject} {f : FileSystemObject}
    (ho : os[i]? = some o) (hf : st.objects[i]? = some f) : f.latestVersion ≤ n := by
  induction i using Nat.strong_induction_on generalizing o f with
  | _ i ih =>
    cases h.outcome i o f ho hf with
    | excluded _ _ _ hobject =>
      have hversion : f.latestVersion = -1 := by rw [hobject]
      omega
    | stray _ _ _ _ hobject => rw [hobject]
    | peer _ hk hok _ _ _ _ hfk _ hobject =>
      have hle := ih _ hk hok hfk
      rwa [hobject]
    | first _ _ _ _ _ _ hchosen _ hobject =>
      rw [hobject]
      exact hchosen.latestVersion_le hold

theorem VersionChain.latestVersion_le {vs : List Version} (h : VersionChain vs) {n : Nat}
    {v : Version} (hv : vs[n]? = some v) : ∀ o ∈ v.archive.objects, o.2.latestVersion ≤ n := by
  induction n using Nat.strong_induction_on generalizing v with
  | _ n ih =>
    obtain ⟨r, hr, hv'⟩ := h.newVersion_eq_ok hv
    obtain ⟨baseObjects, st, -, harchive, -⟩ := BackupCall.newVersion_eq_ok hr
    rw [hv'] at harchive
    have hold : ∀ oldObjects, (previousVersion vs n).map VersionArchive.getBaseObjects =
        some oldObjects → ∀ t ∈ oldObjects, ∀ f ∈ t.toList, f.latestVersion ≤ n := by
      intro oldObjects hprevious t ht f hf
      obtain ⟨a, ha, rfl⟩ := Option.map_eq_some_iff.mp hprevious
      obtain ⟨m, w, hm, hw, rfl⟩ := previousVersion_eq_some hv ha
      obtain ⟨o, ho, rfl⟩ := VersionArchive.mem_getBaseObjects ht hf
      have hle := ih m (by omega) hw o ho
      show o.2.latestVersion ≤ n
      omega
    intro g hg
    obtain ⟨i, hg⟩ := List.mem_iff_getElem?.mp hg
    obtain ⟨o, f, ho, hf⟩ := harchive.exists_getElem hg
    rw [(harchive.objects i f g hf hg).latestVersion]
    exact harchive.generation.latestVersion_le (Int.natCast_nonneg n) hold ho hf

/-! ### A directory with one file -/

/-- A backup of source locations where there is a directory `C:\d` with one file `f`. -/
def fileBackup (sourceLocations : List Str) : BackupCall where
  env := .plain
    { lookup := fun path =>
        if path = ['C', ':', '\\', 'd'] then
          some ⟨{ name := ['d'], type := some .directory },
            .cons { name := ['f'], type := some .regularFile, size := some 1, guid := .found 7 }
              .nil .nil⟩
        else if path = ['C', ':', '\\', 'd', '\\', 'f'] then
          some ⟨{ name := ['f'], type := some .regularFile, size := some 1, guid := .found 7 },
            .nil⟩
        else none
      getFileGuid := fun _ => .failed
      readFile := fun path => if path = ['C', ':', '\\', 'd', '\\', 'f'] then some [1] else none }
    fun o => if o.2.isDirectoryish then .directory else .full
  sourceLocations := sourceLocations
  shadows := none
  startTime := 0
  writeError := none

/-- A new engine in a directory where some versions are found. -/
def engineOf (versions : List Int) : BackupEngine where
  versions := versions
  cachedVersionCount := -1
  counters := ⟨1, 1⟩
  baseObjectsSet := false
  baseObjects := []
  oldObjects := []
  oldObjectsDict := []
  heap := []

/-- Two backups of the directory, between which nothing changes. -/
lemma exists_freshBackups_directory : ∃ r1 r2,
    (fileBackup [['C', ':', '\\', 'd']]).newVersion 0 none = .ok r1 ∧
      (fileBackup [['C', ':', '\\', 'd']]).newVersion 1 (some r1.archive) = .ok r2 ∧
      FreshBackups .ordinal ['T'] [⟨fileBackup [['C', ':', '\\', 'd']], r1.archive⟩]
        [(getVersionName 0, some r1.archive)] ∧
      FreshBackups .ordinal ['T'] [⟨fileBackup [['C', ':', '\\', 'd']], r1.archive⟩,
        ⟨fileBackup [['C', ':', '\\', 'd']], r2.archive⟩]
        [(getVersionName 0, some r1.archive), (getVersionName 1, some r2.archive)] := by
  obtain ⟨e1, e2, r1, r2, hr1, hr2, hbackup1, hbackup2⟩ : ∃ e1 e2 r1 r2,
      (fileBackup [['C', ':', '\\', 'd']]).newVersion 0 none = .ok r1 ∧
      (fileBackup [['C', ':', '\\', 'd']]).newVersion 1 (some r1.archive) = .ok r2 ∧
      (engineOf []).performBackup (fileBackup [['C', ':', '\\', 'd']]) [] =
        .ok (e1, [(getVersionName 0, some r1.archive)]) ∧
      (engineOf [0]).performBackup (fileBackup [['C', ':', '\\', 'd']])
          [(getVersionName 0, some r1.archive)] =
        .ok (e2, [(getVersionName 0, some r1.archive), (getVersionName 1, some r2.archive)]) :=
    ⟨_, _, _, _, rfl, rfl, rfl, rfl⟩
  have hfirst : FreshBackups .ordinal ['T'] [⟨fileBackup [['C', ':', '\\', 'd']], r1.archive⟩]
      [(getVersionName 0, some r1.archive)] :=
    .backup (e := engineOf []) _ (.nil _) rfl hbackup1 rfl
  refine ⟨r1, r2, hr1, hr2, hfirst, ?_⟩
  exact .backup (e := engineOf [0]) _ hfirst rfl hbackup2 rfl

end BackupProgram
