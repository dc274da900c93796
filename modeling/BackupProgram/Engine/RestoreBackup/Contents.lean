import BackupProgram.Engine.RestoreBackup.Loading
import BackupProgram.Engine.RestoreBackup.Streams

/-!
# What the files contain after a restore

A file ends with the last of the streams that go to it. Among these are its own stream and all those
with an id between the one of the file and the next lower one that is restored, whether an object
still refers to them or not.
-/

namespace BackupProgram

/-! ### What is stored -/

/-- The streams of an archive with their bytes. -/
def storedStreams : List Nat → List Int → List Byte → List (Nat × List Byte)
  | id :: streamIds, size :: streamSizes, data =>
    (id, data.take size.toNat) :: storedStreams streamIds streamSizes (data.drop size.toNat)
  | _, _, _ => []

/-- The bytes that are stored under an id in the archive of a version. -/
def storedBytes (archives : Directory ArchiveFile) (version : Int) (id : Nat) :
    Option (List Byte) :=
  match openArchive archives version with
  | .error _ => none
  | .ok archive =>
    archive.data.bind fun data =>
      (storedStreams archive.streamIds archive.streamSizes data).lookup id

/-- A file of which some version contains the bytes. -/
def hasContents (o : PathedObject) : Bool := o.2.streamRequired && decide (0 ≤ o.2.latestVersion)

def VersionForRestore.objects (v : VersionForRestore) : List PathedObject :=
  v.baseObjects.flatMap FileSystemTree.iterate

/-- The newest version lists all versions that its files are stored in, and they are stored there;
no id is used twice. The objects have different locations, and hard links no targets. -/
structure Restorable (env : RestoreEnv) (archives : Directory ArchiveFile)
    (latestVersionNumber : Int) (latestVersion : VersionForRestore) : Prop where
  stored : ∀ o ∈ latestVersion.objects, hasContents o = true →
    (storedBytes archives o.2.latestVersion o.2.streamUniqueId).isSome
  listed : ∀ o ∈ latestVersion.objects, hasContents o = true →
    o.2.latestVersion = latestVersionNumber ∨
      o.2.latestVersion ∈ latestVersion.manifest.versionDependencies
  nodup : ∀ v archive, openArchive archives v = .ok archive → archive.streamIds.Nodup
  unique : ∀ v w archive archive', openArchive archives v = .ok archive →
    openArchive archives w = .ok archive' →
    ∀ id ∈ archive.streamIds, id ∈ archive'.streamIds → v = w
  locations : (latestVersion.objects.map (location env)).Nodup
  targets : ∀ o ∈ latestVersion.objects, o.2.type = .fileHardlink → o.2.target = none

/-- Every file contains what is stored for it, and the names of one file are restored as such. -/
structure ContentsRestored (env : RestoreEnv) (archives : Directory ArchiveFile)
    (objects : List PathedObject) (d : Disk) : Prop where
  contents : ∀ o ∈ objects, hasContents o = true →
    d.read? (location env o) = storedBytes archives o.2.latestVersion o.2.streamUniqueId
  peers : ∀ o ∈ objects, ∀ o' ∈ objects, hasContents o = true → hasContents o' = true →
    o.2.streamUniqueId = o'.2.streamUniqueId → d.get? (location env o) = d.get? (location env o')

/-! ### Which stream is the last -/

/-- The ids of the streams that files are restored from. -/
def restoredIds (objects : List PathedObject) : List Nat :=
  (objects.filter hasContents).map fun o => o.2.streamUniqueId

/-- The least id that is restored and not below the given one. -/
def nextRestored (ids : List Nat) (id : Nat) : Option Nat :=
  (ids.filter fun restored => decide (id ≤ restored)).min?

/-- The streams of an archive as they go by. One that is above all ids is not read, so that the next
one begins where it does. -/
def passingStreams (ids : List Nat) : List Nat → List Int → List Byte → List (Nat × List Byte)
  | id :: streamIds, size :: streamSizes, data =>
    (id, data.take size.toNat) ::
      passingStreams ids streamIds streamSizes
        (if (nextRestored ids id).isSome then data.drop size.toNat else data)
  | _, _, _ => []

/-- All streams, version by version. -/
def replayedStreams (archives : Directory ArchiveFile) (ids : List Nat) (versions : List Int) :
    List (Nat × List Byte) :=
  versions.flatMap fun version =>
    match openArchive archives version with
    | .error _ => []
    | .ok archive => passingStreams ids archive.streamIds archive.streamSizes (archive.data.getD [])

/-- The last stream with an id up to the given one and above the next lower one that is restored. -/
def lastStream (ids : List Nat) (streams : List (Nat × List Byte)) (id : Nat) :
    Option (List Byte) :=
  ((streams.filter fun stream => nextRestored ids stream.1 = some id).getLast?).map Prod.snd

/-- The last of these streams is, for every file, the one that is stored for it, or equal to it. -/
def OwnStreamsLast (archives : Directory ArchiveFile) (latestVersionNumber : Int)
    (latestVersion : VersionForRestore) : Prop :=
  let ids := restoredIds latestVersion.objects
  let streams := replayedStreams archives ids
    (latestVersionNumber :: latestVersion.manifest.versionDependencies)
  ∀ o ∈ latestVersion.objects, hasContents o = true →
    lastStream ids streams o.2.streamUniqueId =
      storedBytes archives o.2.latestVersion o.2.streamUniqueId

/-! ### The search and the next id -/

variable {env : RestoreEnv} {archives : Directory ArchiveFile} {d d' : Disk} {ids : List Nat}
  {restoreLater : List Deferred} {x : Deferred} {id m : Nat}

lemma nextRestored_eq_some_iff :
    nextRestored ids id = some m ↔ (m ∈ ids ∧ id ≤ m) ∧ ∀ k ∈ ids, id ≤ k → m ≤ k := by
  simp [nextRestored, List.min?_eq_some_iff]

lemma nextRestored_eq_none_iff : nextRestored ids id = none ↔ ∀ k ∈ ids, k < id := by
  simp [nextRestored]

/-- The list is sorted and contains the objects with these ids. -/
structure Arranges (restoreLater : List Deferred) (ids : List Nat) : Prop where
  sorted : Sorted restoreLater
  mem_iff : ∀ id, id ∈ ids ↔ ∃ x ∈ restoreLater, x.streamUniqueId = id

lemma Arranges.goesTo (h : Arranges restoreLater ids) (id : Nat) :
    (goesTo restoreLater id).map Deferred.streamUniqueId = nextRestored ids id := by
  rcases hx : BackupProgram.goesTo restoreLater id with _ | x
  · symm
    rw [Option.map_none, nextRestored_eq_none_iff]
    intro k hk
    obtain ⟨y, hy, rfl⟩ := (h.mem_iff k).mp hk
    by_contra hle
    obtain ⟨x, hsome⟩ := goesTo_of_mem hy (not_lt.mp hle)
    rw [hx] at hsome
    cases hsome
  · symm
    obtain ⟨hmem, hle⟩ := mem_of_goesTo hx
    rw [Option.map_some, nextRestored_eq_some_iff]
    refine ⟨⟨(h.mem_iff _).mpr ⟨x, hmem, rfl⟩, hle⟩, fun k hk hid => ?_⟩
    obtain ⟨y, hy, rfl⟩ := (h.mem_iff k).mp hk
    exact goesTo_le h.sorted hx hy hid

lemma Arranges.streamTaken (h : Arranges restoreLater ids) (id : Nat) (stream : List Byte) :
    streamTaken restoreLater id stream =
      if (nextRestored ids id).isSome then stream.length else 0 := by
  rw [BackupProgram.streamTaken, h.sorted.binaryFindFirst_eq, ← h.goesTo, Option.isSome_map]
  refine if_congr ?_ rfl rfl
  rw [BackupProgram.goesTo, List.find?_isSome, List.findIdx_lt_length]

lemma Arranges.handed (h : Arranges restoreLater ids) (streamIds : List Nat)
    (streamSizes : List Int) (data : List Byte) :
    handed restoreLater streamIds streamSizes data =
      passingStreams ids streamIds streamSizes data := by
  induction streamIds generalizing streamSizes data with
  | nil => rfl
  | cons id streamIds ih =>
    cases streamSizes with
    | nil => rfl
    | cons size streamSizes =>
      rw [BackupProgram.handed, passingStreams, ih, h.streamTaken]
      congr 2
      split_ifs
      · rw [List.length_take]
        rcases le_total size.toNat data.length with hle | hle
        · rw [min_eq_left hle]
        · rw [min_eq_right hle, List.drop_length, List.drop_eq_nil_of_le hle]
      · rfl

lemma Arranges.handedOfVersion (h : Arranges restoreLater ids) (versions : List Int) :
    versions.flatMap (handedOfVersion archives restoreLater) =
      replayedStreams archives ids versions := by
  refine congrArg (List.flatMap · versions) (funext fun version => ?_)
  rw [BackupProgram.handedOfVersion]
  rcases openArchive archives version with _ | archive
  · rfl
  · exact h.handed _ _ _

lemma Arranges.given (h : Arranges restoreLater ids) (events : List (Nat × List Byte)) (id : Nat) :
    given restoreLater events id = lastStream ids events id := by
  simp only [BackupProgram.given, lastStream, h.goesTo]

/-! ### A run -/

/-- What is stored under an id goes by. -/
lemma mem_passingStreams {streamIds : List Nat} {streamSizes : List Int} {data data' : List Byte}
    (h : ((storedStreams streamIds streamSizes data).lookup id).isSome) :
    ∃ bytes, (id, bytes) ∈ passingStreams ids streamIds streamSizes data' := by
  induction streamIds generalizing streamSizes data data' with
  | nil => cases h
  | cons id' streamIds ih =>
    cases streamSizes with
    | nil => cases h
    | cons size streamSizes =>
      rw [passingStreams]
      rw [storedStreams, List.lookup_cons] at h
      cases heq : id == id' with
      | true =>
        obtain rfl := eq_of_beq heq
        exact ⟨_, List.mem_cons_self⟩
      | false =>
        rw [heq] at h
        obtain ⟨bytes, hbytes⟩ := ih h
        exact ⟨bytes, List.mem_cons_of_mem _ hbytes⟩

lemma mem_replayedStreams {versions : List Int} {version : Int} (hversion : version ∈ versions)
    (h : (storedBytes archives version id).isSome) :
    ∃ bytes, (id, bytes) ∈ replayedStreams archives ids versions := by
  rw [storedBytes] at h
  rcases hopen : openArchive archives version with _ | archive
  · rw [hopen] at h
    cases h
  rcases hdata : archive.data with _ | data
  · simp only [hopen, hdata] at h
    cases h
  simp only [hopen, hdata, Option.bind_some] at h
  have hpassing : ∃ bytes, (id, bytes) ∈
      passingStreams ids archive.streamIds archive.streamSizes data := mem_passingStreams h
  obtain ⟨bytes, hbytes⟩ := hpassing
  refine ⟨bytes, List.mem_flatMap.mpr ⟨version, hversion, ?_⟩⟩
  simpa only [hopen, hdata, Option.getD_some] using hbytes

lemma isDeferred_eq_hasContents {o : PathedObject}
    (htarget : o.2.type = .fileHardlink → o.2.target = none) : isDeferred o = hasContents o := by
  rw [isDeferred, hasContents]
  congr 1
  rw [needsStream, FileSystemObject.streamRequired]
  by_cases htype : o.2.type = .fileHardlink
  · simp [htype, htarget htype]
  · simp [htype]

lemma mem_deferred {place : Nat} {objects : List PathedObject} :
    x ∈ deferred place objects ↔
      (x.object, x.place) ∈ objects.zipIdx place ∧ isDeferred x.object = true := by
  rw [deferred, List.mem_map]
  constructor
  · rintro ⟨o, ho, rfl⟩
    exact List.mem_filter.mp ho
  · intro h
    exact ⟨(x.object, x.place), List.mem_filter.mpr h, rfl⟩

lemma object_mem_of_deferred {place : Nat} {objects : List PathedObject}
    (h : x ∈ deferred place objects) : x.object ∈ objects ∧ isDeferred x.object = true :=
  ⟨List.fst_mem_of_mem_zipIdx (mem_deferred.mp h).1, (mem_deferred.mp h).2⟩

lemma exists_deferred (place : Nat) {objects : List PathedObject} {o : PathedObject}
    (ho : o ∈ objects) (hdeferred : isDeferred o = true) :
    ∃ x ∈ deferred place objects, x.object = o := by
  obtain ⟨i, hi, rfl⟩ := List.getElem_of_mem ho
  refine ⟨⟨place + i, objects[i]⟩, mem_deferred.mpr ⟨?_, hdeferred⟩, rfl⟩
  rw [List.mk_mem_zipIdx_iff_le_and_getElem?_sub]
  simp [hi]

/-- What a run that finishes does: the objects, then the streams, which change nothing but the files
that have waited for them. -/
lemma exists_restored {e e' : BackupEngine} {fuel : Nat} {latestVersionNumber : Int}
    {latestVersion : VersionForRestore} (hfresh : e.oldObjects = [])
    (hback : e.versions.getLast? = some latestVersionNumber)
    (hload : loadVersion archives latestVersionNumber latestVersionNumber = .ok latestVersion)
    (hdistinct : (latestVersion.objects.map (location env)).Nodup)
    (h : restoreBackup env archives fuel e d = some (.ok e' d')) :
    ∃ d₁ restoreLater, (∀ x, x ∈ restoreLater ↔ x ∈ deferred 0 latestVersion.objects) ∧
      Sorted restoreLater ∧
      restoreObjects env 0 latestVersion.objects d =
        .ok (deferred 0 latestVersion.objects) d₁ ∧
      Restored env restoreLater ((latestVersionNumber ::
        latestVersion.manifest.versionDependencies).flatMap
          (handedOfVersion archives restoreLater)) d' ∧
      ∀ p, (∀ x ∈ restoreLater, p ≠ x.location env) → d'.get? p = d₁.get? p := by
  obtain ⟨number, latest, d₁, targets, hback', hload', hobjects, hstreams, -⟩ :=
    restoreBackup_eq_ok h
  cases hback.symm.trans hback'
  cases hload.symm.trans hload'
  rw [hfresh] at hobjects hstreams
  have hobjects : restoreObjects env 0 latestVersion.objects d =
    .ok (deferred 0 latestVersion.objects) d₁ := hobjects
  let restoreLater := env.sort.sortBy Deferred.streamUniqueId (deferred 0 latestVersion.objects)
  have hmem : ∀ x, x ∈ restoreLater ↔ x ∈ deferred 0 latestVersion.objects :=
    fun x => env.sort.mem_sortBy _ _ x
  have hsorted : Sorted restoreLater := env.sort.sorted _ _
  have hsame : ∀ x ∈ restoreLater, ∀ y ∈ restoreLater,
      x.location env = y.location env → x.streamUniqueId = y.streamUniqueId := by
    intro x hx y hy heq
    have hxmem := (object_mem_of_deferred ((hmem x).mp hx)).1
    have hymem := (object_mem_of_deferred ((hmem y).mp hy)).1
    have hobject := List.inj_on_of_nodup_map hdistinct hxmem hymem heq
    rw [Deferred.streamUniqueId, Deferred.streamUniqueId, hobject]
  have hclear : ∀ x ∈ restoreLater, d₁.fileExists (x.location env) = false := by
    intro x hx
    obtain ⟨hobject, hdeferred⟩ := object_mem_of_deferred ((hmem x).mp hx)
    rw [isDeferred, Bool.and_eq_true] at hdeferred
    exact fileExists_restoreObjects hobjects hdistinct hobject hdeferred.1
  have key := restoreVersions_induction
    (P := fun events d => Restored env restoreLater events d ∧
      ∀ p, (∀ x ∈ restoreLater, p ≠ x.location env) → d.get? p = d₁.get? p)
    (fun events targets event d targets' d' hP hstream =>
      ⟨hP.1.step hsorted hsame hstream, fun p hp =>
        (get?_restoreStream hsorted hP.1.noLink hstream hp).trans (hP.2 p hp)⟩)
    ⟨restored_nil hclear, fun _ _ => rfl⟩ hstreams
  exact ⟨d₁, restoreLater, hmem, hsorted, hobjects, key⟩

/-- Every file ends with the bytes that are stored for it if and only if its own stream is the last
of those that go to it, or equal to the last. -/
theorem contentsRestored_iff {e e' : BackupEngine} {fuel : Nat} {latestVersionNumber : Int}
    {latestVersion : VersionForRestore} (hfresh : e.oldObjects = [])
    (hback : e.versions.getLast? = some latestVersionNumber)
    (hload : loadVersion archives latestVersionNumber latestVersionNumber = .ok latestVersion)
    (hrestorable : Restorable env archives latestVersionNumber latestVersion)
    (h : restoreBackup env archives fuel e d = some (.ok e' d')) :
    ContentsRestored env archives latestVersion.objects d' ↔
      OwnStreamsLast archives latestVersionNumber latestVersion := by
  obtain ⟨d₁, restoreLater, hmem, hsorted, -, hrestored, -⟩ :=
    exists_restored hfresh hback hload hrestorable.locations h
  have hdeferred : ∀ o ∈ latestVersion.objects, isDeferred o = hasContents o :=
    fun o ho => isDeferred_eq_hasContents (hrestorable.targets o ho)
  have hlater : ∀ o ∈ latestVersion.objects, hasContents o = true →
      ∃ x ∈ restoreLater, x.object = o := by
    intro o ho hcontents
    obtain ⟨x, hx, hobject⟩ := exists_deferred 0 ho ((hdeferred o ho).trans hcontents)
    exact ⟨x, (hmem x).mpr hx, hobject⟩
  have harranges : Arranges restoreLater (restoredIds latestVersion.objects) := by
    refine ⟨hsorted, fun id => ?_⟩
    simp only [restoredIds, List.mem_map, List.mem_filter]
    constructor
    · rintro ⟨o, ⟨ho, hcontents⟩, rfl⟩
      obtain ⟨x, hx, rfl⟩ := hlater o ho hcontents
      exact ⟨x, hx, rfl⟩
    · rintro ⟨x, hx, rfl⟩
      obtain ⟨ho, hx⟩ := object_mem_of_deferred ((hmem x).mp hx)
      exact ⟨x.object, ⟨ho, (hdeferred _ ho).symm.trans hx⟩, rfl⟩
  rw [harranges.handedOfVersion] at hrestored
  -- every file is there, with the last stream that has gone to it
  have hfile : ∀ o ∈ latestVersion.objects, hasContents o = true →
      ∃ i, d'.get? (location env o) = some (.file i) ∧
        lastStream (restoredIds latestVersion.objects) (replayedStreams archives
          (restoredIds latestVersion.objects) (latestVersionNumber ::
            latestVersion.manifest.versionDependencies)) o.2.streamUniqueId =
          some (d'.contents i) := by
    intro o ho hcontents
    obtain ⟨x, hx, rfl⟩ := hlater o ho hcontents
    have hlisted : x.object.2.latestVersion ∈
        latestVersionNumber :: latestVersion.manifest.versionDependencies :=
      List.mem_cons.mpr (hrestorable.listed _ ho hcontents)
    obtain ⟨bytes, hevent⟩ := mem_replayedStreams hlisted (hrestorable.stored _ ho hcontents)
    obtain ⟨i, hi⟩ := hrestored.own _ hevent x hx rfl
    have hlast := hrestored.content x hx i hi
    rw [harranges.given] at hlast
    exact ⟨i, hi, hlast⟩
  constructor
  · intro hproperty o ho hcontents
    obtain ⟨i, hi, hlast⟩ := hfile o ho hcontents
    rw [hlast, ← hproperty.contents o ho hcontents, Disk.read?, hi]
  · intro hcondition
    refine ⟨fun o ho hcontents => ?_, fun o ho o' ho' hcontents hcontents' hid => ?_⟩
    · obtain ⟨i, hi, hlast⟩ := hfile o ho hcontents
      rw [← hcondition o ho hcontents, hlast, Disk.read?, hi]
    · obtain ⟨i, hi, -⟩ := hfile o ho hcontents
      obtain ⟨j, hj, -⟩ := hfile o' ho' hcontents'
      obtain ⟨x, hx, rfl⟩ := hlater o ho hcontents
      obtain ⟨y, hy, rfl⟩ := hlater o' ho' hcontents'
      rw [hi, hj, hrestored.shared x hx y hy hid i j hi hj]

/-! ### An archive that nothing refers to in part -/

/-- Every stream belongs to a file of the newest version. -/
def AllReferenced (archives : Directory ArchiveFile) (ids : List Nat) (versions : List Int) :
    Prop :=
  ∀ version ∈ versions, ∀ archive, openArchive archives version = .ok archive →
    ∀ id ∈ archive.streamIds, id ∈ ids

lemma nextRestored_self (h : id ∈ ids) : nextRestored ids id = some id :=
  nextRestored_eq_some_iff.mpr ⟨⟨h, le_rfl⟩, fun _ _ hle => hle⟩

lemma passingStreams_eq_storedStreams {streamIds : List Nat} (streamSizes : List Int)
    (data : List Byte) (h : ∀ id ∈ streamIds, id ∈ ids) :
    passingStreams ids streamIds streamSizes data = storedStreams streamIds streamSizes data := by
  induction streamIds generalizing streamSizes data with
  | nil => rfl
  | cons id streamIds ih =>
    cases streamSizes with
    | nil => rfl
    | cons size streamSizes =>
      rw [List.forall_mem_cons] at h
      rw [passingStreams, storedStreams, ih _ _ h.2, nextRestored_self h.1, Option.isSome_some,
        if_pos rfl]

lemma map_fst_storedStreams_sublist (streamIds : List Nat) (streamSizes : List Int)
    (data : List Byte) :
    ((storedStreams streamIds streamSizes data).map Prod.fst).Sublist streamIds := by
  induction streamIds generalizing streamSizes data with
  | nil => exact List.Sublist.slnil
  | cons id streamIds ih =>
    cases streamSizes with
    | nil => exact List.nil_sublist _
    | cons size streamSizes => exact (ih _ _).cons_cons id

lemma storedBytes_eq_some {version : Int} {bytes : List Byte}
    (h : storedBytes archives version id = some bytes) :
    ∃ archive, openArchive archives version = .ok archive ∧
      (id, bytes) ∈ storedStreams archive.streamIds archive.streamSizes (archive.data.getD []) := by
  rw [storedBytes] at h
  rcases hopen : openArchive archives version with _ | archive
  · rw [hopen] at h
    cases h
  rcases hdata : archive.data with _ | data
  · simp only [hopen, hdata] at h
    cases h
  simp only [hopen, hdata, Option.bind_some] at h
  refine ⟨archive, rfl, ?_⟩
  rw [hdata, Option.getD_some]
  exact mem_of_lookup h

/-- The contents are right if no stream is left over. -/
theorem ownStreamsLast_of_allReferenced {latestVersionNumber : Int}
    {latestVersion : VersionForRestore}
    (hrestorable : Restorable env archives latestVersionNumber latestVersion)
    (hall : AllReferenced archives (restoredIds latestVersion.objects)
      (latestVersionNumber :: latestVersion.manifest.versionDependencies)) :
    OwnStreamsLast archives latestVersionNumber latestVersion := by
  let ids := restoredIds latestVersion.objects
  let versions := latestVersionNumber :: latestVersion.manifest.versionDependencies
  intro o ho hcontents
  obtain ⟨bytes, hbytes⟩ := Option.isSome_iff_exists.mp (hrestorable.stored o ho hcontents)
  obtain ⟨archive, hopen, hmem⟩ := storedBytes_eq_some hbytes
  have hsublist := fun archive : ArchiveFile =>
    map_fst_storedStreams_sublist archive.streamIds archive.streamSizes (archive.data.getD [])
  -- whatever goes by with the id is what is stored under it
  have hsame : ∀ stream ∈ replayedStreams archives ids versions,
      nextRestored ids stream.1 = some o.2.streamUniqueId → stream.2 = bytes := by
    intro stream hstream hnext
    obtain ⟨version, hversion, hpassing⟩ := List.mem_flatMap.mp hstream
    rcases hopen' : openArchive archives version with _ | archive'
    · simp only [hopen'] at hpassing
      cases hpassing
    simp only [hopen'] at hpassing
    have hids := hall version hversion archive' hopen'
    rw [passingStreams_eq_storedStreams _ _ hids] at hpassing
    have hid' := (hsublist archive').subset (List.mem_map_of_mem hpassing)
    rw [nextRestored_self (hids _ hid'), Option.some.injEq] at hnext
    have hid := (hsublist archive).subset (List.mem_map_of_mem hmem)
    rw [hnext] at hid'
    obtain rfl := hrestorable.unique _ _ archive archive' hopen hopen' _ hid hid'
    cases hopen.symm.trans hopen'
    have hnodup := (hsublist archive).nodup (hrestorable.nodup _ archive hopen)
    exact congrArg Prod.snd (List.inj_on_of_nodup_map hnodup hpassing hmem hnext)
  have hself : nextRestored ids o.2.streamUniqueId = some o.2.streamUniqueId :=
    nextRestored_self (List.mem_map_of_mem (List.mem_filter.mpr ⟨ho, hcontents⟩))
  have hreplayed : ∃ own, (o.2.streamUniqueId, own) ∈ replayedStreams archives ids versions :=
    mem_replayedStreams (List.mem_cons.mpr (hrestorable.listed o ho hcontents))
      (hrestorable.stored o ho hcontents)
  obtain ⟨own, hown⟩ := hreplayed
  have hgoes : (o.2.streamUniqueId, own) ∈ (replayedStreams archives ids versions).filter
      fun stream => nextRestored ids stream.1 = some o.2.streamUniqueId :=
    List.mem_filter.mpr ⟨hown, decide_eq_true hself⟩
  have hlast := List.getLast?_eq_some_getLast (List.ne_nil_of_mem hgoes)
  obtain ⟨hlastmem, hlastnext⟩ := List.mem_filter.mp (List.mem_of_getLast? hlast)
  refine Eq.trans ?_ hbytes.symm
  rw [lastStream]
  refine (congrArg (Option.map Prod.snd) hlast).trans ?_
  rw [Option.map_some, hsame _ hlastmem (of_decide_eq_true hlastnext)]

/-! ### A file that has changed -/

/-- A disk with these entries. -/
def Disk.ofEntries (entries : List (Location × DiskEntry)) (contents : Nat → List Byte)
    (h : ∀ entry ∈ entries, entry.1 ≠ [] →
      entries.lookup entry.1.dropLast = some .directory) : Disk where
  entries := entries
  contents := contents
  parents := by
    intro location name hsome
    obtain ⟨entry, hentry⟩ := Option.isSome_iff_exists.mp hsome
    have hparent := h _ (mem_of_lookup hentry) (by simp)
    rwa [List.dropLast_concat] at hparent

/-- A drive with nothing on it. -/
def emptyDrive : Disk :=
  .ofEntries [([], .directory), ([['C', ':']], .directory)] (fun _ => []) (by decide)

def storedFile (name : Char) (streamUniqueId : Nat) (latestVersion : Int) : FileSystemObject where
  type := .regularFile
  name := [name]
  streamUniqueId := streamUniqueId
  latestVersion := latestVersion

/-- A directory with two files. -/
def directoryOfTwo (a b : FileSystemObject) : List FileSystemTree :=
  [⟨{ type := .directory
      name := ['d']
      mappedBasePath := ['C', ':']
      unmappedBasePath := ['C', ':']
      latestVersion := -1 },
    .cons a .nil (.cons b .nil .nil)⟩]

/-- One of the files has changed since the version before. -/
def changedVersion : VersionForRestore where
  manifest := manifestWith 1 [0]
  baseObjects := directoryOfTwo (storedFile 'a' 3 1) (storedFile 'b' 1 0)

/-- Nothing refers to the second stream of the first version any more. -/
def changedArchives : Directory ArchiveFile :=
  [(getVersionName 0,
      { manifest := .ok (manifestWith 0 [])
        baseObjects := .ok (directoryOfTwo (storedFile 'a' 2 0) (storedFile 'b' 1 0))
        streamIds := [1, 2]
        streamSizes := [1, 1]
        data := some [10, 20] }),
    (getVersionName 1,
      { manifest := .ok changedVersion.manifest
        baseObjects := .ok changedVersion.baseObjects
        streamIds := [3]
        streamSizes := [1]
        data := some [30] })]

lemma restorable_changedArchives : Restorable plainMachine changedArchives 1 changedVersion := by
  have hopen : ∀ v archive, openArchive changedArchives v = .ok archive →
      ∃ file ∈ changedArchives, lower file.1 = lower (getVersionName v) ∧ file.2 = archive := by
    intro v archive h
    rw [openArchive] at h
    rcases hget : changedArchives.get? (getVersionName v) with _ | found
    · rw [hget] at h
      cases h
    · rw [hget] at h
      cases h
      obtain ⟨file, hfile, hname, hcontent⟩ := Directory.exists_of_get? hget
      exact ⟨file, hfile, hname, hcontent⟩
  refine ⟨by decide, by decide, fun v archive h => ?_,
    fun v w archive archive' h h' id hid hid' => ?_, by decide, by decide⟩
  · obtain ⟨file, hfile, -, rfl⟩ := hopen v archive h
    have hnodup : ∀ file ∈ changedArchives, file.2.streamIds.Nodup := by decide
    exact hnodup file hfile
  · obtain ⟨file, hfile, hv, rfl⟩ := hopen v archive h
    obtain ⟨file', hfile', hw, rfl⟩ := hopen w archive' h'
    have hsame : ∀ file ∈ changedArchives, ∀ file' ∈ changedArchives,
        ∀ id ∈ file.2.streamIds, id ∈ file'.2.streamIds → file.1 = file'.1 := by decide
    refine lower_getVersionName_injective (hv.symm.trans (Eq.trans ?_ hw))
    rw [hsame file hfile file' hfile' id hid hid']

theorem contentsRestored_iff_changedArchives : ∃ e' d',
    restoreBackup plainMachine changedArchives 10 (newEngine [0, 1]) emptyDrive =
        some (.ok e' d') ∧
      (ContentsRestored plainMachine changedArchives changedVersion.objects d' ↔
        OwnStreamsLast changedArchives 1 changedVersion) := by
  have hrun : ∃ e' d', restoreBackup plainMachine changedArchives 10 (newEngine [0, 1]) emptyDrive =
    some (.ok e' d') := ⟨_, _, rfl⟩
  obtain ⟨e', d', h⟩ := hrun
  exact ⟨e', d', h, contentsRestored_iff rfl rfl rfl restorable_changedArchives h⟩

/-- The file that has changed gets the bytes that it had before. -/
theorem not_contentsRestored_changedArchives : ∃ e' d',
    restoreBackup plainMachine changedArchives 10 (newEngine [0, 1]) emptyDrive =
        some (.ok e' d') ∧
      Restorable plainMachine changedArchives 1 changedVersion ∧
      ¬ ContentsRestored plainMachine changedArchives changedVersion.objects d' := by
  refine ⟨_, _, rfl, restorable_changedArchives, fun h => ?_⟩
  have hcontents := h.contents _
    (List.getElem_mem (l := changedVersion.objects) (n := 1) (by decide))
    rfl
  revert hcontents
  decide

end BackupProgram
