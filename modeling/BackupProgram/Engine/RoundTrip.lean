import BackupProgram.Engine.Deduplication
import BackupProgram.Engine.Dependencies
import BackupProgram.Engine.References
import BackupProgram.Engine.Sessions

/-!
# What has been backed up is restored

A chain of backups fills a directory; a new engine restores its newest version. A file gets what it
had at the time of the newest backup, unless it is the first one that this backup has stored, and
the version before that is needed ends with a stream that nothing refers to any more.
-/

namespace BackupProgram

open Results

/-! ### The streams of an archive -/

namespace VersionArchive

variable (a : VersionArchive)

/-- The streams with their bytes. -/
def streams : List (Nat × List Byte) := a.files.map fun file => (file.1, file.2.1)

lemma map_fst_streams : a.streams.map Prod.fst = a.streamIds := by
  rw [streams, streamIds, List.map_map]
  rfl

lemma mem_streams_of_streamData {a : VersionArchive} {id : Nat} {bytes : List Byte}
    (h : a.streamData id = some bytes) : (id, bytes) ∈ a.streams := by
  obtain ⟨file, hfind, rfl⟩ := Option.map_eq_some_iff.mp h
  have hid : file.1 = id := by simpa using List.find?_some hfind
  exact List.mem_map.mpr ⟨file, List.mem_of_find?_eq_some hfind, by rw [hid]⟩

/-- What a reader gets are the objects, without what is not stored of them. -/
lemma iterate_getBaseObjects :
    a.getBaseObjects.flatMap FileSystemTree.iterate = a.objects.map fun o => (o.1, o.2.stored) := by
  rw [getBaseObjects, objects, List.flatMap_map, List.map_flatMap]
  refine congrArg (List.flatMap · a.baseObjects) (funext fun t => ?_)
  have hpathed : t.map FileSystemObject.stored =
      (FileSystemTree.pathed t).map fun o => o.2.stored := by
    simp only [RoseTree.map, FileSystemTree.pathed, RoseTree.inherit, RoseTree.mk.injEq, true_and]
    exact (Forest.map_inherit ObjectPaths.child FileSystemObject.stored t.root.basePaths
      t.children).symm
  rw [hpathed]
  exact FileSystemTree.iterate_map_pathed t fun _ => rfl

end VersionArchive

/-! ### The streams that go by -/

section Passing

variable {ids : List Nat} {id m : Nat}

lemma le_of_nextRestored (h : nextRestored ids id = some m) : id ≤ m :=
  (nextRestored_eq_some_iff.mp h).1.2

/-- If the ids ascend, a stream that is not read comes after all that go to some file. -/
lemma filter_passingStreams (files : List (Nat × List Byte × HashType))
    (hascending : (files.map fun file => file.1).Pairwise (· < ·)) (m : Nat) :
    (passingStreams ids (files.map fun file => file.1)
        (files.map fun file => (file.2.1.length : Int))
        (files.flatMap fun file => file.2.1)).filter
        (fun stream => nextRestored ids stream.1 = some m) =
      (files.map fun file => (file.1, file.2.1)).filter
        fun stream => nextRestored ids stream.1 = some m := by
  have hnone : ∀ {streamIds : List Nat} (streamSizes : List Int) (data : List Byte),
      (∀ id ∈ streamIds, nextRestored ids id = none) →
      (passingStreams ids streamIds streamSizes data).filter
        (fun stream => nextRestored ids stream.1 = some m) = [] := by
    intro streamIds
    induction streamIds with
    | nil => intro _ _ _; rfl
    | cons id streamIds ih =>
      intro streamSizes data hids
      cases streamSizes with
      | nil => rfl
      | cons size streamSizes =>
        rw [List.forall_mem_cons] at hids
        rw [passingStreams, List.filter_cons_of_neg (by simp [hids.1])]
        exact ih _ _ hids.2
  induction files with
  | nil => rfl
  | cons file files ih =>
    rw [List.map_cons, List.pairwise_cons] at hascending
    simp only [List.map_cons, List.flatMap_cons, passingStreams, Int.toNat_natCast,
      List.take_left, List.drop_left, List.filter_cons]
    rcases hnext : nextRestored ids file.1 with _ | next
    · have habove : ∀ id ∈ files.map fun file => file.1, nextRestored ids id = none := by
        intro id hid
        rw [nextRestored_eq_none_iff] at hnext ⊢
        exact fun k hk => (hnext k hk).trans (hascending.1 id hid)
      have hright : (files.map fun file => (file.1, file.2.1)).filter
          (fun stream => nextRestored ids stream.1 = some m) = [] := by
        rw [List.filter_eq_nil_iff]
        intro stream hstream
        obtain ⟨file', hfile', rfl⟩ := List.mem_map.mp hstream
        rw [habove file'.1 (List.mem_map_of_mem hfile')]
        simp
      simp only [Option.isSome_none, Bool.false_eq_true, if_false, hnone _ _ habove, hright]
    · simp only [Option.isSome_some, if_true, ih hascending.2]

end Passing

/-! ### The files that are restored -/

/-- The files that hold the streams which have gone by: that of an object has the last one that goes
to its id, and two objects have the same one if and only if they have the same id. -/
structure FilesRestored (env : RestoreEnv) (objects : List PathedObject)
    (streams : List (Nat × List Byte)) (d : Disk) : Prop where
  file : ∀ o ∈ objects, hasContents o = true → (∃ bytes, (o.2.streamUniqueId, bytes) ∈ streams) →
    ∃ i, d.get? (location env o) = some (.file i) ∧
      lastStream (restoredIds objects) streams o.2.streamUniqueId = some (d.contents i)
  same : ∀ o ∈ objects, ∀ o' ∈ objects, hasContents o = true → hasContents o' = true → ∀ i j,
    d.get? (location env o) = some (.file i) → d.get? (location env o') = some (.file j) →
      (i = j ↔ o.2.streamUniqueId = o'.2.streamUniqueId)

lemma filesRestored_of_restoreBackup {env : RestoreEnv} {archives : Directory ArchiveFile}
    {d d' : Disk} {e e' : BackupEngine} {fuel : Nat} {latestVersionNumber : Int}
    {latestVersion : VersionForRestore} (hfresh : e.oldObjects = [])
    (hback : e.versions.getLast? = some latestVersionNumber)
    (hload : loadVersion archives latestVersionNumber latestVersionNumber = .ok latestVersion)
    (hlocations : (latestVersion.objects.map (location env)).Nodup)
    (htargets : ∀ o ∈ latestVersion.objects, o.2.type = .fileHardlink → o.2.target = none)
    (h : restoreBackup env archives fuel e d = some (.ok e' d')) :
    FilesRestored env latestVersion.objects
      (replayedStreams archives (restoredIds latestVersion.objects)
        (latestVersionNumber :: latestVersion.manifest.versionDependencies)) d' := by
  obtain ⟨d₁, restoreLater, hmem, hsorted, -, hrestored, -⟩ :=
    exists_restored hfresh hback hload hlocations h
  have hdeferred : ∀ o ∈ latestVersion.objects, isDeferred o = hasContents o :=
    fun o ho => isDeferred_eq_hasContents (htargets o ho)
  have hlater : ∀ o ∈ latestVersion.objects, hasContents o = true →
      ∃ x ∈ restoreLater, x.object = o := by
    intro o ho hcontents
    obtain ⟨x, hx, hobject⟩ := exists_deferred 0 ho ((hdeferred o ho).trans hcontents)
    exact ⟨x, (hmem x).mpr hx, hobject⟩
  have harranges : Arranges restoreLater (restoredIds latestVersion.objects) := by
    refine ⟨hsorted, fun id => ?_⟩
    simp only [restoredIds, List.mem_map, List.mem_filter]
    constructor
    · rintro ⟨o, ⟨ho, hcontents⟩, rfl⟩
      obtain ⟨x, hx, rfl⟩ := hlater o ho hcontents
      exact ⟨x, hx, rfl⟩
    · rintro ⟨x, hx, rfl⟩
      obtain ⟨ho, hx⟩ := object_mem_of_deferred ((hmem x).mp hx)
      exact ⟨x.object, ⟨ho, (hdeferred _ ho).symm.trans hx⟩, rfl⟩
  rw [harranges.handedOfVersion] at hrestored
  refine ⟨fun o ho hcontents hstream => ?_,
    fun o ho o' ho' hcontents hcontents' i j hi hj => ⟨fun hij => ?_, fun hid => ?_⟩⟩
  · obtain ⟨bytes, hevent⟩ := hstream
    obtain ⟨x, hx, rfl⟩ := hlater o ho hcontents
    obtain ⟨i, hi⟩ := hrestored.own _ hevent x hx rfl
    have hlast := hrestored.content x hx i hi
    rw [harranges.given] at hlast
    exact ⟨i, hi, hlast⟩
  · obtain ⟨x, hx, rfl⟩ := hlater o ho hcontents
    obtain ⟨y, hy, rfl⟩ := hlater o' ho' hcontents'
    exact hrestored.separate x hx y hy i hi (hij ▸ hj)
  · obtain ⟨x, hx, rfl⟩ := hlater o ho hcontents
    obtain ⟨y, hy, rfl⟩ := hlater o' ho' hcontents'
    exact hrestored.shared x hx y hy hid i j hi hj

/-! ### The objects of a version -/

lemma BackupEngine.exists_of_recalculateFileGuids {call : BackupCall}
    {baseObjects baseObjects' : List FileSystemTree}
    (h : recalculateFileGuids call baseObjects = .ok baseObjects') {t' : FileSystemTree}
    (ht' : t' ∈ baseObjects') {fso' : FileSystemObject} (hfso' : fso' ∈ t'.toList) :
    ∃ o ∈ baseObjects.flatMap FileSystemTree.iterate, recalculateFileGuid call o = .ok fso' := by
  simp only [recalculateFileGuids, bind_eq_ok, pure_eq_ok] at h
  obtain ⟨objects, hobjects, rfl⟩ := h
  have hlength : objects.length = (baseObjects.flatMap RoseTree.toList).length := by
    rw [length_of_mapM hobjects, List.length_flatMap, List.length_flatMap]
    exact congrArg List.sum (List.map_congr_left fun t _ => FileSystemTree.length_iterate t)
  have hmem : fso' ∈ objects := by
    rw [← RoseTree.flatMap_toList_refillAll baseObjects hlength]
    exact List.mem_flatMap_of_mem ht' hfso'
  exact exists_of_mem_mapM hobjects hmem

lemma BackupEngine.target_of_recalculateFileGuid {call : BackupCall} {o : PathedObject}
    {fso : FileSystemObject} (h : recalculateFileGuid call o = .ok fso) :
    fso.type = o.2.type ∧ fso.target = o.2.target := by
  rw [recalculateFileGuid] at h
  split_ifs at h
  · refine ⟨?_, (FileSystemObject.target_of_setFileSystemGuid h).trans rfl⟩
    rw [FileSystemObject.setFileSystemGuid_eq_ok h]
  · rw [pure_eq_ok] at h
    rw [← h]
    exact ⟨rfl, rfl⟩

lemma BackupCall.constructed_of_baseObjects {call : BackupCall} {previous : Option VersionArchive}
    {baseObjects : List FileSystemTree} (h : call.baseObjects previous = .ok baseObjects) :
    ∀ o ∈ baseObjects.flatMap FileSystemTree.iterate, o.2.Constructed := by
  simp only [BackupCall.baseObjects, bind_eq_ok, pure_eq_ok] at h
  obtain ⟨scanned, hscan, rfl⟩ := h
  have hscanned : ∀ t ∈ scanned, ∀ fso ∈ t.toList, fso.Constructed := by
    simp only [scan, bind_eq_ok] at hscan
    obtain ⟨created, hcreated, hguids⟩ := hscan
    intro t ht fso hfso
    obtain ⟨o, ho, hguid⟩ := BackupEngine.exists_of_recalculateFileGuids hguids ht hfso
    obtain ⟨htype, htarget⟩ := BackupEngine.target_of_recalculateFileGuid hguid
    obtain ⟨t0, ht0, ho⟩ := List.mem_flatMap.mp ho
    obtain ⟨path, -, hcreate⟩ := exists_of_mem_mapM hcreated ht0
    simp only [BackupEngine.createBaseObject, bind_eq_ok, pure_eq_ok] at hcreate
    obtain ⟨x, hx, rfl⟩ := hcreate
    have hall : ∀ fso ∈ x.toList, fso.Constructed :=
      FileSystemObject.forall_of_create (fun _ _ _ _ _ _ _ _ hfso =>
        FileSystemObject.constructed_of_construct hfso rfl) hx
    have hmem : o.2 ∈ RoseTree.toList ⟨{ x.root with isMain := true }, x.children⟩ := by
      rw [← FileSystemTree.map_snd_iterate]
      exact List.mem_map_of_mem ho
    refine @FileSystemObject.Constructed.congr o.2 _ ?_ htype htarget
    rcases List.mem_cons.mp hmem with hroot | hbelow
    · rw [hroot]
      exact (hall x.root List.mem_cons_self).congr rfl rfl
    · exact hall o.2 (List.mem_cons_of_mem _ hbelow)
  intro o ho
  obtain ⟨t, ht, ho⟩ := List.mem_flatMap.mp ho
  have hfso : o.2 ∈ t.toList := by
    rw [← FileSystemTree.map_snd_iterate]
    exact List.mem_map_of_mem ho
  cases previous with
  | none => exact hscanned t ht _ hfso
  | some archive =>
    obtain ⟨t0, ht0, rfl⟩ := List.mem_map.mp ht
    rw [RoseTree.toList_map, List.mem_map] at hfso
    obtain ⟨x, hx, hcopy⟩ := hfso
    have hx2 : x.2 ∈ t0.toList := by
      rw [← FileSystemTree.map_snd_iterate]
      exact List.mem_map_of_mem hx
    have hold := hscanned t0 ht0 x.2 hx2
    rw [← hcopy, BackupEngine.copyStreamUniqueId]
    split
    · exact hold
    · exact hold.congr rfl rfl

/-- What is archived of an object as it has been scanned. -/
structure Kept (g : FileSystemObject) (o : FileSystemObject) : Prop where
  type : g.type = o.type
  target : g.target = o.target
  fileSystemGuid : g.fileSystemGuid = o.fileSystemGuid

lemma Generation.kept_of_outcome {env : BackupEnv} {n : Int} {old : Option (List FileSystemTree)}
    {firstId : Nat} {os : List PathedObject} {st : GenerateState}
    (h : Generation env n old firstId os st) {i : Nat} {o : PathedObject} {f : FileSystemObject}
    (ho : os[i]? = some o) (hf : st.objects[i]? = some f) : Kept f o.2 := by
  cases h.outcome i o f ho hf with
  | excluded _ _ _ hobject | stray _ _ _ _ hobject => rw [hobject]; exact ⟨rfl, rfl, rfl⟩
  | peer _ _ _ _ _ _ _ _ _ hobject => rw [hobject]; exact ⟨rfl, rfl, rfl⟩
  | first _ _ _ _ _ hsame _ _ hobject => rw [hobject, hsame]; exact ⟨rfl, rfl, rfl⟩

/-! ### The newest version of a chain -/

/-- Objects that refer to their own version have data there, in a chain where unchanged objects have
data. -/
lemma VersionChain.selfContained {vs : List Version} (h : VersionChain vs)
    (hsources : SourcesDisjoint vs) (hunchanged : ChainUnchangedHaveData vs) :
    SelfContainedChain vs := by
  intro k v baseObjects hv hbase i o ho hself
  cases hself with
  | stray hincluded htype hearlier =>
    exact htype (hsources k v baseObjects hv hbase i o ho hincluded hearlier)
  | declared hold hincluded hnew hmode hchanged =>
    obtain ⟨a, ha, rfl⟩ := Option.map_eq_some_iff.mp hold
    obtain ⟨m, w, rfl, hw, rfl⟩ := previousVersion_eq_some hv ha
    rw [ha] at hbase
    obtain ⟨oldFile, hcalled⟩ :=
      (hunchanged m w v baseObjects hw hv hbase).declared i o ho hincluded hnew hmode
    exact not_unchanged_of_fileHasChanged hchanged hcalled
  | unchanged hold hincluded hnew hmode hcalled =>
    obtain ⟨a, ha, rfl⟩ := Option.map_eq_some_iff.mp hold
    obtain ⟨m, w, rfl, hw, rfl⟩ := previousVersion_eq_some hv ha
    obtain ⟨oldFile, hfound, hversion⟩ := unchanged_of_fileHasChanged hcalled
    obtain ⟨t, ht, hfile⟩ := mem_of_findPath hfound.1
    obtain ⟨g, hg, rfl⟩ := VersionArchive.mem_getBaseObjects ht hfile
    have hle := h.latestVersion_le hw g hg
    rw [FileSystemObject.stored] at hversion
    push_cast at hversion
    omega

/-- What is known of the newest version of a chain: its files refer to data that is stored for them
in the chain, and every stream that it stores belongs to a file. -/
structure NewestVersion (vs : List Version) (content : Nat → Str → List Byte) (n : Nat)
    (v : Version) : Prop where
  chain : VersionChain vs
  newest : vs[n]? = some v
  length : n + 1 = vs.length
  refers : ∀ o ∈ v.archive.objects, hasContents o = true → RefersToContent vs content n o
  listed : ∀ k : Nat, (k : Int) ∈ v.archive.manifest.versionDependencies ↔
    k ≠ n ∧ ∃ o ∈ v.archive.objects, hasContents o = true ∧ o.2.latestVersion = k
  lower : ∀ k ∈ v.archive.manifest.versionDependencies, 0 ≤ k ∧ k < n
  ascending : v.archive.manifest.versionDependencies.Pairwise (· < ·)
  belongs : ∀ stream ∈ v.archive.streams, ∃ o ∈ v.archive.objects, hasContents o = true ∧
    o.2.streamUniqueId = stream.1 ∧ content n o.1.mappedPath = stream.2
  targets : ∀ o ∈ v.archive.objects, o.2.type = .fileHardlink → o.2.target = none
  names : ∀ o ∈ v.archive.objects, ∀ o' ∈ v.archive.objects, hasContents o = true →
    hasContents o' = true → o.2.fileSystemGuid ≠ none →
      o.2.fileSystemGuid = o'.2.fileSystemGuid → o.2.streamUniqueId = o'.2.streamUniqueId

lemma exists_of_mem_right {α β : Type} {R : α → β → Prop} {as : List α} {bs : List β}
    (h : List.Forall₂ R as bs) {b : β} (hb : b ∈ bs) : ∃ a ∈ as, R a b := by
  induction h with
  | nil => cases hb
  | cons hab _ ih =>
    rcases List.mem_cons.mp hb with rfl | hb
    · exact ⟨_, List.mem_cons_self, hab⟩
    · obtain ⟨a, ha, hR⟩ := ih hb
      exact ⟨a, List.mem_cons_of_mem _ ha, hR⟩

/-- An object whose data are stored is a file of the new version. -/
lemma Chosen.latestVersion_of_hasData {env : BackupEnv} {n : Int}
    {old : Option (List FileSystemTree)} {o : PathedObject} {fso : FileSystemObject}
    {data : StreamData} (h : Chosen env n old o fso data) (hdata : data.hasData) :
    fso.latestVersion = n := by
  cases h with
  | initial hversion | forced _ hversion | changed _ _ hversion => exact hversion
  | unchanged | declared => cases hdata

/-- The objects that are included are regular files and hard links. -/
lemma FileSystemObject.Constructed.streamRequired {fso : FileSystemObject} (h : fso.Constructed)
    (hincluded : fso.isIncluded) : fso.streamRequired = true := by
  have hne := h.noReparsePoint
  simp only [FileSystemObject.isIncluded, FileSystemObject.isDirectoryish,
    FileSystemObject.isLinkish] at hincluded
  simp only [FileSystemObject.streamRequired]
  revert hincluded hne
  cases fso.type <;> simp

section ArchiveOf

variable {env : BackupEnv} {n : Int} {old : Option (List FileSystemTree)} {firstId : Nat}
  {os : List PathedObject} {st : GenerateState} {a : VersionArchive} {g : PathedObject}

/-- An archived object is a scanned one, with what the backup has added. -/
lemma ArchiveOf.exists_scanned (h : ArchiveOf env n old firstId os st a) (hg : g ∈ a.objects) :
    ∃ (i : Nat) (o : PathedObject) (f : FileSystemObject), os[i]? = some o ∧
      st.objects[i]? = some f ∧ SameArchived g.2 f ∧ Kept g.2 o.2 := by
  obtain ⟨i, hi⟩ := List.mem_iff_getElem?.mp hg
  obtain ⟨o, f, ho, hf⟩ := h.exists_getElem hi
  have hgf := h.objects i f g hf hi
  have hkept := h.generation.kept_of_outcome ho hf
  refine ⟨i, o, f, ho, hf, hgf, ?_⟩
  rw [hgf]
  exact ⟨hkept.type, hkept.target, hkept.fileSystemGuid⟩

/-- An object that has a version has contents. -/
lemma ArchiveOf.hasContents_of_nonneg (h : ArchiveOf env n old firstId os st a)
    (hconstructed : ∀ o ∈ os, o.2.Constructed) (hg : g ∈ a.objects)
    (hnonneg : 0 ≤ g.2.latestVersion) : hasContents g = true := by
  obtain ⟨i, o, f, ho, hf, hgf, hkept⟩ := h.exists_scanned hg
  have hrequired : o.2.streamRequired = true := by
    have hobject := hconstructed o (List.mem_of_getElem? ho)
    cases h.generation.outcome i o f ho hf with
    | excluded _ _ _ heq =>
      rw [hgf.latestVersion, heq] at hnonneg
      have hneg : (0 : Int) ≤ -1 := hnonneg
      omega
    | stray hincluded | first hincluded => exact hobject.streamRequired hincluded
    | peer htype => simp [FileSystemObject.streamRequired, htype]
  rw [FileSystemObject.streamRequired] at hrequired
  rw [hasContents, FileSystemObject.streamRequired, hkept.type, hrequired,
    decide_eq_true hnonneg]
  rfl

/-- Hard links are archived without a target. -/
lemma ArchiveOf.target_eq_none (h : ArchiveOf env n old firstId os st a)
    (hconstructed : ∀ o ∈ os, o.2.Constructed) (hg : g ∈ a.objects)
    (htype : g.2.type = .fileHardlink) : g.2.target = none := by
  obtain ⟨i, o, f, ho, -, -, hkept⟩ := h.exists_scanned hg
  have hobject := hconstructed o (List.mem_of_getElem? ho)
  exact FileSystemObject.Constructed.untargeted (hobject.congr hkept.type hkept.target) htype

/-- A stream that is stored has the bytes of a file with this stream. -/
lemma ArchiveOf.exists_of_mem_streams (h : ArchiveOf env n old firstId os st a)
    (hconstructed : ∀ o ∈ os, o.2.Constructed) (hn : 0 ≤ n) {stream : Nat × List Byte}
    (hstream : stream ∈ a.streams) :
    ∃ g ∈ a.objects, hasContents g = true ∧ g.2.streamUniqueId = stream.1 ∧
      env.fs.readFile g.1.mappedPath = some stream.2 := by
  obtain ⟨file, hfile, rfl⟩ := List.mem_map.mp hstream
  obtain ⟨s, hs, backupStream, i, path, hheap, hhead, hpath, hid, hread⟩ :=
    exists_of_mem_right h.files hfile
  obtain ⟨backupStream', hheap', hdata⟩ := (h.generation.kept s).mp hs
  rw [hheap, Option.some.injEq] at hheap'
  subst hheap'
  rw [List.getElem?_map] at hpath
  obtain ⟨o, ho, rfl⟩ := Option.map_eq_some_iff.mp hpath
  obtain ⟨f, g, hf, hg, hgpath⟩ := h.exists_archived ho
  obtain ⟨fso, -, -, -, hchosen, -, hobject⟩ := h.generation.outcome_head hheap hhead ho hf
  have hgf := h.objects i f g hf hg
  have hversion : g.2.latestVersion = n := by
    rw [hgf.latestVersion, hobject]
    exact hchosen.latestVersion_of_hasData hdata
  refine ⟨g, List.mem_of_getElem? hg, ?_, ?_, ?_⟩
  · exact h.hasContents_of_nonneg hconstructed (List.mem_of_getElem? hg) (hversion ▸ hn)
  · rw [hgf.streamUniqueId, hobject, hid]
  · rw [hgpath]
    exact hread

/-- An object that has a version has the data of the stream of its file, if no file is scanned
twice. -/
lemma ArchiveOf.refersToStream (h : ArchiveOf env n old firstId os st a)
    (hdisjoint : ∀ i o, os[i]? = some o → o.2.isIncluded → Earlier os i o →
      o.2.type = .fileHardlink)
    (hg : g ∈ a.objects) (hnonneg : 0 ≤ g.2.latestVersion) {guid : Guid}
    (hguid : g.2.fileSystemGuid = some guid) : RefersToStream os st guid g.2 := by
  obtain ⟨i, o, f, ho, hf, hgf, hkept⟩ := h.exists_scanned hg
  have hoguid : o.2.fileSystemGuid = some guid := hkept.fileSystemGuid.symm.trans hguid
  rw [RefersToStream, hgf.streamUniqueId, hgf.latestVersion]
  cases h.generation.outcome i o f ho hf with
  | excluded _ _ _ hobject =>
    rw [hgf.latestVersion, hobject] at hnonneg
    have hneg : (0 : Int) ≤ -1 := hnonneg
    omega
  | stray hincluded htype hearlier => exact absurd (hdisjoint i o ho hincluded hearlier) htype
  | @peer s k stream ok fk _ _ hok _ hsame hstream hhead hfk _ hobject =>
    exact ⟨s, stream, k, fk, ⟨hstream, hhead, ok, hok, hsame.trans hoguid⟩, hfk,
      by rw [hobject], by rw [hobject]⟩
  | @first s stream _ _ _ hstream hhead _ _ _ _ hobject =>
    exact ⟨s, stream, i, f, ⟨hstream, hhead, o, ho, hoguid⟩, hf, by rw [hobject], rfl⟩

end ArchiveOf

lemma nonneg_of_hasContents {o : PathedObject} (h : hasContents o = true) :
    0 ≤ o.2.latestVersion := by
  rw [hasContents, Bool.and_eq_true, decide_eq_true_eq] at h
  exact h.2

lemma VersionChain.newestVersion {vs : List Version} {content : Nat → Str → List Byte}
    (h : VersionChain vs) (hcontent : ContentOfFiles vs content)
    (hsound : SoundCriterion vs content)
    (hsources : SourcesDisjoint vs) (hunchanged : ChainUnchangedHaveData vs) {n : Nat} {v : Version}
    (hv : vs[n]? = some v) (hlength : n + 1 = vs.length) : NewestVersion vs content n v := by
  have hexact := h.exactDependencies (h.selfContained hsources hunchanged) hv
  obtain ⟨r, hr, hv'⟩ := h.newVersion_eq_ok hv
  obtain ⟨baseObjects, st, hbase, harchive, -⟩ := BackupCall.newVersion_eq_ok hr
  rw [hv'] at harchive
  have hconstructed := BackupCall.constructed_of_baseObjects hbase
  refine ⟨h, hv, hlength, fun o ho hcontents => ?_, fun k => ?_, fun k hk => ?_, hexact.ascending,
    fun stream hstream => ?_, fun g hg htype => harchive.target_eq_none hconstructed hg htype,
    fun g hg g' hg' hcontents hcontents' hguid hsame => ?_⟩
  · exact h.refersToContent hcontent hsound hsources hunchanged hv ho
      (nonneg_of_hasContents hcontents)
  · rw [hexact.mem_iff]
    constructor
    · rintro ⟨hne, hnonneg, o, ho, -, hversion⟩
      exact ⟨by exact_mod_cast hne, o, ho,
        harchive.hasContents_of_nonneg hconstructed ho (hversion ▸ hnonneg), hversion⟩
    · rintro ⟨hne, o, ho, hcontents, hversion⟩
      refine ⟨by exact_mod_cast hne, Int.natCast_nonneg k, o, ho, ?_, hversion⟩
      rw [hasContents, Bool.and_eq_true] at hcontents
      have hrequired := hcontents.1
      simp only [FileSystemObject.streamRequired, decide_eq_true_eq] at hrequired
      rcases hrequired with htype | htype <;> simp [FileSystemObject.isDirectoryish, htype]
  · obtain ⟨hne, hnonneg, o, ho, -, hversion⟩ := (hexact.mem_iff k).mp hk
    have hle := h.latestVersion_le hv o ho
    omega
  · obtain ⟨g, hg, hcontents, hid, hread⟩ :=
      harchive.exists_of_mem_streams hconstructed (Int.natCast_nonneg n) hstream
    exact ⟨g, hg, hcontents, hid, hcontent.read n v _ _ hv hread⟩
  · obtain ⟨guid, hguid⟩ := Option.ne_none_iff_exists'.mp hguid
    have hdisjoint := hsources n v baseObjects hv hbase
    have hrefers := harchive.refersToStream hdisjoint hg (nonneg_of_hasContents hcontents) hguid
    have hrefers' := harchive.refersToStream hdisjoint hg' (nonneg_of_hasContents hcontents')
      (hsame.symm.trans hguid)
    exact (hrefers.unique harchive.generation hrefers').1

/-! ### The last stream of a file -/

/-- The streams of a version. -/
def streamsOfVersion (vs : List Version) (k : Int) : List (Nat × List Byte) :=
  (vs[k.toNat]?.map fun v => v.archive.streams).getD []

/-- The newest of the other versions that are needed ends with a stream that some file still refers
to, or that equals the first stream of the newest version. -/
def FirstStreamSafe (vs : List Version) (v : Version) : Prop :=
  ∀ (first last : Nat × List Byte) (k : Nat) (w : Version), v.archive.streams.head? = some first →
    v.archive.manifest.versionDependencies.getLast? = some (k : Int) → vs[k]? = some w →
    w.archive.streams.getLast? = some last →
      last.1 ∈ restoredIds v.archive.objects ∨ last.2 = first.2

lemma streamsOfVersion_of_getElem? {vs : List Version} {k : Nat} {v : Version}
    (hv : vs[k]? = some v) : streamsOfVersion vs k = v.archive.streams := by
  rw [streamsOfVersion, Int.toNat_natCast, hv]
  rfl

lemma getLast?_filter_append_cons {α : Type} {p : α → Bool} {xs ys : List α} {a : α}
    (ha : p a = true) (hys : ∀ y ∈ ys, p y = false) :
    ((xs ++ a :: ys).filter p).getLast? = some a := by
  have hnone : ys.filter p = [] := List.filter_eq_nil_iff.mpr fun y hy => by simp [hys y hy]
  rw [List.filter_append, List.filter_cons_of_pos ha, hnone,
    List.getLast?_append_of_ne_nil _ (by simp)]
  rfl

/-- A stream is the last one of those that go to its id if those behind it go to others. -/
lemma lastStream_of_split {ids : List Nat} {xs ys : List (Nat × List Byte)}
    {stream : Nat × List Byte} {id : Nat} (hstream : nextRestored ids stream.1 = some id)
    (hbehind : ∀ y ∈ ys, nextRestored ids y.1 ≠ some id) :
    lastStream ids (xs ++ stream :: ys) id = some stream.2 := by
  have hlast : ((xs ++ stream :: ys).filter fun stream : Nat × List Byte =>
      decide (nextRestored ids stream.1 = some id)).getLast? = some stream :=
    getLast?_filter_append_cons (decide_eq_true hstream)
      fun y hy => decide_eq_false (hbehind y hy)
  exact congrArg (Option.map Prod.snd) hlast

section Chain

variable {vs : List Version} {k l : Nat} {v w : Version}

lemma VersionChain.mem_streams (h : VersionChain vs) (hv : vs[k]? = some v)
    {stream : Nat × List Byte} (hstream : stream ∈ v.archive.streams) :
    v.archive.manifest.firstStreamUniqueId ≤ stream.1 ∧
      stream.1 < v.archive.manifest.nextStreamUniqueId := by
  refine ((h.idsOfVersion hv).1.mem_iff stream.1).mp ?_
  rw [← VersionArchive.map_fst_streams]
  exact List.mem_map_of_mem hstream

/-- The streams of later versions have larger ids. -/
lemma VersionChain.stream_lt (h : VersionChain vs) (hv : vs[k]? = some v) (hw : vs[l]? = some w)
    (hlt : k < l) {stream stream' : Nat × List Byte} (hstream : stream ∈ v.archive.streams)
    (hstream' : stream' ∈ w.archive.streams) : stream.1 < stream'.1 :=
  calc stream.1 < v.archive.manifest.nextStreamUniqueId := (h.mem_streams hv hstream).2
    _ ≤ w.archive.manifest.firstStreamUniqueId := h.nextStreamUniqueId_le hv hw hlt
    _ ≤ stream'.1 := (h.mem_streams hw hstream').1

lemma VersionChain.ascending (h : VersionChain vs) (hv : vs[k]? = some v) :
    (v.archive.streams.map Prod.fst).Pairwise (· < ·) := by
  rw [VersionArchive.map_fst_streams, (h.idsOfVersion hv).1.streamIds]
  exact List.pairwise_lt_range'

/-- What is behind a stream in the archive of its version has larger ids. -/
lemma VersionChain.exists_split (h : VersionChain vs) (hv : vs[k]? = some v)
    {stream : Nat × List Byte} (hstream : stream ∈ v.archive.streams) :
    ∃ xs ys, v.archive.streams = xs ++ stream :: ys ∧ ∀ y ∈ ys, stream.1 < y.1 := by
  obtain ⟨xs, ys, hsplit⟩ := List.append_of_mem hstream
  refine ⟨xs, ys, hsplit, fun y hy => ?_⟩
  have hascending := h.ascending hv
  rw [hsplit, List.map_append, List.map_cons, List.pairwise_append, List.pairwise_cons]
    at hascending
  exact hascending.2.1.1 y.1 (List.mem_map_of_mem hy)

/-- What goes by is what is stored, as far as it goes to a file. -/
lemma VersionChain.lastStream_replayedStreams (h : VersionChain vs)
    {archives : Directory ArchiveFile} {versions : List Int}
    (hopen : ∀ version ∈ versions, ∃ (k : Nat) (v : Version), version = k ∧ vs[k]? = some v ∧
      openArchive archives version = .ok (.ofVersionArchive v.archive)) (ids : List Nat)
      (id : Nat) :
    lastStream ids (replayedStreams archives ids versions) id =
      lastStream ids (versions.flatMap (streamsOfVersion vs)) id := by
  rw [lastStream, lastStream, replayedStreams, List.filter_flatMap, List.filter_flatMap]
  refine congrArg (fun streams : List (Nat × List Byte) => streams.getLast?.map Prod.snd) ?_
  refine List.flatMap_congr fun version hversion => ?_
  obtain ⟨k, v, rfl, hv, harchive⟩ := hopen version hversion
  rw [streamsOfVersion_of_getElem? hv, harchive]
  refine filter_passingStreams v.archive.files ?_ id
  have hascending := h.ascending hv
  rwa [VersionArchive.map_fst_streams] at hascending

/-- A stream that a file refers to goes by. -/
lemma VersionChain.mem_replayedStreams (h : VersionChain vs) {archives : Directory ArchiveFile}
    {versions : List Int} (hlisted : (k : Int) ∈ versions) (hv : vs[k]? = some v)
    (hopen : openArchive archives k = .ok (.ofVersionArchive v.archive)) {ids : List Nat}
    {stream : Nat × List Byte} (hstream : stream ∈ v.archive.streams) (hid : stream.1 ∈ ids) :
    stream ∈ replayedStreams archives ids versions := by
  refine List.mem_flatMap.mpr ⟨k, hlisted, ?_⟩
  rw [hopen]
  have hascending := h.ascending hv
  rw [VersionArchive.map_fst_streams] at hascending
  have hfilter := @filter_passingStreams ids v.archive.files hascending stream.1
  have hmem : stream ∈ v.archive.streams.filter
      fun stream' => nextRestored ids stream'.1 = some stream.1 :=
    List.mem_filter.mpr ⟨hstream, decide_eq_true (nextRestored_self hid)⟩
  rw [VersionArchive.streams, ← hfilter] at hmem
  exact (List.mem_filter.mp hmem).1

end Chain

namespace NewestVersion

variable {vs : List Version} {content : Nat → Str → List Byte} {n : Nat} {v : Version}

/-- All streams that go by when the newest version is restored. -/
def allStreams (vs : List Version) (n : Nat) (v : Version) : List (Nat × List Byte) :=
  ((n : Int) :: v.archive.manifest.versionDependencies).flatMap (streamsOfVersion vs)

lemma mem_restoredIds {objects : List PathedObject} {id : Nat} :
    id ∈ restoredIds objects ↔ ∃ o ∈ objects, hasContents o = true ∧ o.2.streamUniqueId = id := by
  simp [restoredIds, and_assoc]

/-- Everything that the newest version stores is restored. -/
lemma mem_restoredIds_of_mem_streams (h : NewestVersion vs content n v)
    {stream : Nat × List Byte} (hstream : stream ∈ v.archive.streams) :
    stream.1 ∈ restoredIds v.archive.objects := by
  obtain ⟨o, ho, hcontents, hid, -⟩ := h.belongs stream hstream
  exact mem_restoredIds.mpr ⟨o, ho, hcontents, hid⟩

/-- A stream of an older version goes to an id that is at most that of the first stream of the
newest one. -/
lemma nextRestored_le_first (h : NewestVersion vs content n v) {first : Nat × List Byte}
    (hfirst : first ∈ v.archive.streams) {k : Nat} {w : Version} (hw : vs[k]? = some w)
    (hlt : k < n) {stream : Nat × List Byte} (hstream : stream ∈ w.archive.streams) {id : Nat}
    (hid : nextRestored (restoredIds v.archive.objects) stream.1 = some id) : id ≤ first.1 :=
  (nextRestored_eq_some_iff.mp hid).2 first.1 (h.mem_restoredIds_of_mem_streams hfirst)
    (h.chain.stream_lt hw h.newest hlt hstream hfirst).le

/-- A dependency is a version of the chain. -/
lemma exists_version (h : NewestVersion vs content n v) {version : Int}
    (hversion : version ∈ v.archive.manifest.versionDependencies) :
    ∃ (k : Nat) (w : Version), version = k ∧ k < n ∧ vs[k]? = some w := by
  obtain ⟨hnonneg, hlt⟩ := h.lower version hversion
  have hlength : version.toNat < vs.length := by
    have := h.length
    omega
  exact ⟨version.toNat, vs[version.toNat], by omega, by omega, List.getElem?_eq_getElem hlength⟩

/-- A stream of an older version is the last one that goes to its id. -/
lemma lastStream_of_older (h : NewestVersion vs content n v) {k : Nat} {w : Version}
    (hlisted : (k : Int) ∈ v.archive.manifest.versionDependencies) (hw : vs[k]? = some w)
    {stream : Nat × List Byte} (hstream : stream ∈ w.archive.streams)
    (hid : stream.1 ∈ restoredIds v.archive.objects) :
    lastStream (restoredIds v.archive.objects) (allStreams vs n v) stream.1 = some stream.2 := by
  obtain ⟨xs, ys, hsplit, hys⟩ := h.chain.exists_split hw hstream
  obtain ⟨before, behind, hdependencies⟩ := List.append_of_mem hlisted
  have hascending := h.ascending
  rw [hdependencies, List.pairwise_append, List.pairwise_cons] at hascending
  have hall : allStreams vs n v =
      (streamsOfVersion vs n ++ before.flatMap (streamsOfVersion vs) ++ xs) ++
        stream :: (ys ++ behind.flatMap (streamsOfVersion vs)) := by
    rw [allStreams, hdependencies, List.flatMap_cons, List.flatMap_append, List.flatMap_cons,
      streamsOfVersion_of_getElem? hw, hsplit]
    simp only [List.append_assoc, List.cons_append]
  rw [hall]
  refine lastStream_of_split (nextRestored_self hid) fun y hy hnext => ?_
  have hle := le_of_nextRestored hnext
  rcases List.mem_append.mp hy with hy | hy
  · exact absurd (hys y hy) (by omega)
  · obtain ⟨version, hversion, hy⟩ := List.mem_flatMap.mp hy
    have hlater := hascending.2.1.1 version hversion
    have hlisted : version ∈ v.archive.manifest.versionDependencies := by
      rw [hdependencies]
      exact List.mem_append_right _ (List.mem_cons_of_mem _ hversion)
    obtain ⟨l, x, rfl, -, hx⟩ := h.exists_version hlisted
    rw [streamsOfVersion_of_getElem? hx] at hy
    have := h.chain.stream_lt hw hx (by omega) hstream hy
    omega

/-- A stream of the newest version is the last one that goes to its id if no stream of an older
version does. -/
lemma lastStream_of_newest (h : NewestVersion vs content n v) {stream : Nat × List Byte}
    (hstream : stream ∈ v.archive.streams)
    (hothers : ∀ (k : Nat) (w : Version), (k : Int) ∈ v.archive.manifest.versionDependencies →
      vs[k]? = some w → ∀ y ∈ w.archive.streams,
        nextRestored (restoredIds v.archive.objects) y.1 ≠ some stream.1) :
    lastStream (restoredIds v.archive.objects) (allStreams vs n v) stream.1 = some stream.2 := by
  obtain ⟨xs, ys, hsplit, hys⟩ := h.chain.exists_split h.newest hstream
  have hall : allStreams vs n v = xs ++
      stream :: (ys ++ v.archive.manifest.versionDependencies.flatMap (streamsOfVersion vs)) := by
    rw [allStreams, List.flatMap_cons, streamsOfVersion_of_getElem? h.newest, hsplit]
    simp only [List.append_assoc, List.cons_append]
  rw [hall]
  refine lastStream_of_split (nextRestored_self (h.mem_restoredIds_of_mem_streams hstream))
    fun y hy hnext => ?_
  rcases List.mem_append.mp hy with hy | hy
  · exact absurd (le_of_nextRestored hnext) (by have := hys y hy; omega)
  · obtain ⟨version, hversion, hy⟩ := List.mem_flatMap.mp hy
    obtain ⟨k, w, rfl, -, hw⟩ := h.exists_version hversion
    rw [streamsOfVersion_of_getElem? hw] at hy
    exact hothers k w hversion hw y hy hnext

lemma head_le (h : NewestVersion vs content n v) {first stream : Nat × List Byte}
    (hfirst : v.archive.streams.head? = some first) (hstream : stream ∈ v.archive.streams) :
    first.1 ≤ stream.1 := by
  obtain ⟨rest, hrest⟩ := List.head?_eq_some_iff.mp hfirst
  have hascending := h.chain.ascending h.newest
  rw [hrest, List.map_cons, List.pairwise_cons] at hascending
  rw [hrest] at hstream
  rcases List.mem_cons.mp hstream with rfl | hstream
  · exact le_rfl
  · exact (hascending.1 stream.1 (List.mem_map_of_mem hstream)).le

lemma le_last {k : Nat} {w : Version} (h : NewestVersion vs content n v) (hw : vs[k]? = some w)
    {last stream : Nat × List Byte} (hlast : w.archive.streams.getLast? = some last)
    (hstream : stream ∈ w.archive.streams) : stream.1 ≤ last.1 := by
  obtain ⟨rest, hrest⟩ := List.getLast?_eq_some_iff.mp hlast
  have hascending := h.chain.ascending hw
  rw [hrest, List.map_append, List.pairwise_append] at hascending
  rw [hrest] at hstream
  rcases List.mem_append.mp hstream with hstream | hstream
  · exact (hascending.2.2 stream.1 (List.mem_map_of_mem hstream) last.1 (by simp)).le
  · rw [List.mem_singleton.mp hstream]

lemma le_lastDependency (h : NewestVersion vs content n v) {k version : Int}
    (hlast : v.archive.manifest.versionDependencies.getLast? = some k)
    (hversion : version ∈ v.archive.manifest.versionDependencies) : version ≤ k := by
  obtain ⟨rest, hrest⟩ := List.getLast?_eq_some_iff.mp hlast
  have hascending := h.ascending
  rw [hrest, List.pairwise_append] at hascending
  rw [hrest] at hversion
  rcases List.mem_append.mp hversion with hversion | hversion
  · exact (hascending.2.2 version hversion k (by simp)).le
  · rw [List.mem_singleton.mp hversion]

/-- An object with contents refers to a stream of a version that goes by. -/
lemma exists_stream (h : NewestVersion vs content n v) {o : PathedObject}
    (ho : o ∈ v.archive.objects) (hcontents : hasContents o = true) :
    ∃ (k : Nat) (w : Version), vs[k]? = some w ∧
      (k = n ∨ k < n ∧ (k : Int) ∈ v.archive.manifest.versionDependencies) ∧
      (o.2.streamUniqueId, content n o.1.mappedPath) ∈ w.archive.streams := by
  obtain ⟨k, w, hk, hw, hversion, hdata⟩ := h.refers o ho hcontents
  refine ⟨k, w, hw, ?_, VersionArchive.mem_streams_of_streamData hdata⟩
  rcases hk.eq_or_lt with rfl | hlt
  · exact .inl rfl
  · exact .inr ⟨hlt, (h.listed k).mpr ⟨hlt.ne, o, ho, hcontents, hversion⟩⟩

/-- The last stream of all goes to the first stream of the newest version if no file refers to
it. -/
lemma nextRestored_last (h : NewestVersion vs content n v) {first last : Nat × List Byte}
    (hfirst : v.archive.streams.head? = some first) {k : Nat} {w : Version}
    (hdependency : v.archive.manifest.versionDependencies.getLast? = some (k : Int))
    (hw : vs[k]? = some w) (hlast : w.archive.streams.getLast? = some last)
    (hunreferenced : last.1 ∉ restoredIds v.archive.objects) :
    nextRestored (restoredIds v.archive.objects) last.1 = some first.1 := by
  have hfirstmem := List.mem_of_head? hfirst
  have hlastmem := List.mem_of_getLast? hlast
  have hlt : k < n := by
    have := (h.lower k (List.mem_of_getLast? hdependency)).2
    omega
  refine nextRestored_eq_some_iff.mpr ⟨⟨h.mem_restoredIds_of_mem_streams hfirstmem,
    (h.chain.stream_lt hw h.newest hlt hlastmem hfirstmem).le⟩, fun id hid hle => ?_⟩
  obtain ⟨o, ho, hcontents, rfl⟩ := mem_restoredIds.mp hid
  obtain ⟨j, x, hx, hj, hstream⟩ := h.exists_stream ho hcontents
  rcases hj with rfl | ⟨-, hlisted⟩
  · rw [h.newest, Option.some.injEq] at hx
    subst hx
    exact h.head_le hfirst hstream
  · have hjk : j ≤ k := by
      have := h.le_lastDependency hdependency hlisted
      omega
    rcases hjk.eq_or_lt with rfl | hjk
    · rw [hw, Option.some.injEq] at hx
      subst hx
      have heq : o.2.streamUniqueId = last.1 := le_antisymm (h.le_last hw hlast hstream) hle
      exact absurd (heq ▸ hid) hunreferenced
    · have := h.chain.stream_lt hx hw hjk hstream hlastmem
      simp only at this
      omega

/-- The file with the first stream of the newest version gets the last stream of all if no file
refers to the latter. -/
lemma lastStream_of_unreferenced (h : NewestVersion vs content n v) {first last : Nat × List Byte}
    (hfirst : v.archive.streams.head? = some first) {k : Nat} {w : Version}
    (hdependency : v.archive.manifest.versionDependencies.getLast? = some (k : Int))
    (hw : vs[k]? = some w) (hlast : w.archive.streams.getLast? = some last)
    (hunreferenced : last.1 ∉ restoredIds v.archive.objects) :
    lastStream (restoredIds v.archive.objects) (allStreams vs n v) first.1 = some last.2 := by
  obtain ⟨before, hbefore⟩ := List.getLast?_eq_some_iff.mp hdependency
  obtain ⟨xs, hxs⟩ := List.getLast?_eq_some_iff.mp hlast
  have hall : allStreams vs n v =
      (streamsOfVersion vs n ++ before.flatMap (streamsOfVersion vs) ++ xs) ++ last :: [] := by
    rw [allStreams, hbefore, List.flatMap_cons, List.flatMap_append, List.flatMap_singleton,
      streamsOfVersion_of_getElem? hw, hxs]
    simp only [List.append_assoc]
  rw [hall]
  exact lastStream_of_split (h.nextRestored_last hfirst hdependency hw hlast hunreferenced)
    fun y hy => by cases hy

/-- If the first stream is safe, every stream of the newest version is the last one that goes to its
id, or equal to it. -/
lemma lastStream_of_safe (h : NewestVersion vs content n v) (hsafe : FirstStreamSafe vs v)
    {stream : Nat × List Byte} (hstream : stream ∈ v.archive.streams) :
    lastStream (restoredIds v.archive.objects) (allStreams vs n v) stream.1 = some stream.2 := by
  obtain ⟨first, hfirst⟩ := Option.isSome_iff_exists.mp
    (List.isSome_head?.mpr (List.ne_nil_of_mem hstream))
  have hfirstmem := List.mem_of_head? hfirst
  have hle := h.head_le hfirst hstream
  rcases hle.lt_or_eq with hlt | heq
  · refine h.lastStream_of_newest hstream fun k w hk hw y hy hnext => ?_
    have hkn : k < n := by
      have := (h.lower k hk).2
      omega
    have := h.nextRestored_le_first hfirstmem hw hkn hy hnext
    omega
  obtain rfl : stream = first := by
    have hnodup : (v.archive.streams.map Prod.fst).Nodup :=
      (h.chain.ascending h.newest).imp fun hlt => hlt.ne
    exact List.inj_on_of_nodup_map hnodup hstream hfirstmem heq.symm
  cases hdependency : v.archive.manifest.versionDependencies.getLast? with
  | none =>
    rw [List.getLast?_eq_none_iff] at hdependency
    refine h.lastStream_of_newest hstream fun k w hk => ?_
    rw [hdependency] at hk
    cases hk
  | some version =>
    obtain ⟨k, w, rfl, hkn, hw⟩ := h.exists_version (List.mem_of_getLast? hdependency)
    -- a version that is needed has something stored
    obtain ⟨last, hlast⟩ : ∃ last, w.archive.streams.getLast? = some last := by
      obtain ⟨-, o, ho, hcontents, hversion⟩ :=
        (h.listed k).mp (List.mem_of_getLast? hdependency)
      obtain ⟨j, x, -, hx, hj, hdata⟩ := h.refers o ho hcontents
      obtain rfl : j = k := by omega
      rw [hw, Option.some.injEq] at hx
      subst hx
      exact Option.isSome_iff_exists.mp (List.getLast?_isSome.mpr
        (List.ne_nil_of_mem (VersionArchive.mem_streams_of_streamData hdata)))
    have hlastmem := List.mem_of_getLast? hlast
    by_cases hreferenced : last.1 ∈ restoredIds v.archive.objects
    · refine h.lastStream_of_newest hstream fun j x hj hx y hy hnext => ?_
      have hyle : y.1 ≤ last.1 := by
        have hjk : j ≤ k := by
          have := h.le_lastDependency hdependency hj
          omega
        rcases hjk.eq_or_lt with rfl | hjk
        · rw [hw, Option.some.injEq] at hx
          subst hx
          exact h.le_last hw hlast hy
        · exact (h.chain.stream_lt hx hw hjk hy hlastmem).le
      have hnextle := (nextRestored_eq_some_iff.mp hnext).2 last.1 hreferenced hyle
      have := h.chain.stream_lt hw h.newest hkn hlastmem hstream
      omega
    · rw [h.lastStream_of_unreferenced hfirst hdependency hw hlast hreferenced]
      rcases hsafe stream last k w hfirst hdependency hw hlast with h' | hbytes
      · exact absurd h' hreferenced
      · rw [hbytes]

/-- All files get their contents if and only if the first stream is safe. -/
lemma lastStream_iff_safe (h : NewestVersion vs content n v) :
    (∀ o ∈ v.archive.objects, hasContents o = true →
      lastStream (restoredIds v.archive.objects) (allStreams vs n v) o.2.streamUniqueId =
        some (content n o.1.mappedPath)) ↔ FirstStreamSafe vs v := by
  constructor
  · intro hall first last k w hfirst hdependency hw hlast
    by_cases hreferenced : last.1 ∈ restoredIds v.archive.objects
    · exact .inl hreferenced
    · obtain ⟨o, ho, hcontents, hid, hbytes⟩ := h.belongs first (List.mem_of_head? hfirst)
      have hown := hall o ho hcontents
      rw [hid, h.lastStream_of_unreferenced hfirst hdependency hw hlast hreferenced, hbytes] at hown
      exact .inr (Option.some.inj hown)
  · intro hsafe o ho hcontents
    obtain ⟨k, w, hw, hk, hstream⟩ := h.exists_stream ho hcontents
    rcases hk with rfl | ⟨-, hlisted⟩
    · rw [h.newest, Option.some.injEq] at hw
      subst hw
      exact h.lastStream_of_safe hsafe hstream
    · exact h.lastStream_of_older hlisted hw hstream (mem_restoredIds.mpr ⟨o, ho, hcontents, rfl⟩)

end NewestVersion

/-! ### The round trip -/

section RoundTrip

variable {culture : Culture} {targetLocation : Str} {vs : List Version} {dir : TargetDirectory}
  {content : Nat → Str → List Byte} {n : Nat} {v : Version} {env : RestoreEnv} {fuel : Nat}
  {e e' : BackupEngine} {d d' : Disk}

lemma HasChain.openArchive (h : HasChain culture targetLocation vs dir) {k : Nat} {w : Version}
    (hw : vs[k]? = some w) :
    openArchive dir.archiveFiles k = .ok (.ofVersionArchive w.archive) := by
  rw [BackupProgram.openArchive, get?_archiveFiles, h.present k w hw]
  rfl

lemma restoredIds_stored (objects : List PathedObject) :
    restoredIds (objects.map fun o => (o.1, o.2.stored)) = restoredIds objects := by
  rw [restoredIds, restoredIds, List.filter_map, List.map_map]
  rfl

/-- What a new engine restores, in terms of the chain. -/
lemma NewestVersion.filesRestored (hchain : HasChain culture targetLocation vs dir)
    (h : NewestVersion vs content n v) (hnew : BackupEngine.new culture targetLocation dir = .ok e)
    (hlocations : (v.archive.objects.map (location env)).Nodup)
    (hrestore : restoreBackup env dir.archiveFiles fuel e d = some (.ok e' d')) :
    (∀ o ∈ v.archive.objects, hasContents o = true →
      ∃ i, d'.get? (location env o) = some (.file i) ∧
        lastStream (restoredIds v.archive.objects) (NewestVersion.allStreams vs n v)
          o.2.streamUniqueId = some (d'.contents i)) ∧
    ∀ o ∈ v.archive.objects, ∀ o' ∈ v.archive.objects, hasContents o = true →
      hasContents o' = true → (d'.get? (location env o) = d'.get? (location env o') ↔
        o.2.streamUniqueId = o'.2.streamUniqueId) := by
  have hversions := (BackupEngine.versions_of_new hnew).2
  have hback : e.versions.getLast? = some (n : Int) := by
    have hlast : vs.getLast? = some v := by
      rw [List.getLast?_eq_getElem?, ← h.length, Nat.add_sub_cancel, h.newest]
    rw [hchain.getLast? hversions, hlast, ← h.length]
    simp
  have hfresh : e.oldObjects = [] := by
    simp only [BackupEngine.new, bind_eq_ok, pure_eq_ok] at hnew
    obtain ⟨versions, -, rfl⟩ := hnew
    rfl
  let latestVersion : VersionForRestore := ⟨v.archive.manifest, v.archive.getBaseObjects⟩
  have hload : loadVersion dir.archiveFiles n n = .ok latestVersion := by
    rw [loadVersion, hchain.openArchive h.newest]
    simp only [ok_bind, if_true]
    rfl
  have hobjects : latestVersion.objects = v.archive.objects.map fun o => (o.1, o.2.stored) :=
    v.archive.iterate_getBaseObjects
  have hfiles := filesRestored_of_restoreBackup hfresh hback hload
    (by rw [hobjects, List.map_map]; exact hlocations) (by
      rw [hobjects]
      intro o ho htype
      obtain ⟨g, hg, rfl⟩ := List.mem_map.mp ho
      exact h.targets g hg htype) hrestore
  rw [hobjects, restoredIds_stored] at hfiles
  have hopen : ∀ version ∈ (n : Int) :: v.archive.manifest.versionDependencies,
      ∃ (k : Nat) (w : Version), version = k ∧ vs[k]? = some w ∧
        BackupProgram.openArchive dir.archiveFiles version = .ok (.ofVersionArchive w.archive) := by
    intro version hversion
    rcases List.mem_cons.mp hversion with rfl | hversion
    · exact ⟨n, v, rfl, h.newest, hchain.openArchive h.newest⟩
    · obtain ⟨k, w, rfl, -, hw⟩ := h.exists_version hversion
      exact ⟨k, w, rfl, hw, hchain.openArchive hw⟩
  have hfile : ∀ o ∈ v.archive.objects, hasContents o = true →
      ∃ i, d'.get? (location env o) = some (.file i) ∧
        lastStream (restoredIds v.archive.objects) (NewestVersion.allStreams vs n v)
          o.2.streamUniqueId = some (d'.contents i) := by
    intro o ho hcontents
    obtain ⟨k, w, hw, hk, hstream⟩ := h.exists_stream ho hcontents
    have hlisted : (k : Int) ∈ (n : Int) :: v.archive.manifest.versionDependencies := by
      rcases hk with rfl | ⟨-, hk⟩
      · exact List.mem_cons_self
      · exact List.mem_cons_of_mem _ hk
    obtain ⟨i, hi, hlast⟩ := hfiles.file (o.1, o.2.stored) (List.mem_map_of_mem ho) hcontents
      ⟨_, h.chain.mem_replayedStreams hlisted hw (hchain.openArchive hw) hstream
        (NewestVersion.mem_restoredIds.mpr ⟨o, ho, hcontents, rfl⟩)⟩
    refine ⟨i, hi, ?_⟩
    rw [restoredIds_stored, h.chain.lastStream_replayedStreams hopen] at hlast
    exact hlast
  refine ⟨hfile, fun o ho o' ho' hcontents hcontents' => ?_⟩
  obtain ⟨i, hi, -⟩ := hfile o ho hcontents
  obtain ⟨j, hj, -⟩ := hfile o' ho' hcontents'
  have hsame := hfiles.same (o.1, o.2.stored) (List.mem_map_of_mem ho) (o'.1, o'.2.stored)
    (List.mem_map_of_mem ho') hcontents hcontents' i j hi hj
  rw [hi, hj, Option.some.injEq, DiskEntry.file.injEq]
  exact hsame

/-- After backups by new engines, a new engine restores every file with the bytes that it had at the
time of the newest backup, if and only if the first stream of the newest version is safe. -/
theorem restored_iff_firstStreamSafe (h : FreshBackups culture targetLocation vs dir)
    (hcontent : ContentOfFiles vs content) (hsound : SoundCriterion vs content)
    (hsources : SourcesDisjoint vs) (hunchanged : ChainUnchangedHaveData vs)
    (hv : vs[n]? = some v) (hlength : n + 1 = vs.length)
    (hnew : BackupEngine.new culture targetLocation dir = .ok e)
    (hlocations : (v.archive.objects.map (location env)).Nodup)
    (hrestore : restoreBackup env dir.archiveFiles fuel e d = some (.ok e' d')) :
    (∀ o ∈ v.archive.objects, hasContents o = true →
      d'.read? (location env o) = some (content n o.1.mappedPath)) ↔ FirstStreamSafe vs v := by
  have hnewest := h.hasChain.chain.newestVersion hcontent hsound hsources hunchanged hv hlength
  obtain ⟨hfile, -⟩ := hnewest.filesRestored h.hasChain hnew hlocations hrestore
  rw [← hnewest.lastStream_iff_safe]
  refine forall_congr' fun o => forall_congr' fun ho => forall_congr' fun hcontents => ?_
  obtain ⟨i, hi, hlast⟩ := hfile o ho hcontents
  rw [Disk.read?, hi, hlast]

/-- The names of a file are restored as names of one file, and two objects are restored as the same
file if and only if they have the same stream. -/
theorem hardLinks_restored (h : FreshBackups culture targetLocation vs dir)
    (hcontent : ContentOfFiles vs content) (hsound : SoundCriterion vs content)
    (hsources : SourcesDisjoint vs) (hunchanged : ChainUnchangedHaveData vs)
    (hv : vs[n]? = some v) (hlength : n + 1 = vs.length)
    (hnew : BackupEngine.new culture targetLocation dir = .ok e)
    (hlocations : (v.archive.objects.map (location env)).Nodup)
    (hrestore : restoreBackup env dir.archiveFiles fuel e d = some (.ok e' d')) :
    ∀ o ∈ v.archive.objects, ∀ o' ∈ v.archive.objects, hasContents o = true →
      hasContents o' = true →
        (∃ i, d'.get? (location env o) = some (.file i)) ∧
        (d'.get? (location env o) = d'.get? (location env o') ↔
          o.2.streamUniqueId = o'.2.streamUniqueId) ∧
        (o.2.fileSystemGuid ≠ none → o.2.fileSystemGuid = o'.2.fileSystemGuid →
          d'.get? (location env o) = d'.get? (location env o')) := by
  have hnewest := h.hasChain.chain.newestVersion hcontent hsound hsources hunchanged hv hlength
  obtain ⟨hfile, hsame⟩ := hnewest.filesRestored h.hasChain hnew hlocations hrestore
  intro o ho o' ho' hcontents hcontents'
  have hiff := hsame o ho o' ho' hcontents hcontents'
  refine ⟨?_, hiff, fun hguid heq => ?_⟩
  · obtain ⟨i, hi, -⟩ := hfile o ho hcontents
    exact ⟨i, hi⟩
  · exact hiff.mpr (hnewest.names o ho o' ho' hcontents hcontents' hguid heq)

end RoundTrip

/-! ### A directory in which a file has changed -/

def pathA : Str := ['C', ':', '\\', 'd', '\\', 'a']

def pathB : Str := ['C', ':', '\\', 'd', '\\', 'b']

def pathC : Str := ['C', ':', '\\', 'd', '\\', 'c']

/-- A backup of a directory `C:\d` where a file with the given bytes has the names `a` and `b`, next
to a file `c`. -/
def changedBackup (bytes : List Byte) : BackupCall where
  env := .plain
    { lookup := fun path =>
        if path = ['C', ':', '\\', 'd'] then
          some ⟨{ name := ['d'], type := some .directory },
            .cons
              { name := ['a'], type := some .fileHardlink, size := some bytes.length,
                guid := .found 7 }
              .nil
              (.cons
                { name := ['b'], type := some .fileHardlink, size := some bytes.length,
                  guid := .found 7 }
                .nil
                (.cons
                  { name := ['c'], type := some .regularFile, size := some 1, guid := .found 8 }
                  .nil .nil))⟩
        else none
      getFileGuid := fun _ => .failed
      readFile := fun path =>
        if path = pathA ∨ path = pathB then some bytes
        else if path = pathC then some [3] else none }
    fun o => if o.2.isDirectoryish then .directory else .full
  sourceLocations := [['C', ':', '\\', 'd']]
  shadows := none
  startTime := 0
  writeError := none

/-- What the files contain at the two backups. -/
def changedContent (n : Nat) (path : Str) : List Byte :=
  if path = pathC then [3] else if n = 0 then [1] else [2, 2]

/-- The archive with its dependencies evaluated. -/
def VersionArchive.withDependencies (a : VersionArchive) (versionDependencies : List Int) :
    VersionArchive :=
  { a with manifest := { a.manifest with versionDependencies := versionDependencies } }

lemma VersionArchive.eq_withDependencies {a : VersionArchive} {versionDependencies : List Int}
    (h : a.manifest.versionDependencies = versionDependencies) :
    a = a.withDependencies versionDependencies := by
  rw [withDependencies, ← h]

/-- A name of the file that changes. -/
def changedFile (name : Char) (n streamUniqueId : Nat) (hashes : List (HashType × List Byte)) :
    FileSystemObject where
  type := .fileHardlink
  name := [name]
  streamUniqueId := streamUniqueId
  size := (changedContent n pathA).length
  fileSystemGuid := some 7
  hashes := hashes
  latestVersion := n
  backupMode := .full
  backupStream := some 0

/-- The archives of the directory. -/
def directoryArchive (n streamUniqueId : Nat) (files : List (Nat × List Byte × HashType))
    (backupMode : BackupMode) (backupStream : Option Nat) (versionDependencies : List Int) :
    VersionArchive where
  files := (streamUniqueId, changedContent n pathA, .sha256) :: files
  baseObjects :=
    [⟨{ type := .directory
        name := ['d']
        mappedBasePath := ['C', ':']
        unmappedBasePath := ['C', ':']
        isMain := true
        latestVersion := -1
        backupMode := .directory },
      .cons (changedFile 'a' n streamUniqueId
          [(.sha256, (changedBackup []).env.hash .sha256 (changedContent n pathA))]) .nil
        (.cons (changedFile 'b' n streamUniqueId []) .nil
          (.cons
            { type := .regularFile
              name := ['c']
              streamUniqueId := 2
              size := 1
              fileSystemGuid := some 8
              hashes := [(.sha256, (changedBackup []).env.hash .sha256 [3])]
              backupMode := backupMode
              backupStream := backupStream } .nil .nil))⟩]
  manifest :=
    { creationTime := 0
      versionNumber := n
      versionDependencies := versionDependencies
      entryCount := 1
      firstStreamUniqueId := streamUniqueId
      nextStreamUniqueId := streamUniqueId + files.length + 1
      firstDifferentialChainUniqueId := 1
      nextDifferentialChainUniqueId := 1
      archiveMetadata := none }

def firstDirectoryArchive : VersionArchive :=
  directoryArchive 0 1 [(2, [3], .sha256)] .full (some 1) []

/-- Only the file that has changed is stored again. -/
def secondDirectoryArchive : VersionArchive := directoryArchive 1 3 [] .unmodified none [0]

def directoryVersions : List Version :=
  [⟨changedBackup [1], firstDirectoryArchive⟩, ⟨changedBackup [2, 2], secondDirectoryArchive⟩]

def directoryArchives : TargetDirectory :=
  [(getVersionName 0, some firstDirectoryArchive), (getVersionName 1, some secondDirectoryArchive)]

/-- The two backups, between which a file changes. -/
lemma exists_backups_directory : ∃ e1 e2,
    (engineOf []).performBackup (changedBackup [1]) [] =
      .ok (e1, [(getVersionName 0, some firstDirectoryArchive)]) ∧
    (engineOf [0]).performBackup (changedBackup [2, 2])
        [(getVersionName 0, some firstDirectoryArchive)] = .ok (e2, directoryArchives) := by
  obtain ⟨e1, r1, hbackup1, hdependencies1, hr1⟩ : ∃ e1 r1,
      (engineOf []).performBackup (changedBackup [1]) [] =
        .ok (e1, [(getVersionName 0, some r1)]) ∧
      r1.manifest.versionDependencies = sortedDependencies ∅ ∧
      r1.withDependencies [] = firstDirectoryArchive := ⟨_, _, rfl, rfl, rfl⟩
  have hempty : sortedDependencies ∅ = [] := by simp [sortedDependencies]
  rw [VersionArchive.eq_withDependencies (hdependencies1.trans hempty), hr1] at hbackup1
  obtain ⟨e2, r2, hbackup2, hdependencies2, hr2⟩ : ∃ e2 r2,
      (engineOf [0]).performBackup (changedBackup [2, 2])
          [(getVersionName 0, some firstDirectoryArchive)] =
        .ok (e2, [(getVersionName 0, some firstDirectoryArchive), (getVersionName 1, some r2)]) ∧
      r2.manifest.versionDependencies = sortedDependencies (insert 0 ∅) ∧
      r2.withDependencies [0] = secondDirectoryArchive := ⟨_, _, rfl, rfl, rfl⟩
  have hsingle : sortedDependencies (insert 0 ∅) = [0] := by simp [sortedDependencies]
  rw [VersionArchive.eq_withDependencies (hdependencies2.trans hsingle), hr2] at hbackup2
  exact ⟨e1, e2, hbackup1, hbackup2⟩

lemma freshBackups_directory : FreshBackups .ordinal ['T'] directoryVersions directoryArchives := by
  obtain ⟨e1, e2, hbackup1, hbackup2⟩ := exists_backups_directory
  have hfirst : FreshBackups .ordinal ['T'] [⟨changedBackup [1], firstDirectoryArchive⟩]
      [(getVersionName 0, some firstDirectoryArchive)] :=
    .backup (e := engineOf []) _ (.nil _) rfl hbackup1 rfl
  exact .backup (e := engineOf [0]) _ hfirst rfl hbackup2 rfl

lemma exists_restore_directory : ∃ e' d',
    restoreBackup plainMachine directoryArchives.archiveFiles 10 (engineOf [0, 1]) emptyDrive =
      some (.ok e' d') := ⟨_, _, rfl⟩

/-- What matters of a scanned object. -/
structure Scanned where
  path : Str
  type : FileSystemObjectType
  guid : Option Guid
  mode : BackupMode
  size : Nat
deriving DecidableEq

def scanned (o : PathedObject) : Scanned :=
  ⟨o.1.mappedPath, o.2.type, o.2.fileSystemGuid, o.2.backupMode, o.2.size⟩

def scannedDirectory (size : Nat) : List Scanned :=
  [⟨['C', ':', '\\', 'd'], .directory, none, .directory, 0⟩,
    ⟨pathA, .fileHardlink, some 7, .full, size⟩,
    ⟨pathB, .fileHardlink, some 7, .full, size⟩, ⟨pathC, .regularFile, some 8, .full, 1⟩]

/-- What the two backups have found. -/
lemma scanned_directory {n : Nat} {v : Version} {baseObjects : List FileSystemTree}
    (hv : directoryVersions[n]? = some v)
    (hbase : v.call.baseObjects (previousVersion directoryVersions n) = .ok baseObjects) :
    (baseObjects.flatMap FileSystemTree.iterate).map scanned = scannedDirectory (n + 1) := by
  match n, hv with
  | 0, hv =>
    obtain rfl := Option.some.inj hv
    obtain ⟨bs, hbs, hscanned⟩ : ∃ bs, (changedBackup [1]).baseObjects none = .ok bs ∧
        (bs.flatMap FileSystemTree.iterate).map scanned = scannedDirectory 1 := ⟨_, rfl, rfl⟩
    obtain rfl := Except.ok.inj (hbs.symm.trans hbase)
    exact hscanned
  | 1, hv =>
    obtain rfl := Option.some.inj hv
    obtain ⟨bs, hbs, hscanned⟩ : ∃ bs,
        (changedBackup [2, 2]).baseObjects (some firstDirectoryArchive) = .ok bs ∧
        (bs.flatMap FileSystemTree.iterate).map scanned = scannedDirectory 2 := ⟨_, rfl, rfl⟩
    obtain rfl := Except.ok.inj (hbs.symm.trans hbase)
    exact hscanned

lemma scanned_mem {os : List PathedObject} {size : Nat} (h : os.map scanned = scannedDirectory size)
    {o : PathedObject} (ho : o ∈ os) : scanned o ∈ scannedDirectory size :=
  h ▸ List.mem_map_of_mem ho

lemma scanned_getElem {os : List PathedObject} {size : Nat}
    (h : os.map scanned = scannedDirectory size) {i : Nat} {o : PathedObject}
    (ho : os[i]? = some o) :
    (scannedDirectory size)[i]? = some (scanned o) := by
  rw [← h, List.getElem?_map, ho, Option.map_some]

lemma scanned_type_ne {o : PathedObject} (h : o.2.isIncluded) : (scanned o).type ≠ .directory := by
  intro hdirectory
  have hexcluded : o.2.isIncluded = false := by
    simp [FileSystemObject.isIncluded, FileSystemObject.isDirectoryish,
      show o.2.type = .directory from hdirectory]
  rw [hexcluded] at h
  cases h

/-- The names of a file have the same content. -/
lemma changedContent_of_guid {size : Nat} {x : Scanned} (hx : x ∈ scannedDirectory size)
    (hguid : x.guid ≠ none) (n : Nat) :
    changedContent n x.path = if x.guid = some 8 then [3] else changedContent n pathA := by
  simp only [scannedDirectory, List.mem_cons, List.not_mem_nil, or_false] at hx
  rcases hx with rfl | rfl | rfl | rfl
  · exact absurd rfl hguid
  · rfl
  · rfl
  · rfl

lemma contentOfFiles_changed : ContentOfFiles directoryVersions changedContent where
  read n v path bytes hv hread := by
    have hc : pathA ≠ pathC ∧ pathB ≠ pathC := by decide
    match n, hv with
    | 0, hv =>
      obtain rfl := Option.some.inj hv
      simp only [changedBackup, BackupEnv.plain] at hread
      split_ifs at hread with hab hpath
      · rcases hab with rfl | rfl <;> simpa [changedContent, hc] using hread
      · simpa [changedContent, hpath] using hread
    | 1, hv =>
      obtain rfl := Option.some.inj hv
      simp only [changedBackup, BackupEnv.plain] at hread
      split_ifs at hread with hab hpath
      · rcases hab with rfl | rfl <;> simpa [changedContent, hc] using hread
      · simpa [changedContent, hpath] using hread
  names n v baseObjects o o' hv hbase ho ho' hguid hsame := by
    have hscanned := scanned_directory hv hbase
    have hmem := scanned_mem hscanned ho
    have hmem' := scanned_mem hscanned ho'
    have hsame' : (scanned o).guid = (scanned o').guid := hsame
    have hguid' : (scanned o').guid ≠ none := hguid
    exact (changedContent_of_guid hmem (hsame' ▸ hguid') n).trans
      ((changedContent_of_guid hmem' hguid' n).symm ▸ by rw [hsame'])

/-- Only `b` comes after another name of its file. -/
lemma sourcesDisjoint_directory : SourcesDisjoint directoryVersions := by
  rintro n v baseObjects hv hbase i o ho hincluded ⟨-, k, ok, hk, hok, -, hsame⟩
  have hscanned := scanned_directory hv hbase
  have hi := scanned_getElem hscanned ho
  have hk' := scanned_getElem hscanned hok
  have hguid : (scanned ok).guid = (scanned o).guid := hsame
  change (scanned o).type = .fileHardlink
  have hdirectory := scanned_type_ne hincluded
  match i, hi with
  | 0, hi =>
    rw [← Option.some.inj hi] at hdirectory
    exact absurd rfl hdirectory
  | 1, hi => rw [← Option.some.inj hi]
  | 2, hi => rw [← Option.some.inj hi]
  | 3, hi =>
    rw [← Option.some.inj hi] at hguid
    match k, hk, hk' with
    | 0, _, hk' | 1, _, hk' | 2, _, hk' =>
      rw [← Option.some.inj hk'] at hguid
      exact absurd hguid (by simp)

/-- Only `c` is called unchanged at the second backup. -/
lemma unchanged_directory {o : PathedObject} {oldFile : FileSystemObject}
    (ho : scanned o ∈ scannedDirectory 2) (hincluded : o.2.isIncluded)
    (h : Unchanged (changedBackup [2, 2]).env 1 firstDirectoryArchive.getBaseObjects o oldFile) :
    o.1.mappedPath = pathC ∧
      findPath .ordinal firstDirectoryArchive.getBaseObjects pathC = some oldFile := by
  obtain ⟨hfind, fso, happly⟩ := h
  replace hfind : findPath .ordinal firstDirectoryArchive.getBaseObjects (scanned o).path =
    some oldFile := hfind
  have hsize : (scanned o).size = oldFile.size := by
    simp only [applyCriterium, changedBackup, BackupEnv.plain, pure_eq_ok, Prod.mk.injEq,
      bne_eq_false_iff_eq] at happly
    exact happly.1
  have hdirectory := scanned_type_ne hincluded
  change (scanned o).path = pathC ∧ _
  have hold : ∀ path ∈ [pathA, pathB],
      (findPath .ordinal firstDirectoryArchive.getBaseObjects path).map FileSystemObject.size =
        some 1 := by decide
  generalize scanned o = x at *
  simp only [scannedDirectory, List.mem_cons, List.not_mem_nil, or_false] at ho
  rcases ho with rfl | rfl | rfl | rfl
  · exact absurd rfl hdirectory
  · have hone := hold pathA (by simp)
    simp only [hfind, Option.map_some, Option.some.injEq] at hone hsize
    omega
  · have hone := hold pathB (by simp)
    simp only [hfind, Option.map_some, Option.some.injEq] at hone hsize
    omega
  · exact ⟨rfl, hfind⟩

/-- What is found of `c` in the first version. -/
lemma findPath_pathC : ∃ oldFile g,
    findPath .ordinal firstDirectoryArchive.getBaseObjects pathC = some oldFile ∧
      firstDirectoryArchive.objects[3]? = some g ∧ oldFile = g.2.stored ∧ g.1.mappedPath = pathC ∧
      oldFile.latestVersion = 0 ∧
      (((changedBackup [2, 2]).oldObjectsDict firstDirectoryArchive.getBaseObjects).lookup
        (StringUtils.simplifyPath .ordinal pathC)).map FileSystemObject.streamUniqueId =
          some oldFile.streamUniqueId :=
  ⟨_, _, rfl, rfl, rfl, rfl, rfl, rfl⟩

/-- The versions of a chain of two that follow each other. -/
lemma directoryVersions_succ {n : Nat} {v w : Version} (hv : directoryVersions[n]? = some v)
    (hw : directoryVersions[n + 1]? = some w) :
    n = 0 ∧ v = ⟨changedBackup [1], firstDirectoryArchive⟩ ∧
      w = ⟨changedBackup [2, 2], secondDirectoryArchive⟩ := by
  match n, hv, hw with
  | 0, hv, hw => exact ⟨rfl, (Option.some.inj hv).symm, (Option.some.inj hw).symm⟩

lemma soundCriterion_changed : SoundCriterion directoryVersions changedContent := by
  intro n v w baseObjects o oldFile hv hw hbase ho hincluded hunchanged _
  have hprevious : previousVersion directoryVersions (n + 1) = some v.archive :=
    previousVersion_succ hv
  have hscanned := scanned_directory hw (hprevious ▸ hbase)
  obtain ⟨rfl, rfl, rfl⟩ := directoryVersions_succ hv hw
  obtain ⟨hpath, hfind⟩ := unchanged_directory (scanned_mem hscanned ho) hincluded hunchanged
  obtain ⟨oldFile', g, hfind', hg, hstored, hgpath, -⟩ := findPath_pathC
  obtain rfl := Option.some.inj (hfind.symm.trans hfind')
  refine ⟨g, List.mem_of_getElem? hg, hstored, ?_⟩
  rw [hpath, hgpath]
  rfl

lemma chainUnchangedHaveData_directory : ChainUnchangedHaveData directoryVersions := by
  intro n v w baseObjects hv hw hbase
  have hprevious : previousVersion directoryVersions (n + 1) = some v.archive :=
    previousVersion_succ hv
  have hscanned := scanned_directory hw (hprevious ▸ hbase)
  obtain ⟨rfl, rfl, rfl⟩ := directoryVersions_succ hv hw
  constructor
  · intro i o oldFile ho hincluded _ _ hunchanged
    obtain ⟨hpath, hfind⟩ := unchanged_directory
      (scanned_mem hscanned (List.mem_of_getElem? ho)) hincluded hunchanged
    obtain ⟨oldFile', g, hfind', -, -, -, hversion, hdict⟩ := findPath_pathC
    obtain rfl := Option.some.inj (hfind.symm.trans hfind')
    refine ⟨hversion.ge, ?_⟩
    rw [hpath]
    exact hdict
  · intro i o ho _ _ hmode
    have hmem := scanned_mem hscanned (List.mem_of_getElem? ho)
    have hnot : ∀ x ∈ scannedDirectory 2, x.mode ≠ .unmodified := by decide
    exact absurd hmode (hnot _ hmem)

/-- The last stream of the first version is still the one of `c`. -/
lemma firstStreamSafe_directory :
    FirstStreamSafe directoryVersions ⟨changedBackup [2, 2], secondDirectoryArchive⟩ := by
  intro first last k w _ hdependency hw hlast
  have hk : (0 : Int) = k := Option.some.inj hdependency
  obtain rfl : 0 = k := by omega
  obtain rfl := Option.some.inj hw
  obtain rfl := Option.some.inj hlast
  exact .inl (by decide)

/-- The file that has changed is restored from the second version, and `c` from the first. -/
theorem restored_directory : ∃ e' d' a c,
    restoreBackup plainMachine directoryArchives.archiveFiles 10 (engineOf [0, 1]) emptyDrive =
      some (.ok e' d') ∧
    secondDirectoryArchive.objects[1]? = some a ∧ secondDirectoryArchive.objects[3]? = some c ∧
    d'.read? (location plainMachine a) = some [2, 2] ∧
    d'.read? (location plainMachine c) = some [3] := by
  obtain ⟨e', d', hrestore⟩ := exists_restore_directory
  have hrestored := (restored_iff_firstStreamSafe freshBackups_directory contentOfFiles_changed
    soundCriterion_changed sourcesDisjoint_directory chainUnchangedHaveData_directory
    (n := 1) rfl rfl
    rfl (by decide) hrestore).mpr firstStreamSafe_directory
  exact ⟨e', d', _, _, hrestore, rfl, rfl, hrestored _ (List.mem_of_getElem? (i := 1) rfl) rfl,
    hrestored _ (List.mem_of_getElem? (i := 3) rfl) rfl⟩

/-- The names `a` and `b` are restored as names of one file, and `c` is another one. -/
theorem hardLinks_restored_directory : ∃ e' d' a b c i,
    restoreBackup plainMachine directoryArchives.archiveFiles 10 (engineOf [0, 1]) emptyDrive =
      some (.ok e' d') ∧
    secondDirectoryArchive.objects[1]? = some a ∧ secondDirectoryArchive.objects[2]? = some b ∧
    secondDirectoryArchive.objects[3]? = some c ∧
    d'.get? (location plainMachine a) = some (.file i) ∧
    d'.get? (location plainMachine b) = some (.file i) ∧
    d'.get? (location plainMachine c) ≠ some (.file i) := by
  obtain ⟨e', d', hrestore⟩ := exists_restore_directory
  obtain ⟨a, b, c, ha, hb, hc, hacontents, hbcontents, hccontents, hguid, hsame, hid⟩ : ∃ a b c,
      secondDirectoryArchive.objects[1]? = some a ∧ secondDirectoryArchive.objects[2]? = some b ∧
      secondDirectoryArchive.objects[3]? = some c ∧ hasContents a = true ∧ hasContents b = true ∧
      hasContents c = true ∧ a.2.fileSystemGuid ≠ none ∧
      a.2.fileSystemGuid = b.2.fileSystemGuid ∧ a.2.streamUniqueId ≠ c.2.streamUniqueId :=
    ⟨secondDirectoryArchive.objects.get ⟨1, by decide⟩,
      secondDirectoryArchive.objects.get ⟨2, by decide⟩,
      secondDirectoryArchive.objects.get ⟨3, by decide⟩, rfl, rfl, rfl, rfl, rfl, rfl, by decide,
      rfl, by decide⟩
  have hrestored := hardLinks_restored freshBackups_directory contentOfFiles_changed
    soundCriterion_changed sourcesDisjoint_directory chainUnchangedHaveData_directory
    (n := 1) rfl rfl
    rfl (by decide) hrestore a (List.mem_of_getElem? ha)
  obtain ⟨⟨i, hi⟩, -, hnames⟩ := hrestored b (List.mem_of_getElem? hb) hacontents hbcontents
  obtain ⟨-, hdifferent, -⟩ := hrestored c (List.mem_of_getElem? hc) hacontents hccontents
  refine ⟨e', d', a, b, c, i, hrestore, ha, hb, hc, hi, (hnames hguid hsame).symm.trans hi, ?_⟩
  exact fun hci => hid (hdifferent.mp (hi.trans hci.symm))

end BackupProgram
