import BackupProgram.Engine.Chain

/-!
# Repeated backups

An engine looks for the objects below its source locations only in its first backup. Whatever later
backups store, they store for these objects: their names, their types and whether they are left out
stay what they were.
-/

namespace BackupProgram

open Results

/-- What has been found out about an object when it was created, and no backup changes. -/
def scannedKey (fso : FileSystemObject) : (Str × Str × Str) × FileSystemObjectType × Bool :=
  (FileSystemTree.pathKey fso, fso.type, decide (fso.backupMode = .noBackup))

/-- The trees agree in what has been found out about their objects. -/
def SameScanned (ts ts' : List FileSystemTree) : Prop :=
  ts.map (RoseTree.map scannedKey) = ts'.map (RoseTree.map scannedKey)

variable {env : BackupEnv} {n : Int} {old : Option (List FileSystemTree)}

lemma SameScanned.symm {ts ts' : List FileSystemTree} (h : SameScanned ts ts') :
    SameScanned ts' ts := Eq.symm h

lemma SameScanned.trans {ts ts' ts'' : List FileSystemTree} (h : SameScanned ts ts')
    (h' : SameScanned ts' ts'') : SameScanned ts ts'' := Eq.trans h h'

lemma map_pathKey_of_map_scannedKey {t t' : FileSystemTree}
    (h : t.map scannedKey = t'.map scannedKey) :
    t.map FileSystemTree.pathKey = t'.map FileSystemTree.pathKey := by
  have hfst : ∀ t : FileSystemTree,
      t.map FileSystemTree.pathKey = (t.map scannedKey).map Prod.fst := by
    intro t
    simp only [RoseTree.map, Forest.map_map]
    rfl
  rw [hfst, hfst, h]

/-- Every object has its counterpart, at the same paths. -/
lemma SameScanned.exists_of_mem {ts ts' : List FileSystemTree} (h : SameScanned ts ts')
    {o : PathedObject} (ho : o ∈ ts.flatMap FileSystemTree.iterate) :
    ∃ o' ∈ ts'.flatMap FileSystemTree.iterate, o'.1 = o.1 ∧ scannedKey o'.2 = scannedKey o.2 := by
  have hfst : (ts.flatMap FileSystemTree.iterate).map Prod.fst =
      (ts'.flatMap FileSystemTree.iterate).map Prod.fst := by
    rw [List.map_flatMap, List.map_flatMap, List.flatMap_def, List.flatMap_def]
    exact congrArg List.flatten (map_eq_map_of_map_eq_map (fun _ _ hkey =>
      FileSystemTree.map_fst_iterate_congr (map_pathKey_of_map_scannedKey hkey)) h)
  have hsnd : ((ts.flatMap FileSystemTree.iterate).map Prod.snd).map scannedKey =
      ((ts'.flatMap FileSystemTree.iterate).map Prod.snd).map scannedKey := by
    rw [map_snd_iterate_flatMap, map_snd_iterate_flatMap, List.map_flatMap, List.map_flatMap,
      List.flatMap_def, List.flatMap_def]
    refine congrArg List.flatten (map_eq_map_of_map_eq_map (fun t t' hkey => ?_) h)
    rw [← RoseTree.toList_map, ← RoseTree.toList_map, hkey]
  have hboth : (ts.flatMap FileSystemTree.iterate).map (fun o => (o.1, scannedKey o.2)) =
      (ts'.flatMap FileSystemTree.iterate).map fun o => (o.1, scannedKey o.2) := by
    have hzip : ∀ os : List PathedObject, os.map (fun o => (o.1, scannedKey o.2)) =
        (os.map Prod.fst).zip ((os.map Prod.snd).map scannedKey) := by
      intro os
      induction os with
      | nil => rfl
      | cons o os ih => simp only [List.map_cons, ih, List.zip_cons_cons]
    rw [hzip, hzip, hfst, hsnd]
  have hmem := List.mem_map_of_mem (f := fun o : PathedObject => (o.1, scannedKey o.2)) ho
  rw [hboth, List.mem_map] at hmem
  obtain ⟨o', ho', heq⟩ := hmem
  rw [Prod.mk.injEq] at heq
  exact ⟨o', ho', heq.1, heq.2⟩

lemma isIncluded_congr {fso fso' : FileSystemObject} (h : scannedKey fso = scannedKey fso') :
    fso.isIncluded = fso'.isIncluded := by
  simp only [scannedKey, Prod.mk.injEq] at h
  obtain ⟨-, htype, hmode⟩ := h
  have hne : (fso.backupMode != .noBackup) = (fso'.backupMode != .noBackup) := by
    rw [bne, bne, beq_eq_decide, beq_eq_decide, hmode]
  simp only [FileSystemObject.isIncluded, FileSystemObject.isDirectoryish,
    FileSystemObject.isLinkish, htype, hne]

/-- Objects that are changed where they are. -/
lemma map_scannedKey_pathed (t : FileSystemTree) {f : PathedObject → FileSystemObject}
    (hf : ∀ o, scannedKey (f o) = scannedKey o.2) :
    RoseTree.map scannedKey ((FileSystemTree.pathed t).map f) = t.map scannedKey := by
  have hcomp : (scannedKey ∘ f) = fun o : PathedObject => scannedKey o.2 := funext hf
  simp only [RoseTree.map, FileSystemTree.pathed, RoseTree.inherit, Forest.map_map, hf, hcomp,
    Forest.map_inherit]

/-! ### What a scan finds -/

/-- The mode of an object is the one that has been asked for, when its name and its type were known:
the object is left out if it should be. -/
def AskedMode (settings : Settings) (o : PathedObject) : Prop :=
  ∃ fso : FileSystemObject, fso.name = o.2.name ∧ fso.type = o.2.type ∧
    (o.2.backupMode = .noBackup ↔ (settings.getBackupModeForObject (o.1, fso)).1 = .noBackup)

lemma AskedMode.congr {settings : Settings} {o o' : PathedObject} (h : AskedMode settings o)
    (hpaths : o'.1 = o.1) (hkey : scannedKey o'.2 = scannedKey o.2) : AskedMode settings o' := by
  obtain ⟨fso, hname, htype, hmode⟩ := h
  simp only [scannedKey, FileSystemTree.pathKey, Prod.mk.injEq, decide_eq_decide] at hkey
  obtain ⟨⟨hname', -, -⟩, htype', hmode'⟩ := hkey
  exact ⟨fso, hname.trans hname'.symm, htype.trans htype'.symm, by rw [hmode', hmode, hpaths]⟩

lemma askedMode_of_create {settings : Settings} {fs : FileSystemView} {path unmappedPath : Str}
    {t : FileSystemTree} (h : FileSystemObject.create settings fs path unmappedPath = .ok t) :
    ∀ o ∈ t.iterate, AskedMode settings o := by
  refine FileSystemObject.forall_iterate_of_create ?_ ?_ h
  · intro paths path e fso0 fso hconstruct
    obtain ⟨fso1, rfl⟩ := FileSystemObject.mode_of_construct hconstruct
    exact ⟨fso1, rfl, rfl, .rfl⟩
  · intro path e fso0 fso hconstruct
    obtain ⟨fso1, rfl⟩ := FileSystemObject.mode_of_construct hconstruct
    exact ⟨fso1, rfl, rfl, .rfl⟩

/-- The GUIDs are no part of what has been found out. -/
lemma sameScanned_of_recalculateFileGuids {call : BackupCall}
    {baseObjects baseObjects' : List FileSystemTree}
    (h : BackupEngine.recalculateFileGuids call baseObjects = .ok baseObjects') :
    SameScanned baseObjects' baseObjects := by
  simp only [BackupEngine.recalculateFileGuids, bind_eq_ok, pure_eq_ok] at h
  obtain ⟨objects, hobjects, rfl⟩ := h
  have hkey : ∀ (o : PathedObject) (fso : FileSystemObject),
      BackupEngine.recalculateFileGuid call o = .ok fso → scannedKey fso = scannedKey o.2 := by
    intro o fso hrecalculate
    rw [BackupEngine.recalculateFileGuid] at hrecalculate
    split_ifs at hrecalculate
    · rw [FileSystemObject.setFileSystemGuid.eq_def] at hrecalculate
      split at hrecalculate
      · rw [pure_eq_ok] at hrecalculate
        rw [← hrecalculate]
        rfl
      · rename_i hretry
        cases hretry
      · simp only [bind_eq_ok, pure_eq_ok] at hrecalculate
        obtain ⟨-, -, rfl⟩ := hrecalculate
        rfl
    · rw [pure_eq_ok] at hrecalculate
      rw [hrecalculate]
  refine RoseTree.map_refillAll scannedKey baseObjects ?_
  rw [map_eq_of_mapM hkey hobjects, ← map_snd_iterate_flatMap, List.map_map]
  rfl

/-- A scan asks for the mode of every object, and finds one base object for each source location. -/
theorem BackupCall.scan_eq_ok {call : BackupCall} {previous : Option (List FileSystemTree)}
    {scanned : List FileSystemTree} (h : call.scan previous = .ok scanned) :
    (∀ o ∈ scanned.flatMap FileSystemTree.iterate, AskedMode call.env.toSettings o) ∧
      scanned.map (fun t => some (t.root.unmappedBasePath, t.root.name)) =
        (call.currentSourceLocations previous).map StringUtils.splitIntoObjectAndContainer := by
  simp only [BackupCall.scan, bind_eq_ok] at h
  obtain ⟨created, hcreated, hguids⟩ := h
  have hsame := sameScanned_of_recalculateFileGuids hguids
  constructor
  · intro o ho
    obtain ⟨o', ho', hpaths, hkey⟩ := hsame.exists_of_mem ho
    refine AskedMode.congr ?_ hpaths.symm hkey.symm
    obtain ⟨t, ht, ho'⟩ := List.mem_flatMap.mp ho'
    obtain ⟨path, -, hcreate⟩ := exists_of_mem_mapM hcreated ht
    simp only [BackupEngine.createBaseObject, bind_eq_ok, pure_eq_ok] at hcreate
    obtain ⟨x, hx, rfl⟩ := hcreate
    -- the object is the main one now
    have hmain : SameScanned [{ x with root := { x.root with isMain := true } }] [x] := rfl
    obtain ⟨o'', ho'', hpaths', hkey'⟩ := hmain.exists_of_mem (by simpa using ho')
    rw [List.flatMap_singleton] at ho''
    exact (askedMode_of_create hx o'' ho'').congr hpaths'.symm hkey'.symm
  · rw [← map_eq_of_mapM (g := fun t : FileSystemTree =>
      some (t.root.unmappedBasePath, t.root.name))
      ?_ hcreated]
    · refine map_eq_map_of_map_eq_map (fun t t' hkey => ?_) hsame
      simp only [RoseTree.map, RoseTree.mk.injEq, scannedKey, FileSystemTree.pathKey,
        Prod.mk.injEq] at hkey
      rw [hkey.1.1.1, hkey.1.1.2.2]
    · intro path t hcreate
      simp only [BackupEngine.createBaseObject, bind_eq_ok, pure_eq_ok] at hcreate
      obtain ⟨x, hx, rfl⟩ := hcreate
      obtain ⟨entry, type, mapped, unmapped, root, below, -, -, -, hunmapped, hconstruct, -, rfl⟩ :=
        FileSystemObject.create_eq_ok hx
      rw [hunmapped, FileSystemObject.construct_eq_ok hconstruct]

/-! ### One round -/

lemma mode_of_isIncluded {fso : FileSystemObject} (h : fso.isIncluded = true) :
    fso.backupMode ≠ .noBackup := by
  intro hmode
  simp [FileSystemObject.isIncluded, hmode] at h

lemma getElem?_append_of_eq_some {α : Type} {as : List α} (bs : List α) {i : Nat} {a : α}
    (h : as[i]? = some a) : (as ++ bs)[i]? = some a := by
  rw [List.getElem?_append_left (List.getElem?_eq_some_iff.mp h).1, h]

lemma mode_of_choose {o : PathedObject} {fso : FileSystemObject} {data : StreamData}
    (hincluded : o.2.isIncluded = true)
    (h : choose env old (o.1, { o.2 with latestVersion := n }) = .ok (fso, data)) :
    fso.backupMode ≠ .noBackup := by
  cases old with
  | none =>
    simp only [choose, pure_eq_ok, Prod.mk.injEq] at h
    obtain ⟨rfl, -⟩ := h
    exact mode_of_isIncluded hincluded
  | some oldObjects =>
    simp only [choose, chooseStream] at h
    split at h
    · simp only [bind_eq_ok] at h
      obtain ⟨_, -, _, -, h⟩ := h
      split at h
      case h_1 | h_2 | h_3 =>
        rename_i hmode
        simp only [pure_eq_ok, Prod.mk.injEq] at h
        rw [← h.1, hmode]
        simp
      case h_4 | h_5 | h_6 => simp at h
    · -- the object is forced, and so its mode stays
      simp only [pure_bind] at h
      split at h
      case h_1 | h_2 | h_3 =>
        simp only [pure_eq_ok, Prod.mk.injEq] at h
        rw [← h.1]
        exact mode_of_isIncluded hincluded
      case h_4 | h_5 | h_6 => simp at h

lemma scannedKey_of_choose {o : PathedObject} {fso : FileSystemObject} {data : StreamData}
    (hincluded : o.2.isIncluded = true)
    (h : choose env old (o.1, { o.2 with latestVersion := n }) = .ok (fso, data)) :
    scannedKey fso = scannedKey o.2 := by
  have hmode := mode_of_choose hincluded h
  have hmode' := mode_of_isIncluded hincluded
  obtain ⟨hsame, -⟩ := Chosen.of_choose h
  rw [scannedKey, scannedKey, hsame.pathKey, decide_eq_false hmode, decide_eq_false hmode', hsame]

/-- Objects are what they were, and only those that are included have streams with data. The engine
may have streams of former backups. -/
structure Generating (os : List PathedObject) (st : GenerateState) : Prop where
  objects : st.objects.map scannedKey = os.map fun o => scannedKey o.2
  kept : ∀ s ∈ st.kept, ∃ stream i o, st.heap[s]? = some stream ∧
    stream.fileSystemObjects.head? = some i ∧ os[i]? = some o ∧ o.2.isIncluded = true

lemma Generating.length {os : List PathedObject} {st : GenerateState} (h : Generating os st) :
    st.objects.length = os.length := by
  have hlength := congrArg List.length h.objects
  rwa [List.length_map, List.length_map] at hlength

/-- An object that gets no stream of its own. -/
lemma Generating.addObject {os : List PathedObject} {st : GenerateState} (h : Generating os st)
    {x : PathedObject} {fso : FileSystemObject} (hkey : scannedKey fso = scannedKey x.2) :
    Generating (os ++ [x]) (st.addObject fso) := by
  refine ⟨?_, fun s hs => ?_⟩
  · rw [GenerateState.addObject, List.map_append, List.map_append, h.objects, List.map_singleton,
      List.map_singleton, hkey]
  · obtain ⟨stream, i, o, hstream, hhead, ho, hincluded⟩ := h.kept s hs
    exact ⟨stream, i, o, hstream, hhead, getElem?_append_of_eq_some _ ho, hincluded⟩

lemma Generating.step {os : List PathedObject} {st st' : GenerateState} {x : PathedObject}
    (h : Generating os st) (hgen : Generates env n old st x st') : Generating (os ++ [x]) st' := by
  cases hgen with
  | excluded => exact h.addObject rfl
  | stray => exact h.addObject rfl
  | peer s stream htype hknown =>
    refine ⟨?_, fun s' hs' => ?_⟩
    · rw [GenerateState.join_objects, List.map_append, List.map_append, h.objects]
      rfl
    · obtain ⟨stream', i, o, hstream, hhead, ho, hincluded⟩ := h.kept s' hs'
      have hget := GenerateState.getElem_of_known hknown
      have ho' := getElem?_append_of_eq_some [x] ho
      rw [GenerateState.join_heap]
      rcases eq_or_ne s s' with rfl | hne
      · -- the first object of the stream stays the first one
        rw [hget, Option.some.injEq] at hstream
        subst hstream
        refine ⟨_, i, o, List.getElem?_set_self (List.getElem?_eq_some_iff.mp hget).1, ?_, ho',
          hincluded⟩
        rw [List.head?_append, hhead]
        rfl
      · exact ⟨stream', i, o, by rwa [List.getElem?_set_ne hne], hhead, ho', hincluded⟩
  | first fso data hincluded hknown hchoose =>
    have hkey : scannedKey (st.firstFso fso data) = scannedKey x.2 := by
      rw [← scannedKey_of_choose hincluded hchoose, GenerateState.firstFso]
      split_ifs <;> rfl
    refine ⟨?_, fun s hs => ?_⟩
    · rw [GenerateState.first_objects, List.map_append, List.map_append, h.objects,
        List.map_singleton, List.map_singleton, hkey]
    · have hold : s ∈ st.kept → ∃ stream i o, (st.first fso data).heap[s]? = some stream ∧
          stream.fileSystemObjects.head? = some i ∧ (os ++ [x])[i]? = some o ∧
            o.2.isIncluded = true := by
        intro hs
        obtain ⟨stream, i, o, hstream, hhead, ho, hincluded⟩ := h.kept s hs
        rw [GenerateState.first_heap]
        exact ⟨stream, i, o, getElem?_append_of_eq_some _ hstream, hhead,
          getElem?_append_of_eq_some _ ho, hincluded⟩
      rw [GenerateState.first_kept] at hs
      split_ifs at hs with hdata
      · rcases List.mem_append.mp hs with hs | hs
        · exact hold hs
        · rw [List.mem_singleton] at hs
          subst hs
          refine ⟨_, os.length, x, by rw [GenerateState.first_heap, List.getElem?_concat_length],
            ?_, List.getElem?_concat_length, hincluded⟩
          rw [GenerateState.firstStream, ← h.length]
          rfl
      · exact hold hs

lemma Generating.endBase {os : List PathedObject} {st : GenerateState} (h : Generating os st) :
    Generating os st.endBase := by
  have hkept : st.endBase.kept = st.kept := by simp [GenerateState.endBase, GenerateState.kept]
  refine ⟨h.objects, fun s hs => ?_⟩
  rw [hkept] at hs
  exact h.kept s hs

lemma Generating.of_generateBase {os base : List PathedObject} {st st' : GenerateState}
    (h : Generating os st) (hbase : generateBase (generatorFor env n old) st base = .ok st') :
    Generating (os ++ base) st' ∧ st'.streams = [] := by
  rw [generateBase] at hbase
  simp only [bind_eq_ok, pure_eq_ok] at hbase
  obtain ⟨st1, hloop, rfl⟩ := hbase
  have hstart : Generating (os ++ []) st := by rwa [List.append_nil]
  have hrounds := foldlM_induction (P := fun pre st1 => Generating (os ++ pre) st1)
    (fun pre x st1 st2 hst hround => by
      rw [← List.append_assoc]
      exact hst.step (Generates.of_generateStream hround)) hstart hloop
  exact ⟨hrounds.endBase, rfl⟩

/-- All objects that the generator is given. -/
lemma generating_of_generateStreams {heap : List BackupStream} {firstId : Nat}
    {baseObjects : List FileSystemTree} {st : GenerateState}
    (h : generateStreams (generatorFor env n old) heap firstId baseObjects = .ok st) :
    Generating (baseObjects.flatMap FileSystemTree.iterate) st ∧
    st.kept = st.streamDict.flatten := by
  have hinit : Generating ([] : List (List PathedObject)).flatten
      { objects := [], heap := heap, knownGuids := [], streams := [], streamDict := [],
        nextStreamUniqueId := firstId } :=
    ⟨rfl, fun s hs => by simp [GenerateState.kept] at hs⟩
  obtain ⟨hgenerating, hstreams⟩ := foldlM_induction
    (P := fun bases st => Generating bases.flatten st ∧ st.streams = [])
    (fun bases base st st' hst hbase => by
      rw [List.flatten_append, List.flatten_singleton]
      exact hst.1.of_generateBase hbase) ⟨hinit, rfl⟩ h
  refine ⟨hgenerating, ?_⟩
  rw [GenerateState.kept, hstreams, List.append_nil]

/-! ### The archive -/

lemma exists_of_forall₂ {α β : Type} {R : α → β → Prop} {as : List α} {bs : List β}
    (h : List.Forall₂ R as bs) {b : β} (hb : b ∈ bs) : ∃ a ∈ as, R a b := by
  induction h with
  | nil => cases hb
  | @cons a b' as bs hR _ ih =>
    rcases List.mem_cons.mp hb with rfl | hb
    · exact ⟨a, List.mem_cons_self, hR⟩
    · obtain ⟨a', ha', hR'⟩ := ih hb
      exact ⟨a', List.mem_cons_of_mem _ ha', hR'⟩

/-- The loop over the base objects attaches streams to the objects, and reads a file for each of the
streams. -/
lemma attached_of_archiveBases {paths : List ObjectPaths} {st : GenerateState} {done : List Nat}
    {p p' : ArchiveProgress} {start : Nat} {sizes : List Nat} {streamDict : List (List Nat)}
    (hattached : Attached st done p.objects)
    (h : archiveBases env paths st.heap p start sizes streamDict = .ok p') :
    (∃ done', Attached st done' p'.objects) ∧ ∃ files, p'.files = p.files ++ files ∧
      ∀ file ∈ files, ∃ s ∈ streamDict.flatten, FileOf env paths st s file := by
  induction streamDict generalizing p done start sizes with
  | nil =>
    rw [archiveBases.eq_def] at h
    cases sizes <;> simp only [pure_eq_ok] at h <;> subst h
    all_goals exact ⟨⟨done, hattached⟩, [], by rw [List.append_nil], by simp⟩
  | cons streams streamDict ih =>
    rcases sizes with _ | ⟨size, sizes⟩
    · rw [archiveBases.eq_def] at h
      simp only [pure_eq_ok] at h
      subst h
      exact ⟨⟨done, hattached⟩, [], by rw [List.append_nil], by simp⟩
    · simp only [archiveBases, bind_eq_ok] at h
      obtain ⟨p1, hbase, hrest⟩ := h
      rw [archiveBase] at hbase
      obtain ⟨hattached1, -, files1, hfiles1, hof⟩ := addStreamFile_foldlM
        (p := { p with
          objects := streams.foldl (attachStream st.heap) p.objects
          versionDependencies := _ }) (hattached.foldl_attachStream streams) hbase
      obtain ⟨hdone, files, hfiles, hmem⟩ := ih hattached1 hrest
      refine ⟨hdone, files1 ++ files, by rw [hfiles, hfiles1, List.append_assoc], ?_⟩
      intro file hfile
      rw [List.flatten_cons]
      rcases List.mem_append.mp hfile with hfile | hfile
      · obtain ⟨s, hs, hfileOf⟩ := exists_of_forall₂ hof hfile
        exact ⟨s, List.mem_append_left _ hs, hfileOf⟩
      · obtain ⟨s, hs, hfileOf⟩ := hmem file hfile
        exact ⟨s, List.mem_append_right _ hs, hfileOf⟩

/-- The archive has the objects it has been made from, and data of those that are included. -/
theorem sameScanned_of_generateArchive {startTime versionNumber : Int} {counters : StreamCounters}
    {heap : List BackupStream} {baseObjects : List FileSystemTree} {r : GeneratedArchive}
    (h : generateArchive env startTime (generatorFor env n old) versionNumber heap counters
      baseObjects = .ok r) :
    SameScanned r.archive.baseObjects baseObjects ∧
      ∀ file ∈ r.archive.files, ∃ o ∈ baseObjects.flatMap FileSystemTree.iterate,
        o.2.isIncluded = true ∧ env.fs.readFile o.1.mappedPath = some file.2.1 := by
  rw [generateArchive] at h
  simp only [bind_eq_ok] at h
  obtain ⟨st, hgenerate, p, hloop, h⟩ := h
  split_ifs at h
  rw [pure_eq_ok] at h
  subst h
  obtain ⟨hgenerating, hkept⟩ := generating_of_generateStreams hgenerate
  obtain ⟨⟨done, hattached⟩, files, hfiles, hmem⟩ :=
    attached_of_archiveBases (p := ⟨st.objects, ∅, []⟩) (.nil st) hloop
  constructor
  · refine RoseTree.map_refillAll scannedKey baseObjects ?_
    have hkeys : p.objects.map scannedKey = st.objects.map scannedKey := by
      refine List.ext_getElem (by simp [hattached.length]) fun i hi hi' => ?_
      rw [List.getElem_map, List.getElem_map]
      rw [List.length_map] at hi hi'
      rw [hattached.same i st.objects[i] p.objects[i] (List.getElem?_eq_getElem hi')
        (List.getElem?_eq_getElem hi)]
      rfl
    rw [hkeys, hgenerating.objects, ← map_snd_iterate_flatMap, List.map_map]
    rfl
  · intro file hfile
    have hfile' : file ∈ files := by
      rw [List.nil_append] at hfiles
      rwa [← hfiles]
    obtain ⟨s, hs, stream, i, path, hstream, hhead, hpath, -, hread⟩ := hmem file hfile'
    obtain ⟨stream', i', o, hstream', hhead', ho, hincluded⟩ := hgenerating.kept s (hkept ▸ hs)
    rw [hstream, Option.some.injEq] at hstream'
    subst hstream'
    rw [hhead, Option.some.injEq] at hhead'
    subst hhead'
    rw [List.getElem?_map, ho, Option.map_some, Option.some.injEq] at hpath
    exact ⟨o, List.mem_of_getElem? ho, hincluded, hpath ▸ hread⟩

/-! ### Backups -/

namespace BackupEngine

variable {call : BackupCall} {e e' : BackupEngine} {dir dir' : TargetDirectory}

/-- The objects that a backup starts from: those of the engine, or else those that are found below
the source locations, which are the main objects of the newest version if there are any versions. -/
structure StartsFrom (e : BackupEngine) (call : BackupCall) (dir : TargetDirectory)
    (baseObjects : List FileSystemTree) : Prop where
  repeated : e.baseObjectsSet = true → SameScanned baseObjects e.baseObjects
  initial : e.baseObjectsSet = false → e.baseObjects = [] → ∃ previous scanned,
    (e.versionCount = 0 ∧ previous = none ∨
      ∃ archive, e.openLatestVersion dir = .ok archive ∧ previous = some archive.getBaseObjects) ∧
    call.scan previous = .ok scanned ∧ SameScanned baseObjects scanned

lemma setBaseObjects_cases (h : e.setBaseObjects call = .ok e') :
    e'.baseObjectsSet = true ∧ (e.baseObjectsSet = true → e'.baseObjects = e.baseObjects) := by
  rw [setBaseObjects] at h
  split_ifs at h with hset
  · rw [pure_eq_ok] at h
    subst h
    exact ⟨hset, fun _ => rfl⟩
  · simp only [bind_eq_ok, pure_eq_ok] at h
    obtain ⟨-, -, -, -, rfl⟩ := h
    exact ⟨rfl, fun hset' => absurd hset' hset⟩

/-- What a backup is made from, and that the engine keeps it. -/
theorem startsFrom_of_performBackup (h : e.performBackup call dir = .ok (e', dir')) :
    ∃ baseObjects old heap counters r, StartsFrom e call dir baseObjects ∧
      generateArchive call.env call.startTime (generatorFor call.env e.newVersionNumber old)
        e.newVersionNumber heap counters baseObjects = .ok r ∧
      e'.baseObjectsSet = true ∧ e'.baseObjects = r.archive.baseObjects ∧
      dir' = dir.put (getVersionName e.newVersionNumber) (some r.archive) := by
  have hcount : e.cacheVersionCount.versionCount = e.versionCount :=
    versionCount_of_cached rfl (.inr rfl)
  rw [performBackup] at h
  simp only [hcount] at h
  split_ifs at h with hzero
  · simp only [createInitialVersion, bind_eq_ok] at h
    obtain ⟨e1, hbase, harchive⟩ := h
    obtain ⟨r, hr, rfl, hdir⟩ := archiveVersion_eq_ok harchive
    obtain ⟨hset, hrepeated⟩ := setBaseObjects_cases hbase
    obtain ⟨hversions, hcached⟩ := setBaseObjects_eq_ok hbase
    have hnumber : e1.newVersionNumber = 0 :=
      (versionCount_of_cached hversions (.inl hcached)).trans (hcount.trans hzero)
    have hnumber' : e.newVersionNumber = 0 := hzero
    rw [hnumber] at hr
    rw [hnumber']
    refine ⟨e1.baseObjects, none, e1.heap, e1.counters, r,
      ⟨fun hset' => ?_, fun hset' hempty => ?_⟩, hr, hset, rfl, hdir⟩
    · rw [hrepeated hset']
      rfl
    · have hlocations : e.cacheVersionCount.getCurrentSourceLocations call =
          call.currentSourceLocations none := by
        rw [getCurrentSourceLocations, if_pos (hcount.trans hzero)]
        rfl
      obtain ⟨scanned, hscan, rfl⟩ :=
        setBaseObjects_of_unused (e := e.cacheVersionCount) hset' hempty hlocations hbase
      exact ⟨none, scanned, .inl ⟨hzero, rfl⟩, hscan, rfl⟩
  · simp only [updateExistingVersion, bind_eq_ok] at h
    obtain ⟨archive, hopen, e1, hbase, harchive⟩ := h
    obtain ⟨r, hr, rfl, hdir⟩ := archiveVersion_eq_ok harchive
    generalize he0 : setOldObjectsDict call.env.culture _ = e0 at hbase
    have hcount0 : e0.versionCount = e.versionCount := by
      rw [← he0, ← hcount]
      rfl
    obtain ⟨hset, hrepeated⟩ := setBaseObjects_cases hbase
    obtain ⟨hversions, hcached⟩ := setBaseObjects_eq_ok hbase
    have hnumber : e1.newVersionNumber = e.newVersionNumber :=
      (versionCount_of_cached hversions (.inl hcached)).trans hcount0
    have hkept : ∀ dict, SameScanned (e1.baseObjects.map fun t =>
        (FileSystemTree.pathed t).map (copyStreamUniqueId call.env.culture dict))
        e1.baseObjects := by
      intro dict
      rw [SameScanned, List.map_map]
      refine List.map_congr_left fun t _ => map_scannedKey_pathed t fun o => ?_
      rw [copyStreamUniqueId]
      split <;> rfl
    have hnumber' : ∀ baseObjects, newVersionNumber { e1 with baseObjects := baseObjects } =
        e.newVersionNumber := fun _ => hnumber
    rw [hnumber'] at hr hdir
    refine ⟨_, some e1.oldObjects, _, _, r, ⟨fun hset' => ?_, fun hset' hempty => ?_⟩, hr,
      hset, rfl, hdir⟩
    · have hset0 : e0.baseObjectsSet = true := by rw [← he0]; exact hset'
      have hsame := hrepeated hset0
      rw [← he0] at hsame
      have hbases : e1.baseObjects = e.baseObjects := hsame
      have hkept' := hkept e1.oldObjectsDict
      rwa [hbases] at hkept' ⊢
    · have hlocations : e0.getCurrentSourceLocations call =
          call.currentSourceLocations (some archive.getBaseObjects) := by
        rw [getCurrentSourceLocations, if_neg (hcount0 ▸ hzero), ← he0]
        rfl
      obtain ⟨scanned, hscan, rfl⟩ := setBaseObjects_of_unused (by rw [← he0]; exact hset')
        (by rw [← he0]; exact hempty) hlocations hbase
      exact ⟨some archive.getBaseObjects, scanned, .inr ⟨archive, hopen, rfl⟩, hscan, hkept _⟩

end BackupEngine

end BackupProgram
