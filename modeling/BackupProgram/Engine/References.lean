import BackupProgram.Engine.StreamIds

/-!
# References of versions

Every file of a version refers to data, in the archive of the version or in an older one. What an
object gets that is found unchanged comes from two places: the version from the object that is found
in the previous version, and the id from the dictionary of its paths.
-/

namespace BackupProgram

open Results StringUtils

variable {env : BackupEnv} {n : Int} {old : Option (List FileSystemTree)} {firstId : Nat}
  {os : List PathedObject} {st : GenerateState} {a : VersionArchive}

/-! ### Objects that are called unchanged -/

/-- An old object is found at the path, and the criterion sees no change. -/
def Unchanged (env : BackupEnv) (n : Int) (oldObjects : List FileSystemTree) (o : PathedObject)
    (oldFile : FileSystemObject) : Prop :=
  findPath env.culture oldObjects o.1.mappedPath = some oldFile ∧
    ∃ fso, applyCriterium env (o.1, { o.2 with latestVersion := n }) oldFile = .ok (false, fso)

lemma unchanged_of_fileHasChanged {oldObjects : List FileSystemTree} {o : PathedObject} {v : Int}
    {fso : FileSystemObject}
    (h : fileHasChanged env oldObjects (o.1, { o.2 with latestVersion := n }) =
      .ok (false, v, fso)) : ∃ oldFile, Unchanged env n oldObjects o oldFile ∧
      v = oldFile.latestVersion := by
  rw [fileHasChanged] at h
  split at h
  · simp at h
  · rename_i oldFile hfind
    simp only [bind_eq_ok] at h
    obtain ⟨⟨ret, fso'⟩, happly, h⟩ := h
    cases ret with
    | true => simp at h
    | false =>
      simp only [Bool.false_eq_true, if_false, pure_eq_ok, Prod.mk.injEq] at h
      exact ⟨oldFile, ⟨hfind, fso', happly⟩, h.2.1.symm⟩

lemma not_unchanged_of_fileHasChanged {oldObjects : List FileSystemTree} {o : PathedObject}
    {v : Int} {fso oldFile : FileSystemObject}
    (h : fileHasChanged env oldObjects (o.1, { o.2 with latestVersion := n }) =
      .ok (true, v, fso)) : ¬ Unchanged env n oldObjects o oldFile := by
  rintro ⟨hfind, fso', happly⟩
  rw [fileHasChanged] at h
  simp only [hfind, happly, ok_bind, Bool.false_eq_true, if_false, pure_eq_ok, Prod.mk.injEq,
    false_and] at h

/-- The objects that are called unchanged have data in the previous version, and the dictionary has
the ids of these; no other object has the mode `unmodified`. -/
structure UnchangedHaveData (env : BackupEnv) (n : Int) (oldObjects : List FileSystemTree)
    (dict : List (Str × FileSystemObject)) (os : List PathedObject) : Prop where
  unchanged : ∀ (i : Nat) (o : PathedObject) (oldFile : FileSystemObject), os[i]? = some o →
    o.2.isIncluded → ¬ Earlier os i o → o.2.backupMode ≠ .forceFull →
    Unchanged env n oldObjects o oldFile → 0 ≤ oldFile.latestVersion ∧
      (dict.lookup (simplifyPath env.culture o.1.mappedPath)).map
        FileSystemObject.streamUniqueId = some oldFile.streamUniqueId
  declared : ∀ (i : Nat) (o : PathedObject), os[i]? = some o → o.2.isIncluded →
    ¬ Earlier os i o → o.2.backupMode = .unmodified →
    ∃ oldFile, Unchanged env n oldObjects o oldFile

/-! ### What is assumed of the surroundings -/

section Assumptions

variable (vs : List Version) (content : Nat → Str → List Byte)

/-- The contents of the files at the times of the backups: what is read, and the same for all names
of a file. -/
structure ContentOfFiles : Prop where
  read : ∀ (n : Nat) (v : Version) (path : Str) (bytes : List Byte), vs[n]? = some v →
    v.call.env.fs.readFile path = some bytes → content n path = bytes
  names : ∀ (n : Nat) (v : Version) (baseObjects : List FileSystemTree) (o o' : PathedObject),
    vs[n]? = some v → v.call.baseObjects (previousVersion vs n) = .ok baseObjects →
    o ∈ baseObjects.flatMap FileSystemTree.iterate →
    o' ∈ baseObjects.flatMap FileSystemTree.iterate → o'.2.fileSystemGuid ≠ none →
    o.2.fileSystemGuid = o'.2.fileSystemGuid → content n o.1.mappedPath = content n o'.1.mappedPath

/-- Files that the criterion calls unchanged have the bytes of the old file. -/
def SoundCriterion : Prop :=
  ∀ (n : Nat) (v w : Version) (baseObjects : List FileSystemTree) (o : PathedObject)
    (oldFile : FileSystemObject), vs[n]? = some v → vs[n + 1]? = some w →
    w.call.baseObjects (some v.archive) = .ok baseObjects →
    o ∈ baseObjects.flatMap FileSystemTree.iterate → o.2.isIncluded →
    Unchanged w.call.env (n + 1 : Nat) v.archive.getBaseObjects o oldFile →
    0 ≤ oldFile.latestVersion → ∃ g ∈ v.archive.objects, oldFile = g.2.stored ∧
      content n g.1.mappedPath = content (n + 1) o.1.mappedPath

/-- No file is scanned twice, unless it has several names. -/
def SourcesDisjoint : Prop :=
  ∀ (n : Nat) (v : Version) (baseObjects : List FileSystemTree), vs[n]? = some v →
    v.call.baseObjects (previousVersion vs n) = .ok baseObjects →
    ∀ (i : Nat) (o : PathedObject), (baseObjects.flatMap FileSystemTree.iterate)[i]? = some o →
      o.2.isIncluded → Earlier (baseObjects.flatMap FileSystemTree.iterate) i o →
        o.2.type = .fileHardlink

/-- The condition on the state before each backup but the first. -/
def ChainUnchangedHaveData : Prop :=
  ∀ (n : Nat) (v w : Version) (baseObjects : List FileSystemTree), vs[n]? = some v →
    vs[n + 1]? = some w → w.call.baseObjects (some v.archive) = .ok baseObjects →
    UnchangedHaveData w.call.env (n + 1 : Nat) v.archive.getBaseObjects
      (w.call.oldObjectsDict v.archive.getBaseObjects)
      (baseObjects.flatMap FileSystemTree.iterate)

end Assumptions

/-! ### Data that is stored -/

/-- The data of a stream is what has been read under the path of its first object. -/
lemma ArchiveOf.streamData_eq (h : ArchiveOf env n old firstId os st a) {s i : Nat}
    {stream : BackupStream} {o : PathedObject} (hstream : st.heap[s]? = some stream)
    (hdata : stream.data.hasData) (hhead : stream.fileSystemObjects.head? = some i)
    (ho : os[i]? = some o) : ∃ bytes, env.fs.readFile o.1.mappedPath = some bytes ∧
      a.streamData stream.uniqueId = some bytes := by
  obtain ⟨j, hj⟩ := List.mem_iff_getElem?.mp ((h.generation.kept s).mpr ⟨stream, hstream, hdata⟩)
  have hlt : j < a.files.length := h.files.length_eq ▸ (List.getElem?_eq_some_iff.mp hj).1
  have hfile := List.getElem?_eq_getElem hlt
  obtain ⟨stream', i', path, hstream', hhead', hpath, hid, hread⟩ :=
    List.forall₂_iff_get.mp h.files |>.2 j (List.getElem?_eq_some_iff.mp hj).1 hlt
  rw [List.get_eq_getElem, (List.getElem?_eq_some_iff.mp hj).2, hstream, Option.some.injEq]
    at hstream'
  subst hstream'
  rw [hhead, Option.some.injEq] at hhead'
  rw [← hhead', List.getElem?_map, ho, Option.map_some, Option.some.injEq] at hpath
  refine ⟨_, hpath ▸ hread, ?_⟩
  rw [List.get_eq_getElem] at hid
  have hnodup : (a.files.map fun file => file.1).Nodup := by
    have hids := h.streamIds
    rw [VersionArchive.streamIds] at hids
    rw [hids]
    exact List.nodup_range'
  have hfind : a.files.find? (fun file => file.1 = stream.uniqueId) = some a.files[j] := by
    obtain ⟨file, hfile'⟩ : ∃ file,
        a.files.find? (fun file => file.1 = stream.uniqueId) = some file :=
      Option.isSome_iff_exists.mp (List.find?_isSome.mpr
        ⟨a.files[j], List.getElem_mem hlt, by simpa using hid⟩)
    have hsame : file.1 = stream.uniqueId := by simpa using List.find?_some hfile'
    rw [hfile', List.inj_on_of_nodup_map hnodup (List.mem_of_find?_eq_some hfile')
      (List.getElem_mem hlt) (hsame.trans hid.symm)]
  rw [VersionArchive.streamData, hfind]
  rfl

lemma VersionArchive.mem_streamIds {a : VersionArchive} {id : Nat} {bytes : List Byte}
    (h : a.streamData id = some bytes) : id ∈ a.streamIds := by
  obtain ⟨file, hfile, -⟩ := Option.map_eq_some_iff.mp h
  have hid : file.1 = id := by simpa using List.find?_some hfile
  rw [← hid]
  exact List.mem_map_of_mem (List.mem_of_find?_eq_some hfile)

/-! ### The ids that are copied -/

lemma BackupEngine.pathKey_copyStreamUniqueId {culture : Culture}
    {dict : List (Str × FileSystemObject)} (o : PathedObject) :
    FileSystemTree.pathKey (copyStreamUniqueId culture dict o) = FileSystemTree.pathKey o.2 := by
  rw [copyStreamUniqueId]
  split <;> rfl

/-- An object has the id that the dictionary has for its path. -/
lemma BackupCall.streamUniqueId_of_baseObjects {call : BackupCall} {previous : VersionArchive}
    {baseObjects : List FileSystemTree} (h : call.baseObjects (some previous) = .ok baseObjects)
    {o : PathedObject} (ho : o ∈ baseObjects.flatMap FileSystemTree.iterate)
    {found : FileSystemObject}
    (hfound : (call.oldObjectsDict previous.getBaseObjects).lookup
      (simplifyPath call.env.culture o.1.mappedPath) = some found) :
    o.2.streamUniqueId = found.streamUniqueId := by
  simp only [BackupCall.baseObjects, bind_eq_ok, pure_eq_ok, Option.map_some] at h
  obtain ⟨scanned, -, rfl⟩ := h
  obtain ⟨t, ht, ho⟩ := List.mem_flatMap.mp ho
  obtain ⟨t0, ht0, rfl⟩ := List.mem_map.mp ht
  rw [FileSystemTree.iterate_map_pathed t0 BackupEngine.pathKey_copyStreamUniqueId] at ho
  obtain ⟨x, hx, rfl⟩ := List.mem_map.mp ho
  simp only [BackupEngine.copyStreamUniqueId, hfound]

/-! ### Chains of versions -/

section Chain

variable {vs : List Version} {content : Nat → Str → List Byte}

/-- The object refers to a version up to the one with the number `n`, which has the bytes that the
file has in the latter. -/
def RefersToContent (vs : List Version) (content : Nat → Str → List Byte) (n : Nat)
    (o : PathedObject) : Prop :=
  ∃ k w, k ≤ n ∧ vs[k]? = some w ∧ o.2.latestVersion = (k : Int) ∧
    w.archive.streamData o.2.streamUniqueId = some (content n o.1.mappedPath)

variable {n : Nat} {v : Version} {baseObjects : List FileSystemTree} {st : GenerateState}

/-- The first object of a stream refers to its content if the objects of the previous version do. -/
lemma VersionChain.refersToContent_head (hcontent : ContentOfFiles vs content)
    (hsound : SoundCriterion vs content) (hunchanged : ChainUnchangedHaveData vs)
    (hv : vs[n]? = some v)
    (hbase : v.call.baseObjects (previousVersion vs n) = .ok baseObjects)
    (harchive : ArchiveOf v.call.env n ((previousVersion vs n).map VersionArchive.getBaseObjects)
      (BackupCall.startCounters (previousVersion vs n)).nextStreamUniqueId
      (baseObjects.flatMap FileSystemTree.iterate) st v.archive)
    (hprevious : ∀ m w, n = m + 1 → vs[m]? = some w → ∀ g ∈ w.archive.objects,
      0 ≤ g.2.latestVersion → RefersToContent vs content m g)
    {s i : Nat} {stream : BackupStream} {o : PathedObject} {f : FileSystemObject}
    (hstream : st.heap[s]? = some stream) (hhead : stream.fileSystemObjects.head? = some i)
    (ho : (baseObjects.flatMap FileSystemTree.iterate)[i]? = some o)
    (hf : st.objects[i]? = some f) : RefersToContent vs content n (o.1, f) := by
  obtain ⟨fso, hincluded, hnew, -, hchosen, hid, hobject⟩ :=
    harchive.generation.outcome_head hstream hhead ho hf
  have hversion : f.latestVersion = fso.latestVersion := by rw [hobject]
  have hidf : f.streamUniqueId = stream.uniqueId := by rw [hobject]
  -- a stream with data is stored in the new version
  have hfull : stream.data.hasData → fso.latestVersion = n →
      RefersToContent vs content n (o.1, f) := by
    intro hdata hn
    obtain ⟨bytes, hread, hstored⟩ := harchive.streamData_eq hstream hdata hhead ho
    refine ⟨n, v, le_rfl, hv, hversion.trans hn, ?_⟩
    rw [hcontent.read n v _ bytes hv hread]
    exact hidf ▸ hstored
  generalize hdata : stream.data = data at hchosen hid hfull
  generalize hold : (previousVersion vs n).map VersionArchive.getBaseObjects = old at hchosen
  cases hchosen with
  | initial hn | forced _ hn | changed _ _ hn => exact hfull rfl hn
  | @unchanged oldObjects _ _ _ v' hmode hchanged hv' =>
    obtain ⟨a, ha, rfl⟩ := Option.map_eq_some_iff.mp hold
    obtain ⟨m, w, rfl, hw, rfl⟩ := previousVersion_eq_some hv ha
    obtain ⟨oldFile, hcalled, rfl⟩ := unchanged_of_fileHasChanged hchanged
    rw [ha] at hbase
    obtain ⟨hnonneg, hdict⟩ :=
      (hunchanged m w v baseObjects hw hv hbase).unchanged i o oldFile ho hincluded hnew hmode
        hcalled
    have hmem := List.mem_of_getElem? ho
    obtain ⟨found, hfound, hsame⟩ := Option.map_eq_some_iff.mp hdict
    have hcopied := BackupCall.streamUniqueId_of_baseObjects hbase hmem hfound
    obtain ⟨g, hg, hstored, hbytes⟩ :=
      hsound m w v baseObjects o oldFile hw hv hbase hmem hincluded hcalled hnonneg
    have hgversion : oldFile.latestVersion = g.2.latestVersion := by rw [hstored]; rfl
    have hgid : oldFile.streamUniqueId = g.2.streamUniqueId := by rw [hstored]; rfl
    obtain ⟨k, x, hk, hx, hgk, hdata⟩ := hprevious m w rfl hw g hg (hgversion ▸ hnonneg)
    refine ⟨k, x, by omega, hx, ?_, ?_⟩
    · rw [hversion, hv', hgversion, hgk]
    · rw [hidf, hid rfl, hcopied, hsame, hgid, ← hbytes]
      exact hdata
  | @declared oldObjects _ _ _ hmode hchanged _ =>
    obtain ⟨a, ha, rfl⟩ := Option.map_eq_some_iff.mp hold
    obtain ⟨m, w, rfl, hw, rfl⟩ := previousVersion_eq_some hv ha
    rw [ha] at hbase
    obtain ⟨oldFile, hcalled⟩ :=
      (hunchanged m w v baseObjects hw hv hbase).declared i o ho hincluded hnew hmode
    exact absurd hcalled (not_unchanged_of_fileHasChanged hchanged)

/-- What becomes of an object: it is left out, or refers to its content. -/
lemma VersionChain.refersToContent_of_outcome (hchain : VersionChain vs)
    (hcontent : ContentOfFiles vs content) (hsound : SoundCriterion vs content)
    (hsources : SourcesDisjoint vs) (hunchanged : ChainUnchangedHaveData vs)
    (hv : vs[n]? = some v)
    (hprevious : ∀ m w, n = m + 1 → vs[m]? = some w → ∀ g ∈ w.archive.objects,
      0 ≤ g.2.latestVersion → RefersToContent vs content m g)
    {g : PathedObject} (hg : g ∈ v.archive.objects) :
    (∃ o : FileSystemObject, o.isIncluded = false ∧ o.type = g.2.type ∧
      o.backupMode = g.2.backupMode ∧ g.2.latestVersion = -1) ∨ RefersToContent vs content n g := by
  obtain ⟨r, hr, hv'⟩ := hchain.newVersion_eq_ok hv
  obtain ⟨baseObjects, st, hbase, harchive, -⟩ := BackupCall.newVersion_eq_ok hr
  rw [hv'] at harchive
  obtain ⟨i, hg⟩ := List.mem_iff_getElem?.mp hg
  obtain ⟨o, f, ho, hf⟩ := harchive.exists_getElem hg
  have hgf := harchive.objects i f g hf hg
  have hpath : g.1 = o.1 := by
    obtain ⟨-, g', -, hg', hpath⟩ := harchive.exists_archived ho
    rw [hg, Option.some.injEq] at hg'
    exact hg' ▸ hpath
  have hof : RefersToContent vs content n (o.1, f) → RefersToContent vs content n g := by
    rintro ⟨k, w, hk, hw, hversion, hdata⟩
    refine ⟨k, w, hk, hw, hgf.latestVersion.trans hversion, ?_⟩
    rw [hgf.streamUniqueId, hpath]
    exact hdata
  cases harchive.generation.outcome i o f ho hf with
  | excluded hexcluded _ _ hobject =>
    rw [hgf, hobject]
    exact .inl ⟨o.2, hexcluded, rfl, rfl, rfl⟩
  | stray hincluded htype hearlier =>
    exact absurd (hsources n v baseObjects hv hbase i o ho hincluded hearlier) htype
  | @peer s k stream ok fk _ _ hok hguid hsame hstream hhead hfk _ hobject =>
    obtain ⟨k', w, hk', hw, hversion, hdata⟩ := VersionChain.refersToContent_head hcontent hsound
      hunchanged hv hbase harchive hprevious hstream hhead hok hfk
    obtain ⟨fso, -, -, -, -, -, hfkeq⟩ := harchive.generation.outcome_head hstream hhead hok hfk
    have hid : f.streamUniqueId = fk.streamUniqueId := by rw [hobject, hfkeq]
    refine .inr (hof ⟨k', w, hk', hw, ?_, ?_⟩)
    · rw [hobject]
      exact hversion
    · rw [hid, ← hcontent.names n v baseObjects ok o hv hbase (List.mem_of_getElem? hok)
        (List.mem_of_getElem? ho) hguid hsame]
      exact hdata
  | first _ _ hstream hhead =>
    exact .inr (hof (VersionChain.refersToContent_head hcontent hsound hunchanged hv hbase harchive
      hprevious hstream hhead ho hf))

/-- All objects that have a version refer to their content. -/
lemma VersionChain.refersToContent (hchain : VersionChain vs)
    (hcontent : ContentOfFiles vs content) (hsound : SoundCriterion vs content)
    (hsources : SourcesDisjoint vs) (hunchanged : ChainUnchangedHaveData vs)
    (hv : vs[n]? = some v) {g : PathedObject} (hg : g ∈ v.archive.objects)
    (hnonneg : 0 ≤ g.2.latestVersion) : RefersToContent vs content n g := by
  induction n using Nat.strong_induction_on generalizing v g with
  | _ n ih =>
    rcases hchain.refersToContent_of_outcome hcontent hsound hsources hunchanged hv
      (fun m w hm hw g hg => ih m (by omega) hw hg) hg with ⟨-, -, -, -, hversion⟩ | h
    · omega
    · exact h

end Chain

/-- If the objects that are called unchanged have data, in every backup, then all files and
hardlinks that are not excluded refer to a version in the directory which has the bytes that the
file had at the time of the backup. -/
theorem refersToContent_of_freshBackups {culture : Culture} {targetLocation : Str}
    {vs : List Version}
    {dir : TargetDirectory} {content : Nat → Str → List Byte}
    (h : FreshBackups culture targetLocation vs dir) (hcontent : ContentOfFiles vs content)
    (hsound : SoundCriterion vs content) (hsources : SourcesDisjoint vs)
    (hunchanged : ChainUnchangedHaveData vs) :
    ∀ (n : Nat) (v : Version) (o : PathedObject), vs[n]? = some v → o ∈ v.archive.objects →
      o.2.type = .regularFile ∨ o.2.type = .fileHardlink → o.2.backupMode ≠ .noBackup →
        ∃ k w, k ≤ n ∧ vs[k]? = some w ∧ o.2.latestVersion = (k : Int) ∧
          dir.get? (getVersionName k) = some (some w.archive) ∧
          o.2.streamUniqueId ∈ w.archive.streamIds ∧
          w.archive.streamData o.2.streamUniqueId = some (content n o.1.mappedPath) := by
  intro n v o hv ho htype hmode
  have hchain := h.hasChain.chain
  rcases hchain.refersToContent_of_outcome hcontent hsound hsources hunchanged hv
    (fun m w _ hw g hg => hchain.refersToContent hcontent hsound hsources hunchanged hw hg) ho with
    ⟨fso, hexcluded, htype', hmode', -⟩ | ⟨k, w, hk, hw, hversion, hdata⟩
  · rw [← htype'] at htype
    rw [← hmode'] at hmode
    rcases htype with htype | htype <;>
      simp [FileSystemObject.isIncluded, FileSystemObject.isDirectoryish,
        FileSystemObject.isLinkish, htype, hmode] at hexcluded
  · exact ⟨k, w, hk, hw, hversion, h.hasChain.present k w hw, VersionArchive.mem_streamIds hdata,
      hdata⟩

/-! ### The directory with one file -/

/-- A backup of the directory that leaves its file out. -/
def excludingBackup : BackupCall :=
  { fileBackup [['C', ':', '\\', 'd']] with
    env := .plain (fileBackup []).env.fs fun o =>
      if o.2.isDirectoryish then .directory else .noBackup }

/-- A file alone in its directory is not scanned twice. -/
lemma not_earlier_of_single {os : List PathedObject} {included : Bool}
    (h : os.map (fun o => o.2.isIncluded) = [false, included]) {i : Nat} {o : PathedObject}
    (ho : os[i]? = some o) (hincluded : o.2.isIncluded) : ¬ Earlier os i o := by
  have hindex : ∀ (j : Nat) (o : PathedObject), os[j]? = some o → o.2.isIncluded → j = 1 := by
    intro j o ho hincluded
    have hmap := congrArg (fun l => l[j]?) h
    rw [List.getElem?_map, ho, Option.map_some, hincluded] at hmap
    match j, hmap with
    | 1, _ => rfl
  rintro ⟨-, k, ok, hk, hok, hincluded', -⟩
  rw [hindex i o ho hincluded, hindex k ok hok hincluded'] at hk
  exact absurd hk (lt_irrefl 1)

/-- If all files have the same content, the criterion cannot be wrong. -/
lemma soundCriterion_const (vs : List Version) (bytes : List Byte) :
    SoundCriterion vs fun _ _ => bytes := by
  rintro n v w baseObjects o oldFile - - - - - ⟨hfind, -⟩ -
  obtain ⟨t, ht, hfile⟩ := mem_of_findPath hfind
  obtain ⟨g, hg, hstored⟩ := VersionArchive.mem_getBaseObjects ht hfile
  exact ⟨g, hg, hstored, rfl⟩

lemma contentOfFiles_directory {vs : List Version}
    (h : ∀ v ∈ vs, v.call.env.fs = (fileBackup []).env.fs) :
    ContentOfFiles vs fun _ _ => [1] where
  read n v path bytes hv hread := by
    rw [h v (List.mem_of_getElem? hv)] at hread
    simp only [fileBackup, BackupEnv.plain] at hread
    split_ifs at hread
    exact Option.some.inj hread
  names _ _ _ _ _ _ _ _ _ _ _ := rfl

/-- The objects that the backups of a chain of two versions have found. -/
lemma sourcesDisjoint_of_two {v w : Version} {bs bs' : List FileSystemTree} {included : Bool}
    (hbs : v.call.baseObjects none = .ok bs) (hbs' : w.call.baseObjects (some v.archive) = .ok bs')
    (hincluded : (bs.flatMap FileSystemTree.iterate).map (fun o => o.2.isIncluded) =
      [false, included])
    (hincluded' : (bs'.flatMap FileSystemTree.iterate).map (fun o => o.2.isIncluded) =
      [false, true]) : SourcesDisjoint [v, w] := by
  intro n x baseObjects hx hbase i o ho hincl hearlier
  match n, hx with
  | 0, hx =>
    obtain rfl : v = x := Option.some.inj hx
    rw [show previousVersion [v, w] 0 = none from rfl, hbs, Except.ok.injEq] at hbase
    subst hbase
    exact absurd hearlier (not_earlier_of_single hincluded ho hincl)
  | 1, hx =>
    obtain rfl : w = x := Option.some.inj hx
    rw [show previousVersion [v, w] 1 = some v.archive from rfl, hbs', Except.ok.injEq] at hbase
    subst hbase
    exact absurd hearlier (not_earlier_of_single hincluded' ho hincl)

/-- The second of two backups refers to the file that the first one has stored. -/
theorem refersToContent_directory : ∃ r1 r2 o,
    (fileBackup [['C', ':', '\\', 'd']]).newVersion 0 none = .ok r1 ∧
      (fileBackup [['C', ':', '\\', 'd']]).newVersion 1 (some r1.archive) = .ok r2 ∧
      o ∈ r2.archive.objects ∧ o.2.type = .regularFile ∧ o.2.latestVersion = 0 ∧
      r1.archive.streamData o.2.streamUniqueId = some [1] := by
  obtain ⟨r1, r2, hr1, hr2, -, hruns⟩ := exists_freshBackups_directory
  obtain ⟨r1', r2', bs, bs', o, oldFile, g, hr1', hr2', hbs, hbs', hincluded, hincluded', ho,
      hmode, hfind, hversion, hdict, hg, htype, hgmode, hgversion⟩ : ∃ r1 r2 bs bs' o oldFile g,
      (fileBackup [['C', ':', '\\', 'd']]).newVersion 0 none = .ok r1 ∧
      (fileBackup [['C', ':', '\\', 'd']]).newVersion 1 (some r1.archive) = .ok r2 ∧
      (fileBackup [['C', ':', '\\', 'd']]).baseObjects none = .ok bs ∧
      (fileBackup [['C', ':', '\\', 'd']]).baseObjects (some r1.archive) = .ok bs' ∧
      (bs.flatMap FileSystemTree.iterate).map (fun o => o.2.isIncluded) = [false, true] ∧
      (bs'.flatMap FileSystemTree.iterate).map (fun o => o.2.isIncluded) = [false, true] ∧
      (bs'.flatMap FileSystemTree.iterate)[1]? = some o ∧ o.2.backupMode = .full ∧
      findPath (fileBackup []).env.culture r1.archive.getBaseObjects o.1.mappedPath = some oldFile ∧
      oldFile.latestVersion = 0 ∧
      (((fileBackup []).oldObjectsDict r1.archive.getBaseObjects).lookup
        (simplifyPath (fileBackup []).env.culture o.1.mappedPath)).map
          FileSystemObject.streamUniqueId = some oldFile.streamUniqueId ∧
      r2.archive.objects[1]? = some g ∧ g.2.type = .regularFile ∧ g.2.backupMode = .unmodified ∧
      g.2.latestVersion = 0 :=
    ⟨_, _, _, _, _, _, _, rfl, rfl, rfl, rfl, rfl, rfl, rfl, rfl, rfl, rfl, rfl, rfl, rfl, rfl, rfl⟩
  rw [hr1, Except.ok.injEq] at hr1'
  subst hr1'
  rw [hr2, Except.ok.injEq] at hr2'
  subst hr2'
  have hunchanged : ChainUnchangedHaveData
      [⟨fileBackup [['C', ':', '\\', 'd']], r1.archive⟩,
        ⟨fileBackup [['C', ':', '\\', 'd']], r2.archive⟩] := by
    intro n v w baseObjects hv hw hbase
    match n, hv, hw with
    | 0, hv, hw =>
      obtain rfl := Option.some.inj hv
      obtain rfl := Option.some.inj hw
      rw [hbs', Except.ok.injEq] at hbase
      subst hbase
      have hindex : ∀ (i : Nat) (o' : PathedObject),
          (bs'.flatMap FileSystemTree.iterate)[i]? = some o' → o'.2.isIncluded → o' = o := by
        intro i o' ho' hincl
        have hmap := congrArg (fun l => l[i]?) hincluded'
        rw [List.getElem?_map, ho', Option.map_some, hincl] at hmap
        match i, hmap with
        | 1, _ =>
          rw [ho, Option.some.injEq] at ho'
          exact ho'.symm
      refine ⟨fun i o' old ho' hincl _ _ hold => ?_, fun i o' ho' hincl _ hmode' => ?_⟩
      · obtain rfl := hindex i o' ho' hincl
        obtain rfl := Option.some.inj (hfind.symm.trans hold.1)
        exact ⟨hversion.ge, hdict⟩
      · obtain rfl := hindex i o' ho' hincl
        rw [hmode] at hmode'
        cases hmode'
  obtain ⟨k, w, -, hw, hk, -, -, hdata⟩ := refersToContent_of_freshBackups hruns
    (contentOfFiles_directory (by simp [fileBackup])) (soundCriterion_const _ [1])
    (sourcesDisjoint_of_two hbs hbs' hincluded hincluded') hunchanged 1 _ g rfl
    (List.mem_of_getElem? hg) (.inl htype) (by rw [hgmode]; decide)
  rw [hgversion] at hk
  obtain rfl : k = 0 := by omega
  obtain rfl := Option.some.inj hw
  exact ⟨r1, r2, g, hr1, hr2, List.mem_of_getElem? hg, htype, hgversion, hdata⟩

/-- A file that has been left out, and is then found unchanged, refers to no version. -/
theorem not_refersToContent_excluded : ∃ (vs : List Version) (dir : TargetDirectory) (n : Nat)
    (v : Version) (o : PathedObject),
    FreshBackups .ordinal ['T'] vs dir ∧ ContentOfFiles vs (fun _ _ => [1]) ∧
      SoundCriterion vs (fun _ _ => [1]) ∧ SourcesDisjoint vs ∧ vs[n]? = some v ∧
      o ∈ v.archive.objects ∧ o.2.type = .regularFile ∧ o.2.backupMode ≠ .noBackup ∧
      o.2.latestVersion = -1 := by
  obtain ⟨e1, e2, r1, r2, bs, bs', g, hbackup1, hbackup2, hbs, hbs', hincluded, hincluded', hg,
      htype, hgmode, hgversion⟩ : ∃ e1 e2 r1 r2 bs bs' g,
      (engineOf []).performBackup excludingBackup [] =
        .ok (e1, [(getVersionName 0, some r1)]) ∧
      (engineOf [0]).performBackup (fileBackup [['C', ':', '\\', 'd']])
          [(getVersionName 0, some r1)] =
        .ok (e2, [(getVersionName 0, some r1), (getVersionName 1, some r2)]) ∧
      excludingBackup.baseObjects none = .ok bs ∧
      (fileBackup [['C', ':', '\\', 'd']]).baseObjects (some r1) = .ok bs' ∧
      (bs.flatMap FileSystemTree.iterate).map (fun o => o.2.isIncluded) = [false, false] ∧
      (bs'.flatMap FileSystemTree.iterate).map (fun o => o.2.isIncluded) = [false, true] ∧
      r2.objects[1]? = some g ∧ g.2.type = .regularFile ∧ g.2.backupMode = .unmodified ∧
      g.2.latestVersion = -1 :=
    ⟨_, _, _, _, _, _, _, rfl, rfl, rfl, rfl, rfl, rfl, rfl, rfl, rfl, rfl⟩
  have hfirst : FreshBackups .ordinal ['T'] [⟨excludingBackup, r1⟩] [(getVersionName 0, some r1)] :=
    .backup (e := engineOf []) _ (.nil _) rfl hbackup1 rfl
  refine ⟨[⟨excludingBackup, r1⟩, ⟨fileBackup [['C', ':', '\\', 'd']], r2⟩], _, 1, _, g,
    .backup (e := engineOf [0]) _ hfirst rfl hbackup2 rfl,
    contentOfFiles_directory (by simp [fileBackup, excludingBackup, BackupEnv.plain]),
    soundCriterion_const _ [1], sourcesDisjoint_of_two hbs hbs' hincluded hincluded', rfl,
    List.mem_of_getElem? hg, htype, by rw [hgmode]; decide, hgversion⟩

end BackupProgram
