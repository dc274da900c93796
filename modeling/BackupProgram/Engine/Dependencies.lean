import BackupProgram.Engine.Chain

/-!
# Dependencies of versions

A version should depend on the versions that its objects refer to. There are objects, however, that
get the number of the new version without any data being stored for them, and make the version
depend on itself.
-/

namespace BackupProgram

open Results

variable {env : BackupEnv} {n : Int} {old : Option (List FileSystemTree)} {firstId : Nat}
  {os : List PathedObject} {st : GenerateState} {a : VersionArchive}

/-- The dependencies are the other versions that files refer to, in ascending order. -/
structure ExactDependencies (n : Int) (a : VersionArchive) : Prop where
  ascending : a.manifest.versionDependencies.Pairwise (· < ·)
  mem_iff : ∀ k, k ∈ a.manifest.versionDependencies ↔
    k ≠ n ∧ 0 ≤ k ∧ ∃ o ∈ a.objects, o.2.isDirectoryish = false ∧ o.2.latestVersion = k

/-- An object gets the number of the new version, but no data: another name of the file comes before
it although it is no hardlink; or the mode is `unmodified` although the file has changed; or the
file is found unchanged in an old version of this number. -/
inductive SelfReference (env : BackupEnv) (n : Int) (old : Option (List FileSystemTree))
    (os : List PathedObject) (i : Nat) (o : PathedObject) : Prop
  | stray (hincluded : o.2.isIncluded) (htype : o.2.type ≠ .fileHardlink)
      (hearlier : Earlier os i o)
  | declared {oldObjects : List FileSystemTree} {fso : FileSystemObject}
      (hold : old = some oldObjects) (hincluded : o.2.isIncluded) (hnew : ¬ Earlier os i o)
      (hmode : o.2.backupMode = .unmodified)
      (hchanged : fileHasChanged env oldObjects (o.1, { o.2 with latestVersion := n }) =
        .ok (true, -1, fso))
  | unchanged {oldObjects : List FileSystemTree} {fso : FileSystemObject}
      (hold : old = some oldObjects) (hincluded : o.2.isIncluded) (hnew : ¬ Earlier os i o)
      (hmode : o.2.backupMode ≠ .forceFull)
      (hunchanged : fileHasChanged env oldObjects (o.1, { o.2 with latestVersion := n }) =
        .ok (false, n, fso))

/-- No object refers to a version that has nothing for it. -/
def SelfContained (env : BackupEnv) (n : Int) (old : Option (List FileSystemTree))
    (os : List PathedObject) : Prop :=
  ∀ (i : Nat) (o : PathedObject), os[i]? = some o → ¬ SelfReference env n old os i o

/-! ### The dependencies of one object -/

/-- What an object whose stream has data refers to in the end. -/
lemma Generation.settled_iff (h : Generation env n old firstId os st) {s i : Nat}
    {stream : BackupStream} {f : FileSystemObject} {b : Option Nat}
    (hstream : st.heap[s]? = some stream) (honly : ∀ s', st.Has s' i ↔ s' = s) :
    Settled st i f b ↔ b = if stream.data.hasData then some s else f.backupStream := by
  have hkept : s ∈ st.kept ↔ stream.data.hasData := by
    rw [h.kept]
    constructor
    · rintro ⟨stream', hstream', hdata⟩
      rw [hstream, Option.some.injEq] at hstream'
      exact hstream' ▸ hdata
    · exact fun hdata => ⟨stream, hstream, hdata⟩
  have hhas : st.Has s i := (honly s).mpr rfl
  split_ifs with hdata
  · constructor
    · rintro (⟨s', -, hs', rfl⟩ | ⟨hnot, -⟩)
      · rw [(honly s').mp hs']
      · exact absurd hhas (hnot s (hkept.mpr hdata))
    · rintro rfl
      exact .inl ⟨s, hkept.mpr hdata, hhas, rfl⟩
  · constructor
    · rintro (⟨s', hs', hhas', -⟩ | ⟨-, rfl⟩)
      · rw [(honly s').mp hhas'] at hs'
        exact absurd (hkept.mp hs') hdata
      · rfl
    · rintro rfl
      refine .inr ⟨fun s' hs' hhas' => ?_, rfl⟩
      rw [(honly s').mp hhas'] at hs'
      exact hdata (hkept.mp hs')

lemma settled_of_none {i : Nat} {f : FileSystemObject} {b : Option Nat}
    (hnone : ∀ s, ¬ st.Has s i) : Settled st i f b ↔ b = f.backupStream := by
  constructor
  · rintro (⟨s, -, hs, -⟩ | ⟨-, rfl⟩)
    · exact absurd hs (hnone s)
    · rfl
  · rintro rfl
    exact .inr ⟨fun s _ => hnone s, rfl⟩

/-- An object that refers to no stream depends on its version. -/
lemma mem_getDependencies_none {heap : List BackupStream} {f : FileSystemObject} {v : Int}
    (h : f.backupStream = none) :
    v ∈ getDependencies heap ∅ f ↔ 0 ≤ f.latestVersion ∧ v = f.latestVersion := by
  rw [getDependencies, h]
  split_ifs with hneg
  · simp [not_le.mpr hneg]
  · simp [not_lt.mp hneg]

lemma mem_getDependencies_some {heap : List BackupStream} {f : FileSystemObject} {s : Nat}
    {stream : BackupStream} {v : Int} (h : f.backupStream = some s)
    (hstream : heap[s]? = some stream) :
    v ∈ getDependencies heap ∅ f ↔ 0 ≤ f.latestVersion ∧ stream.data = .unmodified v := by
  rw [getDependencies, h, Option.bind_some, hstream]
  obtain ⟨data, id, objects⟩ := stream
  split_ifs with hneg
  · simp [not_le.mpr hneg]
  · cases data <;> simp [StreamData.getDependencies, not_lt.mp hneg, eq_comm]

lemma dependsOn_of_none {i : Nat} {f : FileSystemObject} {v : Int} (hnone : ∀ s, ¬ st.Has s i)
    (hf : f.backupStream = none) :
    DependsOn st i f v ↔ 0 ≤ f.latestVersion ∧ v = f.latestVersion := by
  simp only [DependsOn, settled_of_none hnone, exists_eq_left]
  exact mem_getDependencies_none hf

section Stream

variable {s i : Nat} {stream : BackupStream} {f : FileSystemObject} {v : Int}

/-- The first object of a stream refers to it if it has data. -/
lemma Generation.dependsOn_first (h : Generation env n old firstId os st)
    (hstream : st.heap[s]? = some stream) (honly : ∀ s', st.Has s' i ↔ s' = s)
    (hf : f.backupStream = none) :
    DependsOn st i f v ↔ 0 ≤ f.latestVersion ∧ stream.data ≠ .full ∧ v = f.latestVersion := by
  simp only [DependsOn, h.settled_iff hstream honly, exists_eq_left]
  cases hdata : stream.data with
  | full =>
    rw [mem_getDependencies_some (s := s) rfl hstream, hdata]
    simp
  | unmodified w =>
    rw [mem_getDependencies_none (by exact hf)]
    simp

/-- The other objects of a stream refer to it in any case. -/
lemma Generation.dependsOn_peer (h : Generation env n old firstId os st)
    (hstream : st.heap[s]? = some stream) (honly : ∀ s', st.Has s' i ↔ s' = s)
    (hf : f.backupStream = some s) :
    DependsOn st i f v ↔ 0 ≤ f.latestVersion ∧ stream.data = .unmodified v := by
  simp only [DependsOn, h.settled_iff hstream honly, exists_eq_left, hf, ite_self]
  exact mem_getDependencies_some rfl hstream

end Stream

/-- The data of a stream go with the version of its first object. -/
lemma Chosen.data_iff {o : PathedObject} {fso : FileSystemObject} {data : StreamData}
    (h : Chosen env n old o fso data) (hincluded : o.2.isIncluded) {i : Nat}
    (hnew : ¬ Earlier os i o) (hself : 0 ≤ n → ¬ SelfReference env n old os i o)
    (hnonneg : 0 ≤ fso.latestVersion) (v : Int) :
    data = .unmodified v ↔ v ≠ n ∧ fso.latestVersion = v := by
  cases h with
  | initial hversion | forced _ hversion | changed _ _ hversion =>
    rw [hversion]
    exact iff_of_false nofun fun h => h.1 h.2.symm
  | unchanged hmode hchanged hversion =>
    rw [hversion, StreamData.unmodified.injEq]
    refine (and_iff_right_of_imp ?_).symm
    rintro rfl rfl
    exact hself (hversion ▸ hnonneg) (.unchanged rfl hincluded hnew hmode hchanged)
  | declared hmode hchanged hversion =>
    exact absurd (.declared rfl hincluded hnew hmode hchanged) (hself (hversion ▸ hnonneg))

/-- An object makes its version depend on the version it refers to, unless that is its own. -/
lemma Generation.dependsOn_iff (h : Generation env n old firstId os st)
    (hunattached : ∀ o ∈ os, o.2.backupStream = none)
    (hself : 0 ≤ n → SelfContained env n old os) {i : Nat} {o : PathedObject}
    {f : FileSystemObject} (ho : os[i]? = some o) (hf : st.objects[i]? = some f) (v : Int) :
    DependsOn st i f v ↔ v ≠ n ∧ 0 ≤ v ∧ f.latestVersion = v := by
  have hnone := hunattached o (List.mem_of_getElem? ho)
  cases h.outcome i o f ho hf with
  | excluded hincluded _ hnot hobject =>
    have hversion : f.latestVersion = -1 := by rw [hobject]
    rw [dependsOn_of_none hnot (by rw [hobject]; exact hnone), hversion]
    omega
  | stray hincluded htype hearlier hnot hobject =>
    have hversion : f.latestVersion = n := by rw [hobject]
    rw [dependsOn_of_none hnot (by rw [hobject]; exact hnone), hversion]
    constructor
    · rintro ⟨hnonneg, -⟩
      exact absurd (.stray hincluded htype hearlier) (hself hnonneg i o ho)
    · rintro ⟨hne, -, rfl⟩
      exact absurd rfl hne
  | @peer s k stream ok fk htype hk hok hguid hsame hstream hhead hfk honly hobject =>
    obtain ⟨fso, hincluded, hnew, -, hchosen, -, hfkeq⟩ := h.outcome_head hstream hhead hok hfk
    have hversion : f.latestVersion = fso.latestVersion := by rw [hobject, hfkeq]
    have hdata := hchosen.data_iff hincluded hnew fun hn => hself hn k ok hok
    rw [h.dependsOn_peer hstream honly (by rw [hobject]), hversion]
    constructor
    · rintro ⟨hnonneg, hv⟩
      obtain ⟨hne, rfl⟩ := (hdata hnonneg v).mp hv
      exact ⟨hne, hnonneg, rfl⟩
    · rintro ⟨hne, hnonneg, hv⟩
      exact ⟨hv ▸ hnonneg, (hdata (hv ▸ hnonneg) v).mpr ⟨hne, hv⟩⟩
  | @first s stream fso hincluded hnew hstream hhead honly hsame hchosen hid hobject =>
    have hversion : f.latestVersion = fso.latestVersion := by rw [hobject]
    have hf0 : f.backupStream = none := by
      rw [hobject, hsame]
      exact hnone
    have hdata := hchosen.data_iff hincluded hnew fun hn => hself hn i o ho
    rw [h.dependsOn_first hstream honly hf0, hversion]
    constructor
    · rintro ⟨hnonneg, hfull, rfl⟩
      refine ⟨?_, hnonneg, rfl⟩
      cases hw : stream.data with
      | full => exact absurd hw hfull
      | unmodified w =>
        obtain ⟨hne, hwv⟩ := (hdata hnonneg w).mp hw
        exact hwv ▸ hne
    · rintro ⟨hne, hnonneg, hv⟩
      refine ⟨hv ▸ hnonneg, fun hfull => ?_, hv.symm⟩
      have hunmodified := (hdata (hv ▸ hnonneg) v).mpr ⟨hne, hv⟩
      rw [hfull] at hunmodified
      exact absurd hunmodified nofun

/-- An object that refers to its own version has no data there. -/
lemma Chosen.of_selfReference {o : PathedObject} {fso : FileSystemObject} {data : StreamData}
    (h : Chosen env n old o fso data) {i : Nat} (hnew : ¬ Earlier os i o)
    (hself : SelfReference env n old os i o) : data ≠ .full ∧ fso.latestVersion = n := by
  cases hself with
  | stray _ _ hearlier => exact absurd hearlier hnew
  | declared hold hincluded _ hmode hchanged =>
    cases h with
    | initial => cases hold
    | forced hmode' => simp [hmode] at hmode'
    | changed hmode' => simp [hmode] at hmode'
    | unchanged _ hunchanged =>
      cases hold
      simp [hchanged] at hunchanged
    | declared _ _ hversion => exact ⟨nofun, hversion⟩
  | unchanged hold hincluded _ hmode hunchanged =>
    cases h with
    | initial => cases hold
    | forced hmode' => exact absurd hmode' hmode
    | changed _ hchanged =>
      cases hold
      simp [hunchanged] at hchanged
    | unchanged _ hunchanged' hversion =>
      cases hold
      simp only [hunchanged, Except.ok.injEq, Prod.mk.injEq, true_and] at hunchanged'
      exact ⟨nofun, hversion.trans hunchanged'.1.symm⟩
    | declared _ hchanged =>
      cases hold
      simp [hunchanged] at hchanged

lemma SelfReference.isIncluded {i : Nat} {o : PathedObject}
    (h : SelfReference env n old os i o) : o.2.isIncluded := by
  cases h with
  | stray hincluded | declared _ hincluded | unchanged _ hincluded => exact hincluded

/-- An object that refers to its own version makes it depend on itself. -/
lemma Generation.dependsOn_self (h : Generation env n old firstId os st) (hn : 0 ≤ n)
    (hunattached : ∀ o ∈ os, o.2.backupStream = none) {i : Nat} {o : PathedObject}
    {f : FileSystemObject} (ho : os[i]? = some o) (hf : st.objects[i]? = some f)
    (hself : SelfReference env n old os i o) : DependsOn st i f n := by
  have hnone := hunattached o (List.mem_of_getElem? ho)
  cases h.outcome i o f ho hf with
  | excluded hexcluded => simp [hself.isIncluded] at hexcluded
  | stray _ _ _ hnot hobject =>
    have hversion : f.latestVersion = n := by rw [hobject]
    rw [dependsOn_of_none hnot (by rw [hobject]; exact hnone), hversion]
    exact ⟨hn, rfl⟩
  | @peer s k stream ok fk htype hk hok hguid hsame hstream hhead hfk honly hobject =>
    obtain ⟨-, hincluded, -⟩ := h.outcome_head hstream hhead hok hfk
    have hearlier : Earlier os i o := ⟨hguid, k, ok, hk, hok, hincluded, hsame⟩
    cases hself with
    | stray _ htype' => exact absurd htype htype'
    | declared _ _ hnew | unchanged _ _ hnew => exact absurd hearlier hnew
  | @first s stream fso hincluded hnew hstream hhead honly hsame hchosen hid hobject =>
    obtain ⟨hdata, hfso⟩ := hchosen.of_selfReference hnew hself
    have hversion : f.latestVersion = n := by rw [hobject, ← hfso]
    have hf0 : f.backupStream = none := by
      rw [hobject, hsame]
      exact hnone
    rw [h.dependsOn_first hstream honly hf0, hversion]
    exact ⟨hn, hdata, rfl⟩

/-! ### The dependencies of an archive -/

/-- Files are the only objects that refer to a version. -/
lemma Generation.isDirectoryish_of_nonneg (h : Generation env n old firstId os st) {i : Nat}
    {o : PathedObject} {f : FileSystemObject} (ho : os[i]? = some o) (hf : st.objects[i]? = some f)
    (hnonneg : 0 ≤ f.latestVersion) : f.isDirectoryish = false := by
  have hincluded : o.2.isIncluded → o.2.isDirectoryish = false := by
    intro hincluded
    simp only [FileSystemObject.isIncluded, Bool.and_eq_true, Bool.not_eq_true'] at hincluded
    exact hincluded.1.1
  cases h.outcome i o f ho hf with
  | excluded _ _ _ hobject =>
    have hversion : f.latestVersion = -1 := by rw [hobject]
    omega
  | stray hincl _ _ _ hobject =>
    rw [hobject]
    exact hincluded hincl
  | peer htype _ _ _ _ _ _ _ _ hobject =>
    rw [hobject]
    simp [FileSystemObject.isDirectoryish, htype]
  | first hincl _ _ _ _ hsame _ _ hobject =>
    rw [hobject, hsame]
    exact hincluded hincl

lemma ArchiveOf.exact_iff_selfContained (h : ArchiveOf env n old firstId os st a)
    (hunattached : ∀ o ∈ os, o.2.backupStream = none) :
    ExactDependencies n a ↔ (0 ≤ n → SelfContained env n old os) := by
  constructor
  · intro hexact hn i o ho hself
    obtain ⟨f, -, hf, -⟩ := h.exists_archived ho
    have hmem := (h.versionDependencies n).mpr
      ⟨i, f, hf, h.generation.dependsOn_self hn hunattached ho hf hself⟩
    exact ((hexact.mem_iff n).mp hmem).1 rfl
  · intro hself
    refine ⟨h.sorted, fun k => ?_⟩
    rw [h.versionDependencies]
    constructor
    · rintro ⟨i, f, hf, hdep⟩
      have hi : i < os.length := h.generation.length ▸ (List.getElem?_eq_some_iff.mp hf).1
      have ho := List.getElem?_eq_getElem hi
      obtain ⟨f', g, hf', hg, -⟩ := h.exists_archived ho
      rw [hf, Option.some.injEq] at hf'
      subst hf'
      obtain ⟨hne, hnonneg, hk⟩ := (h.generation.dependsOn_iff hunattached hself ho hf k).mp hdep
      have hfile := h.generation.isDirectoryish_of_nonneg ho hf (hk ▸ hnonneg)
      have hsame := h.objects i f g hf hg
      refine ⟨hne, hnonneg, g, List.mem_of_getElem? hg, ?_, ?_⟩
      · rw [hsame]
        exact hfile
      · rw [hsame]
        exact hk
    · rintro ⟨hne, hnonneg, g, hg, -, hk⟩
      obtain ⟨i, hg⟩ := List.mem_iff_getElem?.mp hg
      obtain ⟨o, f, ho, hf⟩ := h.exists_getElem hg
      rw [h.objects i f g hf hg] at hk
      exact ⟨i, f, hf,
        (h.generation.dependsOn_iff hunattached hself ho hf k).mpr ⟨hne, hnonneg, hk⟩⟩

/-! ### Chains of versions -/

/-- All versions of a chain are made from objects that refer to versions which have something for
them. -/
def SelfContainedChain (vs : List Version) : Prop :=
  ∀ (k : Nat) (v : Version) (baseObjects : List FileSystemTree), vs[k]? = some v →
    v.call.baseObjects (previousVersion vs k) = .ok baseObjects →
      SelfContained v.call.env k ((previousVersion vs k).map VersionArchive.getBaseObjects)
        (baseObjects.flatMap FileSystemTree.iterate)

/-- A version of a chain depends on another one. -/
def ChainDependsOn (vs : List Version) (n k : Nat) : Prop :=
  ∃ v, vs[n]? = some v ∧ (k : Int) ∈ v.archive.manifest.versionDependencies

lemma VersionChain.exactDependencies {vs : List Version} (h : VersionChain vs)
    (hself : SelfContainedChain vs) {k : Nat} {v : Version} (hv : vs[k]? = some v) :
    ExactDependencies k v.archive := by
  obtain ⟨r, hr, hv'⟩ := h.newVersion_eq_ok hv
  obtain ⟨baseObjects, st, hbase, harchive, -⟩ := BackupCall.newVersion_eq_ok hr
  rw [hv'] at harchive
  exact (harchive.exact_iff_selfContained fun o ho =>
    (BackupCall.created_of_baseObjects hbase o ho).2).mpr fun _ => hself k v baseObjects hv hbase

lemma VersionChain.lt_of_dependsOn {vs : List Version} (h : VersionChain vs)
    (hself : SelfContainedChain vs) {n k : Nat} (hdep : ChainDependsOn vs n k) : k < n := by
  obtain ⟨v, hv, hmem⟩ := hdep
  obtain ⟨hne, -, o, ho, -, hversion⟩ := ((h.exactDependencies hself hv).mem_iff k).mp hmem
  have hle := h.latestVersion_le hv o ho
  omega

/-- The dependencies of a version are exact if and only if its objects refer to versions which have
something for them; in a chain of such versions no version depends on itself, not even by way of
others. -/
theorem exactDependencies_iff (env : BackupEnv) (startTime n : Int)
    (old : Option (List FileSystemTree)) (counters : StreamCounters)
    (baseObjects : List FileSystemTree) :
    (∀ r : GeneratedArchive,
      (∀ o ∈ baseObjects.flatMap FileSystemTree.iterate, o.2.backupStream = none) →
      generateArchive env startTime (generatorFor env n old) n [] counters baseObjects = .ok r →
        (ExactDependencies n r.archive ↔
          (0 ≤ n → SelfContained env n old (baseObjects.flatMap FileSystemTree.iterate)))) ∧
    ∀ (culture : Culture) (targetLocation : Str) (vs : List Version) (dir : TargetDirectory),
      FreshBackups culture targetLocation vs dir → SelfContainedChain vs →
        (∀ (k : Nat) (v : Version), vs[k]? = some v → ExactDependencies k v.archive) ∧
          ∀ k, ¬ Relation.TransGen (ChainDependsOn vs) k k := by
  constructor
  · intro r hunattached hr
    obtain ⟨st, harchive, -⟩ := generateArchive_eq_ok hr
    exact harchive.exact_iff_selfContained hunattached
  · intro culture targetLocation vs dir hruns hself
    have hchain := hruns.hasChain.chain
    refine ⟨fun k v hv => hchain.exactDependencies hself hv, fun k hk => ?_⟩
    have hlt : ∀ n, Relation.TransGen (ChainDependsOn vs) k n → n < k := by
      intro n hn
      induction hn with
      | single hdep => exact hchain.lt_of_dependsOn hself hdep
      | tail _ hdep ih => exact (hchain.lt_of_dependsOn hself hdep).trans ih
    exact (hlt k hk).ne rfl

/-! ### A file that is scanned twice -/

/-- If the directory is the only source location, all objects are different files. -/
lemma selfContained_directory {baseObjects : List FileSystemTree}
    (h : (fileBackup [['C', ':', '\\', 'd']]).baseObjects none = .ok baseObjects) :
    SelfContained (fileBackup [['C', ':', '\\', 'd']]).env 0 none
      (baseObjects.flatMap FileSystemTree.iterate) := by
  have hobjects : (baseObjects.flatMap FileSystemTree.iterate).map (fun o => o.2.isIncluded) =
      [false, true] := by
    obtain ⟨baseObjects', hbase, hobjects⟩ : ∃ baseObjects',
        (fileBackup [['C', ':', '\\', 'd']]).baseObjects none = .ok baseObjects' ∧
          (baseObjects'.flatMap FileSystemTree.iterate).map (fun o => o.2.isIncluded) =
            [false, true] := ⟨_, rfl, rfl⟩
    rw [h, Except.ok.injEq] at hbase
    rw [hbase, hobjects]
  have hindex : ∀ (i : Nat) (o : PathedObject),
      (baseObjects.flatMap FileSystemTree.iterate)[i]? = some o → o.2.isIncluded → i = 1 := by
    intro i o ho hincluded
    have hmap := congrArg (fun l => l[i]?) hobjects
    rw [List.getElem?_map, ho, Option.map_some, hincluded] at hmap
    match i, hmap with
    | 1, _ => rfl
  intro i o ho hself
  cases hself with
  | stray hincluded htype hearlier =>
    obtain ⟨-, k, ok, hk, hok, hincluded', -⟩ := hearlier
    rw [hindex i o ho hincluded, hindex k ok hok hincluded'] at hk
    exact absurd hk (lt_irrefl 1)
  | declared hold | unchanged hold => cases hold

/-- In the second backup the file is found unchanged, with the data of the first version. -/
lemma selfContained_second {r : GeneratedArchive} {baseObjects : List FileSystemTree}
    (hr : (fileBackup [['C', ':', '\\', 'd']]).newVersion 0 none = .ok r)
    (h : (fileBackup [['C', ':', '\\', 'd']]).baseObjects (some r.archive) = .ok baseObjects) :
    SelfContained (fileBackup [['C', ':', '\\', 'd']]).env 1 (some r.archive.getBaseObjects)
      (baseObjects.flatMap FileSystemTree.iterate) := by
  obtain ⟨r', bs, o, fso, hr', hbs, hincluded, ho, hmode, hunchanged⟩ : ∃ r' bs o fso,
      (fileBackup [['C', ':', '\\', 'd']]).newVersion 0 none = .ok r' ∧
      (fileBackup [['C', ':', '\\', 'd']]).baseObjects (some r'.archive) = .ok bs ∧
      (bs.flatMap FileSystemTree.iterate).map (fun o => o.2.isIncluded) = [false, true] ∧
      (bs.flatMap FileSystemTree.iterate)[1]? = some o ∧ o.2.backupMode = .full ∧
      fileHasChanged (fileBackup []).env r'.archive.getBaseObjects
        (o.1, { o.2 with latestVersion := 1 }) = .ok (false, 0, fso) :=
    ⟨_, _, _, _, rfl, rfl, rfl, rfl, rfl, rfl⟩
  rw [hr, Except.ok.injEq] at hr'
  subst hr'
  rw [h, Except.ok.injEq] at hbs
  subst hbs
  have hindex : ∀ (i : Nat) (o' : PathedObject),
      (baseObjects.flatMap FileSystemTree.iterate)[i]? = some o' → o'.2.isIncluded →
        i = 1 ∧ o' = o := by
    intro i o' ho' hincl
    have hmap := congrArg (fun l => l[i]?) hincluded
    rw [List.getElem?_map, ho', Option.map_some, hincl] at hmap
    rcases i with _ | _ | i
    · simp at hmap
    · exact ⟨rfl, Option.some.inj (ho'.symm.trans ho)⟩
    · simp at hmap
  intro i o' ho' hself
  cases hself with
  | stray hincl htype hearlier =>
    obtain ⟨-, k, ok, hk, hok, hincl', -⟩ := hearlier
    rw [(hindex i o' ho' hincl).1, (hindex k ok hok hincl').1] at hk
    exact absurd hk (lt_irrefl 1)
  | declared _ hincl _ hmode' =>
    rw [(hindex i o' ho' hincl).2, hmode] at hmode'
    cases hmode'
  | unchanged hold hincl _ _ hchanged =>
    rw [Option.some.injEq] at hold
    subst hold
    rw [(hindex i o' ho' hincl).2] at hchanged
    have hsame := hunchanged.symm.trans hchanged
    simp at hsame

/-- The second version depends on the first one. -/
theorem exactDependencies_directory : ∃ r1 r2,
    (fileBackup [['C', ':', '\\', 'd']]).newVersion 0 none = .ok r1 ∧
      (fileBackup [['C', ':', '\\', 'd']]).newVersion 1 (some r1.archive) = .ok r2 ∧
      ExactDependencies 0 r1.archive ∧ ExactDependencies 1 r2.archive ∧
      r2.archive.manifest.versionDependencies = [0] ∧
      ∀ k, ¬ Relation.TransGen (ChainDependsOn [⟨fileBackup [['C', ':', '\\', 'd']], r1.archive⟩,
        ⟨fileBackup [['C', ':', '\\', 'd']], r2.archive⟩]) k k := by
  obtain ⟨r1, r2, hr1, hr2, -, hruns⟩ := exists_freshBackups_directory
  obtain ⟨baseObjects, hbase, hgenerate⟩ : ∃ baseObjects,
      (fileBackup [['C', ':', '\\', 'd']]).baseObjects none = .ok baseObjects ∧
      generateArchive (fileBackup [['C', ':', '\\', 'd']]).env 0
        (generatorFor (fileBackup [['C', ':', '\\', 'd']]).env 0 none) 0 [] ⟨1, 1⟩ baseObjects =
          .ok r1 := by
    obtain ⟨r, baseObjects, hr, hbase, hgenerate⟩ : ∃ r baseObjects,
        (fileBackup [['C', ':', '\\', 'd']]).newVersion 0 none = .ok r ∧
        (fileBackup [['C', ':', '\\', 'd']]).baseObjects none = .ok baseObjects ∧
        generateArchive (fileBackup [['C', ':', '\\', 'd']]).env 0
          (generatorFor (fileBackup [['C', ':', '\\', 'd']]).env 0 none) 0 [] ⟨1, 1⟩ baseObjects =
            .ok r := ⟨_, _, rfl, rfl, rfl⟩
    rw [hr1, Except.ok.injEq] at hr
    exact ⟨baseObjects, hbase, hr ▸ hgenerate⟩
  have hdependencies : r2.archive.manifest.versionDependencies = [0] := by
    obtain ⟨r1', r2', hr1', hr2', h⟩ : ∃ r1' r2',
        (fileBackup [['C', ':', '\\', 'd']]).newVersion 0 none = .ok r1' ∧
        (fileBackup [['C', ':', '\\', 'd']]).newVersion 1 (some r1'.archive) = .ok r2' ∧
        r2'.archive.manifest.versionDependencies = sortedDependencies (insert 0 ∅) :=
      ⟨_, _, rfl, rfl, rfl⟩
    rw [hr1, Except.ok.injEq] at hr1'
    subst hr1'
    rw [hr2, Except.ok.injEq] at hr2'
    subst hr2'
    simpa [sortedDependencies] using h
  have hself : SelfContainedChain [⟨fileBackup [['C', ':', '\\', 'd']], r1.archive⟩,
      ⟨fileBackup [['C', ':', '\\', 'd']], r2.archive⟩] := by
    intro k v baseObjects' hv hbase'
    rcases k with _ | _ | k
    · rw [List.getElem?_cons_zero, Option.some.injEq] at hv
      subst hv
      exact selfContained_directory hbase'
    · rw [List.getElem?_cons_succ, List.getElem?_cons_zero, Option.some.injEq] at hv
      subst hv
      exact selfContained_second hr1 hbase'
    · simp at hv
  have hfirst := ((exactDependencies_iff _ _ _ _ _ _).1 _
    (fun o ho => (BackupCall.created_of_baseObjects hbase o ho).2) hgenerate).mpr
      fun _ => selfContained_directory hbase
  obtain ⟨hexact, hacyclic⟩ := (exactDependencies_iff (fileBackup []).env 0 0 none ⟨1, 1⟩ []).2
    _ _ _ _ hruns hself
  exact ⟨r1, r2, hr1, hr2, hfirst, hexact 1 _ rfl, hdependencies, hacyclic⟩

/-- When the file is a source location, too, the first version depends on itself. -/
theorem not_exactDependencies_twice : ∃ e e' a, BackupEngine.new .ordinal ['T'] [] = .ok e ∧
    e.performBackup (fileBackup [['C', ':', '\\', 'd'], ['C', ':', '\\', 'd', '\\', 'f']]) [] =
      .ok (e', [(getVersionName 0, some a)]) ∧ ¬ ExactDependencies 0 a := by
  obtain ⟨e, e', r, baseObjects, o1, o2, hnew, hbackup, hbase, hr, ho1, ho2, h1, h2, hguid1, hguid2,
    htype⟩ : ∃ e e' r baseObjects o1 o2, BackupEngine.new .ordinal ['T'] [] = .ok e ∧
      e.performBackup (fileBackup [['C', ':', '\\', 'd'], ['C', ':', '\\', 'd', '\\', 'f']]) [] =
        .ok (e', [(getVersionName 0, some r.archive)]) ∧
      (fileBackup [['C', ':', '\\', 'd'], ['C', ':', '\\', 'd', '\\', 'f']]).baseObjects none =
        .ok baseObjects ∧
      generateArchive (fileBackup []).env 0 (generatorFor (fileBackup []).env 0 none) 0 [] ⟨1, 1⟩
        baseObjects = .ok r ∧
      (baseObjects.flatMap FileSystemTree.iterate)[1]? = some o1 ∧
      (baseObjects.flatMap FileSystemTree.iterate)[2]? = some o2 ∧ o1.2.isIncluded ∧
      o2.2.isIncluded ∧ o1.2.fileSystemGuid = some 7 ∧ o2.2.fileSystemGuid = some 7 ∧
      o2.2.type = .regularFile :=
    ⟨_, _, _, _, _, _, rfl, rfl, rfl, rfl, rfl, rfl, rfl, rfl, rfl, rfl, rfl⟩
  refine ⟨e, e', r.archive, hnew, hbackup, fun hexact => ?_⟩
  obtain ⟨st, harchive, -⟩ := generateArchive_eq_ok hr
  have hself := (harchive.exact_iff_selfContained fun o ho =>
    (BackupCall.created_of_baseObjects hbase o ho).2).mp hexact (le_refl 0) 2 o2 ho2
  exact hself (.stray h2 (by rw [htype]; decide)
    ⟨by rw [hguid2]; decide, 1, o1, by decide, ho1, h1, by rw [hguid1, hguid2]⟩)

end BackupProgram
