import BackupProgram.Engine.VersionNumbers

/-!
# Finding the versions by their names

The regular expression that looks for versions may stop in the middle of a name, and accepts any
number of digits; so it also finds the digests that are kept beside the archives. It ignores case the
way the current culture does, which need not be that of the file system; so it may miss an archive.
-/

namespace BackupProgram

open Results TargetDirectory

/-- The file name of `GetVersionDigestPath`. -/
def getVersionDigestName (version : Int) : Str :=
  getVersionName version ++ ['.', 's', 'h', 'a', '2', '5', '6']

namespace BackupEngine

def versionExists (e : BackupEngine) (version : Int) : Bool := e.versions.contains version

/-- The versions an engine knows are those in the directory, in increasing order, and there is no
file yet at the place of the next one. -/
structure InvertsNaming (dir : TargetDirectory) (e : BackupEngine) : Prop where
  increasing : e.versions.Pairwise (· < ·)
  versionExists_iff : ∀ version,
    e.versionExists version ↔ version ≤ maxInt ∧ HasVersion dir version
  free : dir.get? (getVersionName e.newVersionNumber) = none

end BackupEngine

/-! ### Files that are misread -/

/-- The version at whose place a file is. -/
def namedVersion (name : Str) : Option Int :=
  let digits := ((lower name).drop 7).takeWhile Char.isDigit
  if lower name = lower (getVersionName (digitsValue digits)) ∧ digitsValue digits ≤ maxInt then
    some (digitsValue digits)
  else none

lemma namedVersion_eq_some {name : Str} {version : Int} : namedVersion name = some version ↔
    0 ≤ version ∧ version ≤ maxInt ∧ lower name = lower (getVersionName version) := by
  rw [namedVersion, Option.ite_none_right_eq_some, Option.some.injEq]
  constructor
  · rintro ⟨⟨hname, hle⟩, rfl⟩
    exact ⟨Int.natCast_nonneg _, hle, hname⟩
  · rintro ⟨hnonneg, hle, hname⟩
    have hdigits : ((lower name).drop 7).takeWhile Char.isDigit = formatVersion version := by
      rw [hname, lower_getVersionName hnonneg, getVersionName, List.append_assoc]
      show (formatVersion version ++ ['.', 'a', 'r', 'c']).takeWhile Char.isDigit = _
      rw [List.takeWhile_append_of_pos (isDigit_of_mem_formatVersion hnonneg)]
      simp
    rw [hdigits, digitsValue_formatVersion hnonneg]
    exact ⟨⟨hname, hle⟩, rfl⟩

/-- The files that are not found under the version at whose place they are: found without being
archives, not found though they are, or found under another number. -/
def misread (culture : Culture) (targetLocation : Str) (dir : TargetDirectory) : TargetDirectory :=
  dir.filter fun file => readVersion culture targetLocation file.1 != namedVersion file.1

/-- The files that are misread stand in for each other: the numbers that they are found under are
those of the places they are at. -/
def MisreadAgree (culture : Culture) (targetLocation : Str) (dir : TargetDirectory) : Prop :=
  ((misread culture targetLocation dir).filterMap fun file =>
      readVersion culture targetLocation file.1).Perm
    ((misread culture targetLocation dir).filterMap fun file => namedVersion file.1)

instance (culture : Culture) (targetLocation : Str) (dir : TargetDirectory) :
    Decidable (MisreadAgree culture targetLocation dir) :=
  inferInstanceAs (Decidable (List.Perm _ _))

/-- The versions at whose places there are files. -/
def namedVersions (dir : TargetDirectory) : List Int :=
  dir.filterMap fun file => namedVersion file.1

variable {culture : Culture} {targetLocation : Str} {dir : TargetDirectory} {versions : List Int}

lemma mem_namedVersions {version : Int} :
    version ∈ namedVersions dir ↔ version ≤ maxInt ∧ HasVersion dir version := by
  simp only [namedVersions, List.mem_filterMap, namedVersion_eq_some]
  constructor
  · rintro ⟨file, hfile, hnonneg, hle, hname⟩
    refine ⟨hle, hnonneg, Option.isSome_iff_ne_none.mpr fun hnone => ?_⟩
    exact Directory.get?_eq_none_iff.mp hnone file hfile hname
  · rintro ⟨hle, hnonneg, hget⟩
    obtain ⟨archive, harchive⟩ := Option.isSome_iff_exists.mp hget
    obtain ⟨file, hfile, hname, -⟩ := Directory.exists_of_get? harchive
    exact ⟨file, hfile, hnonneg, hle, hname⟩

/-- No two files are at one place. -/
lemma nodup_namedVersions (hnames : (dir.map fun file => lower file.1).Nodup) :
    (namedVersions dir).Nodup := by
  rw [namedVersions, List.Nodup, List.pairwise_filterMap]
  refine (List.pairwise_map.mp hnames).imp fun {file other} hne => ?_
  rintro n hn n' hn' rfl
  obtain ⟨-, -, hname⟩ := namedVersion_eq_some.mp hn
  obtain ⟨-, -, hname'⟩ := namedVersion_eq_some.mp hn'
  exact hne (hname.trans hname'.symm)

/-- Where two functions agree does not matter to whether they give the same elements. -/
lemma perm_filterMap_iff {α β : Type} [DecidableEq β] (f g : α → Option β) (l : List α) :
    (l.filterMap f).Perm (l.filterMap g) ↔
      ((l.filter fun x => f x != g x).filterMap f).Perm
        ((l.filter fun x => f x != g x).filterMap g) := by
  have hsplit : ∀ h : α → Option β, (l.filterMap h).Perm
      ((l.filter fun x => f x != g x).filterMap h ++
        (l.filter fun x => !(f x != g x)).filterMap h) := fun h => by
    rw [← List.filterMap_append]
    exact (List.filter_append_perm _ l).symm.filterMap h
  have hagree : (l.filter fun x => !(f x != g x)).filterMap f =
      (l.filter fun x => !(f x != g x)).filterMap g := by
    refine List.filterMap_congr fun x hx => ?_
    simpa using (List.mem_filter.mp hx).2
  rw [(hsplit f).congr_left, (hsplit g).congr_right, hagree, List.perm_append_right_iff]

/-- The versions that are found are those that are present, if and only if the files that are
misread stand in for each other. -/
lemma perm_foundVersions_iff :
    (foundVersions culture targetLocation dir).Perm (namedVersions dir) ↔
      MisreadAgree culture targetLocation dir :=
  perm_filterMap_iff _ _ dir

/-! ### The engine that is constructed -/

/-- A sorted list increases if nothing in it is repeated. -/
lemma pairwise_lt_insertionSort {l : List Int} :
    (l.insertionSort (· ≤ ·)).Pairwise (· < ·) ↔ l.Nodup := by
  rw [← (List.perm_insertionSort (· ≤ ·) l).nodup_iff]
  refine ⟨fun h => h.imp fun hlt => hlt.ne, fun h => ?_⟩
  exact ((List.pairwise_insertionSort (· ≤ ·) l).and h).imp fun h => lt_of_le_of_ne h.1 h.2

namespace BackupEngine

variable {e : BackupEngine}

lemma exists_new (hle : ∀ n ∈ foundVersions culture targetLocation dir, n ≤ maxInt) :
    ∃ e, new culture targetLocation dir = .ok e := by
  have hversions := setVersions_eq_ok.mpr ⟨hle, rfl⟩
  rw [new, hversions]
  exact ⟨_, rfl⟩

lemma versionExists_iff_mem {version : Int} : e.versionExists version ↔ version ∈ e.versions := by
  rw [versionExists, List.contains_iff_mem]

/-- The engine knows the versions that are present, each once. -/
lemma perm_of_invertsNaming (hnames : (dir.map fun file => lower file.1).Nodup)
    (hnew : new culture targetLocation dir = .ok e) (h : e.InvertsNaming dir) :
    (foundVersions culture targetLocation dir).Perm (namedVersions dir) := by
  obtain ⟨-, hversions⟩ := setVersions_eq_ok.mp (versions_of_new hnew).2
  have hincreasing := h.increasing
  rw [← hversions, pairwise_lt_insertionSort] at hincreasing
  rw [List.perm_ext_iff_of_nodup hincreasing (nodup_namedVersions hnames)]
  intro version
  rw [mem_namedVersions, ← h.versionExists_iff, versionExists_iff_mem, ← hversions,
    List.mem_insertionSort]

/-- The number after the largest one wraps around. -/
lemma free_iff (hnew : new culture targetLocation dir = .ok e)
    (hexists : ∀ version, e.versionExists version ↔ version ≤ maxInt ∧ HasVersion dir version) :
    dir.get? (getVersionName e.newVersionNumber) = none ↔
      (HasVersion dir maxInt → dir.get? (getVersionName (-2 ^ 31)) = none) := by
  have hmem : ∀ version, version ∈ e.versions ↔ version ≤ maxInt ∧ HasVersion dir version :=
    fun version => versionExists_iff_mem.symm.trans (hexists version)
  rcases newVersionNumber_of_new hnew with ⟨hnonneg, hle, hlarger, -⟩ | ⟨hnumber, hlast⟩
  · refine iff_of_true ?_ fun hhas => ?_
    · by_contra hget
      have hknown := (hmem e.newVersionNumber).mpr
        ⟨hle, hnonneg, Option.isSome_iff_ne_none.mpr hget⟩
      exact lt_irrefl _ (hlarger _ hknown)
    · exact absurd (hlarger _ ((hmem maxInt).mpr ⟨le_rfl, hhas⟩)) hle.not_gt
  · rw [hnumber]
    exact ⟨fun hget _ => hget, fun hget => hget ((hmem maxInt).mp (List.mem_of_getLast? hlast)).2⟩

end BackupEngine

/-! ### Digests -/

/-- A digest is taken for the archive it belongs to, so that an archive is not found alone. -/
theorem not_invertsNaming_of_digest (hculture : culture.KeepsNames) {version : Int}
    (h : 0 ≤ version) (hversion : getVersionName version ∈ dir.map Prod.fst)
    (hdigest : getVersionDigestName version ∈ dir.map Prod.fst)
    (hnames : (dir.map fun file => lower file.1).Nodup) :
    ¬ ∃ e, BackupEngine.new culture targetLocation dir = .ok e ∧ e.InvertsNaming dir := by
  rintro ⟨e, hnew, hinverts⟩
  have hnodup := (BackupEngine.perm_of_invertsNaming hnames hnew hinverts).nodup_iff.mpr
    (nodup_namedVersions hnames)
  rw [foundVersions, List.Nodup, List.pairwise_filterMap] at hnodup
  obtain ⟨file, hfile, hname⟩ := List.mem_map.mp hversion
  obtain ⟨digest, hmem, hdigestName⟩ := List.mem_map.mp hdigest
  have hread : readVersion culture targetLocation digest.1 = some version := by
    have hsuffix : ∀ c ∈ ['.', 's', 'h', 'a', '2', '5', '6'], culture.toLower c ≠ 'v' := by
      intro c hc
      rw [hculture c (by fin_cases hc <;> decide)]
      fin_cases hc <;> decide
    have key := versionOfPath_of_append hculture h (targetLocation ++ ['\\']) _ hsuffix
    rw [List.append_assoc] at key
    rw [readVersion, hdigestName, getVersionDigestName]
    exact (congrArg (Option.map digitsValue) key).trans
      (congrArg some (digitsValue_formatVersion h))
  have hne : file ≠ digest := by
    rintro rfl
    have hlength := congrArg List.length (hname.symm.trans hdigestName)
    simp [getVersionDigestName] at hlength
  have hsymm : Std.Symm fun file other : Str × Option VersionArchive =>
      ∀ b, readVersion culture targetLocation file.1 = some b →
        ∀ b', readVersion culture targetLocation other.1 = some b' → b ≠ b' :=
    ⟨fun _ _ h b hb b' hb' heq => h b' hb' b hb heq.symm⟩
  refine hnodup.forall hfile hmem hne version ?_ version hread rfl
  rw [hname, readVersion_version hculture targetLocation h]

namespace BackupEngine

/-- The first two versions, one of them in capital letters, and a note. -/
def twoVersions : TargetDirectory :=
  [("VERSION00000001.ARC".toList, none), (getVersionName 0, none), ("note".toList, none)]

end BackupEngine

end BackupProgram
