import BackupProgram.Engine.RestoreBackup.Contents

/-!
# What was excluded from a backup

An object that was excluded is in the archive, without content. Restoring deletes what is at its path
before it turns out that nothing can be put there, and deletes a directory with all that is in it.
-/

namespace BackupProgram

/-- A file without stored content that is no link: it was excluded. -/
def excludedFile (o : PathedObject) : Bool :=
  !o.2.isDirectoryish && !o.2.isLinkish && decide (o.2.latestVersion < 0)

/-- What is in a directory, and is no object that is restored nor leads to one. -/
structure OwnEntry (env : RestoreEnv) (objects : List PathedObject) (o : PathedObject) (d : Disk)
    (p : Location) : Prop where
  isSome : (d.get? p).isSome
  below : location env o <+: p
  ne : location env o ≠ p
  not_restored : ∀ o' ∈ objects, ¬ p <+: location env o'

/-- What is at the paths of excluded objects is afterwards as it was before. An archive does not
tell which directories were excluded. -/
structure ExcludedKept (env : RestoreEnv) (excluded : PathedObject → Prop)
    (objects : List PathedObject) (d d' : Disk) : Prop where
  files : ∀ o ∈ objects, excludedFile o = true → ∀ bytes,
    d.read? (location env o) = some bytes → d'.read? (location env o) = some bytes
  directories : ∀ o ∈ objects, o.2.isDirectoryish = true → excluded o → ∀ p,
    OwnEntry env objects o d p → d'.get? p = d.get? p ∧ d'.read? p = d.read? p

/-- There is nothing at the paths of excluded objects. -/
structure NothingExcluded (env : RestoreEnv) (excluded : PathedObject → Prop)
    (objects : List PathedObject) (d : Disk) : Prop where
  files : ∀ o ∈ objects, excludedFile o = true → d.read? (location env o) = none
  directories : ∀ o ∈ objects, o.2.isDirectoryish = true → excluded o → ∀ p,
    ¬ OwnEntry env objects o d p

variable {env : RestoreEnv} {archives : Directory ArchiveFile} {d d' : Disk} {o : PathedObject}
  {objects : List PathedObject} {p : Location}

/-! ### What is gone -/

/-- Reparse points are not restored at all. -/
lemma type_ne_fileReparsePoint {place : Nat} {later : List Deferred}
    (h : restoreObjects env place objects d = .ok later d') (ho : o ∈ objects) :
    o.2.type ≠ .fileReparsePoint := by
  induction objects generalizing place d later with
  | nil => cases ho
  | cons o' objects ih =>
    obtain ⟨d₁, d₂, rest, -, hrestore, hrest, -⟩ := restoreObjects_cons h
    rcases List.mem_cons.mp ho with rfl | ho
    · intro htype
      rw [restoreObject] at hrestore
      simp only [htype] at hrestore
      cases hrestore
    · exact ih hrest ho

/-- The excluded file is gone when all objects have been gone through. -/
lemma fileExists_excludedFile {place : Nat} {later : List Deferred}
    (h : restoreObjects env place objects d = .ok later d')
    (hdistinct : (objects.map (location env)).Nodup) (ho : o ∈ objects)
    (hexcluded : excludedFile o = true) : d'.fileExists (location env o) = false := by
  refine fileExists_restoreObjects h hdistinct ho ?_
  have hreparse := type_ne_fileReparsePoint h ho
  cases htype : o.2.type
  all_goals simp_all [excludedFile, needsStream, FileSystemObject.isDirectoryish,
    FileSystemObject.isLinkish]

/-- What is in a directory is gone, and does not come back unless it leads to an object. -/
lemma get?_eq_none_of_below {place : Nat} {later : List Deferred}
    (h : restoreObjects env place objects d = .ok later d') (ho : o ∈ objects)
    (hdirectory : o.2.isDirectoryish = true) (hbelow : location env o <+: p)
    (hne : location env o ≠ p) (hnot : ∀ o' ∈ objects, ¬ p <+: location env o') :
    d'.get? p = none := by
  obtain ⟨pre, post, rfl⟩ := List.append_of_mem ho
  obtain ⟨d₁, hcleared, hgrows⟩ := exists_cleared h rfl
  by_contra hsome
  obtain ⟨entry, hentry⟩ := Option.ne_none_iff_exists'.mp hsome
  rcases hgrows.get? p entry hentry with hold | ⟨l, hl, hp⟩
  · rw [hcleared.below hdirectory p hbelow hne] at hold
    cases hold
  · obtain ⟨o', ho', rfl⟩ := List.mem_map.mp hl
    have hmem : o' ∈ pre ++ o :: post := by simp [ho']
    rcases hp with rfl | ⟨-, hp⟩
    · exact hnot o' hmem (List.prefix_refl _)
    · exact hnot o' hmem hp

/-! ### A run -/

/-- A restore keeps what is at the paths of excluded objects if and only if there is nothing. -/
theorem excludedKept_iff {e e' : BackupEngine} {fuel : Nat} {latestVersionNumber : Int}
    {latestVersion : VersionForRestore} (excluded : PathedObject → Prop)
    (hfresh : e.oldObjects = []) (hback : e.versions.getLast? = some latestVersionNumber)
    (hload : loadVersion archives latestVersionNumber latestVersionNumber = .ok latestVersion)
    (hdistinct : (latestVersion.objects.map (location env)).Nodup)
    (h : restoreBackup env archives fuel e d = some (.ok e' d')) :
    ExcludedKept env excluded latestVersion.objects d d' ↔
      NothingExcluded env excluded latestVersion.objects d := by
  obtain ⟨d₁, restoreLater, hmem, -, hobjects, -, hsame⟩ :=
    exists_restored hfresh hback hload hdistinct h
  constructor
  · intro hkept
    refine ⟨fun o ho hexcluded => ?_, fun o ho hdirectory hexcluded p hentry => ?_⟩
    · by_contra hsome
      obtain ⟨bytes, hbytes⟩ := Option.ne_none_iff_exists'.mp hsome
      obtain ⟨i, hi, -⟩ := Disk.read?_eq_some_iff.mp (hkept.files o ho hexcluded bytes hbytes)
      -- no stream goes to the file
      have hother : ∀ x ∈ restoreLater, location env o ≠ x.location env := by
        intro x hx heq
        obtain ⟨hobject, hdeferred⟩ := object_mem_of_deferred ((hmem x).mp hx)
        obtain rfl := List.inj_on_of_nodup_map hdistinct ho hobject heq
        simp only [excludedFile, Bool.and_eq_true, decide_eq_true_eq] at hexcluded
        simp only [isDeferred, Bool.and_eq_true, decide_eq_true_eq] at hdeferred
        omega
      have hgone := fileExists_excludedFile hobjects hdistinct ho hexcluded
      rw [Disk.fileExists, ← hsame _ hother, hi] at hgone
      cases hgone
    · have hother : ∀ x ∈ restoreLater, p ≠ x.location env := by
        intro x hx heq
        refine hentry.not_restored _ (object_mem_of_deferred ((hmem x).mp hx)).1 ?_
        rw [heq]
        exact List.prefix_refl _
      have hgone := get?_eq_none_of_below hobjects ho hdirectory hentry.below hentry.ne
        hentry.not_restored
      have hkept := (hkept.directories o ho hdirectory hexcluded p hentry).1
      rw [hsame p hother, hgone] at hkept
      have hsome := hentry.isSome
      rw [← hkept] at hsome
      cases hsome
  · intro hnothing
    refine ⟨fun o ho hexcluded bytes hbytes => ?_,
      fun o ho hdirectory hexcluded p hentry => absurd hentry ?_⟩
    · rw [hnothing.files o ho hexcluded] at hbytes
      cases hbytes
    · exact hnothing.directories o ho hdirectory hexcluded p

/-! ### A file and a directory that were excluded -/

/-- A directory with a file and a directory that were excluded. -/
def excludingVersion : VersionForRestore where
  manifest := manifestWith 0 []
  baseObjects :=
    [⟨{ type := .directory
        name := ['d']
        mappedBasePath := ['C', ':']
        unmappedBasePath := ['C', ':']
        latestVersion := -1 },
      .cons (storedFile 'x' 0 (-1)) .nil
        (.cons { type := .directory, name := ['e'], latestVersion := -1 } .nil .nil)⟩]

def excludingArchives : Directory ArchiveFile :=
  [(getVersionName 0,
    { manifest := .ok excludingVersion.manifest
      baseObjects := .ok excludingVersion.baseObjects
      streamIds := []
      streamSizes := []
      data := some [] })]

/-- A drive on which the file is there. -/
def driveWithFile : Disk :=
  .ofEntries
    [([], .directory), ([['C', ':']], .directory), ([['C', ':'], ['d']], .directory),
      ([['C', ':'], ['d'], ['x']], .file 0)]
    (fun _ => [7]) (by decide)

/-- A drive on which the excluded directory is empty. -/
def driveWithDirectory : Disk :=
  .ofEntries
    [([], .directory), ([['C', ':']], .directory), ([['C', ':'], ['z']], .file 0),
      ([['C', ':'], ['d']], .directory), ([['C', ':'], ['d'], ['e']], .directory)]
    (fun _ => [7]) (by decide)

/-- A drive on which a file is in the excluded directory. -/
def driveWithOwnFile : Disk :=
  .ofEntries
    [([], .directory), ([['C', ':']], .directory), ([['C', ':'], ['d']], .directory),
      ([['C', ':'], ['d'], ['e']], .directory), ([['C', ':'], ['d'], ['e'], ['k']], .file 0)]
    (fun _ => [7]) (by decide)

def namedE (o : PathedObject) : Prop := o.2.name = ['e']

/-- The only object that is excluded and a directory. -/
lemma location_of_namedE : ∀ o ∈ excludingVersion.objects, o.2.name = ['e'] →
    location plainMachine o = [['C', ':'], ['d'], ['e']] := by decide

lemma nothingExcluded_driveWithDirectory :
    NothingExcluded plainMachine namedE excludingVersion.objects driveWithDirectory := by
  refine ⟨by decide, fun o ho _ hexcluded p hentry => ?_⟩
  have hlocation := location_of_namedE o ho hexcluded
  have hbelow := hentry.below
  have hne := hentry.ne
  obtain ⟨entry, hget⟩ := Option.isSome_iff_exists.mp hentry.isSome
  rw [hlocation] at hbelow hne
  have hkeys : ∀ key ∈ driveWithDirectory.entries.map Prod.fst,
      [['C', ':'], ['d'], ['e']] <+: key → [['C', ':'], ['d'], ['e']] = key := by decide
  exact hne (hkeys p (List.mem_map_of_mem (mem_of_lookup hget)) hbelow)

lemma not_nothingExcluded_driveWithOwnFile :
    ¬ NothingExcluded plainMachine namedE excludingVersion.objects driveWithOwnFile := by
  intro h
  refine h.directories _
    (List.getElem_mem (l := excludingVersion.objects) (n := 2) (by decide)) rfl rfl
    [['C', ':'], ['d'], ['e'], ['k']] ⟨rfl, by decide, by decide, by decide⟩

/-- An excluded directory is kept as long as there is nothing in it. -/
theorem excludedKept_iff_driveWithDirectory :
    (∃ e' d', restoreBackup plainMachine excludingArchives 10 (newEngine [0]) driveWithDirectory =
        some (.ok e' d') ∧
      ExcludedKept plainMachine namedE excludingVersion.objects driveWithDirectory d') ∧
    ∃ e' d', restoreBackup plainMachine excludingArchives 10 (newEngine [0]) driveWithOwnFile =
        some (.ok e' d') ∧
      ¬ ExcludedKept plainMachine namedE excludingVersion.objects driveWithOwnFile d' := by
  have hkept : ∃ e' d', restoreBackup plainMachine excludingArchives 10 (newEngine [0])
    driveWithDirectory = some (.ok e' d') := ⟨_, _, rfl⟩
  have hlost : ∃ e' d', restoreBackup plainMachine excludingArchives 10 (newEngine [0])
    driveWithOwnFile = some (.ok e' d') := ⟨_, _, rfl⟩
  obtain ⟨e', d', h⟩ := hkept
  obtain ⟨e'', d'', h'⟩ := hlost
  have hiff := excludedKept_iff namedE rfl rfl rfl (by decide) h
  have hiff' := excludedKept_iff namedE rfl rfl rfl (by decide) h'
  exact ⟨⟨e', d', h, hiff.mpr nothingExcluded_driveWithDirectory⟩,
    ⟨e'', d'', h', hiff'.not.mpr not_nothingExcluded_driveWithOwnFile⟩⟩

/-- The file that was excluded is deleted. -/
theorem not_excludedKept_driveWithFile : ∃ e' d',
    restoreBackup plainMachine excludingArchives 10 (newEngine [0]) driveWithFile =
        some (.ok e' d') ∧
      ¬ ExcludedKept plainMachine (fun _ => False) excludingVersion.objects driveWithFile d' := by
  refine ⟨_, _, rfl, fun h => ?_⟩
  have hkept := h.files _
    (List.getElem_mem (l := excludingVersion.objects) (n := 1) (by decide)) rfl [7] rfl
  revert hkept
  decide

end BackupProgram
