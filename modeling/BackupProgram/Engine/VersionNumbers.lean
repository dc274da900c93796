import BackupProgram.Engine.BackupEngine

/-!
# The numbers that one engine gives to versions

The versions of a target directory are listed when an engine is constructed, and their number is
cached by the first backup. Neither is brought up to date by a backup, so that all backups of one
engine write the same version.
-/

namespace BackupProgram

open Results

namespace TargetDirectory

/-- There is a file at the place of a version. -/
def HasVersion (dir : TargetDirectory) (version : Int) : Prop :=
  0 ≤ version ∧ (dir.get? (getVersionName version)).isSome

lemma not_hasVersion_nil (version : Int) : ¬ TargetDirectory.HasVersion [] version := by
  simp [HasVersion, Directory.get?]

lemma hasVersion_put_self (dir : TargetDirectory) {version : Int} (h : 0 ≤ version)
    (archive : Option VersionArchive) :
    TargetDirectory.HasVersion (dir.put (getVersionName version) archive) version :=
  ⟨h, by rw [Directory.get?_put_self]; rfl⟩

/-- Versions do not share their places. -/
lemma eq_of_getVersionName {k version : Int} (hk : 0 ≤ k)
    (h : lower (getVersionName k) = lower (getVersionName version)) : k = version := by
  rcases lt_or_ge version 0 with hneg | hnonneg
  · -- a number without a sign is not taken for one that has a sign
    have hdigits := isDigit_of_mem_formatVersion hk
    rw [lower_getVersionName hk, getVersionName, getVersionName, lower_append, lower_append,
      List.append_assoc, List.append_assoc] at h
    have htail := List.append_cancel_left h
    rw [show formatVersion version = '-' :: (formatVersion version).tail by
      rw [formatVersion, if_pos hneg]
      rfl] at htail
    obtain ⟨c, cs, hcs⟩ := List.exists_cons_of_ne_nil (formatVersion_ne_nil k)
    rw [hcs] at htail hdigits
    have hc : c = '-' := (List.cons.inj htail).1
    exact absurd (hdigits c List.mem_cons_self) (by rw [hc]; decide)
  · rw [lower_getVersionName hk, lower_getVersionName hnonneg, getVersionName, getVersionName] at h
    have hformat := List.append_cancel_left (List.append_cancel_right h)
    rw [← digitsValue_formatVersion hk, hformat, digitsValue_formatVersion hnonneg]

/-- A version that is written does not touch the others. -/
lemma get?_put_version (dir : TargetDirectory) {k version : Int} (hk : 0 ≤ k) (hne : k ≠ version)
    (archive : Option VersionArchive) :
    Directory.get? (dir.put (getVersionName version) archive) (getVersionName k) =
      dir.get? (getVersionName k) :=
  Directory.get?_put_of_ne archive fun h => hne (eq_of_getVersionName hk h)

lemma hasVersion_put_iff (dir : TargetDirectory) {version k : Int} (h : 0 ≤ version)
    (archive : Option VersionArchive) :
    TargetDirectory.HasVersion (dir.put (getVersionName version) archive) k ↔
      k = version ∨ HasVersion dir k := by
  rcases eq_or_ne k version with rfl | hne
  · exact iff_of_true (hasVersion_put_self dir h archive) (.inl rfl)
  · refine (and_congr_right fun hk => ?_).trans (or_iff_right hne).symm
    rw [get?_put_version dir hk hne]

end TargetDirectory

open TargetDirectory

/-! ### One backup -/

namespace BackupEngine

variable {culture : Culture} {targetLocation : Str} {call : BackupCall} {e e' : BackupEngine}
  {dir dir' : TargetDirectory}

/-- A negative number in the cache is as good as none. -/
lemma versionCount_of_cached (hversions : e'.versions = e.versions)
    (hcached : e'.cachedVersionCount = e.cachedVersionCount ∨
      e'.cachedVersionCount = e.versionCount) : e'.versionCount = e.versionCount := by
  rcases hcached with h | h <;> simp only [versionCount, hversions, h]
  split_ifs <;> rfl

lemma setBaseObjects_eq_ok (h : e.setBaseObjects call = .ok e') :
    e'.versions = e.versions ∧ e'.cachedVersionCount = e.cachedVersionCount := by
  rw [setBaseObjects] at h
  split_ifs at h
  · rw [pure_eq_ok] at h
    exact h ▸ ⟨rfl, rfl⟩
  · simp only [bind_eq_ok, pure_eq_ok] at h
    obtain ⟨-, -, -, -, rfl⟩ := h
    exact ⟨rfl, rfl⟩

lemma archiveVersion_eq_ok {streamGenerator : Generator} {versionNumber : Int}
    (h : e.archiveVersion call streamGenerator versionNumber dir = .ok (e', dir')) :
    ∃ r, generateArchive call.env call.startTime streamGenerator versionNumber e.heap e.counters
        e.baseObjects = .ok r ∧
      e' = { e with baseObjects := r.archive.baseObjects, heap := r.heap, counters := r.counters } ∧
      dir' = dir.put (getVersionName versionNumber) (some r.archive) := by
  rw [archiveVersion] at h
  simp only [bind_eq_ok] at h
  obtain ⟨r, hr, h⟩ := h
  split at h
  · simp at h
  · simp only [pure_eq_ok, Prod.mk.injEq] at h
    exact ⟨r, hr, h.1.symm, h.2.symm⟩

/-- The latest version has been read before a further one is written. -/
lemma openLatestVersion_of_performBackup (h : e.performBackup call dir = .ok (e', dir'))
    (hcount : e.versionCount ≠ 0) : ∃ archive, e.openLatestVersion dir = .ok archive := by
  rw [performBackup, if_neg] at h
  · rw [updateExistingVersion] at h
    simp only [bind_eq_ok] at h
    obtain ⟨archive, hopen, -⟩ := h
    exact ⟨archive, hopen⟩
  · have hcached : e.cacheVersionCount.versionCount = e.versionCount :=
      versionCount_of_cached rfl (.inr rfl)
    rwa [hcached]

/-- A backup keeps the list of versions, caches their number, and writes the version that has this
number. -/
theorem performBackup_eq_ok (h : e.performBackup call dir = .ok (e', dir')) :
    e'.versions = e.versions ∧ e'.cachedVersionCount = e.versionCount ∧
      ∃ archive, dir' = dir.put (getVersionName e.newVersionNumber) (some archive) := by
  have hcount : e.cacheVersionCount.versionCount = e.versionCount :=
    versionCount_of_cached rfl (.inr rfl)
  rw [performBackup] at h
  simp only [hcount] at h
  split_ifs at h with hzero
  · simp only [createInitialVersion, bind_eq_ok] at h
    obtain ⟨e1, hbase, harchive⟩ := h
    obtain ⟨hversions, hcached⟩ := setBaseObjects_eq_ok hbase
    obtain ⟨r, -, rfl, hdir⟩ := archiveVersion_eq_ok harchive
    refine ⟨hversions, hcached, r.archive, ?_⟩
    rw [newVersionNumber, hzero]
    exact hdir
  · simp only [updateExistingVersion, bind_eq_ok] at h
    obtain ⟨latest, -, e1, hbase, harchive⟩ := h
    obtain ⟨hversions, hcached⟩ := setBaseObjects_eq_ok hbase
    obtain ⟨r, -, rfl, hdir⟩ := archiveVersion_eq_ok harchive
    refine ⟨hversions, hcached, r.archive, ?_⟩
    have hcount1 : e1.versionCount = e.versionCount := by
      rw [versionCount_of_cached hversions (.inl hcached)]
      exact hcount
    exact hdir.trans
      (congrArg (fun version => dir.put (getVersionName version) (some r.archive)) hcount1)

/-- An engine that has just been constructed knows the versions that are found. -/
lemma versions_of_new (h : new culture targetLocation dir = .ok e) :
    e.cachedVersionCount = -1 ∧ setVersions culture targetLocation dir = .ok e.versions := by
  simp only [new, bind_eq_ok, pure_eq_ok] at h
  obtain ⟨versions, hversions, rfl⟩ := h
  exact ⟨rfl, hversions⟩

lemma newVersionNumber_eq (h : new culture targetLocation dir = .ok e) :
    e.newVersionNumber = match e.versions.getLast? with
      | none => 0
      | some back => toInt32 (back + 1) := by
  refine if_neg ?_
  rw [(versions_of_new h).1]
  decide

/-- The number of a new engine is the one after the newest version that it has found, unless this
has the largest number there is. -/
lemma newVersionNumber_of_new (h : new culture targetLocation dir = .ok e) :
    0 ≤ e.newVersionNumber ∧ e.newVersionNumber ≤ maxInt ∧
        (∀ k ∈ e.versions, k < e.newVersionNumber) ∧
        (0 < e.newVersionNumber → e.newVersionNumber - 1 ∈ e.versions) ∨
      e.newVersionNumber = -2 ^ 31 ∧ e.versions.getLast? = some maxInt := by
  have hversions := (versions_of_new h).2
  have hnumber := newVersionNumber_eq h
  cases hlast : e.versions.getLast? with
  | none =>
    rw [hlast] at hnumber
    refine .inl ⟨hnumber.ge, hnumber.le.trans (by decide), fun k hk => ?_, fun hpos => ?_⟩
    · rw [List.getLast?_eq_none_iff.mp hlast] at hk
      cases hk
    · exact absurd hnumber hpos.ne'
  | some back =>
    obtain ⟨hnonneg, hle, hlargest⟩ := getLast_setVersions hversions hlast
    rw [hlast] at hnumber
    simp only [toInt32] at hnumber
    rcases eq_or_ne back maxInt with rfl | hne
    · exact .inr ⟨hnumber, rfl⟩
    · rw [maxInt] at hle hne ⊢
      rw [Int.bmod_eq_of_le (by omega) (by omega)] at hnumber
      refine .inl ⟨by omega, by omega, fun k hk => ?_, fun _ => ?_⟩
      · have := hlargest k hk
        omega
      · rw [show e.newVersionNumber - 1 = back by omega]
        exact List.mem_of_getLast? hlast

/-- The number of a new engine wraps if it has found the largest version. -/
lemma newVersionNumber_of_getLast? (h : new culture targetLocation dir = .ok e)
    (hlast : e.versions.getLast? = some maxInt) : e.newVersionNumber = -2 ^ 31 := by
  rcases newVersionNumber_of_new h with ⟨-, hle, hlarger, -⟩ | ⟨hnumber, -⟩
  · exact absurd (hlarger maxInt (List.mem_of_getLast? hlast)) hle.not_gt
  · exact hnumber

/-- The first backup of an engine whose number has wrapped around has read the newest version. -/
lemma hasVersion_maxInt_of_performBackup {e1 : BackupEngine}
    (hlast : e.versions.getLast? = some maxInt) (hnumber : e.newVersionNumber = -2 ^ 31)
    (hsame : e1.versions = e.versions) (hcount : e1.versionCount = e.versionCount)
    (h : e1.performBackup call dir = .ok (e', dir')) : HasVersion dir maxInt := by
  refine ⟨by decide, ?_⟩
  obtain ⟨archive, hopen⟩ := openLatestVersion_of_performBackup h (by
    rw [hcount, ← newVersionNumber, hnumber]
    decide)
  rw [openLatestVersion, hsame, hlast] at hopen
  cases hget : dir.get? (getVersionName maxInt) with
  | none => simp [hget] at hopen
  | some file => rfl

end BackupEngine

/-! ### Many backups -/

/-- A successful backup: the directory before it, the number it has written, and the directory after
it. -/
structure WrittenVersion where
  before : TargetDirectory
  versionNumber : Int
  after : TargetDirectory

/-- Calls of `PerformBackup` on one engine, with the successful ones among them. A call that fails
may leave anything behind in the engine but the list of versions and their cached number: the
former is set by the constructor only, the latter when it is read. -/
inductive Backups : BackupEngine → TargetDirectory → List WrittenVersion → TargetDirectory → Prop
  | done (e : BackupEngine) (dir : TargetDirectory) : Backups e dir [] dir
  | success {e e1 : BackupEngine} {dir dir1 dir' : TargetDirectory}
      {written : List WrittenVersion} (call : BackupCall)
      (hbackup : e.performBackup call dir = .ok (e1, dir1)) (hrun : Backups e1 dir1 written dir') :
      Backups e dir (⟨dir, e.newVersionNumber, dir1⟩ :: written) dir'
  | failure {e e1 : BackupEngine} {dir dir' : TargetDirectory} {written : List WrittenVersion}
      (hversions : e1.versions = e.versions)
      (hcached : e1.cachedVersionCount = e.cachedVersionCount ∨
        e1.cachedVersionCount = e.versionCount)
      (hrun : Backups e1 dir written dir') : Backups e dir written dir'

/-- Every successful backup has written a version above all that were present, and has left the
others as they were; there are as many new versions as there were successful backups. A version is
an `int`. -/
structure NeverOverwritten (dir : TargetDirectory) (written : List WrittenVersion)
    (dir' : TargetDirectory) : Prop where
  above : ∀ w ∈ written, ∀ k ≤ maxInt, HasVersion w.before k → k < w.versionNumber
  unchanged : ∀ w ∈ written, ∀ name file, w.before.get? name = some file →
    w.after.get? name = some file
  count : {k | HasVersion dir' k ∧ ¬ HasVersion dir k}.ncard = written.length

section Backups

variable {e : BackupEngine} {dir dir' : TargetDirectory} {written : List WrittenVersion}

lemma Backups.of_nil (h : Backups e dir [] dir') : dir' = dir := by
  generalize hnil : ([] : List WrittenVersion) = written at h
  induction h with
  | done => rfl
  | success => simp at hnil
  | failure _ _ _ ih => exact ih hnil

/-- The calls before the first successful one change neither the directory nor the number. -/
lemma Backups.of_cons {w : WrittenVersion} (h : Backups e dir (w :: written) dir') :
    ∃ (call : BackupCall) (e1 e2 : BackupEngine), e1.versions = e.versions ∧
      e1.versionCount = e.versionCount ∧ e1.performBackup call dir = .ok (e2, w.after) ∧
      w.before = dir ∧ w.versionNumber = e.newVersionNumber ∧
      e2.newVersionNumber = e.newVersionNumber ∧ Backups e2 w.after written dir' := by
  generalize hcons : w :: written = written' at h
  induction h with
  | done => simp at hcons
  | success call hbackup hrun =>
    rw [List.cons.injEq] at hcons
    obtain ⟨rfl, rfl⟩ := hcons
    obtain ⟨hversions, hcached, -⟩ := BackupEngine.performBackup_eq_ok hbackup
    exact ⟨call, _, _, rfl, rfl, hbackup, rfl, rfl,
      BackupEngine.versionCount_of_cached hversions (.inr hcached), hrun⟩
  | failure hversions hcached hrun ih =>
    have hcount := BackupEngine.versionCount_of_cached hversions hcached
    obtain ⟨call, e1, e2, hversions', hcount', hbackup, hbefore, hnumber, hnumber', hrest⟩ :=
      ih hcons
    exact ⟨call, e1, e2, hversions'.trans hversions, hcount'.trans hcount, hbackup, hbefore,
      hnumber.trans hcount, hnumber'.trans hcount, hrest⟩

/-- For every version that is present, one is found that is at least as new. A version whose name
has capital letters is not found if the culture gives them other lower case letters. -/
def FindsNewest (culture : Culture) (targetLocation : Str) (dir : TargetDirectory) : Prop :=
  ∀ k ≤ maxInt, HasVersion dir k →
    ∃ file ∈ dir, ∃ n, readVersion culture targetLocation file.1 = some n ∧ k ≤ n

/-- The number of a new engine is above the versions that are present if and only if a version as
new as these is found, and it is not the largest one there is. -/
lemma lt_newVersionNumber_iff {culture : Culture} {targetLocation : Str}
    (hnew : BackupEngine.new culture targetLocation dir = .ok e)
    (hmax : e.versions.getLast? = some maxInt → HasVersion dir maxInt) :
    (∀ k ≤ maxInt, HasVersion dir k → k < e.newVersionNumber) ↔
      ¬ HasVersion dir maxInt ∧ FindsNewest culture targetLocation dir := by
  have hmem : ∀ {k}, k ∈ e.versions ↔
      ∃ file ∈ dir, readVersion culture targetLocation file.1 = some k :=
    mem_setVersions_iff (BackupEngine.versions_of_new hnew).2
  rcases BackupEngine.newVersionNumber_of_new hnew with
    ⟨hnonneg, hle, hlarger, hlatest⟩ | ⟨hnegative, hlast⟩
  · constructor
    · intro habove
      refine ⟨fun hhas => (habove maxInt le_rfl hhas).not_ge hle, fun k hk hhas => ?_⟩
      have hlt := habove k hk hhas
      obtain ⟨file, hfile, hread⟩ := hmem.mp (hlatest (hhas.1.trans_lt hlt))
      exact ⟨file, hfile, _, hread, by omega⟩
    · rintro ⟨-, hfinds⟩ k hk hhas
      obtain ⟨file, hfile, n, hread, hkn⟩ := hfinds k hk hhas
      exact hkn.trans_lt (hlarger n (hmem.mpr ⟨file, hfile, hread⟩))
  · refine iff_of_false (fun habove => ?_) fun h => h.1 (hmax hlast)
    have hlt := habove maxInt le_rfl (hmax hlast)
    rw [hnegative] at hlt
    exact absurd hlt (by decide)

/-- A number above the versions that are present has not wrapped. -/
lemma newVersionNumber_range_of_above {culture : Culture} {targetLocation : Str}
    (hnew : BackupEngine.new culture targetLocation dir = .ok e)
    (hmax : e.versions.getLast? = some maxInt → HasVersion dir maxInt)
    (habove : ∀ k ≤ maxInt, HasVersion dir k → k < e.newVersionNumber) :
    0 ≤ e.newVersionNumber ∧ e.newVersionNumber ≤ maxInt := by
  rcases BackupEngine.newVersionNumber_of_new hnew with ⟨hnonneg, hle, -⟩ | ⟨hnegative, hlast⟩
  · exact ⟨hnonneg, hle⟩
  · have hlt := habove maxInt le_rfl (hmax hlast)
    rw [hnegative] at hlt
    exact absurd hlt (by decide)

/-- A version that is written under a number above those that are present overwrites nothing. -/
lemma neverOverwritten_put {n : Int} (hnonneg : 0 ≤ n) (hle : n ≤ maxInt)
    (habove : ∀ k ≤ maxInt, HasVersion dir k → k < n) (archive : Option VersionArchive) :
    NeverOverwritten dir [⟨dir, n, dir.put (getVersionName n) archive⟩]
      (dir.put (getVersionName n) archive) := by
  have hfree : ¬ HasVersion dir n := fun hhas => lt_irrefl _ (habove _ hle hhas)
  refine ⟨fun w hw => ?_, fun w hw name file hfile => ?_, ?_⟩
  · rw [List.mem_singleton.mp hw]
    exact habove
  · rw [List.mem_singleton.mp hw] at hfile ⊢
    rw [Directory.get?_put_of_ne _ fun heq => ?_, hfile]
    refine hfree ⟨hnonneg, ?_⟩
    rw [Directory.get?, ← heq]
    exact Option.isSome_iff_exists.mpr ⟨file, hfile⟩
  · rw [List.length_singleton, Set.ncard_eq_one]
    refine ⟨n, Set.ext fun k => ?_⟩
    rw [Set.mem_ofPred_eq, hasVersion_put_iff dir hnonneg, Set.mem_singleton_iff]
    constructor
    · rintro ⟨h | h, hnot⟩
      · exact h
      · exact absurd h hnot
    · rintro rfl
      exact ⟨.inl rfl, hfree⟩

/-- A second success would write the number of the first one again, which is present by then. -/
lemma NeverOverwritten.eq_nil_of_backups {w : WrittenVersion} {n : Int} {e' : BackupEngine}
    {archive : Option VersionArchive} (h : NeverOverwritten dir (w :: written) dir')
    (hnonneg : 0 ≤ n) (hle : n ≤ maxInt) (hnumber : e'.newVersionNumber = n)
    (hrest : Backups e' (dir.put (getVersionName n) archive) written dir') : written = [] := by
  cases written with
  | nil => rfl
  | cons w' written =>
    obtain ⟨-, -, -, -, -, -, hbefore', hnumber', -, -⟩ := hrest.of_cons
    have hpresent : HasVersion w'.before n := by
      rw [hbefore']
      exact hasVersion_put_self dir hnonneg _
    have hlt := h.above w' (by simp) n hle hpresent
    rw [hnumber', hnumber] at hlt
    exact absurd hlt (lt_irrefl n)

/-- A run with at most one success overwrites nothing, if its engine has found the newest version
and there is a number above it. -/
theorem neverOverwritten_iff {culture : Culture} {targetLocation : Str}
    (hnew : BackupEngine.new culture targetLocation dir = .ok e)
    (hruns : Backups e dir written dir') :
    NeverOverwritten dir written dir' ↔
      written = [] ∨ written.length = 1 ∧ ¬ HasVersion dir maxInt ∧
        FindsNewest culture targetLocation dir := by
  cases written with
  | nil =>
    rw [hruns.of_nil]
    refine iff_of_true ⟨nofun, nofun, ?_⟩ (.inl rfl)
    simp
  | cons w written =>
    obtain ⟨call, e1, e2, hversions, hcount, hbackup, hbefore, hnumber, hnumber2, hrest⟩ :=
      hruns.of_cons
    obtain ⟨-, -, archive, hafter⟩ := BackupEngine.performBackup_eq_ok hbackup
    rw [show e1.newVersionNumber = e.newVersionNumber from hcount] at hafter
    have hmax : e.versions.getLast? = some maxInt → HasVersion dir maxInt := fun hlast =>
      BackupEngine.hasVersion_maxInt_of_performBackup hlast
        (BackupEngine.newVersionNumber_of_getLast? hnew hlast) hversions hcount hbackup
    rw [List.length_cons, Nat.add_eq_right, List.length_eq_zero_iff,
      ← lt_newVersionNumber_iff hnew hmax]
    constructor
    · intro h
      have habove : ∀ k ≤ maxInt, HasVersion dir k → k < e.newVersionNumber := by
        intro k hk hhas
        have hlt := h.above w List.mem_cons_self k hk (hbefore ▸ hhas)
        rwa [hnumber] at hlt
      obtain ⟨hnonneg, hle⟩ := newVersionNumber_range_of_above hnew hmax habove
      rw [hafter] at hrest
      exact .inr ⟨h.eq_nil_of_backups hnonneg hle hnumber2 hrest, habove⟩
    · rintro (hnil | ⟨rfl, habove⟩)
      · cases hnil
      obtain ⟨hnonneg, hle⟩ := newVersionNumber_range_of_above hnew hmax habove
      have hw : w = ⟨dir, e.newVersionNumber, w.after⟩ := by rw [← hbefore, ← hnumber]
      rw [hrest.of_nil, hafter, hw, hafter]
      exact neverOverwritten_put hnonneg hle habove _

end Backups

/-! ### Two backups of a directory -/

/-- A backup of the directory `C:\d`, which is empty. -/
def emptyDirectoryBackup : BackupCall where
  env := .plain
    { lookup := fun path =>
        if path = ['C', ':', '\\', 'd'] then
          some ⟨{ name := ['d'], type := some .directory }, .nil⟩
        else none
      getFileGuid := fun _ => .failed
      readFile := fun _ => none }
    fun _ => .directory
  sourceLocations := [['C', ':', '\\', 'd']]
  shadows := none
  startTime := 0
  writeError := none

/-- The first backup of an engine in an empty directory, the second one, and a backup of a new
engine after the first one. -/
lemma exists_emptyDirectoryBackups : ∃ e e1 e2 e' e1' dir1 dir2 dir' archive,
    BackupEngine.new .ordinal ['T'] [] = .ok e ∧
      e.performBackup emptyDirectoryBackup [] = .ok (e1, dir1) ∧
      dir1 = Directory.put [] (getVersionName 0) (some archive) ∧
      e1.performBackup emptyDirectoryBackup dir1 = .ok (e2, dir2) ∧ e1.newVersionNumber = 0 ∧
      BackupEngine.new .ordinal ['T'] dir1 = .ok e' ∧
      e'.performBackup emptyDirectoryBackup dir1 = .ok (e1', dir') :=
  ⟨_, _, _, _, _, _, _, _, _, rfl, rfl, rfl, rfl, rfl, rfl, rfl⟩

theorem neverOverwritten_once : ∃ e e1 dir1 e' e1' dir',
    BackupEngine.new .ordinal ['T'] [] = .ok e ∧
      e.performBackup emptyDirectoryBackup [] = .ok (e1, dir1) ∧ HasVersion dir1 0 ∧
      BackupEngine.new .ordinal ['T'] dir1 = .ok e' ∧
      e'.performBackup emptyDirectoryBackup dir1 = .ok (e1', dir') ∧
      NeverOverwritten dir1 [⟨dir1, e'.newVersionNumber, dir'⟩] dir' := by
  obtain ⟨e, e1, -, e', e1', dir1, -, dir', archive, hnew, hfirst, hdir, -, -, hnew', hsecond⟩ :=
    exists_emptyDirectoryBackups
  have honly : ∀ k, HasVersion dir1 k ↔ k = 0 := by
    intro k
    rw [hdir, hasVersion_put_iff [] le_rfl]
    exact or_iff_left (not_hasVersion_nil k)
  refine ⟨e, e1, dir1, e', e1', dir', hnew, hfirst, (honly 0).mpr rfl, hnew', hsecond, ?_⟩
  refine (neverOverwritten_iff hnew' (.success emptyDirectoryBackup hsecond (.done e1' dir'))).mpr
    (.inr ⟨rfl, ?_, ?_⟩)
  · rw [honly]
    decide
  · intro k _ hk
    rw [hdir]
    exact ⟨_, List.mem_cons_self, 0, readVersion_version Culture.keepsNames_ordinal _ le_rfl,
      ((honly k).mp hk).le⟩

/-- The second backup writes the version that the first one has written. -/
theorem not_neverOverwritten_twice : ∃ e e1 e2 dir1 dir2,
    BackupEngine.new .ordinal ['T'] [] = .ok e ∧
      e.performBackup emptyDirectoryBackup [] = .ok (e1, dir1) ∧
      e1.performBackup emptyDirectoryBackup dir1 = .ok (e2, dir2) ∧
      ¬ NeverOverwritten [] [⟨[], e.newVersionNumber, dir1⟩, ⟨dir1, e1.newVersionNumber, dir2⟩]
        dir2 := by
  obtain ⟨e, e1, e2, -, -, dir1, dir2, -, archive, hnew, hfirst, hdir, hsecond, hnumber, -⟩ :=
    exists_emptyDirectoryBackups
  refine ⟨e, e1, e2, dir1, dir2, hnew, hfirst, hsecond, fun h => ?_⟩
  have hlt := h.above ⟨dir1, e1.newVersionNumber, dir2⟩ (by simp) 0 (by decide)
    (hdir ▸ hasVersion_put_self [] le_rfl _)
  rw [hnumber] at hlt
  exact hlt.ne rfl

end BackupProgram
