import BackupProgram.Engine.RepeatedBackups
import BackupProgram.Test1.Settings

/-!
# What scripts archive

The first backup after an `open` finds the objects below the sources and asks which of them are to be
left out. Backups after it store the same objects, whatever commands have been given in the meantime.
-/

namespace BackupProgram

open Results

/-- The first backup among some commands, and the commands before it. -/
structure FirstBackup (since prior : List (Machine × Command)) (first : Machine) : Prop where
  split : ∃ after, since = prior ++ (first, .backup) :: after
  none : ∀ mc ∈ prior, mc.2 ≠ .backup

/-- The source locations of the first backup: those that have been added if the target was empty, or
else those of the main objects of the newest version. -/
inductive SourcesOf (engine : BackupEngine) (targetLocation : Str)
    (prior : List (Machine × Command)) (first : Machine) : List Str → Prop
  | added (hempty : engine.versions = []) :
      SourcesOf engine targetLocation prior first
        ((prior.map Prod.snd).filterMap Command.source)
  | known {newest : Int} {archive : VersionArchive}
      (hnewest : engine.versions.getLast? = some newest)
      (harchive : ((first.target targetLocation).getD []).get? (getVersionName newest) =
        some (some archive)) :
      SourcesOf engine targetLocation prior first
        ((archive.getBaseObjects.filter fun x => x.root.isMain).map fun x =>
          x.root.basePaths.mappedPath)

/-- What the base objects of an engine are after a first backup. -/
structure BasedOn (l : Locale) (engine : BackupEngine) (targetLocation : Str)
    (prior : List (Machine × Command)) (first : Machine) (baseObjects : List FileSystemTree) :
    Prop where
  ignored : ∀ o ∈ baseObjects.flatMap FileSystemTree.iterate,
    (o.2.backupMode = .noBackup ↔ Ignored l (prior.map Prod.snd) o)
  sources : ∃ sources, SourcesOf engine targetLocation prior first sources ∧
    baseObjects.map (fun t => some (t.root.unmappedBasePath, t.root.name)) =
      sources.map StringUtils.splitIntoObjectAndContainer

variable {l : Locale} {arguments : List Str} {m first : Machine} {p : LineProcessor} {c : Command}
  {events : List ConsoleEvent} {s s' : BackupSystem} {o o' : PathedObject} {engine : BackupEngine}
  {since prior : List (Machine × Command)} {targetLocation : Str}

lemma FirstBackup.concat (h : FirstBackup since prior first) (mc : Machine × Command) :
    FirstBackup (since ++ [mc]) prior first := by
  obtain ⟨after, rfl⟩ := h.split
  exact ⟨⟨after ++ [mc], by simp⟩, h.none⟩

/-- Nothing but the name and the type counts. -/
lemma Ignored.congr {cs : List Command} (h : Ignored l cs o) (hpaths : o'.1 = o.1)
    (hname : o'.2.name = o.2.name) (htype : o'.2.type = o.2.type) : Ignored l cs o' := by
  have hdirectoryish : o'.2.isDirectoryish = o.2.isDirectoryish := by
    simp only [FileSystemObject.isDirectoryish, htype]
  cases h with
  | name hnames hequal hlast hcovers =>
    refine .name hnames (hname ▸ hequal) (hname ▸ hlast) ?_
    rwa [NameIgnoreType.covers, hdirectoryish, ← NameIgnoreType.covers]
  | extension hextension hequal hfile =>
    exact .extension hextension (hname ▸ hequal) (hdirectoryish.trans hfile)
  | path hpath hequal => exact .path hpath (hpaths ▸ hequal)

/-- The mode that a system answers with says whether an object is ignored. -/
lemma ConfiguredBy.noBackup_iff {cs : List Command} (h : ConfiguredBy l cs s) :
    (s.getBackupModeForObject l o).1 = .noBackup ↔ Ignored l cs o := by
  by_cases hignored : Ignored l cs o
  · simp [h.ignored o hignored, hignored]
  · rw [h.notIgnored o hignored]
    simp only [hignored, iff_false]
    split_ifs <;> simp

lemma AskedMode.ignored_iff {cs : List Command} (hs : ConfiguredBy l cs s)
    (h : AskedMode (s.backupCall l m).env.toSettings o) :
    o.2.backupMode = .noBackup ↔ Ignored l cs o := by
  obtain ⟨fso, hname, htype, hmode⟩ := h
  have hfso : (s.getBackupModeForObject l (o.1, fso)).1 = .noBackup ↔ Ignored l cs (o.1, fso) :=
    hs.noBackup_iff
  refine hmode.trans (hfso.trans ⟨fun h => ?_, fun h => ?_⟩)
  · exact h.congr rfl hname.symm htype.symm
  · exact h.congr rfl hname htype

/-- Objects that are scanned alike are based on the same. -/
lemma BasedOn.congr {ts ts' : List FileSystemTree}
    (h : BasedOn l engine targetLocation prior first ts)
    (hsame : SameScanned ts' ts) : BasedOn l engine targetLocation prior first ts' := by
  refine ⟨fun o ho => ?_, ?_⟩
  · obtain ⟨o', ho', hpaths, hkey⟩ := hsame.exists_of_mem ho
    have hignored := h.ignored o' ho'
    simp only [scannedKey, FileSystemTree.pathKey, Prod.mk.injEq, decide_eq_decide] at hkey
    obtain ⟨⟨hname, -, -⟩, htype, hmode⟩ := hkey
    rw [← hmode, hignored]
    exact ⟨fun h => h.congr hpaths.symm hname.symm htype.symm, fun h => h.congr hpaths hname htype⟩
  · obtain ⟨sources, hsources, hnames⟩ := h.sources
    refine ⟨sources, hsources, Eq.trans ?_ hnames⟩
    refine map_eq_map_of_map_eq_map (fun t t' hkey => ?_) hsame
    simp only [RoseTree.map, RoseTree.mk.injEq, scannedKey, FileSystemTree.pathKey,
      Prod.mk.injEq] at hkey
    rw [hkey.1.1.1, hkey.1.1.2.2]

/-! ### Open systems -/

/-- The base objects of an open system, before and after its first backup. -/
inductive Based (l : Locale) (engine : BackupEngine) (since : List (Machine × Command))
    (s : BackupSystem) : Prop
  | unset (hnone : ∀ mc ∈ since, mc.2 ≠ .backup) (hset : s.engine.baseObjectsSet = false)
      (hempty : s.engine.baseObjects = []) : Based l engine since s
  | set {prior : List (Machine × Command)} {first : Machine}
      (hfirst : FirstBackup since prior first)
      (hset : s.engine.baseObjectsSet = true)
      (hbased : BasedOn l engine s.targetLocation prior first s.engine.baseObjects) :
      Based l engine since s

/-- All that is known of an open system. -/
structure Known (l : Locale) (engine : BackupEngine) (since : List (Machine × Command))
    (s : BackupSystem) (v : Int) : Prop where
  empty_of_zero : engine.versionCount = 0 → engine.versions = []
  numbered : Numbered engine since s v
  collected : Collected l (since.map Prod.snd) s
  based : Based l engine since s

lemma versions_eq_nil_of_versionCount {culture : Culture} {t : Str} {dir : TargetDirectory}
    (h : BackupEngine.new culture t dir = .ok engine) (hzero : engine.versionCount = 0) :
    engine.versions = [] := by
  obtain ⟨hcached, hversions⟩ := BackupEngine.versions_of_new h
  rcases hlast : engine.versions.getLast? with _ | back
  · exact List.getLast?_eq_none_iff.mp hlast
  · obtain ⟨hnonneg, hle, -⟩ := getLast_setVersions hversions hlast
    rw [BackupEngine.versionCount_of_getLast? hcached hlast hnonneg hle] at hzero
    split_ifs at hzero <;> omega

/-- Commands that leave the base objects as they are. -/
lemma Based.concat (h : Based l engine since s) (hc : c ≠ .backup)
    (htarget : s'.targetLocation = s.targetLocation)
    (hset : s'.engine.baseObjectsSet = s.engine.baseObjectsSet)
    (hbase : s'.engine.baseObjects = s.engine.baseObjects) :
    Based l engine (since ++ [(m, c)]) s' := by
  cases h with
  | unset hnone hset' hempty =>
    refine .unset (fun mc hmc => ?_) (hset.trans hset') (hbase.trans hempty)
    rcases List.mem_append.mp hmc with hmc | hmc
    · exact hnone mc hmc
    · rwa [List.mem_singleton.mp hmc]
  | set hfirst hset' hbased =>
    exact .set (hfirst.concat _) (hset.trans hset') (by rwa [htarget, hbase])

/-- What a backup writes, and what the base objects are afterwards. -/
structure BackedUp (l : Locale) (engine : BackupEngine) (targetLocation : Str)
    (since : List (Machine × Command)) (m : Machine) (dir : TargetDirectory)
    (prior : List (Machine × Command)) (first : Machine) (archive : VersionArchive) : Prop where
  isFirst : FirstBackup (since ++ [(m, .backup)]) prior first
  written : dir = ((m.target targetLocation).getD []).put (getVersionName engine.newVersionNumber)
    (some archive)
  based : BasedOn l engine targetLocation prior first archive.baseObjects
  files : ∀ file ∈ archive.files, ∃ o ∈ archive.objects, o.2.isIncluded = true ∧
    m.fs.readFile o.1.mappedPath = some file.2.1

/-- The objects of a first backup. -/
lemma BasedOn.of_scan {v : Int} (h : Known l engine since s v)
    {previous : Option (List FileSystemTree)}
    {scanned : List FileSystemTree}
    (hprevious : s.engine.versionCount = 0 ∧ previous = none ∨
      ∃ archive, s.engine.openLatestVersion (s.targetDirectory m) = .ok archive ∧
        previous = some archive.getBaseObjects)
    (hscan : (s.backupCall l m).scan previous = .ok scanned) :
    BasedOn l engine s.targetLocation since m scanned := by
  obtain ⟨hasked, hnames⟩ := BackupCall.scan_eq_ok hscan
  refine ⟨fun o ho => (hasked o ho).ignored_iff h.collected.configuredBy, _, ?_, hnames⟩
  rcases hprevious with ⟨hzero, rfl⟩ | ⟨archive, hopen, rfl⟩
  · have hadded : (s.backupCall l m).currentSourceLocations none =
        (since.map Prod.snd).filterMap Command.source := h.collected.sources
    rw [hadded]
    exact .added (h.empty_of_zero (h.numbered.versionCount ▸ hzero))
  · obtain ⟨newest, hnewest, hget⟩ := BackupEngine.openLatestVersion_eq_ok hopen
    rw [h.numbered.versions] at hnewest
    exact .known hnewest hget

/-- A backup of an open system. -/
theorem Known.backup {v : Int} (h : Known l engine since s v) {e' : BackupEngine}
    {dir : TargetDirectory}
    (hbackup : s.engine.performBackup (s.backupCall l m) (s.targetDirectory m) = .ok (e', dir)) :
    ∃ prior first archive, BackedUp l engine s.targetLocation since m dir prior first archive ∧
      e'.baseObjectsSet = true ∧ e'.baseObjects = archive.baseObjects := by
  obtain ⟨baseObjects, old, heap, counters, r, hstarts, hr, hset, hbase, hdir⟩ :=
    BackupEngine.startsFrom_of_performBackup hbackup
  obtain ⟨hsame, hfiles⟩ := sameScanned_of_generateArchive hr
  have hnumber : s.engine.newVersionNumber = engine.newVersionNumber := h.numbered.versionCount
  rw [hnumber] at hdir
  have hfiles' : ∀ file ∈ r.archive.files, ∃ o ∈ r.archive.objects, o.2.isIncluded = true ∧
      m.fs.readFile o.1.mappedPath = some file.2.1 := by
    intro file hfile
    obtain ⟨o, ho, hincluded, hread⟩ := hfiles file hfile
    obtain ⟨o', ho', hpaths, hkey⟩ := hsame.symm.exists_of_mem ho
    exact ⟨o', ho', (isIncluded_congr hkey).trans hincluded, hpaths ▸ hread⟩
  cases h.based with
  | unset hnone hset' hempty =>
    obtain ⟨previous, scanned, hprevious, hscan, hsame'⟩ := hstarts.initial hset' hempty
    exact ⟨since, m, r.archive, ⟨⟨⟨[], rfl⟩, hnone⟩, hdir,
      (BasedOn.of_scan h hprevious hscan).congr (hsame.trans hsame'), hfiles'⟩, hset, hbase⟩
  | set hfirst hset' hbased =>
    exact ⟨_, _, r.archive, ⟨hfirst.concat _, hdir,
      hbased.congr (hsame.trans (hstarts.repeated hset')), hfiles'⟩, hset, hbase⟩

lemma Known.of_new {culture : Culture} {t : Str} {dir : TargetDirectory}
    (h : BackupEngine.new culture t dir = .ok engine) :
    Known l engine [] (.new t engine.cacheVersionCount) (toInt32 (engine.versionCount - 1)) := by
  have hunused := BackupEngine.Unused.of_new h
  exact ⟨versions_eq_nil_of_versionCount h, .of_new h, .new l t _,
    .unset (by simp) hunused.baseObjectsSet hunused.baseObjects⟩

lemma Known.acts {v v' : Int} (h : Known l engine since s v) (hact : Acts l m s v c s' v') :
    Known l engine (since ++ [(m, c)]) s' v' := by
  refine ⟨h.empty_of_zero, h.numbered.acts hact, ?_, ?_⟩
  · rw [List.map_append, List.map_singleton]
    exact h.collected.acts hact
  · cases hact with
    | idle hidle hengine =>
      refine h.based.concat (by rintro rfl; simp [Command.isIdle] at hidle) rfl ?_ ?_
      · rcases hengine with rfl | rfl <;> rfl
      · rcases hengine with rfl | rfl <;> rfl
    | configured hconfigure =>
      have hengine : s'.engine = s.engine := by
        cases c <;> simp only [Command.configure, Option.some.injEq, reduceCtorEq] at hconfigure
        all_goals rw [← hconfigure]
      refine h.based.concat ?_ (Acts.targetLocation (m := m) (v := 0) (.configured hconfigure))
        (by rw [hengine]) (by rw [hengine])
      rintro rfl
      simp [Command.configure] at hconfigure
    | selected => exact h.based.concat (by simp) rfl rfl rfl
    | backup hbackup =>
      obtain ⟨prior, first, archive, hbacked, hset, hbase⟩ := h.backup hbackup
      exact .set hbacked.isFirst hset (hbase ▸ hbacked.based)
    | restored hrestore =>
      obtain ⟨_, _, _, _, -, -, -, -, rfl⟩ := restoreBackup_eq_ok hrestore
      exact h.based.concat (by simp) rfl rfl rfl

lemma Reached.known {steps : List Step} (h : Reached l arguments steps p) :
    match lastOpening (steps.map Step.run) with
    | none => p.backupSystem = none
    | some o => ∃ dir engine s, Open l (Known l) o p dir engine s :=
  h.induction (fun _ _ _ hnew => .of_new hnew) fun _ _ _ _ _ _ _ _ hs hact => hs.acts hact

/-! ### Archives -/

/-- The engine of a backup after some commands. -/
structure BackupIn (l : Locale) (before : List Step) (targetLocation : Str) (o : Opening)
    (engine : BackupEngine) : Prop where
  opening : lastOpening (before.map Step.run) = some o
  target : o.targetLocation = targetLocation
  opened : ∃ dir, o.machine.target targetLocation = some dir ∧
    BackupEngine.new l.culture targetLocation dir = .ok engine

/-- The command that has written a directory is a backup. -/
lemma RanAt.exists_backedUp {before : List Step} {step : Step} {p p' : LineProcessor}
    {dir : TargetDirectory} (h : RanAt l arguments before step p p')
    (hbackup : .backup targetLocation dir ∈ step.events) :
    step.command = .backup ∧ ∃ o engine prior first archive,
      BackupIn l before targetLocation o engine ∧
        BackedUp l engine targetLocation o.since step.machine dir prior first archive := by
  obtain ⟨hreached, hran⟩ := h
  have hshown : ∀ d, ConsoleEvent.backup targetLocation dir ∉ p.shown d :=
    not_mem_shown fun d => by simp
  obtain ⟨m, c, stepEvents⟩ := step
  simp only at hran hbackup ⊢
  cases hran with
  | @backup s e' dir' hs hperform =>
    refine ⟨rfl, ?_⟩
    have hknown := hreached.known
    rcases hopening : lastOpening (before.map Step.run) with _ | o
    · rw [hopening] at hknown
      exact absurd (hknown.symm.trans hs) (Option.some_ne_none _).symm
    · rw [hopening] at hknown
      obtain ⟨dir0, engine, s', hopen⟩ := hknown
      cases hs.symm.trans hopen.system
      rw [List.mem_singleton, ConsoleEvent.backup.injEq] at hbackup
      obtain ⟨rfl, rfl⟩ := hbackup
      obtain ⟨prior, first, archive, hbacked, -, -⟩ := hopen.property.backup hperform
      refine ⟨o, engine, prior, first, archive, ⟨hopening, hopen.targetLocation.symm, dir0, ?_, ?_⟩,
        hbacked⟩
      · rw [hopen.targetLocation]
        exact hopen.target
      · rw [hopen.targetLocation]
        exact hopen.new
  | read hc hs hcount =>
    rcases List.mem_cons.mp hbackup with hevent | hevent
    · cases hevent
    · exact absurd hevent (hshown _)
  | selected => exact absurd hbackup (hshown _)
  | showVersions => exact absurd hbackup (hshown _)
  | showVersionCount => exact absurd hbackup (hshown _)
  | nothing | opened | configured | silent => simp at hbackup
  | restored => simp at hbackup

/-- Every archive that a script writes leaves out the objects that the commands between the `open`
and the first backup after it have said, and has no data of theirs. Commands after the first backup
make no difference, and backups after it write the same version. -/
theorem ignored_of_process {lines : List (Machine × List Str)}
    (h : (LineProcessor.new l arguments).process l lines = .ok (p, events)) :
    ∃ steps, StepsOf l arguments lines p events steps ∧
      ∀ before step after, steps = before ++ step :: after →
        ∀ targetLocation dir, .backup targetLocation dir ∈ step.events → step.command = .backup ∧
          ∃ o engine prior first archive, BackupIn l before targetLocation o engine ∧
            FirstBackup (o.since ++ [step.run]) prior first ∧
            dir = ((step.machine.target targetLocation).getD []).put
              (getVersionName engine.newVersionNumber) (some archive) ∧
            (∀ object ∈ archive.objects,
              (object.2.backupMode = .noBackup ↔ Ignored l (prior.map Prod.snd) object)) ∧
            ∀ file ∈ archive.files, ∃ object ∈ archive.objects,
              ¬ Ignored l (prior.map Prod.snd) object ∧
                step.machine.fs.readFile object.1.mappedPath = some file.2.1 := by
  obtain ⟨steps, hsteps⟩ := exists_stepsOf h
  refine ⟨steps, hsteps, fun before step after hsplit targetLocation dir hbackup => ?_⟩
  have hreached := hsteps.reached
  rw [hsplit] at hreached
  obtain ⟨p₁, p₂, hran⟩ := hreached.ranAt
  obtain ⟨hcommand, o, engine, prior, first, archive, hin, hbacked⟩ := hran.exists_backedUp hbackup
  refine ⟨hcommand, o, engine, prior, first, archive, hin, ?_, hbacked.written,
    hbacked.based.ignored, fun file hfile => ?_⟩
  · rw [Step.run, hcommand]
    exact hbacked.isFirst
  · obtain ⟨object, hobject, hincluded, hread⟩ := hbacked.files file hfile
    refine ⟨object, hobject, fun hignored => ?_, hread⟩
    exact mode_of_isIncluded hincluded ((hbacked.based.ignored object hobject).mpr hignored)

/-- The base objects of every archive that a script writes are found at the sources that were added
before the first backup, if the target was empty when it was opened. Otherwise they are found where
the main objects of the newest version were, and sources that are added make no difference. -/
theorem sources_of_process {lines : List (Machine × List Str)}
    (h : (LineProcessor.new l arguments).process l lines = .ok (p, events)) :
    ∃ steps, StepsOf l arguments lines p events steps ∧
      ∀ before step after, steps = before ++ step :: after →
        ∀ targetLocation dir, .backup targetLocation dir ∈ step.events → step.command = .backup ∧
          ∃ o engine prior first archive sources, BackupIn l before targetLocation o engine ∧
            FirstBackup (o.since ++ [step.run]) prior first ∧
            dir = ((step.machine.target targetLocation).getD []).put
              (getVersionName engine.newVersionNumber) (some archive) ∧
            SourcesOf engine targetLocation prior first sources ∧
            archive.baseObjects.map (fun t => some (t.root.unmappedBasePath, t.root.name)) =
              sources.map StringUtils.splitIntoObjectAndContainer := by
  obtain ⟨steps, hsteps⟩ := exists_stepsOf h
  refine ⟨steps, hsteps, fun before step after hsplit targetLocation dir hbackup => ?_⟩
  have hreached := hsteps.reached
  rw [hsplit] at hreached
  obtain ⟨p₁, p₂, hran⟩ := hreached.ranAt
  obtain ⟨hcommand, o, engine, prior, first, archive, hin, hbacked⟩ := hran.exists_backedUp hbackup
  obtain ⟨sources, hsources, hnames⟩ := hbacked.based.sources
  refine ⟨hcommand, o, engine, prior, first, archive, sources, hin, ?_, hbacked.written, hsources,
    hnames⟩
  rw [Step.run, hcommand]
  exact hbacked.isFirst

/-! ### Two backups -/

/-- The file is excluded only after the first backup. -/
def lateExclusion : List (Machine × List Str) :=
  linesOf [] [["open", "T"], ["set", "use_snapshots", "false"], ["add", "C:\\d"], ["backup"],
    ["exclude", "name", "files", "F"], ["backup"]]

lemma exists_process_lateExclusion : ∃ p dir dir' archive,
    (LineProcessor.new plainLocale []).process plainLocale lateExclusion =
      .ok (p, [.backup ['T'] dir, .backup ['T'] dir']) ∧
    dir' = [(getVersionName 0, some archive)] ∧ archive.files.map (·.2.1) = [[1]] :=
  ⟨_, _, _, _, rfl, rfl, rfl⟩

/-- The step that has written the second directory. -/
lemma exists_last_backup {lines : List (Machine × List Str)} {steps : List Step}
    {dir dir' : TargetDirectory}
    (h : StepsOf l arguments lines p
      [.backup targetLocation dir, .backup targetLocation dir'] steps) :
    ∃ before step after, steps = before ++ step :: after ∧
      .backup targetLocation dir' ∈ step.events := by
  have hevent : ConsoleEvent.backup targetLocation dir' ∈ steps.flatMap Step.events := by
    rw [← h.events]
    simp
  obtain ⟨step, hstep, hevent⟩ := List.mem_flatMap.mp hevent
  obtain ⟨before, after, hsplit⟩ := List.append_of_mem hstep
  exact ⟨before, step, after, hsplit, hevent⟩

/-- The second backup has the data of the file all the same. -/
theorem ignored_script : ∃ p, ∃ dir dir' : TargetDirectory, ∃ archive : VersionArchive,
    ∃ before, ∃ step : Step,
    (LineProcessor.new plainLocale []).process plainLocale lateExclusion =
      .ok (p, [.backup ['T'] dir, .backup ['T'] dir']) ∧
    dir' = [(getVersionName 0, some archive)] ∧ archive.files.map (·.2.1) = [[1]] ∧
    .backup ['T'] dir' ∈ step.events ∧
    ∃ o engine prior first, ∃ archive' : VersionArchive,
      BackupIn plainLocale before ['T'] o engine ∧
      FirstBackup (o.since ++ [step.run]) prior first ∧
      dir' = ((step.machine.target ['T']).getD []).put
        (getVersionName engine.newVersionNumber) (some archive') ∧
      ∀ file ∈ archive'.files, ∃ object ∈ archive'.objects,
        ¬ Ignored plainLocale (prior.map Prod.snd) object ∧
          step.machine.fs.readFile object.1.mappedPath = some file.2.1 := by
  obtain ⟨p, dir, dir', archive, hrun, hdir, hfiles⟩ := exists_process_lateExclusion
  obtain ⟨steps, hsteps, hignored⟩ := ignored_of_process hrun
  obtain ⟨before, step, after, hsplit, hevent⟩ := exists_last_backup hsteps
  obtain ⟨-, o, engine, prior, first, archive', hin, hfirst, hwritten, -, hdata⟩ :=
    hignored before step after hsplit _ _ hevent
  exact ⟨p, dir, dir', archive, before, step, hrun, hdir, hfiles, hevent, o, engine, prior, first,
    archive', hin, hfirst, hwritten, hdata⟩

theorem sources_script : ∃ p, ∃ dir dir' : TargetDirectory, ∃ before, ∃ step : Step,
    (LineProcessor.new plainLocale []).process plainLocale lateExclusion =
      .ok (p, [.backup ['T'] dir, .backup ['T'] dir']) ∧
    .backup ['T'] dir' ∈ step.events ∧
    ∃ o engine prior first, ∃ archive : VersionArchive, ∃ sources,
      BackupIn plainLocale before ['T'] o engine ∧
      FirstBackup (o.since ++ [step.run]) prior first ∧
      dir' = ((step.machine.target ['T']).getD []).put
        (getVersionName engine.newVersionNumber) (some archive) ∧
      SourcesOf engine ['T'] prior first sources ∧
      archive.baseObjects.map (fun t => some (t.root.unmappedBasePath, t.root.name)) =
        sources.map StringUtils.splitIntoObjectAndContainer := by
  obtain ⟨p, dir, dir', -, hrun, -, -⟩ := exists_process_lateExclusion
  obtain ⟨steps, hsteps, hsources⟩ := sources_of_process hrun
  obtain ⟨before, step, after, hsplit, hevent⟩ := exists_last_backup hsteps
  obtain ⟨-, hfound⟩ := hsources before step after hsplit _ _ hevent
  exact ⟨p, dir, dir', before, step, hrun, hevent, hfound⟩

end BackupProgram
