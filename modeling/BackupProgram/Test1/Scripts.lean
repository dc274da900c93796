import BackupProgram.Engine.Chain
import BackupProgram.Engine.Sessions
import BackupProgram.Test1.Commands

/-!
# Scripts

The commands of a script run one after the other. What a command finds depends on the last `open`
before it and on the commands since then.
-/

namespace BackupProgram

open Results

/-- The commands of the lines before `quit`, each with the machine that it runs on. -/
def script (l : Locale) (arguments : List Str) :
    List (Machine × List Str) → Option (List (Machine × Command))
  | [] => some []
  | (m, line) :: lines =>
    match line with
    | [] => script l arguments lines
    | command :: words =>
      if l.culture.equalsIgnoreCase command "quit".toList then some []
      else
        match Command.parse l arguments (command :: words), script l arguments lines with
        | some c, some cs => some ((m, c) :: cs)
        | _, _ => none

/-- A command that has been run, and its events. -/
structure Step where
  machine : Machine
  command : Command
  events : List ConsoleEvent

def Step.run (step : Step) : Machine × Command := (step.machine, step.command)

/-- The processors that commands lead to. -/
inductive Reached (l : Locale) (arguments : List Str) : List Step → LineProcessor → Prop
  | new : Reached l arguments [] (.new l arguments)
  | ran {steps : List Step} {step : Step} {p p' : LineProcessor} (h : Reached l arguments steps p)
      (hran : Ran l step.machine p step.command p' step.events) :
      Reached l arguments (steps ++ [step]) p'

variable {l : Locale} {arguments : List Str} {m : Machine} {p p' : LineProcessor} {c : Command}
  {cs : List (Machine × Command)} {steps before after : List Step} {step : Step}
  {events : List ConsoleEvent}

/-- The commands of a script that has run to its end, each with the events that are its own. -/
structure StepsOf (l : Locale) (arguments : List Str) (lines : List (Machine × List Str))
    (p : LineProcessor) (events : List ConsoleEvent) (steps : List Step) : Prop where
  script : script l arguments lines = some (steps.map Step.run)
  events : events = steps.flatMap Step.events
  reached : Reached l arguments steps p

/-- A command of a script, and the processors before and after it. -/
structure RanAt (l : Locale) (arguments : List Str) (before : List Step) (step : Step)
    (p p' : LineProcessor) : Prop where
  reached : Reached l arguments before p
  ran : Ran l step.machine p step.command p' step.events

/-! ### Lines and commands -/

lemma Ran.arguments_eq (h : Ran l m p c p' events) : p'.arguments = p.arguments := by
  cases h <;> rfl

lemma Reached.arguments_eq (h : Reached l arguments steps p) : p.arguments = arguments := by
  induction h with
  | new => rfl
  | ran _ hran ih => rw [hran.arguments_eq, ih]

/-- The lines after some commands that have been run. -/
lemma Reached.process {lines : List (Machine × List Str)} (hp : Reached l arguments steps p)
    (h : p.process l lines = .ok (p', events)) :
    ∃ more, script l arguments lines = some (more.map Step.run) ∧
      events = more.flatMap Step.events ∧ Reached l arguments (steps ++ more) p' := by
  induction lines generalizing steps p events with
  | nil =>
    simp only [LineProcessor.process, pure_eq_ok, Prod.mk.injEq] at h
    obtain ⟨rfl, rfl⟩ := h
    exact ⟨[], rfl, rfl, by rwa [List.append_nil]⟩
  | cons first lines ih =>
    obtain ⟨m, line⟩ := first
    unfold LineProcessor.process at h
    unfold script
    rcases line with _ | ⟨command, words⟩
    · exact ih hp h
    · simp only at h ⊢
      split_ifs at h ⊢
      · simp only [pure_eq_ok, Prod.mk.injEq] at h
        obtain ⟨rfl, rfl⟩ := h
        exact ⟨[], rfl, rfl, by rwa [List.append_nil]⟩
      simp only [bind_eq_ok, pure_eq_ok, Prod.mk.injEq, Prod.exists] at h
      obtain ⟨p₁, events₁, hline, p₂, events₂, hrest, rfl, rfl⟩ := h
      obtain ⟨c, hparse, hran⟩ := LineProcessor.ran_of_processLine hline
      rw [hp.arguments_eq] at hparse
      have hstep : Reached l arguments (steps ++ [⟨m, c, events₁⟩]) p₁ := hp.ran hran
      obtain ⟨more, hscript, rfl, hreached⟩ := ih hstep hrest
      rw [List.append_assoc, List.singleton_append] at hreached
      exact ⟨⟨m, c, events₁⟩ :: more, by rw [hparse, hscript]; rfl, rfl, hreached⟩

/-- A script that runs to its end runs its commands, and its events are theirs. -/
lemma exists_stepsOf {lines : List (Machine × List Str)}
    (h : (LineProcessor.new l arguments).process l lines = .ok (p, events)) :
    ∃ steps, StepsOf l arguments lines p events steps := by
  obtain ⟨steps, hscript, hevents, hreached⟩ := Reached.process .new h
  exact ⟨steps, hscript, hevents, hreached⟩

/-- By induction over the commands: each of them has run after those before it. -/
lemma Reached.ranAt (h : Reached l arguments (before ++ step :: after) p) :
    ∃ p₁ p₂, RanAt l arguments before step p₁ p₂ := by
  generalize hsteps : before ++ step :: after = steps at h
  induction h generalizing after with
  | new => simp at hsteps
  | @ran steps last p p' h hran ih =>
    rcases List.eq_nil_or_concat after with rfl | ⟨after, other, rfl⟩
    · obtain ⟨rfl, hlast⟩ := List.append_inj' hsteps rfl
      rw [List.singleton_inj] at hlast
      exact ⟨p, p', h, hlast ▸ hran⟩
    · rw [List.concat_eq_append, ← List.cons_append, ← List.append_assoc] at hsteps
      exact ih (List.append_inj' hsteps rfl).1

/-! ### The last `open` -/

/-- The `open` that counts, and the commands after it. -/
structure Opening where
  machine : Machine
  targetLocation : Str
  since : List (Machine × Command)

def Opening.next (o : Option Opening) (mc : Machine × Command) : Option Opening :=
  match mc.2 with
  | .openTarget targetLocation => some ⟨mc.1, targetLocation, []⟩
  | _ => o.map fun o => { o with since := o.since ++ [mc] }

def lastOpening (cs : List (Machine × Command)) : Option Opening := cs.foldl Opening.next none

lemma lastOpening_concat (cs : List (Machine × Command)) (mc : Machine × Command) :
    lastOpening (cs ++ [mc]) = Opening.next (lastOpening cs) mc := by
  rw [lastOpening, List.foldl_append, List.foldl_cons, List.foldl_nil]
  rfl

/-- Commands that change nothing but the cache of an engine. -/
def Command.isIdle : Command → Bool
  | nothing | showDependencies | showVersions | showVersionCount | showPaths => true
  | _ => false

/-- What a command does to an open system and to the selected version. -/
inductive Acts (l : Locale) (m : Machine) (s : BackupSystem) (v : Int) :
    Command → BackupSystem → Int → Prop
  | idle {c : Command} {engine : BackupEngine} (hidle : c.isIdle = true)
      (hengine : engine = s.engine ∨ engine = s.engine.cacheVersionCount) :
      Acts l m s v c { s with engine := engine } v
  | configured {c : Command} {s' : BackupSystem} (hconfigure : c.configure l s = some s') :
      Acts l m s v c s' v
  | selected {n : Int} (hversion : Command.selected s.engine n ∈ s.engine.versions) :
      Acts l m s v (.selectVersion n) { s with engine := s.engine.cacheVersionCount }
        (Command.selected s.engine n)
  | backup {engine : BackupEngine} {dir : TargetDirectory}
      (hbackup : s.engine.performBackup (s.backupCall l m) (s.targetDirectory m) =
        .ok (engine, dir)) : Acts l m s v .backup { s with engine := engine } v
  | restored {engine : BackupEngine} {disk : Disk}
      (hrestore : restoreBackup m.restoreEnv (s.targetDirectory m).archiveFiles m.restoreFuel
        s.engine m.disk = some (.ok engine disk)) :
      Acts l m s v .restore { s with engine := engine } v

/-- Other commands than `open` act on an open system, and on nothing else. -/
lemma Ran.acts (h : Ran l m p c p' events) (hopen : ∀ t, c ≠ .openTarget t) {s : BackupSystem}
    (hs : p.backupSystem = some s) :
    ∃ s', p'.backupSystem = some s' ∧ Acts l m s p.selectedVersion c s' p'.selectedVersion := by
  cases h with
  | nothing => exact ⟨s, hs, .idle rfl (.inl rfl)⟩
  | opened => exact absurd rfl (hopen _)
  | configured hs' hconfigure =>
    cases hs.symm.trans hs'
    exact ⟨_, rfl, .configured hconfigure⟩
  | backup hs' hbackup =>
    cases hs.symm.trans hs'
    exact ⟨_, rfl, .backup hbackup⟩
  | restored hs' hrestore =>
    cases hs.symm.trans hs'
    exact ⟨_, rfl, .restored hrestore⟩
  | selected hs' hversion =>
    cases hs.symm.trans hs'
    exact ⟨_, rfl, .selected hversion⟩
  | read hc hs' =>
    cases hs.symm.trans hs'
    exact ⟨_, rfl, .idle (by rcases hc with rfl | rfl <;> rfl) (.inr rfl)⟩
  | silent hc => exact ⟨s, hs, .idle (by rcases hc with rfl | rfl <;> rfl) (.inl rfl)⟩
  | showVersions => exact ⟨s, hs, .idle rfl (.inl rfl)⟩
  | showVersionCount hs' =>
    cases hs.symm.trans hs'
    exact ⟨_, rfl, .idle rfl (.inr rfl)⟩

/-- Without a system there is nothing that a command could act on. -/
lemma Ran.unopened (h : Ran l m p c p' events) (hopen : ∀ t, c ≠ .openTarget t)
    (hs : p.backupSystem = none) : p'.backupSystem = none := by
  cases h with
  | nothing => exact hs
  | silent => exact hs
  | opened => exact absurd rfl (hopen _)
  | showVersions hs' => exact hs
  | configured hs' => exact absurd (hs.symm.trans hs') (Option.some_ne_none _).symm
  | backup hs' => exact absurd (hs.symm.trans hs') (Option.some_ne_none _).symm
  | restored hs' => exact absurd (hs.symm.trans hs') (Option.some_ne_none _).symm
  | selected hs' => exact absurd (hs.symm.trans hs') (Option.some_ne_none _).symm
  | read _ hs' => exact absurd (hs.symm.trans hs') (Option.some_ne_none _).symm
  | showVersionCount hs' => exact absurd (hs.symm.trans hs') (Option.some_ne_none _).symm

lemma Acts.targetLocation {s s' : BackupSystem} {v v' : Int} (h : Acts l m s v c s' v') :
    s'.targetLocation = s.targetLocation := by
  cases h with
  | configured hconfigure =>
    cases c <;> simp only [Command.configure, Option.some.injEq, reduceCtorEq] at hconfigure
    all_goals rw [← hconfigure]
  | idle | selected | backup | restored => rfl

/-- The open system after some commands: what `open` has found, and a property that its engine, the
commands since then, the system and the selected version have. -/
structure Open (l : Locale)
    (P : BackupEngine → List (Machine × Command) → BackupSystem → Int → Prop)
    (o : Opening) (p : LineProcessor) (dir : TargetDirectory) (engine : BackupEngine)
    (s : BackupSystem) : Prop where
  target : o.machine.target o.targetLocation = some dir
  new : BackupEngine.new l.culture o.targetLocation dir = .ok engine
  system : p.backupSystem = some s
  targetLocation : s.targetLocation = o.targetLocation
  property : P engine o.since s p.selectedVersion

/-- The rule of the last `open`: what holds of a system that has been opened, and is kept by every
command, holds of an open system. -/
theorem Reached.induction {P : BackupEngine → List (Machine × Command) → BackupSystem → Int → Prop}
    (hopen : ∀ t dir engine, BackupEngine.new l.culture t dir = .ok engine →
      P engine [] (.new t engine.cacheVersionCount) (toInt32 (engine.versionCount - 1)))
    (hacts : ∀ engine since m c s v s' v', P engine since s v → Acts l m s v c s' v' →
      P engine (since ++ [(m, c)]) s' v')
    (h : Reached l arguments steps p) :
    match lastOpening (steps.map Step.run) with
    | none => p.backupSystem = none
    | some o => ∃ dir engine s, Open l P o p dir engine s := by
  induction h with
  | new => rfl
  | @ran steps step p p' h hran ih =>
    obtain ⟨m, c, events⟩ := step
    rw [List.map_append, List.map_singleton, lastOpening_concat, Step.run]
    simp only at hran ⊢
    by_cases hc : ∃ t, c = .openTarget t
    · obtain ⟨t, rfl⟩ := hc
      cases hran with
      | opened htarget hnew => exact ⟨_, _, _, htarget, hnew, rfl, rfl, hopen _ _ _ hnew⟩
      | configured _ hconfigure => simp [Command.configure] at hconfigure
      | read hc => simp at hc
      | silent hc => simp at hc
    · have hne : ∀ t, c ≠ .openTarget t := fun t ht => hc ⟨t, ht⟩
      have hnext : Opening.next (lastOpening (steps.map Step.run)) (m, c) =
          (lastOpening (steps.map Step.run)).map fun o =>
          { o with since := o.since ++ [(m, c)] } := by
        rw [Opening.next]
        split
        · exact absurd ‹_› (hne _)
        · rfl
      rw [hnext]
      rcases hlast : lastOpening (steps.map Step.run) with _ | o
      · rw [hlast] at ih
        exact hran.unopened hne ih
      · rw [hlast] at ih
        obtain ⟨dir, engine, s, hs⟩ := ih
        obtain ⟨s', hs', hact⟩ := hran.acts hne hs.system
        exact ⟨dir, engine, s', hs.target, hs.new, hs', hact.targetLocation.trans hs.targetLocation,
          hacts _ _ _ _ _ _ _ _ hs.property hact⟩

/-! ### Versions -/

def Command.selection : Command → Option Int
  | selectVersion versionNumber => some versionNumber
  | _ => none

/-- The version that the last `select` has chosen, or else the newest one. -/
def selectedVersion (engine : BackupEngine) (since : List (Machine × Command)) : Int :=
  match (since.filterMap fun mc => mc.2.selection).getLast? with
  | none => (engine.versions.getLast?).getD (-1)
  | some versionNumber => Command.selected engine versionNumber

/-- The versions that are known, and the one that is selected. -/
structure Numbered (engine : BackupEngine) (since : List (Machine × Command)) (s : BackupSystem)
    (v : Int) : Prop where
  versions : s.engine.versions = engine.versions
  versionCount : s.engine.versionCount = engine.versionCount
  selected : v = selectedVersion engine since
  present : engine.versions ≠ [] → v ∈ engine.versions

lemma versionCount_cacheVersionCount (e : BackupEngine) :
    e.cacheVersionCount.versionCount = e.versionCount :=
  BackupEngine.versionCount_of_cached rfl (.inr rfl)

/-- At first the newest version is selected. -/
lemma toInt32_versionCount {culture : Culture} {t : Str} {dir : TargetDirectory}
    {engine : BackupEngine} (h : BackupEngine.new culture t dir = .ok engine) :
    toInt32 (engine.versionCount - 1) = (engine.versions.getLast?).getD (-1) := by
  have hcount : engine.versionCount = engine.newVersionNumber := rfl
  rw [hcount, BackupEngine.newVersionNumber_eq h]
  rcases hlast : engine.versions.getLast? with _ | back
  · rfl
  · obtain ⟨hnonneg, hle, -⟩ := getLast_setVersions (BackupEngine.versions_of_new h).2 hlast
    rw [maxInt] at hle
    simp only [toInt32, Option.getD_some]
    rw [Int.bmod_sub_bmod, add_sub_cancel_right]
    exact Int.bmod_eq_of_le (by omega) (by omega)

lemma Numbered.of_new {culture : Culture} {t : Str} {dir : TargetDirectory}
    {engine : BackupEngine} (h : BackupEngine.new culture t dir = .ok engine) :
    Numbered engine [] (.new t engine.cacheVersionCount)
      (toInt32 (engine.versionCount - 1)) := by
  refine ⟨rfl, versionCount_cacheVersionCount engine, toInt32_versionCount h, fun hne => ?_⟩
  rw [toInt32_versionCount h, List.getLast?_eq_some_getLast hne]
  exact List.getLast_mem hne

/-- Commands that select nothing leave the selected version as it is. -/
lemma selectedVersion_concat {engine : BackupEngine} {since : List (Machine × Command)}
    (hc : c.selection = none) :
    selectedVersion engine (since ++ [(m, c)]) = selectedVersion engine since := by
  simp [selectedVersion, hc]

/-- A system whose engine counts the same versions, when nothing has been selected. -/
lemma Numbered.concat {engine : BackupEngine} {since : List (Machine × Command)}
    {s s' : BackupSystem} {v : Int} (h : Numbered engine since s v) (hc : c.selection = none)
    (hversions : s'.engine.versions = s.engine.versions)
    (hcount : s'.engine.versionCount = s.engine.versionCount) :
    Numbered engine (since ++ [(m, c)]) s' v :=
  ⟨hversions.trans h.versions, hcount.trans h.versionCount,
    h.selected.trans (selectedVersion_concat hc).symm, h.present⟩

lemma Numbered.acts {engine : BackupEngine} {since : List (Machine × Command)}
    {s s' : BackupSystem} {v v' : Int} (h : Numbered engine since s v)
    (hact : Acts l m s v c s' v') : Numbered engine (since ++ [(m, c)]) s' v' := by
  cases hact with
  | idle hidle hengine =>
    have hc : c.selection = none := by
      cases c <;> simp [Command.isIdle, Command.selection] at hidle ⊢
    refine h.concat hc ?_ ?_
    · rcases hengine with rfl | rfl <;> rfl
    · rcases hengine with rfl | rfl
      · rfl
      · exact versionCount_cacheVersionCount s.engine
  | configured hconfigure =>
    have hsame : c.selection = none ∧ s'.engine = s.engine := by
      cases c <;> simp only [Command.configure, Option.some.injEq, reduceCtorEq] at hconfigure
      all_goals exact ⟨rfl, by rw [← hconfigure]⟩
    exact h.concat hsame.1 (by rw [hsame.2]) (by rw [hsame.2])
  | @selected n hversion =>
    have hselected : Command.selected s.engine n = Command.selected engine n := by
      rw [Command.selected, Command.selected, h.versionCount]
    refine ⟨h.versions, (versionCount_cacheVersionCount s.engine).trans h.versionCount, ?_,
      fun _ => h.versions ▸ hversion⟩
    simp [selectedVersion, Command.selection, hselected]
  | backup hbackup =>
    obtain ⟨hversions, hcached, -⟩ := BackupEngine.performBackup_eq_ok hbackup
    exact h.concat rfl hversions (BackupEngine.versionCount_of_cached hversions (.inr hcached))
  | restored hrestore =>
    obtain ⟨_, _, _, _, -, -, -, -, rfl⟩ := restoreBackup_eq_ok hrestore
    exact h.concat rfl rfl rfl

lemma Reached.numbered (h : Reached l arguments steps p) :
    match lastOpening (steps.map Step.run) with
    | none => p.backupSystem = none
    | some o => ∃ dir engine s, Open l Numbered o p dir engine s :=
  h.induction (fun _ _ _ hnew => .of_new hnew) fun _ _ _ _ _ _ _ _ hs hact => hs.acts hact

/-- The archive of a version that is read: the version was there when its target was opened last,
and is the one that has been selected since, or else the newest. -/
structure ReadKnown (l : Locale) (o : Opening) (targetLocation : Str) (version : Int) : Prop where
  targetLocation : targetLocation = o.targetLocation
  known : ∃ dir engine, o.machine.target o.targetLocation = some dir ∧
    BackupEngine.new l.culture o.targetLocation dir = .ok engine ∧ version ∈ engine.versions ∧
    version = selectedVersion engine o.since

lemma not_mem_shown {event : ConsoleEvent} (hevent : ∀ d, event ≠ .display d) (d : Display) :
    event ∉ p.shown d := by
  rw [LineProcessor.shown]
  split_ifs
  · simpa using hevent d
  · simp

/-- Only case is ignored. -/
def plainLocale : Locale := ⟨.ordinal, .byKey fun name => name.map Char.toLower⟩

/-- A machine with one file, where every target path leads to the same directory. -/
def scriptMachine (dir : TargetDirectory) : Machine where
  listSort := .insertion
  fs := (fileBackup []).env.fs
  hash := (fileBackup []).env.hash
  shadows := []
  startTime := 0
  writeError := none
  target _ := some dir
  restoreEnv := plainMachine
  restoreFuel := 10
  disk := emptyDrive

def linesOf (dir : TargetDirectory) (lines : List (List String)) : List (Machine × List Str) :=
  lines.map fun line => (scriptMachine dir, line.map String.toList)

/-- Two versions of the file. -/
def twoVersionsDirectory : TargetDirectory :=
  [(getVersionName 0, some fileArchive), (getVersionName 1, some fileArchive)]

/-- The first version is selected, and a third one is made before the dependencies are shown. -/
def selectingLines : List (Machine × List Str) :=
  linesOf twoVersionsDirectory [["open", "T"], ["set", "use_snapshots", "false"],
    ["select", "version", "-2"], ["backup"], ["show", "dependencies"]]

end BackupProgram
