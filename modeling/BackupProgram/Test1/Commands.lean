import BackupProgram.Engine.VersionNumbers
import BackupProgram.Test1.LineProcessor

/-!
# Commands

A line that does not end the program by an exception stands for a command. `Ran` says what each
command does; a script is the list of its commands, without those behind an `if` that does not apply
and those after `quit`.
-/

namespace BackupProgram

open Results

inductive Command where
  | nothing
  | openTarget (targetLocation : Str)
  | add (source : Str)
  | excludeExtension (extension : Str)
  | excludePath (path : Str)
  | excludeName (type : NameIgnoreType) (name : Str)
  | useSnapshots (b : Bool)
  | changeCriterium (c : BackupSystem.ChangeCriterium)
  | backup
  | restore
  | selectVersion (versionNumber : Int)
  | showDependencies
  | showVersions
  | showVersionCount
  | showPaths

namespace Command

/-! ### Parsing -/

section Parse

variable (l : Locale)

def parseExclude (words : List Str) : Option Command := do
  let what ← words[1]?
  match LineProcessor.keyword l what with
  | "extension" => words[2]?.map .excludeExtension
  | "path" => words[2]?.map .excludePath
  | "name" =>
    let type ← words[2]?
    match LineProcessor.keyword l type with
    | "files" => words[3]?.map (.excludeName .file)
    | "dirs" => words[3]?.map (.excludeName .directory)
    | "all" => words[3]?.map (.excludeName .all)
    | _ => return .nothing
  | _ => return .nothing

def parseSet (words : List Str) : Option Command := do
  let what ← words[1]?
  match LineProcessor.keyword l what with
  | "use_snapshots" =>
    let value ← words[2]?
    match LineProcessor.keyword l value with
    | "true" => return .useSnapshots true
    | "false" => return .useSnapshots false
    | _ => return .nothing
  | "change_criterium" =>
    let value ← words[2]?
    match LineProcessor.keyword l value with
    | "archive_flag" => return .changeCriterium .archiveFlag
    | "size" => return .changeCriterium .size
    | "date" => return .changeCriterium .date
    | "hash" => return .changeCriterium .hash
    | "hash_auto" => return .changeCriterium .hashAuto
    | _ => return .nothing
  | _ => return .nothing

def parseSelect (words : List Str) : Option Command := do
  let what ← words[1]?
  match LineProcessor.keyword l what with
  | "version" =>
    let argument ← words[2]?
    match convertToInt32 argument with
    | .ok versionNumber => return .selectVersion versionNumber
    | .error _ => none
  | _ => return .nothing

def parseShow (words : List Str) : Option Command := do
  let what ← words[1]?
  match LineProcessor.keyword l what with
  | "dependencies" => return .showDependencies
  | "versions" => return .showVersions
  | "version_count" => return .showVersionCount
  | "paths" => return .showPaths
  | _ => return .nothing

/-- The command of a line, given the arguments of the program. -/
def parse (arguments : List Str) : List Str → Option Command
  | [] => none
  | command :: words =>
    match LineProcessor.keyword l command with
    | "open" => words[0]?.map .openTarget
    | "add" => words[0]?.map .add
    | "exclude" => parseExclude l (command :: words)
    | "backup" => some .backup
    | "restore" => some .restore
    | "select" => parseSelect l (command :: words)
    | "show" => parseShow l (command :: words)
    | "if" =>
      match words with
      | [] => none
      | argument :: words =>
        if arguments.any (l.culture.equalsIgnoreCase argument) then parse arguments words
        else some .nothing
    | "set" => parseSet l (command :: words)
    | _ => some .nothing

end Parse

/-! ### Running -/

/-- The commands that set up what is to be backed up, and how. -/
def configure (l : Locale) (s : BackupSystem) : Command → Option BackupSystem
  | add source => some { s with sources := s.sources ++ [source] }
  | excludeExtension extension =>
    some { s with ignoredExtensions := l.invariantCulture.add s.ignoredExtensions extension }
  | excludePath path =>
    some { s with ignoredPaths :=
      l.invariantCulture.add s.ignoredPaths (StringUtils.normalizePath path) }
  | excludeName type name =>
    some { s with ignoredNames := l.invariantCulture.put s.ignoredNames name type }
  | useSnapshots b => some { s with useSnapshots := b }
  | changeCriterium c => some { s with globalChangeCriterium := c }
  | _ => none

/-- The version that is selected with a number; negative ones count from the end. -/
def selected (e : BackupEngine) (versionNumber : Int) : Int :=
  if versionNumber < 0 then toInt32 (e.versionCount + versionNumber) else versionNumber

end Command

open Command

/-- What a command does to the processor, and its events. -/
inductive Ran (l : Locale) (m : Machine) (p : LineProcessor) :
    Command → LineProcessor → List ConsoleEvent → Prop
  | nothing : Ran l m p .nothing p []
  | opened {targetLocation : Str} {dir : TargetDirectory} {engine : BackupEngine}
      (htarget : m.target targetLocation = some dir)
      (hnew : BackupEngine.new l.culture targetLocation dir = .ok engine) :
      Ran l m p (.openTarget targetLocation)
        { p with
          backupSystem := some (BackupSystem.new targetLocation engine.cacheVersionCount)
          selectedVersion := toInt32 (engine.versionCount - 1) } []
  | configured {c : Command} {s s' : BackupSystem} (hs : p.backupSystem = some s)
      (hconfigure : c.configure l s = some s') : Ran l m p c (p.setSystem s') []
  | backup {s : BackupSystem} {engine : BackupEngine} {dir : TargetDirectory}
      (hs : p.backupSystem = some s)
      (hbackup : s.engine.performBackup (s.backupCall l m) (s.targetDirectory m) =
        .ok (engine, dir)) :
      Ran l m p .backup (p.setSystem { s with engine := engine }) [.backup s.targetLocation dir]
  | restored {s : BackupSystem} {engine : BackupEngine} {disk : Disk}
      (hs : p.backupSystem = some s)
      (hrestore : restoreBackup m.restoreEnv (s.targetDirectory m).archiveFiles m.restoreFuel
        s.engine m.disk = some (.ok engine disk)) :
      Ran l m p .restore (p.setSystem { s with engine := engine }) [.restore disk]
  | selected {s : BackupSystem} {n : Int} (hs : p.backupSystem = some s)
      (hversion : selected s.engine n ∈ s.engine.versions) :
      Ran l m p (.selectVersion n)
        { p.setSystem { s with engine := s.engine.cacheVersionCount } with
          selectedVersion := selected s.engine n }
        (p.shown (.selectedVersion (selected s.engine n)))
  | read {c : Command} {s : BackupSystem} {d : Display}
      (hc : c = .showDependencies ∨ c = .showPaths) (hs : p.backupSystem = some s)
      (hcount : s.engine.versionCount ≠ 0) :
      Ran l m p c (p.setSystem { s with engine := s.engine.cacheVersionCount })
        (.read s.targetLocation p.selectedVersion :: p.shown d)
  | silent {c : Command} (hc : c = .showVersions ∨ c = .showVersionCount)
      (hmode : p.operationMode ≠ .user) : Ran l m p c p []
  | showVersions {s : BackupSystem} (hs : p.backupSystem = some s) :
      Ran l m p .showVersions p (p.shown (.versions s.engine.versions))
  | showVersionCount {s : BackupSystem} {d : Display} (hs : p.backupSystem = some s) :
      Ran l m p .showVersionCount (p.setSystem { s with engine := s.engine.cacheVersionCount })
        (p.shown d)

/-! ### Lines are commands -/

namespace LineProcessor

variable {l : Locale} {m : Machine} {p p' : LineProcessor} {words : List Str}
  {events : List ConsoleEvent}

@[simp] lemma argumentAt_eq_ok {i : Nat} {argument : Str} :
    argumentAt words i = .ok argument ↔ words[i]? = some argument := by
  rw [argumentAt]
  cases words[i]? with
  | none => simp
  | some a => simp

@[simp] lemma system_eq_ok {s : BackupSystem} : p.system = .ok s ↔ p.backupSystem = some s := by
  rw [system]
  cases p.backupSystem with
  | none => simp
  | some s' => simp

@[simp] lemma ofEngine_eq_ok {α : Type} {x : Except EngineError α} {a : α} :
    ofEngine x = .ok a ↔ x = .ok a := by
  cases x with
  | error e => simp [ofEngine]
  | ok b => simp [ofEngine]

lemma ensureExistingBackup_eq_ok {s : BackupSystem} (h : p.ensureExistingBackup = .ok s) :
    ∃ s0, p.backupSystem = some s0 ∧ s0.engine.versionCount ≠ 0 ∧
      s = { s0 with engine := s0.engine.cacheVersionCount } := by
  rw [ensureExistingBackup] at h
  rcases hs : p.backupSystem with _ | s0
  · rw [hs] at h
    simp at h
  · rw [hs] at h
    simp only at h
    split_ifs at h with hcount
    rw [pure_eq_ok] at h
    exact ⟨s0, rfl, hcount, h.symm⟩

lemma ran_of_processOpen (h : processOpen l m p words = .ok (p', events)) :
    ∃ c, words[1]?.map .openTarget = some c ∧ Ran l m p c p' events := by
  simp only [processOpen, bind_eq_ok, argumentAt_eq_ok] at h
  obtain ⟨targetLocation, hword, h⟩ := h
  rcases htarget : m.target targetLocation with _ | dir
  · rw [htarget] at h
    simp at h
  · rw [htarget] at h
    simp only [bind_eq_ok, ofEngine_eq_ok, pure_eq_ok, Prod.mk.injEq] at h
    obtain ⟨engine, hnew, rfl, rfl⟩ := h
    exact ⟨_, by rw [hword, Option.map_some], .opened htarget hnew⟩

lemma ran_of_processAdd (h : p.processAdd words = .ok (p', events)) :
    ∃ c, words[1]?.map .add = some c ∧ Ran l m p c p' events := by
  simp only [processAdd, bind_eq_ok, argumentAt_eq_ok, system_eq_ok, pure_eq_ok, Prod.mk.injEq] at h
  obtain ⟨s, hs, source, hword, rfl, rfl⟩ := h
  exact ⟨_, by rw [hword, Option.map_some], .configured hs rfl⟩

/-- One of the commands that exclude a name. -/
lemma ran_of_processExcludeNameAs {type : NameIgnoreType}
    (h : processExcludeNameAs l type p words = .ok (p', events)) :
    ∃ c, words[3]?.map (.excludeName type) = some c ∧ Ran l m p c p' events := by
  simp only [processExcludeNameAs, bind_eq_ok, argumentAt_eq_ok, system_eq_ok, pure_eq_ok,
    Prod.mk.injEq] at h
  obtain ⟨s, hs, name, hword, rfl, rfl⟩ := h
  exact ⟨_, by rw [hword, Option.map_some], .configured hs rfl⟩

lemma ran_of_processExclude (h : processExclude l p words = .ok (p', events)) :
    ∃ c, parseExclude l words = some c ∧ Ran l m p c p' events := by
  simp only [processExclude, bind_eq_ok, argumentAt_eq_ok] at h
  obtain ⟨what, hwhat, h⟩ := h
  simp only [parseExclude, hwhat, Option.bind_eq_bind, Option.bind_some]
  generalize keyword l what = k at h ⊢
  split at h
  · simp only [processExcludeExtension, bind_eq_ok, argumentAt_eq_ok, system_eq_ok, pure_eq_ok,
      Prod.mk.injEq] at h
    obtain ⟨s, hs, extension, hword, rfl, rfl⟩ := h
    exact ⟨.excludeExtension extension, by rw [hword]; rfl, .configured hs rfl⟩
  · simp only [processExcludePath, bind_eq_ok, argumentAt_eq_ok, system_eq_ok, pure_eq_ok,
      Prod.mk.injEq] at h
    obtain ⟨s, hs, path, hword, rfl, rfl⟩ := h
    exact ⟨.excludePath path, by rw [hword]; rfl, .configured hs rfl⟩
  · simp only [processExcludeName, bind_eq_ok, argumentAt_eq_ok] at h
    obtain ⟨type, htype, h⟩ := h
    simp only [htype, Option.bind_some]
    generalize keyword l type = k' at h ⊢
    split at h
    · exact ran_of_processExcludeNameAs h
    · exact ran_of_processExcludeNameAs h
    · exact ran_of_processExcludeNameAs h
    · simp only [pure_eq_ok, Prod.mk.injEq] at h
      obtain ⟨rfl, rfl⟩ := h
      exact ⟨.nothing, by simp [*], .nothing⟩
  · simp only [pure_eq_ok, Prod.mk.injEq] at h
    obtain ⟨rfl, rfl⟩ := h
    exact ⟨.nothing, by simp [*], .nothing⟩

/-- One of the settings that take a value out of a few. -/
lemma ran_of_system {c : Command} {f : BackupSystem → BackupSystem}
    (hconfigure : ∀ s, c.configure l s = some (f s))
    (h : (do let s ← p.system; return (p.setSystem (f s), []) : Processed) = .ok (p', events)) :
    Ran l m p c p' events := by
  simp only [bind_eq_ok, system_eq_ok, pure_eq_ok, Prod.mk.injEq] at h
  obtain ⟨s, hs, rfl, rfl⟩ := h
  exact .configured hs (hconfigure s)

lemma ran_of_processSet (h : processSet l p words = .ok (p', events)) :
    ∃ c, parseSet l words = some c ∧ Ran l m p c p' events := by
  simp only [processSet, bind_eq_ok, argumentAt_eq_ok] at h
  obtain ⟨what, hwhat, h⟩ := h
  simp only [parseSet, hwhat, Option.bind_eq_bind, Option.bind_some]
  generalize keyword l what = k at h ⊢
  split at h
  · simp only [processSetUseSnapshots, bind_eq_ok, argumentAt_eq_ok] at h
    obtain ⟨value, hvalue, h⟩ := h
    simp only [hvalue, Option.bind_some]
    generalize keyword l value = k' at h ⊢
    split at h
    · exact ⟨.useSnapshots true, rfl, ran_of_system (fun _ => rfl) h⟩
    · exact ⟨.useSnapshots false, rfl, ran_of_system (fun _ => rfl) h⟩
    · simp only [pure_eq_ok, Prod.mk.injEq] at h
      obtain ⟨rfl, rfl⟩ := h
      exact ⟨.nothing, by simp [*], .nothing⟩
  · simp only [processSetChangeCriterium, bind_eq_ok, argumentAt_eq_ok] at h
    obtain ⟨value, hvalue, h⟩ := h
    simp only [hvalue, Option.bind_some]
    generalize keyword l value = k' at h ⊢
    split at h
    · exact ⟨.changeCriterium .archiveFlag, rfl, ran_of_system (fun _ => rfl) h⟩
    · exact ⟨.changeCriterium .size, rfl, ran_of_system (fun _ => rfl) h⟩
    · exact ⟨.changeCriterium .date, rfl, ran_of_system (fun _ => rfl) h⟩
    · exact ⟨.changeCriterium .hash, rfl, ran_of_system (fun _ => rfl) h⟩
    · exact ⟨.changeCriterium .hashAuto, rfl, ran_of_system (fun _ => rfl) h⟩
    · simp only [pure_eq_ok, Prod.mk.injEq] at h
      obtain ⟨rfl, rfl⟩ := h
      exact ⟨.nothing, by simp [*], .nothing⟩
  · simp only [pure_eq_ok, Prod.mk.injEq] at h
    obtain ⟨rfl, rfl⟩ := h
    exact ⟨.nothing, by simp [*], .nothing⟩

lemma ran_of_processSelect (h : processSelect l p words = .ok (p', events)) :
    ∃ c, parseSelect l words = some c ∧ Ran l m p c p' events := by
  simp only [processSelect, bind_eq_ok, argumentAt_eq_ok] at h
  obtain ⟨what, hwhat, h⟩ := h
  simp only [parseSelect, hwhat, Option.bind_eq_bind, Option.bind_some]
  generalize keyword l what = k at h ⊢
  split at h
  · simp only [processSelectVersion, bind_eq_ok, argumentAt_eq_ok] at h
    obtain ⟨argument, hargument, n, hn, s, hensure, h⟩ := h
    obtain ⟨s0, hs, -, rfl⟩ := ensureExistingBackup_eq_ok hensure
    have hcount : s0.engine.cacheVersionCount.versionCount = s0.engine.versionCount :=
      BackupEngine.versionCount_of_cached rfl (.inr rfl)
    have hversion : (if n < 0 then toInt32 (s0.engine.cacheVersionCount.versionCount + n) else n) =
        selected s0.engine n := by
      rw [selected, hcount]
    simp only [hversion] at h
    split_ifs at h with hmem
    simp only [pure_eq_ok, Prod.mk.injEq] at h
    obtain ⟨rfl, rfl⟩ := h
    exact ⟨.selectVersion n, by simp only [hargument, Option.bind_some, hn]; rfl, .selected hs hmem⟩
  · simp only [pure_eq_ok, Prod.mk.injEq] at h
    obtain ⟨rfl, rfl⟩ := h
    exact ⟨.nothing, by simp [*], .nothing⟩

lemma ran_of_processShow (h : processShow l m p words = .ok (p', events)) :
    ∃ c, parseShow l words = some c ∧ Ran l m p c p' events := by
  simp only [processShow, bind_eq_ok, argumentAt_eq_ok] at h
  obtain ⟨what, hwhat, h⟩ := h
  simp only [parseShow, hwhat, Option.bind_eq_bind, Option.bind_some]
  generalize keyword l what = k at h ⊢
  split at h
  · simp only [processShowDependencies, bind_eq_ok, pure_eq_ok, Prod.mk.injEq] at h
    obtain ⟨s, hensure, dependencies, -, rfl, rfl⟩ := h
    obtain ⟨s0, hs, hcount, rfl⟩ := ensureExistingBackup_eq_ok hensure
    exact ⟨.showDependencies, rfl, .read (.inl rfl) hs hcount⟩
  · rw [processShowVersions] at h
    split_ifs at h with hmode
    · simp only [bind_eq_ok, system_eq_ok, pure_eq_ok, Prod.mk.injEq] at h
      obtain ⟨s, hs, rfl, rfl⟩ := h
      exact ⟨.showVersions, rfl, .showVersions hs⟩
    · simp only [pure_eq_ok, Prod.mk.injEq] at h
      obtain ⟨rfl, rfl⟩ := h
      exact ⟨.showVersions, rfl, .silent (.inl rfl) hmode⟩
  · rw [processShowVersionCount] at h
    split_ifs at h with hmode
    · simp only [bind_eq_ok, system_eq_ok, pure_eq_ok, Prod.mk.injEq] at h
      obtain ⟨s, hs, rfl, rfl⟩ := h
      exact ⟨.showVersionCount, rfl, .showVersionCount hs⟩
    · simp only [pure_eq_ok, Prod.mk.injEq] at h
      obtain ⟨rfl, rfl⟩ := h
      exact ⟨.showVersionCount, rfl, .silent (.inr rfl) hmode⟩
  · simp only [processShowPaths, bind_eq_ok, pure_eq_ok, Prod.mk.injEq] at h
    obtain ⟨s, hensure, entries, -, rfl, rfl⟩ := h
    obtain ⟨s0, hs, hcount, rfl⟩ := ensureExistingBackup_eq_ok hensure
    exact ⟨.showPaths, rfl, .read (.inr rfl) hs hcount⟩
  · simp only [pure_eq_ok, Prod.mk.injEq] at h
    obtain ⟨rfl, rfl⟩ := h
    exact ⟨.nothing, by simp [*], .nothing⟩

lemma ran_of_processBackup (h : processBackup l m p = .ok (p', events)) :
    Ran l m p .backup p' events := by
  simp only [processBackup, bind_eq_ok, system_eq_ok, ofEngine_eq_ok, pure_eq_ok,
    Prod.mk.injEq] at h
  obtain ⟨s, hs, ⟨engine, dir⟩, hbackup, rfl, rfl⟩ := h
  exact .backup hs hbackup

lemma ran_of_processRestore (h : processRestore m p = .ok (p', events)) :
    Ran l m p .restore p' events := by
  simp only [processRestore, bind_eq_ok, system_eq_ok] at h
  obtain ⟨s, hs, h⟩ := h
  split at h
  · simp at h
  · simp at h
  · rename_i engine disk hrestore
    simp only [pure_eq_ok, Prod.mk.injEq] at h
    obtain ⟨rfl, rfl⟩ := h
    exact .restored hs hrestore

/-- A line that is processed is a command, and what it does is what the command does. The induction
is on the line: behind an `if` the rest of it is processed. -/
theorem ran_of_processLine (h : processLine l m p words = .ok (p', events)) :
    ∃ c, parse l p.arguments words = some c ∧ Ran l m p c p' events := by
  induction hlength : words.length using Nat.strong_induction_on generalizing words with
  | _ length ih =>
    rcases words with _ | ⟨command, words⟩
    · simp [processLine] at h
    unfold processLine at h
    unfold parse
    generalize keyword l command = k at h ⊢
    split at h
    · exact ran_of_processOpen h
    · exact ran_of_processAdd h
    · exact ran_of_processExclude h
    · exact ⟨.backup, rfl, ran_of_processBackup h⟩
    · exact ⟨.restore, rfl, ran_of_processRestore h⟩
    · exact ran_of_processSelect h
    · exact ran_of_processShow h
    · rcases words with _ | ⟨argument, words⟩
      · simp at h
      · simp only at h ⊢
        split_ifs at h ⊢ with hargument
        · refine ih words.length ?_ h rfl
          rw [← hlength]
          simp only [List.length_cons]
          omega
        · simp only [pure_eq_ok, Prod.mk.injEq] at h
          obtain ⟨rfl, rfl⟩ := h
          exact ⟨.nothing, rfl, .nothing⟩
    · exact ran_of_processSet h
    · simp only [pure_eq_ok, Prod.mk.injEq] at h
      obtain ⟨rfl, rfl⟩ := h
      exact ⟨.nothing, by simp only [*], .nothing⟩

end LineProcessor

end BackupProgram
