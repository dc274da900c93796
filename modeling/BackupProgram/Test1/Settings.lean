import BackupProgram.Test1.Scripts

/-!
# Settings

What is to be backed up is set by commands one after the other. What an open system takes as a source,
ignores and compares is said by the commands since it was opened.
-/

namespace BackupProgram

namespace Command

def source : Command → Option Str
  | add source => some source
  | _ => none

def ignoredExtension : Command → Option Str
  | excludeExtension extension => some extension
  | _ => none

def ignoredPath : Command → Option Str
  | excludePath path => some (StringUtils.normalizePath path)
  | _ => none

def ignoredName : Command → Option (Str × NameIgnoreType)
  | excludeName type name => some (name, type)
  | _ => none

def snapshots : Command → Option Bool
  | useSnapshots b => some b
  | _ => none

def criterium : Command → Option BackupSystem.ChangeCriterium
  | changeCriterium c => some c
  | _ => none

end Command

/-! ### Ignored objects -/

/-- The types of objects that a name is ignored for. -/
def NameIgnoreType.covers (type : NameIgnoreType) (fso : FileSystemObject) : Bool :=
  if fso.isDirectoryish then type.hasDirectory else type.hasFile

/-- Why commands make an object be ignored: for its name, where the last command about an equal name
counts, or for its extension or path. -/
inductive Ignored (l : Locale) (cs : List Command) (o : PathedObject) : Prop
  | name {before after : List (Str × NameIgnoreType)} {name : Str} {type : NameIgnoreType}
      (hnames : cs.filterMap Command.ignoredName = before ++ (name, type) :: after)
      (hname : l.invariantCulture.equals name o.2.name = true)
      (hlast : ∀ later ∈ after, l.invariantCulture.equals later.1 o.2.name = false)
      (hcovers : type.covers o.2 = true) : Ignored l cs o
  | extension {extension : Str} (hextension : .excludeExtension extension ∈ cs)
      (hequal : l.invariantCulture.equals extension (getExtension o.2.name) = true)
      (hfile : o.2.isDirectoryish = false) : Ignored l cs o
  | path {path : Str} (hpath : .excludePath path ∈ cs)
      (hequal :
        l.invariantCulture.equals (StringUtils.normalizePath path) o.1.unmappedPath = true) :
      Ignored l cs o

variable {l : Locale} {arguments : List Str} {m : Machine} {p : LineProcessor} {c : Command}
  {cs : List Command} {events : List ConsoleEvent} {s s' : BackupSystem} {o : PathedObject}

/-- The collections of a system, as the commands have filled them. -/
structure Collected (l : Locale) (cs : List Command) (s : BackupSystem) : Prop where
  sources : s.sources = cs.filterMap Command.source
  ignoredExtensions :
    s.ignoredExtensions = (cs.filterMap Command.ignoredExtension).foldl l.invariantCulture.add []
  ignoredPaths :
    s.ignoredPaths = (cs.filterMap Command.ignoredPath).foldl l.invariantCulture.add []
  ignoredNames : s.ignoredNames = (cs.filterMap Command.ignoredName).foldl
    (fun names kv => l.invariantCulture.put names kv.1 kv.2) []
  useSnapshots : s.useSnapshots = ((cs.filterMap Command.snapshots).getLast?).getD true
  globalChangeCriterium :
    s.globalChangeCriterium = ((cs.filterMap Command.criterium).getLast?).getD .hash

lemma Collected.new (l : Locale) (t : Str) (engine : BackupEngine) :
    Collected l [] (.new t engine) := ⟨rfl, rfl, rfl, rfl, rfl, rfl⟩

/-- What a command adds to what those before it have said. -/
lemma filterMap_concat {α : Type} (f : Command → Option α) :
    (cs ++ [c]).filterMap f = cs.filterMap f ++ (f c).toList := by
  rw [List.filterMap_append]
  cases hc : f c with
  | none => rw [List.filterMap_cons_none hc]; rfl
  | some a => rw [List.filterMap_cons_some hc]; rfl

/-- Every command that sets something up sets what its kind of commands sets. -/
lemma Collected.configured (h : Collected l cs s) (hconfigure : c.configure l s = some s') :
    Collected l (cs ++ [c]) s' := by
  obtain ⟨h1, h2, h3, h4, h5, h6⟩ := h
  constructor
  all_goals
    rw [filterMap_concat]
    cases c <;> simp only [Command.configure, Option.some.injEq, reduceCtorEq] at hconfigure
    all_goals
      subst hconfigure
      simp only [Command.source, Command.ignoredExtension, Command.ignoredPath,
        Command.ignoredName, Command.snapshots, Command.criterium, Option.toList_none,
        Option.toList_some, List.append_nil, List.foldl_append, List.foldl_cons, List.foldl_nil,
        List.getLast?_concat, Option.getD_some, h1, h2, h3, h4, h5, h6]

/-- Other commands leave the settings as they are. -/
lemma Collected.concat (h : Collected l cs s) (hc : c.configure l s = none)
    (engine : BackupEngine) : Collected l (cs ++ [c]) { s with engine := engine } := by
  obtain ⟨h1, h2, h3, h4, h5, h6⟩ := h
  constructor
  all_goals
    rw [filterMap_concat]
    cases c <;> simp only [Command.configure, reduceCtorEq] at hc
    all_goals
      simp only [Command.source, Command.ignoredExtension, Command.ignoredPath,
        Command.ignoredName, Command.snapshots, Command.criterium, Option.toList_none,
        List.append_nil, h1, h2, h3, h4, h5, h6]

lemma Collected.acts (h : Collected l cs s) {v v' : Int} (hact : Acts l m s v c s' v') :
    Collected l (cs ++ [c]) s' := by
  cases hact with
  | idle hidle =>
    refine h.concat ?_ _
    cases c <;> simp [Command.isIdle, Command.configure] at hidle ⊢
  | configured hconfigure => exact h.configured hconfigure
  | selected => exact h.concat rfl _
  | backup => exact h.concat rfl _
  | restored => exact h.concat rfl _

lemma Reached.collected {steps : List Step} (h : Reached l arguments steps p) :
    match lastOpening (steps.map Step.run) with
    | none => p.backupSystem = none
    | some o => ∃ dir engine s,
        Open l (fun _ since s _ => Collected l (since.map Prod.snd) s) o p dir engine s := by
  refine h.induction (fun _ _ _ _ => .new l _ _) fun _ _ _ _ _ _ _ _ hs hact => ?_
  rw [List.map_append, List.map_singleton]
  exact hs.acts hact

/-! ### Backup modes -/

/-- The last element that has a property. -/
lemma getLast?_filter_eq_some {α : Type} {f : α → Bool} {as : List α} {a : α} :
    (as.filter f).getLast? = some a ↔
      ∃ before after, as = before ++ a :: after ∧ f a = true ∧ ∀ b ∈ after, f b = false := by
  rw [List.getLast?_eq_head?_reverse, ← List.filter_reverse, List.head?_filter,
    List.find?_eq_some_iff_append]
  constructor
  · rintro ⟨ha, before, after, hsplit, hbefore⟩
    refine ⟨after.reverse, before.reverse, ?_, ha, fun b hb => ?_⟩
    · rw [← List.reverse_reverse as, hsplit]
      simp
    · simpa using hbefore b (List.mem_reverse.mp hb)
  · rintro ⟨before, after, rfl, ha, hafter⟩
    refine ⟨ha, after.reverse, before.reverse, by simp, fun b hb => ?_⟩
    rw [hafter b (List.mem_reverse.mp hb)]
    rfl

lemma contains_foldl_add_iff {key : Str} {f : Command → Option Str} :
    l.invariantCulture.contains ((cs.filterMap f).foldl l.invariantCulture.add []) key = true ↔
      ∃ a, (∃ c ∈ cs, f c = some a) ∧ l.invariantCulture.equals a key = true := by
  rw [Comparer.contains_foldl_add, Comparer.contains, Comparer.contains]
  simp only [List.any_nil, Bool.false_or, List.any_eq_true, List.mem_filterMap]

/-- The value of a name is that of the last command about an equal one. -/
lemma get?_foldl_put_iff {name : Str} {type : NameIgnoreType} :
    l.invariantCulture.get? ((cs.filterMap Command.ignoredName).foldl
        (fun names kv => l.invariantCulture.put names kv.1 kv.2) []) name = some type ↔
      ∃ before name' after, cs.filterMap Command.ignoredName = before ++ (name', type) :: after ∧
        l.invariantCulture.equals name' name = true ∧
        ∀ later ∈ after, l.invariantCulture.equals later.1 name = false := by
  rw [Comparer.get?_foldl_put]
  simp only [Comparer.get?, List.find?_nil, Option.map_none, Option.or_none, Option.map_eq_some_iff,
    getLast?_filter_eq_some, Prod.exists]
  constructor
  · rintro ⟨name', _, ⟨before, after, hsplit, hname, hafter⟩, rfl⟩
    exact ⟨before, name', after, hsplit, hname, hafter⟩
  · rintro ⟨before, name', after, hsplit, hname, hafter⟩
    exact ⟨name', type, ⟨before, after, hsplit, hname, hafter⟩, rfl⟩

/-- The name of an object is ignored for objects like this one. -/
lemma covered_iff :
    ((l.invariantCulture.get? s.ignoredNames o.2.name).isSome = true ∧
      (((l.invariantCulture.get? s.ignoredNames o.2.name).getD .none).hasFile = true ∧
          o.2.isDirectoryish = false ∨
        ((l.invariantCulture.get? s.ignoredNames o.2.name).getD .none).hasDirectory = true ∧
          o.2.isDirectoryish = true)) ↔
      ∃ type, l.invariantCulture.get? s.ignoredNames o.2.name = some type ∧
        type.covers o.2 = true := by
  rcases l.invariantCulture.get? s.ignoredNames o.2.name with _ | type
  · simp
  · simp only [Option.isSome_some, Option.getD_some, true_and, Option.some.injEq,
      exists_eq_left', NameIgnoreType.covers]
    cases o.2.isDirectoryish <;> simp

/-- What is not backed up is what the commands say. -/
lemma Collected.ignored_iff (h : Collected l cs s) :
    ((∃ type, l.invariantCulture.get? s.ignoredNames o.2.name = some type ∧
        type.covers o.2 = true) ∨
      l.invariantCulture.contains s.ignoredExtensions (getExtension o.2.name) = true ∧
        o.2.isDirectoryish = false ∨
      l.invariantCulture.contains s.ignoredPaths o.1.unmappedPath = true) ↔ Ignored l cs o := by
  rw [h.ignoredNames, h.ignoredExtensions, h.ignoredPaths]
  simp only [get?_foldl_put_iff, contains_foldl_add_iff]
  constructor
  · rintro (⟨type, ⟨before, name, after, hsplit, hname, hafter⟩, hcovers⟩ |
      ⟨⟨extension, ⟨c, hc, hextension⟩, hequal⟩, hfile⟩ | ⟨path, ⟨c, hc, hpath⟩, hequal⟩)
    · exact .name hsplit hname hafter hcovers
    · cases c <;> simp only [Command.ignoredExtension, Option.some.injEq, reduceCtorEq]
        at hextension
      subst hextension
      exact .extension hc hequal hfile
    · cases c <;> simp only [Command.ignoredPath, Option.some.injEq, reduceCtorEq] at hpath
      subst hpath
      exact .path hc hequal
  · rintro (⟨hsplit, hname, hafter, hcovers⟩ | ⟨hextension, hequal, hfile⟩ | ⟨hpath, hequal⟩)
    · exact .inl ⟨_, ⟨_, _, _, hsplit, hname, hafter⟩, hcovers⟩
    · exact .inr (.inl ⟨⟨_, ⟨_, hextension, rfl⟩, hequal⟩, hfile⟩)
    · exact .inr (.inr ⟨_, ⟨_, hpath, rfl⟩, hequal⟩)

/-- What a system is set to by commands. -/
structure ConfiguredBy (l : Locale) (cs : List Command) (s : BackupSystem) : Prop where
  sources : s.sources = cs.filterMap Command.source
  useSnapshots : s.useSnapshots = ((cs.filterMap Command.snapshots).getLast?).getD true
  globalChangeCriterium :
    s.globalChangeCriterium = ((cs.filterMap Command.criterium).getLast?).getD .hash
  ignored : ∀ o, Ignored l cs o → s.getBackupModeForObject l o = (.noBackup, false)
  notIgnored : ∀ o, ¬ Ignored l cs o →
    s.getBackupModeForObject l o = (if o.2.isDirectoryish then .directory else .full, false)

lemma Collected.configuredBy (h : Collected l cs s) : ConfiguredBy l cs s := by
  refine ⟨h.sources, h.useSnapshots, h.globalChangeCriterium, fun o ho => ?_, fun o ho => ?_⟩
  · rw [← h.ignored_iff, ← covered_iff] at ho
    rw [BackupSystem.getBackupModeForObject]
    simp only [Bool.and_eq_true, Bool.or_eq_true, Bool.not_eq_true']
    rcases ho with hname | hother
    · rw [if_pos hname]
    · rw [if_pos hother, ite_self]
  · rw [← h.ignored_iff, ← covered_iff, not_or] at ho
    rw [BackupSystem.getBackupModeForObject]
    simp only [Bool.and_eq_true, Bool.or_eq_true, Bool.not_eq_true']
    rw [if_neg ho.1, if_neg ho.2]

/-- After every script, the open system has the settings of the commands since it was opened. -/
theorem configuredBy_of_process {lines : List (Machine × List Str)}
    (h : (LineProcessor.new l arguments).process l lines = .ok (p, events)) :
    ∃ cs, script l arguments lines = some cs ∧
      match lastOpening cs with
      | none => p.backupSystem = none
      | some o => ∃ s, p.backupSystem = some s ∧ ConfiguredBy l (o.since.map Prod.snd) s := by
  obtain ⟨steps, hsteps⟩ := exists_stepsOf h
  refine ⟨_, hsteps.script, ?_⟩
  have hcollected := hsteps.reached.collected
  rcases hopening : lastOpening (steps.map Step.run) with _ | o
  · rw [hopening] at hcollected
    exact hcollected
  · rw [hopening] at hcollected
    obtain ⟨dir, engine, s, hopen⟩ := hcollected
    exact ⟨s, hopen.system, hopen.property.configuredBy⟩

theorem configuredBy_script : ∃ p events cs,
    (LineProcessor.new plainLocale []).process plainLocale
      (linesOf [] [["open", "T"], ["add", "C:\\d"], ["exclude", "name", "files", "F"]]) =
        .ok (p, events) ∧
    script plainLocale []
      (linesOf [] [["open", "T"], ["add", "C:\\d"], ["exclude", "name", "files", "F"]]) = some cs ∧
    match lastOpening cs with
    | none => p.backupSystem = none
    | some o =>
      ∃ s, p.backupSystem = some s ∧ ConfiguredBy plainLocale (o.since.map Prod.snd) s := by
  have hrun : ∃ p events, (LineProcessor.new plainLocale []).process plainLocale
      (linesOf [] [["open", "T"], ["add", "C:\\d"], ["exclude", "name", "files", "F"]]) =
        .ok (p, events) := ⟨_, _, rfl⟩
  obtain ⟨p, events, hrun⟩ := hrun
  obtain ⟨cs, hscript, hconfigured⟩ := configuredBy_of_process hrun
  exact ⟨p, events, cs, hrun, hscript, hconfigured⟩

end BackupProgram
