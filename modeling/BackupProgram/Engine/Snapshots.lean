import BackupProgram.Engine.Hashes

/-!
# Snapshots

Two engines make the same backups with shadow copies of their own. What they find differs in the
paths under which it has been read, and in the ids that are copied by these paths.
-/

namespace BackupProgram

open Results StringUtils

/-! ### What does not depend on the snapshot -/

/-- The object without the place where it is read and without the id. -/
def FileSystemObject.unmapped (fso : FileSystemObject) : FileSystemObject :=
  { fso with mappedBasePath := [], streamUniqueId := 0 }

/-- What is seen of an object when it is not known where it is read. -/
def seen (o : PathedObject) : Str × FileSystemObject := (o.1.unmappedPath, o.2.unmapped)

/-- Elements are arranged by their keys and nothing else. -/
def ListSort.Natural (listSort : ListSort) : Prop :=
  ∀ {α β : Type} (f : α → β) (key : β → Nat) (as : List α),
    (listSort.sortBy (key ∘ f) as).map f = listSort.sortBy key (as.map f)

lemma ListSort.natural_insertion : insertion.Natural := by
  intro α β f key as
  exact List.map_insertionSort (fun a b => key (f a) ≤ key (f b)) (fun a b => key a ≤ key b) f as
    fun _ _ _ _ => Iff.rfl

namespace FileSystemTree

/-- The trees have the same objects, apart from where these are read. -/
def SameSeen (ts ts' : List FileSystemTree) : Prop :=
  ts.map (RoseTree.map FileSystemObject.unmapped) = ts'.map (RoseTree.map FileSystemObject.unmapped)

lemma map_seen_iterate (t : FileSystemTree) :
    t.iterate.map seen =
      (FileSystemTree.iterate (t.map FileSystemObject.unmapped)).map seen := by
  let child : Str → FileSystemObject → Str := fun path fso => appendName path fso.name
  have hchildren : ∀ (paths : ObjectPaths) (forest : Forest FileSystemObject),
      (forest.inherit ObjectPaths.child paths).toList.map seen =
        ((forest.map FileSystemObject.unmapped).inherit child paths.unmappedPath).toList := by
    intro paths forest
    induction forest generalizing paths with
    | nil => rfl
    | cons fso children siblings ihc ihs =>
      simp only [Forest.inherit, Forest.map, Forest.toList, List.map_cons, List.map_append,
        ihc, ihs]
      rfl
  have hidem : ∀ forest : Forest FileSystemObject,
      (forest.map FileSystemObject.unmapped).map FileSystemObject.unmapped =
        forest.map FileSystemObject.unmapped := by
    intro forest
    rw [Forest.map_map]
    rfl
  simp only [iterate, pathed, RoseTree.inherit, RoseTree.toList, RoseTree.map, List.map_cons,
    hchildren, hidem]
  rfl

lemma SameSeen.map_seen {ts ts' : List FileSystemTree} (h : SameSeen ts ts') :
    (ts.flatMap iterate).map seen = (ts'.flatMap iterate).map seen := by
  have hflat : ∀ ts : List FileSystemTree, (ts.flatMap iterate).map seen =
      (ts.map (RoseTree.map FileSystemObject.unmapped)).flatMap
        fun t => (FileSystemTree.iterate t).map seen := by
    intro ts
    rw [List.map_flatMap, List.flatMap_map]
    exact List.flatMap_congr fun t _ => map_seen_iterate t
  rw [hflat, hflat, h]

end FileSystemTree

/-! ### Creating the objects -/

namespace FileSystemObject

/-- The object with the file ID that has been obtained. -/
def withGuid (guid : GuidResult) (retry : Bool) (fso : FileSystemObject) : FileSystemObject :=
  match guid, retry with
  | .found guid, _ => { fso with fileSystemGuid := some guid }
  | .unableToObtainGuid, true => { fso with guidEnqueued := true }
  | _, _ => { fso with fileSystemGuid := none }

/-- The members that come from the operating system, when all errors are ignored. -/
def filled (e : Entry) (fso : FileSystemObject) : FileSystemObject :=
  let fso := { fso with
    archiveFlag := e.archiveFlag.getD true
    modificationTime := e.lastWriteTime.getD 0 }
  let members : FileSystemObject := withGuid e.guid true { fso with size := e.size.getD 0 }
  match fso.type with
  | .directory | .fileReparsePoint => fso
  | .directorySymlink | .junction => { fso with target := e.reparsePointTarget }
  | .regularFile | .fileHardlink => members
  | .fileSymlink => { members with target := e.reparsePointTarget }

variable {settings : Settings}

lemma reported_eq_ok {α : Type} {path : Str} {default a : α} {x : Option α}
    (h : reported settings path default x = .ok a) : a = x.getD default := by
  cases x with
  | none =>
    simp only [reported, ite_throw_eq_ok, pure_eq_ok] at h
    exact h.2.symm
  | some a' =>
    simp only [reported, pure_eq_ok] at h
    exact h.symm

lemma setFileSystemGuid_eq_withGuid {path : Str} {retry : Bool} {guid : GuidResult}
    {fso fso' : FileSystemObject} (h : setFileSystemGuid settings path retry guid fso = .ok fso') :
    fso' = withGuid guid retry fso := by
  cases guid with
  | found guid =>
    simp only [setFileSystemGuid, pure_eq_ok] at h
    exact h.symm
  | unableToObtainGuid =>
    cases retry with
    | true =>
      simp only [setFileSystemGuid, pure_eq_ok] at h
      exact h.symm
    | false =>
      simp only [setFileSystemGuid, bind_eq_ok, pure_eq_ok] at h
      obtain ⟨-, -, rfl⟩ := h
      rfl
  | failed =>
    cases retry <;>
    · simp only [setFileSystemGuid, bind_eq_ok, pure_eq_ok] at h
      obtain ⟨-, -, rfl⟩ := h
      rfl

/-- A constructor fills in what the operating system reports, and the backup mode. -/
lemma construct_eq_filled {paths : FileSystemObject → ObjectPaths} {path : Str} {e : Entry}
    {fso fso' : FileSystemObject} (h : construct settings paths path e fso = .ok fso') :
    fso' = { filled e fso with
      backupMode := (settings.getBackupModeForObject (paths (filled e fso), filled e fso)).1 } := by
  have hmode : ∀ f, setBackupMode settings (paths f, f) = .ok fso' →
      fso' = { f with backupMode := (settings.getBackupModeForObject (paths f, f)).1 } := by
    intro f hf
    simp only [setBackupMode] at hf
    split at hf
    · simp at hf
    · rw [pure_eq_ok] at hf
      exact hf.symm
  simp only [construct, bind_eq_ok] at h
  obtain ⟨fso1, hattributes, h⟩ := h
  simp only [setFileAttributes, bind_eq_ok, pure_eq_ok] at hattributes
  obtain ⟨archiveFlag, harchive, modificationTime, hmodification, rfl⟩ := hattributes
  obtain rfl := reported_eq_ok harchive
  obtain rfl := reported_eq_ok hmodification
  have htarget : ∀ f f', setTarget settings path e f = .ok f' →
      f' = { f with target := e.reparsePointTarget } := by
    intro f f' hf
    simp only [setTarget, bind_eq_ok, pure_eq_ok] at hf
    obtain ⟨target, htarget, rfl⟩ := hf
    rw [reported_eq_ok htarget]
    cases e.reparsePointTarget <;> rfl
  have hmembers : ∀ f f', setMembers settings path e f = .ok f' →
      f' = withGuid e.guid true { f with size := e.size.getD 0 } := by
    intro f f' hf
    simp only [setMembers, bind_eq_ok] at hf
    obtain ⟨size, hsize, hguid⟩ := hf
    rw [reported_eq_ok hsize] at hguid
    exact setFileSystemGuid_eq_withGuid hguid
  cases htype : fso.type with
  | directory =>
    simp only [htype] at h
    rw [hmode _ h]
    simp only [filled, htype]
  | directorySymlink | junction =>
    simp only [htype, bind_eq_ok] at h
    obtain ⟨fso2, hfso2, h⟩ := h
    rw [hmode _ h, htarget _ _ hfso2]
    simp only [filled, htype]
  | regularFile =>
    simp only [htype, bind_eq_ok] at h
    obtain ⟨fso2, hfso2, h⟩ := h
    rw [hmode _ h, hmembers _ _ hfso2]
    simp only [filled, htype]
  | fileSymlink =>
    simp only [htype, bind_eq_ok] at h
    obtain ⟨fso2, hfso2, fso3, hfso3, h⟩ := h
    rw [hmode _ h, htarget _ _ hfso3, hmembers _ _ hfso2]
    simp only [filled, htype]
  | fileReparsePoint => simp [htype] at h
  | fileHardlink =>
    simp only [htype, bind_eq_ok] at h
    obtain ⟨fso2, hfso2, h⟩ := h
    split at h
    · rw [hmode _ h, hmembers _ _ hfso2]
      simp only [filled, htype]
    · simp at h

lemma unmapped_withGuid (guid : GuidResult) (retry : Bool) (fso : FileSystemObject) :
    (withGuid guid retry fso).unmapped = withGuid guid retry fso.unmapped := by
  cases guid <;> cases retry <;> rfl

lemma unmapped_filled (e : Entry) (fso : FileSystemObject) :
    (filled e fso).unmapped = filled e fso.unmapped := by
  have htype : fso.unmapped.type = fso.type := rfl
  simp only [filled, htype]
  cases fso.type <;> cases e.guid <;> rfl

/-- Two engines that decide on the modes of objects in the same way, wherever these are read. -/
structure SameSettings (settings settings' : Settings) : Prop where
  listSort : settings.listSort = settings'.listSort
  natural : settings.listSort.Natural
  mode : ∀ o o', seen o = seen o' →
    settings.getBackupModeForObject o = settings'.getBackupModeForObject o'

variable {settings' : Settings}

lemma unmapped_construct (hsettings : SameSettings settings settings')
    {paths paths' : FileSystemObject → ObjectPaths} {path path' : Str} {e : Entry}
    {fso fso' r r' : FileSystemObject} (h : construct settings paths path e fso = .ok r)
    (h' : construct settings' paths' path' e fso' = .ok r') (hfso : fso.unmapped = fso'.unmapped)
    (hpaths : ∀ f f' : FileSystemObject, f.unmapped = f'.unmapped →
      (paths f).unmappedPath = (paths' f').unmappedPath) : r.unmapped = r'.unmapped := by
  have hfilled : (filled e fso).unmapped = (filled e fso').unmapped := by
    rw [unmapped_filled, unmapped_filled, hfso]
  have hmode := hsettings.mode (paths (filled e fso), filled e fso)
    (paths' (filled e fso'), filled e fso') (Prod.ext (hpaths _ _ hfilled) hfilled)
  rw [construct_eq_filled h, construct_eq_filled h', hmode]
  exact congrArg (fun f : FileSystemObject => { f with
    backupMode := (settings'.getBackupModeForObject (paths' (filled e fso'), filled e fso')).1 })
    hfilled

/-- The name of an entry is found again at the end of its path. -/
lemma nameOf_enumerated {path name : Str} (hne : name ≠ []) (hname : '\\' ∉ name) :
    nameOf (enumerated path name) = .ok name := by
  have hlast : ensureLastCharacterIsNotBackslash (enumerated path name) = enumerated path name := by
    rw [ensureLastCharacterIsNotBackslash, List.rdropWhile_eq_self_iff]
    intro hl
    simp only [enumerated, List.getLast_append_of_ne_nil, ne_eq, reduceCtorEq, not_false_eq_true,
      List.getLast_cons hne, beq_iff_eq]
    exact fun heq => hname (heq ▸ List.getLast_mem hne)
  have htake : (enumerated path name).rtakeWhile (· != '\\') = name := by
    have hreverse : enumerated path name =
        (name.reverse ++ '\\' :: (ensureLastCharacterIsNotBackslash path).reverse).reverse := by
      simp [enumerated]
    rw [hreverse, List.rtakeWhile_reverse, List.takeWhile_append_of_pos, List.takeWhile_cons]
    · simp
    · intro c hc
      have hmem := List.mem_reverse.mp hc
      simpa using fun heq : c = '\\' => hname (heq ▸ hmem)
  simp only [nameOf, getNameFromPath, splitIntoObjectAndContainer, hlast, htake]
  simp [enumerated]

/-- The names of what a directory contains. -/
def ValidNames (entries : Forest Entry) : Prop :=
  ∀ e ∈ entries.toList, e.name ≠ [] ∧ '\\' ∉ e.name

/-- Trees that are arranged by their roots. -/
lemma sameSeen_sortChildren (hsettings : SameSettings settings settings')
    {children children' : List FileSystemTree}
    (h : FileSystemTree.SameSeen children children') :
    FileSystemTree.SameSeen (sortChildren settings children)
    (sortChildren settings' children') := by
  have hkey : ∀ (settings : Settings) (ts : List FileSystemTree), settings.listSort.Natural →
      (sortChildren settings ts).map (RoseTree.map unmapped) =
        sortChildren settings (ts.map (RoseTree.map unmapped)) := fun settings ts hnatural =>
    hnatural (RoseTree.map unmapped) (fun x => if x.root.isDirectoryish then 0 else 1) ts
  rw [FileSystemTree.SameSeen, hkey settings children hsettings.natural,
    hkey settings' children' (hsettings.listSort ▸ hsettings.natural), h, sortChildren,
    sortChildren, hsettings.listSort]

/-- What is below an object that is in both trees. -/
lemma sameSeen_below (hsettings : SameSettings settings settings') {fso fso' : FileSystemObject}
    {listed : Bool} {below below' : List FileSystemTree} {p p' : Prop}
    (hfso : fso.unmapped = fso'.unmapped)
    (h : if fso.type = .directory ∧ fso.backupMode = .directory ∧ listed then p else below = [])
    (h' : if fso'.type = .directory ∧ fso'.backupMode = .directory ∧ listed then p'
      else below' = [])
    (hseen : p → p' → FileSystemTree.SameSeen below below') :
    (⟨fso, Forest.ofTrees (sortChildren settings below)⟩ : FileSystemTree).map unmapped =
      (⟨fso', Forest.ofTrees (sortChildren settings' below')⟩ : FileSystemTree).map unmapped := by
  have htype : fso.type = fso'.type := show fso.unmapped.type = fso'.unmapped.type by rw [hfso]
  have hmode : fso.backupMode = fso'.backupMode :=
    show fso.unmapped.backupMode = fso'.unmapped.backupMode by rw [hfso]
  have hbelow : FileSystemTree.SameSeen below below' := by
    rw [htype, hmode] at h
    split_ifs at h h'
    · exact hseen h h'
    · rw [h, h']
      rfl
  rw [RoseTree.map, RoseTree.map, RoseTree.map_ofTrees, RoseTree.map_ofTrees, hfso,
    sameSeen_sortChildren hsettings hbelow]

lemma sameSeen_constructChildrenList (hsettings : SameSettings settings settings')
    {paths paths' : ObjectPaths} {path path' : Str} {entries : Forest Entry}
    (hnames : ValidNames entries) (hpaths : paths.unmappedPath = paths'.unmappedPath)
    {children children' : List FileSystemTree}
    (h : constructChildrenList settings paths path entries = .ok children)
    (h' : constructChildrenList settings' paths' path' entries = .ok children') :
    FileSystemTree.SameSeen children children' := by
  induction entries generalizing paths paths' path path' children children' with
  | nil =>
    rw [constructChildrenList, pure_eq_ok] at h h'
    rw [← h, ← h']
    rfl
  | cons e entries siblings ihe ihs =>
    obtain ⟨hne, hname⟩ := hnames e List.mem_cons_self
    have hentries : ValidNames entries := fun e' he' =>
      hnames e' (List.mem_cons_of_mem _ (List.mem_append_left _ he'))
    have hsiblings : ValidNames siblings := fun e' he' =>
      hnames e' (List.mem_cons_of_mem _ (List.mem_append_right _ he'))
    obtain ⟨type, name, child, below, rest, htype, hnameOf, hchild, hbelow, hrest, rfl⟩ :=
      constructChildrenList_cons_eq_ok h
    obtain ⟨type', name', child', below', rest', htype', hnameOf', hchild', hbelow', hrest', rfl⟩ :=
      constructChildrenList_cons_eq_ok h'
    obtain rfl := Except.ok.inj (htype.symm.trans htype')
    rw [nameOf_enumerated hne hname, Except.ok.injEq] at hnameOf hnameOf'
    subst hnameOf
    subst hnameOf'
    have hunder : ∀ f f' : FileSystemObject, f.unmapped = f'.unmapped →
        (paths.child f).unmappedPath = (paths'.child f').unmappedPath := by
      intro f f' hff'
      have hsame : f.name = f'.name := show f.unmapped.name = f'.unmapped.name by rw [hff']
      simp only [ObjectPaths.child, hpaths, hsame]
    have hsame := unmapped_construct hsettings hchild hchild' rfl hunder
    exact congrArg₂ List.cons
      (sameSeen_below hsettings hsame hbelow hbelow' fun hbelow hbelow' =>
        ihe hentries (hunder _ _ hsame) hbelow hbelow')
      (ihs hsiblings hpaths hrest hrest')

/-- Two trees of the same entry. -/
lemma sameSeen_create (hsettings : SameSettings settings settings') {fs fs' : FileSystemView}
    {path path' unmappedPath : Str} {t t' : FileSystemTree}
    (hlookup : fs.lookup path = fs'.lookup path')
    (hnames : ∀ entry, fs.lookup path = some entry → ValidNames entry.children)
    (h : create settings fs path unmappedPath = .ok t)
    (h' : create settings' fs' path' unmappedPath = .ok t') : t.map unmapped = t'.map unmapped := by
  obtain ⟨entry, type, mapped, unmapped, root, below, hentry, htype, -, hunmapped, hroot, hbelow,
    rfl⟩ := create_eq_ok h
  obtain ⟨entry', type', mapped', unmapped', root', below', hentry', htype', -, hunmapped', hroot',
    hbelow', rfl⟩ := create_eq_ok h'
  obtain rfl : entry = entry' :=
    Option.some.inj (hentry.symm.trans (hlookup.trans hentry'))
  obtain rfl := Except.ok.inj (htype.symm.trans htype')
  obtain rfl := Option.some.inj (hunmapped.symm.trans hunmapped')
  have hpaths : ∀ f f' : FileSystemObject, f.unmapped = f'.unmapped →
      f.basePaths.unmappedPath = f'.basePaths.unmappedPath := by
    intro f f' hff'
    have hname : f.name = f'.name := show f.unmapped.name = f'.unmapped.name by rw [hff']
    have hbase : f.unmappedBasePath = f'.unmappedBasePath :=
      show f.unmapped.unmappedBasePath = f'.unmapped.unmappedBasePath by rw [hff']
    simp only [basePaths, ObjectPaths.child, hname, hbase]
  have hsame := unmapped_construct hsettings hroot hroot' rfl hpaths
  exact sameSeen_below hsettings hsame hbelow hbelow' fun hbelow hbelow' =>
    sameSeen_constructChildrenList hsettings (hnames entry hentry) (hpaths _ _ hsame) hbelow hbelow'

end FileSystemObject

/-! ### Two calls for the same backup -/

/-- The source locations of a backup after the given version. -/
def BackupCall.locations (call : BackupCall) (previous : Option VersionArchive) : List Str :=
  call.currentSourceLocations (previous.map VersionArchive.getBaseObjects)

/-- Calls that make the same backup, with shadow copies of their own: they find the same at the
source locations that they have in common, and read the same bytes; and what the derived engines
decide does not depend on where objects are read. -/
structure SameBackup (call call' : BackupCall) (previous previous' : Option VersionArchive) : Prop
    extends FileSystemObject.SameSettings call.env.toSettings call'.env.toSettings where
  sourceLocations : call.sourceLocations = call'.sourceLocations
  criterium : ∀ o o', seen o = seen o' →
    call.env.getChangeCriterium o = call'.env.getChangeCriterium o'
  custom : ∀ o o' f f', seen o = seen o' → f.unmapped = f'.unmapped →
    call.env.customFileHasChanged o f = call'.env.customFileHasChanged o' f'
  hash : call.env.hash = call'.env.hash
  lookup : ∀ location ∈ call.locations previous, location ∈ call'.locations previous' →
    call.env.fs.lookup (call.mapPathForward location) =
      call'.env.fs.lookup (call'.mapPathForward location)
  names : ∀ location ∈ call.locations previous, ∀ entry,
    call.env.fs.lookup (call.mapPathForward location) = some entry →
      FileSystemObject.ValidNames entry.children
  guid : ∀ created created',
    (call.locations previous).mapM (BackupEngine.createBaseObject call) = .ok created →
    (call'.locations previous').mapM (BackupEngine.createBaseObject call') = .ok created' →
    ∀ o ∈ created.flatMap FileSystemTree.iterate, ∀ o' ∈ created'.flatMap FileSystemTree.iterate,
      seen o = seen o' → call.env.fs.getFileGuid (call.mapPathBack o.1.mappedPath) =
        call'.env.fs.getFileGuid (call'.mapPathBack o'.1.mappedPath)
  read : ∀ baseObjects baseObjects', call.baseObjects previous = .ok baseObjects →
    call'.baseObjects previous' = .ok baseObjects' →
    ∀ o ∈ baseObjects.flatMap FileSystemTree.iterate,
    ∀ o' ∈ baseObjects'.flatMap FileSystemTree.iterate, seen o = seen o' →
      call.env.fs.readFile o.1.mappedPath = call'.env.fs.readFile o'.1.mappedPath

section SameBackup

variable {call call' : BackupCall} {previous previous' : Option VersionArchive}

lemma SameBackup.sameSeen_created (h : SameBackup call call' previous previous')
    (hlocations : call.locations previous = call'.locations previous')
    {created created' : List FileSystemTree}
    (hcreated : (call.locations previous).mapM (BackupEngine.createBaseObject call) = .ok created)
    (hcreated' : (call'.locations previous').mapM (BackupEngine.createBaseObject call') =
      .ok created') : FileSystemTree.SameSeen created created' := by
  rw [FileSystemTree.SameSeen, ← forall₂_iff_map_eq_map]
  refine forall₂_of_mapM (R := Eq) ?_ (fun location hlocation _ hlocation' t t' heq ht ht' => ?_)
    hcreated hcreated'
  · rw [hlocations, List.forall₂_eq_eq_eq]
  · subst heq
    simp only [BackupEngine.createBaseObject, bind_eq_ok, pure_eq_ok] at ht ht'
    obtain ⟨x, hx, rfl⟩ := ht
    obtain ⟨x', hx', rfl⟩ := ht'
    have hsame := FileSystemObject.sameSeen_create h.toSameSettings
      (h.lookup location hlocation hlocation') (h.names location hlocation) hx hx'
    simp only [RoseTree.map, RoseTree.mk.injEq] at hsame
    rw [RoseTree.map, RoseTree.map, hsame.2]
    exact congrArg (fun f : FileSystemObject => RoseTree.mk { f with isMain := true } _) hsame.1

lemma unmapped_recalculateFileGuid {o o' : PathedObject} {fso fso' : FileSystemObject}
    (hseen : seen o = seen o')
    (hguid : call.env.fs.getFileGuid (call.mapPathBack o.1.mappedPath) =
      call'.env.fs.getFileGuid (call'.mapPathBack o'.1.mappedPath))
    (h : BackupEngine.recalculateFileGuid call o = .ok fso)
    (h' : BackupEngine.recalculateFileGuid call' o' = .ok fso') : fso.unmapped = fso'.unmapped := by
  have hunmapped : o.2.unmapped = o'.2.unmapped := congrArg Prod.snd hseen
  have henqueued : o.2.guidEnqueued = o'.2.guidEnqueued :=
    show o.2.unmapped.guidEnqueued = o'.2.unmapped.guidEnqueued by rw [hunmapped]
  rw [BackupEngine.recalculateFileGuid] at h h'
  rw [henqueued] at h
  split_ifs at h h'
  · rw [FileSystemObject.setFileSystemGuid_eq_withGuid h,
      FileSystemObject.setFileSystemGuid_eq_withGuid h', hguid, FileSystemObject.unmapped_withGuid,
      FileSystemObject.unmapped_withGuid]
    exact congrArg (fun f : FileSystemObject =>
      FileSystemObject.withGuid _ false { f with guidEnqueued := false }) hunmapped
  · rw [pure_eq_ok] at h h'
    rw [← h, ← h', hunmapped]

/-- Ids that are copied are not seen. -/
lemma sameSeen_copyStreamUniqueIds (call : BackupCall) (old : Option (List FileSystemTree))
    (ts : List FileSystemTree) : FileSystemTree.SameSeen (call.copyStreamUniqueIds old ts) ts := by
  cases old with
  | none => rfl
  | some oldObjects =>
    rw [FileSystemTree.SameSeen, BackupCall.copyStreamUniqueIds, List.map_map]
    refine List.map_congr_left fun t _ => ?_
    have hcopy : ∀ o : PathedObject, (BackupEngine.copyStreamUniqueId call.env.culture
        (call.oldObjectsDict oldObjects) o).unmapped = o.2.unmapped := by
      intro o
      rw [BackupEngine.copyStreamUniqueId]
      split <;> rfl
    have hcomp : (FileSystemObject.unmapped ∘ BackupEngine.copyStreamUniqueId call.env.culture
        (call.oldObjectsDict oldObjects)) = fun o : PathedObject => o.2.unmapped := funext hcopy
    simp only [Function.comp, RoseTree.map, FileSystemTree.pathed, RoseTree.inherit, Forest.map_map,
      hcopy]
    rw [hcomp, Forest.map_inherit]

/-- The objects that are scanned look the same. -/
theorem SameBackup.map_seen (h : SameBackup call call' previous previous')
    (hlocations : call.locations previous = call'.locations previous')
    {baseObjects baseObjects' : List FileSystemTree}
    (hbase : call.baseObjects previous = .ok baseObjects)
    (hbase' : call'.baseObjects previous' = .ok baseObjects') :
    (baseObjects.flatMap FileSystemTree.iterate).map seen =
      (baseObjects'.flatMap FileSystemTree.iterate).map seen := by
  simp only [BackupCall.baseObjects, BackupCall.scan, bind_eq_ok, pure_eq_ok] at hbase hbase'
  obtain ⟨scanned, ⟨created, hcreated, hscanned⟩, rfl⟩ := hbase
  obtain ⟨scanned', ⟨created', hcreated', hscanned'⟩, rfl⟩ := hbase'
  have hsame := h.sameSeen_created hlocations hcreated hcreated'
  simp only [BackupEngine.recalculateFileGuids, bind_eq_ok, pure_eq_ok] at hscanned hscanned'
  obtain ⟨objects, hobjects, rfl⟩ := hscanned
  obtain ⟨objects', hobjects', rfl⟩ := hscanned'
  have hunmapped :
      objects.map FileSystemObject.unmapped = objects'.map FileSystemObject.unmapped := by
    rw [← forall₂_iff_map_eq_map]
    exact forall₂_of_mapM (forall₂_iff_map_eq_map.mpr hsame.map_seen)
      (fun o ho o' ho' fso fso' hseen hfso hfso' => unmapped_recalculateFileGuid hseen
        (h.guid created created' hcreated hcreated' o ho o' ho' hseen) hfso hfso') hobjects
        hobjects'
  refine FileSystemTree.SameSeen.map_seen ?_
  rw [FileSystemTree.SameSeen, sameSeen_copyStreamUniqueIds, sameSeen_copyStreamUniqueIds,
    RoseTree.refillAll_map, RoseTree.refillAll_map, hunmapped, hsame]

end SameBackup

/-! ### Decisions -/

/-- The data of the file that an object is a name of are stored, or a reference to a former version
is. -/
def Stores (heap : List BackupStream) (i : Nat) (full : Bool) : Prop :=
  ∃ (s : Nat) (stream : BackupStream), heap[s]? = some stream ∧ i ∈ stream.fileSystemObjects ∧
    stream.data.hasData = full

/-- The object at position `i` is the one at position `k`, or a hardlink to the same file. -/
def NameOf (os : List PathedObject) (i k : Nat) : Prop :=
  i = k ∨ k < i ∧ ∃ o ok, os[i]? = some o ∧ os[k]? = some ok ∧ o.2.type = .fileHardlink ∧
    o.2.fileSystemGuid ≠ none ∧ ok.2.fileSystemGuid = o.2.fileSystemGuid

section Decisions

variable {env : BackupEnv} {n : Int} {old : Option (List FileSystemTree)} {firstId : Nat}
  {os : List PathedObject} {st : GenerateState}

/-- What is stored for a file is decided when the first of its names is examined. -/
lemma Generation.stores_iff (h : Generation env n old firstId os st) {i : Nat} {full : Bool} :
    Stores st.heap i full ↔ ∃ k ok, os[k]? = some ok ∧ ok.2.isIncluded ∧ ¬ Earlier os k ok ∧
    NameOf os i k ∧
      (full = true ↔ StoredInFull env n old os k ok) := by
  have hfull : ∀ (s k : Nat) (stream : BackupStream) (ok : PathedObject),
      st.heap[s]? = some stream → stream.fileSystemObjects.head? = some k → os[k]? = some ok →
        (stream.data.hasData = true ↔ StoredInFull env n old os k ok) := by
    intro s k stream ok hstream hhead hok
    rw [GenerationAt.storedInFull_iff h hok]
    constructor
    · exact fun hdata => ⟨s, (h.kept s).mpr ⟨stream, hstream, hdata⟩, stream, hstream, hhead⟩
    · rintro ⟨s', hs', stream', hstream', hhead'⟩
      have hsame := h.has_unique ⟨stream, hstream, List.mem_of_head? hhead⟩
        ⟨stream', hstream', List.mem_of_head? hhead'⟩
      obtain ⟨stream'', hstream'', hdata⟩ := (h.kept s').mp hs'
      rw [← hsame, hstream, Option.some.injEq] at hstream''
      exact hstream'' ▸ hdata
  constructor
  · rintro ⟨s, stream, hstream, hmem, rfl⟩
    have hhas : st.Has s i := ⟨stream, hstream, hmem⟩
    have hi := h.position s i hhas
    have hi' : i < st.objects.length := h.length.symm ▸ hi
    have ho := List.getElem?_eq_getElem hi
    obtain ⟨k, hhead⟩ := h.head s stream hstream
    have hle := h.head_le hstream hmem hhead
    have hk : k < os.length := by omega
    have hok := List.getElem?_eq_getElem hk
    obtain ⟨-, hincluded, hnew, -⟩ := h.outcome_head hstream hhead hok
      (List.getElem?_eq_getElem (h.length.symm ▸ hk))
    refine ⟨k, os[k], hok, hincluded, hnew, ?_, hfull s k stream _ hstream hhead hok⟩
    cases h.outcome i os[i] st.objects[i] ho (List.getElem?_eq_getElem hi') with
    | excluded _ _ hnone | stray _ _ _ hnone => exact absurd hhas (hnone s)
    | peer htype hlt hok' hguid hsame hstream' hhead' _ honly =>
      rw [← (honly s).mp hhas, hstream, Option.some.injEq] at hstream'
      rw [← hstream', hhead, Option.some.injEq] at hhead'
      subst hhead'
      exact .inr ⟨hlt, os[i], _, ho, hok', htype, hguid, hsame⟩
    | first _ _ hstream' hhead' honly =>
      rw [← (honly s).mp hhas, hstream, Option.some.injEq] at hstream'
      rw [← hstream', hhead, Option.some.injEq] at hhead'
      exact .inl hhead'.symm
  · rintro ⟨k, ok, hok, hincluded, hnew, hname, hiff⟩
    obtain ⟨s, stream, hstream, hhead⟩ := h.exists_head hok hincluded hnew
    have hdata : stream.data.hasData = full := by
      rw [Bool.eq_iff_iff, hfull s k stream ok hstream hhead hok, hiff]
    refine ⟨s, stream, hstream, ?_, hdata⟩
    rcases hname with rfl | ⟨hlt, o, ok', ho, hok', htype, hguid, hsame⟩
    · exact List.mem_of_head? hhead
    obtain rfl := Option.some.inj (hok.symm.trans hok')
    have hearlier : Earlier os i o := ⟨hguid, k, ok, hlt, hok, hincluded, hsame⟩
    have hi : i < st.objects.length := h.length.symm ▸ (List.getElem?_eq_some_iff.mp ho).1
    cases h.outcome i o _ ho (List.getElem?_eq_getElem hi) with
    | excluded _ hpeer => exact absurd hearlier (hpeer htype)
    | stray _ htype' => exact absurd htype htype'
    | @peer s' k' stream' ok' fk' _ _ hok' _ hsame' hstream' hhead' hfk' honly =>
      obtain ⟨-, hincluded', hnew', -⟩ := h.outcome_head hstream' hhead' hok' hfk'
      have hguids : ok'.2.fileSystemGuid = ok.2.fileSystemGuid := hsame'.trans hsame.symm
      have hkk' : k = k' := by
        rcases lt_trichotomy k k' with hlt | heq | hlt
        · exact absurd ⟨hsame' ▸ hguid, k, ok, hlt, hok, hincluded, hguids.symm⟩ hnew'
        · exact heq
        · exact absurd ⟨hsame ▸ hguid, k', ok', hlt, hok', hincluded', hguids⟩ hnew
      subst hkk'
      have hss' := h.has_unique ⟨stream, hstream, List.mem_of_head? hhead⟩
        ⟨stream', hstream', List.mem_of_head? hhead'⟩
      obtain ⟨stream'', hstream'', hmem⟩ := (honly s).mpr hss'
      exact Option.some.inj (hstream''.symm.trans hstream) ▸ hmem
    | first _ hnew' => exact absurd hearlier hnew'

end Decisions

/-! ### Decisions about objects that look the same -/

section Transfer

variable {os os' : List PathedObject} {env env' : BackupEnv} {n : Int} {i k : Nat}
  {o o' : PathedObject}

lemma getElem_of_map_seen (hos : os.map seen = os'.map seen) (ho : os[i]? = some o) :
    ∃ o', os'[i]? = some o' ∧ seen o = seen o' := by
  have hmap := congrArg (fun l => l[i]?) hos
  rw [List.getElem?_map, List.getElem?_map, ho, Option.map_some, eq_comm, Option.map_eq_some_iff]
    at hmap
  obtain ⟨o', ho', hseen⟩ := hmap
  exact ⟨o', ho', hseen.symm⟩

/-- The members that decisions depend on. -/
structure SameMembers (f f' : FileSystemObject) : Prop where
  isIncluded : f.isIncluded = f'.isIncluded
  fileSystemGuid : f.fileSystemGuid = f'.fileSystemGuid
  type : f.type = f'.type
  backupMode : f.backupMode = f'.backupMode

lemma sameMembers_of_seen (h : seen o = seen o') : SameMembers o.2 o'.2 := by
  have hunmapped : o.2.unmapped = o'.2.unmapped := congrArg Prod.snd h
  exact ⟨show o.2.unmapped.isIncluded = o'.2.unmapped.isIncluded by rw [hunmapped],
    show o.2.unmapped.fileSystemGuid = o'.2.unmapped.fileSystemGuid by rw [hunmapped],
    show o.2.unmapped.type = o'.2.unmapped.type by rw [hunmapped],
    show o.2.unmapped.backupMode = o'.2.unmapped.backupMode by rw [hunmapped]⟩

lemma earlier_of_map_seen (hos : os.map seen = os'.map seen) (hseen : seen o = seen o')
    (h : Earlier os i o) : Earlier os' i o' := by
  obtain ⟨hguid, k, ok, hk, hok, hincluded, hsame⟩ := h
  obtain ⟨ok', hok', hseenk⟩ := getElem_of_map_seen hos hok
  have hmembers := sameMembers_of_seen hseen
  have hmembersk := sameMembers_of_seen hseenk
  exact ⟨hmembers.fileSystemGuid ▸ hguid, k, ok', hk, hok', hmembersk.isIncluded ▸ hincluded,
    by rw [← hmembersk.fileSystemGuid, ← hmembers.fileSystemGuid, hsame]⟩

lemma nameOf_of_map_seen (hos : os.map seen = os'.map seen) (h : NameOf os i k) :
    NameOf os' i k := by
  rcases h with rfl | ⟨hk, o, ok, ho, hok, htype, hguid, hsame⟩
  · exact .inl rfl
  · obtain ⟨o', ho', hseen⟩ := getElem_of_map_seen hos ho
    obtain ⟨ok', hok', hseenk⟩ := getElem_of_map_seen hos hok
    have hmembers := sameMembers_of_seen hseen
    have hmembersk := sameMembers_of_seen hseenk
    exact .inr ⟨hk, o', ok', ho', hok', hmembers.type ▸ htype, hmembers.fileSystemGuid ▸ hguid,
      by rw [← hmembersk.fileSystemGuid, ← hmembers.fileSystemGuid, hsame]⟩

/-- Engines that use the same criterion, and read the same bytes of two objects. -/
structure SameCriterion (env env' : BackupEnv) (o o' : PathedObject) : Prop where
  criterium : ∀ o o', seen o = seen o' → env.getChangeCriterium o = env'.getChangeCriterium o'
  custom : ∀ o o' f f', seen o = seen o' → f.unmapped = f'.unmapped →
    env.customFileHasChanged o f = env'.customFileHasChanged o' f'
  hash : env.hash = env'.hash
  read : env.fs.readFile o.1.mappedPath = env'.fs.readFile o'.1.mappedPath

lemma SameCriterion.compareHashes (h : SameCriterion env env' o o')
    (hunmapped : o.2.unmapped = o'.2.unmapped) {f f' fso : FileSystemObject}
    (hf : f.unmapped = f'.unmapped) (hcompare : compareHashes env o f = .ok (false, fso)) :
    ∃ fso', BackupProgram.compareHashes env' o' f' = .ok (false, fso') := by
  have hhashes : f.hashes = f'.hashes := show f.unmapped.hashes = f'.unmapped.hashes by rw [hf]
  have hdirectoryish : o.2.isDirectoryish = o'.2.isDirectoryish :=
    show o.2.unmapped.isDirectoryish = o'.2.unmapped.isDirectoryish by rw [hunmapped]
  have hknown : o.2.hashes = o'.2.hashes :=
    show o.2.unmapped.hashes = o'.2.unmapped.hashes by rw [hunmapped]
  rw [BackupProgram.compareHashes, hhashes] at hcompare
  rw [BackupProgram.compareHashes]
  split at hcompare
  · simp at hcompare
  simp only [bind_eq_ok] at hcompare
  obtain ⟨⟨digest, fso1⟩, hcompute, hcompare⟩ := hcompare
  cases digest with
  | none => simp at hcompare
  | some digest =>
    simp only [pure_eq_ok, Prod.mk.injEq] at hcompare
    obtain ⟨hdigest, -⟩ := hcompare
    rename_i kv _ _
    have hcompute' : ∃ fso1', computeHash env' o' kv.1 = .ok (some digest, fso1') := by
      rw [computeHash, hdirectoryish, hknown, h.read, h.hash] at hcompute
      split at hcompute
      · simp at hcompute
      rename_i hfile
      split at hcompute
      · rename_i hlookup
        simp only [pure_eq_ok, Prod.mk.injEq] at hcompute
        exact ⟨o'.2, by simp only [computeHash, if_neg hfile, hlookup, hcompute.1]; rfl⟩
      rename_i hlookup
      split at hcompute
      · rename_i hread
        simp only [pure_eq_ok, Prod.mk.injEq] at hcompute
        exact ⟨_, by simp only [computeHash, if_neg hfile, hlookup, hread, hcompute.1]; rfl⟩
      · simp at hcompute
    obtain ⟨fso1', hcompute'⟩ := hcompute'
    refine ⟨fso1', ?_⟩
    rw [hcompute', ok_bind]
    simp only [hdigest]
    rfl

/-- A file that is called unchanged is called so wherever it is read. -/
lemma SameCriterion.unchanged (h : SameCriterion env env' o o') (hseen : seen o = seen o')
    {oldObjects oldObjects' : List FileSystemTree}
    (hfind : (findPath env.culture oldObjects o.1.mappedPath).map FileSystemObject.unmapped =
      (findPath env'.culture oldObjects' o'.1.mappedPath).map FileSystemObject.unmapped)
    {oldFile : FileSystemObject} (hcalled : Unchanged env n oldObjects o oldFile) :
    ∃ oldFile', Unchanged env' n oldObjects' o' oldFile' := by
  obtain ⟨hfound, fso, happly⟩ := hcalled
  rw [hfound, Option.map_some, eq_comm, Option.map_eq_some_iff] at hfind
  obtain ⟨oldFile', hfound', hold⟩ := hfind
  have hunmapped : o.2.unmapped = o'.2.unmapped := congrArg Prod.snd hseen
  have hversion : ({ o.2 with latestVersion := n } : FileSystemObject).unmapped =
      ({ o'.2 with latestVersion := n } : FileSystemObject).unmapped :=
    congrArg (fun f : FileSystemObject => { f with latestVersion := n }) hunmapped
  have hseen' : seen (o.1, { o.2 with latestVersion := n }) =
      seen (o'.1, { o'.2 with latestVersion := n }) := by
    rw [seen, seen, hversion, show o.1.unmappedPath = o'.1.unmappedPath from
      congrArg Prod.fst hseen]
  refine ⟨oldFile', hfound', ?_⟩
  rw [applyCriterium, h.criterium _ _ hseen'] at happly
  split at happly
  · rename_i hcriterium
    have hflag : o.2.archiveFlag = o'.2.archiveFlag :=
      show o.2.unmapped.archiveFlag = o'.2.unmapped.archiveFlag by rw [hunmapped]
    rw [applyCriterium, hcriterium]
    simp only [pure_eq_ok, Prod.mk.injEq, hflag] at happly ⊢
    exact ⟨_, happly.1, rfl⟩
  · rename_i hcriterium
    have hsize : o.2.size = o'.2.size :=
      show o.2.unmapped.size = o'.2.unmapped.size by rw [hunmapped]
    have hsize' : oldFile.size = oldFile'.size :=
      show oldFile.unmapped.size = oldFile'.unmapped.size by rw [hold]
    rw [applyCriterium, hcriterium]
    simp only [pure_eq_ok, Prod.mk.injEq, hsize, hsize'] at happly ⊢
    exact ⟨_, happly.1, rfl⟩
  · rename_i hcriterium
    have htime : o.2.modificationTime = o'.2.modificationTime :=
      show o.2.unmapped.modificationTime = o'.2.unmapped.modificationTime by rw [hunmapped]
    have htime' : oldFile.modificationTime = oldFile'.modificationTime :=
      show oldFile.unmapped.modificationTime = oldFile'.unmapped.modificationTime by rw [hold]
    rw [applyCriterium, hcriterium]
    simp only [pure_eq_ok, Prod.mk.injEq, htime, htime'] at happly ⊢
    exact ⟨_, happly.1, rfl⟩
  · rename_i hcriterium
    have hsame : SameCriterion env env' (o.1, { o.2 with latestVersion := n })
        (o'.1, { o'.2 with latestVersion := n }) := ⟨h.criterium, h.custom, h.hash, h.read⟩
    simp only [applyCriterium, hcriterium]
    exact hsame.compareHashes hversion hold.symm happly
  · rename_i hcriterium
    rw [applyCriterium, hcriterium]
    simp only [pure_eq_ok, Prod.mk.injEq, h.custom _ _ _ _ hseen' hold.symm] at happly ⊢
    exact ⟨_, happly.1, rfl⟩

end Transfer

/-! ### Two chains -/

/-- The source locations of a version. -/
def VersionArchive.mainPaths (a : VersionArchive) : List Str :=
  (a.objects.filter fun o => o.2.isMain).map fun o => o.1.unmappedPath

/-- The objects that `FileHasChanged` is asked about: those of which data may have to be stored,
unless another name of the same file has come before. -/
def Examined (os : List PathedObject) (i : Nat) (o : PathedObject) : Prop :=
  o.2.isIncluded ∧ ¬ Earlier os i o ∧ o.2.backupMode = .full

lemma examined_of_map_seen {os os' : List PathedObject} (hos : os.map seen = os'.map seen) {i : Nat}
    {o o' : PathedObject} (hseen : seen o = seen o') (h : Examined os i o) : Examined os' i o' := by
  obtain ⟨hincluded, hnew, hmode⟩ := h
  have hmembers := sameMembers_of_seen hseen
  exact ⟨hmembers.isIncluded ▸ hincluded,
    fun hearlier => hnew (earlier_of_map_seen hos.symm hseen.symm hearlier),
    hmembers.backupMode ▸ hmode⟩

/-- What two backups have found of the previous versions is the same: the objects to start from have
been read at the same places, and the objects that are examined find old files that look the same,
or none. -/
structure FoundAlike (call call' : BackupCall) (a a' : VersionArchive) : Prop where
  locations : call.locations (some a) = call'.locations (some a')
  found : ∀ baseObjects baseObjects', call.baseObjects (some a) = .ok baseObjects →
    call'.baseObjects (some a') = .ok baseObjects' → ∀ (i : Nat) (o o' : PathedObject),
    (baseObjects.flatMap FileSystemTree.iterate)[i]? = some o →
    (baseObjects'.flatMap FileSystemTree.iterate)[i]? = some o' →
    Examined (baseObjects.flatMap FileSystemTree.iterate) i o →
      (findPath call.env.culture a.getBaseObjects o.1.mappedPath).map FileSystemObject.unmapped =
        (findPath call'.env.culture a'.getBaseObjects o'.1.mappedPath).map FileSystemObject.unmapped

section Chains

variable {env env' : BackupEnv} {n : Int} {old old' : Option (List FileSystemTree)}
  {firstId firstId' : Nat} {os os' : List PathedObject} {st st' : GenerateState}
  {a : VersionArchive}

/-- Archived objects look like those that have been scanned, as far as sources go. -/
lemma ArchiveOf.mainPaths_eq (h : ArchiveOf env n old firstId os st a) :
    a.mainPaths = (os.filter fun o => o.2.isMain).map fun o => o.1.unmappedPath := by
  have hkey : a.objects.map (fun o => (o.1.unmappedPath, o.2.isMain)) =
      os.map fun o => (o.1.unmappedPath, o.2.isMain) := by
    refine List.ext_getElem (by simp [h.length_objects]) fun i hi hi' => ?_
    rw [List.length_map] at hi hi'
    rw [List.getElem_map, List.getElem_map]
    have hf := List.getElem?_eq_getElem (h.generation.length.symm ▸ hi' : i < st.objects.length)
    have hg := List.getElem?_eq_getElem hi
    obtain ⟨-, g', -, hg', hpath⟩ := h.exists_archived (List.getElem?_eq_getElem hi')
    rw [hg, Option.some.injEq] at hg'
    have hmain : a.objects[i].2.isMain = os[i].2.isMain := by
      rw [h.objects i _ _ hf hg]
      cases h.generation.outcome i _ _ (List.getElem?_eq_getElem hi') hf with
      | excluded _ _ _ hobject | stray _ _ _ _ hobject | peer _ _ _ _ _ _ _ _ _ hobject =>
        rw [hobject]
      | first _ _ _ _ _ hsame _ _ hobject =>
        rw [hobject, hsame]
    rw [hg', hpath, ← hg', hmain]
  have hfilter : ∀ os : List PathedObject,
      (os.filter fun o => o.2.isMain).map (fun o => o.1.unmappedPath) =
        ((os.map fun o => (o.1.unmappedPath, o.2.isMain)).filter Prod.snd).map Prod.fst := by
    intro os
    rw [List.filter_map, List.map_map]
    rfl
  rw [VersionArchive.mainPaths, hfilter, hfilter, hkey]

lemma storedInFull_of_map_seen (hos : os.map seen = os'.map seen) {i : Nat} {o o' : PathedObject}
    (hseen : seen o = seen o')
    (hcalled : ∀ oldObjects', old' = some oldObjects' → ∃ oldObjects, old = some oldObjects ∧
      (Examined os i o → ∀ oldFile', Unchanged env' n oldObjects' o' oldFile' →
        ∃ oldFile, Unchanged env n oldObjects o oldFile))
    (h : StoredInFull env n old os i o) : StoredInFull env' n old' os' i o' := by
  obtain ⟨hincluded, hnew, hfull⟩ := h
  have hmembers := sameMembers_of_seen hseen
  refine ⟨hmembers.isIncluded ▸ hincluded,
    fun hearlier => hnew (earlier_of_map_seen hos.symm hseen.symm hearlier),
    fun oldObjects' hold => ?_⟩
  obtain ⟨oldObjects, hold', htransfer⟩ := hcalled oldObjects' hold
  rw [← hmembers.backupMode]
  rcases hfull oldObjects hold' with hforced | ⟨hmode, hnot⟩
  · exact .inl hforced
  · refine .inr ⟨hmode, fun oldFile' hunchanged => ?_⟩
    obtain ⟨oldFile, hunchanged'⟩ := htransfer ⟨hincluded, hnew, hmode⟩ oldFile' hunchanged
    exact hnot oldFile hunchanged'

lemma stores_of_map_seen (h : Generation env n old firstId os st)
    (h' : Generation env' n old' firstId' os' st') (hos : os.map seen = os'.map seen)
    (hfull : ∀ (k : Nat) (o o' : PathedObject), os[k]? = some o → os'[k]? = some o' →
      seen o = seen o' → (StoredInFull env n old os k o ↔ StoredInFull env' n old' os' k o'))
    {i : Nat} {full : Bool} (hstores : Stores st.heap i full) : Stores st'.heap i full := by
  rw [h.stores_iff] at hstores
  rw [h'.stores_iff]
  obtain ⟨k, ok, hok, hincluded, hnew, hname, hiff⟩ := hstores
  obtain ⟨ok', hok', hseen⟩ := getElem_of_map_seen hos hok
  exact ⟨k, ok', hok', (sameMembers_of_seen hseen).isIncluded ▸ hincluded,
    fun hearlier => hnew (earlier_of_map_seen hos.symm hseen.symm hearlier),
    nameOf_of_map_seen hos hname, hiff.trans (hfull k ok ok' hok hok' hseen)⟩

end Chains

/-- One backup: the same sources, and the same decisions. -/
theorem SameBackup.sameDecisions {call call' : BackupCall} {n : Int}
    {previous previous' : Option VersionArchive} {r r' : GeneratedArchive}
    (h : SameBackup call call' previous previous') (hnone : previous = none ↔ previous' = none)
    (hfound : ∀ a a', previous = some a → previous' = some a' → FoundAlike call call' a a')
    (hr : call.newVersion n previous = .ok r) (hr' : call'.newVersion n previous' = .ok r') :
    r.archive.mainPaths = r'.archive.mainPaths ∧
      ∀ i full, Stores r.heap i full ↔ Stores r'.heap i full := by
  obtain ⟨bs, st, hbase, harchive, hheap, -⟩ := BackupCall.newVersion_eq_ok hr
  obtain ⟨bs', st', hbase', harchive', hheap', -⟩ := BackupCall.newVersion_eq_ok hr'
  have hlocations : call.locations previous = call'.locations previous' := by
    cases previous with
    | none =>
      rw [hnone.mp rfl]
      exact h.sourceLocations
    | some a =>
      obtain ⟨a', ha'⟩ := Option.ne_none_iff_exists'.mp (mt hnone.mpr nofun)
      rw [ha']
      exact (hfound a a' rfl ha').locations
  have hos := h.map_seen hlocations hbase hbase'
  have hcriterion : ∀ (k : Nat) (o o' : PathedObject),
    (bs.flatMap FileSystemTree.iterate)[k]? = some o →
      (bs'.flatMap FileSystemTree.iterate)[k]? = some o' → seen o = seen o' →
        SameCriterion call.env call'.env o o' := fun k o o' ho ho' hseen =>
    ⟨h.criterium, h.custom, h.hash, h.read bs bs' hbase hbase' o (List.mem_of_getElem? ho) o'
      (List.mem_of_getElem? ho') hseen⟩
  have hfull : ∀ (k : Nat) (o o' : PathedObject), (bs.flatMap FileSystemTree.iterate)[k]? = some o →
      (bs'.flatMap FileSystemTree.iterate)[k]? = some o' → seen o = seen o' →
      (StoredInFull call.env n (previous.map VersionArchive.getBaseObjects)
          (bs.flatMap FileSystemTree.iterate) k o ↔
        StoredInFull call'.env n (previous'.map VersionArchive.getBaseObjects)
          (bs'.flatMap FileSystemTree.iterate) k o') := by
    intro k o o' ho ho' hseen
    have hsame := hcriterion k o o' ho ho' hseen
    constructor
    · refine storedInFull_of_map_seen hos hseen fun oldObjects' hold' => ?_
      obtain ⟨a', ha', rfl⟩ := Option.map_eq_some_iff.mp hold'
      obtain ⟨a, ha⟩ := Option.ne_none_iff_exists'.mp (mt hnone.mp (by simp [ha']))
      subst ha
      subst ha'
      refine ⟨_, rfl, fun hexamined oldFile' hcalled => ?_⟩
      exact SameCriterion.unchanged ⟨fun o o' ho => (h.criterium o' o ho.symm).symm,
        fun o o' f f' ho hf => (h.custom o' o f' f ho.symm hf.symm).symm, h.hash.symm,
        hsame.read.symm⟩ hseen.symm
        ((hfound a a' rfl rfl).found bs bs' hbase hbase' k o o' ho ho' hexamined).symm hcalled
    · refine storedInFull_of_map_seen hos.symm hseen.symm fun oldObjects hold => ?_
      obtain ⟨a, ha, rfl⟩ := Option.map_eq_some_iff.mp hold
      obtain ⟨a', ha'⟩ := Option.ne_none_iff_exists'.mp (mt hnone.mpr (by simp [ha]))
      subst ha
      subst ha'
      exact ⟨_, rfl, fun hexamined oldFile hcalled => hsame.unchanged hseen
        ((hfound a a' rfl rfl).found bs bs' hbase hbase' k o o' ho ho'
          (examined_of_map_seen hos.symm hseen.symm hexamined)) hcalled⟩
  refine ⟨?_, fun i full => ?_⟩
  · have hfilter : ∀ os : List PathedObject,
        (os.filter fun o => o.2.isMain).map (fun o => o.1.unmappedPath) =
          ((os.map seen).filter fun x => x.2.isMain).map Prod.fst := by
      intro os
      rw [List.filter_map, List.map_map]
      rfl
    rw [harchive.mainPaths_eq, harchive'.mainPaths_eq, hfilter, hfilter, hos]
  · rw [hheap, hheap']
    exact ⟨stores_of_map_seen harchive.generation harchive'.generation hos hfull,
      stores_of_map_seen harchive'.generation harchive.generation hos.symm
        fun k o o' ho ho' hseen => (hfull k o' o ho' ho hseen.symm).symm⟩

/-- Two chains of the same backups have the same sources and make the same decisions if every backup
but the first finds the same of the previous versions in both. -/
theorem sameDecisions_of_freshBackups {culture culture' : Culture}
    {targetLocation targetLocation' : Str} {vs ws : List Version} {dir dir' : TargetDirectory}
    (hvs : FreshBackups culture targetLocation vs dir)
    (hws : FreshBackups culture' targetLocation' ws dir')
    (hsame : ∀ (k : Nat) (v w : Version), vs[k]? = some v → ws[k]? = some w →
      SameBackup v.call w.call (previousVersion vs k) (previousVersion ws k))
    (hfound : ∀ (k : Nat) (v w v' w' : Version), vs[k]? = some v → ws[k]? = some w →
      vs[k + 1]? = some v' → ws[k + 1]? = some w' →
      FoundAlike v'.call w'.call v.archive w.archive) :
    ∀ (k : Nat) (v w : Version), vs[k]? = some v → ws[k]? = some w →
      v.archive.mainPaths = w.archive.mainPaths ∧
      ∃ r r', v.call.newVersion k (previousVersion vs k) = .ok r ∧ r.archive = v.archive ∧
        w.call.newVersion k (previousVersion ws k) = .ok r' ∧ r'.archive = w.archive ∧
        ∀ i full, Stores r.heap i full ↔ Stores r'.heap i full := by
  intro k v w hv hw
  obtain ⟨r, hr, hrv⟩ := hvs.hasChain.chain.newVersion_eq_ok hv
  obtain ⟨r', hr', hrw⟩ := hws.hasChain.chain.newVersion_eq_ok hw
  have hnone : previousVersion vs k = none ↔ previousVersion ws k = none := by
    cases k with
    | zero => exact Iff.rfl
    | succ k =>
      have hk : k < vs.length := by
        have := (List.getElem?_eq_some_iff.mp hv).1
        omega
      have hk' : k < ws.length := by
        have := (List.getElem?_eq_some_iff.mp hw).1
        omega
      rw [previousVersion_succ (List.getElem?_eq_getElem hk),
        previousVersion_succ (List.getElem?_eq_getElem hk')]
      exact iff_of_false nofun nofun
  obtain ⟨hmain, hstores⟩ := (hsame k v w hv hw).sameDecisions hnone (fun a a' ha ha' => by
    obtain ⟨m, x, rfl, hx, rfl⟩ := previousVersion_eq_some hv ha
    obtain ⟨m', y, hm, hy, rfl⟩ := previousVersion_eq_some hw ha'
    obtain rfl : m = m' := by omega
    exact hfound m x y v w hx hy hv hw) hr hr'
  rw [hrv, hrw] at hmain
  exact ⟨hmain, r, r', hr, hrv, hr', hrw, hstores⟩

/-! ### A directory that is also in shadow copies -/

/-- Backups of the directories `C:\d` with a file `f` and `D:\e` with a file `g`; the shadow copies
`S1` and `S2` of the volume `C:` have the first one too. -/
def shadowBackup (sourceLocations : List Str) (shadows : Option (List Shadow)) : BackupCall where
  env := .plain
    { lookup := fun path =>
        if path = ['C', ':', '\\', 'd'] ∨ path = ['S', '1', '\\', 'd'] ∨
            path = ['S', '2', '\\', 'd'] then
          some ⟨{ name := ['d'], type := some .directory },
            .cons { name := ['f'], type := some .regularFile, size := some 1, guid := .found 7 }
              .nil .nil⟩
        else if path = ['D', ':', '\\', 'e'] then
          some ⟨{ name := ['e'], type := some .directory },
            .cons { name := ['g'], type := some .regularFile, size := some 1, guid := .found 8 }
              .nil .nil⟩
        else none
      getFileGuid := fun _ => .failed
      readFile := fun _ => some [1] }
    fun o => if o.2.isDirectoryish then .directory else .full
  sourceLocations := sourceLocations
  shadows := shadows
  startTime := 0
  writeError := none

/-- A shadow copy of the volume `C:`. -/
def shadowOfVolume (device : Str) : Shadow := ⟨device, [['C', ':', '\\']]⟩

def oneDirectory : List Str := [['C', ':', '\\', 'd']]

def bothDirectories : List Str := [['C', ':', '\\', 'd'], ['D', ':', '\\', 'e']]

/-- A backup of both directories with a shadow copy. -/
abbrev deviceBackup (device : Str) : BackupCall :=
  shadowBackup bothDirectories (some [shadowOfVolume device])

/-- What is found of an object in an archive. -/
def foundIn (a : VersionArchive) (o : PathedObject) : Option FileSystemObject :=
  (findPath .ordinal a.getBaseObjects o.1.mappedPath).map FileSystemObject.unmapped

lemma sameBackup_shadowBackup {sourceLocations : List Str} {shadows shadows' : Option (List Shadow)}
    {previous previous' : Option VersionArchive}
    (hlookup : ∀ location ∈ (shadowBackup sourceLocations shadows).locations previous,
      location ∈ (shadowBackup sourceLocations shadows').locations previous' →
      (shadowBackup [] none).env.fs.lookup
          ((shadowBackup sourceLocations shadows).mapPathForward location) =
        (shadowBackup [] none).env.fs.lookup
          ((shadowBackup sourceLocations shadows').mapPathForward location)) :
    SameBackup (shadowBackup sourceLocations shadows) (shadowBackup sourceLocations shadows')
      previous previous' where
  listSort := rfl
  natural := ListSort.natural_insertion
  mode o o' hseen := by
    have hdirectoryish : o.2.isDirectoryish = o'.2.isDirectoryish :=
      show o.2.unmapped.isDirectoryish = o'.2.unmapped.isDirectoryish by
        rw [show o.2.unmapped = o'.2.unmapped from congrArg Prod.snd hseen]
    simp only [shadowBackup, BackupEnv.plain, hdirectoryish]
  sourceLocations := rfl
  criterium _ _ _ := rfl
  custom _ _ _ _ _ _ := rfl
  hash := rfl
  lookup := hlookup
  names location hlocation entry hentry := by
    simp only [shadowBackup, BackupEnv.plain] at hentry
    split_ifs at hentry
    · obtain rfl := Option.some.inj hentry
      simp [FileSystemObject.ValidNames, Forest.toList]
    · obtain rfl := Option.some.inj hentry
      simp [FileSystemObject.ValidNames, Forest.toList]
  guid _ _ _ _ _ _ _ _ _ := rfl
  read _ _ _ _ _ _ _ _ _ := rfl

/-- The first backup is made without shadow copies, and the second with one that is `S1` or `S2`.
The file `f` is not found in the first version and is stored again, and `g` is found and is not. -/
theorem sameDecisions_shadow : ∃ (vs ws : List Version) (dir dir' : TargetDirectory) (v w : Version),
    FreshBackups .ordinal ['T'] vs dir ∧ FreshBackups .ordinal ['T'] ws dir' ∧
      vs[1]? = some v ∧ ws[1]? = some w ∧
      v.call.shadows = some [shadowOfVolume ['S', '1']] ∧
      w.call.shadows = some [shadowOfVolume ['S', '2']] ∧
      v.archive.mainPaths = w.archive.mainPaths ∧
      ∃ r r', v.call.newVersion 1 (previousVersion vs 1) = .ok r ∧ r.archive = v.archive ∧
        w.call.newVersion 1 (previousVersion ws 1) = .ok r' ∧ r'.archive = w.archive ∧
        Stores r.heap 1 true ∧ Stores r.heap 3 false ∧
        ∀ i full, Stores r.heap i full ↔ Stores r'.heap i full := by
  obtain ⟨e, e1, e1', a, r, r', bs, bs', hfirst, hr, hr', hbackup, hbackup', hlocations,
    hlocations', hbase, hbase', hfind, hfull, hreference⟩ :
      ∃ e e1 e1' a r r' bs bs',
      (engineOf []).performBackup (shadowBackup bothDirectories none) [] =
        .ok (e, [(getVersionName 0, some a)]) ∧
      (deviceBackup ['S', '1']).newVersion 1 (some a) = .ok r ∧
      (deviceBackup ['S', '2']).newVersion 1 (some a) = .ok r' ∧
      (engineOf [0]).performBackup (deviceBackup ['S', '1']) [(getVersionName 0, some a)] =
        .ok (e1, [(getVersionName 0, some a), (getVersionName 1, some r.archive)]) ∧
      (engineOf [0]).performBackup (deviceBackup ['S', '2']) [(getVersionName 0, some a)] =
        .ok (e1', [(getVersionName 0, some a), (getVersionName 1, some r'.archive)]) ∧
      (deviceBackup ['S', '1']).locations (some a) = bothDirectories ∧
      (deviceBackup ['S', '2']).locations (some a) = bothDirectories ∧
      (deviceBackup ['S', '1']).baseObjects (some a) = .ok bs ∧
      (deviceBackup ['S', '2']).baseObjects (some a) = .ok bs' ∧
      (bs.flatMap FileSystemTree.iterate).map (foundIn a) =
        (bs'.flatMap FileSystemTree.iterate).map (foundIn a) ∧
      Stores r.heap 1 true ∧ Stores r.heap 3 false :=
    ⟨_, _, _, _, _, _, _, _, rfl, rfl, rfl, rfl, rfl, rfl, rfl, rfl, rfl, rfl,
      ⟨0, _, rfl, List.mem_cons_self, rfl⟩, ⟨1, _, rfl, List.mem_cons_self, rfl⟩⟩
  have hruns : FreshBackups .ordinal ['T'] [⟨shadowBackup bothDirectories none, a⟩]
      [(getVersionName 0, some a)] :=
    .backup (e := engineOf []) _ (.nil _) rfl hfirst rfl
  have hvs : FreshBackups .ordinal ['T']
      [⟨shadowBackup bothDirectories none, a⟩, ⟨deviceBackup ['S', '1'], r.archive⟩] _ :=
    .backup (e := engineOf [0]) _ hruns rfl hbackup rfl
  have hws : FreshBackups .ordinal ['T']
      [⟨shadowBackup bothDirectories none, a⟩, ⟨deviceBackup ['S', '2'], r'.archive⟩] _ :=
    .backup (e := engineOf [0]) _ hruns rfl hbackup' rfl
  obtain ⟨hmain, s, s', hs, -, hs', -, hstores⟩ := sameDecisions_of_freshBackups hvs hws
    (fun k v w hv hw => by
      match k, hv, hw with
      | 0, hv, hw =>
        obtain rfl := Option.some.inj hv
        obtain rfl := Option.some.inj hw
        exact sameBackup_shadowBackup fun _ _ _ => rfl
      | 1, hv, hw =>
        obtain rfl := Option.some.inj hv
        obtain rfl := Option.some.inj hw
        refine sameBackup_shadowBackup fun location hlocation _ => ?_
        rw [show previousVersion _ 1 = some a from rfl, ← deviceBackup, hlocations, bothDirectories,
          List.mem_cons, List.mem_singleton] at hlocation
        rcases hlocation with rfl | rfl <;> rfl)
    (fun k v w v' w' hv hw hv' hw' => by
      match k, hv, hw, hv', hw' with
      | 0, hv, hw, hv', hw' =>
        obtain rfl := Option.some.inj hv
        obtain rfl := Option.some.inj hw
        obtain rfl := Option.some.inj hv'
        obtain rfl := Option.some.inj hw'
        refine ⟨hlocations.trans hlocations'.symm, fun x x' hx hx' i o o' ho ho' _ => ?_⟩
        obtain rfl := Except.ok.inj (hbase.symm.trans hx)
        obtain rfl := Except.ok.inj (hbase'.symm.trans hx')
        have hi := congrArg (fun l => l[i]?) hfind
        simp only [List.getElem?_map, ho, ho', Option.map_some, Option.some.injEq] at hi
        exact hi)
    1 _ _ rfl rfl
  obtain rfl := Except.ok.inj (hr.symm.trans hs)
  obtain rfl := Except.ok.inj (hr'.symm.trans hs')
  exact ⟨_, _, _, _, _, _, hvs, hws, rfl, rfl, rfl, rfl, hmain, r, r', hs, rfl, hs', rfl, hfull,
    hreference, hstores⟩

/-- The second backup takes the paths of the former shadow copies for source locations. -/
theorem not_sameDecisions_shadow : ∃ (vs ws : List Version) (dir dir' : TargetDirectory) (v w : Version),
    FreshBackups .ordinal ['T'] vs dir ∧ FreshBackups .ordinal ['T'] ws dir' ∧
      (∀ (k : Nat) (v w : Version), vs[k]? = some v → ws[k]? = some w →
        SameBackup v.call w.call (previousVersion vs k) (previousVersion ws k)) ∧
      vs[1]? = some v ∧ ws[1]? = some w ∧
      v.archive.mainPaths = oneDirectory ∧
      w.archive.mainPaths = [['S', '1', '\\', 'd']] := by
  obtain ⟨e1, e2, r1, r2, hbackup1, hbackup2, hlocations, hmain⟩ : ∃ e1 e2 r1 r2,
      (engineOf []).performBackup (shadowBackup oneDirectory none) [] =
        .ok (e1, [(getVersionName 0, some r1)]) ∧
      (engineOf [0]).performBackup (shadowBackup oneDirectory none) [(getVersionName 0, some r1)] =
        .ok (e2, [(getVersionName 0, some r1), (getVersionName 1, some r2)]) ∧
      (shadowBackup oneDirectory none).locations (some r1) = oneDirectory ∧
      r2.mainPaths = oneDirectory :=
    ⟨_, _, _, _, rfl, rfl, rfl, rfl⟩
  obtain ⟨f1, f2, s1, s2, hshadow1, hshadow2, hlocations', hmain'⟩ : ∃ f1 f2 s1 s2,
      (engineOf []).performBackup
        (shadowBackup oneDirectory (some [shadowOfVolume ['S', '1']])) [] =
        .ok (f1, [(getVersionName 0, some s1)]) ∧
      (engineOf [0]).performBackup (shadowBackup oneDirectory (some [shadowOfVolume ['S', '1']]))
          [(getVersionName 0, some s1)] =
        .ok (f2, [(getVersionName 0, some s1), (getVersionName 1, some s2)]) ∧
      (shadowBackup oneDirectory (some [shadowOfVolume ['S', '1']])).locations (some s1) =
        [['S', '1', '\\', 'd']] ∧
      s2.mainPaths = [['S', '1', '\\', 'd']] :=
    ⟨_, _, _, _, rfl, rfl, rfl, rfl⟩
  have hfirst : FreshBackups .ordinal ['T'] [⟨shadowBackup oneDirectory none, r1⟩]
      [(getVersionName 0, some r1)] :=
    .backup (e := engineOf []) _ (.nil _) rfl hbackup1 rfl
  have hfirst' : FreshBackups .ordinal ['T']
      [⟨shadowBackup oneDirectory (some [shadowOfVolume ['S', '1']]), s1⟩]
      [(getVersionName 0, some s1)] :=
    .backup (e := engineOf []) _ (.nil _) rfl hshadow1 rfl
  refine ⟨[⟨shadowBackup oneDirectory none, r1⟩, ⟨shadowBackup oneDirectory none, r2⟩],
    [⟨shadowBackup oneDirectory (some [shadowOfVolume ['S', '1']]), s1⟩,
      ⟨shadowBackup oneDirectory (some [shadowOfVolume ['S', '1']]), s2⟩],
    _, _, _, _, .backup (e := engineOf [0]) _ hfirst rfl hbackup2 rfl,
    .backup (e := engineOf [0]) _ hfirst' rfl hshadow2 rfl, ?_, rfl, rfl, hmain, hmain'⟩
  intro k v w hv hw
  match k, hv, hw with
  | 0, hv, hw =>
    obtain rfl := Option.some.inj hv
    obtain rfl := Option.some.inj hw
    refine sameBackup_shadowBackup fun location hlocation _ => ?_
    obtain rfl := List.mem_singleton.mp hlocation
    rfl
  | 1, hv, hw =>
    obtain rfl := Option.some.inj hv
    obtain rfl := Option.some.inj hw
    refine sameBackup_shadowBackup fun location hlocation _ => ?_
    obtain rfl := List.mem_singleton.mp (hlocations ▸ hlocation)
    rfl

end BackupProgram
