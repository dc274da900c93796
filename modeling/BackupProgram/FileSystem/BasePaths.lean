import BackupProgram.Engine.PathMapper.MountPaths
import BackupProgram.FileSystem.Create

/-!
# Base paths

An object stores one name and two containers, and objects below it store nothing but their names.
The path under which a source is read in a snapshot and the path that the user has given are put
together again from these.
-/

namespace BackupProgram

open StringUtils Results

/-- The path followed by names. -/
def followedBy (path : Str) (names : List Str) : Str := path ++ names.flatMap ('\\' :: ·)

/-- What the operating system calls a file or a folder. -/
def IsComponent (name : Str) : Prop := name ≠ [] ∧ '\\' ∉ name

/-- A single component behind a backslash. The backslash gets lost, since the container is empty. -/
def LosesBackslash (path : Str) : Prop :=
  ∃ name, '\\' ∉ name ∧ ensureLastCharacterIsNotBackslash path = '\\' :: name

instance (path : Str) : Decidable (LosesBackslash path) :=
  decidable_of_iff ((ensureLastCharacterIsNotBackslash path).head? = some '\\' ∧
      '\\' ∉ (ensureLastCharacterIsNotBackslash path).tail) (by
    rw [LosesBackslash]
    cases ensureLastCharacterIsNotBackslash path with
    | nil => simp
    | cons c name => simp [and_comm])

/-! ### Containers and names -/

section Names

lemma followedBy_concat (path : Str) (names : List Str) (name : Str) :
    followedBy path (names ++ [name]) = followedBy path names ++ '\\' :: name := by
  simp [followedBy]

lemma appendName_followedBy {path : Str} (hpath : path ≠ []) (names : List Str) (name : Str) :
    appendName (followedBy path names) name = followedBy path (names ++ [name]) := by
  have hne : (followedBy path names).isEmpty = false := by
    simpa [followedBy] using fun h => absurd h hpath
  rw [appendName, hne, followedBy_concat]
  rfl

/-- A path consists of its container, if there is one, and its name. -/
lemma splitIntoObjectAndContainer_cases {path : Str} {parts : Str × Str}
    (h : splitIntoObjectAndContainer path = some parts) :
    ensureLastCharacterIsNotBackslash path ≠ [] ∧ '\\' ∉ parts.2 ∧
      (parts.1 = [] ∧ ensureLastCharacterIsNotBackslash path = parts.2 ∨
        ensureLastCharacterIsNotBackslash path = parts.1 ++ '\\' :: parts.2) := by
  simp only [splitIntoObjectAndContainer] at h
  split_ifs at h with hempty
  rw [Option.some.injEq] at h
  subst h
  have hjoin : (ensureLastCharacterIsNotBackslash path).rdropWhile (· != '\\') ++
      (ensureLastCharacterIsNotBackslash path).rtakeWhile (· != '\\') =
        ensureLastCharacterIsNotBackslash path := List.rdropWhile_append_rtakeWhile
  refine ⟨by simpa using hempty, fun hmem => by simpa using List.mem_rtakeWhile_imp hmem, ?_⟩
  rcases List.eq_nil_or_concat
    ((ensureLastCharacterIsNotBackslash path).rdropWhile (· != '\\')) with
    hdrop | ⟨init, last, hdrop⟩
  · rw [hdrop, List.nil_append] at hjoin
    exact .inl ⟨by rw [hdrop]; rfl, hjoin.symm⟩
  · have hlast : last = '\\' := by
      have := List.rdropWhile_last_not (· != '\\') (ensureLastCharacterIsNotBackslash path)
        (by simp [hdrop])
      simpa [hdrop] using this
    rw [hdrop, hlast, List.concat_eq_append] at hjoin
    refine .inr ?_
    rw [hdrop, List.concat_eq_append, List.dropLast_concat]
    simpa using hjoin.symm

/-- The container and a name make up a path again if the name is that of the path and the container
has not swallowed a backslash. -/
lemma appendName_eq_iff {path other : Str} {parts : Str × Str}
    (h : splitIntoObjectAndContainer path = some parts) (hother : '\\' ∉ other) :
    appendName parts.1 other = ensureLastCharacterIsNotBackslash path ↔
      other = parts.2 ∧ ¬ LosesBackslash path := by
  obtain ⟨-, hname, ⟨hcontainer, hpath⟩ | hpath⟩ := splitIntoObjectAndContainer_cases h
  · have hkeeps : ¬ LosesBackslash path := by
      rintro ⟨name', -, hname'⟩
      rw [hpath] at hname'
      exact hname (hname' ▸ List.mem_cons_self)
    simp [appendName, hcontainer, hpath, hkeeps]
  · obtain ⟨container, name⟩ := parts
    cases container with
    | nil =>
      have hloses : LosesBackslash path := ⟨name, hname, hpath⟩
      rw [hpath]
      simp only [appendName, List.isEmpty_nil, if_true, List.nil_append, hloses, not_true,
        and_false, iff_false]
      rintro rfl
      exact hother List.mem_cons_self
    | cons c container =>
      have hkeeps : ¬ LosesBackslash path := by
        rintro ⟨name', hmem, hname'⟩
        rw [hpath, List.cons_append, List.cons.injEq] at hname'
        exact hmem (hname'.2 ▸ by simp)
      simp [appendName, hpath, hkeeps]

/-! ### The loop that looks for the last backslash -/

/-- `LastIndexOf('\\')`, which is -1 if there is none. -/
def lastBackslash : Str → Int
  | [] => -1
  | c :: path =>
    if 0 ≤ lastBackslash path then lastBackslash path + 1 else if c == '\\' then 0 else -1

/-- The loop of `SplitIntoObjectAndContainer`: the path that remains. There is none when `Substring`
is asked for less than nothing. -/
def trimLoop (path : Str) : Option Str :=
  if lastBackslash path = path.length - 1 then
    if path = [] then none else trimLoop path.dropLast
  else some path
termination_by path.length
decreasing_by
  have := List.length_pos_iff.mpr ‹path ≠ []›
  simp only [List.length_dropLast]
  omega

/-- `SplitIntoObjectAndContainer` as it is written; `none` as an argument is null. -/
def splitAtLastBackslash (path : Option Str) : Option (Str × Str) :=
  (trimLoop (path.getD [])).map fun path =>
    let index := lastBackslash path
    if index < 0 ∨ (path.length : Int) ≤ index then ([], path)
    else (path.take index.toNat, path.drop (index.toNat + 1))

lemma lastBackslash_concat (path : Str) (last : Char) :
    lastBackslash (path ++ [last]) =
      if last = '\\' then (path.length : Int) else lastBackslash path := by
  induction path with
  | nil => simp [lastBackslash]
  | cons c path ih =>
    rw [List.cons_append, lastBackslash, ih, lastBackslash]
    split_ifs <;> grind

lemma lastBackslash_lt (path : Str) : lastBackslash path < path.length := by
  induction path with
  | nil => simp [lastBackslash]
  | cons c path ih =>
    rw [lastBackslash]
    grind

/-- The loop removes the backslashes at the end, and fails if nothing else is there. -/
lemma trimLoop_eq (path : Str) :
    trimLoop path = if ensureLastCharacterIsNotBackslash path = [] then none
      else some (ensureLastCharacterIsNotBackslash path) := by
  induction path using List.reverseRecOn with
  | nil => rw [trimLoop]; simp [lastBackslash, ensureLastCharacterIsNotBackslash]
  | append_singleton path last ih =>
    have hlt := lastBackslash_lt path
    rw [trimLoop, lastBackslash_concat, ensureLastCharacterIsNotBackslash, List.rdropWhile_concat]
    by_cases hlast : last = '\\'
    · simp only [hlast, if_true, List.dropLast_concat, ih]
      simp [ensureLastCharacterIsNotBackslash]
    · simp only [hlast, if_false]
      rw [if_neg (by simp; omega)]
      simp [hlast]

lemma lastBackslash_spec (path : Str) :
    lastBackslash path = -1 ∧ '\\' ∉ path ∨
      ∃ container name, path = container ++ '\\' :: name ∧ '\\' ∉ name ∧
        lastBackslash path = container.length := by
  induction path using List.reverseRecOn with
  | nil => exact .inl ⟨rfl, by simp⟩
  | append_singleton path last ih =>
    rw [lastBackslash_concat]
    split_ifs with hlast
    · exact .inr ⟨path, [], by rw [hlast], by simp, rfl⟩
    · rcases ih with ⟨hindex, hmem⟩ | ⟨container, name, rfl, hmem, hindex⟩
      · exact .inl ⟨hindex, by simp [hmem, Ne.symm hlast]⟩
      · exact .inr ⟨container, name ++ [last], by simp, by simp [hmem, Ne.symm hlast], hindex⟩

/-- The loop finds the same container and name. -/
lemma splitAtLastBackslash_eq (path : Option Str) :
    splitAtLastBackslash path = splitIntoObjectAndContainer (path.getD []) := by
  rw [splitAtLastBackslash, trimLoop_eq, splitIntoObjectAndContainer]
  by_cases hempty : ensureLastCharacterIsNotBackslash (path.getD []) = []
  · simp [hempty]
  simp only [hempty, if_false, List.isEmpty_iff, Option.map_some, Option.some.injEq]
  rcases lastBackslash_spec (ensureLastCharacterIsNotBackslash (path.getD [])) with
    ⟨hindex, hmem⟩ | ⟨container, name, hpath, hmem, hindex⟩
  · have hall : ∀ c ∈ ensureLastCharacterIsNotBackslash (path.getD []), (c != '\\') = true := by
      intro c hc
      rw [bne_iff_ne]
      rintro rfl
      exact hmem hc
    rw [if_pos (.inl (by omega)), List.rdropWhile_eq_nil_iff.mpr hall,
      List.rtakeWhile_eq_self_iff.mpr hall]
    rfl
  · have hall : ∀ c ∈ name.reverse, (c != '\\') = true := by
      intro c hc
      rw [bne_iff_ne]
      rintro rfl
      exact hmem (List.mem_reverse.mp hc)
    rw [hindex, hpath, if_neg (by simp), List.rdropWhile, List.rtakeWhile]
    simp [List.takeWhile_append_of_pos hall, List.dropWhile_append_of_pos hall, List.drop_append]

/-- A path is put together again from its container and its name exactly if there is a name and the
container has not swallowed a backslash. -/
theorem splitAtLastBackslash_lossless_iff (path : Option Str) :
    (∃ container name, splitAtLastBackslash path = some (container, name) ∧ '\\' ∉ name ∧
      appendName container name = ensureLastCharacterIsNotBackslash (path.getD [])) ↔
    (∃ c ∈ path.getD [], c ≠ '\\') ∧ ¬ LosesBackslash (path.getD []) := by
  have hempty : (∃ c ∈ path.getD [], c ≠ '\\') ↔
      ensureLastCharacterIsNotBackslash (path.getD []) ≠ [] := by
    rw [Ne, ensureLastCharacterIsNotBackslash, List.rdropWhile_eq_nil_iff]
    simp
  rw [hempty, splitAtLastBackslash_eq]
  constructor
  · rintro ⟨container, name, hsplit, hname, hjoin⟩
    exact ⟨(splitIntoObjectAndContainer_cases hsplit).1,
      ((appendName_eq_iff hsplit hname).mp hjoin).2⟩
  · rintro ⟨hne, hkeeps⟩
    have hsome : ∃ parts, splitIntoObjectAndContainer (path.getD []) = some parts := by
      simp [splitIntoObjectAndContainer, hne]
    obtain ⟨parts, hsplit⟩ := hsome
    have hname := (splitIntoObjectAndContainer_cases hsplit).2.1
    exact ⟨parts.1, parts.2, hsplit, hname, (appendName_eq_iff hsplit hname).mpr ⟨rfl, hkeeps⟩⟩

/-- The empty path is not split, and the one of a folder in the root directory of the current drive
loses its backslash. -/
theorem splitAtLastBackslash_fails :
    splitAtLastBackslash (some []) = none ∧ splitAtLastBackslash none = none ∧
      splitAtLastBackslash (some ['\\', 'a']) = some ([], ['a']) ∧
      appendName [] ['a'] ≠ ensureLastCharacterIsNotBackslash ['\\', 'a'] := by
  simp only [splitAtLastBackslash_eq]
  decide

lemma ensureLastCharacterIsNotBackslash_append {before path : Str}
    (h : ensureLastCharacterIsNotBackslash path ≠ []) :
    ensureLastCharacterIsNotBackslash (before ++ path) =
      before ++ ensureLastCharacterIsNotBackslash path := by
  induction path using List.reverseRecOn with
  | nil => exact absurd rfl h
  | append_singleton path last ih =>
    simp only [ensureLastCharacterIsNotBackslash, ← List.append_assoc,
      List.rdropWhile_concat] at h ih ⊢
    split_ifs at h ⊢
    · exact ih h
    · exact List.append_assoc ..

/-- The last name is found in what follows a backslash, if there is any. -/
lemma getNameFromPath_append {before path : Str} (h : ensureLastCharacterIsNotBackslash path ≠ []) :
    getNameFromPath (before ++ '\\' :: path) = getNameFromPath path := by
  have hjoin : before ++ '\\' :: path = (before ++ ['\\']) ++ path := by simp
  have htake : (before ++ '\\' :: ensureLastCharacterIsNotBackslash path).rtakeWhile (· != '\\') =
      (ensureLastCharacterIsNotBackslash path).rtakeWhile (· != '\\') := by
    simp only [List.rtakeWhile, List.reverse_append, List.takeWhile_append, List.reverse_cons,
      List.append_assoc, List.cons_append, List.nil_append, List.takeWhile_cons, bne_self_eq_false,
      Bool.false_eq_true, if_false, List.append_nil, List.reverse_inj]
    split_ifs with hall
    · exact ((List.takeWhile_prefix _).eq_of_length hall).symm
    · rfl
  rw [hjoin, getNameFromPath, getNameFromPath, splitIntoObjectAndContainer,
    splitIntoObjectAndContainer, ensureLastCharacterIsNotBackslash_append h]
  simp [h, htake]

lemma IsComponent.ensureLastCharacterIsNotBackslash_eq {name : Str} (h : IsComponent name) :
    ensureLastCharacterIsNotBackslash name = name := by
  refine List.rdropWhile_eq_self_iff.mpr fun hne hlast => h.2 ?_
  rw [← beq_iff_eq.mp hlast]
  exact List.getLast_mem hne

lemma IsComponent.getNameFromPath_eq {name : Str} (h : IsComponent name) :
    getNameFromPath name = some name := by
  have htake : name.rtakeWhile (· != '\\') = name := by
    refine List.rtakeWhile_eq_self_iff.mpr fun c hc => ?_
    rw [bne_iff_ne]
    rintro rfl
    exact h.2 hc
  simp [getNameFromPath, splitIntoObjectAndContainer, h.ensureLastCharacterIsNotBackslash_eq, htake,
    h.1]

/-- A path in a snapshot has another last name only if the source is a mount path. -/
lemma getNameFromPath_mapPath {culture : Culture} {list : PathMap} {path : Str}
    (hline : '\n' ∉ path) :
    getNameFromPath (mapPath culture path (some list)) = getNameFromPath path ∨
      ∃ tuple g, Longest culture list path tuple g ∧ ensureLastCharacterIsNotBackslash g = [] := by
  rcases mapPath_cases culture path list with ⟨tuple, g, h, hmap⟩ | ⟨-, hmap⟩
  · obtain ⟨i, hi⟩ := exists_of_matchPath h.matched
    rw [matchAtStart_eq fun h => hline (List.mem_of_mem_drop (List.mem_of_mem_drop h))] at hi
    split_ifs at hi with habove
    have hg : path.drop (i + tuple.1.length) = g := by
      rw [← List.drop_drop]
      exact Option.some.inj hi
    have hhead := habove.2
    rw [List.drop_drop, hg] at hhead
    cases g with
    | nil => exact .inr ⟨tuple, [], h, rfl⟩
    | cons c g =>
      obtain rfl : c = '\\' := hhead c rfl
      by_cases hname : ensureLastCharacterIsNotBackslash g = []
      · refine .inr ⟨tuple, _, h, ?_⟩
        rw [ensureLastCharacterIsNotBackslash, List.rdropWhile_eq_nil_iff] at hname ⊢
        simpa using hname
      · refine .inl ?_
        rw [hmap, getNameFromPath_append hname,
          ← List.take_append_drop (i + tuple.1.length) path, hg, getNameFromPath_append hname]
  · exact .inl (by rw [hmap])

end Names

/-! ### The way to an object -/

namespace FileSystemTree

/-- Every object with the names on the way to it from the base object, which is reached without
any. -/
def reached (t : FileSystemTree) : RoseTree (List Str × PathedObject) :=
  (pathed t).inherit (fun names o => names ++ [o.2.name]) []

end FileSystemTree

/-- Every entry below a path with the path at which it is enumerated. -/
def enumeratedEntries (path : Str) (entry : RoseTree Entry) : RoseTree (Str × Entry) :=
  entry.inherit (fun path e => FileSystemObject.enumerated path e.name) path

/-- The object is made from an entry by the constructors, at the path of the entry. -/
def CreatedFrom (settings : Settings) (path : Str) (e : Entry) (fso : FileSystemObject) : Prop :=
  ∃ paths new, FileSystemObject.construct settings paths path e new = .ok fso

/-- The paths of all objects are those of the source with the names of the objects, and the path
of an object in the snapshot is the one at which the object has been found. -/
structure PathsRight (settings : Settings) (t : FileSystemTree) (entry : RoseTree Entry)
    (path unmappedPath : Str) : Prop where
  paths : ∀ o ∈ t.reached.toList, o.2.1 =
    ⟨followedBy (ensureLastCharacterIsNotBackslash path) o.1,
      followedBy (ensureLastCharacterIsNotBackslash unmappedPath) o.1⟩
  opened : (∀ e ∈ entry.children.toList, IsComponent e.name) →
    ∀ o ∈ t.reached.toList, ∃ found ∈ (enumeratedEntries path entry).toList,
      CreatedFrom settings found.1 found.2 o.2.2 ∧
      o.2.1.mappedPath = ensureLastCharacterIsNotBackslash found.1

/-! ### Right paths -/

section PathsRight

variable {settings : Settings}

open FileSystemObject

lemma enumerated_followedBy {path top name : Str} {names : List Str}
    (h : ensureLastCharacterIsNotBackslash path = followedBy top names) (hname : IsComponent name) :
    ensureLastCharacterIsNotBackslash (enumerated path name) =
      followedBy top (names ++ [name]) := by
  have hne : ensureLastCharacterIsNotBackslash name ≠ [] := by
    rw [hname.ensureLastCharacterIsNotBackslash_eq]
    exact hname.1
  rw [enumerated, ← List.singleton_append, ← List.append_assoc,
    ensureLastCharacterIsNotBackslash_append hne, hname.ensureLastCharacterIsNotBackslash_eq, h,
    followedBy_concat, List.append_assoc, List.singleton_append]

/-- Children are named after their entries. -/
lemma name_of_enumerated {path name name' : Str} (hname : IsComponent name)
    (h : nameOf (enumerated path name) = .ok name') : name' = name := by
  have hne : ensureLastCharacterIsNotBackslash name ≠ [] := by
    rw [hname.ensureLastCharacterIsNotBackslash_eq]
    exact hname.1
  rw [nameOf, enumerated, getNameFromPath_append hne, hname.getNameFromPath_eq] at h
  exact (pure_eq_ok.mp h).symm

/-- What is below a path is made from the entries there, each at the path that its names say. -/
lemma exists_entry_of_constructChildrenList {paths : ObjectPaths} {path top : Str}
    {names : List Str} {entries : Forest Entry} {children : List FileSystemTree}
    (h : constructChildrenList settings paths path entries = .ok children)
    (hnames : ∀ e ∈ entries.toList, IsComponent e.name)
    (hpath : ensureLastCharacterIsNotBackslash path = followedBy top names) :
    ∀ t ∈ children, ∀ n ∈ (RoseTree.inherit (fun names fso => names ++ [fso.name])
        (names ++ [t.root.name]) t).toList,
      ∃ found ∈ (entries.inherit (fun path e => enumerated path e.name) path).toList,
        CreatedFrom settings found.1 found.2 n.2 ∧
        ensureLastCharacterIsNotBackslash found.1 = followedBy top n.1 := by
  induction entries generalizing paths path names children with
  | nil =>
    rw [constructChildrenList, pure_eq_ok] at h
    simp [← h]
  | cons e entries siblings ihe ihs =>
    obtain ⟨type, name, child, below, rest, -, hname, hchild, hbelow, hrest, rfl⟩ :=
      constructChildrenList_cons_eq_ok h
    simp only [Forest.toList, List.mem_cons, List.mem_append] at hnames
    obtain rfl := name_of_enumerated (hnames e (.inl rfl)) hname
    have hchildName : child.name = e.name := by rw [construct_eq_ok hchild]
    have hfound := enumerated_followedBy hpath (hnames e (.inl rfl))
    simp only [Forest.inherit, Forest.toList, List.mem_cons, List.mem_append]
    rintro t (rfl | ht) n hn
    · rw [RoseTree.inherit, RoseTree.toList, List.mem_cons] at hn
      rcases hn with rfl | hn
      · exact ⟨_, .inl rfl, ⟨_, _, hchild⟩, by rw [hfound, hchildName]⟩
      · obtain ⟨t, ht, hn⟩ := RoseTree.mem_inherit_ofTrees.mp hn
        rw [sortChildren, ListSort.mem_sortBy] at ht
        dsimp only at hn
        rw [hchildName] at hn
        split_ifs at hbelow
        · obtain ⟨found, hmem, hfound⟩ := ihe hbelow (fun e he => hnames e (.inr (.inl he))) hfound
            t ht n hn
          exact ⟨found, .inr (.inl hmem), hfound⟩
        · simp [hbelow] at ht
    · obtain ⟨found, hmem, hfound⟩ := ihs hrest (fun e he => hnames e (.inr (.inr he)))
        hpath t ht n hn
      exact ⟨found, .inr (.inr hmem), hfound⟩

/-- The paths are right if those of the base object are. -/
lemma pathsRight_of_basePaths {fs : FileSystemView} {path unmappedPath : Str} {t : FileSystemTree}
    {entry : RoseTree Entry} (hlookup : fs.lookup path = some entry)
    (h : create settings fs path unmappedPath = .ok t)
    (hbase : t.root.basePaths = ⟨ensureLastCharacterIsNotBackslash path,
      ensureLastCharacterIsNotBackslash unmappedPath⟩) :
    PathsRight settings t entry path unmappedPath := by
  obtain ⟨entry', type, mapped, unmapped, root, below, hlookup', -, hmapped, hunmapped, hroot,
    hbelow, rfl⟩ := create_eq_ok h
  obtain rfl : entry' = entry := Option.some.inj (hlookup'.symm.trans hlookup)
  have hne := (splitIntoObjectAndContainer_cases hmapped).1
  have hne' :=
    (splitIntoObjectAndContainer_cases hunmapped).1
  have hpaths : ∀ o ∈ (FileSystemTree.reached
      ⟨root, Forest.ofTrees (sortChildren settings below)⟩).toList, o.2.1 =
        ⟨followedBy (ensureLastCharacterIsNotBackslash path) o.1,
          followedBy (ensureLastCharacterIsNotBackslash unmappedPath) o.1⟩ := by
    rintro o ho
    rcases List.mem_cons.mp ho with rfl | ho
    · simpa [followedBy, FileSystemTree.reached, FileSystemTree.pathed, RoseTree.inherit]
        using hbase
    · refine Forest.inherit_inherit_rel (R := fun names paths => paths =
        ⟨followedBy (ensureLastCharacterIsNotBackslash path) names,
          followedBy (ensureLastCharacterIsNotBackslash unmappedPath) names⟩) ?_ ?_ o ho
      · rintro names paths fso - rfl
        simp only [ObjectPaths.child, appendName_followedBy hne, appendName_followedBy hne']
      · simpa [followedBy] using hbase
  refine ⟨hpaths, fun hnames o ho => ?_⟩
  rw [hpaths o ho]
  have hplain : (o.1, o.2.2) = ([], root) ∨ (o.1, o.2.2) ∈ ((Forest.ofTrees
      (sortChildren settings below)).inherit (fun names fso => names ++ [fso.name]) []).toList := by
    rcases List.mem_cons.mp ho with rfl | ho
    · exact .inl rfl
    · refine .inr ?_
      rw [← Forest.map_inherit_inherit ObjectPaths.child _ root.basePaths, Forest.toList_map]
      exact List.mem_map_of_mem ho
  rcases hplain with hplain | hplain
  · rw [Prod.mk.injEq] at hplain
    rw [hplain.1, hplain.2]
    exact ⟨(path, entry'.root), List.mem_cons_self, ⟨_, _, hroot⟩, by simp [followedBy]⟩
  · obtain ⟨child, hchild, hn⟩ := RoseTree.mem_inherit_ofTrees.mp hplain
    rw [sortChildren, ListSort.mem_sortBy] at hchild
    split_ifs at hbelow
    · have htop : ensureLastCharacterIsNotBackslash path =
          followedBy (ensureLastCharacterIsNotBackslash path) [] := by simp [followedBy]
      obtain ⟨found, hmem, hcreated, hfound⟩ :=
        exists_entry_of_constructChildrenList hbelow hnames htop child hchild _ hn
      exact ⟨found, List.mem_cons_of_mem _ hmem, hcreated, hfound.symm⟩
    · simp [hbelow] at hchild

lemma basePaths_eq_iff {fs : FileSystemView} {path unmappedPath : Str} {t : FileSystemTree}
    (h : create settings fs path unmappedPath = .ok t) :
    t.root.basePaths = ⟨ensureLastCharacterIsNotBackslash path,
        ensureLastCharacterIsNotBackslash unmappedPath⟩ ↔
      getNameFromPath path = getNameFromPath unmappedPath ∧
        ¬ LosesBackslash path ∧ ¬ LosesBackslash unmappedPath := by
  obtain ⟨_, _, mapped, unmapped, root, below, -, -, hmapped, hunmapped, hroot, -, hroot'⟩ :=
    create_eq_ok h
  have hslash := (splitIntoObjectAndContainer_cases hunmapped).2.1
  have hbase : t.root.basePaths =
      ⟨appendName mapped.1 unmapped.2, appendName unmapped.1 unmapped.2⟩ := by
    rw [hroot', construct_eq_ok hroot]
    rfl
  rw [hbase, ObjectPaths.mk.injEq,
    appendName_eq_iff hmapped hslash,
    appendName_eq_iff hunmapped hslash,
    getNameFromPath, getNameFromPath, hmapped, hunmapped, Option.map_some, Option.map_some,
    Option.some.injEq]
  tauto

variable {culture : Culture} {fs : FileSystemView} {u : Str} {entry : RoseTree Entry}
  {t : FileSystemTree}

/-- Sources and their paths in a snapshot are put together again, with all that is below them,
exactly if both paths end with the same name and neither of them is a name behind a backslash. -/
theorem create_pathsRight_iff {map : Option PathMap}
    (hlookup : fs.lookup (mapPath culture u map) = some entry)
    (h : create settings fs (mapPath culture u map) u = .ok t) :
    PathsRight settings t entry (mapPath culture u map) u ↔
      getNameFromPath (mapPath culture u map) = getNameFromPath u ∧
        ¬ LosesBackslash (mapPath culture u map) ∧ ¬ LosesBackslash u := by
  rw [← basePaths_eq_iff h]
  refine ⟨fun hright => ?_, pathsRight_of_basePaths hlookup h⟩
  simpa [followedBy] using hright.paths ([], (t.root.basePaths, t.root)) List.mem_cons_self

/-- The paths are right if something follows the mount path. -/
theorem create_pathsRight_below {list : PathMap}
    (hlookup : fs.lookup (mapPath culture u (some list)) = some entry)
    (h : create settings fs (mapPath culture u (some list)) u = .ok t) (hline : '\n' ∉ u)
    (hbelow : ∀ tuple g, Longest culture list u tuple g →
      ensureLastCharacterIsNotBackslash g ≠ [])
    (hmapped : ¬ LosesBackslash (mapPath culture u (some list))) (hunmapped : ¬ LosesBackslash u) :
    PathsRight settings t entry (mapPath culture u (some list)) u := by
  refine pathsRight_of_basePaths hlookup h ((basePaths_eq_iff h).mpr ⟨?_, hmapped, hunmapped⟩)
  rcases getNameFromPath_mapPath hline with hname | ⟨tuple, g, hlongest, hempty⟩
  · exact hname
  · exact absurd hempty (hbelow tuple g hlongest)

end PathsRight

/-! ### A folder and a volume -/

/-- Everything goes into the backup. -/
def plainSettings : Settings where
  reportError _ := false
  getBackupModeForObject o := (if o.2.isDirectoryish then .directory else .full, false)
  listSort := .insertion

/-- The drive is read from the first copy. -/
def driveMap : PathMap := [("C:".toList, "\\\\?\\Device\\Copy1".toList)]

/-- A directory with a file in it. -/
def directoryEntry : RoseTree Entry :=
  ⟨{ name := [], type := some .directory },
    .cons { name := ['f'], type := some .regularFile, guid := .found 1 } .nil .nil⟩

/-- The directory lies in the copy, at the given place. -/
def copyView (place : Str) : FileSystemView where
  lookup path := if path = "\\\\?\\Device\\Copy1".toList ++ place then some directoryEntry else none
  getFileGuid _ := .failed
  readFile _ := none

/-- What the backup of the directory contains. -/
def directoryTree (name container unmappedContainer : Str) : FileSystemTree :=
  ⟨{ type := .directory
     name := name
     mappedBasePath := container
     unmappedBasePath := unmappedContainer
     backupMode := .directory },
    .cons
      { type := .regularFile, name := ['f'], fileSystemGuid := some 1, backupMode := .full }
      .nil .nil⟩

theorem create_pathsRight_folder :
    PathsRight plainSettings (directoryTree ['d'] "\\\\?\\Device\\Copy1".toList "C:".toList)
      directoryEntry (mapPath .ordinal "C:\\d".toList (some driveMap)) "C:\\d".toList :=
  have hmap : mapPath .ordinal "C:\\d".toList (some driveMap) =
      "\\\\?\\Device\\Copy1".toList ++ "\\d".toList := by decide +kernel
  have hlookup : (copyView "\\d".toList).lookup
      (mapPath .ordinal "C:\\d".toList (some driveMap)) = some directoryEntry := by
    simp only [copyView, hmap, if_true]
  (create_pathsRight_iff hlookup (by decide +kernel)).mpr
    ⟨by decide +kernel, by decide +kernel, by decide +kernel⟩

/-- The file of a volume would be looked for below a device that has the name of the drive. -/
theorem create_volumeRoot :
    FileSystemObject.create plainSettings (copyView "\\".toList)
        (mapPath .ordinal "C:\\".toList (some driveMap)) "C:\\".toList =
      .ok (directoryTree "C:".toList "\\\\?\\Device".toList []) ∧
    (FileSystemTree.iterate (directoryTree "C:".toList "\\\\?\\Device".toList [])).map
        (fun o => o.1.mappedPath) = ["\\\\?\\Device\\C:".toList, "\\\\?\\Device\\C:\\f".toList] ∧
    ¬ PathsRight plainSettings (directoryTree "C:".toList "\\\\?\\Device".toList []) directoryEntry
      (mapPath .ordinal "C:\\".toList (some driveMap)) "C:\\".toList := by
  refine ⟨by decide +kernel, by decide +kernel, fun h => ?_⟩
  have hroot := h.paths _ List.mem_cons_self
  revert hroot
  decide +kernel

end BackupProgram
