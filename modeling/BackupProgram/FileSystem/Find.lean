import BackupProgram.FileSystem.FileSystemObject
import BackupProgram.Lib.Walk
import BackupProgram.Util.Normalization

/-!
# Finding objects

An object is found under its path, however that is spelled, and under no other. Since objects at
different places may have the same members, what is found is an object together with its paths.
-/

namespace BackupProgram

open StringUtils

/-- Comparison of strings is an equivalence. -/
def Culture.Compares (culture : Culture) : Prop :=
  Equivalence fun a b => culture.equalsIgnoreCase a b = true

namespace FileSystemTree

/-- Names are what paths are split into, and no two children of a directory have the same one,
ignoring case. -/
structure WellNamed (culture : Culture) (t : FileSystemTree) : Prop where
  names : ∀ fso ∈ t.toList, IsPart fso.name
  siblings : t.children.PairwiseSiblings fun a b => ¬ culture.equalsIgnoreCase a.name b.name

/-- `Find(string)`, with the paths of the object. -/
def findPathed (culture : Culture) (t : FileSystemTree) (path : Str) : Option PathedObject :=
  let myDecomposedPath := decomposePath t.root.basePaths.mappedPath
  let decomposedPath := decomposePath path
  if !pathStartsWith culture decomposedPath myDecomposedPath then none
  else if decomposedPath.length = myDecomposedPath.length then some (pathed t).root
  else
    match decomposedPath.drop (myDecomposedPath.length - 1) with
    | [] => none
    | part :: rest =>
      if !pathMatch culture part t.root.name then none
      else (pathed t).children.walk (fun part o => pathMatch culture part o.2.name) rest

end FileSystemTree

section Find

variable {culture : Culture}

lemma findChild_eq_walk (forest : Forest FileSystemObject) (parts : List Str) :
    findChild culture forest parts =
      forest.walk (fun part fso => pathMatch culture part fso.name) parts := by
  induction forest generalizing parts with
  | nil => rfl
  | cons child children siblings ihc ihs =>
    cases parts with
    | nil => rfl
    | cons part rest =>
      rw [findChild, Forest.walk, ihc, ihs]
      cases pathMatch culture part child.name with
      | false => rfl
      | true =>
        simp only [Bool.not_true, Bool.false_eq_true, if_false, if_true]
        cases hfound : (if rest.isEmpty then some child else
          children.walk (fun part fso => pathMatch culture part fso.name) rest) <;> rfl

lemma FileSystemTree.map_snd_pathed (t : FileSystemTree) :
    (pathed t).children.map Prod.snd = t.children := by
  have hid := Forest.map_inherit ObjectPaths.child id t.root.basePaths t.children
  have hmap : t.children.map id = t.children := by
    induction t.children with
    | nil => rfl
    | cons child children siblings ihc ihs => rw [Forest.map, ihc, ihs]; rfl
  exact hid.trans hmap

/-- The search does not depend on the paths. -/
lemma FileSystemTree.map_snd_findPathed (t : FileSystemTree) (path : Str) :
    (t.findPathed culture path).map Prod.snd = t.find culture path := by
  simp only [findPathed, find]
  split_ifs
  · rfl
  · rfl
  · cases List.drop ((decomposePath t.root.basePaths.mappedPath).length - 1)
      (decomposePath path) with
    | nil => rfl
    | cons part rest =>
      dsimp only
      split_ifs
      · rfl
      · rw [findChild_eq_walk, ← t.map_snd_pathed, Forest.walk_map]

/-! ### Comparing paths -/

section Compare

/-- Two decomposed paths, ignoring case. -/
abbrev SameParts (culture : Culture) (a b : List Str) : Prop :=
  List.Forall₂ (fun a b => culture.equalsIgnoreCase a b = true) a b

lemma pathMatchParts_iff {a b : List Str} :
    pathMatchParts culture a b = true ↔ SameParts culture a b := by
  simp only [pathMatchParts, Bool.and_eq_true, beq_iff_eq, List.all_eq_true, SameParts,
    List.forall₂_iff_zip, Prod.forall]

lemma pathMatch_part {a b : Str} (ha : IsPart a) (hb : IsPart b) :
    pathMatch culture a b = culture.equalsIgnoreCase a b := by
  rw [pathMatch, ha.decomposePath_eq, hb.decomposePath_eq]
  simp [pathMatchParts]

/-- One path starts with another if the components that it has more are at the end. -/
lemma pathStartsWith_iff {path other : List Str} (hpath : ∀ part ∈ path, IsPart part)
    (hother : ∀ part ∈ other, IsPart part) :
    pathStartsWith culture path other = true ↔
    SameParts culture (path.take other.length) other := by
  induction path generalizing other with
  | nil =>
    cases other with
    | nil => simp [pathStartsWith]
    | cons part other => simp [pathStartsWith]
  | cons current path ih =>
    cases other with
    | nil => simp [pathStartsWith]
    | cons part other =>
      rw [List.forall_mem_cons] at hpath hother
      rw [pathStartsWith, Bool.and_eq_true, ih hpath.2 hother.2, pathMatch_part hpath.1 hother.1,
        List.length_cons, List.take_succ_cons]
      simp only [SameParts, List.forall₂_cons]

/-- Names that fit the same component are the same. -/
lemma pathMatch_of_distinct (hculture : culture.Compares) {part a b : Str} (ha : IsPart a)
    (hb : IsPart b) (hne : ¬ culture.equalsIgnoreCase a b)
    (hpart : pathMatch culture part a = true) : pathMatch culture part b = false := by
  rw [← Bool.not_eq_true]
  intro hpart'
  rw [pathMatch, ha.decomposePath_eq, pathMatchParts_iff] at hpart
  rw [pathMatch, hb.decomposePath_eq, pathMatchParts_iff] at hpart'
  generalize decomposePath part = parts at hpart hpart'
  cases hpart with
  | cons hfirst hrest =>
    cases hpart' with
    | cons hfirst' _ => exact hne (hculture.trans (hculture.symm hfirst) hfirst')

end Compare

/-! ### What is found -/

lemma decomposePath_appendName {name : Str} (hname : IsPart name) (path : Str) :
    decomposePath (appendName path name) = decomposePath path ++ [name] := by
  rw [appendName]
  split_ifs with hempty
  · rw [List.isEmpty_iff.mp hempty, hname.decomposePath_eq]
    rfl
  · rw [decomposePath_append rfl, hname.decomposePath_eq]

namespace FileSystemTree

variable {t : FileSystemTree}

lemma WellNamed.decomposePath_root (ht : t.WellNamed culture) :
    decomposePath t.root.basePaths.mappedPath =
      decomposePath t.root.mappedBasePath ++ [t.root.name] :=
  decomposePath_appendName (ht.names _ List.mem_cons_self) _

/-- The path of an object consists of that of the root and the names on the way to the object. -/
lemma WellNamed.decomposePath_mappedPath (ht : t.WellNamed culture) :
    ∀ n ∈ ((pathed t).children.lineages []).toList, decomposePath n.2.1.mappedPath =
      decomposePath t.root.basePaths.mappedPath ++ n.1.map fun o => o.2.name := by
  refine Forest.inherit_inherit_rel (R := fun (above : List PathedObject) (paths : ObjectPaths) =>
    decomposePath paths.mappedPath =
      decomposePath t.root.basePaths.mappedPath ++ above.map fun o => o.2.name) ?_ (by simp)
  intro above paths fso hfso h
  rw [ObjectPaths.child, decomposePath_appendName (ht.names fso (List.mem_cons_of_mem _ hfso)), h]
  simp

lemma WellNamed.pairwiseSiblings (ht : t.WellNamed culture) (hculture : culture.Compares) :
    (pathed t).children.PairwiseSiblings fun a b => ∀ part,
      pathMatch culture part a.2.name = true → pathMatch culture part b.2.name = false := by
  have hsiblings := ht.siblings
  rw [← t.map_snd_pathed, Forest.pairwiseSiblings_map] at hsiblings
  have hname : ∀ o ∈ (pathed t).children.toList, IsPart o.2.name := by
    intro o ho
    refine ht.names _ (List.mem_cons_of_mem _ ?_)
    rw [← t.map_snd_pathed, Forest.toList_map]
    exact List.mem_map_of_mem ho
  exact hsiblings.mono fun a ha b hb hne part =>
    pathMatch_of_distinct hculture (hname a ha) (hname b hb) hne

lemma exists_lineage {o : PathedObject} (h : o ∈ t.iterate) :
    o = (pathed t).root ∨ ∃ way, (way, o) ∈ ((pathed t).children.lineages []).toList := by
  rcases List.mem_cons.mp h with rfl | h
  · exact .inl rfl
  · rw [← Forest.map_snd_lineages [] (pathed t).children, List.mem_map] at h
    obtain ⟨n, hn, rfl⟩ := h
    exact .inr ⟨n.1, hn⟩

lemma WellNamed.isPart_of_lineage (ht : t.WellNamed culture) {way : List PathedObject}
    {o : PathedObject} (h : (way, o) ∈ ((pathed t).children.lineages []).toList) :
    (∀ a ∈ way, IsPart a.2.name) ∧ way ≠ [] := by
  constructor
  · intro a ha
    have hmem : a ∈ (pathed t).children.toList := by
      simpa using Forest.mem_of_mem_lineages h a ha
    refine ht.names _ (List.mem_cons_of_mem _ ?_)
    rw [← t.map_snd_pathed, Forest.toList_map]
    exact List.mem_map_of_mem hmem
  · obtain ⟨top, -, below, hway⟩ := Forest.exists_of_mem_lineages h
    rw [show way = top :: below from hway]
    exact List.cons_ne_nil _ _

/-- The components that fit a way are the names on it. -/
lemma forall₂_pathMatch_iff {parts : List Str} {way : List PathedObject}
    (hparts : ∀ part ∈ parts, IsPart part) (hway : ∀ a ∈ way, IsPart a.2.name) :
    List.Forall₂ (fun part (a : PathedObject) => pathMatch culture part a.2.name = true) parts way ↔
      SameParts culture parts (way.map fun o => o.2.name) := by
  induction parts generalizing way with
  | nil => cases way <;> simp
  | cons part parts ih =>
    cases way with
    | nil => simp
    | cons a way =>
      rw [List.forall_mem_cons] at hparts hway
      rw [List.forall₂_cons, ih hparts.2 hway.2, pathMatch_part hparts.1 hway.1, List.map_cons]
      simp only [SameParts, List.forall₂_cons]

/-- A path that starts with that of the root goes through the root. -/
lemma WellNamed.exists_split (ht : t.WellNamed culture) {parts : List Str}
    (hparts : ∀ part ∈ parts, IsPart part)
    (hstarts : SameParts culture
      (parts.take (decomposePath t.root.basePaths.mappedPath).length)
      (decomposePath t.root.basePaths.mappedPath)) :
    ∃ part, parts.drop ((decomposePath t.root.basePaths.mappedPath).length - 1) =
        part :: parts.drop (decomposePath t.root.basePaths.mappedPath).length ∧
      pathMatch culture part t.root.name = true := by
  have hle : (decomposePath t.root.basePaths.mappedPath).length ≤ parts.length := by
    have := hstarts.length_eq
    rw [List.length_take] at this
    omega
  rw [ht.decomposePath_root] at hstarts hle ⊢
  simp only [List.length_append, List.length_singleton, Nat.add_sub_cancel] at hstarts hle ⊢
  have hlt : (decomposePath t.root.mappedBasePath).length < parts.length := by omega
  refine ⟨parts[(decomposePath t.root.mappedBasePath).length], List.drop_eq_getElem_cons hlt, ?_⟩
  have hname := ht.names _ List.mem_cons_self
  rw [pathMatch_part (hparts _ (List.getElem_mem hlt)) hname]
  rw [← List.take_append_getElem hlt] at hstarts
  have hdrop := List.forall₂_drop (decomposePath t.root.mappedBasePath).length hstarts
  rw [List.drop_left, List.drop_append_of_le_length (by simp; omega)] at hdrop
  simpa using hdrop

/-- The objects that a path leads to are those whose own paths have the same components. -/
lemma findPathed_eq_some_iff (hculture : culture.Compares) (ht : t.WellNamed culture) {path : Str}
    {o : PathedObject} :
    t.findPathed culture path = some o ↔
      o ∈ t.iterate ∧ pathMatch culture path o.1.mappedPath = true := by
  have hpath : ∀ part ∈ decomposePath path, IsPart part := fun _ => isPart_of_mem_decomposePath
  have hroot : ∀ part ∈ decomposePath t.root.basePaths.mappedPath, IsPart part :=
    fun _ => isPart_of_mem_decomposePath
  have hmatch : ∀ way o, (way, o) ∈ ((pathed t).children.lineages []).toList →
      (pathMatch culture path o.1.mappedPath = true ↔ SameParts culture (decomposePath path)
        (decomposePath t.root.basePaths.mappedPath ++ way.map fun o => o.2.name)) := by
    intro way o h
    rw [pathMatch, pathMatchParts_iff, ht.decomposePath_mappedPath _ h]
  have hmatchRoot : pathMatch culture path (pathed t).root.1.mappedPath = true ↔
      SameParts culture (decomposePath path) (decomposePath t.root.basePaths.mappedPath) :=
    pathMatchParts_iff
  rw [findPathed]
  by_cases hstarts : pathStartsWith culture (decomposePath path)
    (decomposePath t.root.basePaths.mappedPath) = true
  case neg =>
    rw [if_pos (by simpa using hstarts)]
    rw [pathStartsWith_iff hpath hroot] at hstarts
    refine iff_of_false (by simp) ?_
    rintro ⟨ho, hsame⟩
    refine hstarts ?_
    rcases exists_lineage ho with rfl | ⟨way, hway⟩
    · have hsame := hmatchRoot.mp hsame
      rwa [← hsame.length_eq, List.take_length]
    · have htake := List.forall₂_take (decomposePath t.root.basePaths.mappedPath).length
        ((hmatch way o hway).mp hsame)
      rwa [List.take_left] at htake
  rw [if_neg (by simpa using hstarts)]
  rw [pathStartsWith_iff hpath hroot] at hstarts
  by_cases hlength : (decomposePath path).length =
    (decomposePath t.root.basePaths.mappedPath).length
  · rw [if_pos hlength]
    rw [← hlength, List.take_length] at hstarts
    constructor
    · intro h
      obtain rfl := Option.some.inj h
      exact ⟨List.mem_cons_self, hmatchRoot.mpr hstarts⟩
    · rintro ⟨ho, hsame⟩
      rcases exists_lineage ho with rfl | ⟨way, hway⟩
      · rfl
      · have hlength' := ((hmatch way o hway).mp hsame).length_eq
        rw [List.length_append, hlength, List.length_map] at hlength'
        exact absurd (List.length_eq_zero_iff.mp (by omega)) (ht.isPart_of_lineage hway).2
  · rw [if_neg hlength]
    obtain ⟨part, hsplit, hlast⟩ := ht.exists_split hpath hstarts
    rw [hsplit]
    dsimp only
    rw [if_neg (by simp [hlast])]
    have hrest : ∀ part ∈ (decomposePath path).drop
        (decomposePath t.root.basePaths.mappedPath).length, IsPart part :=
      fun part h => hpath part (List.mem_of_mem_drop h)
    constructor
    · intro h
      obtain ⟨way, hway, hfits⟩ := Forest.mem_lineages_of_walk [] h
      rw [List.nil_append] at hway
      rw [forall₂_pathMatch_iff hrest (ht.isPart_of_lineage hway).1] at hfits
      refine ⟨List.mem_cons_of_mem _ ?_, (hmatch way o hway).mpr ?_⟩
      · rw [← Forest.map_snd_lineages [] (pathed t).children]
        exact List.mem_map_of_mem hway
      · rw [← List.take_append_drop (decomposePath t.root.basePaths.mappedPath).length
          (decomposePath path)]
        exact List.rel_append hstarts hfits
    · rintro ⟨ho, hsame⟩
      rcases exists_lineage ho with rfl | ⟨way, hway⟩
      · exact absurd (hmatchRoot.mp hsame).length_eq hlength
      · have hdrop := List.forall₂_drop (decomposePath t.root.basePaths.mappedPath).length
          ((hmatch way o hway).mp hsame)
        rw [List.drop_left] at hdrop
        exact Forest.walk_of_mem_lineages (ht.pairwiseSiblings hculture) hway
          ((forall₂_pathMatch_iff hrest (ht.isPart_of_lineage hway).1).mpr hdrop)

/-- Every object is found under its path. Under any path, an object is found if and only if its own
path has the same components, ignoring case. -/
theorem find_inverts_mappedPath (hculture : culture.Compares) (ht : t.WellNamed culture) :
    (∀ o ∈ t.iterate, t.findPathed culture o.1.mappedPath = some o) ∧
    (∀ path o, t.findPathed culture path = some o ↔
      o ∈ t.iterate ∧ pathMatch culture path o.1.mappedPath = true) ∧
    (∀ path, t.find culture path = (t.findPathed culture path).map Prod.snd) ∧
    (∀ path, t.find culture path = none ↔
      ∀ o ∈ t.iterate, pathMatch culture path o.1.mappedPath = false) := by
  refine ⟨fun o ho => ?_, fun path o => findPathed_eq_some_iff hculture ht,
    fun path => (t.map_snd_findPathed path).symm, fun path => ?_⟩
  · refine (findPathed_eq_some_iff hculture ht).mpr ⟨ho, ?_⟩
    rw [pathMatch, pathMatchParts_iff]
    exact List.forall₂_same.mpr fun part _ => hculture.refl part
  · rw [← t.map_snd_findPathed, Option.map_eq_none_iff, Option.eq_none_iff_forall_ne_some]
    simp only [ne_eq, findPathed_eq_some_iff hculture ht, not_and, Bool.not_eq_true]

end FileSystemTree

lemma Culture.compares_ordinal : Culture.ordinal.Compares := by
  refine ⟨fun a => ?_, fun h => ?_, fun h h' => ?_⟩ <;>
    simp only [Culture.ordinal, beq_iff_eq] at *
  · exact h.symm
  · exact h.trans h'

/-- Directories `b` on a share and in itself, and a file. -/
def nestedTree : FileSystemTree :=
  ⟨{ type := .directory, name := ['b'], mappedBasePath := "\\\\server\\a".toList },
    .cons { type := .directory, name := ['B'] }
      (.cons { type := .regularFile, name := ['b'] } .nil .nil)
      (.cons { type := .regularFile, name := ['c'] } .nil .nil)⟩

theorem find_inverts_mappedPath_nested :
    (∀ o ∈ nestedTree.iterate, nestedTree.findPathed .ordinal o.1.mappedPath = some o) ∧
    (∀ path o, nestedTree.findPathed .ordinal path = some o ↔
      o ∈ nestedTree.iterate ∧ pathMatch .ordinal path o.1.mappedPath = true) ∧
    (∀ path, nestedTree.find .ordinal path =
      (nestedTree.findPathed .ordinal path).map Prod.snd) ∧
    (∀ path, nestedTree.find .ordinal path = none ↔
      ∀ o ∈ nestedTree.iterate, pathMatch .ordinal path o.1.mappedPath = false) := by
  refine FileSystemTree.find_inverts_mappedPath Culture.compares_ordinal ⟨?_, ?_⟩
  · simp [nestedTree, RoseTree.toList, Forest.toList, IsPart, pathSplitters]
  · simp [nestedTree, Forest.PairwiseSiblings, Forest.roots, Culture.ordinal]

example : (nestedTree.find .ordinal "//SERVER/A\\b\\\\b/".toList).map (fun fso => fso.type) =
    some .directory := by decide +kernel

end Find

end BackupProgram
