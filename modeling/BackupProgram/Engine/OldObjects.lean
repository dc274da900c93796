import BackupProgram.Engine.BackupEngine
import BackupProgram.FileSystem.Find

/-!
# Old objects

An object of the previous version is looked up in two ways: in a dictionary, where the last object
of a simplified path counts, and by a search through the trees, where the first one counts whose
path has the same components.
-/

namespace BackupProgram

open StringUtils

/-- Lower case letters are the same as the letters for comparisons, and separators are no
letters. -/
structure Culture.Lowers (culture : Culture) : Prop where
  splitters : ∀ c, pathSplitters (culture.toLower c) = pathSplitters c
  equals : ∀ a b : Str, a.map culture.toLower = b.map culture.toLower →
    culture.equalsIgnoreCase a b = true

/-- An object with its paths and the number of its tree. -/
abbrev OldObject : Type := Nat × PathedObject

/-- The objects of a forest, in the order in which they are put into the dictionary. -/
def allOldObjects (ts : List FileSystemTree) : List OldObject :=
  ts.zipIdx.flatMap fun t => t.1.iterate.map fun o => (t.2, o)

section Lookups

variable (culture : Culture)

/-- What the dictionary has for a path. -/
def lookupOld (ts : List FileSystemTree) (path : Str) : Option OldObject :=
  ((allOldObjects ts).foldl
    (fun dict x => (simplifyPath culture x.2.1.mappedPath, x) :: dict) []).lookup
      (simplifyPath culture path)

/-- What `FindPath` returns. -/
def findOld (ts : List FileSystemTree) (path : Str) : Option OldObject :=
  ts.zipIdx.findSome? fun t => (t.1.findPathed culture path).map fun o => (t.2, o)

variable {culture}

lemma map_snd_allOldObjects (ts : List FileSystemTree) :
    (allOldObjects ts).map Prod.snd = ts.flatMap FileSystemTree.iterate := by
  have hfst : (ts.zipIdx.map Prod.fst).flatMap FileSystemTree.iterate =
      ts.zipIdx.flatMap fun t => t.1.iterate := List.flatMap_map ..
  rw [List.zipIdx_map_fst] at hfst
  rw [allOldObjects, List.map_flatMap, hfst]
  exact List.flatMap_congr fun t _ => by rw [List.map_map]; exact List.map_id _

/-- The last entry of a key counts. -/
lemma lookup_foldl_cons {α β : Type} (key : α → Str) (value : α → β) (l : List α) (k : Str) :
    (l.foldl (fun dict a => (key a, value a) :: dict) []).lookup k =
      (l.filter fun a => key a == k).getLast?.map value := by
  induction l using List.reverseRecOn with
  | nil => rfl
  | append_singleton l a ih =>
    rw [List.foldl_append, List.foldl_cons, List.foldl_nil, List.lookup_cons, ih,
      List.filter_append, List.filter_singleton]
    by_cases hk : key a = k
    · simp [hk]
    · have hk' : (key a == k) = false := by simpa using hk
      have hk'' : (k == key a) = false := by simpa using Ne.symm hk
      rw [hk', hk'']
      simp

lemma lookupOld_eq (ts : List FileSystemTree) (path : Str) :
    lookupOld culture ts path = ((allOldObjects ts).filter fun x =>
      simplifyPath culture x.2.1.mappedPath == simplifyPath culture path).getLast? := by
  have h := lookup_foldl_cons (fun x : OldObject => simplifyPath culture x.2.1.mappedPath) id
    (allOldObjects ts) (simplifyPath culture path)
  rw [Option.map_id] at h
  exact h

/-- The dictionary of the engine has the objects of the trees. -/
lemma lookup_setOldObjectsDict {e : BackupEngine} (he : e.oldObjectsDict = []) (path : Str) :
    (e.setOldObjectsDict culture).oldObjectsDict.lookup (simplifyPath culture path) =
      (lookupOld culture e.oldObjects path).map fun x => x.2.2 := by
  rw [BackupEngine.setOldObjectsDict, he, ← map_snd_allOldObjects, List.foldl_map, lookupOld_eq]
  exact lookup_foldl_cons (fun x : OldObject => simplifyPath culture x.2.1.mappedPath)
    (fun x => x.2.2) _ _

lemma findPath_eq (ts : List FileSystemTree) (path : Str) :
    findPath culture ts path = (findOld culture ts path).map fun x => x.2.2 := by
  have hfrom : ∀ n, findPath culture ts path = ((ts.zipIdx n).findSome? fun t =>
      (t.1.findPathed culture path).map fun o => (t.2, o)).map fun x => x.2.2 := by
    induction ts with
    | nil => exact fun _ => rfl
    | cons t ts ih =>
      intro n
      rw [List.zipIdx_cons, List.findSome?_cons, findPath, List.findSome?_cons,
        ← t.map_snd_findPathed]
      cases t.findPathed culture path with
      | none => exact ih (n + 1)
      | some o => rfl
  exact hfrom 0

/-! ### The first and the last one -/

/-- The last element of a kind is the first one of a wider kind only if there is just one. -/
lemma getLast?_filter_eq_head?_filter_iff {α : Type} {p q : α → Bool} {l : List α}
    (hqp : ∀ a ∈ l, q a = true → p a = true) (hl : l.Nodup) :
    (l.filter q).getLast? = (l.filter p).head? ↔
      (∀ a ∈ l, p a = false) ∨ ∃ a, (l.filter p).head? = some a ∧ l.filter q = [a] := by
  induction l with
  | nil => simp
  | cons b l ih =>
    rw [List.nodup_cons] at hl
    rw [List.forall_mem_cons] at hqp
    have hnotMem : ∀ p : α → Bool, b ∉ l.filter p := fun p h => hl.1 (List.mem_of_mem_filter h)
    cases hp : p b with
    | false =>
      have hq : q b = false := by
        rw [← Bool.not_eq_true]
        intro hq
        rw [hqp.1 hq] at hp
        exact Bool.false_ne_true hp.symm
      simp only [List.filter_cons, hp, hq, Bool.false_eq_true, if_false]
      rw [ih hqp.2 hl.2, List.forall_mem_cons, and_iff_right hp]
    | true =>
      have hnone : ¬ ∀ a ∈ b :: l, p a = false := fun h => by simp [h b List.mem_cons_self] at hp
      rw [List.filter_cons_of_pos hp, List.head?_cons, or_iff_right hnone]
      cases hq : q b with
      | true =>
        rw [List.filter_cons_of_pos hq]
        cases hrest : l.filter q with
        | nil => simp
        | cons c rest =>
          have hlast : (b :: c :: rest).getLast? ≠ some b := by
            rw [List.getLast?_cons_cons, ← hrest]
            exact fun h => hnotMem q (List.mem_of_getLast? h)
          refine iff_of_false hlast ?_
          rintro ⟨a, -, ha⟩
          simp at ha
      | false =>
        rw [List.filter_cons_of_neg (by simp [hq])]
        refine iff_of_false (fun h => hnotMem q (List.mem_of_getLast? h)) ?_
        rintro ⟨a, ha, hsingle⟩
        obtain rfl := Option.some.inj ha
        exact hnotMem q (hsingle ▸ List.mem_cons_self)

/-! ### Agreement -/

lemma decomposePath_normalizePath (path : Str) :
    decomposePath (normalizePath path) = decomposePath path := by
  have hparts : ∀ part ∈ decomposePath path, IsPart part := fun _ => isPart_of_mem_decomposePath
  cases hextended : extendedPrefix.isPrefixOf path with
  | false => rw [normalizePath_of_not_extended hextended, decomposePath_joinParts _ hparts]
  | true =>
    obtain ⟨rest, rfl⟩ := List.isPrefixOf_iff_prefix.mp hextended
    rw [normalizePath_extended, decomposePath_extended, decomposePath_extended,
      decomposePath_joinParts _ fun _ => isPart_of_mem_decomposePath]

lemma decomposePath_map {culture : Culture} (hlower : culture.Lowers) (path : Str) :
    decomposePath (path.map culture.toLower) =
      (decomposePath path).map (List.map culture.toLower) := by
  have hsplit : (path.map culture.toLower).splitOnP pathSplitters =
      (path.splitOnP pathSplitters).map (List.map culture.toLower) := by
    induction path with
    | nil => rfl
    | cons c path ih =>
      rw [List.map_cons, List.splitOnP_cons_eq_if_modifyHead, List.splitOnP_cons_eq_if_modifyHead,
        hlower.splitters, ih]
      split_ifs
      · rfl
      · cases path.splitOnP pathSplitters <;> rfl
  rw [decomposePath, decomposePath, hsplit, List.filter_map]
  congr 2
  funext part
  simp

/-- Paths with the same simplified form have the same components, ignoring case. -/
lemma pathMatch_of_simplifyPath {culture : Culture} (hlower : culture.Lowers) {a b : Str}
    (h : simplifyPath culture a = simplifyPath culture b) : pathMatch culture b a = true := by
  have hparts := congrArg decomposePath h
  rw [simplifyPath, simplifyPath, decomposePath_map hlower, decomposePath_map hlower,
    decomposePath_normalizePath, decomposePath_normalizePath] at hparts
  rw [pathMatch, pathMatchParts_iff]
  exact (Results.forall₂_iff_map_eq_map.mpr hparts.symm).imp fun x y => hlower.equals x y

lemma nodup_iterate {culture : Culture} (hculture : culture.Compares) {t : FileSystemTree}
    (ht : t.WellNamed culture) : t.iterate.Nodup := by
  have hsiblings := ht.siblings
  rw [← t.map_snd_pathed, Forest.pairwiseSiblings_map] at hsiblings
  have hways : (((FileSystemTree.pathed t).children.lineages []).toList.map fun n =>
      n.1.map fun o => o.2.name).Nodup := by
    refine Forest.nodup_lineages (hsiblings.mono fun a _ b _ hne hsame => hne ?_)
    rw [hsame]
    exact hculture.refl _
  have hpaths : ((FileSystemTree.pathed t).children.toList.map fun o =>
      decomposePath o.1.mappedPath) = (((FileSystemTree.pathed t).children.lineages []).toList.map
        fun n => n.1.map fun o => o.2.name).map
          (decomposePath t.root.basePaths.mappedPath ++ ·) := by
    rw [← Forest.map_snd_lineages [] (FileSystemTree.pathed t).children, List.map_map, List.map_map]
    exact List.map_congr_left fun n hn => ht.decomposePath_mappedPath n hn
  refine List.Nodup.of_map (fun o => decomposePath o.1.mappedPath) ?_
  change (decomposePath t.root.basePaths.mappedPath ::
    (FileSystemTree.pathed t).children.toList.map fun o => decomposePath o.1.mappedPath).Nodup
  rw [hpaths]
  refine List.nodup_cons.mpr ⟨fun hmem => ?_, hways.map fun a b => List.append_cancel_left⟩
  obtain ⟨names, hnames, hsame⟩ := List.mem_map.mp hmem
  obtain ⟨n, hn, rfl⟩ := List.mem_map.mp hnames
  have hnil : n.1 = [] := by simpa using hsame
  exact (ht.isPart_of_lineage hn).2 hnil

lemma nodup_allOldObjects {culture : Culture} (hculture : culture.Compares)
    {ts : List FileSystemTree} (hts : ∀ t ∈ ts, t.WellNamed culture) :
    (allOldObjects ts).Nodup := by
  rw [allOldObjects, List.nodup_flatMap]
  constructor
  · intro t ht
    have hmem : t.1 ∈ ts := by
      rw [← List.zipIdx_map_fst 0 ts]
      exact List.mem_map_of_mem ht
    exact (nodup_iterate hculture (hts t.1 hmem)).map fun a b h => (Prod.mk.inj h).2
  · have hindex : (ts.zipIdx.map Prod.snd).Nodup := by
      rw [List.zipIdx_map_snd]
      exact List.nodup_range'
    refine (List.pairwise_map.mp hindex).imp fun {t t'} hne => ?_
    intro x hx hx'
    obtain ⟨o, -, rfl⟩ := List.mem_map.mp hx
    obtain ⟨o', -, hsame⟩ := List.mem_map.mp hx'
    exact hne (Prod.mk.inj hsame).1.symm

/-- A tree has at most one object of the path. -/
lemma head?_filter_iterate {culture : Culture} (hculture : culture.Compares) {t : FileSystemTree}
    (ht : t.WellNamed culture) (path : Str) :
    (t.iterate.filter fun o => pathMatch culture path o.1.mappedPath).head? =
      t.findPathed culture path := by
  have hiff : ∀ o, t.findPathed culture path = some o ↔
      o ∈ t.iterate ∧ pathMatch culture path o.1.mappedPath = true :=
    fun o => FileSystemTree.findPathed_eq_some_iff hculture ht
  cases hfind : t.findPathed culture path with
  | none =>
    rw [List.head?_eq_none_iff, List.filter_eq_nil_iff]
    intro o ho hmatch
    have := (hiff o).mpr ⟨ho, hmatch⟩
    rw [hfind] at this
    simp at this
  | some o =>
    have hmem := (hiff o).mp hfind
    have hin : o ∈ t.iterate.filter fun o => pathMatch culture path o.1.mappedPath :=
      List.mem_filter.mpr hmem
    obtain ⟨first, rest, hcons⟩ := List.exists_cons_of_ne_nil (List.ne_nil_of_mem hin)
    have hfirst := List.mem_filter.mp (hcons ▸ List.mem_cons_self :
      first ∈ t.iterate.filter fun o => pathMatch culture path o.1.mappedPath)
    have hsame := (hiff first).mpr hfirst
    rw [hfind] at hsame
    rw [hcons, List.head?_cons, hsame]

/-- `FindPath` returns the first object whose path has the same components. -/
lemma findOld_eq {culture : Culture} (hculture : culture.Compares) {ts : List FileSystemTree}
    (hts : ∀ t ∈ ts, t.WellNamed culture) (path : Str) :
    findOld culture ts path = ((allOldObjects ts).filter fun x =>
      pathMatch culture path x.2.1.mappedPath).head? := by
  rw [allOldObjects, List.filter_flatMap, List.head?_flatMap, findOld]
  rw [← List.head?_filterMap, ← List.head?_filterMap]
  refine congrArg List.head? (List.filterMap_congr fun t ht => ?_)
  have hmem : t.1 ∈ ts := by
    rw [← List.zipIdx_map_fst 0 ts]
    exact List.mem_map_of_mem ht
  rw [List.filter_map, List.head?_map, ← head?_filter_iterate hculture (hts t.1 hmem) path]
  rfl

/-- Both lookups in the forest of an engine lead to the same object exactly if no object has the
components of the path, or the first one that has them is the only one with the same simplified
path. -/
theorem lookups_agree_iff {culture : Culture} (hculture : culture.Compares)
    (hlower : culture.Lowers) {e : BackupEngine} (he : e.oldObjectsDict = [])
    (hnames : ∀ t ∈ e.oldObjects, t.WellNamed culture) (path : Str) :
    ((e.setOldObjectsDict culture).oldObjectsDict.lookup (simplifyPath culture path) =
      (lookupOld culture e.oldObjects path).map fun x => x.2.2) ∧
    (findPath culture e.oldObjects path =
      (findOld culture e.oldObjects path).map fun x => x.2.2) ∧
    (lookupOld culture e.oldObjects path = findOld culture e.oldObjects path ↔
      (∀ x ∈ allOldObjects e.oldObjects, pathMatch culture path x.2.1.mappedPath = false) ∨
      ∃ x, ((allOldObjects e.oldObjects).filter fun x =>
          pathMatch culture path x.2.1.mappedPath).head? = some x ∧
        ((allOldObjects e.oldObjects).filter fun x =>
          simplifyPath culture x.2.1.mappedPath == simplifyPath culture path) = [x]) := by
  refine ⟨lookup_setOldObjectsDict he path, findPath_eq _ path, ?_⟩
  rw [lookupOld_eq, findOld_eq hculture hnames]
  refine getLast?_filter_eq_head?_filter_iff (fun x _ hx => ?_)
    (nodup_allOldObjects hculture hnames)
  exact pathMatch_of_simplifyPath hlower (beq_iff_eq.mp hx)

end Lookups

/-! ### Sources that overlap -/

lemma Culture.lowers_ordinal : Culture.ordinal.Lowers := by
  refine ⟨fun c => ?_, fun a b h => by simpa [Culture.ordinal] using h⟩
  simp only [Culture.ordinal]
  rw [Char.toLower.eq_def]
  split_ifs with hc
  · have hfrom : 65 ≤ c.val.toNat := UInt32.le_iff_toNat_le.mp hc.1
    have hto : c.val.toNat ≤ 90 := UInt32.le_iff_toNat_le.mp hc.2
    have hletter : ∀ d : Char, d.val.toNat ≠ 92 → d.val.toNat ≠ 47 → pathSplitters d = false := by
      intro d hback hslash
      simp only [pathSplitters, Bool.or_eq_false_iff, beq_eq_false_iff_ne]
      exact ⟨fun h => hback (by rw [h]; rfl), fun h => hslash (by rw [h]; rfl)⟩
    rw [hletter c (by omega) (by omega)]
    refine hletter _ ?_ ?_
    · change (c.val.toNat + 32) % 2 ^ 32 ≠ 92
      omega
    · change (c.val.toNat + 32) % 2 ^ 32 ≠ 47
      omega
  · rfl

/-- A folder and a file in it have both been selected; the file has two ids. -/
def overlappingTrees : List FileSystemTree :=
  [⟨{ type := .directory, name := ['a'], mappedBasePath := ['C', ':'] },
      .cons { type := .regularFile, name := ['b'], streamUniqueId := 1 } .nil .nil⟩,
    ⟨{ type := .regularFile, name := ['b'], mappedBasePath := ['C', ':', '\\', 'a']
       streamUniqueId := 2 }, .nil⟩]

def engineWithOldObjects (oldObjects : List FileSystemTree) : BackupEngine where
  versions := []
  cachedVersionCount := -1
  counters := ⟨1, 1⟩
  baseObjectsSet := false
  baseObjects := []
  oldObjects := oldObjects
  oldObjectsDict := []
  heap := []

lemma wellNamed_overlappingTrees : ∀ t ∈ overlappingTrees, t.WellNamed .ordinal := by
  intro t ht
  simp only [overlappingTrees, List.mem_cons, List.not_mem_nil, or_false] at ht
  rcases ht with rfl | rfl
  · exact ⟨by simp [RoseTree.toList, Forest.toList, IsPart, pathSplitters],
      by simp [Forest.PairwiseSiblings, Forest.roots]⟩
  · exact ⟨by simp [RoseTree.toList, Forest.toList, IsPart, pathSplitters], trivial⟩

/-- Both lookups find the folder. -/
theorem lookups_agree_folder :
    lookupOld .ordinal overlappingTrees ['c', ':', '/', 'A'] =
      findOld .ordinal overlappingTrees ['c', ':', '/', 'A'] := by
  refine (lookups_agree_iff Culture.compares_ordinal Culture.lowers_ordinal
    (e := engineWithOldObjects overlappingTrees) rfl wellNamed_overlappingTrees _).2.2.mpr (.inr ?_)
  refine ⟨(0, (overlappingTrees.flatMap FileSystemTree.iterate).head (by decide)), ?_, ?_⟩ <;>
    decide +kernel

/-- The file has the second id in the dictionary, and the search comes upon the first one. -/
theorem lookups_disagree :
    (lookupOld .ordinal overlappingTrees ['C', ':', '\\', 'a', '\\', 'b']).map
        (fun x => x.2.2.streamUniqueId) = some 2 ∧
      (findOld .ordinal overlappingTrees ['C', ':', '\\', 'a', '\\', 'b']).map
        (fun x => x.2.2.streamUniqueId) = some 1 ∧
      lookupOld .ordinal overlappingTrees ['C', ':', '\\', 'a', '\\', 'b'] ≠
        findOld .ordinal overlappingTrees ['C', ':', '\\', 'a', '\\', 'b'] := by
  have hids : (lookupOld .ordinal overlappingTrees ['C', ':', '\\', 'a', '\\', 'b']).map
        (fun x => x.2.2.streamUniqueId) = some 2 ∧
      (findOld .ordinal overlappingTrees ['C', ':', '\\', 'a', '\\', 'b']).map
        (fun x => x.2.2.streamUniqueId) = some 1 := by
    decide +kernel
  refine ⟨hids.1, hids.2, fun h => ?_⟩
  rw [h, hids.2] at hids
  simp at hids

end BackupProgram
