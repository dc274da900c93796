import BackupProgram.Engine.PathMapper

/-!
# Mount paths

The mapper looks for the longest place where a volume is mounted at or above a path. The reverse
mapper finds the device again, provided that the devices can be told apart.
-/

namespace BackupProgram

open StringUtils

section LiesUnder

variable (culture : Culture)

/-- The path is `x` or begins with the components of `x`. -/
def LiesUnder (x path : Str) : Prop :=
  x.map culture.toLower <+: path.map culture.toLower ∧
    ∀ c ∈ (path.drop x.length).head?, c = '\\'

instance (x path : Str) : Decidable (LiesUnder culture x path) :=
  decidable_of_iff ((x.map culture.toLower).isPrefixOf (path.map culture.toLower) = true ∧
      (path.drop x.length).head?.all (· == '\\') = true) (by
    simp only [LiesUnder, List.isPrefixOf_iff_prefix, Option.all_eq_true, beq_iff_eq,
      Option.mem_def])

variable {culture}

lemma liesUnder_append {x rest : Str} (hrest : ∀ c ∈ rest.head?, c = '\\') :
    LiesUnder culture x (x ++ rest) := by
  refine ⟨?_, ?_⟩
  · rw [List.map_append]
    exact List.prefix_append _ _
  · rwa [List.drop_left]

/-- Of two names above a path, the shorter one is above the longer one. -/
lemma LiesUnder.of_length_le {x y path : Str} (hculture : ∀ c, culture.toLower c =
    culture.toLower '\\' → c = '\\') (hx : LiesUnder culture x path) (hy : LiesUnder culture y path)
    (h : x.length ≤ y.length) : LiesUnder culture x y := by
  have hxy : x.map culture.toLower <+: y.map culture.toLower :=
    List.prefix_of_prefix_length_le hx.1 hy.1 (by simpa using h)
  refine ⟨hxy, fun c hc => ?_⟩
  -- What follows in `y` follows in the path as well, up to case.
  obtain ⟨after, hafter⟩ := hy.1
  rw [List.head?_drop] at hc
  have hlt : x.length < y.length := (List.getElem?_eq_some_iff.mp hc).1
  have hfold : (path.map culture.toLower)[x.length]? = some (culture.toLower c) := by
    rw [← hafter, List.getElem?_append_left (by simpa using hlt), List.getElem?_map, hc]
    rfl
  rw [List.getElem?_map, Option.map_eq_some_iff] at hfold
  obtain ⟨d, hd, hdc⟩ := hfold
  have hslash : d = '\\' := hx.2 d (by rw [List.head?_drop]; exact hd)
  exact hculture c (by rw [← hdc, hslash])

end LiesUnder

/-! ### Matches -/

section Match

variable {culture : Culture}

lemma matchAtStart_eq {x path : Str} (hline : '\n' ∉ path.drop x.length) :
    matchAtStart culture x path =
      if LiesUnder culture x path then some (path.drop x.length) else none := by
  rw [matchAtStart]
  simp only [LiesUnder, List.isPrefixOf_iff_prefix]
  by_cases hx : x.map culture.toLower <+: path.map culture.toLower
  case neg => simp only [hx, false_and, if_false]
  simp only [hx, true_and, if_true]
  split
  case h_1 hdrop => simp [hdrop]
  case h_2 hdrop => simp [hdrop] at hline
  case h_3 c rest _ hdrop =>
    rw [hdrop] at hline
    have htake : (c :: rest).takeWhile (· != '\n') = c :: rest := by
      refine List.takeWhile_eq_self_iff.mpr fun d hd => ?_
      rw [bne_iff_ne]
      rintro rfl
      exact hline hd
    rw [hdrop, htake]
    simp

lemma prefix_of_matchAtStart {x path g : Str} (h : matchAtStart culture x path = some g) :
    x.map culture.toLower <+: path.map culture.toLower := by
  rw [matchAtStart] at h
  split_ifs at h with hx
  exact List.isPrefixOf_iff_prefix.mp hx

lemma matchPath_of_matchAtStart {x path g : Str} (h : matchAtStart culture x path = some g) :
    matchPath culture x path = some g := by
  cases path with
  | nil => exact h
  | cons c path => rw [matchPath, h, Option.some_or]

lemma exists_of_matchPath {x path g : Str} (h : matchPath culture x path = some g) :
    ∃ i, matchAtStart culture x (path.drop i) = some g := by
  induction path with
  | nil => exact ⟨0, h⟩
  | cons c path ih =>
    rw [matchPath] at h
    rcases Option.or_eq_some_iff.mp h with h | ⟨-, h⟩
    · exact ⟨0, h⟩
    · obtain ⟨i, hi⟩ := ih h
      exact ⟨i + 1, hi⟩

/-- A sign that occurs in the path at one place only holds the match there. -/
lemma matchPath_eq_matchAtStart {x path : Str} {sign : Char} {k : Nat}
    (hculture : ∀ c, culture.toLower c = culture.toLower sign → c = sign)
    (hx : x[k]? = some sign) (hpath : ∀ i, path[i]? = some sign → i = k) :
    matchPath culture x path = matchAtStart culture x path := by
  cases hstart : matchAtStart culture x path with
  | some g => exact matchPath_of_matchAtStart hstart
  | none =>
    rw [Option.eq_none_iff_forall_ne_some]
    intro g h
    obtain ⟨i, hi⟩ := exists_of_matchPath h
    obtain ⟨after, hafter⟩ := prefix_of_matchAtStart hi
    have hk : k < x.length := (List.getElem?_eq_some_iff.mp hx).1
    have hfold : ((path.drop i).map culture.toLower)[k]? = some (culture.toLower sign) := by
      rw [← hafter, List.getElem?_append_left (by simpa using hk), List.getElem?_map, hx]
      rfl
    rw [List.getElem?_map, Option.map_eq_some_iff, List.getElem?_drop] at hfold
    obtain ⟨c, hc, hcsign⟩ := hfold
    rw [hculture c hcsign] at hc
    have hzero : i = 0 := by
      have := hpath _ hc
      omega
    rw [hzero, List.drop_zero, hstart] at hi
    simp at hi

/-! ### The longest match -/

/-- What `MapPath` has found in the list. -/
structure Longest (culture : Culture) (list : PathMap) (path : Str) (tuple : Str × Str) (g : Str) :
    Prop where
  mem : tuple ∈ list
  matched : matchPath culture tuple.1 path = some g
  longest : ∀ t ∈ list, (matchPath culture t.1 path).isSome → t.1.length ≤ tuple.1.length

lemma foldl_mapPathStep (path : Str) (list : PathMap) :
    (∃ tuple g, Longest culture list path tuple g ∧
      list.foldl (mapPathStep culture path) (none, 0) =
        (some (tuple.2 ++ g), tuple.1.length)) ∨
    ((∀ t ∈ list, (matchPath culture t.1 path).isSome → t.1 = []) ∧
      list.foldl (mapPathStep culture path) (none, 0) = (none, 0)) := by
  induction list using List.reverseRecOn with
  | nil => exact .inr ⟨by simp, rfl⟩
  | append_singleton list last ih =>
    simp only [List.foldl_append, List.foldl_cons, List.foldl_nil]
    cases hlast : matchPath culture last.1 path with
    | none =>
      rcases ih with ⟨tuple, g, htuple, hfold⟩ | ⟨hnone, hfold⟩
      · refine .inl ⟨tuple, g, ⟨List.mem_append_left _ htuple.mem, htuple.matched, ?_⟩, ?_⟩
        · simpa [or_imp, forall_and, hlast] using htuple.longest
        · rw [hfold, mapPathStep, hlast]
      · refine .inr ⟨?_, ?_⟩
        · simpa [or_imp, forall_and, hlast] using hnone
        · rw [hfold, mapPathStep, hlast]
    | some g2 =>
      rcases ih with ⟨tuple, g, htuple, hfold⟩ | ⟨hnone, hfold⟩
      · simp only [hfold, mapPathStep, hlast]
        by_cases hle : last.1.length ≤ tuple.1.length
        · refine .inl ⟨tuple, g, ⟨List.mem_append_left _ htuple.mem, htuple.matched, ?_⟩,
            if_pos hle⟩
          intro t ht hmatch
          rcases List.mem_append.mp ht with ht | ht
          · exact htuple.longest t ht hmatch
          · rwa [List.mem_singleton.mp ht]
        · refine .inl ⟨last, g2, ⟨by simp, hlast, ?_⟩, if_neg hle⟩
          intro t ht hmatch
          rcases List.mem_append.mp ht with ht | ht
          · exact (htuple.longest t ht hmatch).trans (by omega)
          · rw [List.mem_singleton.mp ht]
      · simp only [hfold, mapPathStep, hlast]
        by_cases hle : last.1.length ≤ 0
        · refine .inr ⟨?_, if_pos hle⟩
          intro t ht hmatch
          rcases List.mem_append.mp ht with ht | ht
          · exact hnone t ht hmatch
          · rw [List.mem_singleton.mp ht]
            exact List.length_eq_zero_iff.mp (by omega)
        · refine .inl ⟨last, g2, ⟨by simp, hlast, ?_⟩, if_neg hle⟩
          intro t ht hmatch
          rcases List.mem_append.mp ht with ht | ht
          · simp [hnone t ht hmatch]
          · rw [List.mem_singleton.mp ht]

/-- A path is mapped by the longest match, or not at all. -/
lemma mapPath_cases (culture : Culture) (path : Str) (list : PathMap) :
    (∃ tuple g, Longest culture list path tuple g ∧
      mapPath culture path (some list) = tuple.2 ++ g) ∨
    ((∀ t ∈ list, (matchPath culture t.1 path).isSome → t.1 = []) ∧
      mapPath culture path (some list) = path) := by
  rcases foldl_mapPathStep path list with ⟨tuple, g, htuple, hfold⟩ | ⟨hnone, hfold⟩
  · exact .inl ⟨tuple, g, htuple, by rw [mapPath, hfold, Option.getD_some]⟩
  · exact .inr ⟨hnone, by rw [mapPath, hfold, Option.getD_none]⟩

end Match

/-! ### Devices and mount paths -/

/-- Nothing else has the lower case of a colon, a backslash or a question mark. -/
def Culture.KeepsSigns (culture : Culture) : Prop :=
  ∀ sign ∈ [':', '\\', '?'], ∀ c, culture.toLower c = culture.toLower sign → c = sign

/-- Signs are no letters. -/
lemma Culture.keepsSigns_ordinal : Culture.ordinal.KeepsSigns := by
  intro sign hsign c h
  simp only [List.mem_cons, List.not_mem_nil, or_false] at hsign
  have hlow : Char.toLower sign = sign ∧ (sign.val.toNat < 97 ∨ 122 < sign.val.toNat) := by
    rcases hsign with rfl | rfl | rfl <;> decide
  simp only [Culture.ordinal, hlow.1] at h
  rw [Char.toLower.eq_def] at h
  split_ifs at h with hc
  · have hfrom : 65 ≤ c.val.toNat := UInt32.le_iff_toNat_le.mp hc.1
    have hto : c.val.toNat ≤ 90 := UInt32.le_iff_toNat_le.mp hc.2
    have hval : (c.val.toNat + 32) % 2 ^ 32 = sign.val.toNat :=
      congrArg (fun d : Char => d.val.toNat) h
    omega
  · exact h

def Shadow.device (shadow : Shadow) : Str :=
  ensureLastCharacterIsNotBackslash shadow.snapshotDeviceObject

/-- All mount paths, with the shadow copies of their volumes. -/
def mountPaths (shadows : List Shadow) : List (Shadow × Str) :=
  shadows.flatMap fun shadow =>
    shadow.mountedPaths.map fun path => (shadow, ensureLastCharacterIsNotBackslash path)

/-- The names of the devices have the extended-length prefix, and none is a component prefix of
another, ignoring case. In particular, no two are the same. -/
structure DeviceNames (culture : Culture) (shadows : List Shadow) : Prop where
  extended : ∀ shadow ∈ shadows, extendedPrefix <+: shadow.snapshotDeviceObject
  apart : shadows.Pairwise fun a b =>
    ¬ LiesUnder culture a.device b.device ∧ ¬ LiesUnder culture b.device a.device

/-- The path of a drive or a folder on it: the only colon comes second. -/
structure DrivePath (path : Str) : Prop where
  colon : path[1]? = some ':'
  single : path.count ':' = 1
  noMark : '?' ∉ path
  noBreak : '\n' ∉ path

lemma setPathMapper_eq (shadows : List Shadow) :
    setPathMapper shadows =
      ((mountPaths shadows).map fun m => (m.2, m.1.device),
        (mountPaths shadows).map fun m => (m.1.device, m.2)) := by
  simp only [setPathMapper, mountPaths, List.map_flatMap, List.map_map, Prod.mk.injEq]
  exact ⟨rfl, rfl⟩

lemma mem_mountPaths {shadows : List Shadow} {m : Shadow × Str} (h : m ∈ mountPaths shadows) :
    m.1 ∈ shadows ∧ ∃ path ∈ m.1.mountedPaths, m.2 = ensureLastCharacterIsNotBackslash path := by
  simp only [mountPaths, List.mem_flatMap, List.mem_map] at h
  obtain ⟨shadow, hshadow, path, hpath, rfl⟩ := h
  exact ⟨hshadow, path, hpath, rfl⟩

/-- Backslashes are removed at the end only. -/
lemma getElem?_ensureLastCharacterIsNotBackslash {path : Str} {i : Nat} {c : Char}
    (h : path[i]? = some c) (hc : c ≠ '\\') :
    (ensureLastCharacterIsNotBackslash path)[i]? = some c := by
  induction path using List.reverseRecOn with
  | nil => simp at h
  | append_singleton path last ih =>
    rw [ensureLastCharacterIsNotBackslash, List.rdropWhile_concat]
    split_ifs with hlast
    · refine ih ?_
      rw [List.getElem?_append] at h
      split_ifs at h with hi
      · exact h
      · rw [List.getElem?_singleton] at h
        split_ifs at h
        rw [Option.some.injEq] at h
        exact absurd (by simpa [h] using hlast) hc
    · exact h

lemma getElem?_of_getElem?_ensureLastCharacterIsNotBackslash {path : Str} {i : Nat} {c : Char}
    (h : (ensureLastCharacterIsNotBackslash path)[i]? = some c) : path[i]? = some c := by
  obtain ⟨after, hafter⟩ := List.rdropWhile_prefix (· == '\\') path
  have hlt := (List.getElem?_eq_some_iff.mp h).1
  rw [← hafter]
  exact (List.getElem?_append_left hlt).trans h

lemma DrivePath.eq_one {path : Str} (h : DrivePath path) {i : Nat} (hi : path[i]? = some ':') :
    i = 1 := by
  have hcolon := h.colon
  have hsingle := h.single
  match path, hcolon with
  | letter :: second :: rest, hcolon =>
    obtain rfl : second = ':' := by simpa using hcolon
    match i with
    | 0 =>
      obtain rfl : letter = ':' := by simpa using hi
      simp at hsingle
    | 1 => rfl
    | i + 2 =>
      have hmem : ':' ∈ rest := List.mem_of_getElem? (by simpa using hi)
      have hpos := List.count_pos_iff.mpr hmem
      simp only [List.count_cons, beq_self_eq_true, if_true] at hsingle
      omega

/-- A question mark of a mapped path is that of the prefix of the device. -/
lemma DeviceNames.eq_two {culture : Culture} {shadows : List Shadow}
    (h : DeviceNames culture shadows) {shadow : Shadow} (hshadow : shadow ∈ shadows)
    (hmark : '?' ∉ shadow.snapshotDeviceObject.drop 4) {rest : Str} (hrest : '?' ∉ rest) {i : Nat}
    (hi : (shadow.device ++ rest)[i]? = some '?') : i = 2 := by
  rw [List.getElem?_append] at hi
  split_ifs at hi
  · have hraw := getElem?_of_getElem?_ensureLastCharacterIsNotBackslash hi
    obtain ⟨name, hname⟩ := h.extended shadow hshadow
    rw [← hname] at hraw hmark
    match i with
    | 0 => simp [extendedPrefix] at hraw
    | 1 => simp [extendedPrefix] at hraw
    | 2 => rfl
    | 3 => simp [extendedPrefix] at hraw
    | i + 4 => exact absurd (List.mem_of_getElem? (by simpa [extendedPrefix] using hraw)) hmark
  · exact absurd (List.mem_of_getElem? hi) hrest

lemma DeviceNames.getElem?_device {culture : Culture} {shadows : List Shadow}
    (h : DeviceNames culture shadows) {shadow : Shadow} (hshadow : shadow ∈ shadows) :
    shadow.device[2]? = some '?' := by
  obtain ⟨name, hname⟩ := h.extended shadow hshadow
  refine getElem?_ensureLastCharacterIsNotBackslash ?_ (by decide)
  rw [← hname]
  rfl

lemma DeviceNames.not_liesUnder {culture : Culture} {shadows : List Shadow}
    (h : DeviceNames culture shadows) {a b : Shadow} (ha : a ∈ shadows) (hb : b ∈ shadows)
    (hne : a ≠ b) : ¬ LiesUnder culture a.device b.device := by
  have hsymm : Std.Symm fun a b : Shadow =>
      ¬ LiesUnder culture a.device b.device ∧ ¬ LiesUnder culture b.device a.device :=
    ⟨fun _ _ h => ⟨h.2, h.1⟩⟩
  exact (h.apart.forall ha hb hne).1

/-! ### There and back -/

section RoundTrip

variable {culture : Culture} {shadows : List Shadow} {p : Str}

/-- A mount path at or above the path, such that no other one is longer. -/
structure LongestMount (culture : Culture) (shadows : List Shadow) (p : Str) (m : Shadow × Str) :
    Prop where
  mem : m ∈ mountPaths shadows
  above : LiesUnder culture m.2 p
  longest : ∀ m' ∈ mountPaths shadows, LiesUnder culture m'.2 p → m'.2.length ≤ m.2.length

section Forward

variable (hculture : culture.KeepsSigns)
  (hmounts : ∀ shadow ∈ shadows, ∀ path ∈ shadow.mountedPaths, path[1]? = some ':')
  (hp : DrivePath p)

include hculture hmounts hp

/-- A mount path matches what lies at or under it, and nothing else. -/
lemma matchPath_mountPath {m : Shadow × Str} (hm : m ∈ mountPaths shadows) :
    matchPath culture m.2 p =
      if LiesUnder culture m.2 p then some (p.drop m.2.length) else none := by
  obtain ⟨hshadow, path, hpath, hm2⟩ := mem_mountPaths hm
  have hcolon : m.2[1]? = some ':' := by
    rw [hm2]
    exact getElem?_ensureLastCharacterIsNotBackslash (hmounts _ hshadow path hpath) (by decide)
  rw [matchPath_eq_matchAtStart (hculture ':' (by simp)) hcolon fun _ => hp.eq_one]
  exact matchAtStart_eq fun h => hp.noBreak (List.mem_of_mem_drop h)

lemma mapPath_forward {m : Shadow × Str} (hm : m ∈ mountPaths shadows)
    (habove : LiesUnder culture m.2 p) :
    ∃ m, LongestMount culture shadows p m ∧
      mapPath culture p (some (setPathMapper shadows).1) = m.1.device ++ p.drop m.2.length := by
  have hmatch := fun m hm => matchPath_mountPath (m := m) hculture hmounts hp hm
  rw [setPathMapper_eq]
  rcases mapPath_cases culture p
    ((mountPaths shadows).map fun m => (m.2, m.1.device)) with ⟨tuple, g, h, hmap⟩ | ⟨hnone, -⟩
  · obtain ⟨m', hm', rfl⟩ := List.mem_map.mp h.mem
    have hg := h.matched
    rw [hmatch m' hm'] at hg
    split_ifs at hg with habove'
    rw [Option.some.injEq] at hg
    refine ⟨m', ⟨hm', habove', fun m'' hm'' habove'' => ?_⟩, by rw [hmap, hg]⟩
    exact h.longest (m''.2, m''.1.device) (List.mem_map_of_mem hm'')
      (by rw [hmatch m'' hm'', if_pos habove'']; rfl)
  · have hempty := hnone (m.2, m.1.device) (List.mem_map_of_mem hm)
      (by rw [hmatch m hm, if_pos habove]; rfl)
    obtain ⟨hshadow, path, hpath, hm2⟩ := mem_mountPaths hm
    have hcolon := getElem?_ensureLastCharacterIsNotBackslash (hmounts _ hshadow path hpath)
      (by decide)
    rw [← hm2, show m.2 = [] from hempty] at hcolon
    simp at hcolon

lemma mapPath_unmounted (h : ∀ m ∈ mountPaths shadows, ¬ LiesUnder culture m.2 p) :
    mapPath culture p (some (setPathMapper shadows).1) = p := by
  rw [setPathMapper_eq]
  rcases mapPath_cases culture p
    ((mountPaths shadows).map fun m => (m.2, m.1.device)) with ⟨tuple, g, hlongest, -⟩ | ⟨-, hmap⟩
  · obtain ⟨m, hm, rfl⟩ := List.mem_map.mp hlongest.mem
    have hg := hlongest.matched
    rw [matchPath_mountPath hculture hmounts hp hm, if_neg (h m hm)] at hg
    simp at hg
  · exact hmap

end Forward

/-- The reverse mapper finds the device of a mapped path. -/
lemma mapPath_backward (hculture : culture.KeepsSigns) (hdevices : DeviceNames culture shadows)
    (hmarks : ∀ shadow ∈ shadows, '?' ∉ shadow.snapshotDeviceObject.drop 4)
    {m : Shadow × Str} (hm : m ∈ mountPaths shadows) {rest : Str} (hmark : '?' ∉ rest)
    (hbreak : '\n' ∉ rest) (hrest : ∀ c ∈ rest.head?, c = '\\') :
    ∃ back ∈ mountPaths shadows, back.1 = m.1 ∧
      mapPath culture (m.1.device ++ rest) (some (setPathMapper shadows).2) = back.2 ++ rest := by
  have hshadow := (mem_mountPaths hm).1
  have hstart : ∀ m' ∈ mountPaths shadows,
      matchPath culture m'.1.device (m.1.device ++ rest) =
        matchAtStart culture m'.1.device (m.1.device ++ rest) := by
    intro m' hm'
    exact matchPath_eq_matchAtStart (hculture '?' (by simp))
      (hdevices.getElem?_device (mem_mountPaths hm').1)
      fun i hi => hdevices.eq_two hshadow (hmarks _ hshadow) hmark hi
  have hown : matchPath culture m.1.device (m.1.device ++ rest) = some rest := by
    rw [hstart m hm, matchAtStart_eq (by rwa [List.drop_left]), if_pos (liesUnder_append hrest),
      List.drop_left]
  rw [setPathMapper_eq]
  rcases mapPath_cases culture (m.1.device ++ rest)
    ((mountPaths shadows).map fun m => (m.1.device, m.2)) with ⟨tuple, g, h, hmap⟩ | ⟨hnone, -⟩
  · obtain ⟨back, hback, rfl⟩ := List.mem_map.mp h.mem
    have hlength : m.1.device.length ≤ back.1.device.length :=
      h.longest (m.1.device, m.2) (List.mem_map_of_mem hm) (by rw [hown]; rfl)
    -- A device that is at least as long and matches is under the device of the path.
    have hline : '\n' ∉ (m.1.device ++ rest).drop back.1.device.length := by
      rw [List.drop_append, List.drop_eq_nil_of_le hlength, List.nil_append]
      exact fun h => hbreak (List.mem_of_mem_drop h)
    have hg := h.matched
    rw [hstart back hback, matchAtStart_eq hline] at hg
    split_ifs at hg with habove
    have hsame : back.1 = m.1 := by
      by_contra hne
      have hunder := (liesUnder_append hrest).of_length_le (hculture '\\' (by simp)) habove hlength
      exact hdevices.not_liesUnder hshadow (mem_mountPaths hback).1 (Ne.symm hne) hunder
    refine ⟨back, hback, hsame, ?_⟩
    rw [hmap, ← Option.some.inj hg, hsame, List.drop_left]
  · have hempty := hnone (m.1.device, m.2) (List.mem_map_of_mem hm) (by rw [hown]; rfl)
    have hdevice := hdevices.getElem?_device hshadow
    rw [show m.1.device = [] from hempty] at hdevice
    simp at hdevice

/-- A path at or under a mount path is mapped to the device of the longest such mount path, and
back to a place where the same volume is mounted; any other path stays as it is. -/
theorem mapPath_roundTrip (hculture : culture.KeepsSigns) (hdevices : DeviceNames culture shadows)
    (hmarks : ∀ shadow ∈ shadows, '?' ∉ shadow.snapshotDeviceObject.drop 4)
    (hmounts : ∀ shadow ∈ shadows, ∀ path ∈ shadow.mountedPaths, path[1]? = some ':')
    (hp : DrivePath p) :
    ((∃ m ∈ mountPaths shadows, LiesUnder culture m.2 p) →
      ∃ m, LongestMount culture shadows p m ∧
        mapPath culture p (some (setPathMapper shadows).1) = m.1.device ++ p.drop m.2.length ∧
        ∃ back ∈ mountPaths shadows, back.1 = m.1 ∧
          mapPath culture (m.1.device ++ p.drop m.2.length) (some (setPathMapper shadows).2) =
            back.2 ++ p.drop m.2.length) ∧
    ((¬ ∃ m ∈ mountPaths shadows, LiesUnder culture m.2 p) →
      mapPath culture p (some (setPathMapper shadows).1) = p) := by
  refine ⟨?_, fun h => mapPath_unmounted hculture hmounts hp fun m hm habove => h ⟨m, hm, habove⟩⟩
  rintro ⟨m, hm, habove⟩
  obtain ⟨m', hlongest, hforward⟩ := mapPath_forward hculture hmounts hp hm habove
  refine ⟨m', hlongest, hforward, ?_⟩
  exact mapPath_backward hculture hdevices hmarks hlongest.mem
    (fun h => hp.noMark (List.mem_of_mem_drop h)) (fun h => hp.noBreak (List.mem_of_mem_drop h))
    hlongest.above.2

/-- Two devices of which one name begins like the other; the second volume is mounted twice, once
in a folder of the first one. -/
def nestedCopies : List Shadow :=
  [⟨"\\\\?\\Device\\Copy1".toList, ["C:\\".toList]⟩,
    ⟨"\\\\?\\Device\\Copy12".toList, ["D:\\".toList, "C:\\data\\".toList]⟩]

theorem mapPath_roundTrip_nested :
    ∃ m, LongestMount .ordinal nestedCopies "c:\\DATA\\x".toList m ∧
      mapPath .ordinal "c:\\DATA\\x".toList (some (setPathMapper nestedCopies).1) =
        m.1.device ++ "c:\\DATA\\x".toList.drop m.2.length ∧
      ∃ back ∈ mountPaths nestedCopies, back.1 = m.1 ∧
        mapPath .ordinal (m.1.device ++ "c:\\DATA\\x".toList.drop m.2.length)
            (some (setPathMapper nestedCopies).2) =
          back.2 ++ "c:\\DATA\\x".toList.drop m.2.length :=
  (mapPath_roundTrip Culture.keepsSigns_ordinal ⟨by decide +kernel, by decide +kernel⟩
    (by decide +kernel) (by decide +kernel)
    ⟨by decide, by decide, by decide, by decide⟩).1 (by decide +kernel)

example : mapPath .ordinal "c:\\DATA\\x".toList (some (setPathMapper nestedCopies).1) =
    "\\\\?\\Device\\Copy12\\x".toList := by decide +kernel

/-- The second device is found within the first one, and it is the longer one. -/
def embeddedCopies : List Shadow :=
  [⟨"\\\\?\\a\\\\?\\b".toList, ["C:\\".toList]⟩,
    ⟨"\\\\?\\b\\folder".toList, ["D:\\".toList]⟩]

/-- A path that does not come back, for want of the condition on the question marks. -/
theorem mapPath_embedded :
    Culture.ordinal.KeepsSigns ∧ DeviceNames .ordinal embeddedCopies ∧
      (∀ shadow ∈ embeddedCopies, ∀ path ∈ shadow.mountedPaths, path[1]? = some ':') ∧
      DrivePath "C:\\folder\\x".toList ∧
      (∃ m ∈ mountPaths embeddedCopies, LiesUnder .ordinal m.2 "C:\\folder\\x".toList) ∧
      ∀ m, LongestMount .ordinal embeddedCopies "C:\\folder\\x".toList m →
        mapPath .ordinal "C:\\folder\\x".toList (some (setPathMapper embeddedCopies).1) =
          m.1.device ++ "C:\\folder\\x".toList.drop m.2.length ∧
        ∀ back ∈ mountPaths embeddedCopies, back.1 = m.1 →
          mapPath .ordinal (m.1.device ++ "C:\\folder\\x".toList.drop m.2.length)
              (some (setPathMapper embeddedCopies).2) ≠
            back.2 ++ "C:\\folder\\x".toList.drop m.2.length := by
  refine ⟨Culture.keepsSigns_ordinal, ⟨by decide +kernel, by decide +kernel⟩,
    by decide +kernel, ⟨by decide, by decide, by decide, by decide⟩, by decide +kernel,
    fun m hm => ?_⟩
  have hall : ∀ m ∈ mountPaths embeddedCopies,
      LiesUnder .ordinal m.2 "C:\\folder\\x".toList →
        mapPath .ordinal "C:\\folder\\x".toList (some (setPathMapper embeddedCopies).1) =
          m.1.device ++ "C:\\folder\\x".toList.drop m.2.length ∧
        ∀ back ∈ mountPaths embeddedCopies, back.1 = m.1 →
          mapPath .ordinal (m.1.device ++ "C:\\folder\\x".toList.drop m.2.length)
              (some (setPathMapper embeddedCopies).2) ≠
            back.2 ++ "C:\\folder\\x".toList.drop m.2.length := by
    decide +kernel
  exact hall m hm.mem hm.above

end RoundTrip

end BackupProgram
