import BackupProgram.FileSystem.Create
import BackupProgram.Lib.Results

/-!
# Versions in the target directory

The archive of a version is found by its name, and the versions there are, by the names of the files
of the directory. The file system ignores the case of a name in its own way, which no culture changes;
the regular expression that looks for versions ignores it the way the current culture does.
-/

namespace BackupProgram

open Results

/-- The files of a directory. -/
abbrev Directory (α : Type) : Type := List (Str × α)

/-- Names that agree in this way are the same to the file system. -/
def lower (s : Str) : Str := s.map Char.toLower

namespace Directory

variable {α : Type}

def get? (dir : Directory α) (name : Str) : Option α :=
  (dir.find? fun file => lower file.1 = lower name).map Prod.snd

/-- A file is created or overwritten. -/
def put (dir : Directory α) (name : Str) (content : α) : Directory α :=
  if (dir.get? name).isSome then
    dir.map fun file => if lower file.1 = lower name then (file.1, content) else file
  else dir ++ [(name, content)]

lemma get?_eq_none_iff {dir : Directory α} {name : Str} :
    dir.get? name = none ↔ ∀ file ∈ dir, lower file.1 ≠ lower name := by
  simp [get?]

lemma exists_of_get? {dir : Directory α} {name : Str} {a : α} (h : dir.get? name = some a) :
    ∃ file ∈ dir, lower file.1 = lower name ∧ file.2 = a := by
  simp only [get?, Option.map_eq_some_iff] at h
  obtain ⟨file, hfile, rfl⟩ := h
  exact ⟨file, List.mem_of_find?_eq_some hfile, by simpa using List.find?_some hfile, rfl⟩

lemma find?_map_replace (dir : Directory α) (name name' : Str) (content : α) :
    (dir.map fun file => if lower file.1 = lower name then (file.1, content) else file).find?
        (fun file => lower file.1 = lower name') =
      (dir.find? fun file => lower file.1 = lower name').map fun file =>
        if lower file.1 = lower name then (file.1, content) else file := by
  rw [List.find?_map]
  congr 2
  funext file
  simp only [Function.comp_apply]
  split_ifs <;> rfl

lemma get?_put_self (dir : Directory α) (name : Str) (content : α) :
    (dir.put name content).get? name = some content := by
  rw [put]
  split_ifs with h
  · obtain ⟨a, ha⟩ := Option.isSome_iff_exists.mp h
    rw [get?, Option.map_eq_some_iff] at ha
    obtain ⟨file, hfile, -⟩ := ha
    have hname : lower file.1 = lower name := by simpa using List.find?_some hfile
    rw [get?, find?_map_replace, hfile]
    simp [hname]
  · have hnone : dir.find? (fun file => lower file.1 = lower name) = none := by
      simpa [get?] using h
    rw [get?, List.find?_append, hnone]
    simp

lemma get?_put_of_ne {dir : Directory α} {name name' : Str} (content : α)
    (h : lower name' ≠ lower name) : (dir.put name content).get? name' = dir.get? name' := by
  rw [put]
  split_ifs
  · rw [get?, find?_map_replace, get?]
    cases hfind : dir.find? fun file => lower file.1 = lower name' with
    | none => rfl
    | some file =>
      have hname : lower file.1 = lower name' := by simpa using List.find?_some hfind
      simp [hname, h]
  · rw [get?, List.find?_append, get?]
    cases dir.find? fun file => lower file.1 = lower name' <;> simp [h.symm]

end Directory

/-! ### Names of versions -/

/-- The largest number of type `int`. -/
def maxInt : Int := 2 ^ 31 - 1

/-- The value of an `int` after an operation that may overflow. -/
def toInt32 (n : Int) : Int := Int.bmod n (2 ^ 32)

/-- `ToString("00000000")` -/
def formatVersion (version : Int) : Str :=
  let digits := Nat.toDigits 10 version.natAbs
  (if version < 0 then ['-'] else []) ++ List.replicate (8 - digits.length) '0' ++ digits

/-- The file name of `GetVersionPath`. -/
def getVersionName (version : Int) : Str :=
  ['v', 'e', 'r', 's', 'i', 'o', 'n'] ++ formatVersion version ++ ['.', 'a', 'r', 'c']

/-- A literal part of a regular expression that ignores case the way the current culture does, at
the beginning of a string. -/
def matchLiteral (culture : Culture) (literal s : Str) : Bool :=
  (literal.map culture.toLower).isPrefixOf (s.map culture.toLower)

/-- The part of the regular expression of `SetVersions` from the name of a version on, at the
beginning of a string; the group of digits. -/
def matchVersion (culture : Culture) (s : Str) : Option Str :=
  if matchLiteral culture ['v', 'e', 'r', 's', 'i', 'o', 'n'] s then
    let rest := s.drop 7
    let digits := rest.takeWhile Char.isDigit
    if !digits.isEmpty &&
        matchLiteral culture ['.', 'a', 'r', 'c'] (rest.dropWhile Char.isDigit) then
      some digits
    else none
  else none

/-- The whole regular expression: its first part takes as much as it can, so that the last match of
the second part is the one that counts. -/
def versionOfPath (culture : Culture) : Str → Option Str
  | [] => none
  | c :: s => (versionOfPath culture s).or (matchVersion culture (c :: s))

/-- `Convert.ToInt32` of digits -/
def toInt32OfDigits (digits : Str) : Except EngineError Int :=
  let n : Int := Nat.ofDigitChars 10 digits 0
  if n ≤ maxInt then return n else throw .overflow

def digitsValue (digits : Str) : Int := Nat.ofDigitChars 10 digits 0

/-- The number under which a file of the directory is found, if it is. -/
def readVersion (culture : Culture) (targetLocation name : Str) : Option Int :=
  (versionOfPath culture (targetLocation ++ '\\' :: name)).map digitsValue

def setVersions {α : Type} (culture : Culture) (targetLocation : Str) (dir : Directory α) :
    Except EngineError (List Int) := do
  let paths := dir.map fun file => targetLocation ++ '\\' :: file.1
  let versions ← (paths.filterMap (versionOfPath culture)).mapM toInt32OfDigits
  return versions.insertionSort (· ≤ ·)

/-- The names of versions have no capital letters: a culture that leaves lower case letters, digits
and the point as they are does not change them. -/
def Culture.KeepsNames (culture : Culture) : Prop :=
  ∀ c : Char, c.isLower ∨ c.isDigit ∨ c = '.' → culture.toLower c = c

/-! ### A version is found under its name -/

section Culture

variable {culture : Culture}

lemma versionOfPath_append {s digits : Str} (p : Str) (h : versionOfPath culture s = some digits) :
    versionOfPath culture (p ++ s) = some digits := by
  induction p with
  | nil => exact h
  | cons c p ih => rw [List.cons_append, versionOfPath, ih, Option.some_or]

/-- A literal is found where it stands. -/
lemma matchLiteral_append (literal s : Str) : matchLiteral culture literal (literal ++ s) := by
  rw [matchLiteral, List.map_append, List.isPrefixOf_iff_prefix]
  exact List.prefix_append _ _

lemma versionOfPath_eq_none (hculture : culture.KeepsNames) {s : Str}
    (h : ∀ c ∈ s, culture.toLower c ≠ 'v') : versionOfPath culture s = none := by
  induction s with
  | nil => rfl
  | cons c s ih =>
    have hc : culture.toLower c ≠ 'v' := h c List.mem_cons_self
    have hv : culture.toLower 'v' = 'v' := hculture 'v' (by decide)
    rw [versionOfPath, ih fun c hc => h c (List.mem_cons_of_mem _ hc), Option.none_or, matchVersion]
    simp [matchLiteral, hv, hc.symm]

/-- Nothing after the name is looked at. -/
lemma versionOfPath_name_append (hculture : culture.KeepsNames) {digits suffix : Str}
    (hne : digits ≠ []) (hdigits : ∀ c ∈ digits, c.isDigit)
    (hsuffix : ∀ c ∈ suffix, culture.toLower c ≠ 'v') :
    versionOfPath culture (['v', 'e', 'r', 's', 'i', 'o', 'n'] ++ digits ++ ['.', 'a', 'r', 'c'] ++
      suffix) = some digits := by
  have hkeep : ∀ c : Char, c.isLower ∨ c.isDigit ∨ c = '.' → c ≠ 'v' → culture.toLower c ≠ 'v' :=
    fun c hc hne => by rwa [hculture c hc]
  have hrest : versionOfPath culture
      (['e', 'r', 's', 'i', 'o', 'n'] ++ digits ++ ['.', 'a', 'r', 'c'] ++ suffix) = none := by
    refine versionOfPath_eq_none hculture fun c hc => ?_
    simp only [List.mem_append] at hc
    rcases hc with ((hc | hc) | hc) | hc
    · apply hkeep
      · fin_cases hc <;> decide
      · fin_cases hc <;> decide
    · apply hkeep c (.inr (.inl (hdigits c hc)))
      rintro rfl
      exact absurd (hdigits _ hc) (by decide)
    · apply hkeep
      · fin_cases hc <;> decide
      · fin_cases hc <;> decide
    · exact hsuffix c hc
  have htake :
      (digits ++ ('.' :: 'a' :: 'r' :: 'c' :: suffix)).takeWhile Char.isDigit = digits := by
    rw [List.takeWhile_append_of_pos hdigits]
    simp
  have hdrop : (digits ++ ('.' :: 'a' :: 'r' :: 'c' :: suffix)).dropWhile Char.isDigit =
      ['.', 'a', 'r', 'c'] ++ suffix := by
    rw [List.dropWhile_append_of_pos hdigits]
    rfl
  have hmatch : matchVersion culture (['v', 'e', 'r', 's', 'i', 'o', 'n'] ++
      (digits ++ ('.' :: 'a' :: 'r' :: 'c' :: suffix))) = some digits := by
    have hempty : digits.isEmpty = false := by simpa using hne
    rw [matchVersion, if_pos (matchLiteral_append _ _)]
    rw [show (['v', 'e', 'r', 's', 'i', 'o', 'n'] ++ (digits ++ ('.' :: 'a' :: 'r' :: 'c' ::
      suffix))).drop 7 = digits ++ ('.' :: 'a' :: 'r' :: 'c' :: suffix) from rfl]
    simp only [htake, hdrop, hempty, matchLiteral_append, Bool.not_false, Bool.and_self, if_true]
  rw [show ['v', 'e', 'r', 's', 'i', 'o', 'n'] ++ digits ++ ['.', 'a', 'r', 'c'] ++ suffix =
    'v' :: (['e', 'r', 's', 'i', 'o', 'n'] ++ digits ++ ['.', 'a', 'r', 'c'] ++ suffix) from rfl]
  rw [versionOfPath, hrest, Option.none_or, ← hmatch]
  congr 1
  simp

lemma isDigit_of_mem_formatVersion {version : Int} (h : 0 ≤ version) :
    ∀ c ∈ formatVersion version, c.isDigit := by
  intro c hc
  rw [formatVersion, if_neg (by omega), List.nil_append, List.mem_append, List.mem_replicate] at hc
  rcases hc with ⟨-, rfl⟩ | hc
  · decide
  · exact Nat.isDigit_of_mem_toDigits (by decide) (by decide) hc

lemma ofDigitChars_formatVersion {version : Int} (h : 0 ≤ version) :
    (Nat.ofDigitChars 10 (formatVersion version) 0 : Int) = version := by
  rw [formatVersion, if_neg (by omega), List.nil_append, Nat.ofDigitChars_append,
    Nat.ofDigitChars_replicate_zero, Nat.mul_zero,
    Nat.ofDigitChars_toDigits (by decide) (by decide)]
  omega

lemma formatVersion_ne_nil (version : Int) : formatVersion version ≠ [] := by
  simp [formatVersion, Nat.toDigits_ne_nil]

@[simp] lemma lower_append (a b : Str) : lower (a ++ b) = lower a ++ lower b := List.map_append

lemma toLower_of_isDigit {c : Char} (h : c.isDigit) : c.toLower = c := by
  simp only [Char.isDigit, Bool.and_eq_true, decide_eq_true_eq] at h
  have hlt : ¬ (c.val ≥ 'A'.val ∧ c.val ≤ 'Z'.val) := by
    rintro ⟨hA, -⟩
    have h9 : c.val.toNat ≤ 57 := UInt32.le_iff_toNat_le.mp h.2
    have hA : 65 ≤ c.val.toNat := UInt32.le_iff_toNat_le.mp hA
    omega
  rw [Char.toLower, dif_neg hlt]

lemma toLower_of_isLower {c : Char} (h : c.isLower) : c.toLower = c := by
  simp only [Char.isLower, Bool.and_eq_true, decide_eq_true_eq] at h
  have hlt : ¬ (c.val ≥ 'A'.val ∧ c.val ≤ 'Z'.val) := by
    rintro ⟨-, hZ⟩
    have ha : 97 ≤ c.val.toNat := UInt32.le_iff_toNat_le.mp h.1
    have hZ : c.val.toNat ≤ 90 := UInt32.le_iff_toNat_le.mp hZ
    omega
  rw [Char.toLower, dif_neg hlt]

lemma Culture.keepsNames_ordinal : Culture.ordinal.KeepsNames := by
  rintro c (hlower | hdigit | rfl)
  · exact toLower_of_isLower hlower
  · exact toLower_of_isDigit hdigit
  · rfl

/-- In Turkish, a capital `I` is an `ı` without a dot. -/
def Culture.turkish : Culture where
  toLower c := if c == 'I' then 'ı' else c.toLower
  equalsIgnoreCase a b :=
    a.map (fun c => if c == 'I' then 'ı' else c.toLower) ==
      b.map (fun c => if c == 'I' then 'ı' else c.toLower)

example : (readVersion .ordinal ['T'] "VERSION1.ARC".toList, readVersion .turkish ['T']
    "VERSION1.ARC".toList, readVersion .turkish ['T'] "VERSiON1.ARC".toList) =
      (some 1, none, some 1) := by decide +kernel

lemma lower_getVersionName {version : Int} (h : 0 ≤ version) :
    lower (getVersionName version) = getVersionName version := by
  have hdigits : lower (formatVersion version) = formatVersion version := by
    refine (List.map_congr_left fun c hc => ?_).trans (List.map_id _)
    exact toLower_of_isDigit (isDigit_of_mem_formatVersion h c hc)
  rw [getVersionName, lower_append, lower_append, hdigits]
  rfl

/-- A name that begins like that of a version is taken for it. -/
lemma versionOfPath_of_append (hculture : culture.KeepsNames) {version : Int} (h : 0 ≤ version)
    (p suffix : Str) (hsuffix : ∀ c ∈ suffix, culture.toLower c ≠ 'v') :
    versionOfPath culture (p ++ (getVersionName version ++ suffix)) =
      some (formatVersion version) := by
  rw [getVersionName]
  exact versionOfPath_append _ (versionOfPath_name_append hculture (formatVersion_ne_nil _)
    (isDigit_of_mem_formatVersion h) hsuffix)

/-- The file of a version in a directory, as it is named. -/
lemma versionOfPath_version (hculture : culture.KeepsNames) (targetLocation : Str) {version : Int}
    (h : 0 ≤ version) :
    versionOfPath culture (targetLocation ++ '\\' :: getVersionName version) =
      some (formatVersion version) := by
  have key := versionOfPath_of_append hculture h (targetLocation ++ ['\\']) [] (by simp)
  rwa [List.append_nil, List.append_assoc] at key

lemma digitsValue_formatVersion {version : Int} (h : 0 ≤ version) :
    digitsValue (formatVersion version) = version := ofDigitChars_formatVersion h

/-- A version is read under its exact name. -/
lemma readVersion_version (hculture : culture.KeepsNames) (targetLocation : Str) {version : Int}
    (h : 0 ≤ version) :
    readVersion culture targetLocation (getVersionName version) = some version := by
  rw [readVersion, versionOfPath_version hculture targetLocation h, Option.map_some,
    digitsValue_formatVersion h]

lemma readVersion_nonneg {targetLocation name : Str} {version : Int}
    (h : readVersion culture targetLocation name = some version) : 0 ≤ version := by
  obtain ⟨digits, -, rfl⟩ := Option.map_eq_some_iff.mp h
  exact Int.natCast_nonneg _

/-! ### What is found -/

variable {α : Type} {targetLocation : Str} {dir : Directory α} {versions : List Int}

lemma toInt32OfDigits_eq_ok {digits : Str} {n : Int} :
    toInt32OfDigits digits = .ok n ↔ digitsValue digits ≤ maxInt ∧ digitsValue digits = n := by
  rw [toInt32OfDigits, ite_throw_eq_ok, pure_eq_ok, digitsValue]

lemma mapM_toInt32OfDigits_eq_ok {found : List Str} :
    found.mapM toInt32OfDigits = .ok versions ↔
      (∀ digits ∈ found, digitsValue digits ≤ maxInt) ∧ found.map digitsValue = versions := by
  induction found generalizing versions with
  | nil => simp
  | cons digits found ih =>
    simp only [List.mapM_cons, bind_eq_ok, pure_eq_ok, toInt32OfDigits_eq_ok, ih,
      List.forall_mem_cons, List.map_cons]
    constructor
    · rintro ⟨n, ⟨hle, rfl⟩, ns, ⟨hall, rfl⟩, rfl⟩
      exact ⟨⟨hle, hall⟩, rfl⟩
    · rintro ⟨⟨hle, hall⟩, rfl⟩
      exact ⟨_, ⟨hle, rfl⟩, _, ⟨hall, rfl⟩, rfl⟩

/-- The numbers that are read, file by file. -/
def foundVersions (culture : Culture) (targetLocation : Str) (dir : Directory α) : List Int :=
  dir.filterMap fun file => readVersion culture targetLocation file.1

theorem setVersions_eq_ok : setVersions culture targetLocation dir = .ok versions ↔
    (∀ n ∈ foundVersions culture targetLocation dir, n ≤ maxInt) ∧
      (foundVersions culture targetLocation dir).insertionSort (· ≤ ·) = versions := by
  have hfound : foundVersions culture targetLocation dir =
      (dir.filterMap fun file => versionOfPath culture (targetLocation ++ '\\' :: file.1)).map
        digitsValue := by
    rw [List.map_filterMap]
    rfl
  simp only [setVersions, List.filterMap_map, bind_eq_ok, pure_eq_ok, mapM_toInt32OfDigits_eq_ok]
  rw [hfound]
  constructor
  · rintro ⟨found, ⟨hall, rfl⟩, rfl⟩
    exact ⟨List.forall_mem_map.mpr hall, rfl⟩
  · rintro ⟨hall, rfl⟩
    exact ⟨_, ⟨fun digits hdigits => hall _ (List.mem_map_of_mem hdigits), rfl⟩, rfl⟩

lemma mem_setVersions_iff (h : setVersions culture targetLocation dir = .ok versions) {k : Int} :
    k ∈ versions ↔ ∃ file ∈ dir, readVersion culture targetLocation file.1 = some k := by
  obtain ⟨-, rfl⟩ := setVersions_eq_ok.mp h
  rw [List.mem_insertionSort, foundVersions, List.mem_filterMap]

/-- The versions that are present under their exact names are found. -/
lemma mem_setVersions (hculture : culture.KeepsNames)
    (h : setVersions culture targetLocation dir = .ok versions) {version : Int}
    (hnonneg : 0 ≤ version) (hpresent : getVersionName version ∈ dir.map Prod.fst) :
    version ∈ versions := by
  obtain ⟨file, hfile, hname⟩ := List.mem_map.mp hpresent
  refine (mem_setVersions_iff h).mpr ⟨file, hfile, ?_⟩
  rw [hname, readVersion_version hculture targetLocation hnonneg]

/-- The versions that are found are sorted, so that the last one is the newest. -/
lemma getLast_setVersions (h : setVersions culture targetLocation dir = .ok versions) {back : Int}
    (hback : versions.getLast? = some back) :
    0 ≤ back ∧ back ≤ maxInt ∧ ∀ version ∈ versions, version ≤ back := by
  have hmem := List.mem_of_getLast? hback
  obtain ⟨file, hfile, hread⟩ := (mem_setVersions_iff h).mp hmem
  obtain ⟨hle, rfl⟩ := setVersions_eq_ok.mp h
  refine ⟨readVersion_nonneg hread, hle _ (List.mem_filterMap.mpr ⟨file, hfile, hread⟩),
    fun version hversion => ?_⟩
  have hsorted := List.pairwise_insertionSort (· ≤ ·) (foundVersions culture targetLocation dir)
  have hlast := hsorted.rel_getLast hversion
  rw [List.getLast?_eq_some_getLast (List.ne_nil_of_mem hversion), Option.some.injEq] at hback
  rwa [hback] at hlast

end Culture

end BackupProgram
