import BackupProgram.Util.StringUtils

/-!
# Normal forms of paths

A path in normal form consists of its root and its components, with one backslash between them.
What `NormalizePath` makes of a path is put together from the components of the path; its root does
not always survive.
-/

namespace BackupProgram

namespace StringUtils

/-! ### Components -/

lemma decomposePath_append {c : Char} (hc : pathSplitters c = true) (before after : Str) :
    decomposePath (before ++ c :: after) = decomposePath before ++ decomposePath after := by
  rw [decomposePath, List.splitOnP_append_cons _ _ hc, List.filter_append]
  rfl

@[simp] lemma decomposePath_nil : decomposePath [] = [] := rfl

lemma decomposePath_cons_splitter {c : Char} (hc : pathSplitters c = true) (path : Str) :
    decomposePath (c :: path) = decomposePath path :=
  decomposePath_append hc [] path

/-- The first component ends where a separator or nothing follows. -/
lemma decomposePath_cons_of_head {c : Char} {path : Str} (hc : pathSplitters c = false)
    (hpath : ∀ d ∈ path.head?, pathSplitters d = true) :
    decomposePath (c :: path) = [c] :: decomposePath path := by
  cases path with
  | nil => simp [decomposePath, List.splitOnP_cons_eq_if_modifyHead, hc]
  | cons d path => simp [decomposePath, List.splitOnP_cons_eq_if_modifyHead, hc, hpath d rfl]

/-- Otherwise it goes on. -/
lemma decomposePath_cons_cons {c d : Char} (path : Str) (hc : pathSplitters c = false)
    (hd : pathSplitters d = false) : ∃ part parts, decomposePath (d :: path) = part :: parts ∧
      decomposePath (c :: d :: path) = (c :: part) :: parts := by
  obtain ⟨part, parts, hparts⟩ := List.exists_cons_of_ne_nil
    (List.splitOnP_ne_nil pathSplitters path)
  exact ⟨d :: part, parts.filter fun part => !part.isEmpty,
    by simp [decomposePath, List.splitOnP_cons_eq_if_modifyHead, hd, hparts],
    by simp [decomposePath, List.splitOnP_cons_eq_if_modifyHead, hc, hd, hparts]⟩

/-- What a path is made of. -/
def IsPart (part : Str) : Prop := part ≠ [] ∧ ∀ c ∈ part, pathSplitters c = false

lemma IsPart.decomposePath_eq {part : Str} (h : IsPart part) : decomposePath part = [part] := by
  rw [decomposePath, List.splitOnP_eq_singleton h.2]
  simp [h.1]

lemma isPart_of_mem_decomposePath {path part : Str} (h : part ∈ decomposePath path) :
    IsPart part := by
  induction path generalizing part with
  | nil => simp at h
  | cons c path ih =>
    cases hc : pathSplitters c with
    | true => exact ih (by rwa [decomposePath_cons_splitter hc] at h)
    | false =>
      cases path with
      | nil =>
        rw [decomposePath_cons_of_head hc (by simp)] at h
        obtain rfl : part = [c] := by simpa using h
        exact ⟨by simp, by simpa using hc⟩
      | cons d path =>
        cases hd : pathSplitters d with
        | true =>
          rw [decomposePath_cons_of_head hc (by simpa using hd), List.mem_cons] at h
          rcases h with rfl | h
          · exact ⟨by simp, by simpa using hc⟩
          · exact ih h
        | false =>
          obtain ⟨first, parts, hparts, hparts'⟩ := decomposePath_cons_cons path hc hd
          rw [hparts', List.mem_cons] at h
          rcases h with rfl | h
          · have hfirst := @ih first (by simp [hparts])
            exact ⟨by simp, by simpa [hc] using hfirst.2⟩
          · exact ih (by simp [hparts, h])

/-! ### Joining components -/

/-- The components with a backslash before each of them, except for the first one if the path is
not rooted. -/
def joinParts (rooted : Bool) (parts : List Str) : Str :=
  if rooted then parts.flatMap ('\\' :: ·) else (parts.flatMap ('\\' :: ·)).tail

def beginsWithSplitter (path : Str) : Bool := path.head?.any pathSplitters

lemma joinParts_cons (part : Str) (parts : List Str) :
    joinParts false (part :: parts) = part ++ joinParts true parts := by
  simp [joinParts]

lemma joinParts_true_cons (part : Str) (parts : List Str) :
    joinParts true (part :: parts) = '\\' :: part ++ joinParts true parts := by
  simp [joinParts]

lemma decomposePath_joinParts_true {parts : List Str} (h : ∀ part ∈ parts, IsPart part) :
    decomposePath (joinParts true parts) = parts := by
  induction parts with
  | nil => rfl
  | cons part parts ih =>
    rw [List.forall_mem_cons] at h
    rw [joinParts_true_cons, List.cons_append, decomposePath_cons_splitter rfl]
    cases parts with
    | nil => simpa [joinParts] using h.1.decomposePath_eq
    | cons next parts =>
      have ih := ih h.2
      rw [joinParts_true_cons, List.cons_append, decomposePath_cons_splitter rfl] at ih
      rw [joinParts_true_cons, List.cons_append, decomposePath_append rfl, h.1.decomposePath_eq, ih]
      rfl

@[simp] lemma decomposePath_joinParts (rooted : Bool) {parts : List Str}
    (h : ∀ part ∈ parts, IsPart part) : decomposePath (joinParts rooted parts) = parts := by
  cases rooted with
  | true => exact decomposePath_joinParts_true h
  | false =>
    have key := decomposePath_joinParts_true h
    cases parts with
    | nil => rfl
    | cons part parts =>
      rwa [joinParts_true_cons, List.cons_append, decomposePath_cons_splitter rfl,
        ← joinParts_cons] at key

/-! ### The loop -/

/-- What the loop appends: the components, with the separator at the end if there is one. -/
lemma normalizePathLoop_eq (path : Str) :
    ((normalizePathLoop false path).1 =
      joinParts (beginsWithSplitter path) (decomposePath path) ++
        if (normalizePathLoop false path).2 then ['\\'] else []) ∧
    ((decomposePath path = [] ∧ normalizePathLoop true path = ([], true)) ∨
      (decomposePath path ≠ [] ∧ (normalizePathLoop true path).1 =
        joinParts false (decomposePath path) ++
          if (normalizePathLoop true path).2 then ['\\'] else [])) := by
  induction path with
  | nil => exact ⟨rfl, .inl ⟨rfl, rfl⟩⟩
  | cons c path ih =>
    obtain ⟨ihfalse, ihtrue⟩ := ih
    cases hc : pathSplitters c with
    | true =>
      rw [decomposePath_cons_splitter hc]
      simp only [normalizePathLoop, hc, if_true, Bool.false_eq_true, if_false]
      refine ⟨?_, ihtrue⟩
      rw [show beginsWithSplitter (c :: path) = true by simp [beginsWithSplitter, hc]]
      rcases ihtrue with ⟨hparts, hloop⟩ | ⟨hparts, hloop⟩
      · rw [hparts, hloop]
        rfl
      · obtain ⟨part, parts, hcons⟩ := List.exists_cons_of_ne_nil hparts
        rw [hloop, hcons, joinParts_cons, joinParts_true_cons]
        simp
    | false =>
      have hjoin : c :: joinParts (beginsWithSplitter path) (decomposePath path) =
          joinParts false (decomposePath (c :: path)) ∧ decomposePath (c :: path) ≠ [] := by
        cases path with
        | nil =>
          rw [decomposePath_cons_of_head hc (by simp)]
          simp [joinParts]
        | cons d path =>
          cases hd : pathSplitters d with
          | true =>
            rw [decomposePath_cons_of_head hc (by simpa using hd), joinParts_cons]
            simp [beginsWithSplitter, hd]
          | false =>
            obtain ⟨part, parts, hparts, hparts'⟩ := decomposePath_cons_cons path hc hd
            rw [hparts, hparts', show beginsWithSplitter (d :: path) = false by
              simp [beginsWithSplitter, hd], joinParts_cons, joinParts_cons]
            simp
      have hbegins : beginsWithSplitter (c :: path) = false := by simp [beginsWithSplitter, hc]
      simp only [normalizePathLoop, hc, Bool.false_eq_true, if_false, hbegins, ← hjoin.1]
      rw [ihfalse]
      exact ⟨rfl, .inr ⟨hjoin.2, rfl⟩⟩

/-- A path that need not be normalized passes the loop unchanged. -/
lemma normalizePathLoop_of_not_needs {path : Str} {lastWasSlash : Bool}
    (h : needsNormalizationLoop lastWasSlash path = false) :
    normalizePathLoop lastWasSlash path = (path, false) := by
  induction path generalizing lastWasSlash with
  | nil => exact congrArg _ h
  | cons c path ih =>
    rw [needsNormalizationLoop] at h
    split_ifs at h with hslash hback
    · rw [Bool.or_eq_false_iff] at h
      obtain rfl : c = '\\' := by simpa using hback
      rw [h.1, normalizePathLoop, ih h.2]
      rfl
    · rw [normalizePathLoop, ih h]
      simp [pathSplitters, hslash, hback]

lemma loop_dropLast (lead path : Str) :
    (if (normalizePathLoop false path).2 then (lead ++ (normalizePathLoop false path).1).dropLast
      else lead ++ (normalizePathLoop false path).1) =
      lead ++ joinParts (beginsWithSplitter path) (decomposePath path) := by
  rw [(normalizePathLoop_eq path).1]
  split_ifs
  · rw [← List.append_assoc, List.dropLast_concat]
  · rw [List.append_nil]

/-- Whether or not a path is rewritten, it is put together from its components. -/
lemma normalizePath_of_not_extended {path : Str} (h : extendedPrefix.isPrefixOf path = false) :
    normalizePath path = joinParts (beginsWithSplitter path) (decomposePath path) := by
  have hloop := loop_dropLast [] path
  rw [normalizePath, needsNormalization, h]
  cases hneeds : needsNormalizationLoop false path with
  | false =>
    rw [normalizePathLoop_of_not_needs hneeds] at hloop
    simpa [hneeds] using hloop
  | true => simpa [hneeds] using hloop

lemma normalizePath_extended (path : Str) :
    normalizePath (extendedPrefix ++ path) =
      extendedPrefix ++ joinParts (beginsWithSplitter path) (decomposePath path) := by
  have hextended : extendedPrefix.isPrefixOf (extendedPrefix ++ path) = true := by simp
  have hdrop : (extendedPrefix ++ path).drop 4 = path := rfl
  have hloop := loop_dropLast extendedPrefix path
  rw [normalizePath, needsNormalization, hextended]
  cases hneeds : needsNormalizationLoop false path with
  | false =>
    rw [normalizePathLoop_of_not_needs hneeds] at hloop
    simpa [hneeds, hdrop] using hloop
  | true => simpa [hneeds, hdrop] using hloop

/-! ### Roots -/

inductive RootKind where
  | extendedLength
  | unc
  | drive
  | rooted
  | relative
deriving DecidableEq, Repr

def rootKind (path : Str) : RootKind :=
  if extendedPrefix.isPrefixOf path then .extendedLength
  else
    match path with
    | [] => .relative
    | [c] => if pathSplitters c then .rooted else .relative
    | c :: d :: _ =>
      if pathSplitters c then if pathSplitters d then .unc else .rooted
      else if c.isAlpha && d == ':' then .drive
      else .relative

/-- No two backslashes are adjacent. -/
def Separated (path : Str) : Prop := path.IsChain fun c d => ¬ (c = '\\' ∧ d = '\\')

/-- A normal form: the only separator is the backslash, it does not come last, and there is never
more than one, except at the beginning of an extended-length or a UNC path. -/
structure NormalForm (kind : RootKind) (path : Str) : Prop where
  noSlash : '/' ∉ path
  noTrailing : path.getLast? ≠ some '\\'
  separated : Separated (if kind = .extendedLength ∨ kind = .unc then path.tail else path)

/-- What `NormalizePath` is there for: the result is a normal form with the same root and the same
components, and the only one. -/
structure Normalizes (path : Str) : Prop where
  idempotent : normalizePath (normalizePath path) = normalizePath path
  components : decomposePath (normalizePath path) = decomposePath path
  normalForm : NormalForm (rootKind path) (normalizePath path)
  root : rootKind (normalizePath path) = rootKind path
  spelling : ∀ other, NormalForm (rootKind other) other → rootKind other = rootKind path →
    decomposePath other = decomposePath path → normalizePath path = other

/-- After the extended-length prefix something else than a separator comes next. A path without the
prefix does not begin with two separators and is not a single one. -/
def RootSurvives (path : Str) : Prop :=
  if extendedPrefix.isPrefixOf path then ∃ c ∈ (path.drop 4).head?, pathSplitters c = false
  else
    match path with
    | [] => True
    | [c] => pathSplitters c = false
    | c :: d :: _ => ¬ (pathSplitters c = true ∧ pathSplitters d = true)

lemma IsPart.ne_backslash {part : Str} (h : IsPart part) {c : Char} (hc : c ∈ part) : c ≠ '\\' := by
  rintro rfl
  exact absurd (h.2 _ hc) (by decide)

lemma separated_joinParts_true {parts : List Str} (h : ∀ part ∈ parts, IsPart part) :
    Separated (joinParts true parts) := by
  induction parts with
  | nil => exact .nil
  | cons part parts ih =>
    rw [List.forall_mem_cons] at h
    have hpart : Separated part :=
      List.Pairwise.isChain (List.pairwise_of_forall_mem_list fun c hc d _ hcd =>
        h.1.ne_backslash hc hcd.1)
    have hjoin : Separated (part ++ joinParts true parts) := by
      refine List.IsChain.append hpart (ih h.2) fun c hc d _ hcd => ?_
      exact h.1.ne_backslash (List.mem_of_getLast? hc) hcd.1
    rw [joinParts_true_cons, List.cons_append]
    refine List.IsChain.cons hjoin fun c hc hcd => ?_
    obtain ⟨d, part', hcons⟩ := List.exists_cons_of_ne_nil h.1.1
    have hd : c = d := by simpa [hcons] using hc.symm
    exact h.1.ne_backslash (by rw [hcons, hd]; exact List.mem_cons_self) hcd.2

lemma separated_joinParts (rooted : Bool) {parts : List Str} (h : ∀ part ∈ parts, IsPart part) :
    Separated (joinParts rooted parts) := by
  cases rooted with
  | true => exact separated_joinParts_true h
  | false => exact (separated_joinParts_true h).tail

lemma slash_notMem_joinParts {rooted : Bool} {parts : List Str}
    (h : ∀ part ∈ parts, IsPart part) : '/' ∉ joinParts rooted parts := by
  have htrue : '/' ∉ parts.flatMap ('\\' :: ·) := by
    simp only [List.mem_flatMap, List.mem_cons, not_exists, not_and, not_or]
    intro part hpart
    exact ⟨by decide, fun hmem => absurd ((h part hpart).2 _ hmem) (by decide)⟩
  rw [joinParts]
  split_ifs
  · exact htrue
  · exact fun hmem => htrue (List.mem_of_mem_tail hmem)

/-- The last component comes last. -/
lemma getLast?_joinParts {rooted : Bool} {parts : List Str} (h : ∀ part ∈ parts, IsPart part) :
    (joinParts rooted parts).getLast? ≠ some '\\' := by
  induction parts using List.reverseRecOn with
  | nil => simp [joinParts]
  | append_singleton parts last _ =>
    have hlast := h last (by simp)
    intro hget
    have hsuffix : ∃ before, joinParts rooted (parts ++ [last]) = before ++ last := by
      cases rooted with
      | true => exact ⟨joinParts true parts ++ ['\\'], by simp [joinParts]⟩
      | false =>
        cases parts with
        | nil => exact ⟨[], by simp [joinParts]⟩
        | cons part parts =>
          exact ⟨part ++ joinParts true parts ++ ['\\'], by simp [joinParts]⟩
    obtain ⟨before, hbefore⟩ := hsuffix
    rw [hbefore, List.getLast?_append_of_ne_nil _ hlast.1] at hget
    exact hlast.ne_backslash (List.mem_of_getLast? hget) rfl

/-- A normal form need not be rewritten. -/
lemma not_needs_of_separated {path : Str} {lastWasSlash : Bool} (hslash : '/' ∉ path)
    (htrailing : path.getLast? ≠ some '\\') (hseparated : Separated path)
    (hlast : lastWasSlash = true → ∃ c ∈ path.head?, c ≠ '\\') :
    needsNormalizationLoop lastWasSlash path = false := by
  induction path generalizing lastWasSlash with
  | nil =>
    cases lastWasSlash with
    | false => rfl
    | true => simp at hlast
  | cons c path ih =>
    have hrest : path.getLast? ≠ some '\\' := by
      cases path with
      | nil => simp
      | cons d path => rwa [List.getLast?_cons_cons] at htrailing
    simp only [List.mem_cons, not_or] at hslash
    rw [needsNormalizationLoop, if_neg (by simpa using Ne.symm hslash.1)]
    split_ifs with hback
    · obtain rfl : c = '\\' := by simpa using hback
      have hfalse : lastWasSlash = false := by
        rw [← Bool.not_eq_true]
        intro htrue
        simpa using hlast htrue
      rw [hfalse, Bool.false_or]
      refine ih hslash.2 hrest hseparated.tail fun _ => ?_
      cases path with
      | nil => simp at htrailing
      | cons d path => exact ⟨d, rfl, fun hd => hseparated.rel_head? rfl ⟨rfl, hd⟩⟩
    · exact ih hslash.2 hrest hseparated.tail (by simp)

/-! ### Which roots survive -/

lemma decomposePath_cons {c : Char} (path : Str) (hc : pathSplitters c = false) :
    ∃ part parts, decomposePath (c :: path) = (c :: part) :: parts := by
  cases path with
  | nil => exact ⟨[], [], decomposePath_cons_of_head hc (by simp)⟩
  | cons d path =>
    cases hd : pathSplitters d with
    | true => exact ⟨[], _, decomposePath_cons_of_head hc (by simpa using hd)⟩
    | false =>
      obtain ⟨part, parts, -, hparts⟩ := decomposePath_cons_cons path hc hd
      exact ⟨part, parts, hparts⟩

lemma decomposePath_extended (path : Str) :
    decomposePath (extendedPrefix ++ path) = ['?'] :: decomposePath path := by
  have happend := decomposePath_append (c := '\\') rfl ['\\', '\\', '?'] path
  exact happend

lemma beginsWithSplitter_joinParts (rooted : Bool) {parts : List Str}
    (h : ∀ part ∈ parts, IsPart part) (hrooted : rooted = true → parts ≠ []) :
    beginsWithSplitter (joinParts rooted parts) = rooted := by
  cases parts with
  | nil =>
    cases rooted with
    | true => exact absurd rfl (hrooted rfl)
    | false => rfl
  | cons part parts =>
    cases rooted with
    | true => rw [joinParts_true_cons]; rfl
    | false =>
      have hpart := h part List.mem_cons_self
      obtain ⟨c, part', rfl⟩ := List.exists_cons_of_ne_nil hpart.1
      rw [joinParts_cons]
      exact hpart.2 c List.mem_cons_self

lemma normalizePath_of_not_needs {path : Str} (h : needsNormalization path = false) :
    normalizePath path = path := by
  rw [normalizePath, h]
  rfl

lemma not_extended_of_separated {path : Str} (h : Separated path) :
    extendedPrefix.isPrefixOf path = false := by
  rw [← Bool.not_eq_true, List.isPrefixOf_iff_prefix]
  rintro ⟨rest, rfl⟩
  exact h.rel_head? rfl ⟨rfl, rfl⟩

lemma rootKind_ne_unc {path : Str} (hslash : '/' ∉ path) (h : Separated path) :
    rootKind path ≠ .unc := by
  rw [rootKind.eq_def, not_extended_of_separated h]
  match path with
  | [] => simp
  | [c] => simp; split_ifs <;> simp
  | c :: d :: path =>
    have hsplitter : ∀ c, pathSplitters c = true → c ≠ '/' → c = '\\' := by
      intro c hc hne
      simpa [pathSplitters, hne] using hc
    simp only [List.mem_cons, not_or] at hslash
    simp only [Bool.false_eq_true, if_false]
    split_ifs with hc hd hdrive
    · exact absurd ⟨hsplitter c hc (Ne.symm hslash.1), hsplitter d hd (Ne.symm hslash.2.1)⟩
        (h.rel_head? rfl)
    all_goals simp

/-- A path without prefix and UNC root is rooted if it begins with a separator. -/
lemma beginsWithSplitter_eq {path : Str} (hextended : rootKind path ≠ .extendedLength)
    (hunc : rootKind path ≠ .unc) : beginsWithSplitter path = (rootKind path == .rooted) := by
  rw [rootKind.eq_def] at hextended hunc ⊢
  split_ifs at hextended hunc ⊢ with hprefixed
  · exact absurd rfl hextended
  match path with
  | [] => rfl
  | [c] => cases hc : pathSplitters c <;> simp [beginsWithSplitter, hc]
  | c :: d :: path =>
    simp only [beginsWithSplitter, List.head?_cons, Option.any_some] at hunc ⊢
    split_ifs at hunc ⊢ with hc hd hdrive <;> simp_all

/-- What comes after the prefix in a normal form need not be rewritten either. -/
lemma NormalForm.of_extended {path : Str}
    (h : NormalForm .extendedLength (extendedPrefix ++ path)) :
    normalizePath (extendedPrefix ++ path) = extendedPrefix ++ path ∧
      beginsWithSplitter path = false := by
  have hseparated : Separated ('\\' :: path) := h.separated.drop 2
  have hslash : '/' ∉ path := fun hmem => h.noSlash (List.mem_append_right _ hmem)
  have hne : path ≠ [] := by
    rintro rfl
    exact h.noTrailing rfl
  have htrailing : path.getLast? ≠ some '\\' := by
    have := h.noTrailing
    rwa [List.getLast?_append_of_ne_nil _ hne] at this
  have hneeds : needsNormalizationLoop false path = false :=
    not_needs_of_separated hslash htrailing hseparated.tail (by simp)
  refine ⟨normalizePath_of_not_needs ?_, ?_⟩
  · rw [needsNormalization, show extendedPrefix.isPrefixOf (extendedPrefix ++ path) = true by simp]
    exact hneeds
  · obtain ⟨c, path, rfl⟩ := List.exists_cons_of_ne_nil hne
    have hback : c ≠ '\\' := fun hc => hseparated.rel_head? rfl ⟨rfl, hc⟩
    have hforward : c ≠ '/' := fun hc => hslash (hc ▸ List.mem_cons_self)
    simp [beginsWithSplitter, pathSplitters, hback, hforward]

lemma exists_of_rootKind_extended {path : Str} (h : rootKind path = .extendedLength) :
    ∃ rest, path = extendedPrefix ++ rest := by
  rw [rootKind.eq_def] at h
  split_ifs at h with hextended
  · obtain ⟨rest, hrest⟩ := List.isPrefixOf_iff_prefix.mp hextended
    exact ⟨rest, hrest.symm⟩
  · split at h <;> grind

/-- A path with the prefix. -/
lemma normalizes_extended_iff (path : Str) :
    Normalizes (extendedPrefix ++ path) ↔ ∃ c ∈ path.head?, pathSplitters c = false := by
  have hparts : ∀ part ∈ decomposePath path, IsPart part := fun _ => isPart_of_mem_decomposePath
  have hkind : ∀ path, rootKind (extendedPrefix ++ path) = .extendedLength := by simp [rootKind]
  constructor
  · intro h
    have hform := h.normalForm
    rw [hkind, normalizePath_extended] at hform
    cases path with
    | nil => exact absurd (by rfl) hform.noTrailing
    | cons c path =>
      refine ⟨c, rfl, ?_⟩
      rw [← Bool.not_eq_true]
      intro hc
      rw [show beginsWithSplitter (c :: path) = true by simp [beginsWithSplitter, hc]] at hform
      cases hcons : decomposePath (c :: path) with
      | nil =>
        rw [hcons] at hform
        exact hform.noTrailing rfl
      | cons part parts =>
        have hseparated := hform.separated
        rw [hcons, joinParts_true_cons] at hseparated
        exact (hseparated.drop 2).rel_head? rfl ⟨rfl, rfl⟩
  · rintro ⟨c, hc, hsplitter⟩
    have hbegins : beginsWithSplitter path = false := by
      rw [Option.mem_def] at hc
      simp [beginsWithSplitter, hc, hsplitter]
    have hne : decomposePath path ≠ [] := by
      cases path with
      | nil => simp at hc
      | cons d path =>
        obtain rfl : d = c := by simpa using hc
        obtain ⟨part, parts, hcons⟩ := decomposePath_cons path hsplitter
        simp [hcons]
    have hresult := normalizePath_extended path
    rw [hbegins] at hresult
    have hbegins' := beginsWithSplitter_joinParts false hparts (by simp)
    refine ⟨?_, ?_, ⟨?_, ?_, ?_⟩, ?_, ?_⟩
    · rw [hresult, normalizePath_extended, hbegins', decomposePath_joinParts _ hparts]
    · rw [hresult, decomposePath_extended, decomposePath_extended, decomposePath_joinParts _ hparts]
    · rw [hresult, List.mem_append, not_or]
      exact ⟨by decide, slash_notMem_joinParts hparts⟩
    · have hjoin : joinParts false (decomposePath path) ≠ [] := by
        intro hnil
        rw [← decomposePath_joinParts false hparts, hnil] at hne
        exact hne rfl
      rw [hresult, List.getLast?_append_of_ne_nil _ hjoin]
      exact getLast?_joinParts hparts
    · rw [hkind, hresult]
      have hjoin : Separated ('\\' :: joinParts false (decomposePath path)) := by
        refine List.IsChain.cons (separated_joinParts _ hparts) fun d hd hbacks => ?_
        rw [Option.mem_def] at hd
        rw [beginsWithSplitter, hd, hbacks.2] at hbegins'
        exact absurd hbegins' (by decide)
      exact (hjoin.cons (by simp)).cons (by simp)
    · rw [hresult, hkind, hkind]
    · intro other hform hother hcomponents
      rw [hkind] at hother
      rw [hother] at hform
      obtain ⟨rest, rfl⟩ := exists_of_rootKind_extended hother
      obtain ⟨hrest, hbeginsRest⟩ := hform.of_extended
      rw [decomposePath_extended, decomposePath_extended, List.cons.injEq] at hcomponents
      rw [hresult, ← hrest, normalizePath_extended, hbeginsRest, hcomponents.2]

/-- A path without it. -/
lemma normalizes_of_not_extended {path : Str} (hextended : extendedPrefix.isPrefixOf path = false)
    (hunc : rootKind path ≠ .unc) (hsingle : ∀ c, path = [c] → pathSplitters c = false) :
    Normalizes path := by
  have hparts : ∀ part ∈ decomposePath path, IsPart part := fun _ => isPart_of_mem_decomposePath
  have hresult := normalizePath_of_not_extended hextended
  have hkind : rootKind path ≠ .extendedLength := by
    intro h
    obtain ⟨rest, hrest⟩ := exists_of_rootKind_extended h
    have hcontra : extendedPrefix.isPrefixOf path = true := by simp [hrest]
    simp [hcontra] at hextended
  have hseparated := separated_joinParts (beginsWithSplitter path) hparts
  have hroot : rootKind (joinParts (beginsWithSplitter path) (decomposePath path)) =
      rootKind path ∧ (beginsWithSplitter path = true → decomposePath path ≠ []) := by
    have hextended' := not_extended_of_separated hseparated
    rw [rootKind.eq_def, hextended', rootKind.eq_def, hextended]
    rw [rootKind.eq_def, hextended] at hunc
    match path with
    | [] => simp [joinParts, beginsWithSplitter]
    | [c] =>
      have hc := hsingle c rfl
      rw [decomposePath_cons_of_head hc (by simp)]
      simp [beginsWithSplitter, hc, joinParts]
    | c :: d :: path =>
      cases hc : pathSplitters c with
      | true =>
        have hd : pathSplitters d = false := by
          rw [← Bool.not_eq_true]
          intro hd
          simp [hc, hd] at hunc
        obtain ⟨part, parts, hcons⟩ := decomposePath_cons path hd
        rw [decomposePath_cons_splitter hc, hcons]
        simp [beginsWithSplitter, hc, hd, joinParts, show pathSplitters '\\' = true from rfl]
      | false =>
        cases hd : pathSplitters d with
        | true =>
          have hcolon : d ≠ ':' := by
            rintro rfl
            exact absurd hd (by decide)
          rw [decomposePath_cons_of_head hc (by simpa using hd), joinParts.eq_def]
          cases decomposePath (d :: path) with
          | nil => simp [beginsWithSplitter, hc, hcolon]
          | cons part parts => simp [beginsWithSplitter, hc, hcolon]
        | false =>
          obtain ⟨part, parts, hcons, hcons'⟩ := decomposePath_cons_cons path hc hd
          obtain ⟨part', parts', hcons''⟩ := decomposePath_cons path hd
          rw [hcons, List.cons.injEq] at hcons''
          rw [hcons', hcons''.1]
          simp [beginsWithSplitter, hc, joinParts]
  have hbegins := beginsWithSplitter_joinParts (beginsWithSplitter path) hparts hroot.2
  refine ⟨?_, ?_, ⟨?_, ?_, ?_⟩, ?_, ?_⟩
  · rw [hresult, normalizePath_of_not_extended (not_extended_of_separated hseparated), hbegins,
      decomposePath_joinParts _ hparts]
  · rw [hresult, decomposePath_joinParts _ hparts]
  · rw [hresult]
    exact slash_notMem_joinParts hparts
  · rw [hresult]
    exact getLast?_joinParts hparts
  · rw [hresult, if_neg (by simp [hkind, hunc])]
    exact hseparated
  · rw [hresult, hroot.1]
  · intro other hform hother hcomponents
    have hseparated' := hform.separated
    rw [hother, if_neg (by simp [hkind, hunc])] at hseparated'
    have hneeds : needsNormalizationLoop false other = false :=
      not_needs_of_separated hform.noSlash hform.noTrailing hseparated' (by simp)
    have hextended' := not_extended_of_separated hseparated'
    have hsame : normalizePath other = other := by
      refine normalizePath_of_not_needs ?_
      rw [needsNormalization, hextended']
      exact hneeds
    rw [hresult, ← hsame, normalizePath_of_not_extended hextended', hcomponents,
      beginsWithSplitter_eq hkind hunc, beginsWithSplitter_eq (hother ▸ hkind) (hother ▸ hunc),
      hother]

lemma rootKind_eq_unc_iff {c d : Char} {path : Str}
    (h : extendedPrefix.isPrefixOf (c :: d :: path) = false) :
    rootKind (c :: d :: path) = .unc ↔ pathSplitters c = true ∧ pathSplitters d = true := by
  simp only [rootKind, h, Bool.false_eq_true, if_false]
  split_ifs <;> simp_all

/-- A path gets its normal form exactly if its root is not affected: when it has the prefix, no
separator follows that, and otherwise it neither begins with two separators nor is it a single
one. -/
theorem normalizePath_normalizes_iff (path : Str) : Normalizes path ↔ RootSurvives path := by
  cases hextended : extendedPrefix.isPrefixOf path with
  | true =>
    obtain ⟨rest, rfl⟩ := List.isPrefixOf_iff_prefix.mp hextended
    rw [normalizes_extended_iff, RootSurvives.eq_def, hextended, if_pos rfl]
    rfl
  | false =>
    have hparts : ∀ part ∈ decomposePath path, IsPart part := fun _ => isPart_of_mem_decomposePath
    have hresult := normalizePath_of_not_extended hextended
    rw [RootSurvives.eq_def, hextended]
    simp only [Bool.false_eq_true, if_false]
    match path with
    | [] => exact iff_of_true (normalizes_of_not_extended rfl (by decide) (by simp)) trivial
    | [c] =>
      constructor
      · intro h
        change pathSplitters c = false
        rw [← Bool.not_eq_true]
        intro hc
        have hroot := h.root
        rw [hresult, decomposePath_cons_splitter hc] at hroot
        simp only [beginsWithSplitter, List.head?_cons, Option.any_some, hc, decomposePath_nil,
          rootKind.eq_def, hextended, Bool.false_eq_true, if_false, if_true] at hroot
        exact absurd hroot (by decide)
      · intro hc
        refine normalizes_of_not_extended hextended ?_ ?_
        · simp [rootKind.eq_def, hextended, show pathSplitters c = false from hc]
        · intro d hd
          obtain rfl : c = d := by simpa using hd
          exact hc
    | c :: d :: path =>
      change _ ↔ ¬ (pathSplitters c = true ∧ pathSplitters d = true)
      rw [← rootKind_eq_unc_iff hextended]
      refine ⟨fun h hkind => ?_, fun hkind => normalizes_of_not_extended hextended hkind (by simp)⟩
      have hroot := h.root
      rw [hresult, hkind] at hroot
      exact rootKind_ne_unc (slash_notMem_joinParts hparts) (separated_joinParts _ hparts) hroot

/-- A share becomes a folder of the current drive. -/
theorem normalizePath_unc :
    normalizePath "\\\\server\\share".toList = "\\server\\share".toList ∧
      rootKind "\\\\server\\share".toList = .unc ∧
      rootKind (normalizePath "\\\\server\\share".toList) = .rooted ∧
      ¬ Normalizes "\\\\server\\share".toList := by
  refine ⟨by decide +kernel, by decide +kernel, by decide +kernel, fun h => ?_⟩
  have hroot := h.root
  revert hroot
  decide +kernel

example : normalizePath "C:/a\\\\b//".toList = "C:\\a\\b".toList := by decide +kernel

end StringUtils

end BackupProgram
