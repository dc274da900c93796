import BackupProgram.Engine.Dependencies

/-!
# One stream for all names of a file

Names of one file share its stream. Hardlinks join the stream even if they are excluded; other names
do not join it even if they are included.
-/

namespace BackupProgram

open Results

variable {env : BackupEnv} {n : Int} {old : Option (List FileSystemTree)} {firstId : Nat}
  {os : List PathedObject} {st : GenerateState}

/-! ### Excluded objects -/

/-- The object at a position has no part in the new version. -/
structure LeftOut (st : GenerateState) (i : Nat) (f : FileSystemObject) : Prop where
  latestVersion : f.latestVersion = -1
  notInStream : ∀ s, ¬ st.Has s i
  backupStream : f.backupStream = none

/-- All objects that are not to be backed up are left out. -/
def ExclusionsRespected (os : List PathedObject) (st : GenerateState) : Prop :=
  ∀ (i : Nat) (o : PathedObject) (f : FileSystemObject), os[i]? = some o →
    st.objects[i]? = some f → o.2.backupMode = .noBackup → LeftOut st i f

lemma not_isIncluded_of_noBackup {fso : FileSystemObject} (h : fso.backupMode = .noBackup) :
    fso.isIncluded = false := by
  simp [FileSystemObject.isIncluded, h]

/-- An excluded hardlink joins the stream of its file if the latter has been visited. -/
lemma Generation.leftOut_iff (h : Generation env n old firstId os st) {i : Nat} {o : PathedObject}
    {f : FileSystemObject} (ho : os[i]? = some o) (hf : st.objects[i]? = some f)
    (hunattached : o.2.backupStream = none) (hmode : o.2.backupMode = .noBackup) :
    LeftOut st i f ↔ (o.2.type = .fileHardlink → ¬ Earlier os i o) := by
  have hincluded := not_isIncluded_of_noBackup hmode
  cases h.outcome i o f ho hf with
  | excluded _ hpeer hnone hobject =>
    exact iff_of_true ⟨by rw [hobject], hnone, by rw [hobject]; exact hunattached⟩ hpeer
  | stray hincluded' => simp [hincluded] at hincluded'
  | @peer s k stream ok fk htype hk hok hguid hsame hstream hhead hfk honly hobject =>
    obtain ⟨fso, hincluded', -⟩ := h.outcome_head hstream hhead hok hfk
    refine iff_of_false (fun hleft => hleft.notInStream s ((honly s).mpr rfl)) fun hnot => ?_
    exact hnot htype ⟨hguid, k, ok, hk, hok, hincluded', hsame⟩
  | first hincluded' => simp [hincluded] at hincluded'

/-- Exclusions are respected if and only if no excluded hardlink comes after an included name of its
file. -/
theorem exclusionsRespected_iff {baseObjects : List FileSystemTree}
    (hunattached : ∀ o ∈ baseObjects.flatMap FileSystemTree.iterate, o.2.backupStream = none)
    (h : generateStreams (generatorFor env n old) [] firstId baseObjects = .ok st) :
    ExclusionsRespected (baseObjects.flatMap FileSystemTree.iterate) st ↔
      ∀ (i : Nat) (o : PathedObject), (baseObjects.flatMap FileSystemTree.iterate)[i]? = some o →
        o.2.backupMode = .noBackup → o.2.type = .fileHardlink →
          ¬ Earlier (baseObjects.flatMap FileSystemTree.iterate) i o := by
  have hgen : Generation env n old firstId (baseObjects.flatMap FileSystemTree.iterate) st :=
    (GenerationOfBases.of_generateStreams h).generation
  constructor
  · intro hrespected i o ho hmode
    have hi : i < st.objects.length := hgen.length.symm ▸ (List.getElem?_eq_some_iff.mp ho).1
    have hf := List.getElem?_eq_getElem hi
    exact (hgen.leftOut_iff ho hf (hunattached o (List.mem_of_getElem? ho)) hmode).mp
      (hrespected i o _ ho hf hmode)
  · intro hnot i o f ho hf hmode
    exact (hgen.leftOut_iff ho hf (hunattached o (List.mem_of_getElem? ho)) hmode).mpr
      (hnot i o ho hmode)

/-! ### Names of one file -/

/-- The stream of a file, with the position of its first object. -/
structure FileStream (os : List PathedObject) (st : GenerateState) (guid : Guid) (s : Nat)
    (stream : BackupStream) (k : Nat) : Prop where
  heap : st.heap[s]? = some stream
  head : stream.fileSystemObjects.head? = some k
  guid : ∃ ok, os[k]? = some ok ∧ ok.2.fileSystemGuid = some guid

/-- A file has one stream with data at most, and all its names that are to be backed up refer to the
same data, those of the stream of the file. -/
structure OneStreamPerFile (os : List PathedObject) (st : GenerateState) : Prop where
  unique : ∀ guid s s' stream stream' k k', FileStream os st guid s stream k →
    FileStream os st guid s' stream' k' → stream.data.hasData → stream'.data.hasData → s = s'
  same : ∀ (i i' : Nat) (o o' : PathedObject) (f f' : FileSystemObject), os[i]? = some o →
    os[i']? = some o' → st.objects[i]? = some f → st.objects[i']? = some f' → o.2.isIncluded →
    o'.2.isIncluded → o.2.fileSystemGuid ≠ none → o.2.fileSystemGuid = o'.2.fileSystemGuid →
      f.streamUniqueId = f'.streamUniqueId ∧ f.latestVersion = f'.latestVersion
  ofStream : ∀ (i : Nat) (o : PathedObject) (f : FileSystemObject) (guid : Guid), os[i]? = some o →
    st.objects[i]? = some f → o.2.isIncluded → o.2.fileSystemGuid = some guid →
      ∃ s stream k fk, FileStream os st guid s stream k ∧ st.objects[k]? = some fk ∧
        f.streamUniqueId = stream.uniqueId ∧ f.latestVersion = fk.latestVersion

/-- An object to be backed up is no hardlink although another name of its file comes before it. -/
def Stray (os : List PathedObject) (i : Nat) (o : PathedObject) : Prop :=
  os[i]? = some o ∧ o.2.isIncluded ∧ o.2.type ≠ .fileHardlink ∧ Earlier os i o

/-- The first name of the file refers to its own version and happens to have the id of the stray
object. -/
def Agreeing (env : BackupEnv) (n : Int) (old : Option (List FileSystemTree))
    (os : List PathedObject) (o : PathedObject) : Prop :=
  ∃ (k : Nat) (ok : PathedObject), os[k]? = some ok ∧ ok.2.fileSystemGuid = o.2.fileSystemGuid ∧
    SelfReference env n old os k ok ∧ ¬ Stray os k ok ∧
    ok.2.streamUniqueId = o.2.streamUniqueId

section FileStream

variable {guid : Guid} {s s' k k' : Nat} {stream stream' : BackupStream}

/-- The first object of a stream is the first of its names. -/
lemma FileStream.first (h : Generation env n old firstId os st)
    (hs : FileStream os st guid s stream k) :
    ∃ ok fk fso, os[k]? = some ok ∧ st.objects[k]? = some fk ∧ ok.2.fileSystemGuid = some guid ∧
      ok.2.isIncluded ∧ ¬ Earlier os k ok ∧ Chosen env n old ok fso stream.data ∧
      (stream.data.hasData = false → stream.uniqueId = ok.2.streamUniqueId) ∧
      fk.latestVersion = fso.latestVersion ∧ fk.streamUniqueId = stream.uniqueId := by
  obtain ⟨ok, hok, hguid⟩ := hs.guid
  have hk : k < st.objects.length := h.length.symm ▸ (List.getElem?_eq_some_iff.mp hok).1
  have hfk := List.getElem?_eq_getElem hk
  obtain ⟨fso, hincluded, hnew, -, hchosen, hid, hobject⟩ := h.outcome_head hs.heap hs.head hok hfk
  exact ⟨ok, _, fso, hok, hfk, hguid, hincluded, hnew, hchosen, hid, by rw [hobject],
    by rw [hobject]⟩

/-- A file has one stream. -/
lemma FileStream.unique (h : Generation env n old firstId os st)
    (hs : FileStream os st guid s stream k) (hs' : FileStream os st guid s' stream' k') :
    s = s' ∧ stream = stream' ∧ k = k' := by
  obtain ⟨ok, -, -, hok, -, hguid, hincluded, hnew, -⟩ := hs.first h
  obtain ⟨ok', -, -, hok', -, hguid', hincluded', hnew', -⟩ := hs'.first h
  have hk : k = k' := by
    rcases lt_trichotomy k k' with hlt | heq | hgt
    · exact absurd ⟨by simp [hguid'], k, ok, hlt, hok, hincluded, by rw [hguid, hguid']⟩ hnew'
    · exact heq
    · exact absurd ⟨by simp [hguid], k', ok', hgt, hok', hincluded', by rw [hguid, hguid']⟩ hnew
  subst hk
  have heq : s = s' := h.has_unique ⟨stream, hs.heap, List.mem_of_head? hs.head⟩
    ⟨stream', hs'.heap, List.mem_of_head? hs'.head⟩
  subst heq
  refine ⟨rfl, ?_, rfl⟩
  rw [← Option.some.injEq, ← hs.heap, ← hs'.heap]

/-- The data of an object are those of the stream of its file. -/
def RefersToStream (os : List PathedObject) (st : GenerateState) (guid : Guid)
    (f : FileSystemObject) : Prop :=
  ∃ s stream k fk, FileStream os st guid s stream k ∧ st.objects[k]? = some fk ∧
    f.streamUniqueId = stream.uniqueId ∧ f.latestVersion = fk.latestVersion

/-- An object that is not stray refers to the stream of its file. -/
lemma Generation.refersToStream (h : Generation env n old firstId os st) {i : Nat}
    {o : PathedObject} {f : FileSystemObject} (ho : os[i]? = some o) (hf : st.objects[i]? = some f)
    (hincluded : o.2.isIncluded) (hguid : o.2.fileSystemGuid = some guid)
    (hstray : ¬ Stray os i o) :
    RefersToStream os st guid f := by
  cases h.outcome i o f ho hf with
  | excluded hexcluded => simp [hincluded] at hexcluded
  | stray _ htype hearlier => exact absurd ⟨ho, hincluded, htype, hearlier⟩ hstray
  | @peer s k stream ok fk htype hk hok _ hsame hstream hhead hfk honly hobject =>
    exact ⟨s, stream, k, fk, ⟨hstream, hhead, ok, hok, hsame.trans hguid⟩, hfk, by rw [hobject],
      by rw [hobject]⟩
  | @first s stream fso _ hnew hstream hhead honly hsame hchosen hid hobject =>
    exact ⟨s, stream, i, f, ⟨hstream, hhead, o, ho, hguid⟩, hf, by rw [hobject], rfl⟩

lemma RefersToStream.unique (h : Generation env n old firstId os st) {f f' : FileSystemObject}
    (hf : RefersToStream os st guid f) (hf' : RefersToStream os st guid f') :
    f.streamUniqueId = f'.streamUniqueId ∧ f.latestVersion = f'.latestVersion := by
  obtain ⟨s, stream, k, fk, hs, hfk, hid, hversion⟩ := hf
  obtain ⟨s', stream', k', fk', hs', hfk', hid', hversion'⟩ := hf'
  obtain ⟨rfl, rfl, rfl⟩ := hs.unique h hs'
  rw [hfk, Option.some.injEq] at hfk'
  subst hfk'
  exact ⟨hid.trans hid'.symm, hversion.trans hversion'.symm⟩

/-- It is enough that every name refers to the stream of the file. -/
lemma Generation.oneStreamPerFile (h : Generation env n old firstId os st)
    (hall : ∀ (i : Nat) (o : PathedObject) (f : FileSystemObject) (guid : Guid), os[i]? = some o →
      st.objects[i]? = some f → o.2.isIncluded → o.2.fileSystemGuid = some guid →
        RefersToStream os st guid f) : OneStreamPerFile os st where
  unique guid s s' stream stream' k k' hs hs' _ _ := (hs.unique h hs').1
  same i i' o o' f f' ho ho' hf hf' hincluded hincluded' hguid heq := by
    obtain ⟨guid, hguid⟩ := Option.ne_none_iff_exists'.mp hguid
    exact (hall i o f guid ho hf hincluded hguid).unique h
      (hall i' o' f' guid ho' hf' hincluded' (heq ▸ hguid))
  ofStream := hall

end FileStream

/-- A stray object comes after the first name of its file. -/
lemma Stray.exists_first {i : Nat} {o : PathedObject} (h : Stray os i o) :
    ∃ (k : Nat) (ok : PathedObject), os[k]? = some ok ∧ ok.2.isIncluded ∧
      ok.2.fileSystemGuid = o.2.fileSystemGuid ∧ ¬ Earlier os k ok := by
  obtain ⟨ho, hincluded, htype, hguid, hearlier⟩ := h
  classical
  have hex : ∃ (k : Nat) (ok : PathedObject), os[k]? = some ok ∧ ok.2.isIncluded ∧
      ok.2.fileSystemGuid = o.2.fileSystemGuid := by
    obtain ⟨k, ok, -, hok, hincl, heq⟩ := hearlier
    exact ⟨k, ok, hok, hincl, heq⟩
  obtain ⟨ok, hok, hincl, heq⟩ := Nat.find_spec hex
  refine ⟨_, ok, hok, hincl, heq, fun ⟨_, k', ok', hlt, hok', hincl', heq'⟩ => ?_⟩
  exact Nat.find_min hex hlt ⟨ok', hok', hincl', heq'.trans heq⟩

/-- What an object that refers to its own version without having data there shows. -/
lemma Chosen.selfReference {o : PathedObject} {fso : FileSystemObject} {data : StreamData}
    (h : Chosen env n old o fso data) {i : Nat} (hincluded : o.2.isIncluded)
    (hnew : ¬ Earlier os i o) (hdata : data ≠ .full) (hversion : fso.latestVersion = n) :
    SelfReference env n old os i o := by
  cases h with
  | initial | forced | changed => exact absurd rfl hdata
  | unchanged hmode hchanged hv =>
    have heq := hv.symm.trans hversion
    subst heq
    exact .unchanged rfl hincluded hnew hmode hchanged
  | declared hmode hchanged => exact .declared rfl hincluded hnew hmode hchanged

section Stray

variable {i : Nat} {o : PathedObject} {f : FileSystemObject}

/-- A stray object keeps its id and gets the number of the new version. -/
lemma Stray.object (hstray : Stray os i o) (h : Generation env n old firstId os st)
    (hf : st.objects[i]? = some f) : f.streamUniqueId = o.2.streamUniqueId ∧
    f.latestVersion = n := by
  obtain ⟨ho, hincluded, htype, hearlier⟩ := hstray
  cases h.outcome i o f ho hf with
  | excluded hexcluded => simp [hincluded] at hexcluded
  | stray _ _ _ _ hobject => exact ⟨by rw [hobject], by rw [hobject]⟩
  | peer htype' => exact absurd htype' htype
  | first _ hnew => exact absurd hearlier hnew

/-- The first name of a file has a stream. -/
lemma Generation.exists_fileStream (h : Generation env n old firstId os st) {k : Nat}
    {ok : PathedObject} {guid : Guid} (hok : os[k]? = some ok) (hincluded : ok.2.isIncluded)
    (hguid : ok.2.fileSystemGuid = some guid) (hnew : ¬ Earlier os k ok) :
    ∃ s stream, FileStream os st guid s stream k := by
  have hk : k < st.objects.length := h.length.symm ▸ (List.getElem?_eq_some_iff.mp hok).1
  cases h.outcome k ok _ hok (List.getElem?_eq_getElem hk) with
  | excluded hexcluded => simp [hincluded] at hexcluded
  | stray _ _ hearlier => exact absurd hearlier hnew
  | @peer s j stream oj fj _ hj hoj hguid' hsame hstream hhead hfj =>
    obtain ⟨-, hincludedj, -⟩ := h.outcome_head hstream hhead hoj hfj
    exact absurd ⟨hguid', j, oj, hj, hoj, hincludedj, hsame⟩ hnew
  | @first s stream fso _ _ hstream hhead => exact ⟨s, stream, hstream, hhead, ok, hok, hguid⟩

/-- A stray object that agrees with the first name of the file refers to the stream, after all. -/
lemma Agreeing.refersToStream (hagree : Agreeing env n old os o) (hstray : Stray os i o)
    (h : Generation env n old firstId os st) (hf : st.objects[i]? = some f) {guid : Guid}
    (hguid : o.2.fileSystemGuid = some guid) : RefersToStream os st guid f := by
  obtain ⟨k, ok, hok, hsame, hself, hnot, hid⟩ := hagree
  have hnew : ¬ Earlier os k ok := by
    cases hself with
    | stray hincluded htype hearlier => exact absurd ⟨hok, hincluded, htype, hearlier⟩ hnot
    | declared _ _ hnew | unchanged _ _ hnew => exact hnew
  obtain ⟨s, stream, hs⟩ := h.exists_fileStream hok hself.isIncluded (hsame.trans hguid) hnew
  obtain ⟨ok', fk, fso, hok', hfk, -, -, -, hchosen, huid, hversion, -⟩ := hs.first h
  rw [hok, Option.some.injEq] at hok'
  subst hok'
  obtain ⟨hdata, hfso⟩ := hchosen.of_selfReference hnew hself
  obtain ⟨hfid, hfversion⟩ := hstray.object h hf
  refine ⟨s, stream, k, fk, hs, hfk, ?_, by rw [hfversion, hversion, hfso]⟩
  have hnodata : stream.data.hasData = false := by
    cases hd : stream.data with
    | full => exact absurd hd hdata
    | unmodified => rfl
  rw [hfid, huid hnodata, hid]

/-- If all names refer to one stream, a stray object agrees with the first name. -/
lemma OneStreamPerFile.agreeing (hone : OneStreamPerFile os st)
    (h : Generation env n old firstId os st) (hids : ∀ o ∈ os, o.2.streamUniqueId < firstId)
    (hstray : Stray os i o) : Agreeing env n old os o := by
  obtain ⟨k, ok, hok, hincluded, hsame, hnew⟩ := hstray.exists_first
  have ho := hstray.1
  have hi : i < st.objects.length := h.length.symm ▸ (List.getElem?_eq_some_iff.mp ho).1
  obtain ⟨guid, hguid⟩ := Option.ne_none_iff_exists'.mp hstray.2.2.2.1
  obtain ⟨s, stream, hs⟩ := h.exists_fileStream hok hincluded (hsame.trans hguid) hnew
  obtain ⟨ok', fk, fso, hok', hfk, -, -, -, hchosen, huid, hversion, hfkid⟩ := hs.first h
  rw [hok, Option.some.injEq] at hok'
  subst hok'
  obtain ⟨hfid, hfversion⟩ := hstray.object h (List.getElem?_eq_getElem hi)
  obtain ⟨hid, hv⟩ := hone.same i k o ok _ fk ho hok (List.getElem?_eq_getElem hi) hfk hstray.2.1
    hincluded (by simp [hguid]) hsame.symm
  rw [hfid, hfkid] at hid
  rw [hfversion, hversion] at hv
  have hlt := hids o (List.mem_of_getElem? ho)
  cases hd : stream.data with
  | full =>
    have hge := (h.uniqueId_bounds hs.heap (by rw [hd]; rfl)).1
    omega
  | unmodified v =>
    refine ⟨k, ok, hok, hsame, ?_, fun hk => hnew hk.2.2.2, ?_⟩
    · exact hchosen.selfReference hincluded hnew (by rw [hd]; nofun) hv.symm
    · rw [hid, huid (by rw [hd]; rfl)]

end Stray

/-- All names of a file refer to one stream if none of them is stray; and if the ids that the
objects have are all below the next one, only if the stray ones agree with the first name of their
file. -/
theorem oneStreamPerFile_iff {baseObjects : List FileSystemTree}
    (h : generateStreams (generatorFor env n old) [] firstId baseObjects = .ok st) :
    ((∀ i o, ¬ Stray (baseObjects.flatMap FileSystemTree.iterate) i o) →
        OneStreamPerFile (baseObjects.flatMap FileSystemTree.iterate) st) ∧
      ((∀ o ∈ baseObjects.flatMap FileSystemTree.iterate, o.2.streamUniqueId < firstId) →
        (OneStreamPerFile (baseObjects.flatMap FileSystemTree.iterate) st ↔
          ∀ i o, Stray (baseObjects.flatMap FileSystemTree.iterate) i o →
            Agreeing env n old (baseObjects.flatMap FileSystemTree.iterate) o)) := by
  have hgen : Generation env n old firstId (baseObjects.flatMap FileSystemTree.iterate) st :=
    (GenerationOfBases.of_generateStreams h).generation
  have hall : (∀ i o, Stray (baseObjects.flatMap FileSystemTree.iterate) i o →
      Agreeing env n old (baseObjects.flatMap FileSystemTree.iterate) o) →
        OneStreamPerFile (baseObjects.flatMap FileSystemTree.iterate) st := by
    refine fun hagree => hgen.oneStreamPerFile fun i o f guid ho hf hincluded hguid => ?_
    by_cases hstray : Stray (baseObjects.flatMap FileSystemTree.iterate) i o
    · exact (hagree i o hstray).refersToStream hstray hgen hf hguid
    · exact hgen.refersToStream ho hf hincluded hguid hstray
  refine ⟨fun hnone => hall fun i o hstray => absurd hstray (hnone i o), fun hids => ?_⟩
  exact ⟨fun hone i o hstray => hone.agreeing hgen hids hstray, hall⟩

/-! ### Two names of a file -/

/-- Two base objects that are names of one file. -/
def twoNames (type : FileSystemObjectType) (secondName : Str) (secondMode : BackupMode) :
    List FileSystemTree :=
  [⟨{ type := type, name := ['a'], fileSystemGuid := some 7, backupMode := .full }, .nil⟩,
    ⟨{ type := type, name := secondName, fileSystemGuid := some 7, backupMode := secondMode },
      .nil⟩]

/-- The first version, of nothing but the given objects. -/
def firstStreams (baseObjects : List FileSystemTree) : Except EngineError GenerateState :=
  generateStreams
    (generatorFor (.plain ⟨fun _ => none, fun _ => .failed, fun _ => none⟩ fun _ => .full) 0 none)
    [] 1 baseObjects

theorem exclusionsRespected_regularFile : ∃ st,
    firstStreams (twoNames .regularFile ['b'] .noBackup) = .ok st ∧
      ExclusionsRespected ((twoNames .regularFile ['b'] .noBackup).flatMap FileSystemTree.iterate)
        st := by
  obtain ⟨st, hst⟩ : ∃ st, firstStreams (twoNames .regularFile ['b'] .noBackup) = .ok st := ⟨_, rfl⟩
  refine ⟨st, hst, (exclusionsRespected_iff (by decide) hst).mpr fun i o ho _ htype => ?_⟩
  have hall : ∀ o ∈ (twoNames .regularFile ['b'] .noBackup).flatMap FileSystemTree.iterate,
      o.2.type = .regularFile := by decide
  rw [hall o (List.mem_of_getElem? ho)] at htype
  cases htype

/-- The second hardlink is excluded, but refers to the version that holds the data of the first. -/
theorem not_exclusionsRespected_hardlink : ∃ st,
    firstStreams (twoNames .fileHardlink ['b'] .noBackup) = .ok st ∧
      ¬ ExclusionsRespected
        ((twoNames .fileHardlink ['b'] .noBackup).flatMap FileSystemTree.iterate)
        st := by
  obtain ⟨st, o, f, hst, ho, hf, hmode, hversion⟩ : ∃ st o f,
      firstStreams (twoNames .fileHardlink ['b'] .noBackup) = .ok st ∧
        ((twoNames .fileHardlink ['b'] .noBackup).flatMap FileSystemTree.iterate)[1]? = some o ∧
        st.objects[1]? = some f ∧ o.2.backupMode = .noBackup ∧ f.latestVersion = 0 :=
    ⟨_, _, _, rfl, rfl, rfl, rfl, rfl⟩
  refine ⟨st, hst, fun h => ?_⟩
  have hleft := (h 1 o f ho hf hmode).latestVersion
  rw [hversion] at hleft
  exact absurd hleft (by decide)

theorem oneStreamPerFile_hardlinks : ∃ st,
    firstStreams (twoNames .fileHardlink ['b'] .full) = .ok st ∧
      OneStreamPerFile
        ((twoNames .fileHardlink ['b'] .full).flatMap FileSystemTree.iterate) st := by
  obtain ⟨st, hst⟩ : ∃ st, firstStreams (twoNames .fileHardlink ['b'] .full) = .ok st := ⟨_, rfl⟩
  have hall : ∀ o ∈ (twoNames .fileHardlink ['b'] .full).flatMap FileSystemTree.iterate,
      o.2.type = .fileHardlink := by decide
  refine ⟨st, hst, ((oneStreamPerFile_iff hst).2 (by decide)).mpr fun i o hstray => ?_⟩
  exact absurd (hall o (List.mem_of_getElem? hstray.1)) hstray.2.2.1

/-- A file that is scanned twice gets the id of its stream only once. -/
theorem not_oneStreamPerFile_twice : ∃ st,
    firstStreams (twoNames .regularFile ['a'] .full) = .ok st ∧
      ¬ OneStreamPerFile
        ((twoNames .regularFile ['a'] .full).flatMap FileSystemTree.iterate) st := by
  obtain ⟨st, o, o', f, f', hst, ho, ho', hf, hf', hincluded, hincluded', hguid, hguid',
    hid, hid'⟩ :
      ∃ st o o' f f', firstStreams (twoNames .regularFile ['a'] .full) = .ok st ∧
        ((twoNames .regularFile ['a'] .full).flatMap FileSystemTree.iterate)[0]? = some o ∧
        ((twoNames .regularFile ['a'] .full).flatMap FileSystemTree.iterate)[1]? = some o' ∧
        st.objects[0]? = some f ∧ st.objects[1]? = some f' ∧ o.2.isIncluded ∧ o'.2.isIncluded ∧
        o.2.fileSystemGuid = some 7 ∧ o'.2.fileSystemGuid = some 7 ∧ f.streamUniqueId = 1 ∧
        f'.streamUniqueId = 0 :=
    ⟨_, _, _, _, _, rfl, rfl, rfl, rfl, rfl, rfl, rfl, rfl, rfl, rfl, rfl⟩
  refine ⟨st, hst, fun h => ?_⟩
  have hsame := (h.same 0 1 o o' f f' ho ho' hf hf' hincluded hincluded' (by simp [hguid])
    (by rw [hguid, hguid'])).1
  rw [hid, hid'] at hsame
  exact absurd hsame (by decide)

end BackupProgram
