import BackupProgram.Engine.GenerateStreams

/-!
# What becomes of an object

One round of `GenerateStreams` treats an object in one of four ways. What it does is not undone by
later rounds, so that after all rounds every object is accounted for.
-/

namespace BackupProgram

open Results

variable {env : BackupEnv} {n : Int} {old : Option (List FileSystemTree)}

/-- The generator of the first version, or of a version that has predecessors. -/
def generatorFor (env : BackupEnv) (n : Int) : Option (List FileSystemTree) → Generator
  | none => generateInitialStream n
  | some oldObjects => checkAndMaybeAdd env n oldObjects

/-- The choice of a stream for an object that has not been skipped. -/
def choose (env : BackupEnv) : Option (List FileSystemTree) → PathedObject →
    Except EngineError (FileSystemObject × StreamData)
  | none, o => return (o.2, .full)
  | some oldObjects, o => chooseStream env oldObjects o

namespace GenerateState

/-- The state after an object has been given a stream of its own. -/
def first (st : GenerateState) (fso : FileSystemObject) (data : StreamData) : GenerateState :=
  let p := st.addStream fso data
  if data.hasData then
    let q := setUniqueIds p.1 fso p.2
    q.1.addObject q.2
  else p.1.addObject fso

/-- The object after it has joined a stream. -/
def joined (st : GenerateState) (o : FileSystemObject) (n : Int) (s : Nat)
    (stream : BackupStream) : FileSystemObject :=
  { o with
    streamUniqueId := stream.uniqueId
    backupStream := some s
    latestVersion :=
      ((st.firstObject stream).map fun first => first.latestVersion).getD
        (if o.isIncluded then n else -1) }

/-- The state after an object has joined a stream. -/
def join (st : GenerateState) (o : FileSystemObject) (n : Int) (s : Nat) (stream : BackupStream) :
    GenerateState :=
  { st with
    heap := st.heap.set s
      { stream with fileSystemObjects := stream.fileSystemObjects ++ [st.objects.length] }
      }.addObject
    (st.joined o n s stream)

end GenerateState

/-- One round, by what becomes of the object. -/
inductive Generates (env : BackupEnv) (n : Int) (old : Option (List FileSystemTree))
    (st : GenerateState) (o : PathedObject) : GenerateState → Prop
  | excluded (hincluded : o.2.isIncluded = false)
      (hpeer : o.2.type = .fileHardlink → st.known o.2.fileSystemGuid = none) :
      Generates env n old st o (st.addObject { o.2 with latestVersion := -1 })
  | stray (hincluded : o.2.isIncluded) (htype : o.2.type ≠ .fileHardlink)
      (hknown : (st.known o.2.fileSystemGuid).isSome) :
      Generates env n old st o (st.addObject { o.2 with latestVersion := n })
  | peer (s : Nat) (stream : BackupStream) (htype : o.2.type = .fileHardlink)
      (hknown : st.known o.2.fileSystemGuid = some (s, stream)) :
      Generates env n old st o (st.join o.2 n s stream)
  | first (fso : FileSystemObject) (data : StreamData) (hincluded : o.2.isIncluded)
      (hknown : st.known o.2.fileSystemGuid = none)
      (hchoose : choose env old (o.1, { o.2 with latestVersion := n }) = .ok (fso, data)) :
      Generates env n old st o (st.first fso data)

lemma shouldBeAdded_eq (st : GenerateState) (fso : FileSystemObject) :
    shouldBeAdded n st fso =
      (fso.isIncluded && !(st.known fso.fileSystemGuid).isSome,
        { fso with latestVersion := if fso.isIncluded then n else -1 }) := by
  have hincluded : fso.isIncluded = (!fso.isDirectoryish && fso.backupMode != .noBackup &&
    (!fso.isLinkish || fso.type == .fileHardlink)) := rfl
  simp only [shouldBeAdded]
  split_ifs with h1 h2 h3 h4 <;> simp_all [FileSystemObject.isDirectoryish,
    FileSystemObject.isLinkish]

lemma fixUpStreamReference_eq_of_known {st : GenerateState} {o : FileSystemObject} {s : Nat}
    {stream : BackupStream} (htype : o.type = .fileHardlink)
    (hknown : st.known o.fileSystemGuid = some (s, stream)) :
    let p := fixUpStreamReference st { o with latestVersion := if o.isIncluded then n else -1 }
    p.1.addObject p.2 = st.join o n s stream := by
  simp [fixUpStreamReference, htype, hknown, GenerateState.join, GenerateState.joined,
    GenerateState.addObject]

lemma fixUpStreamReference_eq_self {st : GenerateState} {o : FileSystemObject}
    (h : o.type = .fileHardlink → st.known o.fileSystemGuid = none) :
    fixUpStreamReference st o = (st, o) := by
  rw [fixUpStreamReference]
  split_ifs with htype
  · rw [h htype]
  · rfl

/-- Both generators skip the same objects and differ in the choice of a stream. -/
lemma generatorFor_eq (st : GenerateState) (o : PathedObject) :
    generatorFor env n old st o =
      let (add, fso) := shouldBeAdded n st o.2
      if !add then
        let (st, fso) := fixUpStreamReference st fso
        return (st, fso, none)
      else do
        let (fso, data) ← choose env old (o.1, fso)
        let (st, newStream) := st.addStream fso data
        return (st, fso, some newStream) := by
  cases old with
  | none =>
    simp only [generatorFor, generateInitialStream, choose]
    rfl
  | some oldObjects =>
    simp only [generatorFor, checkAndMaybeAdd, choose]

/-- A new stream is found where it has been put. -/
lemma addStream_getElem (st : GenerateState) (fso : FileSystemObject) (data : StreamData) :
    (st.addStream fso data).1.heap[(st.addStream fso data).2]? =
      some ⟨data, fso.streamUniqueId, [st.objects.length]⟩ := by
  simp [GenerateState.addStream]

theorem Generates.of_generateStream {st st' : GenerateState} {o : PathedObject}
    (h : generateStream (generatorFor env n old) st o = .ok st') :
    Generates env n old st o st' := by
  rw [generateStream, generatorFor_eq, shouldBeAdded_eq] at h
  by_cases hadd : o.2.isIncluded = true ∧ st.known o.2.fileSystemGuid = none
  · obtain ⟨hincluded, hknown⟩ := hadd
    simp only [hincluded, hknown, Option.isSome_none, Bool.not_false, Bool.and_self, Bool.not_true,
      Bool.false_eq_true, if_false, if_true, bind_eq_ok, pure_eq_ok] at h
    obtain ⟨_, ⟨⟨fso, data⟩, hchoose, rfl⟩, h⟩ := h
    have hst : st' = st.first fso data := by
      simp only [addStream_getElem, Option.any_some] at h
      rw [GenerateState.first]
      split_ifs at h ⊢ with hdata
      · exact (Except.ok.inj h).symm
      · exact (Except.ok.inj h).symm
    exact hst ▸ .first fso data hincluded hknown hchoose
  · have hadd' : (o.2.isIncluded && !(st.known o.2.fileSystemGuid).isSome) = false := by
      rw [Bool.and_eq_false_iff]
      rcases Classical.not_and_iff_not_or_not.mp hadd with h | h
      · exact .inl (by simpa using h)
      · exact .inr (by simpa [Option.isSome_iff_ne_none] using h)
    simp only [hadd', Bool.not_false, if_true, pure_eq_ok, bind_eq_ok, exists_eq_left'] at h
    by_cases hpeer : o.2.type = .fileHardlink → st.known o.2.fileSystemGuid = none
    · rw [fixUpStreamReference_eq_self (by exact hpeer)] at h
      subst h
      cases hincluded : o.2.isIncluded with
      | false => exact .excluded hincluded hpeer
      | true =>
        have hknown : st.known o.2.fileSystemGuid ≠ none := fun hknown => hadd ⟨hincluded, hknown⟩
        exact .stray hincluded (fun htype => hknown (hpeer htype))
          (Option.isSome_iff_ne_none.mpr hknown)
    · obtain ⟨htype, hknown⟩ := Classical.not_imp.mp hpeer
      obtain ⟨⟨s, stream⟩, hknown⟩ := Option.ne_none_iff_exists'.mp hknown
      have hjoin := fixUpStreamReference_eq_of_known (n := n) htype hknown
      simp only at hjoin
      rw [hjoin] at h
      exact h ▸ .peer s stream htype hknown

/-! ### The choice of a stream -/

lemma setHash_eq (fso : FileSystemObject) (type : HashType) (digest : List Byte) :
    fso.setHash type digest = { fso with hashes := (fso.setHash type digest).hashes } := by
  rw [FileSystemObject.setHash]
  split_ifs <;> rfl

lemma computeHash_eq_ok {o : PathedObject} {type : HashType} {digest : Option (List Byte)}
    {fso : FileSystemObject} (h : computeHash env o type = .ok (digest, fso)) :
    fso = { o.2 with hashes := fso.hashes } := by
  have hself : o.2 = { o.2 with hashes := o.2.hashes } := rfl
  rw [computeHash] at h
  split at h
  · simp only [pure_eq_ok, Prod.mk.injEq] at h
    exact h.2 ▸ hself
  split at h
  · simp only [pure_eq_ok, Prod.mk.injEq] at h
    exact h.2 ▸ hself
  split at h
  · simp only [pure_eq_ok, Prod.mk.injEq] at h
    exact h.2 ▸ setHash_eq _ _ _
  · simp only [ite_throw_eq_ok, pure_eq_ok, Prod.mk.injEq] at h
    exact h.2.2 ▸ hself

lemma applyCriterium_eq_ok {o : PathedObject} {oldFile fso : FileSystemObject} {changed : Bool}
    (h : applyCriterium env o oldFile = .ok (changed, fso)) :
    fso = { o.2 with hashes := fso.hashes } := by
  have hself : o.2 = { o.2 with hashes := o.2.hashes } := rfl
  rw [applyCriterium] at h
  split at h
  case h_4 =>
    rw [compareHashes] at h
    split at h
    · simp only [pure_eq_ok, Prod.mk.injEq] at h
      exact h.2 ▸ hself
    · simp only [bind_eq_ok] at h
      obtain ⟨⟨digest, fso'⟩, hcompute, h⟩ := h
      cases digest with
      | none => simp at h
      | some digest =>
        simp only [pure_eq_ok, Prod.mk.injEq] at h
        exact h.2 ▸ computeHash_eq_ok hcompute
  all_goals
    simp only [pure_eq_ok, Prod.mk.injEq] at h
    exact h.2 ▸ hself

lemma foldl_setHash_eq (hashes : List (HashType × List Byte)) (fso : FileSystemObject) :
    ∃ hashes', hashes.foldl (fun fso kv => fso.setHash kv.1 kv.2) fso =
      { fso with hashes := hashes' } := by
  induction hashes generalizing fso with
  | nil => exact ⟨fso.hashes, rfl⟩
  | cons kv hashes ih =>
    obtain ⟨hashes', h⟩ := ih (fso.setHash kv.1 kv.2)
    rw [setHash_eq] at h
    exact ⟨hashes', by rw [List.foldl_cons, setHash_eq, h]⟩

/-- A file that has changed keeps its version, one that has not gets that of the old file. -/
lemma fileHasChanged_eq_ok {oldObjects : List FileSystemTree} {o : PathedObject} {changed : Bool}
    {v : Int} {fso : FileSystemObject}
    (h : fileHasChanged env oldObjects o = .ok (changed, v, fso)) :
    fso = { o.2 with hashes := fso.hashes, latestVersion := fso.latestVersion } ∧
      (changed = true → v = -1 ∧ fso.latestVersion = o.2.latestVersion) ∧
      (changed = false → fso.latestVersion = v ∧ ∃ oldFile,
        findPath env.culture oldObjects o.1.mappedPath = some oldFile ∧
          v = oldFile.latestVersion) := by
  rw [fileHasChanged] at h
  split at h
  · simp only [bind_eq_ok, pure_eq_ok, Prod.mk.injEq] at h
    obtain ⟨⟨digest, fso'⟩, hcompute, rfl, rfl, rfl⟩ := h
    have hfso := computeHash_eq_ok hcompute
    rw [hfso]
    exact ⟨rfl, fun _ => ⟨rfl, rfl⟩, by simp⟩
  · rename_i oldFile hfind
    simp only [bind_eq_ok] at h
    obtain ⟨⟨ret, fso'⟩, happly, h⟩ := h
    have hfso := applyCriterium_eq_ok happly
    obtain ⟨hashes', hfold⟩ := foldl_setHash_eq oldFile.hashes fso'
    cases ret with
    | true =>
      simp only [if_true, pure_eq_ok, Prod.mk.injEq] at h
      obtain ⟨rfl, rfl, rfl⟩ := h
      rw [hfso]
      exact ⟨rfl, fun _ => ⟨rfl, rfl⟩, by simp⟩
    | false =>
      simp only [Bool.false_eq_true, if_false, pure_eq_ok, Prod.mk.injEq, hfold] at h
      obtain ⟨rfl, rfl, rfl⟩ := h
      rw [hfso]
      exact ⟨rfl, by simp, fun _ => ⟨rfl, oldFile, hfind, rfl⟩⟩

/-- Why a stream has been chosen for an object: its data are stored because there is no former
version, because they have to be, or because they have changed; or else they are found unchanged, or
the mode was `unmodified` from the start. -/
inductive Chosen (env : BackupEnv) (n : Int) :
    Option (List FileSystemTree) → PathedObject → FileSystemObject → StreamData → Prop
  | initial {o : PathedObject} {fso : FileSystemObject} (hversion : fso.latestVersion = n) :
      Chosen env n none o fso .full
  | forced {oldObjects : List FileSystemTree} {o : PathedObject} {fso : FileSystemObject}
      (hmode : o.2.backupMode = .forceFull) (hversion : fso.latestVersion = n) :
      Chosen env n (some oldObjects) o fso .full
  | changed {oldObjects : List FileSystemTree} {o : PathedObject} {fso fso' : FileSystemObject}
      (hmode : o.2.backupMode = .full)
      (hchanged : fileHasChanged env oldObjects (o.1, { o.2 with latestVersion := n }) =
        .ok (true, -1, fso'))
      (hversion : fso.latestVersion = n) : Chosen env n (some oldObjects) o fso .full
  | unchanged {oldObjects : List FileSystemTree} {o : PathedObject} {fso fso' : FileSystemObject}
      {v : Int} (hmode : o.2.backupMode ≠ .forceFull)
      (hchanged : fileHasChanged env oldObjects (o.1, { o.2 with latestVersion := n }) =
        .ok (false, v, fso'))
      (hversion : fso.latestVersion = v) : Chosen env n (some oldObjects) o fso (.unmodified v)
  | declared {oldObjects : List FileSystemTree} {o : PathedObject} {fso fso' : FileSystemObject}
      (hmode : o.2.backupMode = .unmodified)
      (hchanged : fileHasChanged env oldObjects (o.1, { o.2 with latestVersion := n }) =
        .ok (true, -1, fso'))
      (hversion : fso.latestVersion = n) :
      Chosen env n (some oldObjects) o fso (.unmodified (-1))

/-- What a generator may change of an object that it has chosen a stream for. -/
def SameObject (fso o : FileSystemObject) : Prop :=
  fso = { o with
    hashes := fso.hashes, latestVersion := fso.latestVersion, backupMode := fso.backupMode }

theorem Chosen.of_choose {o : PathedObject} {fso : FileSystemObject} {data : StreamData}
    (h : choose env old (o.1, { o.2 with latestVersion := n }) = .ok (fso, data)) :
    SameObject fso o.2 ∧ Chosen env n old o fso data := by
  cases old with
  | none =>
    simp only [choose, pure_eq_ok, Prod.mk.injEq] at h
    obtain ⟨rfl, rfl⟩ := h
    exact ⟨rfl, .initial rfl⟩
  | some oldObjects =>
    simp only [choose, chooseStream] at h
    split at h
    case isTrue hmode =>
      simp only [bind_eq_ok, pure_eq_ok] at h
      obtain ⟨⟨changed, v, fso2⟩, hchanged, _, rfl, h⟩ := h
      obtain ⟨hfso2, htrue, hfalse⟩ := fileHasChanged_eq_ok hchanged
      cases changed with
      | false =>
        simp only [Bool.false_eq_true, if_false, pure_eq_ok, Prod.mk.injEq] at h
        obtain ⟨rfl, rfl⟩ := h
        refine ⟨?_, .unchanged hmode hchanged (hfalse rfl).1⟩
        rw [hfso2]
        rfl
      | true =>
        obtain ⟨rfl, hversion⟩ := htrue rfl
        simp only [if_true] at h
        have hsame : SameObject fso2 o.2 := by
          rw [hfso2]
          rfl
        have hfso2mode : fso2.backupMode = o.2.backupMode := by rw [hfso2]
        split at h
        case h_1 hunmodified =>
          simp only [pure_eq_ok, Prod.mk.injEq] at h
          obtain ⟨rfl, rfl⟩ := h
          exact ⟨hsame, .declared (hfso2mode ▸ hunmodified) hchanged hversion⟩
        case h_2 hforced => exact absurd (hfso2mode ▸ hforced) hmode
        case h_3 hfull =>
          simp only [pure_eq_ok, Prod.mk.injEq] at h
          obtain ⟨rfl, rfl⟩ := h
          exact ⟨hsame, .changed (hfso2mode ▸ hfull) hchanged hversion⟩
        all_goals simp at h
    case isFalse hmode =>
      rw [ne_eq, not_not] at hmode
      simp only [ok_bind, hmode, pure, Except.pure, Except.ok.injEq, Prod.mk.injEq] at h
      obtain ⟨rfl, rfl⟩ := h
      exact ⟨rfl, .forced hmode rfl⟩

end BackupProgram
