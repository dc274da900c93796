import BackupProgram.Engine.Generation

/-!
# What has become of the objects

After any number of rounds of `GenerateStreams`, every object that has been visited is accounted
for, and every stream that has data is kept under an id of its own.
-/

namespace BackupProgram

open Results

variable {env : BackupEnv} {n : Int} {old : Option (List FileSystemTree)}

/-! ### One round -/

namespace GenerateState

/-- The object that `first` adds. -/
def firstFso (st : GenerateState) (fso : FileSystemObject) (data : StreamData) :
    FileSystemObject :=
  if data.hasData then { fso with streamUniqueId := st.nextStreamUniqueId } else fso

/-- The stream that `first` adds. -/
def firstStream (st : GenerateState) (fso : FileSystemObject) (data : StreamData) : BackupStream :=
  ⟨data, (st.firstFso fso data).streamUniqueId, [st.objects.length]⟩

/-- The streams that are kept. -/
def kept (st : GenerateState) : List Nat := st.streamDict.flatten ++ st.streams

variable (st : GenerateState) (fso o : FileSystemObject) (data : StreamData) (s : Nat)
  (stream : BackupStream)

@[simp] lemma addObject_objects : (st.addObject fso).objects = st.objects ++ [fso] := rfl
@[simp] lemma addObject_heap : (st.addObject fso).heap = st.heap := rfl
@[simp] lemma addObject_knownGuids : (st.addObject fso).knownGuids = st.knownGuids := rfl
@[simp] lemma addObject_kept : (st.addObject fso).kept = st.kept := rfl

@[simp] lemma addObject_nextStreamUniqueId :
    (st.addObject fso).nextStreamUniqueId = st.nextStreamUniqueId := rfl

@[simp] lemma join_objects :
    (st.join o n s stream).objects = st.objects ++ [st.joined o n s stream] := rfl

@[simp] lemma join_heap : (st.join o n s stream).heap = st.heap.set s
    { stream with fileSystemObjects := stream.fileSystemObjects ++ [st.objects.length] } := rfl

@[simp] lemma join_knownGuids : (st.join o n s stream).knownGuids = st.knownGuids := rfl
@[simp] lemma join_kept : (st.join o n s stream).kept = st.kept := rfl

@[simp] lemma join_nextStreamUniqueId :
    (st.join o n s stream).nextStreamUniqueId = st.nextStreamUniqueId := rfl

@[simp] lemma first_objects :
    (st.first fso data).objects = st.objects ++ [st.firstFso fso data] := by
  rw [first, firstFso]
  split_ifs <;> rfl

lemma modify_append_singleton {α : Type} (f : α → α) (as : List α) (a : α) :
    (as ++ [a]).modify as.length f = as ++ [f a] := by
  induction as with
  | nil => rfl
  | cons b as ih => simpa using ih

@[simp] lemma first_heap : (st.first fso data).heap = st.heap ++ [st.firstStream fso data] := by
  rw [first, firstStream, firstFso]
  split_ifs <;> simp [setUniqueIds, addStream, addObject, modify_append_singleton]

@[simp] lemma first_knownGuids : (st.first fso data).knownGuids =
    match fso.fileSystemGuid with
    | none => st.knownGuids
    | some guid => (guid, st.heap.length) :: st.knownGuids := by
  rw [first]
  split_ifs <;> rfl

@[simp] lemma first_kept : (st.first fso data).kept =
    if data.hasData then st.kept ++ [st.heap.length] else st.kept := by
  rw [first]
  split_ifs <;> simp [setUniqueIds, addStream, addObject, kept]

@[simp] lemma first_nextStreamUniqueId : (st.first fso data).nextStreamUniqueId =
    if data.hasData then st.nextStreamUniqueId + 1 else st.nextStreamUniqueId := by
  rw [first]
  split_ifs <;> rfl

end GenerateState

/-- Later rounds add objects and streams, and they add objects to streams. -/
structure Extends (st st' : GenerateState) : Prop where
  objects : st.objects <+: st'.objects
  heap : ∀ (s : Nat) (stream : BackupStream), st.heap[s]? = some stream → ∃ more,
    (∀ j ∈ more, st.objects.length ≤ j) ∧
    st'.heap[s]? = some { stream with fileSystemObjects := stream.fileSystemObjects ++ more }
  fresh : ∀ (s : Nat) (stream : BackupStream), st'.heap[s]? = some stream → st.heap[s]? = none →
    ∀ j ∈ stream.fileSystemObjects, st.objects.length ≤ j

/-- An object, by its position, is one of those of a stream. -/
def GenerateState.Has (st : GenerateState) (s i : Nat) : Prop :=
  ∃ stream, st.heap[s]? = some stream ∧ i ∈ stream.fileSystemObjects

namespace Extends

variable {st st' st'' : GenerateState}

lemma refl (st : GenerateState) : Extends st st where
  objects := List.prefix_rfl
  heap s stream hstream := ⟨[], nofun, by simpa using hstream⟩
  fresh s stream hstream hnone := by simp [hnone] at hstream

lemma trans (h : Extends st st') (h' : Extends st' st'') : Extends st st'' where
  objects := h.objects.trans h'.objects
  heap s stream hstream := by
    obtain ⟨more, hmore, hstream'⟩ := h.heap s stream hstream
    obtain ⟨more', hmore', hstream''⟩ := h'.heap s _ hstream'
    refine ⟨more ++ more', fun j hj => ?_, by simpa using hstream''⟩
    rcases List.mem_append.mp hj with hj | hj
    · exact hmore j hj
    · exact h.objects.length_le.trans (hmore' j hj)
  fresh s stream hstream hnone j hj := by
    cases hs : st'.heap[s]? with
    | none => exact h.objects.length_le.trans (h'.fresh s stream hstream hs j hj)
    | some stream' =>
      obtain ⟨more, hmore, hstream''⟩ := h'.heap s stream' hs
      rw [hstream, Option.some.injEq] at hstream''
      rw [hstream''] at hj
      rcases List.mem_append.mp hj with hj | hj
      · exact h.fresh s stream' hs hnone j hj
      · exact h.objects.length_le.trans (hmore j hj)

lemma getElem_objects (h : Extends st st') {i : Nat} (hi : i < st.objects.length) :
    st'.objects[i]? = st.objects[i]? := by
  obtain ⟨more, hmore⟩ := h.objects
  rw [← hmore, List.getElem?_append_left hi]

/-- An old object is in a stream if and only if it was before. -/
lemma has_iff (h : Extends st st') {s i : Nat} (hi : i < st.objects.length) :
    st'.Has s i ↔ st.Has s i := by
  refine ⟨fun ⟨stream', hstream', hmem⟩ => ?_, fun ⟨stream, hstream, hmem⟩ => ?_⟩
  · cases hs : st.heap[s]? with
    | none => exact absurd (h.fresh s stream' hstream' hs i hmem) (by omega)
    | some stream =>
      obtain ⟨more, hmore, hstream⟩ := h.heap s stream hs
      rw [hstream', Option.some.injEq] at hstream
      rw [hstream] at hmem
      rcases List.mem_append.mp hmem with hmem | hmem
      · exact ⟨stream, hs, hmem⟩
      · exact absurd (hmore i hmem) (by omega)
  · obtain ⟨more, -, hstream'⟩ := h.heap s stream hstream
    exact ⟨_, hstream', List.mem_append_left _ hmem⟩

/-- The data, the id and the first object of a stream stay what they are. -/
lemma stream (h : Extends st st') {s i : Nat} {stream : BackupStream}
    (hstream : st.heap[s]? = some stream) (hhead : stream.fileSystemObjects.head? = some i) :
    ∃ stream', st'.heap[s]? = some stream' ∧ stream'.fileSystemObjects.head? = some i ∧
      stream'.data = stream.data ∧ stream'.uniqueId = stream.uniqueId := by
  obtain ⟨more, -, hstream'⟩ := h.heap s stream hstream
  exact ⟨_, hstream', by rw [List.head?_append, hhead, Option.some_or], rfl, rfl⟩

end Extends

lemma GenerateState.getElem_of_known {st : GenerateState} {guid : Option Guid} {s : Nat}
    {stream : BackupStream} (h : st.known guid = some (s, stream)) : st.heap[s]? = some stream := by
  cases guid with
  | none => cases h
  | some guid =>
    simp only [known] at h
    split at h
    · cases h
    · rw [Option.map_eq_some_iff] at h
      obtain ⟨stream', hstream, heq⟩ := h
      cases heq
      exact hstream

lemma Generates.extends {st st' : GenerateState} {o : PathedObject}
    (h : Generates env n old st o st') : Extends st st' := by
  cases h with
  | excluded | stray =>
    exact ⟨List.prefix_append _ _, fun s stream hstream => ⟨[], nofun, by simpa using hstream⟩,
      fun s stream hstream hnone => by simp [hnone] at hstream⟩
  | peer s stream htype hknown =>
    have hs := GenerateState.getElem_of_known hknown
    refine ⟨List.prefix_append _ _, fun s' stream' hstream' => ?_,
      fun s' stream' hstream' hnone => ?_⟩
    · rcases eq_or_ne s s' with rfl | hne
      · rw [hs, Option.some.injEq] at hstream'
        subst hstream'
        have hlt := (List.getElem?_eq_some_iff.mp hs).1
        exact ⟨[st.objects.length], by simp, by simp [hlt]⟩
      · exact ⟨[], nofun, by simpa [hne] using hstream'⟩
    · have hlt := List.getElem?_eq_none_iff.mp hnone
      have := (List.getElem?_eq_some_iff.mp hstream').1
      simp at this
      omega
  | first fso data hincluded hknown hchoose =>
    refine ⟨by rw [GenerateState.first_objects]; exact List.prefix_append _ _,
      fun s stream hstream => ?_, fun s stream hstream hnone => ?_⟩
    · have hlt := (List.getElem?_eq_some_iff.mp hstream).1
      exact ⟨[], nofun, by simpa [List.getElem?_append_left hlt] using hstream⟩
    · have hle := List.getElem?_eq_none_iff.mp hnone
      rw [GenerateState.first_heap, List.getElem?_append_right hle] at hstream
      obtain ⟨hlt, rfl⟩ := List.getElem?_eq_some_iff.mp hstream
      simp [GenerateState.firstStream]

/-! ### All rounds -/

/-- An object to be backed up comes before another one and is a name of the same file. -/
def Earlier (os : List PathedObject) (i : Nat) (o : PathedObject) : Prop :=
  o.2.fileSystemGuid ≠ none ∧ ∃ k ok, k < i ∧ os[k]? = some ok ∧ ok.2.isIncluded ∧
    ok.2.fileSystemGuid = o.2.fileSystemGuid

/-- What has become of the object `o` at position `i`: it is now `f`. -/
inductive Outcome (env : BackupEnv) (n : Int) (old : Option (List FileSystemTree))
    (os : List PathedObject) (st : GenerateState) (i : Nat) (o : PathedObject)
    (f : FileSystemObject) : Prop
  | excluded (hincluded : o.2.isIncluded = false)
      (hpeer : o.2.type = .fileHardlink → ¬ Earlier os i o) (hnone : ∀ s, ¬ st.Has s i)
      (hobject : f = { o.2 with latestVersion := -1 })
  | stray (hincluded : o.2.isIncluded) (htype : o.2.type ≠ .fileHardlink)
      (hearlier : Earlier os i o) (hnone : ∀ s, ¬ st.Has s i)
      (hobject : f = { o.2 with latestVersion := n })
  | peer {s k : Nat} {stream : BackupStream} {ok : PathedObject} {fk : FileSystemObject}
      (htype : o.2.type = .fileHardlink) (hk : k < i) (hok : os[k]? = some ok)
      (hguid : o.2.fileSystemGuid ≠ none) (hsame : ok.2.fileSystemGuid = o.2.fileSystemGuid)
      (hstream : st.heap[s]? = some stream) (hhead : stream.fileSystemObjects.head? = some k)
      (hfk : st.objects[k]? = some fk) (honly : ∀ s', st.Has s' i ↔ s' = s)
      (hobject : f = { o.2 with
        streamUniqueId := stream.uniqueId
        backupStream := some s
        latestVersion := fk.latestVersion })
  | first {s : Nat} {stream : BackupStream} {fso : FileSystemObject}
      (hincluded : o.2.isIncluded) (hnew : ¬ Earlier os i o)
      (hstream : st.heap[s]? = some stream) (hhead : stream.fileSystemObjects.head? = some i)
      (honly : ∀ s', st.Has s' i ↔ s' = s) (hsame : SameObject fso o.2)
      (hchosen : Chosen env n old o fso stream.data)
      (hid : stream.data.hasData = false → stream.uniqueId = o.2.streamUniqueId)
      (hobject : f = { fso with streamUniqueId := stream.uniqueId })
      (hchoose : choose env old (o.1, { o.2 with latestVersion := n }) = .ok (fso, stream.data))

/-- All objects are accounted for. The surroundings may be others whenever an object is visited. -/
structure GenerationAt (envs : Nat → BackupEnv) (n : Int) (old : Option (List FileSystemTree))
    (firstId : Nat) (os : List PathedObject) (st : GenerateState) : Prop where
  length : st.objects.length = os.length
  outcome : ∀ (i : Nat) (o : PathedObject) (f : FileSystemObject), os[i]? = some o →
    st.objects[i]? = some f → Outcome (envs i) n old os st i o f
  head : ∀ (s : Nat) (stream : BackupStream), st.heap[s]? = some stream →
    ∃ i, stream.fileSystemObjects.head? = some i
  position : ∀ (s i : Nat), st.Has s i → i < os.length
  known : ∀ (guid : Guid) (s : Nat), st.knownGuids.lookup guid = some s →
    ∃ stream i o, st.heap[s]? = some stream ∧ stream.fileSystemObjects.head? = some i ∧
      os[i]? = some o ∧ o.2.isIncluded ∧ o.2.fileSystemGuid = some guid
  unknown : ∀ o ∈ os, o.2.isIncluded → ∀ guid, o.2.fileSystemGuid = some guid →
    st.knownGuids.lookup guid ≠ none
  kept : ∀ s : Nat, s ∈ st.kept ↔ ∃ stream, st.heap[s]? = some stream ∧ stream.data.hasData
  ids : st.kept.map (fun s => st.heap[s]?.map BackupStream.uniqueId) =
    (List.range' firstId (st.nextStreamUniqueId - firstId)).map some
  firstId_le : firstId ≤ st.nextStreamUniqueId

/-- All objects are accounted for, in surroundings that stay the same. -/
abbrev Generation (env : BackupEnv) (n : Int) (old : Option (List FileSystemTree)) (firstId : Nat)
    (os : List PathedObject) (st : GenerateState) : Prop :=
  GenerationAt (fun _ => env) n old firstId os st

lemma GenerateState.known_eq_some {st : GenerateState} {guid : Option Guid} {s : Nat}
    {stream : BackupStream} : st.known guid = some (s, stream) ↔
      ∃ g, guid = some g ∧ st.knownGuids.lookup g = some s ∧ st.heap[s]? = some stream := by
  cases guid with
  | none => simp [known]
  | some g =>
    simp only [known, Option.some.injEq, exists_eq_left']
    split
    · rename_i h
      simp [h]
    · rename_i s' h
      simp only [h, Option.map_eq_some_iff, Prod.mk.injEq, Option.some.injEq]
      constructor
      · rintro ⟨_, hstream, rfl, rfl⟩
        exact ⟨rfl, hstream⟩
      · rintro ⟨rfl, hstream⟩
        exact ⟨stream, hstream, rfl, rfl⟩

lemma earlier_append {os : List PathedObject} {i : Nat} {o x : PathedObject} (hi : i ≤ os.length) :
    Earlier (os ++ [x]) i o ↔ Earlier os i o := by
  refine and_congr_right fun _ => exists_congr fun k => exists_congr fun ok => ?_
  refine and_congr_right fun hk => ?_
  rw [List.getElem?_append_left (by omega)]

/-- Later rounds do not change what has become of an object. -/
lemma Outcome.extends {os : List PathedObject} {st st' : GenerateState} {i : Nat}
    {o x : PathedObject} {f : FileSystemObject} (h : Outcome env n old os st i o f)
    (hext : Extends st st') (hi : i < st.objects.length) (hlength : st.objects.length = os.length) :
    Outcome env n old (os ++ [x]) st' i o f := by
  have hearlier : Earlier (os ++ [x]) i o ↔ Earlier os i o := earlier_append (by omega)
  cases h with
  | excluded hincluded hpeer hnone hobject =>
    exact .excluded hincluded (fun htype => hearlier.not.mpr (hpeer htype))
      (fun s => by rw [hext.has_iff hi]; exact hnone s) hobject
  | stray hincluded htype hold hnone hobject =>
    exact .stray hincluded htype (hearlier.mpr hold)
      (fun s => by rw [hext.has_iff hi]; exact hnone s) hobject
  | peer htype hk hok hguid hsame hstream hhead hfk honly hobject =>
    obtain ⟨stream', hstream', hhead', -, hid⟩ := hext.stream hstream hhead
    exact .peer htype hk (by rwa [List.getElem?_append_left (by omega)]) hguid hsame hstream' hhead'
      (by rwa [hext.getElem_objects (by omega)]) (fun s' => by rw [hext.has_iff hi]; exact honly s')
      (by rwa [hid])
  | first hincluded hnew hstream hhead honly hsame hchosen hid hobject hchoose =>
    obtain ⟨stream', hstream', hhead', hdata, huid⟩ := hext.stream hstream hhead
    exact .first hincluded (hearlier.not.mpr hnew) hstream' hhead'
      (fun s' => by rw [hext.has_iff hi]; exact honly s') hsame (hdata ▸ hchosen)
      (by rwa [hdata, huid]) (by rwa [huid]) (hdata ▸ hchoose)

section Has

variable {st : GenerateState} {s s' i : Nat} {stream : BackupStream} {fso : FileSystemObject}
  {data : StreamData}

@[simp] lemma has_addObject : (st.addObject fso).Has s i ↔ st.Has s i := Iff.rfl

lemma has_join {o : FileSystemObject} (hstream : st.heap[s]? = some stream) :
    (st.join o n s stream).Has s' i ↔ st.Has s' i ∨ s' = s ∧ i = st.objects.length := by
  obtain ⟨hlt, heq⟩ := List.getElem?_eq_some_iff.mp hstream
  rcases eq_or_ne s s' with rfl | hne
  · simp [GenerateState.Has, hlt, heq]
  · simp [GenerateState.Has, hne, hne.symm]

lemma has_first :
    (st.first fso data).Has s' i ↔ st.Has s' i ∨ s' = st.heap.length ∧ i = st.objects.length := by
  rcases lt_trichotomy s' st.heap.length with hlt | rfl | hlt
  · simp [GenerateState.Has, List.getElem?_append_left hlt, hlt.ne]
  · simp [GenerateState.Has, GenerateState.firstStream]
  · have hnone : st.heap[s']? = none := List.getElem?_eq_none_iff.mpr hlt.le
    have hnone' : (st.heap ++ [st.firstStream fso data])[s']? = none := by
      rw [List.getElem?_eq_none_iff]
      simpa using hlt
    simp [GenerateState.Has, hnone, hnone', hlt.ne']

end Has

namespace GenerationAt

variable {envs : Nat → BackupEnv} {firstId : Nat} {os : List PathedObject} {st st' : GenerateState}
  {x : PathedObject}

lemma not_has (h : GenerationAt envs n old firstId os st) (s : Nat) : ¬ st.Has s os.length :=
  fun hhas => (h.position s _ hhas).ne rfl

/-- A stream that is known has an object in front, which is a name of the same file. -/
lemma of_known (h : GenerationAt envs n old firstId os st) {guid : Option Guid} {s : Nat}
    {stream : BackupStream} (hknown : st.known guid = some (s, stream)) :
    ∃ k ok fk, k < os.length ∧ stream.fileSystemObjects.head? = some k ∧ os[k]? = some ok ∧
      st.objects[k]? = some fk ∧ ok.2.isIncluded ∧ ok.2.fileSystemGuid = guid ∧ guid ≠ none := by
  obtain ⟨g, rfl, hlookup, hstream⟩ := GenerateState.known_eq_some.mp hknown
  obtain ⟨stream', k, ok, hstream', hhead, hok, hincluded, hguid⟩ := h.known g s hlookup
  rw [hstream, Option.some.injEq] at hstream'
  subst hstream'
  have hk := (List.getElem?_eq_some_iff.mp hok).1
  have hk' : k < st.objects.length := by rw [h.length]; exact hk
  exact ⟨k, ok, st.objects[k], hk, hhead, hok, List.getElem?_eq_getElem hk', hincluded, hguid,
    by simp⟩

/-- The file of an object is known if and only if the object is not the first of its names. -/
lemma known_isSome_iff (h : GenerationAt envs n old firstId os st) :
    (st.known x.2.fileSystemGuid).isSome ↔ Earlier os os.length x := by
  constructor
  · intro hsome
    obtain ⟨⟨s, stream⟩, hknown⟩ := Option.isSome_iff_exists.mp hsome
    obtain ⟨k, ok, -, hk, -, hok, -, hincluded, hguid, hne⟩ := h.of_known hknown
    exact ⟨hne, k, ok, hk, hok, hincluded, hguid⟩
  · rintro ⟨hne, k, ok, -, hok, hincluded, hguid⟩
    obtain ⟨g, hg⟩ := Option.ne_none_iff_exists'.mp hne
    have hlookup := h.unknown ok (List.mem_of_getElem? hok) hincluded g (hguid.trans hg)
    obtain ⟨s, hs⟩ := Option.ne_none_iff_exists'.mp hlookup
    obtain ⟨stream, -, -, hstream, -⟩ := h.known g s hs
    rw [Option.isSome_iff_exists]
    exact ⟨(s, stream), GenerateState.known_eq_some.mpr ⟨g, hg, hs, hstream⟩⟩

/-- What becomes of an object in its own round. -/
lemma outcome_of_generates (h : GenerationAt envs n old firstId os st)
    (hgen : Generates (envs os.length) n old st x st') {f : FileSystemObject}
    (hf : st'.objects[os.length]? = some f) :
    Outcome (envs os.length) n old (os ++ [x]) st' os.length x f := by
  have hlength := h.length
  have hearlier : Earlier (os ++ [x]) os.length x ↔ (st.known x.2.fileSystemGuid).isSome := by
    rw [earlier_append (le_refl _), h.known_isSome_iff]
  cases hgen with
  | excluded hincluded hpeer =>
    simp only [GenerateState.addObject_objects, ← hlength, List.getElem?_concat_length,
      Option.some.injEq] at hf
    refine .excluded hincluded (fun htype => ?_) h.not_has hf.symm
    rw [hearlier, hpeer htype]
    simp
  | stray hincluded htype hknown =>
    simp only [GenerateState.addObject_objects, ← hlength, List.getElem?_concat_length,
      Option.some.injEq] at hf
    exact .stray hincluded htype (hearlier.mpr hknown) h.not_has hf.symm
  | peer s stream htype hknown =>
    simp only [GenerateState.join_objects, ← hlength, List.getElem?_concat_length,
      Option.some.injEq] at hf
    obtain ⟨k, ok, fk, hk, hhead, hok, hfk, -, hguid, hne⟩ := h.of_known hknown
    have hs := GenerateState.getElem_of_known hknown
    have hlt := (List.getElem?_eq_some_iff.mp hs).1
    have hfirst : st.firstObject stream = some fk := by
      rw [GenerateState.firstObject, hhead, Option.bind_some, hfk]
    have hstream : (st.join x.2 n s stream).heap[s]? = some { stream with
        fileSystemObjects := stream.fileSystemObjects ++ [st.objects.length] } := by
      simp [hlt]
    have hfk' : (st.join x.2 n s stream).objects[k]? = some fk := by
      rwa [GenerateState.join_objects, List.getElem?_append_left (by omega)]
    refine .peer htype hk (by rwa [List.getElem?_append_left hk]) hne hguid hstream
      (by rw [List.head?_append, hhead, Option.some_or]) hfk' (fun s' => ?_) ?_
    · rw [has_join hs, hlength]
      simp [h.not_has]
    · rw [← hf, GenerateState.joined, hfirst]
      rfl
  | first fso data hincluded hknown hchoose =>
    simp only [GenerateState.first_objects, ← hlength, List.getElem?_concat_length,
      Option.some.injEq] at hf
    obtain ⟨hsame, hchosen⟩ := Chosen.of_choose hchoose
    have hstream : (st.first fso data).heap[st.heap.length]? = some (st.firstStream fso data) := by
      simp
    refine .first hincluded ?_ hstream (by simp [GenerateState.firstStream, hlength])
      (fun s' => ?_) hsame hchosen
      (fun hdata => ?_) ?_ hchoose
    · rw [hearlier, hknown]
      simp
    · rw [has_first, hlength]
      simp [h.not_has]
    · have hfso : fso.streamUniqueId = x.2.streamUniqueId := by rw [hsame]
      have hdata' : data.hasData = false := hdata
      simp [GenerateState.firstStream, GenerateState.firstFso, hdata', hfso]
    · rw [← hf]
      simp only [GenerateState.firstStream, GenerateState.firstFso]
      split_ifs <;> rfl

lemma position_of_generates (h : GenerationAt envs n old firstId os st)
    (hgen : Generates (envs os.length) n old st x st') {s i : Nat} (hhas : st'.Has s i) :
    i < (os ++ [x]).length := by
  rw [List.length_append, List.length_singleton]
  have hold : st.Has s i → i < os.length + 1 := fun hhas => (h.position s i hhas).trans (by omega)
  have hlength := h.length
  cases hgen with
  | excluded | stray => exact hold hhas
  | peer s' stream htype hknown =>
    rcases (has_join (GenerateState.getElem_of_known hknown)).mp hhas with hhas | ⟨-, rfl⟩
    · exact hold hhas
    · omega
  | first fso data =>
    rcases has_first.mp hhas with hhas | ⟨-, rfl⟩
    · exact hold hhas
    · omega

/-- The GUIDs that become known are those of the objects that get streams of their own. -/
lemma lookup_of_generates (hgen : Generates env n old st x st') (guid : Guid) :
    st'.knownGuids.lookup guid = st.knownGuids.lookup guid ∨
      (st'.knownGuids.lookup guid = some st.heap.length ∧ x.2.isIncluded ∧
        x.2.fileSystemGuid = some guid ∧ ∃ fso data, st' = st.first fso data) := by
  cases hgen with
  | excluded | stray | peer => exact .inl rfl
  | first fso data hincluded hknown hchoose =>
    obtain ⟨hsame, -⟩ := Chosen.of_choose hchoose
    have hguid : fso.fileSystemGuid = x.2.fileSystemGuid := by rw [hsame]
    rw [GenerateState.first_knownGuids, hguid]
    split
    · exact .inl rfl
    · rename_i guid' hguid'
      rw [List.lookup_cons]
      by_cases heq : guid = guid'
      · subst heq
        exact .inr ⟨by simp, hincluded, hguid', fso, data, rfl⟩
      · have hne : (guid == guid') = false := beq_false_of_ne heq
        exact .inl (by rw [hne])

lemma known_of_generates (h : GenerationAt envs n old firstId os st)
    (hgen : Generates (envs os.length) n old st x st') {guid : Guid} {s : Nat}
    (hlookup : st'.knownGuids.lookup guid = some s) :
    ∃ stream i o, st'.heap[s]? = some stream ∧ stream.fileSystemObjects.head? = some i ∧
      (os ++ [x])[i]? = some o ∧ o.2.isIncluded ∧ o.2.fileSystemGuid = some guid := by
  rcases lookup_of_generates hgen guid with hold | ⟨hnew, hincluded, hguid, fso, data, rfl⟩
  · obtain ⟨stream, i, o, hstream, hhead, ho, hincluded, hguid⟩ := h.known guid s (hold ▸ hlookup)
    obtain ⟨stream', hstream', hhead', -⟩ := hgen.extends.stream hstream hhead
    have hi := (List.getElem?_eq_some_iff.mp ho).1
    exact ⟨stream', i, o, hstream', hhead', by rwa [List.getElem?_append_left hi], hincluded, hguid⟩
  · rw [hlookup, Option.some.injEq] at hnew
    subst hnew
    exact ⟨st.firstStream fso data, os.length, x, by simp,
      by simp [GenerateState.firstStream, h.length], by simp, hincluded, hguid⟩

lemma unknown_of_generates (h : GenerationAt envs n old firstId os st)
    (hgen : Generates (envs os.length) n old st x st') {o : PathedObject} (ho : o ∈ os ++ [x])
    (hincluded : o.2.isIncluded) {guid : Guid} (hguid : o.2.fileSystemGuid = some guid) :
    st'.knownGuids.lookup guid ≠ none := by
  have hold : st.knownGuids.lookup guid ≠ none → st'.knownGuids.lookup guid ≠ none := by
    rcases lookup_of_generates hgen guid with heq | ⟨heq, -⟩
    · rw [heq]; exact id
    · rw [heq]; simp
  rcases List.mem_append.mp ho with ho | ho
  · exact hold (h.unknown o ho hincluded guid hguid)
  · rw [List.mem_singleton] at ho
    subst ho
    cases hgen with
    | excluded hexcluded => simp [hincluded] at hexcluded
    | stray _ _ hknown =>
      obtain ⟨⟨s, stream⟩, hknown⟩ := Option.isSome_iff_exists.mp hknown
      obtain ⟨g, hg, hlookup, -⟩ := GenerateState.known_eq_some.mp hknown
      rw [hguid, Option.some.injEq] at hg
      exact hold (by rw [hg, hlookup]; simp)
    | peer s stream htype hknown =>
      obtain ⟨g, hg, hlookup, -⟩ := GenerateState.known_eq_some.mp hknown
      rw [hguid, Option.some.injEq] at hg
      exact hold (by rw [hg, hlookup]; simp)
    | first fso data _ _ hchoose =>
      obtain ⟨hsame, -⟩ := Chosen.of_choose hchoose
      have hguid' : fso.fileSystemGuid = some guid := by rw [hsame]; exact hguid
      simp [hguid']

/-- The streams that are kept have ids of their own, in ascending order. -/
lemma kept_of_generates (h : GenerationAt envs n old firstId os st)
    (hgen : Generates (envs os.length) n old st x st') :
    (∀ s : Nat, s ∈ st'.kept ↔ ∃ stream, st'.heap[s]? = some stream ∧ stream.data.hasData) ∧
      st'.kept.map (fun s => st'.heap[s]?.map BackupStream.uniqueId) =
        (List.range' firstId (st'.nextStreamUniqueId - firstId)).map some ∧
      firstId ≤ st'.nextStreamUniqueId := by
  have hle := h.firstId_le
  cases hgen with
  | excluded | stray => exact ⟨h.kept, h.ids, hle⟩
  | peer s stream htype hknown =>
    obtain ⟨hlt, hs⟩ := List.getElem?_eq_some_iff.mp (GenerateState.getElem_of_known hknown)
    have hdata : ∀ s' : Nat, (st.join x.2 n s stream).heap[s']?.map BackupStream.data =
        st.heap[s']?.map BackupStream.data := by
      intro s'
      rcases eq_or_ne s s' with rfl | hne
      · simp [hlt, hs]
      · simp [hne]
    have huid : ∀ s' : Nat, (st.join x.2 n s stream).heap[s']?.map BackupStream.uniqueId =
        st.heap[s']?.map BackupStream.uniqueId := by
      intro s'
      rcases eq_or_ne s s' with rfl | hne
      · simp [hlt, hs]
      · simp [hne]
    have hexists : ∀ (heap : List BackupStream) (s' : Nat),
        (∃ stream, heap[s']? = some stream ∧ stream.data.hasData) ↔
          ∃ d, heap[s']?.map BackupStream.data = some d ∧ d.hasData := by
      intro heap s'
      cases heap[s']? <;> simp
    refine ⟨fun s' => ?_, ?_, hle⟩
    · rw [hexists, hdata, ← hexists]
      exact h.kept s'
    · rw [GenerateState.join_kept, GenerateState.join_nextStreamUniqueId, ← h.ids]
      exact List.map_congr_left fun s' _ => huid s'
  | first fso data hincluded hknown hchoose =>
    have hlt : ∀ s ∈ st.kept, s < st.heap.length := by
      intro s hs
      obtain ⟨stream, hstream, -⟩ := (h.kept s).mp hs
      exact (List.getElem?_eq_some_iff.mp hstream).1
    have hids : st.kept.map
        (fun s => (st.first fso data).heap[s]?.map BackupStream.uniqueId) =
          (List.range' firstId (st.nextStreamUniqueId - firstId)).map some := by
      rw [← h.ids]
      refine List.map_congr_left fun s hs => ?_
      rw [GenerateState.first_heap, List.getElem?_append_left (hlt s hs)]
    refine ⟨fun s => ?_, ?_, ?_⟩
    · rw [GenerateState.first_kept, GenerateState.first_heap]
      rcases lt_trichotomy s st.heap.length with hs | rfl | hs
      · rw [List.getElem?_append_left hs, ← h.kept s]
        split_ifs <;> simp [hs.ne]
      · have hnot : st.heap.length ∉ st.kept := fun hmem => (hlt _ hmem).ne rfl
        split_ifs with hdata <;> simp [hnot, GenerateState.firstStream, hdata]
      · have hnot : s ∉ st.kept := fun hmem => (hs.trans (hlt s hmem)).ne rfl
        have hnone : (st.heap ++ [st.firstStream fso data])[s]? = none := by
          rw [List.getElem?_eq_none_iff]
          simpa using hs
        rw [hnone]
        split_ifs <;> simp [hnot, hs.ne']
    · rw [GenerateState.first_kept, GenerateState.first_nextStreamUniqueId]
      split_ifs with hdata
      · rw [List.map_append, hids, Nat.sub_add_comm hle, List.range'_concat, List.map_append]
        simp [GenerateState.firstStream, GenerateState.firstFso, hdata, Nat.add_sub_cancel' hle]
      · exact hids
    · rw [GenerateState.first_nextStreamUniqueId]
      split_ifs <;> omega

lemma step (h : GenerationAt envs n old firstId os st)
    (hgen : Generates (envs os.length) n old st x st') :
    GenerationAt envs n old firstId (os ++ [x]) st' := by
  have hlength : st'.objects.length = os.length + 1 := by
    rw [← h.length]
    cases hgen <;> simp
  obtain ⟨hkept, hids, hle⟩ := h.kept_of_generates hgen
  refine
    { length := by simp [hlength]
      outcome := fun i o f ho hf => ?_
      head := fun s stream hstream => ?_
      position := fun s i => h.position_of_generates hgen
      known := fun guid s => h.known_of_generates hgen
      unknown := fun o ho hincluded guid => h.unknown_of_generates hgen ho hincluded
      kept := hkept
      ids := hids
      firstId_le := hle }
  · rcases lt_or_ge i os.length with hi | hi
    · have hi' : i < st.objects.length := h.length ▸ hi
      rw [List.getElem?_append_left hi] at ho
      rw [hgen.extends.getElem_objects hi'] at hf
      exact (h.outcome i o f ho hf).extends hgen.extends hi' h.length
    · have hi' : i = os.length := by
        have := (List.getElem?_eq_some_iff.mp hf).1
        omega
      subst hi'
      rw [List.getElem?_concat_length, Option.some.injEq] at ho
      exact ho ▸ h.outcome_of_generates hgen hf
  · cases hs : st.heap[s]? with
    | some stream0 =>
      obtain ⟨i, hi⟩ := h.head s stream0 hs
      obtain ⟨more, -, hstream'⟩ := hgen.extends.heap s stream0 hs
      rw [hstream, Option.some.injEq] at hstream'
      exact ⟨i, by rw [hstream', List.head?_append, hi, Option.some_or]⟩
    | none =>
      cases hgen with
      | excluded | stray => simp [hs] at hstream
      | peer s' stream' =>
        have hlt := (List.getElem?_eq_some_iff.mp hstream).1
        have := List.getElem?_eq_none_iff.mp hs
        simp at hlt
        omega
      | first fso data =>
        rw [GenerateState.first_heap, List.getElem?_append_right (List.getElem?_eq_none_iff.mp hs)]
          at hstream
        obtain ⟨hlt, rfl⟩ := List.getElem?_eq_some_iff.mp hstream
        exact ⟨st.objects.length, by simp [GenerateState.firstStream]⟩

end GenerationAt

lemma Generates.streamDict {st st' : GenerateState} {x : PathedObject}
    (hgen : Generates env n old st x st') : st'.streamDict = st.streamDict := by
  cases hgen with
  | excluded | stray | peer => rfl
  | first fso data =>
    rw [GenerateState.first]
    split_ifs <;> rfl

/-- The generator in surroundings that depend on the object that is visited. -/
def generatorAt (envs : Nat → BackupEnv) (n : Int) (old : Option (List FileSystemTree)) :
    Generator :=
  fun st o => generatorFor (envs st.objects.length) n old st o

/-- The state after all objects of some base objects. The streams of the first `k` of these are
those of the first `k` lists. -/
structure GenerationOfBasesAt (envs : Nat → BackupEnv) (n : Int)
    (old : Option (List FileSystemTree)) (firstId : Nat) (bases : List (List PathedObject))
    (st : GenerateState) : Prop where
  generation : GenerationAt envs n old firstId bases.flatten st
  streams : st.streams = []
  length : st.streamDict.length = bases.length
  mem_take : ∀ (k i s : Nat) (stream : BackupStream), i < (bases.take k).flatten.length →
    st.heap[s]? = some stream → stream.fileSystemObjects.head? = some i → stream.data.hasData →
      s ∈ (st.streamDict.take k).flatten

/-- The same, in surroundings that stay the same. -/
abbrev GenerationOfBases (env : BackupEnv) (n : Int) (old : Option (List FileSystemTree))
    (firstId : Nat) (bases : List (List PathedObject)) (st : GenerateState) : Prop :=
  GenerationOfBasesAt (fun _ => env) n old firstId bases st

/-- The list of streams of a base object is complete. -/
def GenerateState.endBase (st : GenerateState) : GenerateState :=
  { st with streamDict := st.streamDict ++ [st.streams], streams := [] }

lemma GenerationAt.endBase {envs : Nat → BackupEnv} {firstId : Nat} {os : List PathedObject}
    {st : GenerateState} (h : GenerationAt envs n old firstId os st) :
    GenerationAt envs n old firstId os st.endBase := by
  have hkept : st.endBase.kept = st.kept := by simp [GenerateState.endBase, GenerateState.kept]
  refine
    { length := h.length
      outcome := fun i o f ho hf => ?_
      head := h.head
      position := h.position
      known := h.known
      unknown := h.unknown
      kept := fun s => by rw [hkept]; exact h.kept s
      ids := by rw [hkept]; exact h.ids
      firstId_le := h.firstId_le }
  cases h.outcome i o f ho hf with
  | excluded hincluded hpeer hnone hobject => exact .excluded hincluded hpeer hnone hobject
  | stray hincluded htype hearlier hnone hobject =>
    exact .stray hincluded htype hearlier hnone hobject
  | peer htype hk hok hguid hsame hstream hhead hfk honly hobject =>
    exact .peer htype hk hok hguid hsame hstream hhead hfk honly hobject
  | first hincluded hnew hstream hhead honly hsame hchosen hid hobject hchoose =>
    exact .first hincluded hnew hstream hhead honly hsame hchosen hid hobject hchoose

namespace GenerationOfBasesAt

variable {envs : Nat → BackupEnv} {firstId : Nat} {bases : List (List PathedObject)}
  {st st' : GenerateState}

lemma of_generateBase {base : List PathedObject}
    (h : GenerationOfBasesAt envs n old firstId bases st)
    (hbase : generateBase (generatorAt envs n old) st base = .ok st') :
    GenerationOfBasesAt envs n old firstId (bases ++ [base]) st' := by
  rw [generateBase] at hbase
  simp only [bind_eq_ok, pure_eq_ok] at hbase
  obtain ⟨st1, hloop, rfl⟩ := hbase
  obtain ⟨hgen, hext, hdict⟩ := foldlM_induction
    (P := fun pre st1 => GenerationAt envs n old firstId (bases.flatten ++ pre) st1 ∧
      Extends st st1 ∧ st1.streamDict = st.streamDict)
    (fun pre x st1 st2 hst hround => by
      obtain ⟨hgen, hext, hdict⟩ := hst
      have hround := Generates.of_generateStream (show generateStream
        (generatorFor (envs (bases.flatten ++ pre).length) n old) st1 x = .ok st2 by
        rw [← hgen.length]
        exact hround)
      refine ⟨?_, hext.trans hround.extends, hround.streamDict.trans hdict⟩
      rw [← List.append_assoc]
      exact hgen.step hround)
    (show GenerationAt envs n old firstId (bases.flatten ++ []) st ∧ _ from
      ⟨by rw [List.append_nil]; exact h.generation, Extends.refl st, rfl⟩) hloop
  rw [List.nil_append] at hgen
  have hkept : (st1.streamDict ++ [st1.streams]).flatten ++ [] = st1.kept := by
    simp [GenerateState.kept]
  refine ⟨?_, rfl, by simp [hdict, h.length], fun k i s stream hi hstream hhead hdata => ?_⟩
  · rw [List.flatten_append, List.flatten_singleton]
    exact hgen.endBase
  · have hmem : s ∈ st1.kept := (hgen.kept s).mpr ⟨stream, hstream, hdata⟩
    rcases Nat.lt_or_ge bases.length k with hk | hk
    · rw [List.take_of_length_le (by simp [hdict, h.length]; omega)]
      rwa [← hkept, List.append_nil] at hmem
    · rw [List.take_append_of_le_length hk] at hi
      have hi' : i < st.objects.length := by
        rw [h.generation.length]
        exact hi.trans_le (List.take_prefix k bases).flatten.length_le
      obtain ⟨stream0, hstream0, -⟩ := (hext.has_iff hi').mp ⟨stream, hstream,
        List.mem_of_head? hhead⟩
      obtain ⟨j, hj⟩ := h.generation.head s stream0 hstream0
      obtain ⟨stream', hstream', hhead', hdata', -⟩ := hext.stream hstream0 hj
      rw [hstream, Option.some.injEq] at hstream'
      subst hstream'
      rw [hhead, Option.some.injEq] at hhead'
      subst hhead'
      rw [hdict, List.take_append_of_le_length (by rw [h.length]; exact hk)]
      exact h.mem_take k i s stream0 hi hstream0 hj (hdata' ▸ hdata)

/-- An engine that has not made a backup before has no streams at first. -/
theorem of_generateStreams {baseObjects : List FileSystemTree}
    (h : generateStreams (generatorAt envs n old) [] firstId baseObjects = .ok st) :
    GenerationOfBasesAt envs n old firstId (baseObjects.map FileSystemTree.iterate) st := by
  have hinit : GenerationOfBasesAt envs n old firstId []
      { objects := [], heap := [], knownGuids := [], streams := [], streamDict := [],
        nextStreamUniqueId := firstId } :=
    { generation :=
        { length := rfl
          outcome := fun i o f ho => by simp at ho
          head := fun s stream hstream => by simp at hstream
          position := fun s i ⟨stream, hstream, _⟩ => by simp at hstream
          known := fun guid s hlookup => by simp at hlookup
          unknown := fun o ho => by simp at ho
          kept := fun s => by simp [GenerateState.kept]
          ids := by simp [GenerateState.kept]
          firstId_le := le_refl _ }
      streams := rfl
      length := rfl
      mem_take := fun k i s stream hi => by simp at hi }
  have key := foldlM_induction (P := GenerationOfBasesAt envs n old firstId)
    (fun bases base st st' hst hbase => hst.of_generateBase hbase) hinit h
  rwa [List.nil_append] at key

end GenerationOfBasesAt

lemma GenerationOfBases.of_generateStreams {firstId : Nat} {st : GenerateState}
    {baseObjects : List FileSystemTree}
    (h : generateStreams (generatorFor env n old) [] firstId baseObjects = .ok st) :
    GenerationOfBases env n old firstId (baseObjects.map FileSystemTree.iterate) st :=
  GenerationOfBasesAt.of_generateStreams h

end BackupProgram
