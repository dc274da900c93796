import BackupProgram.Engine.GenerateArchive
import BackupProgram.Engine.Outcome

/-!
# What is archived

The loop over the base objects attaches the streams to the objects, collects the versions that the
objects refer to, and reads the files. Apart from hashes and references to streams it leaves the
objects as the stream generator has left them.
-/

namespace BackupProgram

open Results

variable {env : BackupEnv} {envs : Nat → BackupEnv} {n : Int}
  {old : Option (List FileSystemTree)}

/-! ### Dependencies of objects -/

lemma mem_getDependencies {heap : List BackupStream} {versionDependencies : Finset Int}
    {fso : FileSystemObject} {v : Int} : v ∈ getDependencies heap versionDependencies fso ↔
      v ∈ versionDependencies ∨ v ∈ getDependencies heap ∅ fso := by
  simp only [getDependencies]
  split_ifs
  · simp
  · cases fso.backupStream.bind fun s => heap[s]? with
    | none => simp [or_comm]
    | some stream =>
      obtain ⟨data, _, _⟩ := stream
      cases data <;> simp [StreamData.getDependencies, or_comm]

lemma mem_foldl_getDependencies {heap : List BackupStream} {versionDependencies : Finset Int}
    {fsos : List FileSystemObject} {v : Int} :
    v ∈ fsos.foldl (getDependencies heap) versionDependencies ↔
      v ∈ versionDependencies ∨ ∃ fso ∈ fsos, v ∈ getDependencies heap ∅ fso := by
  induction fsos generalizing versionDependencies with
  | nil => simp
  | cons fso fsos ih =>
    rw [List.foldl_cons, ih, mem_getDependencies, or_assoc, List.exists_mem_cons_iff]

/-! ### The loop -/

/-- Objects that differ in their hashes and in the streams they refer to. -/
def SameArchived (g f : FileSystemObject) : Prop :=
  g = { f with hashes := g.hashes, backupStream := g.backupStream }

lemma SameArchived.latestVersion {g f : FileSystemObject} (h : SameArchived g f) :
    g.latestVersion = f.latestVersion := by rw [h]

lemma SameArchived.streamUniqueId {g f : FileSystemObject} (h : SameArchived g f) :
    g.streamUniqueId = f.streamUniqueId := by rw [h]

/-- The objects after some streams have been attached, of which those of the list have been. -/
structure Attached (st : GenerateState) (done : List Nat) (objects : List FileSystemObject) :
    Prop where
  length : objects.length = st.objects.length
  same : ∀ (i : Nat) (f g : FileSystemObject), st.objects[i]? = some f → objects[i]? = some g →
    SameArchived g f
  unattached : ∀ (i : Nat) (f g : FileSystemObject), st.objects[i]? = some f →
    objects[i]? = some g → (∀ s ∈ done, ¬ st.Has s i) → g.backupStream = f.backupStream
  attached : ∀ (i : Nat) (g : FileSystemObject), objects[i]? = some g →
    (∃ s ∈ done, st.Has s i) → ∃ s ∈ done, st.Has s i ∧ g.backupStream = some s

namespace Attached

variable {st : GenerateState} {done : List Nat} {objects : List FileSystemObject}

lemma nil (st : GenerateState) : Attached st [] st.objects where
  length := rfl
  same i f g hf hg := by
    rw [hf, Option.some.injEq] at hg
    rw [hg]
    rfl
  unattached i f g hf hg _ := by
    rw [hf, Option.some.injEq] at hg
    rw [hg]
  attached i g _ h := by simp at h

lemma foldl_modify (objects : List FileSystemObject) (js : List Nat) (s i : Nat) :
    (js.foldl (fun objects i => objects.modify i fun fso => { fso with backupStream := some s })
      objects)[i]? = objects[i]?.map fun fso =>
        if i ∈ js then { fso with backupStream := some s } else fso := by
  induction js generalizing objects with
  | nil => simp
  | cons j js ih =>
    rw [List.foldl_cons, ih, List.getElem?_modify]
    cases objects[i]? with
    | none => rfl
    | some fso =>
      rcases eq_or_ne j i with rfl | hne
      · by_cases hmem : j ∈ js <;> simp [hmem]
      · simp [hne, hne.symm]

/-- One stream is attached to its objects. -/
lemma getElem_attachStream {s i : Nat} {g : FileSystemObject}
    (hg : (BackupProgram.attachStream st.heap objects s)[i]? = some g) :
    ∃ g0, objects[i]? = some g0 ∧ (st.Has s i ∧ g = { g0 with backupStream := some s } ∨
      ¬ st.Has s i ∧ g = g0) := by
  rw [BackupProgram.attachStream] at hg
  split at hg
  · rename_i hnone
    exact ⟨g, hg, .inr ⟨fun ⟨stream, hstream, _⟩ => by simp [hnone] at hstream, rfl⟩⟩
  · rename_i stream hstream
    rw [foldl_modify, Option.map_eq_some_iff] at hg
    obtain ⟨g0, hg0, rfl⟩ := hg
    refine ⟨g0, hg0, ?_⟩
    split_ifs with hmem
    · exact .inl ⟨⟨stream, hstream, hmem⟩, rfl⟩
    · refine .inr ⟨fun ⟨stream', hstream', hmem'⟩ => hmem ?_, rfl⟩
      rw [hstream, Option.some.injEq] at hstream'
      exact hstream' ▸ hmem'

lemma length_attachStream (heap : List BackupStream) (objects : List FileSystemObject) (s : Nat) :
    (attachStream heap objects s).length = objects.length := by
  cases h : heap[s]? with
  | none => simp [attachStream, h]
  | some stream =>
    simp only [attachStream, h]
    induction stream.fileSystemObjects generalizing objects with
    | nil => rfl
    | cons j js ih => rw [List.foldl_cons, ih, List.length_modify]

lemma attachStream (h : Attached st done objects) (s : Nat) :
    Attached st (done ++ [s]) (attachStream st.heap objects s) := by
  refine ⟨by rw [length_attachStream, h.length], fun i f g hf hg => ?_, fun i f g hf hg hnot => ?_,
    fun i g hg hhas => ?_⟩
  · obtain ⟨g0, hg0, ⟨-, rfl⟩ | ⟨-, rfl⟩⟩ := getElem_attachStream hg
    · have hsame := h.same i f g0 hf hg0
      rw [SameArchived] at hsame ⊢
      rw [hsame]
    · exact h.same i f g hf hg0
  · obtain ⟨g0, hg0, ⟨hs, -⟩ | ⟨-, rfl⟩⟩ := getElem_attachStream hg
    · exact absurd hs (hnot s (by simp))
    · exact h.unattached i f g hf hg0 fun s' hs' => hnot s' (by simp [hs'])
  · obtain ⟨g0, hg0, ⟨hs, rfl⟩ | ⟨hs, rfl⟩⟩ := getElem_attachStream hg
    · exact ⟨s, by simp, hs, rfl⟩
    · obtain ⟨s', hs', hhas'⟩ := hhas
      have hdone : s' ∈ done := by
        rcases List.mem_append.mp hs' with hs' | hs'
        · exact hs'
        · rw [List.mem_singleton] at hs'
          exact absurd (hs' ▸ hhas') hs
      obtain ⟨s'', hs'', hhas'', hstream⟩ := h.attached i g hg0 ⟨s', hdone, hhas'⟩
      exact ⟨s'', by simp [hs''], hhas'', hstream⟩

lemma foldl_attachStream (h : Attached st done objects) (ss : List Nat) :
    Attached st (done ++ ss) (ss.foldl (BackupProgram.attachStream st.heap) objects) := by
  induction ss generalizing done objects with
  | nil => rwa [List.append_nil]
  | cons s ss ih =>
    have key := ih (h.attachStream s)
    rwa [List.append_assoc] at key

/-- The hash of an object does not matter. -/
lemma set_setHash (h : Attached st done objects) {i : Nat} {fso : FileSystemObject}
    (hfso : objects[i]? = some fso) (type : HashType) (digest : List Byte) :
    Attached st done (objects.set i (fso.setHash type digest)) := by
  have hlt := (List.getElem?_eq_some_iff.mp hfso).1
  have hget : ∀ (j : Nat) (g : FileSystemObject),
      (objects.set i (fso.setHash type digest))[j]? = some g → ∃ g0, objects[j]? = some g0 ∧
        g.backupStream = g0.backupStream ∧ ∀ f, SameArchived g0 f → SameArchived g f := by
    intro j g hg
    rcases eq_or_ne i j with rfl | hne
    · rw [List.getElem?_set_self hlt, Option.some.injEq] at hg
      subst hg
      refine ⟨fso, hfso, by rw [setHash_eq], fun f hf => ?_⟩
      rw [SameArchived] at hf ⊢
      rw [setHash_eq, hf]
    · rw [List.getElem?_set_ne hne] at hg
      exact ⟨g, hg, rfl, fun f hf => hf⟩
  refine ⟨by rw [List.length_set, h.length], fun j f g hf hg => ?_, fun j f g hf hg hnot => ?_,
    fun j g hg hhas => ?_⟩
  · obtain ⟨g0, hg0, -, hsame⟩ := hget j g hg
    exact hsame f (h.same j f g0 hf hg0)
  · obtain ⟨g0, hg0, hstream, -⟩ := hget j g hg
    rw [hstream]
    exact h.unattached j f g0 hf hg0 hnot
  · obtain ⟨g0, hg0, hstream, -⟩ := hget j g hg
    rw [hstream]
    exact h.attached j g0 hg0 hhas

end Attached

/-- The stream that an object refers to in the end. -/
def Settled (st : GenerateState) (i : Nat) (f : FileSystemObject) (b : Option Nat) : Prop :=
  (∃ s ∈ st.kept, st.Has s i ∧ b = some s) ∨ (∀ s ∈ st.kept, ¬ st.Has s i) ∧ b = f.backupStream

/-- The object at a position makes the version depend on another one. -/
def DependsOn (st : GenerateState) (i : Nat) (f : FileSystemObject) (v : Int) : Prop :=
  ∃ b, Settled st i f b ∧ v ∈ getDependencies st.heap ∅ { f with backupStream := b }

/-- A file of the archive holds the data of a stream. -/
def FileOf (env : BackupEnv) (paths : List ObjectPaths) (st : GenerateState) (s : Nat)
    (file : Nat × List Byte × HashType) : Prop :=
  ∃ stream i path, st.heap[s]? = some stream ∧ stream.fileSystemObjects.head? = some i ∧
    paths[i]? = some path ∧ file.1 = stream.uniqueId ∧
      env.fs.readFile path.mappedPath = some file.2.1

/-- The loop has dealt with the first `k` base objects. -/
structure Archiving (env : BackupEnv) (paths : List ObjectPaths) (st : GenerateState)
    (bases : List (List PathedObject)) (k : Nat) (p : ArchiveProgress) : Prop where
  attached : Attached st (st.streamDict.take k).flatten p.objects
  versionDependencies : ∀ v, v ∈ p.versionDependencies ↔
    ∃ i f, i < (bases.take k).flatten.length ∧ st.objects[i]? = some f ∧ DependsOn st i f v
  files : List.Forall₂ (FileOf env paths st) (st.streamDict.take k).flatten p.files

section Archiving

variable {firstId : Nat} {bases : List (List PathedObject)} {st : GenerateState}
  {paths : List ObjectPaths}

lemma GenerationOfBasesAt.kept_eq (h : GenerationOfBasesAt envs n old firstId bases st) :
    st.kept = st.streamDict.flatten := by
  rw [GenerateState.kept, h.streams, List.append_nil]

/-- The first object of a stream comes before the others. -/
lemma GenerationAt.head_le {os : List PathedObject} (h : GenerationAt envs n old firstId os st)
    {s i j : Nat} {stream : BackupStream} (hstream : st.heap[s]? = some stream)
    (hi : i ∈ stream.fileSystemObjects) (hj : stream.fileSystemObjects.head? = some j) : j ≤ i := by
  have hhas : st.Has s i := ⟨stream, hstream, hi⟩
  have hlt := h.position s i hhas
  have hlt' : i < st.objects.length := h.length ▸ hlt
  cases h.outcome i os[i] st.objects[i] (List.getElem?_eq_getElem hlt)
    (List.getElem?_eq_getElem hlt') with
  | excluded _ _ hnone => exact absurd hhas (hnone s)
  | stray _ _ _ hnone => exact absurd hhas (hnone s)
  | peer _ hk _ _ _ hstream' hhead _ honly =>
    rw [← (honly s).mp hhas, hstream, Option.some.injEq] at hstream'
    rw [← hstream', hj, Option.some.injEq] at hhead
    omega
  | first _ _ hstream' hhead honly =>
    rw [← (honly s).mp hhas, hstream, Option.some.injEq] at hstream'
    rw [← hstream', hj, Option.some.injEq] at hhead
    omega

/-- The object in front of a stream is the one that the stream has been made for. -/
lemma GenerationAt.outcome_head {os : List PathedObject}
    (h : GenerationAt envs n old firstId os st) {s k : Nat}
    {stream : BackupStream} {ok : PathedObject} {fk : FileSystemObject}
    (hstream : st.heap[s]? = some stream) (hhead : stream.fileSystemObjects.head? = some k)
    (hok : os[k]? = some ok) (hfk : st.objects[k]? = some fk) :
    ∃ fso, ok.2.isIncluded ∧ ¬ Earlier os k ok ∧ SameObject fso ok.2 ∧
      Chosen (envs k) n old ok fso stream.data ∧
      (stream.data.hasData = false → stream.uniqueId = ok.2.streamUniqueId) ∧
      fk = { fso with streamUniqueId := stream.uniqueId } := by
  have hhas : st.Has s k := ⟨stream, hstream, List.mem_of_head? hhead⟩
  cases h.outcome k ok fk hok hfk with
  | excluded _ _ hnone => exact absurd hhas (hnone s)
  | stray _ _ _ hnone => exact absurd hhas (hnone s)
  | peer _ hk _ _ _ hstream' hhead' _ honly =>
    rw [← (honly s).mp hhas, hstream, Option.some.injEq] at hstream'
    rw [← hstream', hhead, Option.some.injEq] at hhead'
    exact absurd hhead' hk.ne'
  | @first _ _ fso hincluded hnew hstream' hhead' honly hsame hchosen hid hobject =>
    rw [← (honly s).mp hhas, hstream, Option.some.injEq] at hstream'
    subst hstream'
    exact ⟨fso, hincluded, hnew, hsame, hchosen, hid, hobject⟩

/-- An included object that is the first of its names has a stream. -/
lemma GenerationAt.exists_head {os : List PathedObject}
    (h : GenerationAt envs n old firstId os st) {k : Nat} {ok : PathedObject}
    (hok : os[k]? = some ok) (hincluded : ok.2.isIncluded) (hnew : ¬ Earlier os k ok) :
    ∃ (s : Nat) (stream : BackupStream), st.heap[s]? = some stream ∧
      stream.fileSystemObjects.head? = some k := by
  have hk : k < st.objects.length := h.length ▸ (List.getElem?_eq_some_iff.mp hok).1
  cases h.outcome k ok _ hok (List.getElem?_eq_getElem hk) with
  | excluded hexcluded => simp [hincluded] at hexcluded
  | stray _ _ hearlier => exact absurd hearlier hnew
  | @peer s j stream oj fj htype hj hoj hguid hsame hstream hhead hfj =>
    obtain ⟨-, hincluded', -⟩ := h.outcome_head hstream hhead hoj hfj
    exact absurd ⟨hguid, j, oj, hj, hoj, hincluded', hsame⟩ hnew
  | first _ _ hstream hhead => exact ⟨_, _, hstream, hhead⟩

/-- Streams that have an object below some base objects are among theirs. -/
lemma GenerationOfBases.mem_take_of_has (h : GenerationOfBases env n old firstId bases st)
    {k i s : Nat} (hi : i < (bases.take k).flatten.length) (hs : s ∈ st.kept) (hhas : st.Has s i) :
    s ∈ (st.streamDict.take k).flatten := by
  obtain ⟨stream, hstream, hdata⟩ := (h.generation.kept s).mp hs
  obtain ⟨stream', hstream', hmem⟩ := hhas
  rw [hstream, Option.some.injEq] at hstream'
  subst hstream'
  obtain ⟨j, hj⟩ := h.generation.head s stream hstream
  have hle := h.generation.head_le hstream hmem hj
  exact h.mem_take k j s stream (by omega) hstream hj hdata

/-- No object is in two streams. -/
lemma GenerationAt.has_unique {os : List PathedObject} (h : GenerationAt envs n old firstId os st)
    {s s' i : Nat} (hs : st.Has s i) (hs' : st.Has s' i) : s = s' := by
  have hlt := h.position s i hs
  have hlt' : i < st.objects.length := h.length ▸ hlt
  cases h.outcome i os[i] st.objects[i] (List.getElem?_eq_getElem hlt)
    (List.getElem?_eq_getElem hlt') with
  | excluded _ _ hnone => exact absurd hs (hnone s)
  | stray _ _ _ hnone => exact absurd hs (hnone s)
  | peer _ _ _ _ _ _ _ _ honly => exact ((honly s).mp hs).trans ((honly s').mp hs').symm
  | first _ _ _ _ honly => exact ((honly s).mp hs).trans ((honly s').mp hs').symm

/-- The streams that have data get the ids that are handed out. -/
lemma GenerationAt.uniqueId_bounds {os : List PathedObject}
    (h : GenerationAt envs n old firstId os st)
    {s : Nat} {stream : BackupStream} (hstream : st.heap[s]? = some stream)
    (hdata : stream.data.hasData) :
    firstId ≤ stream.uniqueId ∧ stream.uniqueId < st.nextStreamUniqueId := by
  have hmem : some stream.uniqueId ∈
      st.kept.map fun s => st.heap[s]?.map BackupStream.uniqueId := by
    rw [List.mem_map]
    exact ⟨s, (h.kept s).mpr ⟨stream, hstream, hdata⟩, by rw [hstream]; rfl⟩
  rw [h.ids, List.mem_map] at hmem
  obtain ⟨id, hid, heq⟩ := hmem
  rw [Option.some.injEq] at heq
  subst heq
  have hle := h.firstId_le
  rw [List.mem_range'_1] at hid
  omega

lemma Settled.unique {os : List PathedObject} (h : GenerationAt envs n old firstId os st) {i : Nat}
    {f : FileSystemObject} {b b' : Option Nat} (hb : Settled st i f b) (hb' : Settled st i f b') :
    b = b' := by
  rcases hb with ⟨s, hs, hhas, rfl⟩ | ⟨hnot, rfl⟩ <;>
    rcases hb' with ⟨s', hs', hhas', rfl⟩ | ⟨hnot', rfl⟩
  · rw [h.has_unique hhas hhas']
  · exact absurd hhas (hnot' s hs)
  · exact absurd hhas' (hnot s' hs')
  · rfl

lemma getDependencies_of_same {heap : List BackupStream} {f g : FileSystemObject}
    (h : SameArchived g f) : getDependencies heap ∅ g =
      getDependencies heap ∅ { f with backupStream := g.backupStream } := by
  rw [h]
  rfl

lemma mem_take_drop {α : Type} (as : List α) (start size : Nat) (a : α) :
    a ∈ (as.drop start).take size ↔ ∃ j < size, as[start + j]? = some a := by
  rw [List.mem_iff_getElem?]
  simp only [List.getElem?_take, List.getElem?_drop]
  constructor
  · rintro ⟨j, hj⟩
    split_ifs at hj with hlt
    exact ⟨j, hlt, hj⟩
  · rintro ⟨j, hlt, hj⟩
    exact ⟨j, by rw [if_pos hlt, hj]⟩

lemma settled_of_attached (h : GenerationOfBases env n old firstId bases st)
    {objects : List FileSystemObject} {k i : Nat} {f g : FileSystemObject}
    (hattached : Attached st (st.streamDict.take k).flatten objects)
    (hi : i < (bases.take k).flatten.length) (hf : st.objects[i]? = some f)
    (hg : objects[i]? = some g) : Settled st i f g.backupStream := by
  have hkept : ∀ s ∈ (st.streamDict.take k).flatten, s ∈ st.kept := fun s hs => by
    rw [h.kept_eq]
    exact (List.take_prefix k st.streamDict).flatten.subset hs
  by_cases hex : ∃ s ∈ (st.streamDict.take k).flatten, st.Has s i
  · obtain ⟨s, hs, hhas, hb⟩ := hattached.attached i g hg hex
    exact .inl ⟨s, hkept s hs, hhas, hb⟩
  · have hnot : ∀ s ∈ st.kept, ¬ st.Has s i := fun s hs hhas =>
      hex ⟨s, h.mem_take_of_has hi hs hhas, hhas⟩
    exact .inr ⟨hnot, hattached.unattached i f g hf hg fun s hs => hnot s (hkept s hs)⟩

/-- Adding the files of some streams. -/
lemma addStreamFile_foldlM {done ss : List Nat} {p p' : ArchiveProgress}
    (hattached : Attached st done p.objects)
    (h : ss.foldlM (addStreamFile env paths st.heap) p = .ok p') :
    Attached st done p'.objects ∧ p'.versionDependencies = p.versionDependencies ∧
      ∃ files, p'.files = p.files ++ files ∧ List.Forall₂ (FileOf env paths st) ss files := by
  induction ss generalizing p with
  | nil =>
    rw [List.foldlM_nil, pure_eq_ok] at h
    subst h
    exact ⟨hattached, rfl, [], by simp, .nil⟩
  | cons s ss ih =>
    rw [List.foldlM_cons, bind_eq_ok] at h
    obtain ⟨p1, hfirst, hrest⟩ := h
    rw [addStreamFile] at hfirst
    split at hfirst
    · simp at hfirst
    rename_i stream hstream
    split at hfirst
    · simp at hfirst
    rename_i i hhead
    split at hfirst
    case h_2 => simp at hfirst
    rename_i fso path hfso hpath
    split at hfirst
    · simp at hfirst
    rename_i bytes hbytes
    rw [pure_eq_ok] at hfirst
    have hattached1 : Attached st done p1.objects := by
      subst hfirst
      dsimp only
      split_ifs <;> first | exact hattached | exact hattached.set_setHash hfso _ _
    obtain ⟨h1, h2, files, h3, h4⟩ := ih hattached1 hrest
    subst hfirst
    refine ⟨h1, h2, _ :: files, by rw [h3, List.append_assoc]; rfl, .cons ?_ h4⟩
    exact ⟨stream, i, path, hstream, hhead, hpath, rfl, hbytes⟩

lemma Archiving.step (h : GenerationOfBases env n old firstId bases st) {k : Nat}
    (hk : k < bases.length) (hk' : k < st.streamDict.length) {p p' : ArchiveProgress}
    (hp : Archiving env paths st bases k p)
    (hbase : archiveBase env paths st.heap p (bases.take k).flatten.length bases[k].length
      st.streamDict[k] = .ok p') :
    Archiving env paths st bases (k + 1) p' := by
  have htake : (st.streamDict.take (k + 1)).flatten =
      (st.streamDict.take k).flatten ++ st.streamDict[k] := by
    rw [List.take_succ_eq_append_getElem hk', List.flatten_append, List.flatten_singleton]
  have hbases : (bases.take (k + 1)).flatten = (bases.take k).flatten ++ bases[k] := by
    rw [List.take_succ_eq_append_getElem hk, List.flatten_append, List.flatten_singleton]
  have hattached := hp.attached.foldl_attachStream st.streamDict[k]
  rw [← htake] at hattached
  obtain ⟨h1, h2, files, h3, h4⟩ := addStreamFile_foldlM hattached hbase
  have hobject : ∀ (i : Nat) (g : FileSystemObject),
      (st.streamDict[k].foldl (attachStream st.heap) p.objects)[i]? = some g →
        ∃ f, st.objects[i]? = some f := by
    intro i g hg
    have hlt := (List.getElem?_eq_some_iff.mp hg).1
    exact ⟨_, List.getElem?_eq_getElem (hattached.length ▸ hlt)⟩
  refine ⟨h1, fun v => ?_, ?_⟩
  · rw [h2, mem_foldl_getDependencies, hp.versionDependencies, hbases, List.length_append]
    constructor
    · rintro (⟨i, f, hi, hf, hdep⟩ | ⟨g, hg, hdep⟩)
      · exact ⟨i, f, by omega, hf, hdep⟩
      · obtain ⟨j, hj, hg⟩ := (mem_take_drop _ _ _ g).mp hg
        obtain ⟨f, hf⟩ := hobject _ g hg
        have hi : (bases.take k).flatten.length + j < (bases.take (k + 1)).flatten.length := by
          rw [hbases, List.length_append]
          omega
        refine ⟨_, f, by omega, hf, g.backupStream, settled_of_attached h hattached hi hf hg, ?_⟩
        rwa [← getDependencies_of_same (hattached.same _ f g hf hg)]
    · rintro ⟨i, f, hi, hf, b, hb, hdep⟩
      rcases lt_or_ge i (bases.take k).flatten.length with hlt | hge
      · exact .inl ⟨i, f, hlt, hf, b, hb, hdep⟩
      · have hlt : i < (st.streamDict[k].foldl (attachStream st.heap) p.objects).length := by
          rw [hattached.length]
          exact (List.getElem?_eq_some_iff.mp hf).1
        have hg := List.getElem?_eq_getElem hlt
        have hi' : i < (bases.take (k + 1)).flatten.length := by
          rw [hbases, List.length_append]
          exact hi
        have hsettled := settled_of_attached h hattached hi' hf hg
        refine .inr ⟨_, (mem_take_drop _ _ _ _).mpr ⟨i - (bases.take k).flatten.length, by omega,
          by rw [Nat.add_sub_cancel' hge]; exact hg⟩, ?_⟩
        rw [getDependencies_of_same (hattached.same i f _ hf hg),
          hsettled.unique h.generation hb]
        exact hdep
  · rw [htake, h3]
    exact List.rel_append hp.files h4

theorem Archiving.of_archiveBases (h : GenerationOfBases env n old firstId bases st)
    {p p' : ArchiveProgress} {k : Nat} (hk : k ≤ bases.length)
    (hp : Archiving env paths st bases k p)
    (hloop : archiveBases env paths st.heap p (bases.take k).flatten.length
      ((bases.map List.length).drop k) (st.streamDict.drop k) = .ok p') :
    Archiving env paths st bases bases.length p' := by
  induction hm : bases.length - k generalizing k p with
  | zero =>
    have hk' : k = bases.length := by omega
    subst hk'
    rw [List.drop_of_length_le (by simp), archiveBases.eq_2] at hloop
    · rw [pure_eq_ok] at hloop
      exact hloop ▸ hp
    · nofun
  | succ m ih =>
    have hlt : k < bases.length := by omega
    have hlt' : k < st.streamDict.length := by rw [h.length]; exact hlt
    rw [List.drop_eq_getElem_cons (by simpa using hlt), List.drop_eq_getElem_cons hlt',
      archiveBases, bind_eq_ok] at hloop
    obtain ⟨p1, hbase, hloop⟩ := hloop
    rw [List.getElem_map] at hbase hloop
    refine ih hlt (hp.step h hlt hlt' hbase) ?_ (by omega)
    rw [List.take_succ_eq_append_getElem hlt, List.flatten_append, List.flatten_singleton,
      List.length_append]
    exact hloop

end Archiving

/-! ### The archive -/

/-- An archive and the state of the stream generator that it has been made from. -/
structure ArchiveOf (env : BackupEnv) (n : Int) (old : Option (List FileSystemTree))
    (firstId : Nat) (os : List PathedObject) (st : GenerateState) (a : VersionArchive) : Prop where
  generation : Generation env n old firstId os st
  paths : a.objects.map Prod.fst = os.map Prod.fst
  objects : ∀ (i : Nat) (f : FileSystemObject) (g : PathedObject), st.objects[i]? = some f →
    a.objects[i]? = some g → SameArchived g.2 f
  settled : ∀ (i : Nat) (f : FileSystemObject) (g : PathedObject), st.objects[i]? = some f →
    a.objects[i]? = some g → Settled st i f g.2.backupStream
  versionDependencies : ∀ v, v ∈ a.manifest.versionDependencies ↔
    ∃ i f, st.objects[i]? = some f ∧ DependsOn st i f v
  sorted : a.manifest.versionDependencies.Pairwise (· < ·)
  files : List.Forall₂ (FileOf env (os.map Prod.fst) st) st.kept a.files

section ArchiveOf

variable {firstId : Nat} {os : List PathedObject} {st : GenerateState} {a : VersionArchive}

/-- The objects keep their number. -/
lemma ArchiveOf.length_objects (h : ArchiveOf env n old firstId os st a) :
    a.objects.length = os.length := by
  rw [← List.length_map Prod.fst, h.paths, List.length_map]

/-- Every archived object comes from one that was scanned. -/
lemma ArchiveOf.exists_getElem (h : ArchiveOf env n old firstId os st a) {i : Nat}
    {g : PathedObject} (hg : a.objects[i]? = some g) :
    ∃ o f, os[i]? = some o ∧ st.objects[i]? = some f := by
  have hi : i < os.length := h.length_objects ▸ (List.getElem?_eq_some_iff.mp hg).1
  exact ⟨_, _, List.getElem?_eq_getElem hi,
    List.getElem?_eq_getElem (h.generation.length.symm ▸ hi)⟩

/-- Every object that was scanned is archived, with its paths. -/
lemma ArchiveOf.exists_archived (h : ArchiveOf env n old firstId os st a) {i : Nat}
    {o : PathedObject} (ho : os[i]? = some o) :
    ∃ f g, st.objects[i]? = some f ∧ a.objects[i]? = some g ∧ g.1 = o.1 := by
  have hi := (List.getElem?_eq_some_iff.mp ho).1
  have hg := List.getElem?_eq_getElem (h.length_objects.symm ▸ hi : i < a.objects.length)
  refine ⟨_, _, List.getElem?_eq_getElem (h.generation.length.symm ▸ hi), hg, ?_⟩
  have hpaths := congrArg (fun l => l[i]?) h.paths
  simp only [List.getElem?_map, hg, ho, Option.map_some, Option.some.injEq] at hpaths
  exact hpaths

end ArchiveOf

lemma SameObject.pathKey {fso o : FileSystemObject} (h : SameObject fso o) :
    FileSystemTree.pathKey fso = FileSystemTree.pathKey o := by
  rw [h]
  rfl

/-- The stream generator does not change what paths are made of. -/
lemma GenerationAt.pathKey_eq {firstId : Nat} {os : List PathedObject} {st : GenerateState}
    (h : GenerationAt envs n old firstId os st) :
    st.objects.map FileSystemTree.pathKey = os.map fun o => FileSystemTree.pathKey o.2 := by
  refine List.ext_getElem (by simp [h.length]) fun i hi hi' => ?_
  rw [List.getElem_map, List.getElem_map]
  rw [List.length_map] at hi hi'
  cases h.outcome i os[i] st.objects[i] (List.getElem?_eq_getElem hi')
    (List.getElem?_eq_getElem hi) with
  | excluded _ _ _ hobject | stray _ _ _ _ hobject | peer _ _ _ _ _ _ _ _ _ hobject =>
    rw [hobject]
    rfl
  | first _ _ _ _ _ hsame _ _ hobject =>
    rw [hobject, ← hsame.pathKey]
    rfl

lemma map_eq_map_of_map_eq_map {α β γ : Type} {key : α → β} {f : α → γ}
    (hf : ∀ a b, key a = key b → f a = f b) {as bs : List α} (h : as.map key = bs.map key) :
    as.map f = bs.map f := by
  induction as generalizing bs with
  | nil =>
    rw [List.map_nil, eq_comm, List.map_eq_nil_iff] at h
    rw [h]
  | cons a as ih =>
    cases bs with
    | nil => simp at h
    | cons b bs =>
      rw [List.map_cons, List.map_cons, List.cons.injEq] at h
      rw [List.map_cons, List.map_cons, hf a b h.1, ih h.2]

/-! ### The trees with the archived objects in them -/

/-- What is archived keeps the paths as well. -/
lemma Attached.pathKey_eq {st : GenerateState} {done : List Nat} {objects : List FileSystemObject}
    (h : Attached st done objects) :
    objects.map FileSystemTree.pathKey = st.objects.map FileSystemTree.pathKey := by
  refine List.ext_getElem (by simp [h.length]) fun i hi hi' => ?_
  rw [List.getElem_map, List.getElem_map]
  rw [List.length_map] at hi hi'
  rw [h.same i st.objects[i] objects[i] (List.getElem?_eq_getElem hi')
    (List.getElem?_eq_getElem hi)]
  rfl

lemma map_snd_iterate_flatMap (trees : List FileSystemTree) :
    (trees.flatMap FileSystemTree.iterate).map Prod.snd = trees.flatMap RoseTree.toList := by
  rw [List.map_flatMap]
  exact List.flatMap_congr fun t _ => FileSystemTree.map_snd_iterate t

/-- The objects of refilled trees are those they have been filled with. -/
lemma map_snd_iterate_refillAll (trees : List FileSystemTree) {objects : List FileSystemObject}
    (h : objects.length = (trees.flatMap RoseTree.toList).length) :
    ((RoseTree.refillAll trees objects).flatMap FileSystemTree.iterate).map Prod.snd = objects :=
  (map_snd_iterate_flatMap _).trans (RoseTree.flatMap_toList_refillAll trees h)

/-- Trees keep their paths if they are refilled with objects of the same names. -/
lemma map_fst_iterate_refillAll (trees : List FileSystemTree) {objects : List FileSystemObject}
    (h : objects.map FileSystemTree.pathKey =
      (trees.flatMap RoseTree.toList).map FileSystemTree.pathKey) :
    ((RoseTree.refillAll trees objects).flatMap FileSystemTree.iterate).map Prod.fst =
      (trees.flatMap FileSystemTree.iterate).map Prod.fst := by
  have htrees := RoseTree.map_refillAll FileSystemTree.pathKey trees h
  rw [List.map_flatMap, List.map_flatMap, List.flatMap_def, List.flatMap_def,
    map_eq_map_of_map_eq_map (fun _ _ => FileSystemTree.map_fst_iterate_congr) htrees]

theorem generateArchive_eq_ok {startTime versionNumber : Int} {counters : StreamCounters}
    {baseObjects : List FileSystemTree} {r : GeneratedArchive}
    (h : generateArchive env startTime (generatorFor env n old) versionNumber [] counters
      baseObjects = .ok r) :
    ∃ st, ArchiveOf env n old counters.nextStreamUniqueId
        (baseObjects.flatMap FileSystemTree.iterate) st r.archive ∧
      r.heap = st.heap ∧ r.archive.baseObjects ≠ [] ∧
      r.archive.manifest.firstStreamUniqueId = counters.nextStreamUniqueId ∧
      r.archive.manifest.nextStreamUniqueId = st.nextStreamUniqueId ∧
      r.archive.manifest.versionNumber = versionNumber := by
  rw [generateArchive] at h
  simp only [bind_eq_ok] at h
  obtain ⟨st, hgenerate, p, hloop, h⟩ := h
  split_ifs at h with hempty
  rw [pure_eq_ok] at h
  subst h
  have hbases := GenerationOfBases.of_generateStreams hgenerate
  have hflat : (baseObjects.map FileSystemTree.iterate).flatten =
      baseObjects.flatMap FileSystemTree.iterate := rfl
  have hsizes : baseObjects.map (fun x => x.toList.length) =
      (baseObjects.map FileSystemTree.iterate).map List.length := by
    rw [List.map_map]
    exact List.map_congr_left fun t _ => (FileSystemTree.length_iterate t).symm
  have hstart : Archiving env ((baseObjects.flatMap FileSystemTree.iterate).map Prod.fst) st
      (baseObjects.map FileSystemTree.iterate) 0 ⟨st.objects, ∅, []⟩ :=
    ⟨Attached.nil st, fun v => by simp, .nil⟩
  have harchiving := Archiving.of_archiveBases hbases (Nat.zero_le _) hstart (by
    rw [List.drop_zero, List.drop_zero, ← hsizes]
    exact hloop)
  have hgen := hbases.generation
  rw [hflat] at hgen
  obtain ⟨hattached, hdependencies, hfiles⟩ := harchiving
  have hsettled : ∀ (i : Nat) (f g : FileSystemObject), st.objects[i]? = some f →
      p.objects[i]? = some g → Settled st i f g.backupStream := by
    intro i f g hf hg
    refine settled_of_attached hbases hattached ?_ hf hg
    rw [List.take_length, hflat, ← hgen.length]
    exact (List.getElem?_eq_some_iff.mp hf).1
  have htake : (st.streamDict.take (baseObjects.map FileSystemTree.iterate).length).flatten =
      st.kept := by
    rw [hbases.kept_eq, List.take_of_length_le (by rw [hbases.length])]
  rw [htake] at hattached hfiles
  have hos := map_snd_iterate_flatMap baseObjects
  have hlength : p.objects.length = (baseObjects.flatMap RoseTree.toList).length := by
    rw [hattached.length, hgen.length, ← hos, List.length_map]
  have hkeys : p.objects.map FileSystemTree.pathKey =
      (baseObjects.flatMap RoseTree.toList).map FileSystemTree.pathKey := by
    rw [hattached.pathKey_eq, hgen.pathKey_eq, ← hos, List.map_map]
    rfl
  have hgetElem : ∀ (i : Nat) (g : PathedObject),
      ((RoseTree.refillAll baseObjects p.objects).flatMap FileSystemTree.iterate)[i]? = some g →
        p.objects[i]? = some g.2 := by
    intro i g hg
    rw [← map_snd_iterate_refillAll baseObjects hlength, List.getElem?_map, hg]
    rfl
  refine ⟨st, ⟨hgen, map_fst_iterate_refillAll baseObjects hkeys,
    fun i f g hf hg => hattached.same i f g.2 hf (hgetElem i g hg),
    fun i f g hf hg => hsettled i f g.2 hf (hgetElem i g hg), fun v => ?_, ?_, hfiles⟩, rfl,
      ?_, rfl, rfl, rfl⟩
  · show v ∈ sortedDependencies p.versionDependencies ↔ _
    rw [sortedDependencies, Finset.mem_sort, hdependencies]
    refine exists_congr fun i => exists_congr fun f => and_iff_right_of_imp fun hf => ?_
    have hi := (List.getElem?_eq_some_iff.mp hf.1).1
    rwa [hgen.length, ← hflat, ← List.take_length (l := baseObjects.map _)] at hi
  · exact (Finset.sortedLT_sort _).pairwise
  · have hne : RoseTree.refillAll baseObjects p.objects ≠ [] := by
      rw [← List.length_pos_iff, RoseTree.length_refillAll, List.length_pos_iff]
      exact hempty
    exact hne

end BackupProgram
