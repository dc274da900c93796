import BackupProgram.Engine.References

/-!
# Hashes of stored files

Without a snapshot a file may be modified while a backup is made. Its hash is computed when it is
archived, unless that has been done already when the file was examined for changes.
-/

namespace BackupProgram

open Results

/-! ### Backups of files that are modified -/

/-- The file system while an object is examined, and while its file is archived, by the position of
the object. -/
structure Schedule where
  examined : Nat → FileSystemView
  archived : Nat → FileSystemView

/-- The same surroundings with another file system. -/
def BackupEnv.withFs (env : BackupEnv) (fs : FileSystemView) : BackupEnv := { env with fs := fs }

/-- The object is the first one of the stream. -/
def GenerateState.Heads (st : GenerateState) (s i : Nat) : Prop :=
  ∃ stream, st.heap[s]? = some stream ∧ stream.fileSystemObjects.head? = some i

section Schedule

variable (env : BackupEnv) (schedule : Schedule)

/-- `addStreamFile`, while the file system is the one for the first object of the stream. -/
def addStreamFileAt (paths : List ObjectPaths) (heap : List BackupStream) (p : ArchiveProgress)
    (s : Nat) : Except EngineError ArchiveProgress :=
  match heap[s]?.bind fun backupStream => backupStream.fileSystemObjects.head? with
  | none => throw .argumentOutOfRange
  | some i => addStreamFile (env.withFs (schedule.archived i)) paths heap p s

/-- `archiveBase` -/
def archiveBaseAt (paths : List ObjectPaths) (heap : List BackupStream) (p : ArchiveProgress)
    (start size : Nat) (streams : List Nat) : Except EngineError ArchiveProgress :=
  let objects := streams.foldl (attachStream heap) p.objects
  let versionDependencies :=
    ((objects.drop start).take size).foldl (getDependencies heap) p.versionDependencies
  streams.foldlM (addStreamFileAt env schedule paths heap)
    { p with objects := objects, versionDependencies := versionDependencies }

/-- `archiveBases` -/
def archiveBasesAt (paths : List ObjectPaths) (heap : List BackupStream) :
    ArchiveProgress → Nat → List Nat → List (List Nat) → Except EngineError ArchiveProgress
  | p, start, size :: sizes, streams :: streamDict => do
    let p ← archiveBaseAt env schedule paths heap p start size streams
    archiveBasesAt paths heap p (start + size) sizes streamDict
  | p, _, _, _ => return p

/-- `GenerateArchive`, up to the files that are added; what comes after that reads no files. -/
def archiveFilesAt (n : Int) (old : Option (List FileSystemTree)) (nextStreamUniqueId : Nat)
    (baseObjects : List FileSystemTree) :
    Except EngineError (GenerateState × ArchiveProgress) := do
  let st ← generateStreams (generatorAt (fun i => env.withFs (schedule.examined i)) n old) []
    nextStreamUniqueId baseObjects
  let paths := (baseObjects.flatMap FileSystemTree.iterate).map Prod.fst
  let p ← archiveBasesAt env schedule paths st.heap ⟨st.objects, ∅, []⟩ 0
    (baseObjects.map fun x => x.toList.length) st.streamDict
  return (st, p)

end Schedule

/-- A file system that nobody modifies. -/
def Schedule.const (fs : FileSystemView) : Schedule := ⟨fun _ => fs, fun _ => fs⟩

section Const

variable (env : BackupEnv) (paths : List ObjectPaths) (heap : List BackupStream)

lemma addStreamFileAt_const (p : ArchiveProgress) (s : Nat) :
    addStreamFileAt env (.const env.fs) paths heap p s = addStreamFile env paths heap p s := by
  cases hs : heap[s]? with
  | none => simp only [addStreamFileAt, addStreamFile, hs, Option.bind_none]
  | some backupStream =>
    cases hhead : backupStream.fileSystemObjects.head? with
    | none => simp only [addStreamFileAt, addStreamFile, hs, hhead, Option.bind_some]
    | some i =>
      simp only [addStreamFileAt, hs, hhead, Option.bind_some]
      rfl

lemma archiveBasesAt_const (p : ArchiveProgress) (start : Nat) (sizes : List Nat)
    (streamDict : List (List Nat)) :
    archiveBasesAt env (.const env.fs) paths heap p start sizes streamDict =
      archiveBases env paths heap p start sizes streamDict := by
  have hbase : archiveBaseAt env (.const env.fs) paths heap = archiveBase env paths heap := by
    have hadd : addStreamFileAt env (.const env.fs) paths heap = addStreamFile env paths heap :=
      funext fun p => funext fun s => addStreamFileAt_const env paths heap p s
    funext p start size streams
    rw [archiveBaseAt, archiveBase, hadd]
  induction sizes generalizing p start streamDict with
  | nil => cases streamDict <;> rfl
  | cons size sizes ih =>
    cases streamDict with
    | nil => rfl
    | cons streams streamDict => simp only [archiveBasesAt, archiveBases, hbase, ih]

end Const

/-- While nobody modifies the files, these are the files and the objects of the archive. -/
theorem archiveFilesAt_of_generateArchive {env : BackupEnv} {startTime n versionNumber : Int}
    {old : Option (List FileSystemTree)} {counters : StreamCounters}
    {baseObjects : List FileSystemTree} {r : GeneratedArchive}
    (h : generateArchive env startTime (generatorFor env n old) versionNumber [] counters
      baseObjects = .ok r) :
    ∃ st p, archiveFilesAt env (.const env.fs) n old counters.nextStreamUniqueId baseObjects =
        .ok (st, p) ∧ r.heap = st.heap ∧ r.archive.files = p.files ∧
      r.archive.baseObjects = RoseTree.refillAll baseObjects p.objects := by
  rw [generateArchive] at h
  simp only [bind_eq_ok] at h
  obtain ⟨st, hgenerate, p, hloop, h⟩ := h
  split_ifs at h with hempty
  rw [pure_eq_ok] at h
  subst h
  refine ⟨st, p, ?_, rfl, rfl, rfl⟩
  simp only [archiveFilesAt, archiveBasesAt_const, bind_eq_ok, pure_eq_ok]
  exact ⟨st, hgenerate, p, hloop, rfl⟩

/-! ### Hashes of objects -/

namespace FileSystemObject

lemma lookup_map_replace {type type' : HashType} {digest : List Byte}
    (hashes : List (HashType × List Byte)) :
    (hashes.map fun kv => if kv.1 = type then (type, digest) else kv).lookup type' =
      if type' = type then (hashes.lookup type').map fun _ => digest else hashes.lookup type' := by
  induction hashes with
  | nil => simp
  | cons kv hashes ih =>
    rw [List.map_cons, List.lookup_cons, List.lookup_cons, ih]
    by_cases hkv : kv.1 = type
    · by_cases htype : type' = type
      · subst htype
        simp [hkv]
      · have hne : (type' == type) = false := beq_false_of_ne htype
        simp [hkv, htype, hne]
    · by_cases htype : type' = type
      · subst htype
        have hne : (type' == kv.1) = false := beq_false_of_ne (Ne.symm hkv)
        simp [hkv, hne]
      · simp [hkv, htype]

/-- Setting a hash leaves those of other types alone. -/
lemma lookup_setHash (fso : FileSystemObject) (type type' : HashType) (digest : List Byte) :
    (fso.setHash type digest).hashes.lookup type' =
      if type' = type then some digest else fso.hashes.lookup type' := by
  rw [setHash]
  split_ifs with hsome htype
  · obtain ⟨old, hold⟩ := Option.isSome_iff_exists.mp hsome
    simp only [lookup_map_replace, if_pos htype]
    rw [htype, hold]
    rfl
  · simp only [lookup_map_replace, if_neg htype]
  · rw [Bool.not_eq_true, Option.isSome_eq_false_iff, Option.isNone_iff_eq_none] at hsome
    rename_i htype
    subst htype
    rw [List.lookup_append, hsome, Option.none_or, List.lookup_cons, beq_self_eq_true]
  · rename_i htype
    have hne : (type' == type) = false := beq_false_of_ne htype
    simp only [List.lookup_append, List.lookup_cons, hne, List.lookup_nil]
    exact Option.or_none

end FileSystemObject

/-! ### Hashes that are known before a file is archived -/

section Before

variable {env : BackupEnv} {n : Int} {old : Option (List FileSystemTree)} {o : PathedObject}

/-- A file is hashed when it is examined if there is no old file, or if the hashes are compared and
the old file has one of the type that is recorded. -/
def hashedBefore (env : BackupEnv) (n : Int) : Option (List FileSystemTree) → PathedObject → Bool
  | none, _ => false
  | some oldObjects, o =>
    o.2.backupMode != .forceFull && env.hashAlgorithm != .none &&
      match findPath env.culture oldObjects o.1.mappedPath with
      | none => true
      | some oldFile =>
        env.getChangeCriterium (o.1, { o.2 with latestVersion := n }) == .hash &&
          oldFile.hashes.head?.map Prod.fst == some env.hashAlgorithm

/-- The hash that a file has before it is archived: the one it has been created with, or else that
of the bytes it has had when it was examined. -/
def hashBefore (env : BackupEnv) (n : Int) (old : Option (List FileSystemTree))
    (o : PathedObject) : Option (List Byte) :=
  (o.2.hashes.lookup env.hashAlgorithm).or
    (if hashedBefore env n old o then
      (env.fs.readFile o.1.mappedPath).map (env.hash env.hashAlgorithm)
    else none)

lemma lookup_computeHash {type : HashType} {digest : Option (List Byte)} {fso : FileSystemObject}
    (h : computeHash env o type = .ok (digest, fso)) (hfile : o.2.isDirectoryish = false)
    (type' : HashType) :
    fso.hashes.lookup type' = (o.2.hashes.lookup type').or
      (if type' ≠ .none ∧ type = type' then
        (env.fs.readFile o.1.mappedPath).map (env.hash type')
      else none) := by
  rw [computeHash, if_neg (by rw [hfile]; decide)] at h
  split at h
  · rename_i digest' hlookup
    simp only [pure_eq_ok, Prod.mk.injEq] at h
    rw [← h.2]
    split_ifs with htype
    · rw [← htype.2, hlookup, Option.some_or]
    · exact Option.or_none.symm
  rename_i hlookup
  by_cases htype : type = .none
  · simp only [htype, if_true, ite_throw_eq_ok, pure_eq_ok, Prod.mk.injEq] at h
    rw [← h.2.2, if_neg (by rintro ⟨hne, heq⟩; exact hne (heq ▸ htype)), Option.or_none]
  · simp only [if_neg htype] at h
    split at h
    · rename_i bytes hread
      simp only [pure_eq_ok, Prod.mk.injEq] at h
      rw [← h.2, FileSystemObject.lookup_setHash, hread]
      by_cases heq : type = type'
      · subst heq
        simp [htype, hlookup]
      · simp [heq, Ne.symm heq]
    · rename_i hread
      simp only [ite_throw_eq_ok, pure_eq_ok, Prod.mk.injEq] at h
      rw [← h.2.2, hread, Option.map_none, ite_self, Option.or_none]

/-- An object that gets data has been hashed or not, but nothing else. -/
lemma lookup_choose {fso : FileSystemObject} (hfile : o.2.isDirectoryish = false)
    (h : choose env old (o.1, { o.2 with latestVersion := n }) = .ok (fso, .full)) :
    fso.hashes.lookup env.hashAlgorithm = hashBefore env n old o := by
  rw [hashBefore]
  cases old with
  | none =>
    simp only [choose, pure_eq_ok, Prod.mk.injEq] at h
    rw [← h.1, hashedBefore, if_neg (by decide), Option.or_none]
  | some oldObjects =>
    simp only [choose, chooseStream] at h
    split at h
    case isFalse hmode =>
      rw [ne_eq, not_not] at hmode
      simp only [ok_bind, hmode, pure, Except.pure, Except.ok.injEq, Prod.mk.injEq] at h
      simp [← h.1, hashedBefore, hmode]
    case isTrue hmode =>
      simp only [bind_eq_ok, pure_eq_ok] at h
      obtain ⟨⟨changed, v, fso2⟩, hchanged, _, rfl, h⟩ := h
      have hmode' : o.2.backupMode ≠ .forceFull := hmode
      cases changed with
      | false => simp at h
      | true =>
        have hfso : fso2 = fso := by
          simp only [if_true] at h
          split at h <;> simp at h <;> exact h
        subst hfso
        rw [fileHasChanged] at hchanged
        split at hchanged
        · rename_i hfind
          simp only [bind_eq_ok, pure_eq_ok, Prod.mk.injEq] at hchanged
          obtain ⟨⟨digest, fso'⟩, hcompute, -, -, rfl⟩ := hchanged
          rw [lookup_computeHash hcompute (by exact hfile)]
          simp [hashedBefore, hmode', hfind]
        · rename_i oldFile hfind
          simp only [bind_eq_ok] at hchanged
          obtain ⟨⟨ret, fso'⟩, happly, hchanged⟩ := hchanged
          cases ret with
          | false => simp at hchanged
          | true =>
            simp only [if_true, pure_eq_ok, Prod.mk.injEq] at hchanged
            obtain ⟨-, -, rfl⟩ := hchanged
            rw [applyCriterium] at happly
            split at happly
            case h_4 hcriterium =>
              rw [compareHashes] at happly
              split at happly
              · rename_i hhashes
                simp only [pure_eq_ok, Prod.mk.injEq] at happly
                simp [← happly.2, hashedBefore, hfind, hhashes]
              · rename_i kv _ hhashes
                simp only [bind_eq_ok] at happly
                obtain ⟨⟨digest, fso1⟩, hcompute, happly⟩ := happly
                cases digest with
                | none => simp at happly
                | some digest =>
                  simp only [pure_eq_ok, Prod.mk.injEq] at happly
                  rw [← happly.2, lookup_computeHash hcompute (by exact hfile)]
                  simp [hashedBefore, hmode', hfind, hhashes, hcriterium]
            all_goals
              rename_i hcriterium
              simp only [pure_eq_ok, Prod.mk.injEq] at happly
              simp [← happly.2, hashedBefore, hfind, hcriterium]

end Before

/-! ### Files that are archived -/

section Archived

variable {env : BackupEnv} {schedule : Schedule} {n : Int} {old : Option (List FileSystemTree)}
  {firstId : Nat} {paths : List ObjectPaths} {st : GenerateState} {att done : List Nat}
  {p p' : ArchiveProgress}

/-- The hash that a file has after it has been archived. -/
def hashAfter (env : BackupEnv) (before : Option (List Byte)) (bytes : List Byte) :
    Option (List Byte) :=
  before.or
    (if env.hashAlgorithm = .none then none else some (env.hash env.hashAlgorithm bytes))

lemma hashAfter_hashAfter (before : Option (List Byte)) (bytes : List Byte) :
    hashAfter env (hashAfter env before bytes) bytes = hashAfter env before bytes := by
  rw [hashAfter, hashAfter, Option.or_assoc, Option.or_self]

/-- The streams of the list have been archived, and their first objects have hashes. -/
structure Hashing (env : BackupEnv) (schedule : Schedule) (paths : List ObjectPaths)
    (st : GenerateState) (att done : List Nat) (p : ArchiveProgress) : Prop where
  attached : Attached st att p.objects
  recorded : ∀ (i : Nat) (f g : FileSystemObject) (path : ObjectPaths) (bytes : List Byte),
    st.objects[i]? = some f → p.objects[i]? = some g → paths[i]? = some path →
    (schedule.archived i).readFile path.mappedPath = some bytes → (∃ s ∈ done, st.Heads s i) →
      g.hashes.lookup env.hashAlgorithm =
        hashAfter env (f.hashes.lookup env.hashAlgorithm) bytes
  untouched : ∀ (i : Nat) (f g : FileSystemObject), st.objects[i]? = some f →
    p.objects[i]? = some g → (∀ s ∈ done, ¬ st.Heads s i) →
      g.hashes.lookup env.hashAlgorithm = f.hashes.lookup env.hashAlgorithm
  files : List.Forall₂ (fun s file => ∃ i, st.Heads s i ∧
    FileOf (env.withFs (schedule.archived i)) paths st s file) done p.files

/-- One file is archived: its object gets the hash, the others stay what they are. -/
lemma addStreamFileAt_eq_ok {s : Nat}
    (hfiles : ∀ i f, st.Heads s i → p.objects[i]? = some f → f.isDirectoryish = false)
    (h : addStreamFileAt env schedule paths st.heap p s = .ok p') :
    ∃ i path bytes file, st.Heads s i ∧ paths[i]? = some path ∧
      (schedule.archived i).readFile path.mappedPath = some bytes ∧
      FileOf (env.withFs (schedule.archived i)) paths st s file ∧ p'.files = p.files ++ [file] ∧
      (∀ att, Attached st att p.objects → Attached st att p'.objects) ∧
      (∀ j, j ≠ i → p'.objects[j]? = p.objects[j]?) ∧
      ∀ g', p'.objects[i]? = some g' → ∃ g, p.objects[i]? = some g ∧
        g'.hashes.lookup env.hashAlgorithm =
          hashAfter env (g.hashes.lookup env.hashAlgorithm) bytes := by
  rw [addStreamFileAt] at h
  split at h
  · simp at h
  rename_i i hi
  obtain ⟨stream, hstream, hhead⟩ := Option.bind_eq_some_iff.mp hi
  have hheads : st.Heads s i := ⟨stream, hstream, hhead⟩
  simp only [addStreamFile, hstream, hhead] at h
  split at h
  case h_2 => simp at h
  rename_i fso path hfso hpath
  have hfile := hfiles i fso hheads hfso
  have hhash : fso.getHash env.hashAlgorithm = fso.hashes.lookup env.hashAlgorithm := by
    rw [FileSystemObject.getHash, if_neg (by rw [hfile]; decide)]
  simp only [BackupEnv.withFs] at h
  split at h
  · simp at h
  rename_i bytes hread
  rw [pure_eq_ok] at h
  obtain ⟨type, htype, hobjects, hadded⟩ : ∃ type,
      (if (fso.getHash env.hashAlgorithm).isNone then env.hashAlgorithm else .none) = type ∧
      p'.objects = (if type = .none then p.objects
        else p.objects.set i (fso.setHash env.hashAlgorithm (env.hash type bytes))) ∧
      p'.files = p.files ++ [(stream.uniqueId, bytes, type)] :=
    ⟨_, rfl, h ▸ rfl, h ▸ rfl⟩
  refine ⟨i, path, bytes, (stream.uniqueId, bytes, type), hheads, hpath, hread,
    ⟨stream, i, path, hstream, hhead, hpath, rfl, hread⟩, hadded, fun att hatt => ?_,
    fun j hj => ?_, fun g' hg' => ?_⟩
  · rw [hobjects]
    split_ifs
    · exact hatt
    · exact hatt.set_setHash hfso _ _
  · rw [hobjects]
    split_ifs
    · rfl
    · exact List.getElem?_set_ne hj.symm
  · refine ⟨fso, hfso, ?_⟩
    rw [hobjects] at hg'
    rw [hhash] at htype
    cases hlookup : fso.hashes.lookup env.hashAlgorithm with
    | some digest =>
      rw [hlookup, Option.isNone_some, if_neg (by decide)] at htype
      rw [if_pos htype.symm, hfso, Option.some.injEq] at hg'
      rw [← hg', hlookup, hashAfter, Option.some_or]
    | none =>
      rw [hlookup, Option.isNone_none, if_pos rfl] at htype
      rw [hashAfter, Option.none_or, htype]
      split_ifs at hg' ⊢
      · rw [hfso, Option.some.injEq] at hg'
        rw [← hg', ← htype, hlookup]
      · rw [List.getElem?_set_self (List.getElem?_eq_some_iff.mp hfso).1, Option.some.injEq] at hg'
        rw [← hg', FileSystemObject.lookup_setHash, if_pos htype.symm]

lemma GenerateState.Heads.unique {s i j : Nat} (hi : st.Heads s i) (hj : st.Heads s j) : i = j := by
  obtain ⟨stream, hstream, hhead⟩ := hi
  obtain ⟨stream', hstream', hhead'⟩ := hj
  rw [hstream, Option.some.injEq] at hstream'
  rw [← hstream', hhead, Option.some.injEq] at hhead'
  exact hhead'

lemma Hashing.step
    (hfiles : ∀ s i f, st.Heads s i → st.objects[i]? = some f → f.isDirectoryish = false) {s : Nat}
    (h : Hashing env schedule paths st att done p)
    (hstep : addStreamFileAt env schedule paths st.heap p s = .ok p') :
    Hashing env schedule paths st att (done ++ [s]) p' := by
  have hobject : ∀ (i : Nat) (g : FileSystemObject), p.objects[i]? = some g →
      ∃ f, st.objects[i]? = some f ∧ SameArchived g f := by
    intro i g hg
    have hlt := h.attached.length ▸ (List.getElem?_eq_some_iff.mp hg).1
    have hf := List.getElem?_eq_getElem hlt
    exact ⟨_, hf, h.attached.same i _ g hf hg⟩
  obtain ⟨i, path, bytes, file, hheads, hpath, hread, hfile, hadded, hattached, hothers, hhash⟩ :=
    addStreamFileAt_eq_ok (fun i g hheads hg => by
      obtain ⟨f, hf, hsame⟩ := hobject i g hg
      have htype : g.isDirectoryish = f.isDirectoryish := by rw [hsame]; rfl
      exact htype.trans (hfiles s i f hheads hf)) hstep
  refine ⟨hattached att h.attached, fun j f g' path' bytes' hf hg' hpath' hread' hex => ?_,
    fun j f g' hf hg' hnone => ?_, ?_⟩
  · rcases eq_or_ne j i with rfl | hne
    · obtain ⟨g, hg, heq⟩ := hhash g' hg'
      rw [hpath, Option.some.injEq] at hpath'
      subst hpath'
      rw [hread, Option.some.injEq] at hread'
      subst hread'
      by_cases hdone : ∃ s ∈ done, st.Heads s j
      · rw [heq, h.recorded j f g path bytes hf hg hpath hread hdone, hashAfter_hashAfter]
      · push Not at hdone
        rw [heq, h.untouched j f g hf hg hdone]
    · rw [hothers j hne] at hg'
      obtain ⟨s', hs', hheads'⟩ := hex
      refine h.recorded j f g' path' bytes' hf hg' hpath' hread' ⟨s', ?_, hheads'⟩
      rcases List.mem_append.mp hs' with hs' | hs'
      · exact hs'
      · rw [List.mem_singleton] at hs'
        exact absurd (hheads'.unique (hs' ▸ hheads)) hne
  · have hne : j ≠ i := by
      rintro rfl
      exact hnone s (by simp) hheads
    rw [hothers j hne] at hg'
    exact h.untouched j f g' hf hg' fun s' hs' => hnone s' (List.mem_append_left _ hs')
  · rw [hadded]
    exact List.rel_append h.files (.cons ⟨i, hheads, hfile⟩ .nil)

lemma hashes_foldl_attachStream {objects : List FileSystemObject} {ss : List Nat} {i : Nat}
    {g : FileSystemObject} (hg : (ss.foldl (attachStream st.heap) objects)[i]? = some g) :
    ∃ g0, objects[i]? = some g0 ∧ g.hashes = g0.hashes := by
  induction ss generalizing objects with
  | nil => exact ⟨g, hg, rfl⟩
  | cons s ss ih =>
    obtain ⟨g1, hg1, hhashes⟩ := ih hg
    obtain ⟨g0, hg0, ⟨-, rfl⟩ | ⟨-, rfl⟩⟩ :=
      Attached.getElem_attachStream hg1
    · exact ⟨g0, hg0, hhashes⟩
    · exact ⟨g1, hg0, hhashes⟩

/-- One base object. -/
lemma Hashing.of_archiveBaseAt
    (hfiles : ∀ s i f, st.Heads s i → st.objects[i]? = some f → f.isDirectoryish = false)
    {start size : Nat} {streams : List Nat} (h : Hashing env schedule paths st att done p)
    (hbase : archiveBaseAt env schedule paths st.heap p start size streams = .ok p') :
    Hashing env schedule paths st (att ++ streams) (done ++ streams) p' := by
  rw [archiveBaseAt] at hbase
  refine foldlM_induction (P := fun done => Hashing env schedule paths st (att ++ streams) done)
    (fun pre s p1 p2 hp1 hstep => hp1.step hfiles hstep) ?_ hbase
  refine ⟨h.attached.foldl_attachStream streams, fun i f g path bytes hf hg hpath hread hex => ?_,
    fun i f g hf hg hnone => ?_, h.files⟩
  · obtain ⟨g0, hg0, hhashes⟩ := hashes_foldl_attachStream hg
    rw [hhashes]
    exact h.recorded i f g0 path bytes hf hg0 hpath hread hex
  · obtain ⟨g0, hg0, hhashes⟩ := hashes_foldl_attachStream hg
    rw [hhashes]
    exact h.untouched i f g0 hf hg0 hnone

lemma Hashing.of_archiveBasesAt
    (hfiles : ∀ s i f, st.Heads s i → st.objects[i]? = some f → f.isDirectoryish = false)
    {start : Nat} {sizes : List Nat} {streamDict : List (List Nat)}
    (hlength : sizes.length = streamDict.length) (h : Hashing env schedule paths st att done p)
    (hloop : archiveBasesAt env schedule paths st.heap p start sizes streamDict = .ok p') :
    Hashing env schedule paths st (att ++ streamDict.flatten) (done ++ streamDict.flatten) p' := by
  induction streamDict generalizing p start sizes att done with
  | nil =>
    obtain rfl := List.length_eq_zero_iff.mp hlength
    rw [archiveBasesAt, pure_eq_ok] at hloop
    · rw [List.flatten_nil, List.append_nil, List.append_nil, ← hloop]
      exact h
    · nofun
  | cons streams streamDict ih =>
    cases sizes with
    | nil => simp at hlength
    | cons size sizes =>
      rw [archiveBasesAt, bind_eq_ok] at hloop
      obtain ⟨p1, hbase, hloop⟩ := hloop
      have key := ih (by simpa using hlength) (h.of_archiveBaseAt hfiles hbase) hloop
      rwa [List.append_assoc, List.append_assoc] at key

end Archived

/-! ### Which hashes describe what is stored -/

/-- The data of an object are stored: it is included and the first of its names, and it has to be
stored, or is not called unchanged. -/
def StoredInFull (env : BackupEnv) (n : Int) (old : Option (List FileSystemTree))
    (os : List PathedObject) (i : Nat) (o : PathedObject) : Prop :=
  o.2.isIncluded ∧ ¬ Earlier os i o ∧ ∀ oldObjects, old = some oldObjects →
    o.2.backupMode = .forceFull ∨
      o.2.backupMode = .full ∧ ∀ oldFile, ¬ Unchanged env n oldObjects o oldFile

/-- The files of the archive, in order, are those of the streams that have data. The first object of
each refers to the stream, and has the hash of the bytes that are stored. -/
def HashesDescribe (env : BackupEnv) (st : GenerateState) (p : ArchiveProgress) : Prop :=
  List.Forall₂ (fun s file => ∃ stream i g, st.heap[s]? = some stream ∧
    stream.fileSystemObjects.head? = some i ∧ p.objects[i]? = some g ∧ g.backupStream = some s ∧
    stream.uniqueId = file.1 ∧
    g.getHash env.hashAlgorithm = some (env.hash env.hashAlgorithm file.2.1)) st.kept p.files

section Describe

variable {env : BackupEnv} {envs : Nat → BackupEnv} {schedule : Schedule} {n : Int}
  {old : Option (List FileSystemTree)} {firstId : Nat} {os : List PathedObject}
  {st : GenerateState} {p : ArchiveProgress} {i : Nat} {o : PathedObject}

lemma isDirectoryish_of_isIncluded {fso : FileSystemObject} (h : fso.isIncluded) :
    fso.isDirectoryish = false := by
  simp only [FileSystemObject.isIncluded, Bool.and_eq_true, Bool.not_eq_true'] at h
  exact h.1.1

/-- The objects whose data are stored are those in front of the streams that are kept. -/
lemma GenerationAt.storedInFull_iff (h : GenerationAt envs n old firstId os st)
    (ho : os[i]? = some o) :
    StoredInFull (envs i) n old os i o ↔ ∃ s ∈ st.kept, st.Heads s i := by
  have hi : i < st.objects.length := h.length ▸ (List.getElem?_eq_some_iff.mp ho).1
  have hf := List.getElem?_eq_getElem hi
  constructor
  · rintro ⟨hincluded, hnew, hfull⟩
    obtain ⟨s, stream, hstream, hhead⟩ := h.exists_head ho hincluded hnew
    obtain ⟨fso, -, -, -, hchosen, -⟩ := h.outcome_head hstream hhead ho hf
    refine ⟨s, (h.kept s).mpr ⟨stream, hstream, ?_⟩, stream, hstream, hhead⟩
    generalize stream.data = data at hchosen
    cases hchosen with
    | initial | forced | changed => rfl
    | unchanged hmode hunchanged =>
      obtain ⟨oldFile, hcalled, -⟩ := unchanged_of_fileHasChanged hunchanged
      rcases hfull _ rfl with hforced | ⟨-, hnot⟩
      · exact absurd hforced hmode
      · exact absurd hcalled (hnot oldFile)
    | declared hmode =>
      rcases hfull _ rfl with hmode' | ⟨hmode', -⟩ <;> simp [hmode] at hmode'
  · rintro ⟨s, hs, stream, hstream, hhead⟩
    obtain ⟨stream', hstream', hdata⟩ := (h.kept s).mp hs
    rw [hstream, Option.some.injEq] at hstream'
    subst hstream'
    obtain ⟨fso, hincluded, hnew, -, hchosen, -⟩ := h.outcome_head hstream hhead ho hf
    refine ⟨hincluded, hnew, fun oldObjects hold => ?_⟩
    subst hold
    generalize stream.data = data at hchosen hdata
    cases hchosen with
    | forced hmode => exact .inl hmode
    | changed hmode hchanged =>
      exact .inr ⟨hmode, fun oldFile => not_unchanged_of_fileHasChanged hchanged⟩
    | unchanged | declared => simp [StreamData.hasData] at hdata

/-- The hash that the first object of a stream has before its file is archived. -/
lemma GenerationAt.lookup_head (h : GenerationAt envs n old firstId os st) {s : Nat}
    {f : FileSystemObject} (hs : s ∈ st.kept) (hheads : st.Heads s i) (ho : os[i]? = some o)
    (hf : st.objects[i]? = some f) : f.isDirectoryish = false ∧
      f.hashes.lookup (envs i).hashAlgorithm = hashBefore (envs i) n old o := by
  obtain ⟨stream, hstream, hhead⟩ := hheads
  obtain ⟨stream', hstream', hdata⟩ := (h.kept s).mp hs
  rw [hstream, Option.some.injEq] at hstream'
  subst hstream'
  have hhas : st.Has s i := ⟨stream, hstream, List.mem_of_head? hhead⟩
  cases h.outcome i o f ho hf with
  | excluded _ _ hnone | stray _ _ _ hnone => exact absurd hhas (hnone s)
  | peer _ hk _ _ _ hstream' hhead' _ honly =>
    rw [← (honly s).mp hhas, hstream, Option.some.injEq] at hstream'
    rw [← hstream', hhead, Option.some.injEq] at hhead'
    exact absurd hhead' hk.ne'
  | @first _ _ fso hincluded _ hstream' _ honly hsame _ _ hobject hchoose =>
    rw [← (honly s).mp hhas, hstream, Option.some.injEq] at hstream'
    subst hstream'
    have hfile := isDirectoryish_of_isIncluded hincluded
    have hfull : stream.data = .full := by
      cases hfull : stream.data with
      | full => rfl
      | unmodified v => simp [hfull, StreamData.hasData] at hdata
    rw [hfull] at hchoose
    have hdirectoryish : f.isDirectoryish = o.2.isDirectoryish := by
      rw [hobject, hsame]
      rfl
    have hhashes : f.hashes = fso.hashes := by rw [hobject]
    refine ⟨hdirectoryish.trans hfile, ?_⟩
    rw [hhashes]
    exact lookup_choose hfile hchoose

/-- Only files have streams. -/
lemma GenerationAt.isDirectoryish_head (h : GenerationAt envs n old firstId os st) {s : Nat}
    {f : FileSystemObject} (hheads : st.Heads s i) (hf : st.objects[i]? = some f) :
    f.isDirectoryish = false := by
  obtain ⟨stream, hstream, hhead⟩ := hheads
  have hi : i < os.length := h.length ▸ (List.getElem?_eq_some_iff.mp hf).1
  obtain ⟨fso, hincluded, -, hsame, -, -, hobject⟩ :=
    h.outcome_head hstream hhead (List.getElem?_eq_getElem hi) hf
  have hdirectoryish : f.isDirectoryish = os[i].2.isDirectoryish := by
    rw [hobject, hsame]
    rfl
  exact hdirectoryish.trans (isDirectoryish_of_isIncluded hincluded)

/-- The files of an archive, each with the first object of its stream. -/
lemma Hashing.forall₂_files
    (hgen : GenerationAt (fun i => env.withFs (schedule.examined i)) n old firstId os st)
    (h : Hashing env schedule (os.map Prod.fst) st st.kept st.kept p) :
    List.Forall₂ (fun s file => ∃ stream i o g, st.heap[s]? = some stream ∧
      stream.fileSystemObjects.head? = some i ∧ os[i]? = some o ∧ p.objects[i]? = some g ∧
      g.backupStream = some s ∧ stream.uniqueId = file.1 ∧
      (schedule.archived i).readFile o.1.mappedPath = some file.2.1 ∧
      StoredInFull (env.withFs (schedule.examined i)) n old os i o ∧
      g.getHash env.hashAlgorithm = hashAfter env
        (hashBefore (env.withFs (schedule.examined i)) n old o) file.2.1) st.kept p.files := by
  have hfiles := (List.forall₂_and_left _ _).mpr ⟨fun s hs => hs, h.files⟩
  refine hfiles.imp fun s file ⟨hs, i, hheads, stream, i', path, hstream, hhead, hpath, hid, hread⟩ => ?_
  obtain rfl := hheads.unique ⟨stream, hstream, hhead⟩
  rw [List.getElem?_map, Option.map_eq_some_iff] at hpath
  obtain ⟨o, ho, rfl⟩ := hpath
  have hi : i < st.objects.length := hgen.length.symm ▸ (List.getElem?_eq_some_iff.mp ho).1
  have hi' : i < p.objects.length := h.attached.length.symm ▸ hi
  have hf := List.getElem?_eq_getElem hi
  have hg := List.getElem?_eq_getElem hi'
  obtain ⟨hfile, hbefore⟩ := hgen.lookup_head hs hheads ho hf
  have hhas : st.Has s i := ⟨stream, hstream, List.mem_of_head? hhead⟩
  obtain ⟨s', -, hhas', hattached⟩ := h.attached.attached i _ hg ⟨s, hs, hhas⟩
  have hdirectoryish : p.objects[i].isDirectoryish = st.objects[i].isDirectoryish := by
    rw [h.attached.same i _ _ hf hg]
    rfl
  refine ⟨stream, i, o, _, hstream, hhead, ho, hg, hgen.has_unique hhas' hhas ▸ hattached, hid.symm,
    hread, (hgen.storedInFull_iff ho).mpr ⟨s, hs, hheads⟩, ?_⟩
  rw [FileSystemObject.getHash, if_neg (by rw [hdirectoryish, hfile]; decide),
    h.recorded i _ _ o.1 file.2.1 hf hg (by rw [List.getElem?_map, ho]; rfl) hread ⟨s, hs, hheads⟩]
  exact congrArg (fun before => hashAfter env before file.2.1) hbefore

lemma hashAfter_eq_some_iff {before : Option (List Byte)} {bytes : List Byte} :
    hashAfter env before bytes = some (env.hash env.hashAlgorithm bytes) ↔
      (before = none → env.hashAlgorithm ≠ .none) ∧
        ∀ digest, before = some digest → digest = env.hash env.hashAlgorithm bytes := by
  cases before with
  | none =>
    by_cases htype : env.hashAlgorithm = .none <;> simp [hashAfter, htype]
  | some digest => simp [hashAfter]

end Describe

/-- Whatever happens to the files meanwhile, the recorded hashes are those of the stored bytes if
and only if this is so for the files that have a hash before they are archived. -/
theorem hashesDescribe_iff {env : BackupEnv} {schedule : Schedule} {n : Int}
    {old : Option (List FileSystemTree)} {firstId : Nat} {baseObjects : List FileSystemTree}
    {st : GenerateState} {p : ArchiveProgress}
    (h : archiveFilesAt env schedule n old firstId baseObjects = .ok (st, p)) :
    (∀ s : Nat, s ∈ st.kept ↔ ∃ stream, st.heap[s]? = some stream ∧ stream.data.hasData) ∧
    (HashesDescribe env st p ↔ ∀ (i : Nat) (o : PathedObject) (bytes : List Byte),
      (baseObjects.flatMap FileSystemTree.iterate)[i]? = some o →
      StoredInFull (env.withFs (schedule.examined i)) n old
        (baseObjects.flatMap FileSystemTree.iterate) i o →
      (schedule.archived i).readFile o.1.mappedPath = some bytes →
        (hashBefore (env.withFs (schedule.examined i)) n old o = none → env.hashAlgorithm ≠ .none) ∧
        ∀ digest, hashBefore (env.withFs (schedule.examined i)) n old o = some digest →
          digest = env.hash env.hashAlgorithm bytes) := by
  simp only [archiveFilesAt, bind_eq_ok, pure_eq_ok, Prod.mk.injEq] at h
  obtain ⟨st, hgenerate, p, hloop, rfl, rfl⟩ := h
  have hbases := GenerationOfBasesAt.of_generateStreams hgenerate
  have hgen : GenerationAt (fun i => env.withFs (schedule.examined i)) n old firstId
      (baseObjects.flatMap FileSystemTree.iterate) st := hbases.generation
  have hhashing : Hashing env schedule
      ((baseObjects.flatMap FileSystemTree.iterate).map Prod.fst) st [] []
      ⟨st.objects, ∅, []⟩ :=
    ⟨Attached.nil st, fun _ _ _ _ _ _ _ _ _ hs => by simp at hs,
      fun i f g hf hg _ => by rw [Option.some.inj (hf.symm.trans hg)], .nil⟩
  replace hhashing := hhashing.of_archiveBasesAt
    (fun s i f hheads hf => hgen.isDirectoryish_head hheads hf)
    (by rw [hbases.length, List.length_map, List.length_map]) hloop
  rw [List.nil_append, ← hbases.kept_eq] at hhashing
  have hall := hhashing.forall₂_files hgen
  refine ⟨hgen.kept, fun hdescribe i o bytes ho hstored hread => ?_, fun hbefore => ?_⟩
  · obtain ⟨s, hs, stream, hstream, hhead⟩ := (hgen.storedInFull_iff ho).mp hstored
    obtain ⟨j, hj, rfl⟩ := List.getElem_of_mem hs
    have hj' : j < p.files.length := hall.length_eq ▸ hj
    obtain ⟨stream', i', o', g, hstream', hhead', ho', hg, -, -, hread', -, hhash⟩ :=
      (List.forall₂_iff_get.mp hall).2 j hj hj'
    obtain ⟨stream'', i'', g', hstream'', hhead'', hg', -, -, hhash'⟩ :=
      (List.forall₂_iff_get.mp hdescribe).2 j hj hj'
    rw [List.get_eq_getElem] at hstream' hstream''
    obtain rfl : i = i' :=
      GenerateState.Heads.unique ⟨stream, hstream, hhead⟩ ⟨stream', hstream', hhead'⟩
    obtain rfl : i = i'' :=
      GenerateState.Heads.unique ⟨stream, hstream, hhead⟩ ⟨stream'', hstream'', hhead''⟩
    obtain rfl := Option.some.inj (ho.symm.trans ho')
    obtain rfl := Option.some.inj (hg.symm.trans hg')
    obtain rfl := Option.some.inj (hread.symm.trans hread')
    exact hashAfter_eq_some_iff.mp (hhash.symm.trans hhash')
  · refine hall.imp ?_
    rintro s file ⟨stream, i, o, g, hstream, hhead, ho, hg, hattached, hid, hread, hstored, hhash⟩
    refine ⟨stream, i, g, hstream, hhead, hg, hattached, hid, ?_⟩
    rw [hhash]
    exact hashAfter_eq_some_iff.mpr (hbefore i o _ ho hstored hread)

/-! ### A file that grows -/

/-- A file that is not known from a former version, and that has other bytes when it is archived
than when it is examined. -/
def modifiedFile (before after : List Byte) : Schedule where
  examined _ := ⟨fun _ => none, fun _ => .failed, fun _ => some before⟩
  archived _ := ⟨fun _ => none, fun _ => .failed, fun _ => some after⟩

/-- A version with one file, after one with an empty directory. -/
def secondFiles (schedule : Schedule) : Except EngineError (GenerateState × ArchiveProgress) :=
  archiveFilesAt (.plain ⟨fun _ => none, fun _ => .failed, fun _ => none⟩ fun _ => .full) schedule 1
    (some [⟨{ type := .directory, name := ['d'], backupMode := .directory }, .nil⟩]) 1
    [⟨{ type := .regularFile, name := ['a'], backupMode := .full }, .nil⟩]

/-- A file that nobody modifies has the hash of what is stored. -/
theorem hashesDescribe_unmodified : ∃ st p, secondFiles (modifiedFile [1] [1]) = .ok (st, p) ∧
    HashesDescribe
      (.plain ⟨fun _ => none, fun _ => .failed, fun _ => none⟩ fun _ => .full) st p := by
  obtain ⟨st, p, h⟩ : ∃ st p, secondFiles (modifiedFile [1] [1]) = .ok (st, p) := ⟨_, _, rfl⟩
  refine ⟨st, p, h, (hashesDescribe_iff h).2.mpr fun i o bytes ho _ hread => ?_⟩
  have hbytes : [1] = bytes := Option.some.inj hread
  subst hbytes
  match i, ho with
  | 0, ho =>
    obtain rfl := Option.some.inj ho
    exact ⟨fun _ => by decide, fun digest hdigest => (Option.some.inj hdigest).symm⟩

/-- The hash is that of the bytes that the file had when it was examined. -/
theorem not_hashesDescribe_modified : ∃ st p, secondFiles (modifiedFile [1] [2]) = .ok (st, p) ∧
    ¬ HashesDescribe (.plain ⟨fun _ => none, fun _ => .failed, fun _ => none⟩ fun _ => .full)
      st p := by
  obtain ⟨st, p, s, stream, file, g, h, hkept, hfiles, hstream, hhead, hg, hbytes, hhash⟩ :
      ∃ st p s stream file g, secondFiles (modifiedFile [1] [2]) = .ok (st, p) ∧ st.kept = [s] ∧
        p.files = [file] ∧ st.heap[s]? = some stream ∧ stream.fileSystemObjects.head? = some 0 ∧
        p.objects[0]? = some g ∧ file.2.1 = [2] ∧
        g.getHash .sha256 = some (List.replicate 32 1) :=
    ⟨_, _, _, _, _, _, rfl, rfl, rfl, rfl, rfl, rfl, rfl, rfl⟩
  refine ⟨st, p, h, fun hdescribe => ?_⟩
  rw [HashesDescribe, hkept, hfiles, List.forall₂_cons] at hdescribe
  obtain ⟨⟨stream', i, g', hstream', hhead', hg', -, -, hhash'⟩, -⟩ := hdescribe
  obtain rfl := Option.some.inj (hstream.symm.trans hstream')
  obtain rfl := Option.some.inj (hhead.symm.trans hhead')
  obtain rfl := Option.some.inj (hg.symm.trans hg')
  have hsame := hhash.symm.trans hhash'
  rw [hbytes] at hsame
  exact absurd hsame (by decide)

end BackupProgram
