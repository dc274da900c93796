import BackupProgram.Archive.ArchiveWriter
import BackupProgram.Engine.Chain

/-!
# Ids of streams

Every version hands out the ids from where the previous one has stopped, one for each stream that it
stores.
-/

namespace BackupProgram

open Results

variable {env : BackupEnv} {n : Int} {old : Option (List FileSystemTree)} {firstId : Nat}
  {os : List PathedObject} {st : GenerateState} {a : VersionArchive}

/-! ### One version -/

/-- The ids of the files of an archive are those of the streams that are kept. -/
lemma ArchiveOf.streamIds (h : ArchiveOf env n old firstId os st a) :
    a.streamIds = List.range' firstId (st.nextStreamUniqueId - firstId) := by
  have hfiles : ∀ {ss : List Nat} {files : List (Nat × List Byte × HashType)},
      List.Forall₂ (FileOf env (os.map Prod.fst) st) ss files →
        ss.map (fun s => st.heap[s]?.map BackupStream.uniqueId) =
          (files.map fun file => file.1).map some := by
    intro ss files hforall
    induction hforall with
    | nil => rfl
    | cons hfile _ ih =>
      obtain ⟨stream, i, path, hstream, -, -, hid, -⟩ := hfile
      rw [List.map_cons, List.map_cons, List.map_cons, ih, hstream, hid]
      rfl
  have hids := (hfiles h.files).symm.trans h.generation.ids
  exact List.map_injective_iff.mpr (Option.some_injective _) hids

/-- Every stream that has data is archived, and the objects that are attached to a stream have its
id. -/
structure StreamsAttached (r : GeneratedArchive) : Prop where
  archived : ∀ (s : Nat) (stream : BackupStream), r.heap[s]? = some stream →
    stream.data.hasData → stream.uniqueId ∈ r.archive.streamIds
  attached : ∀ (s : Nat) (stream : BackupStream) (i : Nat) (o : PathedObject),
    r.heap[s]? = some stream → r.archive.objects[i]? = some o →
      i ∈ stream.fileSystemObjects ∨ o.2.backupStream = some s →
        o.2.streamUniqueId = stream.uniqueId

/-- The objects of a stream have its id. -/
lemma Generation.streamUniqueId_of_has (h : Generation env n old firstId os st) {s i : Nat}
    {stream : BackupStream} {o : PathedObject} {f : FileSystemObject} (ho : os[i]? = some o)
    (hf : st.objects[i]? = some f) (hstream : st.heap[s]? = some stream) (hhas : st.Has s i) :
    f.streamUniqueId = stream.uniqueId := by
  cases h.outcome i o f ho hf with
  | excluded _ _ hnone => exact absurd hhas (hnone s)
  | stray _ _ _ hnone => exact absurd hhas (hnone s)
  | peer _ _ _ _ _ hstream' _ _ honly hobject =>
    rw [← (honly s).mp hhas, hstream, Option.some.injEq] at hstream'
    rw [hobject, hstream']
  | first _ _ hstream' _ honly _ _ _ hobject =>
    rw [← (honly s).mp hhas, hstream, Option.some.injEq] at hstream'
    rw [hobject, hstream']

/-- An object that refers to a stream is one of those of the stream. -/
lemma Generation.has_of_settled (h : Generation env n old firstId os st)
    (hunattached : ∀ o ∈ os, o.2.backupStream = none) {s i : Nat} {o : PathedObject}
    {f : FileSystemObject} (ho : os[i]? = some o) (hf : st.objects[i]? = some f)
    (hsettled : Settled st i f (some s)) : st.Has s i := by
  rcases hsettled with ⟨s', -, hhas, heq⟩ | ⟨hnot, heq⟩
  · rwa [Option.some.inj heq]
  · have hnone := hunattached o (List.mem_of_getElem? ho)
    cases h.outcome i o f ho hf with
    | excluded _ _ _ hobject | stray _ _ _ _ hobject =>
      rw [hobject] at heq
      simp [hnone] at heq
    | @peer s' _ _ _ _ _ _ _ _ _ hstream' _ _ honly hobject =>
      rw [hobject] at heq
      have hs : s' = s := (Option.some.inj heq).symm
      exact hs ▸ (honly s').mpr rfl
    | first _ _ _ _ _ hsame _ _ hobject =>
      rw [hobject, hsame] at heq
      simp [hnone] at heq

lemma ArchiveOf.streamsAttached {r : GeneratedArchive}
    (h : ArchiveOf env n old firstId os st r.archive) (hheap : r.heap = st.heap)
    (hunattached : ∀ o ∈ os, o.2.backupStream = none) : StreamsAttached r where
  archived s stream hstream hdata := by
    rw [hheap] at hstream
    obtain ⟨hge, hlt⟩ := h.generation.uniqueId_bounds hstream hdata
    rw [h.streamIds, List.mem_range'_1]
    omega
  attached s stream i g hstream hg hor := by
    rw [hheap] at hstream
    obtain ⟨o, f, ho, hf⟩ := h.exists_getElem hg
    rw [(h.objects i f g hf hg).streamUniqueId]
    refine h.generation.streamUniqueId_of_has ho hf hstream ?_
    rcases hor with hmem | hrefers
    · exact ⟨stream, hstream, hmem⟩
    · exact h.generation.has_of_settled hunattached ho hf (hrefers ▸ h.settled i f g hf hg)

/-! ### Chains of versions -/

/-- The ids that a version has handed out. -/
structure IdsOfVersion (v : Version) : Prop where
  streamIds : v.archive.streamIds = List.range' v.archive.manifest.firstStreamUniqueId
    (v.archive.manifest.nextStreamUniqueId - v.archive.manifest.firstStreamUniqueId)
  le : v.archive.manifest.firstStreamUniqueId ≤ v.archive.manifest.nextStreamUniqueId

lemma VersionChain.idsOfVersion {vs : List Version} (h : VersionChain vs) {k : Nat} {v : Version}
    (hv : vs[k]? = some v) : IdsOfVersion v ∧ v.archive.manifest.firstStreamUniqueId =
      (BackupCall.startCounters (previousVersion vs k)).nextStreamUniqueId := by
  obtain ⟨r, hr, hv'⟩ := h.newVersion_eq_ok hv
  obtain ⟨baseObjects, st, -, harchive, -, -, hfirst, hnext⟩ := BackupCall.newVersion_eq_ok hr
  rw [hv'] at harchive hfirst hnext
  have hids := harchive.streamIds
  have hle := harchive.generation.firstId_le
  rw [← hfirst, ← hnext] at hids hle
  exact ⟨⟨hids, hle⟩, hfirst⟩

lemma VersionChain.firstStreamUniqueId_succ {vs : List Version} (h : VersionChain vs) {k : Nat}
    {v w : Version} (hv : vs[k]? = some v) (hw : vs[k + 1]? = some w) :
    w.archive.manifest.firstStreamUniqueId = v.archive.manifest.nextStreamUniqueId := by
  rw [(h.idsOfVersion hw).2, previousVersion_succ hv]
  rfl

/-- Later versions have larger ids. -/
lemma VersionChain.nextStreamUniqueId_le {vs : List Version} (h : VersionChain vs) {k l : Nat}
    {v w : Version} (hv : vs[k]? = some v) (hw : vs[l]? = some w) (hlt : k < l) :
    v.archive.manifest.nextStreamUniqueId ≤ w.archive.manifest.firstStreamUniqueId := by
  induction l, hlt using Nat.le_induction generalizing w with
  | base => rw [h.firstStreamUniqueId_succ hv hw]
  | succ l hle ih =>
    have hl : l < vs.length := by
      have := (List.getElem?_eq_some_iff.mp hw).1
      omega
    have hx := List.getElem?_eq_getElem hl
    calc v.archive.manifest.nextStreamUniqueId
        ≤ vs[l].archive.manifest.firstStreamUniqueId := ih hx
      _ ≤ vs[l].archive.manifest.nextStreamUniqueId := (h.idsOfVersion hx).1.le
      _ = w.archive.manifest.firstStreamUniqueId := (h.firstStreamUniqueId_succ hx hw).symm

lemma IdsOfVersion.mem_iff {v : Version} (h : IdsOfVersion v) (id : Nat) :
    id ∈ v.archive.streamIds ↔ v.archive.manifest.firstStreamUniqueId ≤ id ∧
      id < v.archive.manifest.nextStreamUniqueId := by
  have hle := h.le
  rw [h.streamIds, List.mem_range'_1]
  omega

/-- No id is stored in two versions. -/
lemma VersionChain.streamIds_disjoint {vs : List Version} (h : VersionChain vs) {k l : Nat}
    {v w : Version} (hv : vs[k]? = some v) (hw : vs[l]? = some w) (hne : k ≠ l) :
    v.archive.streamIds.Disjoint w.archive.streamIds := by
  intro id hid hid'
  rw [(h.idsOfVersion hv).1.mem_iff] at hid
  rw [(h.idsOfVersion hw).1.mem_iff] at hid'
  rcases hne.lt_or_gt with hlt | hgt
  · have := h.nextStreamUniqueId_le hv hw hlt
    omega
  · have := h.nextStreamUniqueId_le hw hv hgt
    omega

/-- The manifest that is written has the ids of the streams. -/
lemma streamIds_of_writeArchive {archiveEnv : ArchiveEnv FileSystemTree} (hne : a.baseObjects ≠ [])
    {manifest : VersionManifest} {committed : Option (List Byte)}
    (h : ArchiveWriter.writeArchive archiveEnv a.files a.getBaseObjects a.manifest =
      .ok (manifest, committed)) :
    manifest.archiveMetadata.bind ArchiveMetadata.streamIds = some a.streamIds := by
  obtain ⟨rfl, -⟩ := ArchiveWriter.writeArchive_eq_ok (by simpa [VersionArchive.getBaseObjects]) h
  rfl

/-- The ids are handed out one after the other, over all versions: those of a version are the ones
from the first up to the next, in ascending order, in its manifest too; the next one is the first of
the following version; no two versions share one; and all objects of a stream have its id. -/
theorem streamIds_of_freshBackups {culture : Culture} {targetLocation : Str} {vs : List Version}
    {dir : TargetDirectory}
    (h : FreshBackups culture targetLocation vs dir) :
    (∀ (k : Nat) (v : Version), vs[k]? = some v →
      dir.get? (getVersionName k) = some (some v.archive) ∧
      v.archive.streamIds.Pairwise (· < ·) ∧
      (∀ id, id ∈ v.archive.streamIds ↔ v.archive.manifest.firstStreamUniqueId ≤ id ∧
        id < v.archive.manifest.nextStreamUniqueId) ∧
      (∀ archiveEnv manifest committed, ArchiveWriter.writeArchive archiveEnv v.archive.files
          v.archive.getBaseObjects v.archive.manifest = .ok (manifest, committed) →
        manifest.archiveMetadata.bind ArchiveMetadata.streamIds = some v.archive.streamIds) ∧
      ∃ r, v.call.newVersion k (previousVersion vs k) = .ok r ∧ r.archive = v.archive ∧
        StreamsAttached r) ∧
    (∀ (k : Nat) (v w : Version), vs[k]? = some v → vs[k + 1]? = some w →
      w.archive.manifest.firstStreamUniqueId = v.archive.manifest.nextStreamUniqueId) ∧
    ∀ (k l : Nat) (v w : Version), vs[k]? = some v → vs[l]? = some w → k ≠ l →
      v.archive.streamIds.Disjoint w.archive.streamIds := by
  have hchain := h.hasChain.chain
  refine ⟨fun k v hv => ?_, fun k v w => hchain.firstStreamUniqueId_succ,
    fun k l v w => hchain.streamIds_disjoint⟩
  have hids := (hchain.idsOfVersion hv).1
  obtain ⟨r, hr, hv'⟩ := hchain.newVersion_eq_ok hv
  obtain ⟨baseObjects, st, hbase, harchive, hheap, hne, -⟩ := BackupCall.newVersion_eq_ok hr
  refine ⟨h.hasChain.present k v hv, ?_, hids.mem_iff,
    fun archiveEnv manifest committed hwrite => ?_, r, hr, hv', harchive.streamsAttached hheap fun o ho =>
      (BackupCall.created_of_baseObjects hbase o ho).2⟩
  · rw [hids.streamIds]
    exact List.pairwise_lt_range'
  · exact streamIds_of_writeArchive (hv' ▸ hne) hwrite

/-- The second of two backups stores nothing. -/
theorem streamIds_directory : ∃ r1 r2,
    (fileBackup [['C', ':', '\\', 'd']]).newVersion 0 none = .ok r1 ∧
      (fileBackup [['C', ':', '\\', 'd']]).newVersion 1 (some r1.archive) = .ok r2 ∧
      r1.archive.streamIds = [1] ∧ r2.archive.streamIds = [] ∧
      r2.archive.manifest.firstStreamUniqueId = r1.archive.manifest.nextStreamUniqueId := by
  obtain ⟨r1, r2, hr1, hr2, -, hruns⟩ := exists_freshBackups_directory
  have hsucc := (streamIds_of_freshBackups hruns).2.1 0 _ _ rfl rfl
  obtain ⟨r1', r2', hr1', hr2', h1, h2⟩ : ∃ r1 r2,
      (fileBackup [['C', ':', '\\', 'd']]).newVersion 0 none = .ok r1 ∧
      (fileBackup [['C', ':', '\\', 'd']]).newVersion 1 (some r1.archive) = .ok r2 ∧
      r1.archive.streamIds = [1] ∧ r2.archive.streamIds = [] := ⟨_, _, rfl, rfl, rfl, rfl⟩
  rw [hr1, Except.ok.injEq] at hr1'
  subst hr1'
  rw [hr2, Except.ok.injEq] at hr2'
  subst hr2'
  exact ⟨r1, r2, hr1, hr2, h1, h2, hsucc⟩

end BackupProgram
