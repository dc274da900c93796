import BackupProgram.Native.VssSnapshot

/-!
# Backups with volume snapshots

The constructor of the managed owner throws when a native call fails, and there is then nobody who
could release the native object.
-/

namespace BackupProgram

/-- An exception of the managed side. -/
inductive BackupException where
  | hresult (hres : HResult)
  | native
  | engine (e : EngineError)
deriving DecidableEq

/-- `create_snapshot`: what has happened, the result, and the object if it is handed out. -/
def createSnapshot (o : BeginOutcome) :
    List VssEvent × Except BackupException (HResult × Option VssSnapshot) :=
  let called := VssSnapshot.begin o .new
  let result := match called.result with
    | .ok () => .ok (0, some called.snapshot)
    | .error (.hresult hres) => .ok (hres, none)
    | .error .incorrectUsage => .error .native
  (.allocated :: called.events, result)

/-- `do_snapshot` -/
def doSnapshot (o : VssOutcome) (s : VssSnapshot) : VssSnapshot.Called HResult :=
  let called := VssSnapshot.doSnapshot o.snapshot o.getSnapshotProperties s
  { called with
    result := match called.result with
      | .error (.hresult hres) => .ok hres
      | result => result }

/-- `VolumeSnapshot`, which owns a native object. -/
structure VolumeSnapshot where
  handle : VssSnapshot
  failedVolumes : List Str
  shadows : List Nat

/-- The loop over the volumes, of which `k` have been dealt with. -/
def addVolumes (addToSnapshotSet : Nat → HResult) :
    Nat → List Str → VssSnapshot → List Str → Except BackupException (VssSnapshot × List Str)
  | _, [], s, failedVolumes => .ok (s, failedVolumes)
  | k, volume :: volumes, s, failedVolumes =>
    let called := VssSnapshot.pushTarget k (addToSnapshotSet k) s
    match called.result with
    | .error _ => .error .native
    | .ok error =>
      if error.recoverable then
        addVolumes addToSnapshotSet (k + 1) volumes called.snapshot (failedVolumes ++ [volume])
      else if error.failed then .error (.hresult error)
      else addVolumes addToSnapshotSet (k + 1) volumes called.snapshot failedVolumes

/-- The constructor once it has the native object. -/
def fillVolumeSnapshot (o : VssOutcome) (volumes : List Str) (s : VssSnapshot) :
    List VssEvent × Except BackupException VolumeSnapshot :=
  match addVolumes o.addToSnapshotSet 0 volumes s [] with
  | .error e => ([], .error e)
  | .ok (s, failedVolumes) =>
    let called := doSnapshot o s
    match called.result with
    | .error _ => (called.events, .error .native)
    | .ok error =>
      if error.failed then (called.events, .error (.hresult error))
      else (called.events, .ok ⟨called.snapshot, failedVolumes, called.snapshot.shadows⟩)

/-- The constructor. -/
def volumeSnapshot (o : VssOutcome) (volumes : List Str) :
    List VssEvent × Except BackupException VolumeSnapshot :=
  let (events, created) := createSnapshot o.begin
  match created with
  | .error e => (events, .error e)
  | .ok (error, handle) =>
    if error.failed then (events, .error (.hresult error))
    else
      match handle with
      | none => (events, .error .native)
      | some s =>
        let (events', result) := fillVolumeSnapshot o volumes s
        (events ++ events', result)

/-- `Dispose` -/
def VolumeSnapshot.dispose (o : VssOutcome) (x : VolumeSnapshot) : List VssEvent :=
  x.handle.destroy o.cleanup

/-- `PerformBackup`: what happens to native objects, and the result. `inner` is what
`PerformBackupInner` does with the snapshots. -/
def performBackupWithSnapshots {α : Type} (useSnapshots : Bool) (o : VssOutcome)
    (volumes : List Str) (inner : Option VolumeSnapshot → Except EngineError α) :
    List VssEvent × Except BackupException α :=
  if !useSnapshots then ([], (inner none).mapError .engine)
  else
    match volumeSnapshot o volumes with
    | (events, .error e) => (events, .error e)
    | (events, .ok snapshot) =>
      (events ++ snapshot.dispose o, (inner (some snapshot)).mapError .engine)

/-! ### What is left behind -/

/-- Native objects are released once each, and snapshots that have been made are deleted if that is
possible. -/
structure NothingLeft (events : List VssEvent) : Prop where
  released : events.count .released = events.count .allocated
  deletionAttempted : .performed ∈ events → .deletionAttempted ∈ events

/-- No call fails but for volumes that may be left out. -/
structure VssOutcome.Succeeds (o : VssOutcome) (volumes : List Str) : Prop where
  begin : o.begin.failed = false
  addToSnapshotSet : ∀ k < volumes.length,
    (o.addToSnapshotSet k).failed = false ∨ (o.addToSnapshotSet k).recoverable
  snapshot : o.snapshot.failed = false
  getSnapshotProperties : ∀ k < volumes.length, (o.addToSnapshotSet k).failed = false →
    (o.getSnapshotProperties k).failed = false
  cleanup : o.cleanup.failed = false

/-! ### The constructor -/

lemma createSnapshot_eq (o : BeginOutcome) :
    o.failed = false ∧
        createSnapshot o = ([.allocated], .ok (0, some ⟨.pushingTargets, true, []⟩)) ∨
      o.failed = true ∧ ∃ hres : HResult, hres.failed ∧
        createSnapshot o = ([.allocated], .ok (hres, none)) := by
  obtain ⟨hresult, hevents, hsnapshot⟩ := VssSnapshot.begin_new o
  rw [createSnapshot]
  rcases hresult.cases with ⟨hfailed, heq⟩ | ⟨hfailed, hres, hhres, heq⟩
  · simp only [heq, hevents, hsnapshot hfailed]
    exact .inl ⟨hfailed, trivial⟩
  · simp only [heq, hevents]
    exact .inr ⟨hfailed, hres, hhres, rfl⟩

section AddVolumes

variable {addToSnapshotSet : Nat → HResult} {k : Nat} {volume : Str} {volumes : List Str}
  {s : VssSnapshot} {failedVolumes : List Str}

lemma addVolumes_cons_of_added (hs : s.state = .pushingTargets)
    (h : (addToSnapshotSet k).failed = false) :
    addVolumes addToSnapshotSet k (volume :: volumes) s failedVolumes =
      addVolumes addToSnapshotSet (k + 1) volumes { s with shadows := s.shadows ++ [k] }
        failedVolumes := by
  have hzero : HResult.recoverable 0 = false ∧ HResult.failed 0 = false := by decide
  rw [addVolumes, VssSnapshot.pushTarget, if_neg (by simp [hs]), if_neg (by simp [h])]
  simp only [hzero, Bool.false_eq_true, if_false]

lemma addVolumes_cons_of_recoverable (hs : s.state = .pushingTargets)
    (h : (addToSnapshotSet k).recoverable) :
    addVolumes addToSnapshotSet k (volume :: volumes) s failedVolumes =
      addVolumes addToSnapshotSet (k + 1) volumes s (failedVolumes ++ [volume]) := by
  have hfailed := HResult.failed_of_recoverable h
  obtain ⟨state, vbc, shadows⟩ := s
  obtain rfl : state = .pushingTargets := hs
  rw [addVolumes, VssSnapshot.pushTarget, if_neg (by simp), if_pos hfailed]
  simp only [h, if_true]

lemma addVolumes_cons_of_fatal (hs : s.state = .pushingTargets)
    (h : (addToSnapshotSet k).failed) (h' : (addToSnapshotSet k).recoverable = false) :
    addVolumes addToSnapshotSet k (volume :: volumes) s failedVolumes =
      .error (.hresult (addToSnapshotSet k)) := by
  rw [addVolumes, VssSnapshot.pushTarget, if_neg (by simp [hs]), if_pos h]
  simp only [h, h', Bool.false_eq_true, if_false, if_true]

/-- All volumes have been added or left out, or there is one for which neither is possible. -/
lemma addVolumes_cases (hs : s.state = .pushingTargets) :
    (∀ j < volumes.length, (addToSnapshotSet (k + j)).failed = false ∨
        (addToSnapshotSet (k + j)).recoverable) ∧
      (∃ s' failedVolumes', addVolumes addToSnapshotSet k volumes s failedVolumes =
          .ok (s', failedVolumes') ∧ s'.state = .pushingTargets ∧
        s'.shadows = s.shadows ++
          (List.range' k volumes.length).filter fun j => !(addToSnapshotSet j).failed) ∨
    (¬ ∀ j < volumes.length, (addToSnapshotSet (k + j)).failed = false ∨
        (addToSnapshotSet (k + j)).recoverable) ∧
      ∃ e, addVolumes addToSnapshotSet k volumes s failedVolumes = .error e := by
  induction volumes generalizing k s failedVolumes with
  | nil => exact .inl ⟨nofun, s, failedVolumes, rfl, hs, by simp⟩
  | cons volume volumes ih =>
    have hsplit : (∀ j < (volume :: volumes).length, (addToSnapshotSet (k + j)).failed = false ∨
        (addToSnapshotSet (k + j)).recoverable) ↔
      ((addToSnapshotSet k).failed = false ∨ (addToSnapshotSet k).recoverable) ∧
        ∀ j < volumes.length, (addToSnapshotSet (k + 1 + j)).failed = false ∨
          (addToSnapshotSet (k + 1 + j)).recoverable := by
      rw [List.length_cons, Nat.forall_lt_succ_left]
      simp only [Nat.add_zero, Nat.add_right_comm, Nat.add_assoc]
    rw [hsplit]
    rcases hfailed : (addToSnapshotSet k).failed with _ | _
    · rw [addVolumes_cons_of_added hs hfailed]
      have hrest := @ih (k + 1) { s with shadows := s.shadows ++ [k] } failedVolumes hs
      simpa [hfailed, List.range'_succ] using hrest
    rcases hrecoverable : (addToSnapshotSet k).recoverable with _ | _
    · rw [addVolumes_cons_of_fatal hs hfailed hrecoverable]
      exact .inr ⟨by simp, _, rfl⟩
    · rw [addVolumes_cons_of_recoverable hs hrecoverable]
      have hrest := @ih (k + 1) s (failedVolumes ++ [volume]) hs
      simpa [hfailed, List.range'_succ] using hrest

end AddVolumes

section Constructor

variable {o : VssOutcome} {volumes : List Str}

/-- The part of the constructor that has a native object succeeds, or nothing is kept of it. -/
lemma fillVolumeSnapshot_cases {s : VssSnapshot} (hs : s.state = .pushingTargets)
    (hshadows : s.shadows = []) :
    ((∀ k < volumes.length, (o.addToSnapshotSet k).failed = false ∨
        (o.addToSnapshotSet k).recoverable) ∧ o.snapshot.failed = false ∧
      ∀ k < volumes.length, (o.addToSnapshotSet k).failed = false →
        (o.getSnapshotProperties k).failed = false) ∧
      (∃ x, fillVolumeSnapshot o volumes s = ([.performed], .ok x) ∧
        x.handle.state = .snapshotPerformed) ∨
    ¬ ((∀ k < volumes.length, (o.addToSnapshotSet k).failed = false ∨
        (o.addToSnapshotSet k).recoverable) ∧ o.snapshot.failed = false ∧
      ∀ k < volumes.length, (o.addToSnapshotSet k).failed = false →
        (o.getSnapshotProperties k).failed = false) ∧
      ∃ events e, fillVolumeSnapshot o volumes s = (events, .error e) ∧
        events.count .allocated = 0 ∧ events.count .released = 0 := by
  rw [fillVolumeSnapshot]
  rcases @addVolumes_cases o.addToSnapshotSet 0 volumes s [] hs with
    ⟨hadded, s', failedVolumes, heq, hs', hshadows'⟩ | ⟨hfatal, e, heq⟩
  · simp only [Nat.zero_add] at hadded
    rw [heq]
    rcases VssSnapshot.doSnapshot_of_pushing o.snapshot o.getSnapshotProperties hs' with
      ⟨hsnapshot, hdo⟩ | ⟨hsnapshot, hres, hhres, hdo⟩
    · have hproperties : (VssSnapshot.populateProperties o.getSnapshotProperties
          s'.shadows).failed = false ↔ ∀ k < volumes.length,
            (o.addToSnapshotSet k).failed = false → (o.getSnapshotProperties k).failed = false := by
        rw [VssSnapshot.failed_populateProperties, hshadows', hshadows]
        simp [List.mem_range'_1]
      simp only [doSnapshot, hdo]
      rcases hfailed : (VssSnapshot.populateProperties o.getSnapshotProperties
        s'.shadows).failed with _ | _
      · exact .inl ⟨⟨hadded, hsnapshot, hproperties.mp hfailed⟩, _, rfl, rfl⟩
      · refine .inr ⟨fun h => ?_, _, _, rfl, by decide, by decide⟩
        rw [hproperties.mpr h.2.2] at hfailed
        cases hfailed
    · simp only [doSnapshot, hdo, hhres, if_true]
      refine .inr ⟨fun h => ?_, _, _, rfl, rfl, rfl⟩
      rw [h.2.1] at hsnapshot
      cases hsnapshot
  · simp only [Nat.zero_add] at hfatal
    rw [heq]
    exact .inr ⟨fun h => hfatal h.1, _, _, rfl, rfl, rfl⟩

/-- The constructor succeeds if and only if no call fails, and otherwise leaves a native object
behind. -/
lemma volumeSnapshot_cases (o : VssOutcome) (volumes : List Str) :
    (o.cleanup.failed = false → o.Succeeds volumes) ∧
      (∃ x, volumeSnapshot o volumes = ([.allocated, .performed], .ok x) ∧
        x.handle.state = .snapshotPerformed) ∨
    ¬ o.Succeeds volumes ∧ ∃ events e, volumeSnapshot o volumes = (events, .error e) ∧
      events.count .allocated = 1 ∧ events.count .released = 0 := by
  rw [volumeSnapshot]
  rcases createSnapshot_eq o.begin with ⟨hbegin, heq⟩ | ⟨hbegin, hres, hhres, heq⟩
  · have hzero : HResult.failed 0 = false := by decide
    simp only [heq, hzero, Bool.false_eq_true, if_false]
    rcases @fillVolumeSnapshot_cases o volumes ⟨.pushingTargets, true, []⟩ rfl rfl with
      ⟨⟨hadd, hsnapshot, hproperties⟩, x, hfill, hx⟩ | ⟨hnot, events, e, hfill, hall, hrel⟩
    · rw [hfill]
      exact .inl ⟨fun hcleanup => ⟨hbegin, hadd, hsnapshot, hproperties, hcleanup⟩, x, rfl, hx⟩
    · rw [hfill]
      refine .inr ⟨fun h => hnot ⟨h.addToSnapshotSet, h.snapshot, h.getSnapshotProperties⟩,
        _, e, rfl, ?_, ?_⟩
      · simp [hall]
      · simp [hrel]
  · simp only [heq, hhres, if_true]
    refine .inr ⟨fun h => ?_, _, _, rfl, rfl, rfl⟩
    rw [h.begin] at hbegin
    cases hbegin

end Constructor

/-! ### The whole backup -/

section Backup

variable {α : Type}

/-- A backup allocates no more than one snapshot. -/
lemma count_allocated_le (useSnapshots : Bool) (o : VssOutcome) (volumes : List Str)
    (inner : Option VolumeSnapshot → Except EngineError α) :
    (performBackupWithSnapshots useSnapshots o volumes inner).1.count .allocated ≤ 1 := by
  rw [performBackupWithSnapshots]
  cases useSnapshots with
  | false => simp
  | true =>
    rw [if_neg (by decide)]
    rcases volumeSnapshot_cases o volumes with ⟨-, x, heq, -⟩ | ⟨-, events, e, heq, hall, -⟩
    · simp [heq, VolumeSnapshot.dispose, (x.handle.count_destroy o.cleanup).2]
    · simp [heq, hall]

/-- After a backup, whether it succeeds or not, nothing is left if and only if none of the native
calls has failed in a way that is not allowed for. -/
theorem nothingLeft_iff (useSnapshots : Bool) (o : VssOutcome) (volumes : List Str)
    (inner : Option VolumeSnapshot → Except EngineError α) :
    NothingLeft (performBackupWithSnapshots useSnapshots o volumes inner).1 ↔
      (useSnapshots → o.Succeeds volumes) := by
  rw [performBackupWithSnapshots]
  cases useSnapshots with
  | false => exact iff_of_true ⟨rfl, nofun⟩ nofun
  | true =>
    rw [if_neg (by decide)]
    simp only [forall_const]
    rcases volumeSnapshot_cases o volumes with
      ⟨hsucceeds, x, heq, hx⟩ | ⟨hfails, events, e, heq, hall, hrel⟩
    · have hcount := x.handle.count_destroy o.cleanup
      have hdeletion := VssSnapshot.deletionAttempted_mem_destroy o.cleanup hx
      simp only [heq, VolumeSnapshot.dispose]
      constructor
      · intro h
        refine hsucceeds (hdeletion.mp ?_)
        simpa using h.deletionAttempted (by simp)
      · intro h
        refine ⟨?_, fun _ => List.mem_append_right _ (hdeletion.mpr h.cleanup)⟩
        rw [List.count_append, List.count_append, hcount.1, hcount.2]
        rfl
    · refine iff_of_false (fun h => ?_) hfails
      have hreleased := h.released
      rw [heq, hall, hrel] at hreleased
      cases hreleased

end Backup

/-! ### Snapshots of one volume -/

def AsyncOutcome.ok : AsyncOutcome := ⟨0, 0⟩

/-- Nothing fails but what is asked for the first volume. -/
def outcomeWith (addToSnapshotSet getSnapshotProperties : HResult) : VssOutcome where
  begin := ⟨0, 0, .ok, 0, 0, 0⟩
  addToSnapshotSet _ := addToSnapshotSet
  snapshot := ⟨0, .ok, .ok, 0, .ok⟩
  getSnapshotProperties _ := getSnapshotProperties
  cleanup := ⟨.ok, 0, .ok⟩

/-- `VSS_E_VOLUME_NOT_SUPPORTED` -/
def vssVolumeNotSupported : HResult := 0x8004230C

/-- The volume cannot be part of a snapshot. -/
theorem not_nothingLeft_unsupported :
    ¬ ∀ (useSnapshots : Bool) (o : VssOutcome) (volumes : List Str)
      (inner : Option VolumeSnapshot → Except EngineError Unit),
      NothingLeft (performBackupWithSnapshots useSnapshots o volumes inner).1 := by
  intro h
  have hreleased := (h true (outcomeWith vssVolumeNotSupported 0) [['C', ':', '\\']]
    fun _ => .ok ()).released
  exact absurd hreleased (by decide)

/-- Without their properties the snapshots are of no use, but they stay. -/
example : (performBackupWithSnapshots true (outcomeWith 0 vssVolumeNotSupported) [['C', ':', '\\']]
    fun _ => .ok ()).1 = [.allocated, .performed] := by decide

end BackupProgram
