import BackupProgram.FileSystem.Create
import BackupProgram.Lib.Results

/-!
# Volume snapshots and who releases them

A native object makes the snapshots of some volumes, and deletes them when it is released. Its managed
owner is only disposed of once its constructor has returned.
-/

namespace BackupProgram

open Results

/-- What the system returns. -/
abbrev HResult : Type := BitVec 32

/-- `FAILED` -/
def HResult.failed (hres : HResult) : Bool := hres.toInt < 0

def vssUnexpectedProviderError : HResult := 0x8004230F

def vssNestedVolumeLimit : HResult := 0x8004232C

/-- A volume is left out, and the others may still be added. -/
def HResult.recoverable (hres : HResult) : Bool :=
  hres == vssUnexpectedProviderError || hres == vssNestedVolumeLimit

/-- A call that is waited for. -/
structure AsyncOutcome where
  call : HResult
  wait : HResult

/-! ### What the system does -/

structure BeginOutcome where
  createVssBackupComponents : HResult
  initializeForBackup : HResult
  gatherWriterMetadata : AsyncOutcome
  freeWriterMetadata : HResult
  setContext : HResult
  startSnapshotSet : HResult

structure SnapshotOutcome where
  setBackupState : HResult
  prepareForBackup : AsyncOutcome
  gatherWriterStatus : AsyncOutcome
  freeWriterStatus : HResult
  doSnapshotSet : AsyncOutcome

/-- The calls of the destructor before the one that deletes the snapshots. -/
structure CleanupOutcome where
  gatherWriterStatus : AsyncOutcome
  freeWriterStatus : HResult
  backupComplete : AsyncOutcome

/-- The results of all calls that are made for one object; `addToSnapshotSet` of the volumes in
order, `getSnapshotProperties` of the shadows in order. -/
structure VssOutcome where
  begin : BeginOutcome
  addToSnapshotSet : Nat → HResult
  snapshot : SnapshotOutcome
  getSnapshotProperties : Nat → HResult
  cleanup : CleanupOutcome

/-- What happens to native objects and to snapshot sets. -/
inductive VssEvent where
  | allocated
  | performed
  | deletionAttempted
  | componentsReleased
  | released
deriving DecidableEq, Repr

/-! ### The native object -/

/-- An exception of the native side. -/
inductive VssException where
  | hresult (hres : HResult)
  | incorrectUsage
deriving DecidableEq

/-- `CALL_HRESULT_FUNCTION` -/
def callHresultFunction (hres : HResult) : Except VssException Unit :=
  if hres.failed then throw (.hresult hres) else return ()

/-- `CALL_ASYNC_FUNCTION` -/
def callAsyncFunction (o : AsyncOutcome) : Except VssException Unit := do
  callHresultFunction o.call
  callHresultFunction o.wait

inductive VssState where
  | initial
  | pushingTargets
  | snapshotPerformed
  | cleanedUp
  | invalid
deriving DecidableEq, Repr

/-- `vbc` says whether there are backup components; the shadows are known by the place of their
volumes. -/
structure VssSnapshot where
  state : VssState
  vbc : Bool
  shadows : List Nat
deriving DecidableEq

namespace VssSnapshot

def new : VssSnapshot := ⟨.initial, false, []⟩

/-- The object after a call, what has happened, and the result or an exception. -/
structure Called (α : Type) where
  snapshot : VssSnapshot
  events : List VssEvent
  result : Except VssException α

/-- The calls on the backup components. -/
def beginComponents (o : BeginOutcome) : Except VssException Unit := do
  callHresultFunction o.initializeForBackup
  callAsyncFunction o.gatherWriterMetadata
  callHresultFunction o.freeWriterMetadata
  callHresultFunction o.setContext
  callHresultFunction o.startSnapshotSet

def begin (o : BeginOutcome) (s : VssSnapshot) : Called Unit :=
  if s.state ≠ .initial then ⟨s, [], throw .incorrectUsage⟩
  else
    match callHresultFunction o.createVssBackupComponents with
    | .error e => ⟨{ s with state := .invalid }, [], .error e⟩
    | .ok () =>
      match beginComponents o with
      | .error e => ⟨{ s with state := .invalid, vbc := true }, [], .error e⟩
      | .ok () => ⟨{ s with state := .pushingTargets, vbc := true }, [], .ok ()⟩

/-- The volume that is added is the `k`-th one. -/
def pushTarget (k : Nat) (error : HResult) (s : VssSnapshot) : Called HResult :=
  if s.state ≠ .pushingTargets then ⟨s, [], throw .incorrectUsage⟩
  else if error.failed then
    ⟨{ s with state := if error.recoverable then .pushingTargets else .invalid }, [], .ok error⟩
  else ⟨{ s with shadows := s.shadows ++ [k] }, [], .ok 0⟩

/-- The properties are asked for until that fails. -/
def populateProperties (getSnapshotProperties : Nat → HResult) : List Nat → HResult
  | [] => 0
  | shadow :: shadows =>
    if (getSnapshotProperties shadow).failed then getSnapshotProperties shadow
    else populateProperties getSnapshotProperties shadows

/-- The calls up to the one that makes the snapshots. -/
def snapshotComponents (o : SnapshotOutcome) : Except VssException Unit := do
  callHresultFunction o.setBackupState
  callAsyncFunction o.prepareForBackup
  callAsyncFunction o.gatherWriterStatus
  callHresultFunction o.freeWriterStatus
  callAsyncFunction o.doSnapshotSet

def doSnapshot (o : SnapshotOutcome) (getSnapshotProperties : Nat → HResult) (s : VssSnapshot) :
    Called HResult :=
  if s.state ≠ .pushingTargets then ⟨s, [], throw .incorrectUsage⟩
  else
    match snapshotComponents o with
    | .error e => ⟨{ s with state := .invalid }, [], .error e⟩
    | .ok () =>
      ⟨{ s with state := .snapshotPerformed }, [.performed],
        .ok (populateProperties getSnapshotProperties s.shadows)⟩

def cleanupComponents (o : CleanupOutcome) : Except VssException Unit := do
  callAsyncFunction o.gatherWriterStatus
  callHresultFunction o.freeWriterStatus
  callAsyncFunction o.backupComplete

/-- The destructor. All exceptions are caught, so that it does not matter what comes of the
deletion. -/
def destroy (o : CleanupOutcome) (s : VssSnapshot) : List VssEvent :=
  (if s.state = .snapshotPerformed then
    match cleanupComponents o with
    | .error _ => []
    | .ok () => [.deletionAttempted]
  else []) ++ (if s.vbc then [.componentsReleased] else []) ++ [.released]

end VssSnapshot

/-! ### When calls succeed -/

def AsyncOutcome.failed (o : AsyncOutcome) : Bool := o.call.failed || o.wait.failed

def BeginOutcome.failed (o : BeginOutcome) : Bool :=
  o.createVssBackupComponents.failed || o.initializeForBackup.failed ||
    o.gatherWriterMetadata.failed || o.freeWriterMetadata.failed || o.setContext.failed ||
    o.startSnapshotSet.failed

def SnapshotOutcome.failed (o : SnapshotOutcome) : Bool :=
  o.setBackupState.failed || o.prepareForBackup.failed || o.gatherWriterStatus.failed ||
    o.freeWriterStatus.failed || o.doSnapshotSet.failed

def CleanupOutcome.failed (o : CleanupOutcome) : Bool :=
  o.gatherWriterStatus.failed || o.freeWriterStatus.failed || o.backupComplete.failed

lemma HResult.failed_of_recoverable {hres : HResult} (h : hres.recoverable) : hres.failed := by
  rcases Bool.or_eq_true_iff.mp h with h | h
  · rw [eq_of_beq h]
    decide
  · rw [eq_of_beq h]
    decide

/-- What a sequence of calls comes to: it succeeds, or throws the failure it has met. -/
def Answered (failed : Bool) (x : Except VssException Unit) : Prop :=
  if failed then ∃ hres : HResult, hres.failed ∧ x = .error (.hresult hres) else x = .ok ()

lemma Answered.cases {failed : Bool} {x : Except VssException Unit} (h : Answered failed x) :
    failed = false ∧ x = .ok () ∨
      failed = true ∧ ∃ hres : HResult, hres.failed ∧ x = .error (.hresult hres) := by
  cases failed with
  | true => exact .inr ⟨rfl, h⟩
  | false => exact .inl ⟨rfl, h⟩

lemma answered_callHresultFunction (hres : HResult) :
    Answered hres.failed (callHresultFunction hres) := by
  rw [Answered, callHresultFunction]
  split_ifs with h
  · exact ⟨hres, h, rfl⟩
  · rfl

lemma Answered.bind {failed failed' : Bool} {x y : Except VssException Unit}
    (hx : Answered failed x)
    (hy : Answered failed' y) : Answered (failed || failed') (x >>= fun _ => y) := by
  rw [Answered] at hx
  cases failed with
  | true =>
    obtain ⟨hres, hfailed, rfl⟩ := hx
    exact ⟨hres, hfailed, rfl⟩
  | false =>
    obtain rfl := hx
    exact hy

lemma answered_callAsyncFunction (o : AsyncOutcome) : Answered o.failed (callAsyncFunction o) :=
  (answered_callHresultFunction o.call).bind (answered_callHresultFunction o.wait)

namespace VssSnapshot

lemma answered_snapshotComponents (o : SnapshotOutcome) :
    Answered o.failed (snapshotComponents o) := by
  have h := (answered_callHresultFunction o.setBackupState).bind
    ((answered_callAsyncFunction o.prepareForBackup).bind
      ((answered_callAsyncFunction o.gatherWriterStatus).bind
        ((answered_callHresultFunction o.freeWriterStatus).bind
          (answered_callAsyncFunction o.doSnapshotSet))))
  simpa only [snapshotComponents, SnapshotOutcome.failed, Bool.or_assoc] using h

lemma answered_cleanupComponents (o : CleanupOutcome) :
    Answered o.failed (cleanupComponents o) := by
  have h := (answered_callAsyncFunction o.gatherWriterStatus).bind
    ((answered_callHresultFunction o.freeWriterStatus).bind
      (answered_callAsyncFunction o.backupComplete))
  simpa only [cleanupComponents, CleanupOutcome.failed, Bool.or_assoc] using h

lemma answered_beginComponents (o : BeginOutcome) :
    Answered (o.initializeForBackup.failed || o.gatherWriterMetadata.failed ||
      o.freeWriterMetadata.failed || o.setContext.failed || o.startSnapshotSet.failed)
      (beginComponents o) := by
  have h := (answered_callHresultFunction o.initializeForBackup).bind
    ((answered_callAsyncFunction o.gatherWriterMetadata).bind
      ((answered_callHresultFunction o.freeWriterMetadata).bind
        ((answered_callHresultFunction o.setContext).bind
          (answered_callHresultFunction o.startSnapshotSet))))
  simpa only [beginComponents, Bool.or_assoc] using h

/-- A new object is ready for volumes if nothing fails. -/
lemma begin_new (o : BeginOutcome) : Answered o.failed (begin o new).result ∧
    (begin o new).events = [] ∧
    (o.failed = false → (begin o new).snapshot = ⟨.pushingTargets, true, []⟩) := by
  have hcreate := answered_callHresultFunction o.createVssBackupComponents
  have hcomponents := answered_beginComponents o
  have hor : o.failed = (o.createVssBackupComponents.failed || (o.initializeForBackup.failed ||
      o.gatherWriterMetadata.failed || o.freeWriterMetadata.failed || o.setContext.failed ||
        o.startSnapshotSet.failed)) := by
    simp only [BeginOutcome.failed, Bool.or_assoc]
  rw [hor, begin, if_neg (by simp [new])]
  rcases hcreate.cases with ⟨hfirst, heq⟩ | ⟨hfirst, hres, hfailed, heq⟩
  · rcases hcomponents.cases with ⟨hrest, heq'⟩ | ⟨hrest, hres, hfailed, heq'⟩
    · rw [hfirst, hrest, heq, heq']
      exact ⟨rfl, rfl, fun _ => rfl⟩
    · rw [hfirst, hrest, heq, heq']
      exact ⟨⟨hres, hfailed, rfl⟩, rfl, nofun⟩
  · rw [hfirst, heq, Bool.true_or]
    exact ⟨⟨hres, hfailed, rfl⟩, rfl, nofun⟩

/-- The volumes that have been added, and the snapshots that are made of them. -/
lemma doSnapshot_of_pushing (o : SnapshotOutcome) (getSnapshotProperties : Nat → HResult)
    {s : VssSnapshot} (hs : s.state = .pushingTargets) :
    o.failed = false ∧ doSnapshot o getSnapshotProperties s =
        ⟨{ s with state := .snapshotPerformed }, [.performed],
          .ok (populateProperties getSnapshotProperties s.shadows)⟩ ∨
      o.failed = true ∧ ∃ hres : HResult, hres.failed ∧ doSnapshot o getSnapshotProperties s =
        ⟨{ s with state := .invalid }, [], .error (.hresult hres)⟩ := by
  rw [doSnapshot, if_neg (by simp [hs])]
  rcases (answered_snapshotComponents o).cases with ⟨hfailed, heq⟩ | ⟨hfailed, hres, hhres, heq⟩
  · rw [heq]
    exact .inl ⟨hfailed, rfl⟩
  · rw [heq]
    exact .inr ⟨hfailed, hres, hhres, rfl⟩

lemma failed_populateProperties (getSnapshotProperties : Nat → HResult) (shadows : List Nat) :
    (populateProperties getSnapshotProperties shadows).failed = false ↔
      ∀ shadow ∈ shadows, (getSnapshotProperties shadow).failed = false := by
  induction shadows with
  | nil => exact iff_of_true rfl nofun
  | cons shadow shadows ih =>
    rw [populateProperties, List.forall_mem_cons, ← ih]
    split_ifs with h
    · simp [h]
    · simp [h]

/-- The snapshots are deleted unless something fails before. -/
lemma deletionAttempted_mem_destroy (o : CleanupOutcome) {s : VssSnapshot}
    (hs : s.state = .snapshotPerformed) :
    .deletionAttempted ∈ destroy o s ↔ o.failed = false := by
  rw [destroy, if_pos hs]
  rcases (answered_cleanupComponents o).cases with ⟨hfailed, heq⟩ | ⟨hfailed, hres, hhres, heq⟩
  · rw [heq]
    exact iff_of_true (by simp) hfailed
  · rw [heq, hfailed]
    refine iff_of_false ?_ (by decide)
    cases s.vbc <;> simp

lemma count_destroy (o : CleanupOutcome) (s : VssSnapshot) :
    (destroy o s).count .released = 1 ∧ (destroy o s).count .allocated = 0 := by
  rw [destroy]
  rcases (answered_cleanupComponents o).cases with ⟨-, heq⟩ | ⟨-, hres, -, heq⟩ <;>
    rw [heq] <;> split_ifs <;> simp

end VssSnapshot

end BackupProgram
