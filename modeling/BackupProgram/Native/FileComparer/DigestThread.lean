import BackupProgram.Lib.Schedules
import BackupProgram.Native.FileComparer.Digest

/-!
# The comparer and the digest thread

The comparer pushes the blocks of the new file to the queue and sets the event after each of them,
and at last pushes an empty buffer without setting it. The digest thread takes buffers from the
queue and waits for the event when there are none. Both step on one state, in any order.
-/

namespace BackupProgram

open Schedules RsyncableFile

namespace DigestThread

inductive Party where
  | comparer
  | worker
deriving DecidableEq

/-- Where the comparer stands; `rest` are the blocks it has yet to push. -/
inductive ComparerAt where
  /-- in front of the locked part of `process_new_buffer` -/
  | pushing (buffer : SimpleBuffer) (rest : List SimpleBuffer)
  /-- in front of `event.set` -/
  | setting (rest : List SimpleBuffer)
  /-- in front of the unlocked push of `request_thread_stop` -/
  | stopping
  /-- in `WaitForSingleObject` on the thread -/
  | joining
  | finished

def ComparerAt.next : List SimpleBuffer → ComparerAt
  | [] => .stopping
  | buffer :: rest => .pushing buffer rest

/-- Where the digest thread stands. -/
inductive WorkerAt where
  /-- in front of the locked look at the queue -/
  | looking
  /-- in `event.wait` -/
  | waiting
  | ended
deriving DecidableEq

/-- What the two threads share, with the local variables of `thread_func`; `popped` records the
buffers that have left the queue. -/
structure State where
  comparer : ComparerAt
  worker : WorkerAt
  processingQueue : List SimpleBuffer
  event : Bool
  offset : Nat
  newSha1 : List Byte
  newDigest : Digest
  newTable : List RsyncTableItem
  popped : List SimpleBuffer

/-- The blocks that the comparer pushes, up to the end of its part of the work. -/
def pushed (c : FileComparer) : List SimpleBuffer := (c.processNewBuffer true).processingQueue

/-- The state after `started`; `c` is the comparer at the end of its loop. -/
def started (c : FileComparer) : State where
  comparer := .next (pushed c)
  worker := .looking
  processingQueue := []
  event := false
  offset := 0
  newSha1 := []
  newDigest := c.newDigest
  newTable := c.newTable
  popped := []

def comparerStep (s : State) : Option State :=
  match s.comparer with
  | .pushing buffer rest =>
    some { s with
      processingQueue := s.processingQueue ++ [buffer]
      comparer := .setting rest }
  | .setting rest => some { s with event := true, comparer := .next rest }
  | .stopping =>
    some { s with
      processingQueue := s.processingQueue ++ [SimpleBuffer.new 0]
      comparer := .joining }
  | .joining => if s.worker = .ended then some { s with comparer := .finished } else none
  | .finished => none

/-- What is done with a buffer that has an array. -/
def digest (sha1 : List Byte → Digest) (buffer : SimpleBuffer) (s : State) : State :=
  { s with
    newTable := s.newTable ++
      [{ rollingChecksum := computeRsyncRollingChecksum buffer.bytes
         complexHash := sha1 buffer.bytes
         fileOffset := s.offset }]
    newSha1 := s.newSha1 ++ buffer.bytes
    offset := s.offset + buffer.bytes.length }

/-- A look at the queue takes its first buffer and works on it; the event resets itself when a wait
is over. -/
def workerStep (sha1 : List Byte → Digest) (s : State) : Option State :=
  match s.worker with
  | .looking =>
    match s.processingQueue with
    | [] => some { s with worker := .waiting }
    | buffer :: queue =>
      let s := { s with processingQueue := queue, popped := s.popped ++ [buffer] }
      if !buffer.isAllocated then
        some { s with
          newDigest := sha1 s.newSha1
          newTable := sortTable s.newTable
          worker := .ended }
      else some (digest sha1 buffer s)
  | .waiting => if s.event then some { s with event := false, worker := .looking } else none
  | .ended => none

def step (sha1 : List Byte → Digest) : Party → State → Option State
  | .comparer => comparerStep
  | .worker => workerStep sha1

/-- The digest thread looks at an empty queue when the comparer has set the event for the last time,
that signal is spent, and the empty buffer is not there yet. -/
structure LooksTooEarly (p : Party) (s : State) : Prop where
  party : p = .worker
  worker : s.worker = .looking
  queue : s.processingQueue = []
  comparer : s.comparer = .stopping
  event : s.event = false

/-- Nobody can go on, and the comparer is still waiting for the digest thread. -/
def Stuck (sha1 : List Byte → Digest) (s : State) : Prop :=
  Halted (step sha1) s ∧ s.comparer ≠ .finished

/-! ### What the queue holds -/

/-- The buffers that are still to be pushed. -/
def ComparerAt.toPush : ComparerAt → List SimpleBuffer
  | .pushing buffer rest => buffer :: rest ++ [SimpleBuffer.new 0]
  | .setting rest => rest ++ [SimpleBuffer.new 0]
  | .stopping => [SimpleBuffer.new 0]
  | .joining | .finished => []

@[simp] lemma toPush_pushing (buffer : SimpleBuffer) (rest : List SimpleBuffer) :
    (ComparerAt.pushing buffer rest).toPush = buffer :: (rest ++ [SimpleBuffer.new 0]) := rfl

@[simp] lemma toPush_setting (rest : List SimpleBuffer) :
    (ComparerAt.setting rest).toPush = rest ++ [SimpleBuffer.new 0] := rfl

@[simp] lemma toPush_stopping : ComparerAt.stopping.toPush = [SimpleBuffer.new 0] := rfl

@[simp] lemma toPush_joining : ComparerAt.joining.toPush = [] := rfl

@[simp] lemma toPush_finished : ComparerAt.finished.toPush = [] := rfl

@[simp] lemma toPush_next (rest : List SimpleBuffer) :
    (ComparerAt.next rest).toPush = rest ++ [SimpleBuffer.new 0] := by
  cases rest <;> rfl

variable {sha1 : List Byte → Digest} {c : FileComparer} {s s' : State}

lemma finished_eq (whole : List Byte) (newTable : List RsyncTableItem)
    (h : FileComparer.threadLoop sha1 (pushed c ++ [SimpleBuffer.new 0]) 0 [] c.newTable =
      (whole, newTable)) :
    (c.finished sha1).newDigest = sha1 whole ∧ (c.finished sha1).newTable = sortTable newTable := by
  have hnewTable : c.requestThreadStop.newTable = c.newTable := rfl
  have hloop : FileComparer.threadLoop sha1 c.requestThreadStop.processingQueue 0 []
      c.requestThreadStop.newTable = (whole, newTable) := by
    rw [hnewTable]
    exact h
  rw [FileComparer.finished, FileComparer.threadFunc, hloop]
  exact ⟨rfl, rfl⟩

/-- No buffer is lost, doubled or overtaken, and the digest thread is on its way to what `finished`
computes. -/
structure Consistent (sha1 : List Byte → Digest) (c : FileComparer) (s : State) : Prop where
  buffers : s.popped ++ (s.processingQueue ++ s.comparer.toPush) = pushed c ++ [SimpleBuffer.new 0]
  allocated : s.worker ≠ .ended → ∀ b ∈ s.popped, b.isAllocated = true
  computing : s.worker ≠ .ended →
    FileComparer.threadLoop sha1 (s.processingQueue ++ s.comparer.toPush) s.offset s.newSha1
        s.newTable =
      FileComparer.threadLoop sha1 (pushed c ++ [SimpleBuffer.new 0]) 0 [] c.newTable
  ended : s.worker = .ended → s.popped = pushed c ++ [SimpleBuffer.new 0] ∧
    s.newDigest = (c.finished sha1).newDigest ∧ s.newTable = (c.finished sha1).newTable
  joined : s.comparer = .finished → s.worker = .ended

lemma consistent_started : Consistent sha1 c (started c) where
  buffers := by simp [started]
  allocated _ b hb := by cases hb
  computing _ := by simp [started]
  ended h := by cases h
  joined h := by
    rw [started] at h
    cases hpushed : pushed c <;> simp [hpushed, ComparerAt.next] at h

/-- A buffer without an array is the last one. -/
lemma eq_nil_of_not_isAllocated (hpushed : ∀ b ∈ pushed c, b.isAllocated = true)
    {buffer : SimpleBuffer} {before after : List SimpleBuffer}
    (h : before ++ buffer :: after = pushed c ++ [SimpleBuffer.new 0])
    (hbuffer : buffer.isAllocated = false) : after = [] := by
  rcases List.eq_nil_or_concat after with rfl | ⟨init, last, rfl⟩
  · rfl
  · have hinit : before ++ buffer :: init = pushed c := by
      have hconcat : (before ++ buffer :: init) ++ [last] = pushed c ++ [SimpleBuffer.new 0] := by
        simpa using h
      exact (List.append_inj' hconcat rfl).1
    have hmem : buffer ∈ pushed c := hinit ▸ by simp
    rw [hpushed buffer hmem] at hbuffer
    cases hbuffer

lemma Consistent.comparerStep (h : Consistent sha1 c s) (hstep : comparerStep s = some s') :
    Consistent sha1 c s' := by
  obtain ⟨hbuffers, hallocated, hcomputing, hended, hjoined⟩ := h
  rw [DigestThread.comparerStep] at hstep
  split at hstep
  case h_1 buffer rest hcomparer =>
    cases hstep
    rw [hcomparer] at hbuffers hcomputing
    exact ⟨by simpa using hbuffers, hallocated,
      by simpa using hcomputing, hended, fun h => by cases h⟩
  case h_2 rest hcomparer =>
    cases hstep
    rw [hcomparer] at hbuffers hcomputing
    refine ⟨by simpa using hbuffers, hallocated,
      by simpa using hcomputing, hended, fun h => ?_⟩
    cases rest <;> cases h
  case h_3 hcomparer =>
    cases hstep
    rw [hcomparer] at hbuffers hcomputing
    exact ⟨by simpa using hbuffers, hallocated,
      by simpa using hcomputing, hended, fun h => by cases h⟩
  case h_4 hcomparer =>
    split_ifs at hstep with hworker
    cases hstep
    rw [hcomparer] at hbuffers hcomputing
    exact ⟨by simpa using hbuffers, hallocated,
      by simpa using hcomputing, hended, fun _ => hworker⟩
  case h_5 => cases hstep

lemma Consistent.workerStep (hpushed : ∀ b ∈ pushed c, b.isAllocated = true)
    (h : Consistent sha1 c s) (hstep : workerStep sha1 s = some s') : Consistent sha1 c s' := by
  obtain ⟨hbuffers, hallocated, hcomputing, hended, hjoined⟩ := h
  rw [DigestThread.workerStep] at hstep
  split at hstep
  case h_1 hworker =>
    have hlooking : s.worker ≠ .ended := by rw [hworker]; decide
    have hopen : s.comparer ≠ .finished := fun h => hlooking (hjoined h)
    specialize hallocated hlooking
    specialize hcomputing hlooking
    split at hstep
    case h_1 hqueue =>
      cases hstep
      exact ⟨hbuffers, fun _ => hallocated, fun _ => hcomputing, fun h => (by cases h),
        fun h => absurd h hopen⟩
    case h_2 buffer queue hqueue =>
      rw [hqueue] at hbuffers hcomputing
      have hrest : (s.popped ++ [buffer]) ++ (queue ++ s.comparer.toPush) =
          pushed c ++ [SimpleBuffer.new 0] := by
        simpa using hbuffers
      rw [List.cons_append, FileComparer.threadLoop] at hcomputing
      cases hbuffer : buffer.isAllocated with
      | true =>
        simp only [hbuffer, Bool.not_true, Bool.false_eq_true, if_false] at hstep hcomputing
        cases hstep
        refine ⟨hrest, fun _ b hb => ?_, fun _ => hcomputing, fun h => absurd h hlooking,
          fun h => absurd h hopen⟩
        rcases List.mem_append.mp hb with hb | hb
        · exact hallocated b hb
        · rwa [List.mem_singleton.mp hb]
      | false =>
        -- the empty buffer
        simp only [hbuffer, Bool.not_false, if_true] at hstep hcomputing
        cases hstep
        have hnil : queue ++ s.comparer.toPush = [] :=
          eq_nil_of_not_isAllocated hpushed hbuffers hbuffer
        obtain ⟨hdigest, htable⟩ := finished_eq _ _ hcomputing.symm
        refine ⟨hrest, fun h => absurd rfl h, fun h => absurd rfl h,
          fun _ => ⟨?_, hdigest.symm, htable.symm⟩, fun _ => rfl⟩
        rwa [hnil, List.append_nil] at hrest
  case h_2 hworker =>
    split_ifs at hstep with hevent
    cases hstep
    have hwaiting : s.worker ≠ .ended := by rw [hworker]; decide
    exact ⟨hbuffers, fun _ => hallocated hwaiting, fun _ => hcomputing hwaiting,
      fun h => (by cases h), fun h => absurd (hjoined h) hwaiting⟩
  case h_3 => cases hstep

lemma Consistent.step (hpushed : ∀ b ∈ pushed c, b.isAllocated = true) (p : Party) (s s' : State)
    (hstep : step sha1 p s = some s') (h : Consistent sha1 c s) : Consistent sha1 c s' := by
  cases p with
  | comparer => exact h.comparerStep hstep
  | worker => exact h.workerStep hpushed hstep

/-! ### Every run ends -/

/-- A block costs its push, the signal after it and what these let the digest thread do. -/
def ComparerAt.cost : ComparerAt → Nat
  | .pushing _ rest => 5 * rest.length + 8
  | .setting rest => 5 * rest.length + 6
  | .stopping => 3
  | .joining => 1
  | .finished => 0

def WorkerAt.cost : WorkerAt → Nat
  | .looking => 1
  | .waiting | .ended => 0

lemma cost_next (rest : List SimpleBuffer) :
    (ComparerAt.next rest).cost = 5 * rest.length + 3 := by
  cases rest with
  | nil => rfl
  | cons buffer rest =>
    rw [ComparerAt.next, ComparerAt.cost, List.length_cons]
    omega

def State.cost (s : State) : Nat :=
  s.comparer.cost + s.worker.cost + s.processingQueue.length + 2 * s.event.toNat

lemma cost_lt (p : Party) (s s' : State) (hstep : step sha1 p s = some s') : s'.cost < s.cost := by
  have hevent := s.event.toNat_le
  cases p with
  | comparer =>
    rw [step, comparerStep] at hstep
    split at hstep
    case h_2 rest hcomparer =>
      cases hstep
      have hcost : (ComparerAt.setting rest).cost = 5 * rest.length + 6 := rfl
      simp only [State.cost, hcomparer, cost_next, hcost, Bool.toNat_true]
      omega
    case h_4 hcomparer =>
      split_ifs at hstep
      cases hstep
      simp only [State.cost, hcomparer, ComparerAt.cost]
      omega
    case h_5 => cases hstep
    all_goals
      rename_i hcomparer
      cases hstep
      simp only [State.cost, hcomparer, ComparerAt.cost, List.length_append, List.length_singleton]
      omega
  | worker =>
    rw [step, workerStep] at hstep
    split at hstep
    case h_1 hworker =>
      split at hstep
      case h_1 hqueue =>
        cases hstep
        simp only [State.cost, hworker, WorkerAt.cost]
        omega
      case h_2 buffer queue hqueue =>
        dsimp only at hstep
        split_ifs at hstep
        all_goals
          cases hstep
          simp only [State.cost, digest, hworker, hqueue, WorkerAt.cost, List.length_cons]
          omega
    case h_2 hworker =>
      split_ifs at hstep with hset
      cases hstep
      simp only [State.cost, hworker, hset, WorkerAt.cost, Bool.toNat_true, Bool.toNat_false]
      omega
    case h_3 => cases hstep

/-- The number of steps of a run is bounded by the number of blocks. -/
theorem length_schedule_le {schedule : List Party}
    (hrun : run (step sha1) schedule (started c) = some s) :
    schedule.length ≤ 5 * (pushed c).length + 4 := by
  have hle := length_add_measure_le cost_lt hrun
  have hcost : (started c).cost = 5 * (pushed c).length + 4 := by
    simp [State.cost, started, cost_next, WorkerAt.cost]
  omega

/-! ### How a run ends -/

/-- If the digest thread waits, a signal is there or is going to come. -/
def Woken (s : State) : Prop :=
  s.worker = .waiting → s.event = true ∨ (∃ buffer rest, s.comparer = .pushing buffer rest) ∨
    ∃ rest, s.comparer = .setting rest

/-- The digest thread waits for a signal that is not going to come. -/
structure Missed (s : State) : Prop where
  worker : s.worker = .waiting
  event : s.event = false
  comparer : s.comparer = .stopping ∨ s.comparer = .joining

lemma Woken.step (p : Party) (s s' : State) (hcond : ¬ LooksTooEarly p s)
    (hstep : step sha1 p s = some s') (h : Woken s ∧ Consistent sha1 c s) : Woken s' := by
  obtain ⟨h, hconsistent⟩ := h
  cases p with
  | comparer =>
    rw [DigestThread.step, comparerStep] at hstep
    split at hstep
    case h_1 buffer rest _ =>
      cases hstep
      exact fun _ => Or.inr (Or.inr ⟨rest, rfl⟩)
    case h_2 =>
      cases hstep
      exact fun _ => Or.inl rfl
    case h_3 hcomparer =>
      cases hstep
      intro hwaiting
      rcases h hwaiting with hevent | ⟨buffer, rest, heq⟩ | ⟨rest, heq⟩
      · exact Or.inl hevent
      · cases hcomparer.symm.trans heq
      · cases hcomparer.symm.trans heq
    case h_4 =>
      split_ifs at hstep with hworker
      cases hstep
      intro hwaiting
      cases hworker.symm.trans hwaiting
    case h_5 => cases hstep
  | worker =>
    rw [DigestThread.step, workerStep] at hstep
    split at hstep
    case h_1 hworker =>
      split at hstep
      case h_1 hqueue =>
        cases hstep
        intro _
        change s.event = true ∨ _
        by_contra hnot
        rw [not_or, not_or] at hnot
        obtain ⟨hevent, hpushing, hsetting⟩ := hnot
        cases hcomparer : s.comparer with
        | pushing buffer rest => exact hpushing ⟨buffer, rest, hcomparer⟩
        | setting rest => exact hsetting ⟨rest, hcomparer⟩
        | stopping =>
          exact hcond ⟨rfl, hworker, hqueue, hcomparer, Bool.eq_false_iff.mpr hevent⟩
        | joining =>
          -- the empty buffer would have ended the digest thread
          have hbuffers := hconsistent.buffers
          rw [hqueue, hcomparer, toPush_joining, List.append_nil, List.append_nil] at hbuffers
          have hmem : SimpleBuffer.new 0 ∈ s.popped := by
            rw [hbuffers]
            exact List.mem_append_right _ (List.mem_singleton_self _)
          have hallocated := hconsistent.allocated (by rw [hworker]; decide) _ hmem
          cases hallocated
        | finished => cases hworker.symm.trans (hconsistent.joined hcomparer)
      case h_2 buffer queue hqueue =>
        dsimp only at hstep
        split_ifs at hstep
        · cases hstep
          intro hwaiting
          cases hwaiting
        · cases hstep
          intro hwaiting
          cases hworker.symm.trans hwaiting
    case h_2 hworker =>
      split_ifs at hstep
      cases hstep
      intro hwaiting
      cases hwaiting
    case h_3 => cases hstep

lemma Missed.step (p : Party) (s s' : State) (hstep : step sha1 p s = some s') (h : Missed s) :
    Missed s' := by
  obtain ⟨hworker, hevent, hcomparer⟩ := h
  cases p with
  | comparer =>
    rw [DigestThread.step, comparerStep] at hstep
    rcases hcomparer with hcomparer | hcomparer
    · rw [hcomparer] at hstep
      cases hstep
      exact ⟨hworker, hevent, Or.inr rfl⟩
    · rw [hcomparer] at hstep
      simp [hworker] at hstep
  | worker =>
    rw [DigestThread.step, workerStep, hworker] at hstep
    simp [hevent] at hstep

lemma missed_of_looksTooEarly (p : Party) (s s' : State) (hnot : ¬ ¬ LooksTooEarly p s)
    (hstep : step sha1 p s = some s') : Missed s' := by
  obtain ⟨rfl, hworker, hqueue, hcomparer, hevent⟩ := not_not.mp hnot
  rw [DigestThread.step, workerStep, hworker] at hstep
  simp only [hqueue] at hstep
  cases hstep
  exact ⟨rfl, hevent, Or.inl hcomparer⟩

/-- Where nobody can go on, the comparer waits for the digest thread and the digest thread for the
event. -/
lemma Stuck.waiting (h : Stuck sha1 s) :
    s.comparer = .joining ∧ s.worker = .waiting ∧ s.event = false := by
  obtain ⟨hhalted, hopen⟩ := h
  have hcomparer := hhalted .comparer
  have hworker := hhalted .worker
  have hjoining : s.comparer = .joining := by
    rw [step, comparerStep] at hcomparer
    split at hcomparer
    case h_4 heq => exact heq
    case h_5 heq => exact absurd heq hopen
    all_goals cases hcomparer
  rw [step, comparerStep, hjoining] at hcomparer
  refine ⟨hjoining, ?_⟩
  rw [step, workerStep] at hworker
  split at hworker
  case h_1 =>
    split at hworker
    · cases hworker
    · dsimp only at hworker
      split_ifs at hworker
  case h_2 hwaiting =>
    refine ⟨hwaiting, ?_⟩
    split_ifs at hworker with hevent
    exact Bool.eq_false_iff.mpr hevent
  case h_3 hended => simp [hended] at hcomparer

lemma Woken.not_stuck (h : Woken s) : ¬ Stuck sha1 s := by
  intro hstuck
  obtain ⟨hcomparer, hworker, hevent⟩ := hstuck.waiting
  rcases h hworker with hset | ⟨buffer, rest, heq⟩ | ⟨rest, heq⟩
  · rw [hevent] at hset
    cases hset
  · cases hcomparer.symm.trans heq
  · cases hcomparer.symm.trans heq

/-- What the theorem on files says, for a comparer all of whose blocks have an array. -/
lemma run_spec (hpushed : ∀ b ∈ pushed c, b.isAllocated = true) {schedule : List Party}
    (hrun : run (step sha1) schedule (started c) = some s) :
    schedule.length ≤ 5 * (pushed c).length + 4 ∧
      (Along (step sha1) (fun p s => ¬ LooksTooEarly p s) schedule (started c) →
        ¬ Stuck sha1 s) ∧
      (Halted (step sha1) s → (s.comparer = .finished ↔
        Along (step sha1) (fun p s => ¬ LooksTooEarly p s) schedule (started c))) ∧
      (s.comparer = .finished → s.popped = pushed c ++ [SimpleBuffer.new 0] ∧
        s.newDigest = (c.finished sha1).newDigest ∧ s.newTable = (c.finished sha1).newTable) := by
  have hconsistent : Consistent sha1 c s :=
    run_invariant _ (Consistent.step hpushed) hrun consistent_started
  have htimely : Along (step sha1) (fun p s => ¬ LooksTooEarly p s) schedule (started c) →
      ¬ Stuck sha1 s := by
    intro halong
    have hinv : Woken s ∧ Consistent sha1 c s := by
      have hstarted : Woken (started c) := by
        intro hwaiting
        cases hwaiting
      refine run_along_invariant (fun s => Woken s ∧ Consistent sha1 c s) ?_ hrun halong
        ⟨hstarted, consistent_started⟩
      intro p s s' hcond hstep h
      exact ⟨Woken.step p s s' hcond hstep h, Consistent.step hpushed p s s' hstep h.2⟩
    exact hinv.1.not_stuck
  refine ⟨length_schedule_le hrun, htimely, fun hhalted => ⟨fun hfinished => ?_, fun halong => ?_⟩,
    fun hfinished => ?_⟩
  · by_contra hnot
    have hmissed : Missed s :=
      fate_of_not_along missed_of_looksTooEarly Missed.step hrun hnot
    rcases hmissed.comparer with heq | heq
    · cases hfinished.symm.trans heq
    · cases hfinished.symm.trans heq
  · by_contra hopen
    exact htimely halong ⟨hhalted, hopen⟩
  · exact hconsistent.ended (hconsistent.joined hfinished)

/-! ### A lost signal -/

variable (sha1) in
lemma run_pushing (blocks : List SimpleBuffer) (s : State) (hcomparer : s.comparer = .next blocks) :
    ∃ schedule s', run (step sha1) schedule s = some s' ∧ s'.comparer = .stopping ∧
      s'.worker = s.worker ∧ s'.processingQueue = s.processingQueue ++ blocks ∧
      (s.event = true ∨ blocks ≠ [] → s'.event = true) := by
  induction blocks generalizing s with
  | nil => exact ⟨[], s, rfl, hcomparer, rfl, by simp, fun h => h.resolve_right fun hne => hne rfl⟩
  | cons buffer rest ih =>
    obtain ⟨schedule, s', hrun, hstopping, hworker, hqueue, hevent⟩ := ih
      { s with
        comparer := .next rest
        processingQueue := s.processingQueue ++ [buffer]
        event := true } rfl
    refine ⟨.comparer :: .comparer :: schedule, s', ?_, hstopping, hworker, by simpa using hqueue,
      fun _ => hevent (Or.inl rfl)⟩
    simp only [run, step, comparerStep, hcomparer, ComparerAt.next, Option.bind_some]
    exact hrun

variable (sha1) in
lemma run_popping (queue : List SimpleBuffer) (hqueue : ∀ b ∈ queue, b.isAllocated = true)
    (s : State) (hworker : s.worker = .looking) (heq : s.processingQueue = queue) :
    ∃ schedule s', run (step sha1) schedule s = some s' ∧ s'.comparer = s.comparer ∧
      s'.worker = .looking ∧ s'.processingQueue = [] ∧ s'.event = s.event := by
  induction queue generalizing s with
  | nil => exact ⟨[], s, rfl, rfl, hworker, heq, rfl⟩
  | cons buffer queue ih =>
    obtain ⟨hbuffer, hqueue⟩ := List.forall_mem_cons.mp hqueue
    obtain ⟨schedule, s', hrun, hs'⟩ := ih hqueue
      (digest sha1 buffer { s with processingQueue := queue, popped := s.popped ++ [buffer] })
      hworker rfl
    refine ⟨.worker :: schedule, s', ?_, hs'⟩
    simp only [run, step, workerStep, hworker, heq, hbuffer, Bool.not_true, Bool.false_eq_true,
      if_false, Option.bind_some]
    simp only [hworker] at hrun
    exact hrun

/-- The digest thread may take all the blocks, find out that there are no more, and look once more
after the signal: then the comparer pushes the empty buffer in vain. -/
lemma exists_run_stuck (hpushed : ∀ b ∈ pushed c, b.isAllocated = true) (hne : pushed c ≠ []) :
    ∃ schedule s, run (step sha1) schedule (started c) = some s ∧ Stuck sha1 s ∧
      s.processingQueue = [SimpleBuffer.new 0] := by
  obtain ⟨first, s₁, hfirst, hcomparer₁, hworker₁, hqueue₁, hevent₁⟩ :=
    run_pushing sha1 (pushed c) (started c) rfl
  obtain ⟨second, s₂, hsecond, hcomparer₂, hworker₂, hqueue₂, hevent₂⟩ :=
    run_popping sha1 (pushed c) hpushed s₁ hworker₁ hqueue₁
  have hlast : run (step sha1) [.worker, .worker, .worker, .comparer] s₂ =
      some { s₂ with
        comparer := .joining
        worker := .waiting
        event := false
        processingQueue := [SimpleBuffer.new 0] } := by
    simp [run, step, workerStep, comparerStep, hworker₂, hqueue₂, hcomparer₂, hcomparer₁, hevent₂,
      hevent₁ (Or.inr hne)]
  refine ⟨_, _, run_append hfirst (run_append hsecond hlast), ⟨?_, ?_⟩, rfl⟩
  · intro p
    cases p <;> simp [step, comparerStep, workerStep]
  · intro h
    cases h

end DigestThread

open DigestThread

/-- The blocks of a new file all have an array, and the last one is pushed in any case. -/
lemma FileComparer.Ended.pushed {oldFile : RsyncableFile} {newFile : File} {c : FileComparer}
    (h : Ended oldFile newFile c) :
    (∀ b ∈ DigestThread.pushed c, b.isAllocated = true) ∧ DigestThread.pushed c ≠ [] := by
  have heq : DigestThread.pushed c = c.processingQueue ++ [c.newBuffer] := rfl
  rw [heq]
  exact ⟨h.isAllocated, by simp⟩

/-- All runs are of bounded length. Where the digest thread never looks too early nobody is stuck; a
run to its end has come to the end of both threads exactly if it is such a run; and then the digest
thread has got every buffer once, in the order of the pushes, and its results are those of
`finished`. -/
theorem digestThread_finished_iff (sha1 : List Byte → Digest) (old new : File)
    (oldDisk newDisk : DiskReads) (fuel : Nat) :
    ∃ c, FileComparer.processLoop sha1 (new.size + 3 + fuel)
        { FileComparer.new new newDisk (ofPath sha1 old oldDisk) with state := .initial } = some c ∧
      ∀ schedule s, run (step sha1) schedule (started c) = some s →
        schedule.length ≤ 5 * (pushed c).length + 4 ∧
        (Along (step sha1) (fun p s => ¬ LooksTooEarly p s) schedule (started c) →
          ¬ Stuck sha1 s) ∧
        (Halted (step sha1) s → (s.comparer = .finished ↔
          Along (step sha1) (fun p s => ¬ LooksTooEarly p s) schedule (started c))) ∧
        (s.comparer = .finished → s.popped = pushed c ++ [SimpleBuffer.new 0] ∧
          s.newDigest = (c.finished sha1).newDigest ∧
          s.newTable = (c.finished sha1).newTable) := by
  obtain ⟨c, hloop, hended, -⟩ := FileComparer.processLoop_new_spec
    (FileComparer.indexed_ofPath sha1 old oldDisk) new newDisk (Nat.le_add_right _ fuel)
  exact ⟨c, hloop, fun schedule s hrun => run_spec hended.pushed.1 hrun⟩

/-- A file that has become empty: the comparer waits for the digest thread, the digest thread for
the event, and the empty buffer is in the queue. -/
theorem digestThread_stuck_emptyFile :
    ∃ c, FileComparer.processLoop sha1OfZero 3
        { FileComparer.new emptyFile wholeReads (ofPath sha1OfZero zeroFile wholeReads) with
          state := .initial } = some c ∧
      ∃ schedule s, run (step sha1OfZero) schedule (started c) = some s ∧ Stuck sha1OfZero s ∧
        s.processingQueue = [SimpleBuffer.new 0] := by
  obtain ⟨c, hloop, hended, -⟩ := FileComparer.processLoop_new_spec
    (FileComparer.indexed_ofPath sha1OfZero zeroFile wholeReads) emptyFile wholeReads
    (show emptyFile.size + 3 ≤ 3 by decide)
  exact ⟨c, hloop, exists_run_stuck hended.pushed.1 hended.pushed.2⟩

end BackupProgram
