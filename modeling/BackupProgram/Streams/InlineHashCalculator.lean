import BackupProgram.Lib.Schedules
import BackupProgram.Native.CircularBuffer

/-!
# Copying while reading ahead and hashing

`InlineHashCalculator` copies a stream and calculates its hash. While a block is written and hashed
the next one is read. Two events and three references to byte arrays are shared by continuations that
run at any time and in any order.
-/

namespace BackupProgram

open CircularBuffer (overwrite)
open Schedules

namespace InlineHashCalculator

def defaultSize : Nat := 2 ^ 12

/-- The next step of a call of `FinishedRead`. -/
inductive WorkerPlace where
  | hashReady
  | writerReady
  | readMore
  | writeMore
  | transformBlock
  | setHashReady
deriving DecidableEq

/-- A call of `FinishedRead`, with the result of its task. -/
structure Worker where
  result : Nat
  place : WorkerPlace
deriving DecidableEq

/-- A read that has been issued. The result is there as soon as the bytes are in the array. -/
structure Read where
  buffer : Nat
  result : Option Nat
deriving DecidableEq

/-- A write that has been issued. At some time the stream takes the bytes from the array. -/
structure Write where
  buffer : Nat
  count : Nat
  taken : Bool
deriving DecidableEq

/-- Where `DoCopy` is. -/
inductive MainPlace where
  | readMore
  | waiting
  | returned
deriving DecidableEq

/-- `input` are the blocks that reads will return. References are numbers of arrays; zero stands for
null. `finishedWrites` calls of `FinishedWrite` are to come. -/
structure State where
  input : List (List Byte)
  output : List (List Byte)
  hashed : List (List Byte)
  contents : Nat → List Byte
  allocated : Nat
  inputBuffer : Nat
  hashBuffer : Nat
  outputBuffer : Nat
  hashReadyEvent : Bool
  writerReadyEvent : Bool
  done : Bool
  main : MainPlace
  reads : List Read
  workers : List Worker
  writes : List Write
  finishedWrites : Nat

/-- Before `DoCopy` reads. -/
def start (input : List (List Byte)) : State where
  input := input
  output := []
  hashed := []
  contents _ := []
  allocated := 0
  inputBuffer := 0
  hashBuffer := 0
  outputBuffer := 0
  hashReadyEvent := true
  writerReadyEvent := true
  done := false
  main := .readMore
  reads := []
  workers := []
  writes := []
  finishedWrites := 0

/-- What may happen next; tasks and calls are numbered by the lists they are in. -/
inductive Event where
  | main
  | fill (i : Nat)
  | readCompletes (i : Nat)
  | worker (i : Nat)
  | take (i : Nat)
  | writeCompletes (i : Nat)
  | finishedWrite

/-- `ReadMore` -/
def readMore (s : State) : State :=
  let inputBuffer := s.allocated + 1
  { s with
    allocated := inputBuffer
    contents := Function.update s.contents inputBuffer (List.replicate defaultSize 0)
    inputBuffer := inputBuffer
    reads := s.reads ++ [⟨inputBuffer, none⟩] }

/-- An event that is waited for is reset. -/
def workerStep (s : State) (i : Nat) (w : Worker) : Option State :=
  let goTo place := s.workers.set i { w with place := place }
  match w.place with
  | .hashReady =>
    if s.hashReadyEvent then
      some { s with hashReadyEvent := false, workers := goTo .writerReady }
    else none
  | .writerReady =>
    if s.writerReadyEvent then
      some { s with writerReadyEvent := false, workers := goTo .readMore }
    else none
  | .readMore =>
    if w.result = 0 then some { s with done := true, workers := s.workers.eraseIdx i }
    else some (readMore { s with hashBuffer := s.inputBuffer, workers := goTo .writeMore })
  | .writeMore =>
    let outputBuffer := s.hashBuffer
    some { s with
      outputBuffer := outputBuffer
      writes := s.writes ++ [⟨outputBuffer, w.result, false⟩]
      workers := goTo .transformBlock }
  | .transformBlock =>
    some { s with
      hashed := s.hashed ++ [(s.contents s.hashBuffer).take w.result]
      workers := goTo .setHashReady }
  | .setHashReady => some { s with hashReadyEvent := true, workers := s.workers.eraseIdx i }

/-- A read at the end of the input returns nothing. -/
def step : Event → State → Option State
  | .main, s =>
    match s.main with
    | .readMore => some { readMore s with main := .waiting }
    | .waiting => if s.done then some { s with done := false, main := .returned } else none
    | .returned => none
  | .fill i, s =>
    match s.reads[i]? with
    | some ⟨buffer, none⟩ =>
      let block := s.input.headD []
      some { s with
        input := s.input.tail
        contents := Function.update s.contents buffer (overwrite (s.contents buffer) 0 block)
        reads := s.reads.set i ⟨buffer, some block.length⟩ }
    | _ => none
  | .readCompletes i, s =>
    match s.reads[i]? with
    | some ⟨_, some result⟩ =>
      some { s with
        reads := s.reads.eraseIdx i
        workers := s.workers ++ [⟨result, .hashReady⟩] }
    | _ => none
  | .worker i, s =>
    match s.workers[i]? with
    | some w => workerStep s i w
    | none => none
  | .take i, s =>
    match s.writes[i]? with
    | some ⟨buffer, count, false⟩ =>
      some { s with
        output := s.output ++ [(s.contents buffer).take count]
        writes := s.writes.set i ⟨buffer, count, true⟩ }
    | _ => none
  | .writeCompletes i, s =>
    match s.writes[i]? with
    | some ⟨_, _, true⟩ =>
      some { s with
        writes := s.writes.eraseIdx i
        finishedWrites := s.finishedWrites + 1 }
    | _ => none
  | .finishedWrite, s =>
    if 0 < s.finishedWrites then
      some { s with finishedWrites := s.finishedWrites - 1, writerReadyEvent := true }
    else none

/-! ### Who has what -/

/-- What reads the next block: nothing yet, a read that has been issued, one whose bytes are in the
array, or a call of `FinishedRead` that has not issued the next one; nothing any more once the end
of the input has been met. The block at the end of the input is empty. -/
inductive Reader where
  | notStarted
  | reading (buffer : Nat)
  | filled (buffer : Nat) (block : List Byte)
  | hashReady (buffer : Nat) (block : List Byte)
  | writerReady (buffer : Nat) (block : List Byte)
  | readMore (buffer : Nat) (block : List Byte)
  | finished

namespace Reader

def reads : Reader → List Read
  | reading b => [⟨b, none⟩]
  | filled b block => [⟨b, some block.length⟩]
  | _ => []

def workers : Reader → List Worker
  | hashReady _ block => [⟨block.length, .hashReady⟩]
  | writerReady _ block => [⟨block.length, .writerReady⟩]
  | readMore _ block => [⟨block.length, .readMore⟩]
  | _ => []

/-- The array of the block, and what is in it if that is known. -/
def holds : Reader → Option (Nat × Option (List Byte))
  | reading b => some (b, none)
  | filled b block | hashReady b block | writerReady b block | readMore b block =>
    some (b, some block)
  | notStarted | finished => none

/-- The block that has been read. -/
def blocks : Reader → List (List Byte)
  | filled _ block | hashReady _ block | writerReady _ block | readMore _ block =>
    if block = [] then [] else [block]
  | _ => []

/-- No hash event is held here. -/
def waitsForHash : Reader → Bool
  | notStarted | reading _ | filled _ _ | hashReady _ _ => true
  | _ => false

/-- The end of the input has been met. -/
def atEnd : Reader → Bool
  | filled _ block | hashReady _ block | writerReady _ block | readMore _ block => block = []
  | finished => true
  | _ => false

end Reader

/-- The call of `FinishedRead` that has issued the next read. -/
inductive Ahead where
  | none
  | writeMore (buffer : Nat) (block : List Byte)
  | transformBlock (buffer : Nat) (block : List Byte)
  | setHashReady (buffer : Nat) (block : List Byte)

namespace Ahead

def workers : Ahead → List Worker
  | none => []
  | writeMore _ block => [⟨block.length, .writeMore⟩]
  | transformBlock _ block => [⟨block.length, .transformBlock⟩]
  | setHashReady _ block => [⟨block.length, .setHashReady⟩]

def holds : Ahead → Option (Nat × List Byte)
  | none => Option.none
  | writeMore b block | transformBlock b block | setHashReady b block => some (b, block)

def unwritten : Ahead → List (List Byte)
  | writeMore _ block => [block]
  | _ => []

def unhashed : Ahead → List (List Byte)
  | writeMore _ block | transformBlock _ block => [block]
  | _ => []

end Ahead

/-- The writer event is set, or held by a call of `FinishedRead`, by a write or by its
continuation. -/
inductive Writer where
  | idle
  | held
  | pending (buffer : Nat) (block : List Byte)
  | taken (buffer : Nat) (block : List Byte)
  | finishing

namespace Writer

def writes : Writer → List Write
  | pending b block => [⟨b, block.length, false⟩]
  | taken b block => [⟨b, block.length, true⟩]
  | _ => []

def finishedWrites : Writer → Nat
  | finishing => 1
  | _ => 0

/-- What the stream has still to take. -/
def holds : Writer → Option (Nat × List Byte)
  | pending b block => some (b, block)
  | _ => none

def untaken : Writer → List (List Byte)
  | pending _ block => [block]
  | _ => []

end Writer

/-- Whether a call of `FinishedRead` holds the writer event, or did so when it met the end of the
input. -/
def holdsWriter : Reader → Ahead → Bool
  | .readMore _ _, _ | .finished, _ | _, .writeMore _ _ => true
  | _, _ => false

/-- Who has what, in a state of copying the blocks `all`. -/
structure Inv (all : List (List Byte)) (s : State) (r : Reader) (a : Ahead) (w : Writer) :
    Prop where
  reads_eq : s.reads = r.reads
  workers_eq : s.workers = a.workers ++ r.workers
  writes_eq : s.writes = w.writes
  finishedWrites_eq : s.finishedWrites = w.finishedWrites
  hashReady_iff : s.hashReadyEvent = true ↔ a = .none ∧ r.waitsForHash = true
  writerReady_iff : s.writerReadyEvent = true ↔ w = .idle
  held_iff : w = .held ↔ holdsWriter r a = true
  ahead : a ≠ .none → r.waitsForHash = true ∧ r ≠ .notStarted
  main_iff : s.main = .readMore ↔ r = .notStarted
  done_iff : s.done = true ∨ s.main = .returned ↔ r = .finished
  output_eq : s.output ++ w.untaken ++ a.unwritten ++ r.blocks ++ s.input = all
  hashed_eq : s.hashed ++ a.unhashed ++ r.blocks ++ s.input = all
  input_of_atEnd : r.atEnd = true → s.input = []
  reader : ∀ b known, r.holds = some (b, known) → s.inputBuffer = b ∧ b ≤ s.allocated ∧
    ∀ block, known = some block → (s.contents b).take block.length = block
  ahead_holds : ∀ b block, a.holds = some (b, block) → s.hashBuffer = b ∧ b ≤ s.allocated ∧
    (s.contents b).take block.length = block ∧ ∀ known, r.holds ≠ some (b, known)
  writer : ∀ b block, w.holds = some (b, block) → b ≤ s.allocated ∧
    (s.contents b).take block.length = block ∧ ∀ known, r.holds ≠ some (b, known)

variable {all : List (List Byte)} {s s' : State} {r : Reader} {a : Ahead} {w : Writer}

lemma inv_start (all : List (List Byte)) : Inv all (start all) .notStarted .none .idle := by
  constructor <;> simp [start, Reader.reads, Reader.workers, Ahead.workers, Writer.writes,
    Writer.finishedWrites, Reader.waitsForHash, holdsWriter, Writer.untaken, Ahead.unwritten,
    Ahead.unhashed, Reader.blocks, Reader.atEnd, Reader.holds, Ahead.holds, Writer.holds]

/-! ### One step -/

lemma eq_singleton_of_getElem? {α : Type*} {l : List α} {i : Nat} {x : α} (hl : l.length ≤ 1)
    (hi : l[i]? = some x) : i = 0 ∧ l = [x] := by
  obtain ⟨hlt, hget⟩ := List.getElem?_eq_some_iff.mp hi
  obtain rfl : i = 0 := by omega
  obtain ⟨y, rfl⟩ := List.length_eq_one_iff.mp (show l.length = 1 by omega)
  exact ⟨rfl, by simpa using hget⟩

lemma Reader.length_workers_le (r : Reader) : r.workers.length ≤ 1 := by
  cases r <;> simp [workers]

lemma Reader.length_reads_le (r : Reader) : r.reads.length ≤ 1 := by
  cases r <;> simp [reads]

lemma Ahead.length_workers_le (a : Ahead) : a.workers.length ≤ 1 := by
  cases a <;> simp [workers]

lemma Writer.length_writes_le (w : Writer) : w.writes.length ≤ 1 := by
  cases w <;> simp [writes]

lemma contents_readMore {b : Nat} (hb : b ≤ s.allocated) :
    (readMore s).contents b = s.contents b :=
  Function.update_of_ne (by omega) _ _

lemma take_overwrite_zero (bytes block : List Byte) :
    (overwrite bytes 0 block).take block.length = block := by
  simp [overwrite]

lemma holdsWriter_writeMore (r : Reader) (b : Nat) (block : List Byte) :
    holdsWriter r (.writeMore b block) = true := by
  cases r <;> rfl

/-- No other call of `FinishedRead` is past the hash event. -/
lemma Inv.ahead_eq_none (h : Inv all s r a w) (hr : r.waitsForHash = false) : a = .none := by
  by_contra ha
  rw [(h.ahead ha).1] at hr
  cases hr

lemma Inv.step_main (h : Inv all s r a w) (hstep : step .main s = some s') :
    ∃ r a w, Inv all s' r a w := by
  rcases hmain : s.main with _ | _ | _ <;> simp only [step, hmain] at hstep
  · obtain rfl := h.main_iff.mp hmain
    obtain rfl : a = .none := by
      by_contra ha
      exact (h.ahead ha).2 rfl
    cases hstep
    refine ⟨.reading (s.allocated + 1), .none, w, { h with
      reads_eq := ?_, held_iff := ?_, hashReady_iff := ?_, main_iff := ?_, done_iff := ?_,
      ahead := ?_, input_of_atEnd := ?_, reader := ?_, ahead_holds := ?_, writer := ?_ }⟩
    · simp [readMore, h.reads_eq, Reader.reads]
    · simpa [readMore, Reader.waitsForHash] using h.hashReady_iff
    · exact h.held_iff
    · simp
    · simp
    · simpa [readMore, hmain] using h.done_iff
    · simp [Reader.atEnd]
    · simp [Reader.holds, readMore]
    · simp [Ahead.holds]
    · intro b block hb
      obtain ⟨hle, htake, -⟩ := h.writer b block hb
      refine ⟨Nat.le_succ_of_le hle, ?_, ?_⟩
      · exact (congrArg _ (contents_readMore hle)).trans htake
      · simp only [Reader.holds, ne_eq, Option.some.injEq, Prod.mk.injEq, not_and]
        omega
  · rcases hdone : s.done with _ | _ <;> simp only [hdone, if_true, Bool.false_eq_true, if_false,
      reduceCtorEq, Option.some.injEq] at hstep
    obtain rfl := h.done_iff.mp (Or.inl hdone)
    subst hstep
    refine ⟨.finished, a, w, { h with main_iff := ?_, done_iff := ?_ }⟩
    · simp
    · simp
  · cases hstep

lemma Inv.step_fill (h : Inv all s r a w) (hall : ∀ block ∈ all, block ≠ []) {i : Nat}
    (hstep : step (.fill i) s = some s') : ∃ r a w, Inv all s' r a w := by
  rcases hget : s.reads[i]? with _ | ⟨buffer, _ | result⟩ <;> simp only [step, hget] at hstep
  · cases hstep
  · rw [h.reads_eq] at hget
    obtain ⟨rfl, hreads⟩ := eq_singleton_of_getElem? r.length_reads_le hget
    rcases r with _ | b | _ | _ | _ | _ | _ <;> simp only [Reader.reads, List.cons.injEq,
      reduceCtorEq, Read.mk.injEq, and_true, and_false] at hreads
    subst b
    obtain ⟨hinput, hle, -⟩ := h.reader buffer none rfl
    have hblocks : (Reader.filled buffer (s.input.headD [])).blocks ++ s.input.tail = s.input := by
      rcases heq : s.input with _ | ⟨block, rest⟩
      · rfl
      · have hne : block ≠ [] := hall block (by rw [← h.output_eq, heq]; simp)
        simp [Reader.blocks, hne]
    cases hstep
    refine ⟨.filled buffer (s.input.headD []), a, w, { h with
      reads_eq := ?_, held_iff := ?_, hashReady_iff := ?_, main_iff := ?_, done_iff := ?_,
      ahead := ?_, output_eq := ?_, hashed_eq := ?_, input_of_atEnd := ?_, reader := ?_,
      ahead_holds := ?_, writer := ?_ }⟩
    · simp [h.reads_eq, Reader.reads]
    · exact h.hashReady_iff
    · rw [h.held_iff]
      cases a <;> rfl
    · exact fun ha => ⟨rfl, by simp⟩
    · simpa using h.main_iff
    · simpa using h.done_iff
    · rw [List.append_assoc, hblocks]
      simpa [Reader.blocks] using h.output_eq
    · rw [List.append_assoc, hblocks]
      simpa [Reader.blocks] using h.hashed_eq
    · intro hend
      have hnil : s.input.headD [] = [] := by simpa [Reader.atEnd] using hend
      rcases heq : s.input with _ | ⟨block, rest⟩
      · rfl
      · rw [heq] at hnil
        exact absurd hnil (hall block (by rw [← h.output_eq, heq]; simp))
    · simp only [Reader.holds, Option.some.injEq, Prod.mk.injEq, and_imp]
      rintro b known rfl rfl
      refine ⟨hinput, hle, fun block hblock => ?_⟩
      cases hblock
      rw [Function.update_self, take_overwrite_zero]
    · intro b block hb
      obtain ⟨hhash, hlehash, htake, hother⟩ := h.ahead_holds b block hb
      have hne : b ≠ buffer := fun heq => hother none (by rw [heq]; rfl)
      refine ⟨hhash, hlehash, ?_, ?_⟩
      · exact (congrArg _ (Function.update_of_ne hne _ _)).trans htake
      · simp [Reader.holds, hne.symm]
    · intro b block hb
      obtain ⟨hlewriter, htake, hother⟩ := h.writer b block hb
      have hne : b ≠ buffer := fun heq => hother none (by rw [heq]; rfl)
      refine ⟨hlewriter, ?_, ?_⟩
      · exact (congrArg _ (Function.update_of_ne hne _ _)).trans htake
      · simp [Reader.holds, hne.symm]
  · cases hstep

lemma Inv.step_readCompletes (h : Inv all s r a w) {i : Nat}
    (hstep : step (.readCompletes i) s = some s') : ∃ r a w, Inv all s' r a w := by
  rcases hget : s.reads[i]? with _ | ⟨buffer, _ | result⟩ <;> simp only [step, hget] at hstep
  · cases hstep
  · cases hstep
  · rw [h.reads_eq] at hget
    obtain ⟨rfl, hreads⟩ := eq_singleton_of_getElem? r.length_reads_le hget
    rcases r with _ | _ | ⟨b, block⟩ | _ | _ | _ | _ <;> simp only [Reader.reads, List.cons.injEq,
      reduceCtorEq, Read.mk.injEq, and_true, and_false, Option.some.injEq]
      at hreads
    obtain ⟨rfl, rfl⟩ := hreads
    cases hstep
    refine ⟨.hashReady b block, a, w, { h with
      reads_eq := ?_, workers_eq := ?_, held_iff := ?_, main_iff := ?_, done_iff := ?_,
      ahead := ?_ }⟩
    · simp [h.reads_eq, Reader.reads]
    · simp [h.workers_eq, Reader.workers]
    · rw [h.held_iff]
      cases a <;> rfl
    · exact fun ha => ⟨rfl, by simp⟩
    · simpa using h.main_iff
    · simpa using h.done_iff

/-- The events are given to the call of `FinishedRead` that has the last block, and it issues the
next read. -/
lemma Inv.step_reader (h : Inv all s r a w) {worker : Worker} (hr : r.workers = [worker])
    (hstep : workerStep s a.workers.length worker = some s') : ∃ r a w, Inv all s' r a w := by
  have hset (y : Worker) : s.workers.set a.workers.length y = a.workers ++ [y] := by
    rw [h.workers_eq, hr]
    simp
  have herase : s.workers.eraseIdx a.workers.length = a.workers := by
    rw [h.workers_eq, hr, List.eraseIdx_append_of_length_le (le_refl _)]
    simp
  rcases r with _ | _ | _ | ⟨b, block⟩ | ⟨b, block⟩ | ⟨b, block⟩ | _ <;>
    simp only [Reader.workers, List.cons.injEq, and_true, reduceCtorEq] at hr
  · subst hr
    simp only [workerStep, hset] at hstep
    split at hstep
    · next hevent =>
      obtain ⟨rfl, -⟩ := h.hashReady_iff.mp hevent
      cases hstep
      refine ⟨.writerReady b block, .none, w, { h with
        workers_eq := rfl, hashReady_iff := ?_, main_iff := ?_, done_iff := ?_, ahead := ?_ }⟩
      · simp [Reader.waitsForHash]
      · simp
      · simpa using h.main_iff
      · simpa using h.done_iff
    · cases hstep
  · subst hr
    obtain rfl := h.ahead_eq_none rfl
    simp only [workerStep, hset] at hstep
    split at hstep
    · next hevent =>
      obtain rfl := h.writerReady_iff.mp hevent
      cases hstep
      refine ⟨.readMore b block, .none, .held, { h with
        workers_eq := rfl, writerReady_iff := ?_, held_iff := ?_, main_iff := ?_, done_iff := ?_,
        ahead := ?_, writer := ?_ }⟩
      · simp
      · simp [holdsWriter]
      · simp
      · simpa using h.main_iff
      · simpa using h.done_iff
      · simp [Writer.holds]
    · cases hstep
  · subst hr
    obtain rfl := h.ahead_eq_none rfl
    obtain rfl := h.held_iff.mpr rfl
    simp only [workerStep, hset, herase] at hstep
    obtain ⟨hinput, hle, htake⟩ := h.reader b (some block) rfl
    split at hstep
    · next hzero =>
      obtain rfl := List.length_eq_zero_iff.mp hzero
      cases hstep
      refine ⟨.finished, .none, .held, { h with
        workers_eq := rfl, hashReady_iff := ?_, held_iff := ?_, main_iff := ?_, done_iff := ?_,
        ahead := ?_, reader := ?_, ahead_holds := ?_, writer := ?_ }⟩
      · simpa [Reader.waitsForHash] using h.hashReady_iff
      · simp [holdsWriter]
      · simp
      · simpa using h.main_iff
      · simp
      · simp [Reader.holds]
      · simp [Ahead.holds]
      · simp [Writer.holds]
    · next hne =>
      have hblock : block ≠ [] := fun heq => hne (by rw [heq]; rfl)
      cases hstep
      refine ⟨.reading (s.allocated + 1), .writeMore b block, .held, { h with
        reads_eq := ?_, workers_eq := rfl, hashReady_iff := ?_, held_iff := ?_, main_iff := ?_,
        done_iff := ?_, ahead := ?_, output_eq := ?_, hashed_eq := ?_, input_of_atEnd := ?_,
        reader := ?_, ahead_holds := ?_, writer := ?_ }⟩
      · simp [readMore, h.reads_eq, Reader.reads]
      · simpa [readMore, Reader.waitsForHash] using h.hashReady_iff
      · simp [holdsWriter]
      · simp [Reader.waitsForHash]
      · simpa [readMore] using h.main_iff
      · simpa [readMore] using h.done_iff
      · simpa [readMore, Reader.blocks, Ahead.unwritten, Writer.untaken, hblock]
          using h.output_eq
      · simpa [readMore, Reader.blocks, Ahead.unhashed, hblock] using h.hashed_eq
      · simp [Reader.atEnd]
      · simp [Reader.holds, readMore]
      · simp only [Ahead.holds, Option.some.injEq, Prod.mk.injEq, and_imp]
        rintro _ _ rfl rfl
        refine ⟨hinput, Nat.le_succ_of_le hle, ?_, ?_⟩
        · exact (congrArg _ (contents_readMore hle)).trans (htake block rfl)
        · simp only [Reader.holds, ne_eq, Option.some.injEq, Prod.mk.injEq, not_and]
          omega
      · simp [Writer.holds]

/-- Behind the read it has issued, a call of `FinishedRead` writes and hashes its block. -/
lemma Inv.step_ahead (h : Inv all s r a w) {worker : Worker} (ha : a.workers = [worker])
    (hstep : workerStep s 0 worker = some s') : ∃ r a w, Inv all s' r a w := by
  have hset (y : Worker) : s.workers.set 0 y = y :: r.workers := by
    rw [h.workers_eq, ha]
    rfl
  have herase : s.workers.eraseIdx 0 = r.workers := by
    rw [h.workers_eq, ha]
    rfl
  have hwaits : r.waitsForHash = true ∧ r ≠ .notStarted := h.ahead fun heq => by
    rw [heq] at ha
    cases ha
  have hfree (a : Ahead) (hno : ∀ b block, a ≠ .writeMore b block) : holdsWriter r a = false := by
    rcases r with _ | _ | _ | _ | _ | _ | _ <;> rcases a with _ | _ | _ | _ <;>
      simp_all [holdsWriter, Reader.waitsForHash]
  rcases a with _ | ⟨b, block⟩ | ⟨b, block⟩ | ⟨b, block⟩ <;>
    simp only [Ahead.workers, List.cons.injEq, and_true, reduceCtorEq] at ha
  · subst ha
    obtain rfl := h.held_iff.mpr (holdsWriter_writeMore r b block)
    obtain ⟨hhash, hle, htake, hother⟩ := h.ahead_holds b block rfl
    simp only [workerStep, hset] at hstep
    cases hstep
    refine ⟨r, .transformBlock b block, .pending b block, { h with
      workers_eq := rfl, writes_eq := ?_, hashReady_iff := ?_, writerReady_iff := ?_,
      held_iff := ?_, ahead := ?_, output_eq := ?_, writer := ?_ }⟩
    · simp [h.writes_eq, Writer.writes, hhash]
    · simpa using h.hashReady_iff
    · simpa using h.writerReady_iff
    · simp [hfree]
    · exact fun _ => hwaits
    · simpa [Writer.untaken, Ahead.unwritten] using h.output_eq
    · simp only [Writer.holds, Option.some.injEq, Prod.mk.injEq, and_imp]
      rintro _ _ rfl rfl
      exact ⟨hle, htake, hother⟩
  · subst ha
    obtain ⟨hhash, hle, htake, hother⟩ := h.ahead_holds b block rfl
    simp only [workerStep, hset, hhash, htake] at hstep
    cases hstep
    refine ⟨r, .setHashReady b block, w, { h with
      workers_eq := rfl, hashReady_iff := ?_, held_iff := ?_, ahead := ?_, hashed_eq := ?_,
      ahead_holds := ?_ }⟩
    · simpa using h.hashReady_iff
    · rw [h.held_iff, hfree _ (by simp), hfree _ (by simp)]
    · exact fun _ => hwaits
    · simpa [Ahead.unhashed] using h.hashed_eq
    · simp only [Ahead.holds, Option.some.injEq, Prod.mk.injEq, and_imp]
      rintro _ _ rfl rfl
      exact ⟨rfl, hle, htake, hother⟩
  · subst ha
    simp only [workerStep, herase] at hstep
    cases hstep
    refine ⟨r, .none, w, { h with
      workers_eq := rfl, hashReady_iff := ?_, held_iff := ?_, ahead := ?_, ahead_holds := ?_ }⟩
    · simp [hwaits.1]
    · rw [h.held_iff, hfree _ (by simp), hfree _ (by simp)]
    · simp
    · simp [Ahead.holds]

lemma Inv.step_worker (h : Inv all s r a w) {i : Nat} (hstep : step (.worker i) s = some s') :
    ∃ r a w, Inv all s' r a w := by
  rcases hget : s.workers[i]? with _ | worker <;> simp only [step, hget] at hstep
  · cases hstep
  · rw [h.workers_eq] at hget
    rcases Nat.lt_or_ge i a.workers.length with hlt | hge
    · rw [List.getElem?_append_left hlt] at hget
      obtain ⟨rfl, ha⟩ := eq_singleton_of_getElem? a.length_workers_le hget
      exact h.step_ahead ha hstep
    · rw [List.getElem?_append_right hge] at hget
      obtain ⟨hi, hr⟩ := eq_singleton_of_getElem? r.length_workers_le hget
      obtain rfl : i = a.workers.length := by omega
      exact h.step_reader hr hstep

lemma Inv.step_take (h : Inv all s r a w) {i : Nat} (hstep : step (.take i) s = some s') :
    ∃ r a w, Inv all s' r a w := by
  rcases hget : s.writes[i]? with _ | ⟨buffer, count, _ | _⟩ <;> simp only [step, hget] at hstep
  · cases hstep
  · rw [h.writes_eq] at hget
    obtain ⟨rfl, hwrites⟩ := eq_singleton_of_getElem? w.length_writes_le hget
    rcases w with _ | _ | ⟨b, block⟩ | _ | _ <;> simp only [Writer.writes, List.cons.injEq,
      reduceCtorEq, Write.mk.injEq, and_true, and_false] at hwrites
    obtain ⟨rfl, rfl⟩ := hwrites
    obtain ⟨hle, htake, hother⟩ := h.writer b block rfl
    rw [htake] at hstep
    cases hstep
    refine ⟨r, a, .taken b block, { h with
      writes_eq := ?_, writerReady_iff := ?_, held_iff := ?_, output_eq := ?_, writer := ?_ }⟩
    · simp [h.writes_eq, Writer.writes]
    · simpa using h.writerReady_iff
    · simpa using h.held_iff
    · simpa [Writer.untaken] using h.output_eq
    · simp [Writer.holds]
  · cases hstep

lemma Inv.step_writeCompletes (h : Inv all s r a w) {i : Nat}
    (hstep : step (.writeCompletes i) s = some s') : ∃ r a w, Inv all s' r a w := by
  rcases hget : s.writes[i]? with _ | ⟨buffer, count, _ | _⟩ <;> simp only [step, hget] at hstep
  · cases hstep
  · cases hstep
  · rw [h.writes_eq] at hget
    obtain ⟨rfl, hwrites⟩ := eq_singleton_of_getElem? w.length_writes_le hget
    rcases w with _ | _ | _ | ⟨b, block⟩ | _ <;> simp only [Writer.writes, List.cons.injEq,
      reduceCtorEq, Write.mk.injEq, and_true, and_false] at hwrites
    cases hstep
    refine ⟨r, a, .finishing, { h with
      writes_eq := ?_, finishedWrites_eq := ?_, writerReady_iff := ?_, held_iff := ?_,
      writer := ?_ }⟩
    · simp [h.writes_eq, Writer.writes]
    · simp [h.finishedWrites_eq, Writer.finishedWrites]
    · simpa using h.writerReady_iff
    · simpa using h.held_iff
    · simp [Writer.holds]

lemma Inv.step_finishedWrite (h : Inv all s r a w) (hstep : step .finishedWrite s = some s') :
    ∃ r a w, Inv all s' r a w := by
  rw [step, h.finishedWrites_eq] at hstep
  rcases w with _ | _ | _ | _ | _ <;> simp only [Writer.finishedWrites, Nat.lt_irrefl, if_false,
    Nat.lt_one_iff, if_true, reduceCtorEq, Option.some.injEq] at hstep
  subst hstep
  refine ⟨r, a, .idle, { h with
    finishedWrites_eq := ?_, writerReady_iff := ?_, held_iff := ?_ }⟩
  · rfl
  · simp
  · simpa using h.held_iff

/-- Every step keeps the invariant. -/
lemma inv_step (hall : ∀ block ∈ all, block ≠ []) (e : Event) (s s' : State)
    (hstep : step e s = some s') (hs : ∃ r a w, Inv all s r a w) : ∃ r a w, Inv all s' r a w := by
  obtain ⟨r, a, w, h⟩ := hs
  cases e with
  | main => exact h.step_main hstep
  | fill i => exact h.step_fill hall hstep
  | readCompletes i => exact h.step_readCompletes hstep
  | worker i => exact h.step_worker hstep
  | take i => exact h.step_take hstep
  | writeCompletes i => exact h.step_writeCompletes hstep
  | finishedWrite => exact h.step_finishedWrite hstep

/-! ### Runs -/

lemma Inv.output_in_order (h : Inv all s r a w) : s.output <+: all :=
  ⟨w.untaken ++ a.unwritten ++ r.blocks ++ s.input, by simpa using h.output_eq⟩

lemma Inv.hashed_in_order (h : Inv all s r a w) : s.hashed <+: all :=
  ⟨a.unhashed ++ r.blocks ++ s.input, by simpa using h.hashed_eq⟩

/-- The call of `FinishedRead` that meets the end of the input holds both events. -/
lemma Inv.of_finished (h : Inv all s .finished a w) : a = .none ∧ w = .held :=
  ⟨h.ahead_eq_none rfl, h.held_iff.mpr rfl⟩

/-- Somebody may go on until `DoCopy` has returned. -/
lemma Inv.main_of_halted (h : Inv all s r a w) (hhalted : Halted step s) :
    s.main = .returned := by
  rcases a with _ | ⟨b, block⟩ | ⟨b, block⟩ | ⟨b, block⟩
  · have hmain := hhalted .main
    have hfill := hhalted (.fill 0)
    have hcompletes := hhalted (.readCompletes 0)
    have hworker := hhalted (.worker 0)
    rcases r with _ | b | ⟨b, block⟩ | ⟨b, block⟩ | ⟨b, block⟩ | ⟨b, block⟩ | _
    · simp [step, h.main_iff.mpr rfl] at hmain
    · simp [step, h.reads_eq, Reader.reads] at hfill
    · simp [step, h.reads_eq, Reader.reads] at hcompletes
    · simp [step, h.workers_eq, Reader.workers, Ahead.workers, workerStep,
        h.hashReady_iff.mpr ⟨rfl, rfl⟩] at hworker
    · have htake := hhalted (.take 0)
      have hwriteCompletes := hhalted (.writeCompletes 0)
      have hfinishedWrite := hhalted .finishedWrite
      rcases w with _ | _ | _ | _ | _
      · simp [step, h.workers_eq, Reader.workers, Ahead.workers, workerStep,
          h.writerReady_iff.mpr rfl] at hworker
      · exact absurd (h.held_iff.mp rfl) (by simp [holdsWriter])
      · simp [step, h.writes_eq, Writer.writes] at htake
      · simp [step, h.writes_eq, Writer.writes] at hwriteCompletes
      · simp [step, h.finishedWrites_eq, Writer.finishedWrites] at hfinishedWrite
    · simp only [step, h.workers_eq, Reader.workers, Ahead.workers, workerStep, List.nil_append,
        List.getElem?_cons_zero] at hworker
      split at hworker <;> cases hworker
    · rcases h.done_iff.mpr rfl with hdone | hreturned
      · rcases hplace : s.main with _ | _ | _
        · cases h.main_iff.mp hplace
        · simp [step, hplace, hdone] at hmain
        · rfl
      · exact hreturned
  all_goals
    have hworker := hhalted (.worker 0)
    simp [step, h.workers_eq, Ahead.workers, workerStep] at hworker

def Read.measure (t : Read) : Nat :=
  match t.result with
  | none => 5
  | some 0 => 4
  | some _ => 15

def Worker.measure (w : Worker) : Nat :=
  match w.place with
  | .hashReady => if w.result = 0 then 3 else 14
  | .writerReady => if w.result = 0 then 2 else 13
  | .readMore => if w.result = 0 then 1 else 12
  | .writeMore => 6
  | .transformBlock => 2
  | .setHashReady => 1

def Write.measure (w : Write) : Nat :=
  if w.taken then 2 else 3

/-- A bound on the number of steps to come. -/
def State.measure (s : State) : Nat :=
  (match s.main with | .readMore => 7 | .waiting => 1 | .returned => 0) + 11 * s.input.length +
    (s.reads.map Read.measure).sum + (s.workers.map Worker.measure).sum +
    (s.writes.map Write.measure).sum + s.finishedWrites

lemma sum_map_set {α : Type*} (f : α → Nat) {l : List α} {i : Nat} {x : α} (y : α)
    (hi : l[i]? = some x) : ((l.set i y).map f).sum + f x = (l.map f).sum + f y := by
  induction l generalizing i with
  | nil => cases hi
  | cons z l ih =>
    cases i with
    | zero =>
      obtain rfl : z = x := by simpa using hi
      simp only [List.set_cons_zero, List.map_cons, List.sum_cons]
      omega
    | succ i =>
      have := ih (show l[i]? = some x by simpa using hi)
      simp only [List.set_cons_succ, List.map_cons, List.sum_cons]
      omega

lemma sum_map_eraseIdx {α : Type*} (f : α → Nat) {l : List α} {i : Nat} {x : α}
    (hi : l[i]? = some x) : ((l.eraseIdx i).map f).sum + f x = (l.map f).sum := by
  obtain ⟨hlt, rfl⟩ := List.getElem?_eq_some_iff.mp hi
  have hsum := List.CommMonoid.add_sum_eraseIdx (l := l.map f) (i := i) (by simpa using hlt)
  rw [List.eraseIdx_map, List.getElem_map] at hsum
  omega

lemma measure_workerStep {i : Nat} {worker : Worker} (hget : s.workers[i]? = some worker)
    (hstep : workerStep s i worker = some s') : s'.measure < s.measure := by
  obtain ⟨result, place⟩ := worker
  have hset (place' : WorkerPlace) := sum_map_set Worker.measure ⟨result, place'⟩ hget
  have herase := sum_map_eraseIdx Worker.measure hget
  cases place with
  | hashReady | writerReady =>
    simp only [workerStep] at hstep
    split at hstep
    · cases hstep
      have hplace := hset .writerReady
      have hplace' := hset .readMore
      simp only [State.measure, Worker.measure] at hplace hplace' ⊢
      split at hplace <;> simp_all <;> omega
    · cases hstep
  | readMore =>
    simp only [workerStep] at hstep
    split at hstep
    · next hzero =>
      cases hstep
      simp only [State.measure, Worker.measure, hzero, if_true] at herase ⊢
      omega
    · next hne =>
      cases hstep
      have hplace := hset .writeMore
      simp only [State.measure, Worker.measure, readMore, List.map_append, List.sum_append,
        List.map_singleton, List.sum_singleton, Read.measure, hne, if_false] at hplace ⊢
      omega
  | writeMore =>
    cases hstep
    have hplace := hset .transformBlock
    simp only [State.measure, Worker.measure, List.map_append, List.sum_append,
      List.map_singleton, List.sum_singleton, Write.measure, Bool.false_eq_true, if_false]
      at hplace ⊢
    omega
  | transformBlock =>
    cases hstep
    have hplace := hset .setHashReady
    simp only [State.measure, Worker.measure] at hplace ⊢
    omega
  | setHashReady =>
    cases hstep
    simp only [State.measure, Worker.measure] at herase ⊢
    omega

/-- The measure falls in every step. -/
lemma measure_step (e : Event) (s s' : State) (hstep : step e s = some s') :
    s'.measure < s.measure := by
  cases e with
  | main =>
    rcases hmain : s.main with _ | _ | _ <;> simp only [step, hmain] at hstep
    · cases hstep
      simp only [State.measure, readMore, hmain, List.map_append, List.sum_append,
        List.map_singleton, List.sum_singleton, Read.measure]
      omega
    · split at hstep
      · cases hstep
        simp only [State.measure, hmain]
        omega
      · cases hstep
    · cases hstep
  | fill i =>
    rcases hget : s.reads[i]? with _ | ⟨buffer, _ | result⟩ <;> simp only [step, hget] at hstep
    · cases hstep
    · cases hstep
      have hset := sum_map_set Read.measure ⟨buffer, some (s.input.headD []).length⟩ hget
      rcases hinput : s.input with _ | ⟨_ | ⟨x, xs⟩, rest⟩ <;>
        simp [State.measure, hinput, Read.measure] at hset ⊢ <;> omega
    · cases hstep
  | readCompletes i =>
    rcases hget : s.reads[i]? with _ | ⟨buffer, _ | result⟩ <;> simp only [step, hget] at hstep
    · cases hstep
    · cases hstep
    · cases hstep
      have herase := sum_map_eraseIdx Read.measure hget
      cases result <;>
        simp [State.measure, Read.measure, Worker.measure] at herase ⊢ <;> omega
  | worker i =>
    rcases hget : s.workers[i]? with _ | worker <;> simp only [step, hget] at hstep
    · cases hstep
    · exact measure_workerStep hget hstep
  | take i =>
    rcases hget : s.writes[i]? with _ | ⟨buffer, count, _ | _⟩ <;> simp only [step, hget] at hstep
    · cases hstep
    · cases hstep
      have hset := sum_map_set Write.measure ⟨buffer, count, true⟩ hget
      simp only [State.measure, Write.measure, if_true, Bool.false_eq_true, if_false] at hset ⊢
      omega
    · cases hstep
  | writeCompletes i =>
    rcases hget : s.writes[i]? with _ | ⟨buffer, count, _ | _⟩ <;> simp only [step, hget] at hstep
    · cases hstep
    · cases hstep
    · cases hstep
      have herase := sum_map_eraseIdx Write.measure hget
      simp only [State.measure, Write.measure, if_true] at herase ⊢
      omega
  | finishedWrite =>
    simp only [step] at hstep
    split at hstep
    · cases hstep
      simp only [State.measure]
      omega
    · cases hstep

lemma run_inv (hall : ∀ block ∈ all, block ≠ []) {schedule : List Event}
    (hrun : run step schedule (start all) = some s) : ∃ r a w, Inv all s r a w :=
  run_invariant (fun s => ∃ r a w, Inv all s r a w) (inv_step hall) hrun
    ⟨_, _, _, inv_start all⟩

end InlineHashCalculator

open InlineHashCalculator

/-- In every order of the events the blocks are written and hashed in the order of the input, one
write at a time, and all of them have been before `DoCopy` returns, as it does in the end. -/
theorem doCopy_pipelined {blocks : List (List Byte)} (hblocks : ∀ block ∈ blocks, block ≠ [])
    {schedule : List Event} {s : State} (hrun : run step schedule (start blocks) = some s) :
    s.output <+: blocks ∧ s.hashed <+: blocks ∧ s.writes.length + s.finishedWrites ≤ 1 ∧
      (s.done = true ∨ s.main = .returned →
        s.reads = [] ∧ s.workers = [] ∧ s.writes = [] ∧ s.finishedWrites = 0 ∧
          s.output = blocks ∧ s.hashed = blocks) ∧
      schedule.length ≤ 11 * blocks.length + 7 ∧ (Halted step s → s.main = .returned) := by
  obtain ⟨r, a, w, h⟩ := run_inv hblocks hrun
  refine ⟨h.output_in_order, h.hashed_in_order, ?_, fun hdone => ?_, ?_, h.main_of_halted⟩
  · rw [h.writes_eq, h.finishedWrites_eq]
    cases w <;> simp [Writer.writes, Writer.finishedWrites]
  · obtain rfl := h.done_iff.mp hdone
    obtain ⟨rfl, rfl⟩ := h.of_finished
    have hinput := h.input_of_atEnd rfl
    refine ⟨h.reads_eq, h.workers_eq, h.writes_eq, h.finishedWrites_eq, ?_, ?_⟩
    · simpa [Writer.untaken, Ahead.unwritten, Reader.blocks, hinput] using h.output_eq
    · simpa [Ahead.unhashed, Reader.blocks, hinput] using h.hashed_eq
  · have hmeasure := length_add_measure_le measure_step hrun
    have hstart : (start blocks).measure = 11 * blocks.length + 7 := by
      simp [State.measure, start, Nat.add_comm]
    omega

/-- The second block is read before the first one is written, and the end of the input is met before
the second one is. -/
def overlapping : List Event :=
  [.main, .fill 0, .readCompletes 0, .worker 0, .worker 0, .worker 0, .fill 0, .worker 0,
    .readCompletes 0, .worker 0, .worker 0, .worker 0, .take 0, .writeCompletes 0, .finishedWrite,
    .worker 0, .worker 0, .fill 0, .readCompletes 0, .worker 0, .worker 0, .worker 0, .worker 0,
    .take 0, .writeCompletes 0, .finishedWrite, .worker 0, .worker 0, .main]

theorem doCopy_pipelined_twoBlocks :
    ∃ s, run step overlapping (start [[7], [8, 9]]) = some s ∧ s.main = .returned ∧
      s.output = [[7], [8, 9]] ∧ s.hashed = [[7], [8, 9]] := by
  have hreturns : (run step overlapping (start [[7], [8, 9]])).map State.main = some .returned :=
    rfl
  obtain ⟨s, hrun, hmain⟩ := Option.map_eq_some_iff.mp hreturns
  exact ⟨s, hrun, hmain, ((doCopy_pipelined (by simp) hrun).2.2.2.1 (Or.inr hmain)).2.2.2.2⟩

end BackupProgram
