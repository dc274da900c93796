import BackupProgram.Lib.Loops
import BackupProgram.Native.Streams

/-!
# Compressed streams

`lzma_code` runs a coder on an input and an output buffer and supervises the order of the calls.
`LzmaOutputStream` refills the input with what is written to it and passes the output on whenever the
output buffer is full; `LzmaInputStream` refills the input from the stream below until the caller's
buffer is full.
-/

namespace BackupProgram

open CircularBuffer Loops
open DotNetInputStream (ReadResult)

/-! ### `lzma_code` -/

inductive LzmaAction where
  | run
  | syncFlush
  | fullFlush
  | finish
  | fullBarrier
deriving DecidableEq

inductive LzmaRet where
  | ok
  | streamEnd
  | noCheck
  | unsupportedCheck
  | getCheck
  | memError
  | memlimitError
  | formatError
  | optionsError
  | dataError
  | bufError
  | progError
  | timedOut
deriving DecidableEq

inductive LzmaSequence where
  | run
  | syncFlush
  | fullFlush
  | finish
  | fullBarrier
  | ended
  | failed
deriving DecidableEq

def LzmaAction.sequence : LzmaAction → LzmaSequence
  | run => .run
  | syncFlush => .syncFlush
  | fullFlush => .fullFlush
  | finish => .finish
  | fullBarrier => .fullBarrier

/-- What one call of a coder does: how much of the input it consumes, and what it appends to the
output. -/
structure Coded (σ : Type) where
  coder : σ
  inPos : Nat
  out : List Byte
  ret : LzmaRet

/-- `lzma_next_coder`: `code` is handed the input and the room for output. -/
structure LzmaNextCoder (σ : Type) where
  supportedActions : LzmaAction → Bool
  code : σ → List Byte → Nat → LzmaAction → Coded σ

/-- `lzma_stream` with its internal data. `nextIn` are the `avail_in` bytes of the input; the output
goes to `memory`, from index `nextOut` on; `availIn` is the internal copy. -/
structure LzmaStream (σ : Type) where
  nextIn : List Byte
  memory : List Byte
  nextOut : Nat
  availOut : Nat
  coder : σ
  sequence : LzmaSequence
  availIn : Nat
  allowBufError : Bool

def LzmaStream.init {σ : Type} (coder : σ) : LzmaStream σ where
  nextIn := []
  memory := []
  nextOut := 0
  availOut := 0
  coder := coder
  sequence := .run
  availIn := 0
  allowBufError := false

variable {σ : Type} {c : LzmaNextCoder σ}

namespace LzmaStream

/-- The sequence a call goes on with, or what it returns without calling the coder. -/
def enter (s : LzmaStream σ) (action : LzmaAction) : Except LzmaRet LzmaSequence :=
  match s.sequence with
  | .run => .ok action.sequence
  | .ended => .error .streamEnd
  | .failed => .error .progError
  | sequence =>
    if sequence = action.sequence ∧ s.availIn = s.nextIn.length then .ok sequence
    else .error .progError

/-- Behind a call of the coder. -/
def advance (s : LzmaStream σ) (sequence : LzmaSequence) (coded : Coded σ) : LzmaStream σ where
  nextIn := s.nextIn.drop coded.inPos
  memory := overwrite s.memory s.nextOut coded.out
  nextOut := s.nextOut + coded.out.length
  availOut := s.availOut - coded.out.length
  coder := coded.coder
  sequence := sequence
  availIn := (s.nextIn.drop coded.inPos).length
  allowBufError := s.allowBufError

/-- The second call in a row that makes no progress is an error. -/
def finishCode (s : LzmaStream σ) (coded : Coded σ) : LzmaRet × LzmaStream σ :=
  match coded.ret with
  | .ok =>
    if coded.out = [] ∧ coded.inPos = 0 then
      if s.allowBufError then (.bufError, s) else (.ok, { s with allowBufError := true })
    else (.ok, { s with allowBufError := false })
  | .timedOut => (.ok, { s with allowBufError := false })
  | .streamEnd =>
    let sequence :=
      match s.sequence with
      | .syncFlush | .fullFlush | .fullBarrier => .run
      | _ => .ended
    (.streamEnd, { s with sequence := sequence, allowBufError := false })
  | .noCheck | .unsupportedCheck | .getCheck | .memlimitError =>
    (coded.ret, { s with allowBufError := false })
  | _ => (coded.ret, { s with sequence := .failed })

end LzmaStream

def lzmaCode (c : LzmaNextCoder σ) (s : LzmaStream σ) (action : LzmaAction) :
    LzmaRet × LzmaStream σ :=
  if c.supportedActions action = false then (.progError, s)
  else
    match s.enter action with
    | .error ret => (ret, s)
    | .ok sequence =>
      let coded := c.code s.coder s.nextIn s.availOut action
      (s.advance sequence coded).finishCode coded

lemma take_overwrite_append {memory bytes : List Byte} {i : Nat} (hi : i ≤ memory.length) :
    (overwrite memory i bytes).take (i + bytes.length) = memory.take i ++ bytes := by
  have hlen : (memory.take i ++ bytes).length = i + bytes.length := by
    simp [hi]
  rw [overwrite, ← hlen, List.take_left]

lemma LzmaStream.enter_run {s : LzmaStream σ} (h : s.sequence = .run) (action : LzmaAction) :
    s.enter action = .ok action.sequence := by
  rw [enter, h]

lemma LzmaStream.enter_finish {s : LzmaStream σ} (h : s.sequence = .finish)
    (hin : s.availIn = s.nextIn.length) : s.enter .finish = .ok .finish := by
  rw [enter, h]
  simp [LzmaAction.sequence, hin]

lemma lzmaCode_of_enter {s : LzmaStream σ} {action : LzmaAction} {sequence : LzmaSequence}
    (hsupported : c.supportedActions action = true) (henter : s.enter action = .ok sequence) :
    lzmaCode c s action =
      (s.advance sequence (c.code s.coder s.nextIn s.availOut action)).finishCode
        (c.code s.coder s.nextIn s.availOut action) := by
  simp [lzmaCode, hsupported, henter]

lemma lzmaCode_ended {s : LzmaStream σ} {action : LzmaAction} (h : s.sequence = .ended)
    (hsupported : c.supportedActions action = true) : lzmaCode c s action = (.streamEnd, s) := by
  simp [lzmaCode, hsupported, LzmaStream.enter, h]

/-- No progress is made in a call. -/
def Coded.Idle (coded : Coded σ) : Prop := coded.out = [] ∧ coded.inPos = 0

instance (coded : Coded σ) : Decidable coded.Idle := inferInstanceAs (Decidable (_ ∧ _))

lemma LzmaStream.finishCode_ok {s : LzmaStream σ} {coded : Coded σ} (h : coded.ret = .ok) :
    (s.finishCode coded).1 = .bufError ∧ coded.Idle ∧ s.allowBufError = true ∨
      s.finishCode coded = (.ok, { s with allowBufError := decide coded.Idle }) ∧
        (coded.Idle → s.allowBufError = false) := by
  by_cases hidle : coded.Idle
  · have hif : coded.out = [] ∧ coded.inPos = 0 := hidle
    rcases hallow : s.allowBufError with _ | _
    · right
      simp [finishCode, h, hif, hallow, Coded.Idle]
    · left
      exact ⟨by simp [finishCode, h, hif, hallow], hidle, rfl⟩
  · have hif : ¬ (coded.out = [] ∧ coded.inPos = 0) := hidle
    right
    simp only [finishCode, h, hif, hidle, if_false, decide_false]
    exact ⟨trivial, False.elim⟩

/-! ### Writing -/

/-- The model is out of fuel, or an `LzmaOperationException`. -/
inductive LzmaFailure where
  | stuck
  | operation (message : String)
deriving DecidableEq

/-- A call of the wrapped stream. -/
inductive OutCall where
  | write (bytes : List Byte)
  | flush
deriving DecidableEq

def OutCall.bytes : OutCall → List Byte
  | write bytes => bytes
  | flush => []

/-- `stream` are the calls of the wrapped stream; the output buffer is the memory of `lstream`. -/
structure LzmaOutputStream (σ : Type) where
  stream : List OutCall
  lstream : LzmaStream σ
  action : LzmaAction

namespace LzmaOutputStream

/-- The constructor; `coder` is the encoder as it has been initialised. -/
def new (coder : σ) (bufferSize : Nat) : LzmaOutputStream σ where
  stream := []
  lstream := { LzmaStream.init coder with
    memory := List.replicate bufferSize 0
    availOut := bufferSize }
  action := .run

/-- Whether the caller is to go on. -/
def passDataToStream (s : LzmaOutputStream σ) (ret : LzmaRet) :
    Except LzmaFailure (LzmaOutputStream σ × Bool) :=
  let outputBuffer := s.lstream.memory
  let s :=
    if s.lstream.availOut = 0 ∨ ret = .streamEnd then
      let writeSize := outputBuffer.length - s.lstream.availOut
      { s with
        stream := s.stream ++ [.write (outputBuffer.take writeSize)]
        lstream := { s.lstream with nextOut := 0, availOut := outputBuffer.length } }
    else s
  match ret with
  | .ok => .ok (s, true)
  | .streamEnd => .ok (s, false)
  | .memError => .error (.operation "Memory allocation failed.")
  | .dataError => .error (.operation "File size limits exceeded.")
  | _ => .error (.operation "Unknown error.")

/-- One call of the encoder. -/
def code (c : LzmaNextCoder σ) (s : LzmaOutputStream σ) :
    Except LzmaFailure (LzmaOutputStream σ × Bool) :=
  let (ret, lstream) := lzmaCode c s.lstream s.action
  passDataToStream { s with lstream := lstream } ret

/-- The loop of `write`, with what is left of the buffer. -/
def writeRound (c : LzmaNextCoder σ) (p : LzmaOutputStream σ × List Byte) :
    Except LzmaFailure (Round (LzmaOutputStream σ × List Byte) (LzmaOutputStream σ)) :=
  let (s, buffer) := p
  if s.lstream.nextIn = [] then
    if buffer = [] then .ok (.done s)
    else do
      let (s, more) ← code c { s with lstream := { s.lstream with nextIn := buffer } }
      pure (if more then .again (s, []) else .done s)
  else do
    let (s, more) ← code c s
    pure (if more then .again (s, buffer) else .done s)

def write (c : LzmaNextCoder σ) (fuel : Nat) (s : LzmaOutputStream σ) (buffer : List Byte) :
    Except LzmaFailure (LzmaOutputStream σ) :=
  loop .stuck (writeRound c) fuel (s, buffer)

/-- The loop of `flush`. -/
def flushRound (c : LzmaNextCoder σ) (s : LzmaOutputStream σ) :
    Except LzmaFailure (Round (LzmaOutputStream σ) (LzmaOutputStream σ)) := do
  let (s, more) ← code c s
  pure (if more then .again s else .done s)

def flush (c : LzmaNextCoder σ) (fuel : Nat) (s : LzmaOutputStream σ) :
    Except LzmaFailure (LzmaOutputStream σ) :=
  if s.action ≠ .run then .ok s
  else do
    let s ← loop .stuck (flushRound c) fuel { s with action := .finish }
    pure { s with stream := s.stream ++ [.flush] }

/-- The destructor. -/
def destroy (c : LzmaNextCoder σ) (fuel : Nat) (s : LzmaOutputStream σ) :
    Except LzmaFailure (LzmaOutputStream σ) :=
  flush c fuel s

def call (c : LzmaNextCoder σ) (fuel : Nat) (s : LzmaOutputStream σ) :
    OutCall → Except LzmaFailure (LzmaOutputStream σ)
  | .write buffer => write c fuel s buffer
  | .flush => flush c fuel s

/-- From the constructor to the destructor, with the calls in between. -/
def session (c : LzmaNextCoder σ) (fuel : Nat) (coder : σ) (bufferSize : Nat)
    (calls : List OutCall) : Except LzmaFailure (LzmaOutputStream σ) := do
  let s ← calls.foldlM (call c fuel) (new coder bufferSize)
  destroy c fuel s

/-- The bytes passed to the wrapped stream. -/
def delivered (s : LzmaOutputStream σ) : List Byte := s.stream.flatMap OutCall.bytes

end LzmaOutputStream

/-! ### Reading -/

/-- A stream that has `rest` left and would like to return `transferred k` bytes for the `k`-th
read. It finds out that it is at its end when it has nothing to return, or before if it
`knowsEnd`. -/
structure WrappedInStream where
  rest : List Byte
  transferred : Nat → Nat
  knowsEnd : Bool
  completed : Nat := 0
  sawEnd : Bool := false

namespace WrappedInStream

def eof (s : WrappedInStream) : Bool := s.sawEnd || (s.knowsEnd && s.rest.isEmpty)

/-- At least one byte is returned unless none is left or none is asked for. -/
def read (s : WrappedInStream) (size : Nat) : List Byte × WrappedInStream :=
  let n := min (max 1 (s.transferred s.completed)) (min size s.rest.length)
  (s.rest.take n,
    { s with
      rest := s.rest.drop n
      completed := s.completed + 1
      sawEnd := s.sawEnd || n = 0 })

end WrappedInStream

structure LzmaInputStream (σ : Type) where
  stream : WrappedInStream
  lstream : LzmaStream σ
  action : LzmaAction
  bufferSize : Nat
  atEof : Bool

namespace LzmaInputStream

/-- The constructor; `coder` is the decoder as it has been initialised. -/
def new (coder : σ) (stream : WrappedInStream) (bufferSize : Nat) : LzmaInputStream σ where
  stream := stream
  lstream := LzmaStream.init coder
  action := .run
  bufferSize := bufferSize
  atEof := false

/-- The input buffer is refilled when it is empty. -/
def refill (s : LzmaInputStream σ) : LzmaInputStream σ :=
  if s.lstream.nextIn = [] ∧ s.stream.eof = false then
    let (bytes, stream) := s.stream.read s.bufferSize
    { s with
      stream := stream
      lstream := { s.lstream with nextIn := bytes }
      action := if stream.eof then .finish else s.action }
  else s

def message : LzmaRet → String
  | .memError => "Memory allocation failed."
  | .formatError => "The input is not in the .xz format."
  | .optionsError => "Unsupported compression options."
  | .dataError => "Compressed file is corrupt."
  | .bufError => "Compressed file is truncated or otherwise corrupt."
  | _ => "Unknown error."

/-- The loop of `read`. -/
def readRound (c : LzmaNextCoder σ) (s : LzmaInputStream σ) :
    Except LzmaFailure (Round (LzmaInputStream σ) (LzmaInputStream σ)) :=
  if 0 < s.lstream.availOut then
    let s := s.refill
    let (ret, lstream) := lzmaCode c s.lstream s.action
    match ret with
    | .ok => .ok (.again { s with lstream := lstream })
    | .streamEnd => .ok (.done { s with lstream := lstream })
    | _ => .error (.operation (message ret))
  else .ok (.done s)

/-- `read` into a buffer of `size` bytes at the beginning of `memory`: how many bytes it returns,
the memory, and the stream. -/
def read (c : LzmaNextCoder σ) (fuel : Nat) (s : LzmaInputStream σ) (memory : List Byte)
    (size : Nat) : Except LzmaFailure (Nat × List Byte × LzmaInputStream σ) :=
  if s.atEof then .ok (0, memory, s)
  else do
    let s ← loop .stuck (readRound c) fuel
      { s with lstream := { s.lstream with memory := memory, nextOut := 0, availOut := size } }
    let ret := size - s.lstream.availOut
    pure (ret, s.lstream.memory, { s with atEof := ret = 0 ∧ size ≠ 0 })

def eof (s : LzmaInputStream σ) : Bool := s.atEof

/-- One read after the other. -/
def reads (c : LzmaNextCoder σ) (fuel : Nat) :
    LzmaInputStream σ → List Destination → Except LzmaFailure (List ReadResult)
  | _, [] => pure []
  | s, dst :: dsts => do
    let (ret, memory, s) ← read c fuel s dst.memory dst.size
    let results ← reads c fuel s dsts
    pure (⟨ret, memory, s.eof⟩ :: results)

end LzmaInputStream

end BackupProgram
