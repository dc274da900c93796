import BackupProgram.Lib.Loops
import BackupProgram.Native.CircularBuffer

/-!
# Streams on both sides of the bridge

Native code reads from managed streams and writes to them through callbacks, which have buffers of
their own and sizes of 31 bits. Files are read and written by the operating system, which is handed
the lower 32 bits of a size.
-/

namespace BackupProgram

open CircularBuffer Loops

/-- A buffer with room for `size` bytes, as a caller provides it. -/
structure Destination where
  memory : List Byte
  size : Nat
  size_le : size ≤ memory.length

/-- Where a loop stands that fills a buffer: `size` bytes are still asked for, and `ret` bytes have
been read. -/
structure ReadProgress (σ : Type) where
  stream : σ
  memory : List Byte
  size : Nat
  ret : Nat

/-- Bytes are copied behind those that have been read; `dst` is the beginning of the buffer. -/
def ReadProgress.copy {σ : Type} (p : ReadProgress σ) (dst : Nat) (stream : σ) (bytes : List Byte) :
    ReadProgress σ where
  stream := stream
  memory := overwrite p.memory (dst + p.ret) bytes
  size := p.size - bytes.length
  ret := p.ret + bytes.length

/-! ### Managed streams -/

/-- `EncapsulatableInputStream`, over a stream that has `rest` left and would like to return
`transferred k` bytes for the `k`-th read. -/
structure ManagedInputStream where
  rest : List Byte
  transferred : Nat → Nat
  completed : Nat := 0
  eof : Bool := false

/-- At least one byte is returned unless none is left or none is asked for. -/
def ManagedInputStream.read (s : ManagedInputStream) (count : Nat) :
    List Byte × ManagedInputStream :=
  let n := min (max 1 (s.transferred s.completed)) (min count s.rest.length)
  (s.rest.take n,
    { s with
      rest := s.rest.drop n
      completed := s.completed + 1
      eof := s.eof || n = 0 })

/-- The size of the array that bytes go through. -/
def tempLength (size : Nat) : Nat := min 4096 size

/-- The loop of the callback that `GenerateReadCallback` makes. -/
def readCallbackRound (dst temp : Nat) (p : ReadProgress ManagedInputStream) :
    Except Unit (Round (ReadProgress ManagedInputStream) (ReadProgress ManagedInputStream)) :=
  if 0 < p.size ∧ p.stream.eof = false then
    let (bytes, stream) := p.stream.read (min p.size temp)
    .ok (.again (p.copy dst stream bytes))
  else .ok (.done p)

def readCallback (fuel : Nat) (stream : ManagedInputStream) (memory : List Byte) (dst size : Nat) :
    Except Unit (ReadProgress ManagedInputStream) :=
  loop () (readCallbackRound dst (tempLength size)) fuel ⟨stream, memory, size, 0⟩

/-- `std::numeric_limits<int>::max()` -/
def maxReadSize : Nat := 2 ^ 31 - 1

namespace DotNetInputStream

/-- The loop of `read`. -/
def readRound (fuel : Nat) (p : ReadProgress ManagedInputStream) :
    Except Unit (Round (ReadProgress ManagedInputStream) (ReadProgress ManagedInputStream)) :=
  if 0 < p.size ∧ p.stream.eof = false then do
    let q ← readCallback fuel p.stream p.memory p.ret (min p.size maxReadSize)
    pure (.again ⟨q.stream, q.memory, p.size - q.ret, p.ret + q.ret⟩)
  else .ok (.done p)

def read (fuel : Nat) (stream : ManagedInputStream) (dst : Destination) :
    Except Unit (ReadProgress ManagedInputStream) :=
  loop () (readRound fuel) fuel ⟨stream, dst.memory, dst.size, 0⟩

/-- What a call returns and leaves in the buffer, and what `eof` returns afterwards. -/
structure ReadResult where
  ret : Nat
  memory : List Byte
  eof : Bool

/-- One read after the other. -/
def reads (fuel : Nat) : ManagedInputStream → List Destination → Except Unit (List ReadResult)
  | _, [] => pure []
  | stream, dst :: dsts => do
    let p ← read fuel stream dst
    let results ← reads fuel p.stream dsts
    pure (⟨p.ret, p.memory, p.stream.eof⟩ :: results)

end DotNetInputStream

/-! ### Writing to managed streams -/

/-- Where a loop stands that writes a buffer: `size` bytes are left from `offset` on, and the stream
below has received `written`. -/
structure WriteProgress where
  size : Nat
  offset : Nat
  written : List (List Byte)

/-- The loop of the callback that `GenerateWriteCallback` makes. -/
def writeCallbackRound (buffer : List Byte) (temp : Nat) (p : WriteProgress) :
    Except Unit (Round WriteProgress WriteProgress) :=
  if 0 < p.size then
    let written := min p.size temp
    .ok (.again ⟨p.size - written, p.offset + written,
      p.written ++ [slice buffer p.offset written]⟩)
  else .ok (.done p)

def writeCallback (fuel : Nat) (buffer : List Byte) (size : Nat) :
    Except Unit (List (List Byte)) := do
  let p ← loop () (writeCallbackRound buffer (tempLength size)) fuel ⟨size, 0, []⟩
  pure p.written

namespace DotNetOutputStream

/-- The loop of `write`. -/
def writeRound (fuel : Nat) (buffer : List Byte) (p : WriteProgress) :
    Except Unit (Round WriteProgress WriteProgress) :=
  if 0 < p.size then do
    let writeSize := min p.size maxReadSize
    let pieces ← writeCallback fuel (buffer.drop p.offset) writeSize
    pure (.again ⟨p.size - writeSize, p.offset + writeSize, p.written ++ pieces⟩)
  else .ok (.done p)

/-- What the managed stream receives. -/
def write (fuel : Nat) (buffer : List Byte) : Except Unit (List (List Byte)) := do
  let p ← loop () (writeRound fuel buffer) fuel ⟨buffer.length, 0, []⟩
  pure p.written

/-- One write after the other. -/
def writes (fuel : Nat) : List (List Byte) → Except Unit (List (List Byte))
  | [] => pure []
  | buffer :: buffers => do
    let pieces ← write fuel buffer
    let rest ← writes fuel buffers
    pure (pieces ++ rest)

end DotNetOutputStream

/-! ### Files -/

/-- A file that is open for reading. -/
structure FileInputStream where
  file : List Byte
  position : Nat
  transferred : Nat → Nat
  completed : Nat := 0

/-- `ReadFile`, which is asked for `count` bytes and reads at least one of them if there is one. At
the end of the file it succeeds as well. -/
def FileInputStream.readFile (s : FileInputStream) (count : Nat) : List Byte × FileInputStream :=
  let n := min (max 1 (s.transferred s.completed)) (min count (s.file.length - s.position))
  (slice s.file s.position n, { s with position := s.position + n, completed := s.completed + 1 })

def FileInputStream.rest (s : FileInputStream) : List Byte := s.file.drop s.position

/-- The loop of `FileInputStream::read`. -/
def FileInputStream.readRound (p : ReadProgress FileInputStream) :
    Except Unit (Round (ReadProgress FileInputStream) (ReadProgress FileInputStream)) :=
  if 0 < p.size then
    let (bytes, stream) := p.stream.readFile (p.size % 2 ^ 32)
    let q := p.copy 0 stream bytes
    .ok (.again { q with size := if bytes.length > p.size then 0 else q.size })
  else .ok (.done p)

/-- A file that is open for writing, with what has been written to it. -/
structure FileOutputStream where
  file : List Byte
  transferred : Nat → Nat
  completed : Nat := 0

/-- `WriteFile`, which is given `count` bytes and writes at least one of them if there is one. -/
def FileOutputStream.writeFile (s : FileOutputStream) (bytes : List Byte) :
    Nat × FileOutputStream :=
  let n := min (max 1 (s.transferred s.completed)) bytes.length
  (n, { s with file := s.file ++ bytes.take n, completed := s.completed + 1 })

/-- The loop of `FileOutputStream::write`: the stream, the bytes that are left in the buffer, and
how many of them are left to be written. -/
def FileOutputStream.writeRound (p : FileOutputStream × List Byte × Nat) :
    Except Unit (Round (FileOutputStream × List Byte × Nat) FileOutputStream) :=
  let (stream, buffer, size) := p
  if 0 < size then
    let (bytesWritten, stream) := stream.writeFile (buffer.take (size % 2 ^ 32))
    .ok (.again (stream, buffer.drop bytesWritten,
      if bytesWritten > size then 0 else size - bytesWritten))
  else .ok (.done stream)

end BackupProgram
