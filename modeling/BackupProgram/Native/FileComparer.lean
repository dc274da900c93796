import BackupProgram.Native.RsyncableFile
import BackupProgram.Native.TripleSearch

/-!
# The file comparer

`FileComparer` slides a window over the new file, searches it in the table of the old file and
emits the commands of the delta. The bytes it reads are also re-cut into the blocks of the new
file's own digest, which the digest thread takes from a queue. A loop that may not end takes fuel
and returns `none` when it runs out.
-/

namespace BackupProgram

/-- The bytes are those below `size` of the array. -/
structure SimpleBuffer where
  capacity : Nat
  bytes : List Byte

namespace SimpleBuffer

def new (capacity : Nat) : SimpleBuffer := ⟨capacity, []⟩

def full (b : SimpleBuffer) : Bool := b.bytes.length == b.capacity

/-- `operator bool`: there is an array only for a positive capacity. -/
def isAllocated (b : SimpleBuffer) : Bool := b.capacity != 0

end SimpleBuffer

inductive FileComparer.State where
  | initial
  | matching
  | nonMatching
  | final
deriving DecidableEq

structure FileComparer where
  reader : ByteByByteReader
  oldFile : RsyncableFile
  buffer : CircularBuffer
  checksum : RollingChecksum
  newBlockSize : Nat
  newDigest : Digest
  newBuffer : SimpleBuffer
  newTable : List RsyncTableItem
  processingQueue : List SimpleBuffer
  state : FileComparer.State
  result : List RsyncCommand
  newOffset : Nat
  oldOffset : Nat

namespace FileComparer

/-- The constructor; the checksum, the digest and the two offsets are set before they are read. -/
def new (newFile : File) (disk : DiskReads) (oldFile : RsyncableFile) : FileComparer where
  reader := ByteByByteReader.new newFile.bytes disk oldFile.blockSize
  oldFile := oldFile
  buffer := CircularBuffer.new 1
  checksum := 0
  newBlockSize := RsyncableFile.scalerFunction newFile.size
  newDigest := 0
  newBuffer := SimpleBuffer.new (RsyncableFile.scalerFunction newFile.size)
  newTable := []
  processingQueue := []
  state := .initial
  result := []
  newOffset := 0
  oldOffset := 0

/-! ### Feeding the digest thread -/

def processNewBuffer (c : FileComparer) (force : Bool := false) : FileComparer :=
  if !force && !c.newBuffer.full then c
  else
    { c with
      processingQueue := c.processingQueue ++ [c.newBuffer]
      newBuffer := SimpleBuffer.new c.newBuffer.capacity }

def addByte (c : FileComparer) (byte : Byte) : FileComparer :=
  processNewBuffer { c with newBuffer := { c.newBuffer with bytes := c.newBuffer.bytes ++ [byte] } }

/-- The loop of `add_block` over one piece of a block; the buffer always has room for a byte. -/
def addPieceLoop : Nat → FileComparer → List Byte → FileComparer
  | 0, c, _ => c
  | fuel + 1, c, buffer =>
    if buffer.length = 0 then c
    else
      let consumed := min (c.newBuffer.capacity - c.newBuffer.bytes.length) buffer.length
      let newBuffer :=
        { c.newBuffer with bytes := c.newBuffer.bytes ++ buffer.take consumed }
      addPieceLoop fuel (processNewBuffer { c with newBuffer := newBuffer }) (buffer.drop consumed)

def addPiece (c : FileComparer) (buffer : List Byte) : FileComparer :=
  addPieceLoop buffer.length c buffer

def addBlock (c : FileComparer) (buffer : CircularBuffer) : FileComparer :=
  buffer.processWhole addPiece c

/-! ### Reading -/

def readAnotherByte (c : FileComparer) : Option Byte × FileComparer :=
  match c.reader.nextByte with
  | (some dst, reader) => (some dst, addByte { c with reader := reader } dst)
  | (none, reader) => (none, { c with reader := reader })

/-- The block is read to `c.buffer`. -/
def readAnotherBlock (c : FileComparer) : Bool × FileComparer :=
  let (ret, reader, buffer) := c.reader.wholeBlock c.buffer
  let c := { c with reader := reader, buffer := buffer }
  (ret, if ret then c.addBlock buffer else c)

def readMoreData (c : FileComparer) : Bool × FileComparer :=
  let (ret, c) := c.readAnotherBlock
  (ret, if ret then { c with checksum := c.buffer.computeRsyncRollingChecksum } else c)

def nonMatchingReadMoreData (c : FileComparer) : Bool × FileComparer :=
  let size := c.buffer.size
  let (byteToSubtract, buffer) := c.buffer.pop
  let c :=
    { c with
      buffer := buffer
      checksum := subtractRsyncRollingChecksum c.checksum byteToSubtract size }
  match c.readAnotherByte with
  | (some byte, c) =>
    let buffer := c.buffer.push byte
    (true,
      { c with
        buffer := buffer
        checksum := addRsyncRollingChecksum c.checksum byte buffer.size })
  | (none, c) => (decide (c.buffer.size ≠ 0), c)

/-! ### Searching -/

/-- The item an iterator points to. -/
def itemAt (table : List RsyncTableItem) (i : Nat) : RsyncTableItem := table.getD i ⟨0, 0, 0⟩

/-- An iterator that differs from the end of its range is not null. -/
def index (iterator : Option Nat) : Nat := iterator.getD 0

/-- The loop at the end goes round once, or twice if a target offset was given. -/
def search (sha1 : List Byte → Digest) (c : FileComparer) (offsetValid : Bool := false)
    (targetOffset : Nat := 0) : Bool × FileComparer :=
  if c.oldFile.doesNotContain c.checksum then (false, c)
  else
    let table := c.oldFile.rsyncTable
    let (begin0, end0) := tripleSearch 0 table.length fun i =>
      unsignedcmp (itemAt table i).rollingChecksum.toNat c.checksum.toNat
    if begin0 = end0 then (false, c)
    else
      let hash := sha1 (c.buffer.processWhole (· ++ ·) [])
      let (begin1, end1) := tripleSearch (index begin0) (index end0) fun i =>
        memcmp (itemAt table i).complexHash hash
      if begin1 = end1 then (false, c)
      else if !offsetValid then
        (true, { c with oldOffset := (itemAt table (index begin1)).fileOffset })
      else
        let (begin2, end2) := tripleSearch (index begin1) (index end1) fun i =>
          unsignedcmp (itemAt table i).fileOffset targetOffset
        let begin1 := if begin2 ≠ end2 then begin2 else begin1
        (true, { c with oldOffset := (itemAt table (index begin1)).fileOffset })

/-! ### The state machine -/

def matchingIncrement (c : FileComparer) : Nat := c.oldFile.blockSize

def nonMatchingIncrement (_ : FileComparer) : Nat := 1

def resetState (c : FileComparer) : FileComparer := { c with reader := c.reader.seek 0 }

/-- A new command of length zero is pushed to the result. -/
def pushCommand (c : FileComparer) (fileOffset : Nat) (fromOld : Bool) : FileComparer :=
  { c with result := c.result ++ [RsyncCommand.setCopyFromOld ⟨fileOffset, 0⟩ fromOld] }

/-- The new offset and the length of the last command grow by `n`. -/
def growLast (c : FileComparer) (n : Nat) : FileComparer :=
  { c with
    newOffset := c.newOffset + n
    result := c.result.modifyLast (·.addLength n) }

/-- Where the bytes after those of the last command are in the old file. -/
def target (result : List RsyncCommand) : Nat :=
  (result.getLast?.map fun last => last.fileOffset + last.getLength).getD 0

def stateInitial (sha1 : List Byte → Digest) (c : FileComparer) : FileComparer :=
  let c := { c.resetState with newOffset := 0, oldOffset := 0 }
  let (more, c) := c.readMoreData
  if !more then { c with state := .final }
  else
    let (found, c) := c.search sha1
    { c with state := if found then .matching else .nonMatching }

/-- The two nested loops of `state_Matching`; `fresh` says that a round of the outer one begins. -/
def matchingLoop (sha1 : List Byte → Digest) : Nat → Bool → FileComparer → Option FileComparer
  | 0, _, _ => none
  | fuel + 1, fresh, c =>
    let c := if fresh then c.pushCommand c.oldOffset true else c
    let c := c.growLast c.matchingIncrement
    let (more, c) := c.readMoreData
    if !more then some { c with state := .final }
    else
      let target := target c.result
      let (found, c) := c.search sha1 true target
      if !found then some { c with state := .nonMatching }
      else matchingLoop sha1 fuel (c.oldOffset != target) c

def stateMatching (sha1 : List Byte → Digest) (fuel : Nat) (c : FileComparer) :
    Option FileComparer :=
  matchingLoop sha1 fuel true c

/-- The loop of `state_NonMatching`. -/
def nonMatchingLoop (sha1 : List Byte → Digest) : Nat → FileComparer → Option FileComparer
  | 0, _ => none
  | fuel + 1, c =>
    let c := c.growLast c.nonMatchingIncrement
    let (more, c) := c.nonMatchingReadMoreData
    if !more then some { c with state := .final }
    else
      let (found, c) := c.search sha1
      if found then some { c with state := .matching } else nonMatchingLoop sha1 fuel c

def stateNonMatching (sha1 : List Byte → Digest) (fuel : Nat) (c : FileComparer) :
    Option FileComparer :=
  nonMatchingLoop sha1 fuel (c.pushCommand c.newOffset false)

/-! ### The digest thread -/

/-- The loop of the digest thread over the queue, up to a buffer without an array. -/
def threadLoop (sha1 : List Byte → Digest) :
    List SimpleBuffer → Nat → List Byte → List RsyncTableItem → List Byte × List RsyncTableItem
  | [], _, whole, newTable => (whole, newTable)
  | buffer :: queue, offset, whole, newTable =>
    if !buffer.isAllocated then (whole, newTable)
    else
      let item : RsyncTableItem :=
        { rollingChecksum := computeRsyncRollingChecksum buffer.bytes
          complexHash := sha1 buffer.bytes
          fileOffset := offset }
      threadLoop sha1 queue (offset + buffer.bytes.length) (whole ++ buffer.bytes)
        (newTable ++ [item])

/-- The thread has emptied the queue when it ends. -/
def threadFunc (sha1 : List Byte → Digest) (c : FileComparer) : FileComparer :=
  let (whole, newTable) := threadLoop sha1 c.processingQueue 0 [] c.newTable
  { c with processingQueue := [], newDigest := sha1 whole, newTable := sortTable newTable }

def requestThreadStop (c : FileComparer) : FileComparer :=
  let c := c.processNewBuffer true
  { c with processingQueue := c.processingQueue ++ [SimpleBuffer.new 0] }

/-- The thread is told to stop and waited for. -/
def finished (sha1 : List Byte → Digest) (c : FileComparer) : FileComparer :=
  c.requestThreadStop.threadFunc sha1

def processLoop (sha1 : List Byte → Digest) : Nat → FileComparer → Option FileComparer
  | 0, _ => none
  | fuel + 1, c =>
    match c.state with
    | .initial => processLoop sha1 fuel (c.stateInitial sha1)
    | .matching => (c.stateMatching sha1 fuel).bind (processLoop sha1 fuel)
    | .nonMatching => (c.stateNonMatching sha1 fuel).bind (processLoop sha1 fuel)
    | .final => some c

def process (sha1 : List Byte → Digest) (fuel : Nat) (c : FileComparer) : Option FileComparer :=
  (processLoop sha1 fuel { c with state := .initial }).map (finished sha1)

end FileComparer

/-- The constructor that takes the digest from a comparer. -/
def RsyncableFile.ofComparer (comparer : FileComparer) : RsyncableFile where
  sha1 := comparer.newDigest
  rsyncTable := comparer.newTable
  bitmap := RsyncableFile.initBitmap comparer.newTable
  blockSize := comparer.newBlockSize

end BackupProgram
