import BackupProgram.Native.Lzma.Output
import BackupProgram.Native.Streams.Bridge

/-!
# Nested output filters

Output filters are put on top of a stream. What a filter is told to do comes to calls of the stream
below it; nothing comes back from there, so that a nest is run from the outside inwards, each filter
on all the calls of the one above it. The hash and the identity filter pass everything on. The
compression filter writes to a native stream, which calls the stream below while it encodes, when it is
flushed and when it is released.
-/

namespace BackupProgram

open ArchiveReader (unaryCompress unaryDecompress selfDelimiting_unary)
open LzmaOutputStream (Accepting Finished Extends delivered accepting_new)
open Settling

namespace OutputStreams

/-- The model is out of fuel, the encoder fails, or a stream is used that has been disposed. -/
inductive OutputFailure where
  | stuck
  | lzma (message : String)
  | nullReference
  | objectDisposed

def EncoderFails (e : OutputFailure) : Prop := ∃ message, e = .lzma message

inductive StreamCall where
  | write (bytes : List Byte)
  | flush
  | dispose

inductive FilterKind where
  | compression
  | hash
  | identity
deriving DecidableEq

structure FilterSpec where
  kind : FilterKind
  keepOpen : Bool

variable {σ : Type}

/-- What a filter has besides the fields of `OutputFilter`. For a compression filter: the native
stream, whether it has been released, and whether `_filteredStream` is there. -/
inductive FilterState (σ : Type) where
  | compression (native : LzmaOutputStream σ) (released filteredStream : Bool)
  | hash (hashed : List Byte)
  | identity

/-- `stream` says whether `Stream` is there. Of the bytes that have been `received` the source keeps
the number. -/
structure Filter (σ : Type) where
  state : FilterState σ
  keepOpen : Bool
  stream : Bool
  received : List Byte

structure BaseStream where
  bytes : List Byte
  closed : Bool

def BaseStream.call (base : BaseStream) : StreamCall → Except OutputFailure BaseStream
  | .write bytes =>
    if base.closed then .error .objectDisposed
    else .ok { base with bytes := base.bytes ++ bytes }
  | .flush => if base.closed then .error .objectDisposed else .ok base
  | .dispose => .ok { base with closed := true }

def liftLzma {α : Type} : Except LzmaFailure α → Except OutputFailure α
  | .ok a => .ok a
  | .error .stuck => .error .stuck
  | .error (.operation message) => .error (.lzma message)

/-- A call of a native stream crosses the bridge: a write comes in pieces. -/
def bridged : OutCall → Except OutputFailure (List StreamCall)
  | .write bytes =>
    match DotNetOutputStream.write (bytes.length + 1) bytes with
    | .ok pieces => .ok (pieces.map .write)
    | .error _ => .error .stuck
  | .flush => .ok [.flush]

/-- The calls of the stream below since `native`. -/
def callsSince (native native' : LzmaOutputStream σ) : Except OutputFailure (List StreamCall) := do
  let calls ← (native'.stream.drop native.stream.length).mapM bridged
  pure calls.flatten

namespace Filter

def new (coder : σ) (bufferSize : Nat) (spec : FilterSpec) : Filter σ where
  state :=
    match spec.kind with
    | .compression => .compression (LzmaOutputStream.new coder bufferSize) false true
    | .hash => .hash []
    | .identity => .identity
  keepOpen := spec.keepOpen
  stream := true
  received := []

def write (c : LzmaNextCoder σ) (fuel : Nat) (f : Filter σ) (bytes : List Byte) :
    Except OutputFailure (Filter σ × List StreamCall) :=
  if f.stream = false then .error .nullReference
  else
    let f := { f with received := f.received ++ bytes }
    match f.state with
    | .compression native released filteredStream => do
      let native' ← liftLzma (LzmaOutputStream.write c fuel native bytes)
      let calls ← callsSince native native'
      pure ({ f with state := .compression native' released filteredStream }, calls)
    | .hash hashed => .ok ({ f with state := .hash (hashed ++ bytes) }, [.write bytes])
    | .identity => .ok (f, [.write bytes])

def flush (c : LzmaNextCoder σ) (fuel : Nat) (f : Filter σ) :
    Except OutputFailure (Filter σ × List StreamCall) :=
  if f.stream = false then .error .nullReference
  else
    match f.state with
    | .compression native released filteredStream => do
      let native' ← liftLzma (LzmaOutputStream.flush c fuel native)
      let calls ← callsSince native native'
      pure ({ f with state := .compression native' released filteredStream }, calls)
    | .hash _ | .identity => .ok (f, [.flush])

/-- `NativeOutputStream.Dispose`: the destructor of the native stream flushes it, and behind it the
encapsulated stream is released. -/
def releaseNative (c : LzmaNextCoder σ) (fuel : Nat) (native : LzmaOutputStream σ)
    (released : Bool) : Except OutputFailure (LzmaOutputStream σ × List StreamCall) :=
  if released then .ok (native, [])
  else do
    let native' ← liftLzma (LzmaOutputStream.destroy c fuel native)
    let calls ← callsSince native native'
    pure (native', calls ++ [.dispose])

def dispose (c : LzmaNextCoder σ) (fuel : Nat) (f : Filter σ) :
    Except OutputFailure (Filter σ × List StreamCall) :=
  if f.keepOpen then .ok (f, [])
  else
    match f.state with
    | .compression native released filteredStream => do
      let (native, released, calls) ←
        if f.stream then do
          let (native, calls) ← releaseNative c fuel native released
          pure (native, true, calls)
        else pure (native, released, [])
      pure ({ f with state := .compression native released false, stream := false },
        calls ++ if filteredStream then [.dispose] else [])
    | .hash _ | .identity =>
      .ok ({ f with stream := false }, if f.stream then [.dispose] else [])

def call (c : LzmaNextCoder σ) (fuel : Nat) (f : Filter σ) :
    StreamCall → Except OutputFailure (Filter σ × List StreamCall)
  | .write bytes => write c fuel f bytes
  | .flush => flush c fuel f
  | .dispose => dispose c fuel f

/-- All the calls of a filter, with the calls of the stream below that they come to. -/
def run (c : LzmaNextCoder σ) (fuel : Nat) (p : Filter σ × List StreamCall)
    (calls : List StreamCall) : Except OutputFailure (Filter σ × List StreamCall) :=
  calls.foldlM
    (fun p streamCall => do
      let (f, below) ← call c fuel p.1 streamCall
      pure (f, p.2 ++ below)) p

def isCompression (f : Filter σ) : Bool :=
  match f.state with
  | .compression _ _ _ => true
  | _ => false

end Filter

/-- A nest, the outermost filter first, on calls of it. -/
def runNest (c : LzmaNextCoder σ) (fuel : Nat) :
    List (Filter σ) → BaseStream → List StreamCall →
      Except OutputFailure (List (Filter σ) × BaseStream)
  | [], base, calls => do
    let base ← calls.foldlM BaseStream.call base
    pure ([], base)
  | f :: fs, base, calls => do
    let (f, below) ← Filter.run c fuel (f, []) calls
    let (fs, base) ← runNest c fuel fs base below
    pure (f :: fs, base)

/-- The buffers are written to the outermost filter, and then it is disposed. -/
def session (c : LzmaNextCoder σ) (fuel : Nat) (coder : σ) (bufferSize : Nat)
    (specs : List FilterSpec) (buffers : List (List Byte)) :
    Except OutputFailure (List (Filter σ) × BaseStream) :=
  runNest c fuel (specs.map (Filter.new coder bufferSize)) ⟨[], false⟩
    (buffers.map .write ++ [.dispose])

/-- What has been written to a nest. -/
def receivedBy (fs : List (Filter σ)) (base : BaseStream) : List Byte :=
  match fs with
  | [] => base.bytes
  | f :: _ => f.received

/-- Below each compression filter there is the encoding of what was written to it. -/
def Complete (encode : List Byte → List Byte) (fs : List (Filter σ)) (base : BaseStream) : Prop :=
  ∀ outer f inner, fs = outer ++ f :: inner → f.isCompression = true →
    receivedBy inner base = encode f.received

/-- Neither the outermost compression filter nor a filter outside it keeps its stream open. -/
def Reached (specs : List FilterSpec) : Prop :=
  ∀ outer spec inner, specs = outer ++ spec :: inner → spec.kind = .compression →
    (∀ other ∈ outer, other.kind ≠ .compression) →
    ∀ other ∈ outer ++ [spec], other.keepOpen = false

variable {c : LzmaNextCoder σ} {encode : List Byte → List Byte}
  {running : σ → List Byte → List Byte → Prop}
  {finishing : σ → List Byte → List Byte → List Byte → Prop}

/-! ### Across the bridge -/

lemma settles_liftLzma {α : Type} {post : α → Prop} {f : Nat → Except LzmaFailure α}
    (h : Settles LzmaOutputStream.Thrown post f) :
    Settles EncoderFails post fun fuel => liftLzma (f fuel) := by
  rcases h with ⟨n, e, ⟨message, rfl⟩, herror⟩ | ⟨n, a, ha, hok⟩
  · exact Or.inl ⟨n, .lzma message, ⟨message, rfl⟩,
      fun fuel hfuel => congrArg liftLzma (herror fuel hfuel)⟩
  · exact Or.inr ⟨n, a, ha, fun fuel hfuel => congrArg liftLzma (hok fuel hfuel)⟩

lemma exists_bridged (pieces : List (List Byte)) :
    ∃ (calls : List (List StreamCall)) (buffers : List (List Byte)),
      (pieces.map OutCall.write).mapM bridged = .ok calls ∧
      calls.flatten = buffers.map StreamCall.write ∧ buffers.flatten = pieces.flatten := by
  induction pieces with
  | nil => exact ⟨[], [], rfl, rfl, rfl⟩
  | cons piece pieces ih =>
    obtain ⟨calls, buffers, hcalls, hflatten, hbuffers⟩ := ih
    obtain ⟨first, hfirst, hpiece⟩ :=
      DotNetOutputStream.write_spec piece (Nat.lt_succ_self piece.length)
    refine ⟨first.map .write :: calls, first ++ buffers, ?_, ?_, ?_⟩
    · rw [List.map_cons, List.mapM_cons, hcalls, bridged, hfirst]
      rfl
    · rw [List.flatten_cons, hflatten, List.map_append]
    · rw [List.flatten_append, hpiece, hbuffers, List.flatten_cons]

/-- The bytes that a native stream has written come to the stream below. -/
lemma exists_callsSince {native native' : LzmaOutputStream σ} {pieces : List (List Byte)}
    (flushed : Bool) (h : native'.stream = native.stream ++ pieces.map .write ++
      if flushed then [.flush] else []) :
    ∃ buffers : List (List Byte), callsSince native native' =
        .ok (buffers.map .write ++ if flushed then [.flush] else []) ∧
      native.delivered ++ buffers.flatten = native'.delivered := by
  obtain ⟨calls, buffers, hcalls, hflatten, hbuffers⟩ := exists_bridged pieces
  refine ⟨buffers, ?_, ?_⟩
  · rw [callsSince, h, List.append_assoc, List.drop_left, List.mapM_append, hcalls]
    cases flushed
    · simp [hflatten, pure, Except.pure, bind, Except.bind]
    · simp [hflatten, bridged, pure, Except.pure, bind, Except.bind]
  · rw [hbuffers, delivered, delivered, h]
    cases flushed <;> simp [OutCall.bytes, List.flatMap_map, List.flatMap_id']

/-! ### One filter -/

/-- Before it is flushed; the buffers have come to the stream below. -/
def Writing (running : σ → List Byte → List Byte → Prop) (f : Filter σ)
    (buffers : List (List Byte)) : Prop :=
  f.stream = true ∧
    match f.state with
    | .compression native released filteredStream =>
      released = false ∧ filteredStream = true ∧ Accepting running native f.received ∧
        native.delivered = buffers.flatten
    | .hash hashed => hashed = f.received ∧ buffers.flatten = f.received
    | .identity => buffers.flatten = f.received

/-- After it has been flushed. -/
def Flushed (encode : List Byte → List Byte) (f : Filter σ) (buffers : List (List Byte)) : Prop :=
  f.stream = true ∧
    match f.state with
    | .compression native released filteredStream =>
      released = false ∧ filteredStream = true ∧ Finished native buffers.flatten ∧
        buffers.flatten = encode f.received
    | .hash hashed => hashed = f.received ∧ buffers.flatten = f.received
    | .identity => buffers.flatten = f.received

/-- The fields of a filter that no call changes. -/
def SameKind (f f' : Filter σ) : Prop :=
  f'.isCompression = f.isCompression ∧ f'.keepOpen = f.keepOpen

lemma Writing.write (he : Encoder c encode running finishing) {f : Filter σ}
    {buffers : List (List Byte)} (h : Writing running f buffers) (bytes : List Byte) :
    Settles EncoderFails (fun p => SameKind f p.1 ∧ p.1.received = f.received ++ bytes ∧
        ∃ more : List (List Byte), p.2 = more.map StreamCall.write ∧
          Writing running p.1 (buffers ++ more))
      fun fuel => Filter.write c fuel f bytes := by
  obtain ⟨state, keepOpen, stream, received⟩ := f
  obtain ⟨rfl, h⟩ := h
  cases state with
  | compression native released filteredStream =>
    obtain ⟨rfl, rfl, haccepting, hdelivered⟩ := h
    simp only [Filter.write, Bool.true_eq_false, if_false]
    refine (settles_liftLzma (haccepting.write he bytes)).bind fun native' hnative => ?_
    obtain ⟨haccepting', pieces, hpieces⟩ := hnative
    obtain ⟨more, hcalls, hmore⟩ := exists_callsSince false (by simpa using hpieces)
    simp only [hcalls]
    refine settles_ok ⟨⟨rfl, rfl⟩, rfl, more, by simp, rfl, rfl, rfl, haccepting', ?_⟩
    rw [← hmore, hdelivered, List.flatten_append]
  | hash hashed =>
    obtain ⟨rfl, hbuffers⟩ := h
    simp only [Filter.write, Bool.true_eq_false, if_false]
    refine settles_ok ⟨⟨rfl, rfl⟩, rfl, [bytes], rfl, rfl, rfl, ?_⟩
    simp [hbuffers]
  | identity =>
    simp only [Filter.write, Bool.true_eq_false, if_false]
    refine settles_ok ⟨⟨rfl, rfl⟩, rfl, [bytes], rfl, rfl, ?_⟩
    have hbuffers : buffers.flatten = received := h
    simp [hbuffers]

lemma Writing.flush (he : Encoder c encode running finishing) {f : Filter σ}
    {buffers : List (List Byte)} (h : Writing running f buffers) :
    Settles EncoderFails (fun p => SameKind f p.1 ∧ p.1.received = f.received ∧
        ∃ more : List (List Byte), p.2 = more.map StreamCall.write ++ [.flush] ∧
          Flushed encode p.1 (buffers ++ more))
      fun fuel => Filter.flush c fuel f := by
  obtain ⟨state, keepOpen, stream, received⟩ := f
  obtain ⟨rfl, h⟩ := h
  cases state with
  | compression native released filteredStream =>
    obtain ⟨rfl, rfl, haccepting, hdelivered⟩ := h
    simp only [Filter.flush, Bool.true_eq_false, if_false]
    refine (settles_liftLzma (haccepting.flush he)).bind fun native' hnative => ?_
    obtain ⟨hfinished, pieces, hpieces⟩ := hnative
    obtain ⟨more, hcalls, hmore⟩ := exists_callsSince true (by simpa using hpieces)
    have hencoded : (buffers ++ more).flatten = encode received := by
      rw [List.flatten_append, ← hdelivered, hmore, hfinished.delivered_eq]
    simp only [hcalls]
    refine settles_ok ⟨⟨rfl, rfl⟩, rfl, more, by simp, rfl, rfl, rfl, ?_, hencoded⟩
    rw [hencoded]
    exact hfinished
  | hash hashed =>
    obtain ⟨rfl, hbuffers⟩ := h
    simp only [Filter.flush, Bool.true_eq_false, if_false]
    exact settles_ok ⟨⟨rfl, rfl⟩, rfl, [], rfl, rfl, rfl, by simpa using hbuffers⟩
  | identity =>
    simp only [Filter.flush, Bool.true_eq_false, if_false]
    have hbuffers : buffers.flatten = received := h
    exact settles_ok ⟨⟨rfl, rfl⟩, rfl, [], rfl, rfl, by simpa using hbuffers⟩

lemma SameKind.refl (f : Filter σ) : SameKind f f := ⟨rfl, rfl⟩

lemma SameKind.trans {f f' f'' : Filter σ} (h : SameKind f f') (h' : SameKind f' f'') :
    SameKind f f'' :=
  ⟨h'.1.trans h.1, h'.2.trans h.2⟩

/-- An encoding that ends by itself is not complete before it is finished. -/
lemma Writing.ne_encode (he : Encoder c encode running finishing)
    {decode : List Byte → Option (List Byte)}
    (hself : ∀ bytes rest, decode (encode bytes ++ rest) = some bytes) {f : Filter σ}
    {buffers : List (List Byte)} (h : Writing running f buffers) (hf : f.isCompression = true) :
    buffers.flatten ≠ encode f.received := by
  obtain ⟨state, keepOpen, stream, received⟩ := f
  cases state with
  | compression native released filteredStream =>
    obtain ⟨-, -, -, haccepting, hdelivered⟩ := h
    obtain ⟨x, hx, hrunning⟩ := haccepting.coding
    obtain ⟨behind, hbehind⟩ := he.running_le _ _ _ (native.lstream.nextIn ++ [0]) hrunning
    rw [← List.append_assoc, hx, LzmaOutputStream.produced, hdelivered] at hbehind
    intro heq
    have hmore := hself (received ++ [0]) []
    rw [List.append_nil, ← hbehind, heq, List.append_assoc, hself] at hmore
    simp at hmore
  | hash hashed => cases hf
  | identity => cases hf

/-- There is nothing left to be disposed. -/
def Disposed (f : Filter σ) : Prop :=
  f.stream = false ∧
    match f.state with
    | .compression _ _ filteredStream => filteredStream = false
    | _ => True

/-- `Dispose` does nothing. -/
def Ignores (f : Filter σ) : Prop := f.keepOpen = true ∨ Disposed f

lemma Ignores.dispose {f : Filter σ} (h : Ignores f) (c : LzmaNextCoder σ) (fuel : Nat) :
    Filter.dispose c fuel f = .ok (f, []) := by
  obtain ⟨state, keepOpen, stream, received⟩ := f
  cases keepOpen with
  | true => simp [Filter.dispose]
  | false =>
    rcases h with hkeep | ⟨rfl, hstate⟩
    · cases hkeep
    · cases state with
      | compression native released filteredStream =>
        obtain rfl : filteredStream = false := hstate
        rfl
      | hash hashed => rfl
      | identity => rfl

lemma Ignores.run {f : Filter σ} (h : Ignores f) (c : LzmaNextCoder σ) (fuel : Nat)
    (below : List StreamCall) (n : Nat) :
    Filter.run c fuel (f, below) (List.replicate n .dispose) = .ok (f, below) := by
  induction n with
  | zero => rfl
  | succ n ih =>
    rw [List.replicate_succ, Filter.run, List.foldlM_cons, Filter.call, h.dispose c fuel]
    simpa [Filter.run, bind, Except.bind, pure, Except.pure] using ih

lemma Writing.dispose (he : Encoder c encode running finishing) {f : Filter σ}
    {buffers : List (List Byte)} (h : Writing running f buffers) (hkeep : f.keepOpen = false) :
    Settles EncoderFails (fun p => SameKind f p.1 ∧ p.1.received = f.received ∧ Disposed p.1 ∧
        ∃ (more : List (List Byte)) (n : Nat), p.2 = more.map StreamCall.write ++
            ((if f.isCompression then [.flush] else []) ++ List.replicate (n + 1) .dispose) ∧
          (f.isCompression = true → (buffers ++ more).flatten = encode f.received) ∧
          (f.isCompression = false → more = []))
      fun fuel => Filter.dispose c fuel f := by
  obtain ⟨state, keepOpen, stream, received⟩ := f
  obtain ⟨rfl, h⟩ := h
  obtain rfl : keepOpen = false := hkeep
  cases state with
  | compression native released filteredStream =>
    obtain ⟨rfl, rfl, haccepting, hdelivered⟩ := h
    simp only [Filter.dispose, Filter.releaseNative, LzmaOutputStream.destroy, Bool.false_eq_true,
      if_false, if_true, bind_assoc]
    refine (settles_liftLzma (haccepting.flush he)).bind fun native' hnative => ?_
    obtain ⟨hfinished, pieces, hpieces⟩ := hnative
    obtain ⟨more, hcalls, hmore⟩ := exists_callsSince true (by simpa using hpieces)
    simp only [hcalls]
    refine settles_ok ⟨⟨rfl, rfl⟩, rfl, ⟨rfl, rfl⟩, more, 1, ?_, fun _ => ?_,
      by simp [Filter.isCompression]⟩
    · simp [Filter.isCompression]
    · rw [List.flatten_append, ← hdelivered, hmore, hfinished.delivered_eq]
  | hash hashed =>
    exact settles_ok ⟨⟨rfl, rfl⟩, rfl, ⟨rfl, trivial⟩, [], 0, rfl, by simp [Filter.isCompression],
      fun _ => rfl⟩
  | identity =>
    exact settles_ok ⟨⟨rfl, rfl⟩, rfl, ⟨rfl, trivial⟩, [], 0, rfl, by simp [Filter.isCompression],
      fun _ => rfl⟩

lemma Flushed.dispose {f : Filter σ} {buffers : List (List Byte)} (h : Flushed encode f buffers)
    (hkeep : f.keepOpen = false) :
    Settles EncoderFails (fun p => SameKind f p.1 ∧ p.1.received = f.received ∧ Disposed p.1 ∧
        ∃ n, p.2 = List.replicate (n + 1) .dispose)
      fun fuel => Filter.dispose c fuel f := by
  obtain ⟨state, keepOpen, stream, received⟩ := f
  obtain ⟨rfl, h⟩ := h
  obtain rfl : keepOpen = false := hkeep
  cases state with
  | compression native released filteredStream =>
    obtain ⟨rfl, rfl, hfinished, hencoded⟩ := h
    simp only [Filter.dispose, Filter.releaseNative, LzmaOutputStream.destroy, Bool.false_eq_true,
      if_false, if_true, bind_assoc]
    refine (settles_liftLzma hfinished.flush).bind fun native' hnative => ?_
    subst hnative
    simp only [callsSince, List.drop_length, List.mapM_nil]
    exact settles_ok ⟨⟨rfl, rfl⟩, rfl, ⟨rfl, rfl⟩, 1, rfl⟩
  | hash hashed => exact settles_ok ⟨⟨rfl, rfl⟩, rfl, ⟨rfl, trivial⟩, 0, rfl⟩
  | identity => exact settles_ok ⟨⟨rfl, rfl⟩, rfl, ⟨rfl, trivial⟩, 0, rfl⟩

lemma settles_run_cons {f : Filter σ} {below : List StreamCall} {streamCall : StreamCall}
    {calls : List StreamCall} {post post' : Filter σ × List StreamCall → Prop}
    (hcall : Settles EncoderFails post fun fuel => Filter.call c fuel f streamCall)
    (hrest : ∀ p, post p →
      Settles EncoderFails post' fun fuel => Filter.run c fuel (p.1, below ++ p.2) calls) :
    Settles EncoderFails post' fun fuel => Filter.run c fuel (f, below) (streamCall :: calls) := by
  simp only [Filter.run, List.foldlM_cons, bind_assoc, pure_bind]
  exact hcall.bind hrest

lemma run_append (fuel : Nat) (p : Filter σ × List StreamCall) (as bs : List StreamCall) :
    Filter.run c fuel p (as ++ bs) = (Filter.run c fuel p as >>= fun q => Filter.run c fuel q bs) :=
  List.foldlM_append

/-- Writing on. -/
lemma Writing.run (he : Encoder c encode running finishing) (buffers : List (List Byte))
    {f : Filter σ} {before : List (List Byte)} (h : Writing running f before) :
    Settles EncoderFails (fun p => SameKind f p.1 ∧ p.1.received = f.received ++ buffers.flatten ∧
        ∃ more : List (List Byte), p.2 = more.map .write ∧ Writing running p.1 more)
      fun fuel => Filter.run c fuel (f, before.map .write) (buffers.map .write) := by
  induction buffers generalizing f before with
  | nil => exact settles_ok ⟨SameKind.refl f, by simp, before, rfl, h⟩
  | cons bytes buffers ih =>
    refine settles_run_cons (h.write he bytes) fun p hp => ?_
    obtain ⟨hkind, hreceived, more, hmore, hwriting⟩ := hp
    rw [hmore, ← List.map_append]
    refine (ih hwriting).mono fun q hq => ?_
    obtain ⟨hkind', hreceived', hq⟩ := hq
    refine ⟨hkind.trans hkind', ?_, hq⟩
    rw [hreceived', hreceived, List.flatten_cons, List.append_assoc]

/-- What a filter is told to do: to write, perhaps to flush, and to dispose some times. -/
def toldTo (buffers : List (List Byte)) (flushed : Bool) (disposals : Nat) : List StreamCall :=
  buffers.map .write ++ ((if flushed then [.flush] else []) ++ List.replicate disposals .dispose)

/-- Whether the stream below is flushed. -/
def flushesBelow (isCompression keepOpen flushed disposed : Bool) : Bool :=
  flushed || isCompression && disposed && !keepOpen

/-- After the disposals a filter has told the stream below what it has been told, but that a
compression filter flushes it as well. -/
def Told (encode : List Byte → List Byte) (isCompression keepOpen : Bool) (received : List Byte)
    (flushed : Bool) (disposals : Nat) (p : Filter σ × List StreamCall) : Prop :=
  p.1.isCompression = isCompression ∧ p.1.received = received ∧
    ∃ (buffers : List (List Byte)) (n : Nat),
      p.2 = toldTo buffers (flushesBelow isCompression keepOpen flushed (0 < disposals)) n ∧
        (0 < n ↔ 0 < disposals ∧ keepOpen = false) ∧
        (isCompression = false → buffers.flatten = received) ∧
        (isCompression = true → (buffers.flatten = encode received ↔
          flushesBelow isCompression keepOpen flushed (0 < disposals) = true))

lemma Writing.passes {f : Filter σ} {buffers : List (List Byte)} (h : Writing running f buffers)
    (hf : f.isCompression = false) : buffers.flatten = f.received := by
  obtain ⟨state, keepOpen, stream, received⟩ := f
  cases state with
  | compression native released filteredStream => cases hf
  | hash hashed => exact h.2.2
  | identity => exact h.2

lemma Flushed.passes {f : Filter σ} {buffers : List (List Byte)} (h : Flushed encode f buffers)
    (hf : f.isCompression = false) : buffers.flatten = f.received := by
  obtain ⟨state, keepOpen, stream, received⟩ := f
  cases state with
  | compression native released filteredStream => cases hf
  | hash hashed => exact h.2.2
  | identity => exact h.2

lemma Flushed.encodes {f : Filter σ} {buffers : List (List Byte)} (h : Flushed encode f buffers)
    (hf : f.isCompression = true) : buffers.flatten = encode f.received := by
  obtain ⟨state, keepOpen, stream, received⟩ := f
  cases state with
  | compression native released filteredStream => exact h.2.2.2.2
  | hash hashed => cases hf
  | identity => cases hf

/-- The disposals of a filter that has not been flushed. -/
lemma Writing.disposals (he : Encoder c encode running finishing)
    {decode : List Byte → Option (List Byte)}
    (hself : ∀ bytes rest, decode (encode bytes ++ rest) = some bytes) {f : Filter σ}
    {buffers : List (List Byte)} (h : Writing running f buffers) (disposals : Nat) :
    Settles EncoderFails (Told encode f.isCompression f.keepOpen f.received false disposals)
      fun fuel => Filter.run c fuel (f, buffers.map .write)
        (List.replicate disposals .dispose) := by
  have hne := fun hf => h.ne_encode he hself hf
  cases hkeep : f.keepOpen with
  | true =>
    refine Settles.congr 0 (settles_ok (a := (f, buffers.map .write)) ?_)
      fun fuel _ => Ignores.run (Or.inl hkeep) c fuel _ disposals
    refine ⟨rfl, rfl, buffers, 0, ?_, ?_, h.passes, fun hf => ?_⟩
    · simp [toldTo, flushesBelow]
    · simp
    · simp [flushesBelow, hne hf]
  | false =>
    cases disposals with
    | zero =>
      refine settles_ok ⟨rfl, rfl, buffers, 0, ?_, ?_, h.passes, fun hf => ?_⟩
      · simp [toldTo, flushesBelow]
      · simp
      · simp [flushesBelow, hne hf]
    | succ disposals =>
      refine settles_run_cons (h.dispose he hkeep) fun p hp => ?_
      obtain ⟨hkind, hreceived, hdisposed, more, n, hmore, hencodes, hpasses⟩ := hp
      refine Settles.congr 0 (settles_ok (a := (p.1, buffers.map .write ++ p.2)) ?_)
        fun fuel _ => Ignores.run (Or.inr hdisposed) c fuel _ disposals
      refine ⟨hkind.1, hreceived, buffers ++ more, n + 1, ?_, ?_, fun hf => ?_, fun hf => ?_⟩
      · rw [hmore]
        cases hf : f.isCompression <;> simp [toldTo, flushesBelow]
      · simp
      · rw [hpasses hf, List.append_nil, h.passes hf]
      · simp [flushesBelow, hf, hencodes hf]

/-- The disposals of a filter that has been flushed. -/
lemma Flushed.disposals {f : Filter σ} {buffers : List (List Byte)}
    (h : Flushed encode f buffers) (disposals : Nat) :
    Settles EncoderFails (Told encode f.isCompression f.keepOpen f.received true disposals)
      fun fuel => Filter.run c fuel (f, buffers.map .write ++ [.flush])
        (List.replicate disposals .dispose) := by
  cases hkeep : f.keepOpen with
  | true =>
    refine Settles.congr 0 (settles_ok (a := (f, buffers.map .write ++ [.flush])) ?_)
      fun fuel _ => Ignores.run (Or.inl hkeep) c fuel _ disposals
    refine ⟨rfl, rfl, buffers, 0, ?_, ?_, h.passes, fun hf => ?_⟩
    · simp [toldTo, flushesBelow]
    · simp
    · simp [flushesBelow, h.encodes hf]
  | false =>
    cases disposals with
    | zero =>
      refine settles_ok ⟨rfl, rfl, buffers, 0, ?_, ?_, h.passes, fun hf => ?_⟩
      · simp [toldTo, flushesBelow]
      · simp
      · simp [flushesBelow, h.encodes hf]
    | succ disposals =>
      refine settles_run_cons (h.dispose hkeep) fun p hp => ?_
      obtain ⟨hkind, hreceived, hdisposed, n, hmore⟩ := hp
      refine Settles.congr 0 (settles_ok (a := (p.1, buffers.map .write ++ [.flush] ++ p.2)) ?_)
        fun fuel _ => Ignores.run (Or.inr hdisposed) c fuel _ disposals
      refine ⟨hkind.1, hreceived, buffers, n + 1, ?_, ?_, h.passes, fun hf => ?_⟩
      · rw [hmore]
        simp [toldTo, flushesBelow]
      · simp
      · simp [flushesBelow, h.encodes hf]

/-- A filter on all that it is told to do. -/
lemma Writing.toldTo (he : Encoder c encode running finishing)
    {decode : List Byte → Option (List Byte)}
    (hself : ∀ bytes rest, decode (encode bytes ++ rest) = some bytes) {f : Filter σ}
    (h : Writing running f []) (hreceived : f.received = []) (buffers : List (List Byte))
    (flushed : Bool) (disposals : Nat) :
    Settles EncoderFails (Told encode f.isCompression f.keepOpen buffers.flatten flushed disposals)
      fun fuel => Filter.run c fuel (f, []) (OutputStreams.toldTo buffers flushed disposals) := by
  simp only [OutputStreams.toldTo, run_append]
  refine (h.run he buffers).bind fun p hp => ?_
  obtain ⟨f', below⟩ := p
  obtain ⟨hkind, hbuffers, pieces, rfl, hwriting⟩ := hp
  rw [hreceived, List.nil_append] at hbuffers
  cases flushed with
  | false =>
    rw [← hkind.1, ← hkind.2, ← hbuffers]
    exact hwriting.disposals he hself disposals
  | true =>
    simp only [if_true, ← run_append, List.singleton_append]
    refine settles_run_cons (hwriting.flush he) fun q hq => ?_
    obtain ⟨f'', below⟩ := q
    obtain ⟨hkind', hreceived', more, rfl, hflushed⟩ := hq
    rw [← List.append_assoc, ← List.map_append, ← hkind.1, ← hkind.2, ← hbuffers, ← hkind'.1,
      ← hkind'.2, ← hreceived']
    exact hflushed.disposals disposals

lemma writing_new (coder : σ) (hcoder : running coder [] []) (bufferSize : Nat)
    (spec : FilterSpec) : Writing running (Filter.new coder bufferSize spec) [] := by
  obtain ⟨kind, keepOpen⟩ := spec
  cases kind with
  | compression => exact ⟨rfl, rfl, rfl, accepting_new coder hcoder bufferSize, rfl⟩
  | hash => exact ⟨rfl, rfl, rfl⟩
  | identity => exact ⟨rfl, rfl⟩

/-! ### A nest -/

lemma BaseStream.call_toldTo (buffers : List (List Byte)) (flushed : Bool) (disposals : Nat)
    (bytes : List Byte) :
    (toldTo buffers flushed disposals).foldlM BaseStream.call ⟨bytes, false⟩ =
      .ok ⟨bytes ++ buffers.flatten, decide (0 < disposals)⟩ := by
  have hdispose (closed : Bool) (bytes : List Byte) (n : Nat) :
      (List.replicate n StreamCall.dispose).foldlM BaseStream.call ⟨bytes, closed⟩ =
        .ok ⟨bytes, closed || decide (0 < n)⟩ := by
    induction n generalizing closed with
    | zero => simp [pure, Except.pure]
    | succ n ih =>
      rw [List.replicate_succ, List.foldlM_cons, BaseStream.call]
      simp only [bind, Except.bind, ih]
      simp
  induction buffers generalizing bytes with
  | nil =>
    cases flushed <;> simp [toldTo, BaseStream.call, hdispose, bind, Except.bind]
  | cons buffer buffers ih =>
    have hcons : toldTo (buffer :: buffers) flushed disposals =
        .write buffer :: toldTo buffers flushed disposals := rfl
    rw [hcons, List.foldlM_cons]
    simp [BaseStream.call, bind, Except.bind, ih, List.append_assoc]

/-- Whether all the encodings in a nest are completed, by what it is told to do. -/
def Completes : Bool → Bool → List FilterSpec → Prop
  | _, _, [] => True
  | flushed, disposed, spec :: specs =>
    let flushed' := flushesBelow (spec.kind = .compression) spec.keepOpen flushed disposed
    (spec.kind = .compression → flushed' = true) ∧
      Completes flushed' (disposed && !spec.keepOpen) specs

lemma complete_cons {f : Filter σ} {fs : List (Filter σ)} {base : BaseStream} :
    Complete encode (f :: fs) base ↔
      (f.isCompression = true → receivedBy fs base = encode f.received) ∧
        Complete encode fs base := by
  constructor
  · intro h
    exact ⟨h [] f fs rfl, fun outer g inner heq => h (f :: outer) g inner (by rw [heq]; rfl)⟩
  · rintro ⟨hhead, htail⟩ outer g inner heq
    cases outer with
    | nil =>
      obtain ⟨rfl, rfl⟩ := List.cons.inj heq
      exact hhead
    | cons f' outer =>
      obtain ⟨-, heq⟩ := List.cons.inj heq
      exact htail outer g inner heq

lemma isCompression_new (coder : σ) (bufferSize : Nat) (spec : FilterSpec) :
    (Filter.new coder bufferSize spec).isCompression = decide (spec.kind = .compression) := by
  obtain ⟨kind, keepOpen⟩ := spec
  cases kind <;> rfl

/-- A nest on all that it is told to do. -/
lemma runNest_spec (he : Encoder c encode running finishing)
    {decode : List Byte → Option (List Byte)}
    (hself : ∀ bytes rest, decode (encode bytes ++ rest) = some bytes) {coder : σ}
    (hcoder : running coder [] []) (bufferSize : Nat) (specs : List FilterSpec)
    (buffers : List (List Byte)) (flushed : Bool) (disposals : Nat) :
    Settles EncoderFails (fun nest => receivedBy nest.1 nest.2 = buffers.flatten ∧
        (Complete encode nest.1 nest.2 ↔ Completes flushed (0 < disposals) specs) ∧
        (nest.2.closed = true ↔ 0 < disposals ∧ ∀ spec ∈ specs, spec.keepOpen = false))
      fun fuel => runNest c fuel (specs.map (Filter.new coder bufferSize)) ⟨[], false⟩
        (toldTo buffers flushed disposals) := by
  induction specs generalizing buffers flushed disposals with
  | nil =>
    simp only [List.map_nil, runNest, BaseStream.call_toldTo]
    refine settles_ok ⟨rfl, ?_, ?_⟩
    · simp [Complete, Completes]
    · simp
  | cons spec specs ih =>
    simp only [List.map_cons, runNest]
    refine ((writing_new coder hcoder bufferSize spec).toldTo he hself rfl buffers flushed
      disposals).bind fun p hp => ?_
    rw [isCompression_new] at hp
    obtain ⟨f, below⟩ := p
    obtain ⟨hkind, hreceived, buffers', n, rfl, hn, -, hencodes⟩ := hp
    refine (ih buffers' _ n).bind fun nest hnest => settles_ok ?_
    obtain ⟨hbelow, hcomplete, hclosed⟩ := hnest
    have hn' : decide (0 < n) = (decide (0 < disposals) && !spec.keepOpen) := by
      rw [Bool.eq_iff_iff, decide_eq_true_eq, hn]
      simp [Filter.new]
    refine ⟨hreceived, ?_, ?_⟩
    · rw [complete_cons, hbelow, hcomplete, hkind, hreceived, hn']
      refine and_congr_left fun _ => ?_
      rw [decide_eq_true_eq]
      exact imp_congr_right fun hspec => hencodes (decide_eq_true hspec)
    · rw [hclosed, hn]
      simp [Filter.new, and_assoc]

lemma completes_of_flushed (disposed : Bool) (specs : List FilterSpec) :
    Completes true disposed specs := by
  induction specs generalizing disposed with
  | nil => trivial
  | cons spec specs ih => exact ⟨fun _ => rfl, ih _⟩

lemma completes_iff (disposed : Bool) (specs : List FilterSpec) :
    Completes false disposed specs ↔
      ∀ outer spec inner, specs = outer ++ spec :: inner → spec.kind = .compression →
        (∀ other ∈ outer, other.kind ≠ .compression) →
        disposed = true ∧ ∀ other ∈ outer ++ [spec], other.keepOpen = false := by
  induction specs generalizing disposed with
  | nil =>
    refine iff_of_true trivial fun outer spec inner heq => ?_
    simp at heq
  | cons first specs ih =>
    by_cases hfirst : first.kind = .compression
    · have hflushes : flushesBelow (decide (first.kind = .compression)) first.keepOpen false
          disposed = (disposed && !first.keepOpen) := by
        simp [flushesBelow, hfirst]
      constructor
      · rintro ⟨hhead, -⟩ outer spec inner heq hspec houter
        have hhead := hhead hfirst
        rw [hflushes, Bool.and_eq_true, Bool.not_eq_true'] at hhead
        cases outer with
        | nil =>
          obtain ⟨rfl, -⟩ := List.cons.inj heq
          exact ⟨hhead.1, by simpa using hhead.2⟩
        | cons other outer =>
          obtain ⟨rfl, -⟩ := List.cons.inj heq
          exact absurd hfirst (houter first List.mem_cons_self)
      · intro h
        obtain ⟨hdisposed, hkeep⟩ := h [] first specs rfl hfirst (by simp)
        have htrue : (disposed && !first.keepOpen) = true := by
          simp [hdisposed, hkeep first (by simp)]
        rw [Completes, hflushes, htrue]
        exact ⟨fun _ => rfl, completes_of_flushed true specs⟩
    · have hflushes : flushesBelow (decide (first.kind = .compression)) first.keepOpen false
          disposed = false := by
        simp [flushesBelow, hfirst]
      rw [Completes, hflushes]
      simp only [hfirst, false_implies, true_and]
      rw [ih]
      constructor
      · intro h outer spec inner heq hspec houter
        cases outer with
        | nil =>
          obtain ⟨rfl, -⟩ := List.cons.inj heq
          exact absurd hspec hfirst
        | cons other outer =>
          obtain ⟨rfl, htail⟩ := List.cons.inj heq
          obtain ⟨hdisposed, hkeep⟩ := h outer spec inner htail hspec
            fun other hother => houter other (List.mem_cons_of_mem _ hother)
          rw [Bool.and_eq_true, Bool.not_eq_true'] at hdisposed
          exact ⟨hdisposed.1, List.forall_mem_cons.mpr ⟨hdisposed.2, hkeep⟩⟩
      · intro h outer spec inner heq hspec houter
        obtain ⟨hdisposed, hkeep⟩ := h (first :: outer) spec inner (by rw [heq]; rfl) hspec
          (List.forall_mem_cons.mpr ⟨hfirst, houter⟩)
        obtain ⟨hfirstKeep, hkeep⟩ := List.forall_mem_cons.mp hkeep
        exact ⟨by simp [hdisposed, hfirstKeep], hkeep⟩

lemma reached_iff (specs : List FilterSpec) : Reached specs ↔ Completes false true specs := by
  rw [completes_iff, Reached]
  simp

/-! ### Fuel that is left over -/

lemma lasts_liftLzma {α : Type} {f : Nat → Except LzmaFailure α} (h : Lasts f) :
    Lasts fun fuel => liftLzma (f fuel) := by
  intro n a hn fuel hfuel
  rcases hf : f n with (- | message) | b
  all_goals simp only [hf, liftLzma] at hn
  · cases hn
  · cases hn
  · simp only [h n b hf fuel hfuel, liftLzma]
    exact hn

lemma lasts_releaseNative (c : LzmaNextCoder σ) (native : LzmaOutputStream σ) (released : Bool) :
    Lasts fun fuel => Filter.releaseNative c fuel native released := by
  cases released
  · exact (lasts_liftLzma (LzmaOutputStream.lasts_flush c native)).bind fun _ => lasts_const _
  · exact lasts_const _

lemma Filter.lasts_call (c : LzmaNextCoder σ) (f : Filter σ) (streamCall : StreamCall) :
    Lasts fun fuel => Filter.call c fuel f streamCall := by
  obtain ⟨state, keepOpen, stream, received⟩ := f
  cases streamCall with
  | write bytes =>
    cases stream
    · exact lasts_const _
    · cases state with
      | compression native released filteredStream =>
        exact (lasts_liftLzma (lasts_loop _ _ _)).bind fun _ => lasts_const _
      | hash hashed => exact lasts_const _
      | identity => exact lasts_const _
  | flush =>
    cases stream
    · exact lasts_const _
    · cases state with
      | compression native released filteredStream =>
        exact (lasts_liftLzma (LzmaOutputStream.lasts_flush c _)).bind fun _ => lasts_const _
      | hash hashed => exact lasts_const _
      | identity => exact lasts_const _
  | dispose =>
    cases keepOpen
    · cases state with
      | compression native released filteredStream =>
        cases stream
        · exact lasts_const _
        · simp only [Filter.call, Filter.dispose, Bool.false_eq_true, if_false, if_true]
          exact (lasts_releaseNative c native released).bind fun _ => lasts_const _
      | hash hashed => exact lasts_const _
      | identity => exact lasts_const _
    · exact lasts_const _

lemma lasts_runNest (c : LzmaNextCoder σ) (fs : List (Filter σ)) (base : BaseStream)
    (calls : List StreamCall) : Lasts fun fuel => runNest c fuel fs base calls := by
  induction fs generalizing base calls with
  | nil => exact lasts_const _
  | cons f fs ih =>
    refine Lasts.bind (lasts_foldlM (fun p streamCall => ?_) calls (f, [])) fun p => ?_
    · exact (Filter.lasts_call c p.1 streamCall).bind fun _ => lasts_const _
    · exact (ih base p.2).bind fun _ => lasts_const _

end OutputStreams

open OutputStreams

variable {σ : Type} {c : LzmaNextCoder σ} {encode : List Byte → List Byte}
  {running : σ → List Byte → List Byte → Prop}
  {finishing : σ → List Byte → List Byte → List Byte → Prop}

/-- Disposing the outermost filter of a nest completes all the encodings in it exactly if neither
the outermost compression filter nor a filter outside it keeps its stream open. The base stream is
closed exactly if no filter keeps its stream open. -/
theorem outputFilters_complete_iff (he : Encoder c encode running finishing) {coder : σ}
    (hcoder : running coder [] []) {decode : List Byte → Option (List Byte)}
    (hself : ∀ bytes rest, decode (encode bytes ++ rest) = some bytes) (bufferSize : Nat)
    (specs : List FilterSpec) (buffers : List (List Byte)) :
    ∃ enough, ∀ fuel, enough ≤ fuel →
      (∃ message, session c fuel coder bufferSize specs buffers = .error (.lzma message)) ∨
        ∃ nest, session c fuel coder bufferSize specs buffers = .ok nest ∧
          receivedBy nest.1 nest.2 = buffers.flatten ∧
          (Complete encode nest.1 nest.2 ↔ Reached specs) ∧
          (nest.2.closed = true ↔ ∀ spec ∈ specs, spec.keepOpen = false) := by
  obtain ⟨enough, hsession⟩ :=
    (runNest_spec he hself hcoder bufferSize specs buffers false 1).exists_enough
  refine ⟨enough, fun fuel hfuel => ?_⟩
  obtain ⟨e, ⟨message, rfl⟩, herror⟩ | ⟨nest, hok, hreceived, hcomplete, hclosed⟩ :=
    hsession fuel hfuel
  · exact Or.inl ⟨message, herror⟩
  refine Or.inr ⟨nest, hok, hreceived, ?_, ?_⟩
  · rw [hcomplete, reached_iff]
    simp
  · rw [hclosed]
    simp

/-- A hash filter over two compression filters, of which the inner one keeps its stream open: both
encodings are completed. -/
theorem outputFilters_complete_iff_nested :
    ∃ nest, session unaryCoder 20 ⟨[], false⟩ 3
        [⟨.hash, false⟩, ⟨.compression, false⟩, ⟨.compression, true⟩] [[7], [8]] = .ok nest ∧
      receivedBy nest.1 nest.2 = [7, 8] ∧ Complete unaryCompress nest.1 nest.2 ∧
      nest.2.bytes = unaryCompress (unaryCompress [7, 8]) ∧ nest.2.closed = false := by
  have hrun : ∃ nest, session unaryCoder 20 ⟨[], false⟩ 3
      [⟨.hash, false⟩, ⟨.compression, false⟩, ⟨.compression, true⟩] [[7], [8]] = .ok nest ∧
      nest.2.bytes = unaryCompress (unaryCompress [7, 8]) := ⟨_, rfl, rfl⟩
  obtain ⟨nest, hnest, hbytes⟩ := hrun
  obtain ⟨enough, h⟩ := outputFilters_complete_iff encoder_unaryCoder
    (show UnaryCoder.Running ⟨[], false⟩ [] [] from ⟨rfl, rfl⟩) selfDelimiting_unary 3
    [⟨.hash, false⟩, ⟨.compression, false⟩, ⟨.compression, true⟩] [[7], [8]]
  have hlasts := lasts_runNest _ _ _ _ 20 nest hnest (max enough 20) (le_max_right _ _)
  rcases h (max enough 20) (le_max_left _ _) with
    ⟨message, herror⟩ | ⟨nest', hnest', hreceived, hcomplete, hclosed⟩
  · cases hlasts.symm.trans herror
  · cases hlasts.symm.trans hnest'
    refine ⟨nest, hnest, hreceived, hcomplete.mpr ?_, hbytes, ?_⟩
    · rw [reached_iff]
      simp [Completes, flushesBelow]
    · rw [← Bool.not_eq_true, hclosed]
      simp

/-- A compression filter that keeps its stream open does not even flush its encoder. -/
theorem outputFilters_incomplete :
    ∃ nest, session unaryCoder 10 ⟨[], false⟩ 3 [⟨.compression, true⟩] [[7]] = .ok nest ∧
      ¬ Complete unaryCompress nest.1 nest.2 ∧ unaryDecompress nest.2.bytes = none := by
  refine ⟨_, rfl, fun h => ?_, rfl⟩
  exact absurd (h [] _ [] rfl rfl) (by decide)

end BackupProgram
