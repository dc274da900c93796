import BackupProgram.Archive.RoundTrip
import BackupProgram.Lib.Contributions

/-!
# Calls on the writer that fail

A call may fail half-way, when a stream cannot be read to its end or an object cannot be serialized,
and there may be more calls after it. What has been changed by then remains changed.
-/

namespace BackupProgram

open Results FilterGenerator ArchiveWriter

/-- A stream that is to be added: the length that it reports, what can be read of it, and whether
reading fails after this. -/
structure SourceStream where
  length : Option Int
  bytes : List Byte
  fails : Bool
deriving DecidableEq, Repr

/-- A writer, and whether it still has its file and its transaction. -/
structure WriterSession extends ArchiveWriter where
  isOpen : Bool

/-- A call for the writer. A serialization may fail when it has written so many bytes. -/
inductive WriterCall (Fso : Type) where
  | addFile (streamId : Nat) (file : SourceStream) (type : HashType)
  | addFso (fso : Fso) (failure : Option Nat)
  | addVersionManifest (versionManifest : VersionManifest) (failure : Option Nat)
  | dispose

/-- The writer after a call, and what the call has returned or thrown. -/
abbrev Returned (α : Type) : Type := WriterSession × Except ArchiveError α

namespace WriterSession

variable {Fso : Type} (env : ArchiveEnv Fso)

/-- The constructor. -/
def new : WriterSession := { ArchiveWriter.new with isOpen := true }

def addFile (w : WriterSession) (streamId : Nat) (file : SourceStream) (type : HashType) :
    Returned (Option (List Byte)) :=
  match w.ensureMaximumState .pushingFiles with
  | .error e => (w, .error e)
  | .ok () =>
    let w :=
      if w.state = .initial then
        { w with outputFilter := some (newFilter env), state := .pushingFiles }
      else w
    let w := { w with streamIds := w.streamIds ++ [streamId] }
    match file.length with
    | none => (w, .error .io)
    | some length =>
      let w := { w with streamSizes := w.streamSizes ++ [length] }
      match w.outputFilter with
      | none => (w, .error .nullReference)
      | some filter =>
        let w := { w with outputFilter := some (filter.write file.bytes) }
        if file.fails then (w, .error .io)
        else
          let ret := if type = .none then none else some (env.hash type file.bytes)
          ({ w with anyFile := true }, .ok ret)

/-- `_outputFilter.Flush(); _outputFilter.Dispose();`, of which the second has nothing left to
write. -/
def closeFilter (w : WriterSession) : Returned Unit :=
  match w.outputFilter, w.isOpen with
  | some filter, true =>
    let (bytes, filter) := filter.flush
    ({ w with hashedStream := w.hashedStream ++ bytes, outputFilter := some filter }, .ok ())
  | _, _ => (w, .error .nullReference)

/-- `AddFso` up to the serialization. -/
def startFsos (w : WriterSession) : Returned Unit :=
  let start (w : WriterSession) : WriterSession :=
    { w with
      initialFsoOffset := w.hashedStream.length
      outputFilter := some (newFilter env)
      state := .pushingFsos }
  match w.state with
  | .initial => if w.isOpen then (start w, .ok ()) else (w, .error .nullReference)
  | .pushingFiles =>
    match w.closeFilter with
    | (w, .error e) => (w, .error e)
    | (w, .ok ()) => (start w, .ok ())
  | _ => (w, .ok ())

def addFso (w : WriterSession) (fso : Fso) (failure : Option Nat) : Returned Unit :=
  match w.ensureMaximumState .pushingFsos with
  | .error e => (w, .error e)
  | .ok () =>
    match w.startFsos env with
    | (w, .error e) => (w, .error e)
    | (w, .ok ()) =>
      match w.outputFilter with
      | none => (w, .error .nullReference)
      | some filter =>
        let x0 := filter.bytesWritten
        let bytes := env.fsos.serialize fso
        match failure with
        | some written =>
          ({ w with outputFilter := some (filter.write (bytes.take written)) }, .error .filter)
        | none =>
          let filter := filter.write bytes
          let x1 := filter.bytesWritten
          ({ w with
              outputFilter := some filter
              baseObjectEntrySizes := w.baseObjectEntrySizes ++ [x1 - x0] }, .ok ())

def addVersionManifest (w : WriterSession) (versionManifest : VersionManifest)
    (failure : Option Nat) : Returned VersionManifest :=
  match w.ensureMinimumState .pushingFsos, w.ensureMaximumState .pushingFsos with
  | .error e, _ | _, .error e => (w, .error e)
  | .ok (), .ok () =>
    match w.closeFilter with
    | (w, .error e) => (w, .error e)
    | (w, .ok ()) =>
      let w := { w with outputFilter := none }
      let versionManifest :=
        { versionManifest with
          archiveMetadata := some
            { entrySizes := some w.baseObjectEntrySizes
              streamIds := some w.streamIds
              streamSizes := some w.streamSizes
              entriesSizeInArchive := w.hashedStream.length - w.initialFsoOffset } }
      let x0 : Int := w.hashedStream.length
      let bytes := env.manifests.serialize versionManifest
      match failure with
      | some written =>
        -- the filter is disposed of on the way out
        let (bytes, _) := ((newFilter env false).write (bytes.take written)).flush
        ({ w with hashedStream := w.hashedStream ++ bytes }, .error .filter)
      | none =>
        let (bytes, _) := ((newFilter env false).write bytes).flush
        let w := { w with hashedStream := w.hashedStream ++ bytes }
        let x1 : Int := w.hashedStream.length
        let manifestLength := x1 - x0
        let w := { w with hashedStream := w.hashedStream ++ getBytes manifestLength }
        let bytes := env.hash .sha256 w.hashedStream
        if (w.hashedStream ++ bytes).length < maxLength then
          ({ w with
              committed := some (w.hashedStream ++ bytes)
              isOpen := false
              state := .final }, .ok versionManifest)
        else (w, .error .io)

/-- What has been written to the file is lost with the transaction. -/
def dispose (w : WriterSession) : WriterSession :=
  { w with outputFilter := none, isOpen := false }

def call (w : WriterSession) : WriterCall Fso → Returned Unit
  | .addFile streamId file type =>
    let (w, ret) := w.addFile env streamId file type
    (w, ret.map fun _ => ())
  | .addFso fso failure => w.addFso env fso failure
  | .addVersionManifest versionManifest failure =>
    let (w, ret) := w.addVersionManifest env versionManifest failure
    (w, ret.map fun _ => ())
  | .dispose => (w.dispose, .ok ())

end WriterSession

/-! ### Sequences of calls -/

/-- A call that has been made: the writer before it, and whether it has succeeded. -/
structure Attempt (Fso : Type) where
  before : WriterSession
  call : WriterCall Fso
  succeeded : Bool

/-- The calls that have been made on a writer, the first one in front. -/
inductive Attempts {Fso : Type} (env : ArchiveEnv Fso) : List (Attempt Fso) → WriterSession → Prop
  | new : Attempts env [] .new
  | call {attempts : List (Attempt Fso)} {w : WriterSession} (c : WriterCall Fso)
      (h : Attempts env attempts w) :
      Attempts env (attempts ++ [⟨w, c, (w.call env c).2.isOk⟩]) (w.call env c).1

namespace Attempt

variable {Fso : Type}

/-- A file that has been added. -/
def addedFile (a : Attempt Fso) : Option (Nat × List Byte × HashType) :=
  match a.call with
  | .addFile streamId file type => if a.succeeded then some (streamId, file.bytes, type) else none
  | _ => none

/-- An object that has been added. -/
def addedFso (a : Attempt Fso) : Option Fso :=
  match a.call with
  | .addFso fso _ => if a.succeeded then some fso else none
  | _ => none

/-- A manifest that has been added. -/
def addedManifest (a : Attempt Fso) : Option VersionManifest :=
  match a.call with
  | .addVersionManifest versionManifest _ => if a.succeeded then some versionManifest else none
  | _ => none

/-- A call that adds a stream is made in time, and so it reads the stream. -/
def readsFile (a : Attempt Fso) : Prop :=
  a.before.state = .initial ∨ a.before.state = .pushingFiles

/-- A call that adds an object is made in time, and so it serializes the object. -/
def serializesFso (a : Attempt Fso) : Prop := a.before.state ≠ .final

instance (a : Attempt Fso) : Decidable a.readsFile := inferInstanceAs (Decidable (_ ∨ _))

instance (a : Attempt Fso) : Decidable a.serializesFso := inferInstanceAs (Decidable (_ ≠ _))

/-- A stream is read that has the length that it reports, and a serialization that fails has not
written anything. -/
def Complete (env : ArchiveEnv Fso) (a : Attempt Fso) : Prop :=
  match a.call with
  | .addFile _ file _ =>
    a.readsFile → file.fails = false ∧ file.length = some (file.bytes.length : Int)
  | .addFso fso (some written) => a.serializesFso → (env.fsos.serialize fso).take written = []
  | _ => True

end Attempt

section Consistent

variable {Fso : Type} (env : ArchiveEnv Fso)

def addedFiles (attempts : List (Attempt Fso)) : List (Nat × List Byte × HashType) :=
  attempts.filterMap Attempt.addedFile

def addedFsos (attempts : List (Attempt Fso)) : List Fso := attempts.filterMap Attempt.addedFso

def addedManifests (attempts : List (Attempt Fso)) : List VersionManifest :=
  attempts.filterMap Attempt.addedManifest

/-- The archive has what has been added successfully and nothing else: the sizes in its manifest are
those of the streams and the objects, which lie one after the other in front of the manifest. -/
def Consistent (attempts : List (Attempt Fso)) (bytes : List Byte) : Prop :=
  ∃ manifest ∈ addedManifests attempts,
    bytes = archiveBytes env (addedFiles attempts) (addedFsos attempts) manifest

end Consistent

/-! ### What calls have recorded and written -/

namespace Attempt

variable {Fso : Type} (env : ArchiveEnv Fso)

/-- The id that the call has put into the list of streams. -/
def listedId (a : Attempt Fso) : Option Nat :=
  match a.call with
  | .addFile streamId _ _ => if a.readsFile then some streamId else none
  | _ => none

/-- The size that the call has put into the list of streams. -/
def listedSize (a : Attempt Fso) : Option Int :=
  match a.call with
  | .addFile _ file _ => if a.readsFile then file.length else none
  | _ => none

/-- The bytes of a stream that have been written. -/
def fileBytes (a : Attempt Fso) : List Byte :=
  match a.call with
  | .addFile _ file _ => if a.readsFile ∧ file.length.isSome then file.bytes else []
  | _ => []

/-- The bytes of an object that have been written. -/
def fsoBytes (a : Attempt Fso) : List Byte :=
  match a.call with
  | .addFso fso failure =>
    if a.serializesFso then
      match failure with
      | none => env.fsos.serialize fso
      | some written => (env.fsos.serialize fso).take written
    else []
  | _ => []

/-- A call has failed only for reasons of its own. -/
def Regular (a : Attempt Fso) : Prop :=
  match a.call with
  | .addFile _ file _ =>
    a.succeeded = true ↔ a.readsFile ∧ file.length.isSome ∧ file.fails = false
  | .addFso _ failure => a.succeeded = true ↔ a.serializesFso ∧ failure = none
  | _ => True

/-- A call that has neither recorded nor written anything in the sections. -/
structure Silent (a : Attempt Fso) : Prop where
  listedId_eq : a.listedId = none
  listedSize_eq : a.listedSize = none
  fileBytes_eq : a.fileBytes = []
  fsoBytes_eq : a.fsoBytes env = []
  addedFso_eq : a.addedFso = none

/-- A stream that comes too late. -/
lemma silent_addFile {w : WriterSession} {streamId : Nat} {file : SourceStream} {type : HashType}
    {succeeded : Bool}
    (h : ¬ (⟨w, .addFile streamId file type, succeeded⟩ : Attempt Fso).readsFile) :
    Silent env ⟨w, .addFile streamId file type, succeeded⟩ :=
  ⟨if_neg h, if_neg h, if_neg fun h' => h h'.1, rfl, rfl⟩

/-- An object that comes too late. -/
lemma silent_addFso {w : WriterSession} {fso : Fso} {failure : Option Nat}
    (h : ¬ serializesFso ⟨w, .addFso fso failure, false⟩) :
    Silent env ⟨w, .addFso fso failure, false⟩ :=
  ⟨rfl, rfl, rfl, if_neg h, rfl⟩

lemma silent_addVersionManifest {w : WriterSession} {manifest : VersionManifest}
    {failure : Option Nat} {succeeded : Bool} :
    Silent env ⟨w, .addVersionManifest manifest failure, succeeded⟩ :=
  ⟨rfl, rfl, rfl, rfl, rfl⟩

lemma silent_dispose {w : WriterSession} {succeeded : Bool} :
    Silent env ⟨w, .dispose, succeeded⟩ :=
  ⟨rfl, rfl, rfl, rfl, rfl⟩

end Attempt

namespace WriterSession

variable {Fso : Type} (env : ArchiveEnv Fso) (attempts : List (Attempt Fso))

/-- The section of the streams. -/
def streamSection : List Byte :=
  if attempts.filterMap Attempt.listedId = [] then []
  else encodeAll (env.archive.enumeration true) (attempts.flatMap Attempt.fileBytes)

/-- The section of the objects. -/
def objectSection : List Byte :=
  encodeAll (env.archive.enumeration true) (attempts.flatMap (Attempt.fsoBytes env))

/-- The manifest with what has been recorded. -/
def recordedManifest (manifest : VersionManifest) : VersionManifest :=
  { manifest with
    archiveMetadata := some
      { entrySizes :=
          some ((addedFsos attempts).map fun fso => ((env.fsos.serialize fso).length : Int))
        streamIds := some (attempts.filterMap Attempt.listedId)
        streamSizes := some (attempts.filterMap Attempt.listedSize)
        entriesSizeInArchive := (objectSection env attempts).length } }

/-- Two sections, the manifest, its length, and the hash. -/
def layout (streams objects : List Byte) (manifest : VersionManifest) : List Byte :=
  let hashed := streams ++ objects ++ manifestSection env manifest ++
    getBytes (manifestSection env manifest).length
  hashed ++ env.hash .sha256 hashed

/-- The writer while streams are added. -/
def filesWriter (anyFile : Bool) : WriterSession :=
  { new with
    outputFilter := some { newFilter env with input := attempts.flatMap Attempt.fileBytes }
    state := .pushingFiles
    streamIds := attempts.filterMap Attempt.listedId
    streamSizes := attempts.filterMap Attempt.listedSize
    anyFile := anyFile }

/-- The writer while objects are added. -/
def fsosWriter (anyFile : Bool) : WriterSession :=
  { filesWriter env attempts anyFile with
    hashedStream := streamSection env attempts
    outputFilter := some { newFilter env with input := attempts.flatMap (Attempt.fsoBytes env) }
    state := .pushingFsos
    baseObjectEntrySizes :=
      (addedFsos attempts).map fun fso => ((env.fsos.serialize fso).length : Int)
    initialFsoOffset := (streamSection env attempts).length }

/-- Nothing has been done yet that would prevent the archive from being completed. -/
structure Live : Prop where
  regular : ∀ a ∈ attempts, a.Regular
  addedManifests_eq : addedManifests attempts = []

/-- No object has been serialized. -/
structure NoFsos : Prop where
  fsoBytes_eq : attempts.flatMap (Attempt.fsoBytes env) = []
  addedFsos_eq : addedFsos attempts = []

/-- No stream has been read. -/
structure NoFiles : Prop where
  listedIds_eq : attempts.filterMap Attempt.listedId = []
  listedSizes_eq : attempts.filterMap Attempt.listedSize = []
  fileBytes_eq : attempts.flatMap Attempt.fileBytes = []

/-- A writer that cannot complete its archive any more. -/
structure Dead (w : WriterSession) : Prop where
  state_ne : w.state ≠ .final
  outputFilter_eq : w.state = .pushingFsos → w.outputFilter = none
  isOpen_eq : w.state ≠ .pushingFsos → w.isOpen = false
  committed_eq : w.committed = none

/-- The stages of a writer. -/
inductive Stage : WriterSession → Prop
  | initial (hlive : Live attempts) (hfiles : NoFiles attempts) (hfsos : NoFsos env attempts) :
      Stage new
  | files (anyFile : Bool) (hlive : Live attempts) (hfsos : NoFsos env attempts)
      (hfiles : attempts.filterMap Attempt.listedId ≠ []) :
      Stage (filesWriter env attempts anyFile)
  | fsos (anyFile : Bool) (hlive : Live attempts) : Stage (fsosWriter env attempts anyFile)
  | final {w : WriterSession} (manifest : VersionManifest) (hstate : w.state = .final)
      (hregular : ∀ a ∈ attempts, a.Regular) (hmanifests : addedManifests attempts = [manifest])
      (hcommitted : w.committed = some (layout env (streamSection env attempts)
        (objectSection env attempts) (recordedManifest env attempts manifest)))
      (hlt : (layout env (streamSection env attempts) (objectSection env attempts)
        (recordedManifest env attempts manifest)).length < maxLength) :
      Stage w
  | dead {w : WriterSession} (hdead : Dead w) (hmanifests : addedManifests attempts = []) : Stage w

variable {env attempts}

lemma Live.snoc (h : Live attempts) {a : Attempt Fso} (hregular : a.Regular)
    (hmanifest : a.addedManifest = none) : Live (attempts ++ [a]) where
  regular := by
    intro a' ha'
    rcases List.mem_append.mp ha' with ha' | ha'
    · exact h.regular a' ha'
    · exact List.mem_singleton.mp ha' ▸ hregular
  addedManifests_eq := by
    have hold := h.addedManifests_eq
    rw [addedManifests] at hold ⊢
    simp [hold, hmanifest]

lemma NoFsos.snoc (h : NoFsos env attempts) {a : Attempt Fso} (hbytes : a.fsoBytes env = [])
    (hfso : a.addedFso = none) : NoFsos env (attempts ++ [a]) where
  fsoBytes_eq := by simp [h.fsoBytes_eq, hbytes]
  addedFsos_eq := by
    have hold := h.addedFsos_eq
    rw [addedFsos] at hold ⊢
    simp [hold, hfso]

section Silent

variable {a : Attempt Fso} (ha : a.Silent env)

include ha

lemma NoFiles.snoc (h : NoFiles attempts) : NoFiles (attempts ++ [a]) where
  listedIds_eq := by simp [h.listedIds_eq, ha.listedId_eq]
  listedSizes_eq := by simp [h.listedSizes_eq, ha.listedSize_eq]
  fileBytes_eq := by simp [h.fileBytes_eq, ha.fileBytes_eq]

lemma filterMap_listedId_snoc :
    (attempts ++ [a]).filterMap Attempt.listedId = attempts.filterMap Attempt.listedId := by
  simp [List.filterMap_append, List.filterMap_cons_none ha.listedId_eq]

lemma filterMap_listedSize_snoc :
    (attempts ++ [a]).filterMap Attempt.listedSize = attempts.filterMap Attempt.listedSize := by
  simp [List.filterMap_append, List.filterMap_cons_none ha.listedSize_eq]

lemma streamSection_snoc : streamSection env (attempts ++ [a]) = streamSection env attempts := by
  rw [streamSection, streamSection, filterMap_listedId_snoc ha, List.flatMap_append,
    List.flatMap_singleton, ha.fileBytes_eq, List.append_nil]

lemma flatMap_fsoBytes_snoc :
    (attempts ++ [a]).flatMap (Attempt.fsoBytes env) = attempts.flatMap (Attempt.fsoBytes env) := by
  rw [List.flatMap_append, List.flatMap_singleton, ha.fsoBytes_eq, List.append_nil]

lemma addedFsos_snoc : addedFsos (attempts ++ [a]) = addedFsos attempts := by
  simp [addedFsos, List.filterMap_append, List.filterMap_cons_none ha.addedFso_eq]

lemma objectSection_snoc : objectSection env (attempts ++ [a]) = objectSection env attempts := by
  rw [objectSection, objectSection, flatMap_fsoBytes_snoc ha]

lemma recordedManifest_snoc (manifest : VersionManifest) :
    recordedManifest env (attempts ++ [a]) manifest = recordedManifest env attempts manifest := by
  rw [recordedManifest, recordedManifest, addedFsos_snoc ha, filterMap_listedId_snoc ha,
    filterMap_listedSize_snoc ha, objectSection_snoc ha]

lemma filesWriter_snoc (anyFile : Bool) :
    filesWriter env (attempts ++ [a]) anyFile = filesWriter env attempts anyFile := by
  simp only [filesWriter, filterMap_listedId_snoc ha, filterMap_listedSize_snoc ha,
    List.flatMap_append, List.flatMap_singleton, ha.fileBytes_eq, List.append_nil]

lemma fsosWriter_snoc (anyFile : Bool) :
    fsosWriter env (attempts ++ [a]) anyFile = fsosWriter env attempts anyFile := by
  simp only [fsosWriter, filesWriter_snoc ha, streamSection_snoc ha, flatMap_fsoBytes_snoc ha,
    addedFsos_snoc ha]

end Silent

/-- A call after which the writer cannot go on. -/
lemma stage_dead_snoc (hmanifests : addedManifests attempts = []) {a : Attempt Fso}
    (hmanifest : a.addedManifest = none) {w : WriterSession} (hdead : Dead w) :
    Stage env (attempts ++ [a]) w :=
  .dead hdead (by
    rw [addedManifests] at hmanifests ⊢
    simp [hmanifests, hmanifest])

/-- The writer that has been disposed of. -/
lemma stage_dispose {w : WriterSession} (hstate : w.state ≠ .final)
    (hcommitted : w.committed = none)
    (hmanifests : addedManifests attempts = []) (succeeded : Bool) :
    Stage env (attempts ++ [⟨w, .dispose, succeeded⟩]) w.dispose :=
  stage_dead_snoc hmanifests rfl ⟨hstate, fun _ => rfl, fun _ => rfl, hcommitted⟩

lemma ensureMaximumState_eq_ok {w : ArchiveWriter} {s : ArchiveState}
    (h : w.state.toNat ≤ s.toNat) : w.ensureMaximumState s = .ok () := by
  rw [ensureMaximumState, if_neg (not_lt.mpr h)]
  rfl

lemma ensureMinimumState_eq_ok {w : ArchiveWriter} {s : ArchiveState}
    (h : s.toNat ≤ w.state.toNat) : w.ensureMinimumState s = .ok () := by
  rw [ensureMinimumState, if_neg (not_lt.mpr h)]
  rfl

lemma ensureMaximumState_eq_error {w : ArchiveWriter} {s : ArchiveState}
    (h : s.toNat < w.state.toNat) : w.ensureMaximumState s = .error .invalidProgramState := by
  rw [ensureMaximumState, if_pos h]
  rfl

lemma ensureMinimumState_eq_error {w : ArchiveWriter} {s : ArchiveState}
    (h : w.state.toNat < s.toNat) : w.ensureMinimumState s = .error .invalidProgramState := by
  rw [ensureMinimumState, if_pos h]
  rfl

/-- The filter that `AddFile` writes to. -/
def filesFilter (env : ArchiveEnv Fso) (w : WriterSession) : Option OutputFilter :=
  if w.state = .initial then some (newFilter env) else w.outputFilter

/-- A stream that is read is listed, and what can be read of it is written. -/
lemma addFile_spec {w : WriterSession} {filter : OutputFilter}
    (hstate : w.state = .initial ∨ w.state = .pushingFiles)
    (hfilter : filesFilter env w = some filter) (streamId : Nat) (file : SourceStream)
    (type : HashType) :
    ∃ anyFile ret, w.addFile env streamId file type =
        ({ w with
            outputFilter := some (filter.write (if file.length.isSome then file.bytes else []))
            state := .pushingFiles
            streamIds := w.streamIds ++ [streamId]
            streamSizes := w.streamSizes ++ file.length.toList
            anyFile := anyFile }, ret) ∧
      (ret.isOk = true ↔ file.length.isSome ∧ file.fails = false) := by
  have hmax : w.ensureMaximumState .pushingFiles = .ok () :=
    ensureMaximumState_eq_ok (by rcases hstate with h | h <;> simp [h, ArchiveState.toNat])
  obtain ⟨length, bytes, fails⟩ := file
  have hstart : (if w.state = .initial then
      ({ w with outputFilter := some (newFilter env), state := .pushingFiles } : WriterSession)
      else w) = { w with outputFilter := some filter, state := .pushingFiles } := by
    rw [filesFilter] at hfilter
    split_ifs at hfilter ⊢ with hinitial
    · rw [hfilter]
    · have hfiles := hstate.resolve_left hinitial
      rw [← hfilter, ← hfiles]
  rw [addFile, hmax]
  simp only [hstart]
  cases length with
  | none =>
    exact ⟨w.anyFile, .error .io, by simp [OutputFilter.write],
      by simp [Except.isOk, Except.toBool]⟩
  | some length =>
    cases fails with
    | true => exact ⟨w.anyFile, .error .io, rfl, by simp [Except.isOk, Except.toBool]⟩
    | false => exact ⟨true, .ok _, rfl, by simp [Except.isOk, Except.toBool]⟩

variable (env) in
/-- Before the first object, the section of the streams is closed. -/
lemma startFsos_spec {w : WriterSession} (filter : OutputFilter) (hopen : w.isOpen = true)
    (hfilter : w.state ≠ .initial → w.outputFilter = some filter)
    (hflushed : filter.flushed = false)
    (hstate : w.state = .initial ∨ w.state = .pushingFiles) :
    w.startFsos env = (let hashedStream := w.hashedStream ++
        (if w.state = .initial then [] else filter.nest.written filter.input);
      { w with
        hashedStream := hashedStream
        initialFsoOffset := hashedStream.length
        outputFilter := some (newFilter env)
        state := .pushingFsos }, .ok ()) := by
  rcases hstate with hstate | hstate
  · simp [startFsos, hstate, hopen]
  · simp [startFsos, hstate, hopen, closeFilter, hfilter, OutputFilter.flush, hflushed]

/-- The bytes of an object that are written. -/
def serialized (env : ArchiveEnv Fso) (fso : Fso) : Option Nat → List Byte
  | none => env.fsos.serialize fso
  | some written => (env.fsos.serialize fso).take written

/-- The size of an object is recorded when all of it has been written. -/
lemma addFso_spec {w w' : WriterSession} {filter : OutputFilter} (hstate : w.state ≠ .final)
    (hstart : w.startFsos env = (w', .ok ())) (hfilter : w'.outputFilter = some filter) (fso : Fso)
    (failure : Option Nat) :
    ∃ ret, w.addFso env fso failure =
        ({ w' with
            outputFilter := some (filter.write (serialized env fso failure))
            baseObjectEntrySizes := w'.baseObjectEntrySizes ++
              (if failure = none then [((env.fsos.serialize fso).length : Int)] else []) }, ret) ∧
      (ret.isOk = true ↔ failure = none) := by
  have hmax : w.ensureMaximumState .pushingFsos = .ok () := by
    refine ensureMaximumState_eq_ok ?_
    cases hw : w.state with
    | final => exact absurd hw hstate
    | _ => decide
  cases failure with
  | none =>
    refine ⟨.ok (), ?_, by simp [Except.isOk, Except.toBool]⟩
    simp [addFso, hmax, hstart, hfilter, serialized, OutputFilter.write, OutputFilter.bytesWritten]
  | some written =>
    refine ⟨.error .filter, ?_, by simp [Except.isOk, Except.toBool]⟩
    simp [addFso, hmax, hstart, hfilter, serialized]

variable (env) in
/-- Calls that come too late change nothing. -/
lemma call_final {w : WriterSession} (hstate : w.state = .final) (c : WriterCall Fso) :
    (w.call env c).1.state = .final ∧ (w.call env c).1.committed = w.committed ∧
      (c ≠ .dispose → (w.call env c).2.isOk = false) := by
  have hmax : ∀ s, s ≠ ArchiveState.final →
    w.ensureMaximumState s = .error .invalidProgramState := by
    intro s hs
    refine ensureMaximumState_eq_error ?_
    rw [hstate]
    cases s with
    | final => exact absurd rfl hs
    | _ => decide
  have hmin : w.ensureMinimumState .pushingFsos = .ok () :=
    ensureMinimumState_eq_ok (by rw [hstate]; decide)
  cases c with
  | addFile streamId file type =>
    simp [call, addFile, hmax .pushingFiles nofun, hstate, Except.map, Except.isOk, Except.toBool]
  | addFso fso failure =>
    simp [call, addFso, hmax .pushingFsos nofun, hstate, Except.isOk, Except.toBool]
  | addVersionManifest manifest failure =>
    simp [call, addVersionManifest, hmax .pushingFsos nofun, hmin, hstate, Except.map, Except.isOk,
      Except.toBool]
  | dispose => exact ⟨hstate, rfl, fun h => absurd rfl h⟩

/-- The manifest that is written. -/
def manifestOf (w : WriterSession) (objects : List Byte) (versionManifest : VersionManifest) :
    VersionManifest :=
  { versionManifest with
    archiveMetadata := some
      { entrySizes := some w.baseObjectEntrySizes
        streamIds := some w.streamIds
        streamSizes := some w.streamSizes
        entriesSizeInArchive := (w.hashedStream ++ objects).length - w.initialFsoOffset } }

variable (env) in
/-- The archive is complete and has been committed, or it can never be completed. -/
lemma addVersionManifest_spec {w : WriterSession} {filter : OutputFilter} (hopen : w.isOpen = true)
    (hstate : w.state = .pushingFsos) (hfilter : w.outputFilter = some filter)
    (hflushed : filter.flushed = false) (manifest : VersionManifest) (failure : Option Nat) :
    ∃ w' ret, w.addVersionManifest env manifest failure = (w', ret) ∧
      ((ret.isOk = true ∧ w'.state = .final ∧
          w'.committed = some (layout env w.hashedStream (filter.nest.written filter.input)
            (manifestOf w (filter.nest.written filter.input) manifest)) ∧
          (layout env w.hashedStream (filter.nest.written filter.input)
            (manifestOf w (filter.nest.written filter.input) manifest)).length < maxLength) ∨
        ret.isOk = false ∧ w'.state = .pushingFsos ∧ w'.outputFilter = none ∧
          w'.committed = w.committed) := by
  have hmin : w.ensureMinimumState .pushingFsos = .ok () :=
    ensureMinimumState_eq_ok (by rw [hstate])
  have hmax : w.ensureMaximumState .pushingFsos = .ok () :=
    ensureMaximumState_eq_ok (by rw [hstate])
  rcases hcall : w.addVersionManifest env manifest failure with ⟨w', ret⟩
  refine ⟨w', ret, rfl, ?_⟩
  simp only [addVersionManifest, hmin, hmax, closeFilter, hfilter, hopen, OutputFilter.flush,
    hflushed, Bool.false_eq_true, if_false] at hcall
  cases failure with
  | some written =>
    obtain ⟨rfl, rfl⟩ := Prod.mk.inj hcall
    exact .inr ⟨rfl, hstate, rfl, rfl⟩
  | none =>
    have hlength : ∀ xs ys : List Byte, ((xs ++ ys).length : Int) - xs.length = ys.length := by
      intro xs ys
      rw [List.length_append]
      push_cast
      ring
    have hwritten : ∀ bytes, (if ((newFilter env false).write bytes).flushed = true then []
        else ((newFilter env false).write bytes).nest.written
          ((newFilter env false).write bytes).input) =
        encodeAll (env.archive.enumeration false) bytes :=
        fun bytes => written_newFilter false bytes
    simp only [hwritten, hlength] at hcall
    split_ifs at hcall with hlt
    · obtain ⟨rfl, rfl⟩ := Prod.mk.inj hcall
      exact .inl ⟨rfl, rfl, rfl, hlt⟩
    · obtain ⟨rfl, rfl⟩ := Prod.mk.inj hcall
      exact .inr ⟨rfl, hstate, rfl, rfl⟩

/-- A stream is added while nothing else has been. -/
lemma stage_addFile {w : WriterSession} (anyFile : Bool) (hlive : Live attempts)
    (hfsos : NoFsos env attempts) (hstate : w.state = .initial ∨ w.state = .pushingFiles)
    (hfilter : filesFilter env w =
      some { newFilter env with input := attempts.flatMap Attempt.fileBytes })
    (hw : { w with
      outputFilter := some { newFilter env with input := attempts.flatMap Attempt.fileBytes }
      state := .pushingFiles } = filesWriter env attempts anyFile)
    (streamId : Nat) (file : SourceStream) (type : HashType) :
    Stage env
      (attempts ++ [⟨w, .addFile streamId file type,
        (w.call env (.addFile streamId file type)).2.isOk⟩])
      (w.call env (.addFile streamId file type)).1 := by
  obtain ⟨anyFile', ret, hcall, hret⟩ := addFile_spec hstate hfilter streamId file type
  have hok : (ret.map fun _ => ()).isOk = ret.isOk := by cases ret <;> rfl
  simp only [call, hcall, hok]
  have hreads : (⟨w, .addFile streamId file type, ret.isOk⟩ : Attempt Fso).readsFile := hstate
  have hids : w.streamIds = attempts.filterMap Attempt.listedId :=
    congrArg (fun w : WriterSession => w.streamIds) hw
  have hsizes : w.streamSizes = attempts.filterMap Attempt.listedSize :=
    congrArg (fun w : WriterSession => w.streamSizes) hw
  have hid : (⟨w, .addFile streamId file type, ret.isOk⟩ : Attempt Fso).listedId =
      some streamId := if_pos hreads
  have hsize : (⟨w, .addFile streamId file type, ret.isOk⟩ : Attempt Fso).listedSize =
      file.length := if_pos hreads
  have hbytes : (⟨w, .addFile streamId file type, ret.isOk⟩ : Attempt Fso).fileBytes =
      if file.length.isSome then file.bytes else [] := by
    simp only [Attempt.fileBytes, hreads, true_and]
  have heq : { w with
      outputFilter := some (OutputFilter.write
        { newFilter env with input := attempts.flatMap Attempt.fileBytes }
        (if file.length.isSome then file.bytes else []))
      state := .pushingFiles
      streamIds := w.streamIds ++ [streamId]
      streamSizes := w.streamSizes ++ file.length.toList
      anyFile := anyFile' } =
      filesWriter env (attempts ++ [⟨w, .addFile streamId file type, ret.isOk⟩]) anyFile' := by
    have hsame := congrArg (fun w' : WriterSession => { w' with
      outputFilter := some (OutputFilter.write
        { newFilter env with input := attempts.flatMap Attempt.fileBytes }
        (if file.length.isSome then file.bytes else []))
      streamIds := w.streamIds ++ [streamId]
      streamSizes := w.streamSizes ++ file.length.toList
      anyFile := anyFile' }) hw
    refine hsame.trans ?_
    have hlist : ([⟨w, .addFile streamId file type, ret.isOk⟩] : List (Attempt Fso)).filterMap
        Attempt.listedSize = file.length.toList := by
      rw [List.filterMap_cons, hsize]
      cases file.length <;> rfl
    simp only [filesWriter, OutputFilter.write, List.flatMap_append, List.filterMap_append, hids,
      hsizes, hlist, List.flatMap_singleton, hbytes, List.filterMap_cons_some hid,
      List.filterMap_nil]
  rw [heq]
  refine .files anyFile' (hlive.snoc ?_ rfl) (hfsos.snoc rfl rfl) ?_
  · exact hret.trans ⟨fun h => ⟨hreads, h⟩, fun h => h.2⟩
  · simp [hid]

/-- An object is serialized when the section of the streams has been closed. -/
lemma stage_addFso {w w' : WriterSession} (anyFile : Bool) (hlive : Live attempts)
    (hstate : w.state ≠ .final) (hstart : w.startFsos env = (w', .ok ()))
    (hw' : w' = fsosWriter env attempts anyFile) (fso : Fso) (failure : Option Nat) :
    Stage env (attempts ++ [⟨w, .addFso fso failure, (w.call env (.addFso fso failure)).2.isOk⟩])
      (w.call env (.addFso fso failure)).1 := by
  obtain ⟨ret, hcall, hret⟩ := addFso_spec hstate hstart (by rw [hw']; rfl) fso failure
  simp only [call, hcall]
  have hserializes : Attempt.serializesFso ⟨w, WriterCall.addFso fso failure, ret.isOk⟩ := hstate
  have hbytes : Attempt.fsoBytes env ⟨w, WriterCall.addFso fso failure, ret.isOk⟩ =
      serialized env fso failure := by
    cases failure <;> simp only [Attempt.fsoBytes, hserializes, if_true, serialized]
  have hfsos : (addedFsos (attempts ++ [⟨w, .addFso fso failure, ret.isOk⟩])).map
      (fun fso => ((env.fsos.serialize fso).length : Int)) =
      (addedFsos attempts).map (fun fso => ((env.fsos.serialize fso).length : Int)) ++
        (if failure = none then [((env.fsos.serialize fso).length : Int)] else []) := by
    rw [addedFsos, List.filterMap_append, List.map_append, addedFsos]
    congr 1
    by_cases hfailure : failure = none
    · simp [Attempt.addedFso, hret.mpr hfailure, hfailure]
    · simp [Attempt.addedFso, mt hret.mp hfailure, hfailure]
  have heq : { w' with
      outputFilter := some (OutputFilter.write
        { newFilter env with input := attempts.flatMap (Attempt.fsoBytes env) }
        (serialized env fso failure))
      baseObjectEntrySizes := w'.baseObjectEntrySizes ++
        (if failure = none then [((env.fsos.serialize fso).length : Int)] else []) } =
      fsosWriter env (attempts ++ [⟨w, .addFso fso failure, ret.isOk⟩]) anyFile := by
    rw [hw']
    simp [fsosWriter, filesWriter, streamSection, OutputFilter.write, List.flatMap_append,
      List.filterMap_append, hbytes, hfsos, Attempt.listedId, Attempt.listedSize, Attempt.fileBytes]
  rw [heq]
  refine .fsos anyFile (hlive.snoc ?_ rfl)
  exact hret.trans ⟨fun h => ⟨hserializes, h⟩, fun h => h.2⟩

/-- A manifest that comes too early. -/
lemma call_addVersionManifest_early {w : WriterSession}
    (hstate : w.state = .initial ∨ w.state = .pushingFiles) (manifest : VersionManifest)
    (failure : Option Nat) :
    w.call env (.addVersionManifest manifest failure) = (w, .error .invalidProgramState) := by
  have hmin : w.ensureMinimumState .pushingFsos = .error .invalidProgramState :=
    ensureMinimumState_eq_error (by rcases hstate with h | h <;> simp [h, ArchiveState.toNat])
  simp [call, addVersionManifest, hmin, Except.map]

lemma stage_initial (hlive : Live attempts) (hfiles : NoFiles attempts)
    (hfsos : NoFsos env attempts)
    (c : WriterCall Fso) :
    Stage env (attempts ++ [⟨new, c, (new.call env c).2.isOk⟩]) (new.call env c).1 := by
  cases c with
  | addFile streamId file type =>
    refine stage_addFile false hlive hfsos (.inl rfl) ?_ ?_ streamId file type
    · rw [hfiles.fileBytes_eq]
      rfl
    · rw [filesWriter, hfiles.listedIds_eq, hfiles.listedSizes_eq]
      rfl
  | addFso fso failure =>
    have hstart := startFsos_spec env (w := new) (newFilter env) rfl
      (fun h => absurd rfl h) rfl (.inl rfl)
    refine stage_addFso false hlive (by decide) hstart ?_ fso failure
    simp [fsosWriter, filesWriter, streamSection, hfiles.listedIds_eq, hfiles.listedSizes_eq,
      hfsos.fsoBytes_eq, hfsos.addedFsos_eq, new, ArchiveWriter.new, newFilter, OutputFilter.new]
  | addVersionManifest manifest failure =>
    rw [call_addVersionManifest_early (.inl rfl)]
    exact .initial (hlive.snoc trivial rfl)
      (NoFiles.snoc (Attempt.silent_addVersionManifest env) hfiles)
      (hfsos.snoc rfl rfl)
  | dispose => exact stage_dispose (by decide) rfl hlive.addedManifests_eq true

lemma stage_files {anyFile : Bool} (hlive : Live attempts) (hfsos : NoFsos env attempts)
    (hids : attempts.filterMap Attempt.listedId ≠ []) (c : WriterCall Fso) :
    Stage env (attempts ++ [⟨filesWriter env attempts anyFile, c,
      ((filesWriter env attempts anyFile).call env c).2.isOk⟩])
      ((filesWriter env attempts anyFile).call env c).1 := by
  cases c with
  | addFile streamId file type =>
    exact stage_addFile anyFile hlive hfsos (.inr rfl) rfl rfl streamId file type
  | addFso fso failure =>
    have hstart := startFsos_spec env (w := filesWriter env attempts anyFile) _ rfl
      (fun _ => rfl) rfl (.inr rfl)
    refine stage_addFso anyFile hlive (nomatch · : ArchiveState.pushingFiles ≠ .final) hstart
      ?_ fso failure
    simp [fsosWriter, filesWriter, streamSection, hids, hfsos.fsoBytes_eq, hfsos.addedFsos_eq,
      new, ArchiveWriter.new, newFilter, OutputFilter.new, Archive.written_doOutputFiltering,
      FilterNest.written]
  | addVersionManifest manifest failure =>
    rw [call_addVersionManifest_early (.inr rfl)]
    have hstage := Stage.files anyFile (hlive.snoc (a := ⟨filesWriter env attempts anyFile,
      .addVersionManifest manifest failure, false⟩) trivial rfl) (hfsos.snoc rfl rfl)
      (by simpa [Attempt.listedId] using hids)
    rw [filesWriter_snoc (Attempt.silent_addVersionManifest env)] at hstage
    exact hstage
  | dispose =>
    exact stage_dispose (nomatch · : ArchiveState.pushingFiles ≠ .final) rfl
      hlive.addedManifests_eq true

lemma startFsos_eq_self {w : WriterSession} (hstate : w.state = .pushingFsos) :
    w.startFsos env = (w, .ok ()) := by
  simp [startFsos, hstate]

lemma stage_fsos {anyFile : Bool} (hlive : Live attempts) (c : WriterCall Fso) :
    Stage env (attempts ++ [⟨fsosWriter env attempts anyFile, c,
      ((fsosWriter env attempts anyFile).call env c).2.isOk⟩])
      ((fsosWriter env attempts anyFile).call env c).1 := by
  have hnotFinal : (fsosWriter env attempts anyFile).state ≠ .final :=
    (nomatch · : ArchiveState.pushingFsos ≠ .final)
  have hnotReads : ∀ (c : WriterCall Fso) (succeeded : Bool),
      ¬ Attempt.readsFile ⟨fsosWriter env attempts anyFile, c, succeeded⟩ := by
    rintro c succeeded (h | h) <;> cases h
  cases c with
  | addFile streamId file type =>
    have hmax : ensureMaximumState (fsosWriter env attempts anyFile).toArchiveWriter .pushingFiles =
        .error .invalidProgramState := ensureMaximumState_eq_error (by
      show ArchiveState.toNat .pushingFiles < ArchiveState.toNat .pushingFsos
      decide)
    have hcall : (fsosWriter env attempts anyFile).call env (.addFile streamId file type) =
        (fsosWriter env attempts anyFile, .error .invalidProgramState) := by
      simp [call, addFile, hmax, Except.map]
    rw [hcall]
    have hstage : Stage env _ _ := .fsos anyFile (hlive.snoc (a := ⟨fsosWriter env attempts anyFile,
      .addFile streamId file type, false⟩) (iff_of_false nofun fun h => hnotReads _ _ h.1) rfl)
    rw [fsosWriter_snoc (Attempt.silent_addFile env (hnotReads _ _))] at hstage
    exact hstage
  | addFso fso failure =>
    exact stage_addFso anyFile hlive hnotFinal (startFsos_eq_self rfl) rfl fso failure
  | addVersionManifest manifest failure =>
    obtain ⟨w', ret, hcall, hresult⟩ := addVersionManifest_spec env
      (w := fsosWriter env attempts anyFile) rfl rfl rfl rfl manifest failure
    have hok : (ret.map fun _ => ()).isOk = ret.isOk := by cases ret <;> rfl
    simp only [call, hcall, hok]
    have hold := hlive.addedManifests_eq
    rw [addedManifests] at hold
    rcases hresult with ⟨hret, hstate, hcommitted, hlt⟩ | ⟨hret, hstate, hfilter, hcommitted⟩
    · rw [hret]
      have hsilent : Attempt.Silent env ⟨fsosWriter env attempts anyFile,
        .addVersionManifest manifest failure, true⟩ := Attempt.silent_addVersionManifest env
      have hwritten : ({ newFilter env with input := attempts.flatMap (Attempt.fsoBytes env) } :
          OutputFilter).nest.written (attempts.flatMap (Attempt.fsoBytes env)) =
            objectSection env attempts := written_newFilter true _
      have hmanifest : manifestOf (fsosWriter env attempts anyFile) (objectSection env attempts)
          manifest = recordedManifest env attempts manifest := by
        simp [manifestOf, recordedManifest, fsosWriter, filesWriter]
      have hstreams : (fsosWriter env attempts anyFile).hashedStream = streamSection env attempts :=
        rfl
      rw [hwritten, hmanifest, hstreams] at hcommitted hlt
      rw [← streamSection_snoc hsilent, ← objectSection_snoc hsilent,
        ← recordedManifest_snoc hsilent] at hcommitted hlt
      refine .final manifest hstate (fun a ha => ?_)
        (by simp [addedManifests, hold, Attempt.addedManifest]) hcommitted hlt
      rcases List.mem_append.mp ha with ha | ha
      · exact hlive.regular a ha
      · exact List.mem_singleton.mp ha ▸ trivial
    · rw [hret]
      exact stage_dead_snoc hlive.addedManifests_eq rfl
        ⟨by rw [hstate]; decide, fun _ => hfilter, fun h => absurd hstate h, hcommitted⟩
  | dispose => exact stage_dispose hnotFinal rfl hlive.addedManifests_eq true

lemma stage_final {w : WriterSession} {manifest : VersionManifest} (hstate : w.state = .final)
    (hregular : ∀ a ∈ attempts, a.Regular) (hmanifests : addedManifests attempts = [manifest])
    (hcommitted : w.committed = some (layout env (streamSection env attempts)
      (objectSection env attempts) (recordedManifest env attempts manifest)))
    (hlt : (layout env (streamSection env attempts) (objectSection env attempts)
      (recordedManifest env attempts manifest)).length < maxLength) (c : WriterCall Fso) :
    Stage env (attempts ++ [⟨w, c, (w.call env c).2.isOk⟩]) (w.call env c).1 := by
  obtain ⟨hstate', hcommitted', hfails⟩ := call_final env hstate c
  have hnotReads : ¬ Attempt.readsFile ⟨w, c, (w.call env c).2.isOk⟩ := by
    rintro (h | h) <;> rw [hstate] at h <;> cases h
  have hnotSerializes : ¬ Attempt.serializesFso ⟨w, c, (w.call env c).2.isOk⟩ :=
    fun h => h hstate
  obtain ⟨hsilent, hmanifest, hregular'⟩ : Attempt.Silent env ⟨w, c, (w.call env c).2.isOk⟩ ∧
      Attempt.addedManifest ⟨w, c, (w.call env c).2.isOk⟩ = none ∧
        Attempt.Regular ⟨w, c, (w.call env c).2.isOk⟩ := by
    cases c with
    | addFile streamId file type =>
      rw [hfails nofun] at hnotReads ⊢
      exact ⟨Attempt.silent_addFile env hnotReads, rfl, iff_of_false nofun fun h => hnotReads h.1⟩
    | addFso fso failure =>
      rw [hfails nofun] at hnotSerializes ⊢
      exact ⟨Attempt.silent_addFso env hnotSerializes, rfl,
        iff_of_false nofun fun h => hnotSerializes h.1⟩
    | addVersionManifest manifest failure =>
      rw [hfails nofun]
      exact ⟨Attempt.silent_addVersionManifest env, rfl, trivial⟩
    | dispose => exact ⟨Attempt.silent_dispose env, rfl, trivial⟩
  refine .final manifest hstate' ?_ ?_ ?_ ?_
  · intro a ha
    rcases List.mem_append.mp ha with ha | ha
    · exact hregular a ha
    · exact List.mem_singleton.mp ha ▸ hregular'
  · rw [addedManifests] at hmanifests ⊢
    simp [hmanifests, hmanifest]
  · rw [hcommitted', hcommitted, streamSection_snoc hsilent, objectSection_snoc hsilent,
      recordedManifest_snoc hsilent]
  · rw [streamSection_snoc hsilent, objectSection_snoc hsilent, recordedManifest_snoc hsilent]
    exact hlt

section Dead

variable (env) {w : WriterSession} (h : Dead w)

include h

lemma Dead.addFile (streamId : Nat) (file : SourceStream) (type : HashType) :
    Dead (w.addFile env streamId file type).1 := by
  cases hstate : w.state with
  | final => exact absurd hstate h.state_ne
  | pushingFsos =>
    have hlate : w.ensureMaximumState .pushingFiles = .error .invalidProgramState :=
      ensureMaximumState_eq_error (by rw [hstate]; decide)
    simp only [WriterSession.addFile, hlate]
    exact h
  | initial | pushingFiles =>
    have hmax : w.ensureMaximumState .pushingFiles = .ok () :=
      ensureMaximumState_eq_ok (by simp [hstate, ArchiveState.toNat])
    have hclosed : w.isOpen = false := h.isOpen_eq (by rw [hstate]; decide)
    have hcommitted := h.committed_eq
    have hdead : ∀ w' : WriterSession, w'.state = .pushingFiles → w'.isOpen = false →
        w'.committed = none → Dead w' := fun w' hstate hopen hcommitted =>
      ⟨by rw [hstate]; decide, by simp [hstate], fun _ => hopen, hcommitted⟩
    refine hdead _ ?_ ?_ ?_ <;> simp only [WriterSession.addFile, hmax, hstate] <;>
      (repeat' split) <;> simp_all

lemma Dead.addFso (fso : Fso) (failure : Option Nat) :
    ∃ e, w.addFso env fso failure = (w, .error e) := by
  have hmax : w.ensureMaximumState .pushingFsos = .ok () := by
    refine ensureMaximumState_eq_ok ?_
    cases hstate : w.state with
    | final => exact absurd hstate h.state_ne
    | _ => decide
  refine ⟨.nullReference, ?_⟩
  cases hstate : w.state with
  | final => exact absurd hstate h.state_ne
  | pushingFsos =>
    simp [WriterSession.addFso, hmax, startFsos_eq_self hstate, h.outputFilter_eq hstate]
  | initial =>
    have hclosed : w.isOpen = false := h.isOpen_eq (by rw [hstate]; decide)
    simp [WriterSession.addFso, hmax, startFsos, hstate, hclosed]
  | pushingFiles =>
    have hclosed : w.isOpen = false := h.isOpen_eq (by rw [hstate]; decide)
    simp [WriterSession.addFso, hmax, startFsos, hstate, closeFilter, hclosed]

lemma Dead.addVersionManifest (manifest : VersionManifest) (failure : Option Nat) :
    ∃ e, w.call env (.addVersionManifest manifest failure) = (w, .error e) := by
  cases hstate : w.state with
  | final => exact absurd hstate h.state_ne
  | initial => exact ⟨_, call_addVersionManifest_early (.inl hstate) manifest failure⟩
  | pushingFiles => exact ⟨_, call_addVersionManifest_early (.inr hstate) manifest failure⟩
  | pushingFsos =>
    have hmin : w.ensureMinimumState .pushingFsos = .ok () :=
      ensureMinimumState_eq_ok (by rw [hstate])
    have hmax : w.ensureMaximumState .pushingFsos = .ok () :=
      ensureMaximumState_eq_ok (by rw [hstate])
    refine ⟨.nullReference, ?_⟩
    simp [call, WriterSession.addVersionManifest, hmin, hmax, closeFilter, h.outputFilter_eq hstate,
      Except.map]

/-- Without its file or its filter, a writer does not get any further. -/
lemma stage_dead (hmanifests : addedManifests attempts = []) (c : WriterCall Fso) :
    Stage env (attempts ++ [⟨w, c, (w.call env c).2.isOk⟩]) (w.call env c).1 := by
  cases c with
  | addFile streamId file type =>
    exact stage_dead_snoc hmanifests rfl (h.addFile env streamId file type)
  | addFso fso failure =>
    obtain ⟨e, he⟩ := h.addFso env fso failure
    rw [call, he]
    exact stage_dead_snoc hmanifests rfl h
  | addVersionManifest manifest failure =>
    obtain ⟨e, he⟩ := h.addVersionManifest env manifest failure
    rw [he]
    exact stage_dead_snoc hmanifests rfl h
  | dispose => exact stage_dispose h.state_ne h.committed_eq hmanifests true

end Dead

theorem stage_of_attempts {w : WriterSession} (h : Attempts env attempts w) :
    Stage env attempts w := by
  induction h with
  | new => exact .initial ⟨fun _ ha => absurd ha List.not_mem_nil, rfl⟩ ⟨rfl, rfl, rfl⟩ ⟨rfl, rfl⟩
  | call c _ ih =>
    cases ih with
    | initial hlive hfiles hfsos => exact stage_initial hlive hfiles hfsos c
    | files anyFile hlive hfsos hfiles => exact stage_files hlive hfsos hfiles c
    | fsos anyFile hlive => exact stage_fsos hlive c
    | final manifest hstate hregular hmanifests hcommitted hlt =>
      exact stage_final hstate hregular hmanifests hcommitted hlt c
    | dead hdead hmanifests => exact stage_dead env hdead hmanifests c

/-! ### Consistent archives -/

/-- The compression is the only filter, and it can be undone. -/
lemma encodeAll_injective {decompress : List Byte → Option (List Byte)}
    {compress : List Byte → List Byte}
    (harchive : env.archive = Archive.new (compressionFilterGenerator decompress compress))
    (hself : (compressionFilterGenerator decompress compress).SelfDelimiting)
    {includeEncryption : Bool} {bytes bytes' : List Byte}
    (h : encodeAll (env.archive.enumeration includeEncryption) bytes =
      encodeAll (env.archive.enumeration includeEncryption) bytes') : bytes = bytes' := by
  have henumeration : env.archive.enumeration includeEncryption =
      [compressionFilterGenerator decompress compress] := by
    rw [harchive]
    cases includeEncryption <;> rfl
  rw [henumeration] at h
  have hdecode := hself bytes []
  rw [show (compressionFilterGenerator decompress compress).filterOutput bytes =
    (compressionFilterGenerator decompress compress).filterOutput bytes' from h, hself bytes' [],
    Option.some.injEq] at hdecode
  exact hdecode.symm

/-- An archive has only one manifest without null lists, and only one section of objects of the size
that the manifest gives. -/
lemma layout_injective {decompress : List Byte → Option (List Byte)}
    {compress : List Byte → List Byte}
    (harchive : env.archive = Archive.new (compressionFilterGenerator decompress compress))
    (hself : (compressionFilterGenerator decompress compress).SelfDelimiting)
    (hinverts : env.manifests.InvertsManifests) {streams streams' objects objects' : List Byte}
    {m m' : VersionManifest} (hlt : (layout env streams objects m).length < maxLength)
    (hnonNull : m.ensureNonNull = m) (hnonNull' : m'.ensureNonNull = m')
    (h : layout env streams objects m = layout env streams' objects' m')
    (hm : m.archiveMetadata.map ArchiveMetadata.entriesSizeInArchive = some (objects.length : Int))
    (hm' : m'.archiveMetadata.map ArchiveMetadata.entriesSizeInArchive =
      some (objects'.length : Int)) : objects = objects' ∧ m = m' := by
  have hlt' := hlt
  rw [h] at hlt'
  simp only [layout, List.length_append, length_getBytes, env.length_sha256, maxLength] at hlt hlt'
  obtain ⟨hhashed, -⟩ := List.append_inj' h (by rw [env.length_sha256, env.length_sha256])
  obtain ⟨hsections, hlength⟩ := List.append_inj' hhashed (by rw [length_getBytes, length_getBytes])
  have hsize : (manifestSection env m).length = (manifestSection env m').length := by
    have hnumber := congrArg toInt64 hlength
    rw [toInt64_getBytes (by omega), toInt64_getBytes (by omega)] at hnumber
    exact Int.ofNat.inj hnumber
  obtain ⟨hdata, hmanifest⟩ := List.append_inj' hsections hsize
  have hserialized := encodeAll_injective harchive hself hmanifest
  have hmm' : m = m' := by
    obtain ⟨read, hread, hsame⟩ := hinverts m
    obtain ⟨read', hread', hsame'⟩ := hinverts m'
    rw [hserialized, hread', Option.some.injEq] at hread
    rw [← hnonNull, ← hnonNull', ← hsame, ← hsame', hread]
  subst hmm'
  rw [hm, Option.some.injEq] at hm'
  exact ⟨(List.append_inj' hdata (Int.ofNat.inj hm')).2, rfl⟩

end WriterSession

namespace Attempt

variable {Fso : Type} {env : ArchiveEnv Fso} {a : Attempt Fso}

/-- What has been added has been recorded and written. -/
lemma Regular.of_addedFile (h : a.Regular) {file : Nat × List Byte × HashType}
    (hfile : a.addedFile = some file) :
    a.listedId = some file.1 ∧ a.listedSize.isSome ∧ a.fileBytes = file.2.1 := by
  obtain ⟨before, call, succeeded⟩ := a
  cases call with
  | addFile streamId source type =>
    simp only [addedFile, Option.ite_none_right_eq_some, Option.some.injEq] at hfile
    obtain ⟨hsucceeded, rfl⟩ := hfile
    obtain ⟨hreads, hlength, -⟩ := h.mp hsucceeded
    exact ⟨if_pos hreads, by simpa [listedSize, hreads] using hlength, if_pos ⟨hreads, hlength⟩⟩
  | _ => simp [addedFile] at hfile

variable (env) in
lemma Regular.of_addedFso (h : a.Regular) {fso : Fso} (hfso : a.addedFso = some fso) :
    a.fsoBytes env = env.fsos.serialize fso := by
  obtain ⟨before, call, succeeded⟩ := a
  cases call with
  | addFso fso' failure =>
    simp only [addedFso, Option.ite_none_right_eq_some, Option.some.injEq] at hfso
    obtain ⟨hsucceeded, rfl⟩ := hfso
    obtain ⟨hserializes, rfl⟩ := h.mp hsucceeded
    exact if_pos hserializes
  | _ => simp [addedFso] at hfso

/-- A stream that is not listed has not been read. -/
lemma fileBytes_of_listedId (h : a.listedId = none) : a.fileBytes = [] := by
  obtain ⟨before, call, succeeded⟩ := a
  cases call with
  | addFile streamId source type =>
    have hreads :
        ¬ (⟨before, .addFile streamId source type, succeeded⟩ : Attempt Fso).readsFile := by
      simpa [listedId] using h
    exact if_neg fun h' => hreads h'.1
  | _ => rfl

/-- A call is complete if it has recorded and written what has been added and nothing else. -/
lemma complete_iff (h : a.Regular) :
    a.Complete env ↔ a.listedId = a.addedFile.map (·.1) ∧
      a.listedSize = a.addedFile.map (fun file => (file.2.1.length : Int)) ∧
      (a.addedFso = none → a.fsoBytes env = []) := by
  obtain ⟨before, call, succeeded⟩ := a
  cases call with
  | addFile streamId source type =>
    have hregular : succeeded = true ↔
        (⟨before, .addFile streamId source type, succeeded⟩ : Attempt Fso).readsFile ∧
          source.length.isSome ∧ source.fails = false := h
    simp only [Complete, listedId, listedSize, addedFile, fsoBytes, addedFso]
    by_cases hreads : (⟨before, .addFile streamId source type, succeeded⟩ : Attempt Fso).readsFile
    · cases succeeded with
      | true =>
        obtain ⟨-, -, hfails⟩ := hregular.mp rfl
        simp [hreads, hfails]
      | false =>
        have hfails : ¬ (source.length.isSome ∧ source.fails = false) :=
          fun hok => absurd (hregular.mpr ⟨hreads, hok⟩) nofun
        simp only [hreads, if_true, forall_const]
        refine iff_of_false (fun hcomplete => hfails ⟨?_, hcomplete.1⟩) (by simp)
        rw [hcomplete.2]
        rfl
    · have hfailed : succeeded = false := by
        cases succeeded with
        | true => exact absurd (hregular.mp rfl).1 hreads
        | false => rfl
      subst hfailed
      simp [hreads]
  | addFso fso failure =>
    have hregular : succeeded = true ↔
        (⟨before, .addFso fso failure, succeeded⟩ : Attempt Fso).serializesFso ∧ failure = none := h
    cases failure with
    | none =>
      by_cases hserializes : (⟨before, .addFso fso none, succeeded⟩ : Attempt Fso).serializesFso
      · simp [Complete, listedId, listedSize, addedFile, addedFso, hregular.mpr ⟨hserializes, rfl⟩]
      · simp [Complete, listedId, listedSize, addedFile, fsoBytes, hserializes]
    | some written =>
      have hfailed : succeeded = false := by
        cases succeeded with
        | true => exact absurd (hregular.mp rfl).2 nofun
        | false => rfl
      simp only [Complete, listedId, listedSize, addedFile, fsoBytes, addedFso, hfailed]
      simp
  | addVersionManifest manifest failure =>
    exact iff_of_true trivial ⟨rfl, rfl, fun _ => rfl⟩
  | dispose => exact iff_of_true trivial ⟨rfl, rfl, fun _ => rfl⟩

end Attempt

namespace WriterSession

variable {Fso : Type} {env : ArchiveEnv Fso} {attempts : List (Attempt Fso)}

variable (env) in
/-- The sections and the manifest are those of what has been added if all calls are complete, and
only then. -/
lemma forall_complete_iff (h : ∀ a ∈ attempts, a.Regular) :
    (∀ a ∈ attempts, a.Complete env) ↔
      attempts.filterMap Attempt.listedId = (addedFiles attempts).map (·.1) ∧
      attempts.filterMap Attempt.listedSize =
        (addedFiles attempts).map (fun file => (file.2.1.length : Int)) ∧
      attempts.flatMap (Attempt.fsoBytes env) = fsoData env (addedFsos attempts) := by
  have hfsos := Contributions.flatMap_eq_iff (g := Attempt.addedFso) (l := attempts)
    fun a ha fso hfso => (h a ha).of_addedFso env hfso
  have hids : (addedFiles attempts).map (·.1) =
      attempts.filterMap fun a => a.addedFile.map (·.1) := List.map_filterMap ..
  have hsizes : (addedFiles attempts).map (fun file => (file.2.1.length : Int)) =
      attempts.filterMap fun a => a.addedFile.map fun file => (file.2.1.length : Int) :=
    List.map_filterMap ..
  have hcomplete : ∀ a ∈ attempts, (a.Complete env ↔ _) := fun a ha => Attempt.complete_iff (h a ha)
  rw [hids, hsizes]
  constructor
  · intro hall
    have hall' := fun a ha => (hcomplete a ha).mp (hall a ha)
    exact ⟨List.filterMap_congr fun a ha => (hall' a ha).1,
      List.filterMap_congr fun a ha => (hall' a ha).2.1,
      hfsos.mpr fun a ha => (hall' a ha).2.2⟩
  · rintro ⟨hids', hsizes', hfsos'⟩ a ha
    have hsame := Contributions.isSome_iff_of_length (f := Attempt.listedId)
      (g := fun a => a.addedFile.map (·.1)) (fun a ha hadded => by
        obtain ⟨file, hfile⟩ := Option.isSome_iff_exists.mp (Option.isSome_map ▸ hadded)
        rw [((h a ha).of_addedFile hfile).1]
        rfl) (congrArg List.length hids')
    have hid := Contributions.eq_of_filterMap_eq hsame hids' a ha
    have hsame' := Contributions.isSome_iff_of_length (f := Attempt.listedSize)
      (g := fun a => a.addedFile.map fun file => (file.2.1.length : Int)) (fun a ha hadded => by
        obtain ⟨file, hfile⟩ := Option.isSome_iff_exists.mp (Option.isSome_map ▸ hadded)
        exact ((h a ha).of_addedFile hfile).2.1) (congrArg List.length hsizes')
    have hsize := Contributions.eq_of_filterMap_eq hsame' hsizes' a ha
    exact (hcomplete a ha).mpr ⟨hid, hsize, hfsos.mp hfsos' a ha⟩

/-- The section of the streams has what has been added, and nothing else. -/
lemma streamSection_of_complete (h : ∀ a ∈ attempts, a.Regular)
    (hids : attempts.filterMap Attempt.listedId = (addedFiles attempts).map (·.1))
    (hcomplete : ∀ a ∈ attempts, a.Complete env) :
    streamSection env attempts = fileSection env (addedFiles attempts) := by
  have hbytes : attempts.flatMap Attempt.fileBytes = fileData (addedFiles attempts) :=
    (Contributions.flatMap_eq_iff (g := Attempt.addedFile) fun a ha file hfile =>
      ((h a ha).of_addedFile hfile).2.2).mpr fun a ha hnone =>
        Attempt.fileBytes_of_listedId (by
          rw [((Attempt.complete_iff (h a ha)).mp (hcomplete a ha)).1, hnone]
          rfl)
  rw [streamSection, fileSection, hids, hbytes]
  simp only [List.map_eq_nil_iff]

/-- What has been committed is consistent if all calls are complete, and only then. -/
lemma consistent_iff_complete {decompress : List Byte → Option (List Byte)}
    {compress : List Byte → List Byte}
    (harchive : env.archive = Archive.new (compressionFilterGenerator decompress compress))
    (hself : (compressionFilterGenerator decompress compress).SelfDelimiting)
    (hinverts : env.manifests.InvertsManifests) {manifest : VersionManifest}
    (hregular : ∀ a ∈ attempts, a.Regular) (hmanifests : addedManifests attempts = [manifest])
    (hlt : (layout env (streamSection env attempts) (objectSection env attempts)
      (recordedManifest env attempts manifest)).length < maxLength) :
    Consistent env attempts (layout env (streamSection env attempts) (objectSection env attempts)
      (recordedManifest env attempts manifest)) ↔ ∀ a ∈ attempts, a.Complete env := by
  have hiff := forall_complete_iff env hregular
  rw [Consistent, hmanifests]
  constructor
  · rintro ⟨manifest', hmanifest', heq⟩
    obtain rfl := List.mem_singleton.mp hmanifest'
    have hlayout : layout env (streamSection env attempts) (objectSection env attempts)
        (recordedManifest env attempts manifest') =
      layout env (fileSection env (addedFiles attempts)) (fsoSection env (addedFsos attempts))
        (writtenManifest env (addedFiles attempts) (addedFsos attempts) manifest') := heq
    obtain ⟨hobjects, hrecorded⟩ :=
      layout_injective harchive hself hinverts hlt rfl rfl hlayout rfl rfl
    have hmetadata := congrArg VersionManifest.archiveMetadata hrecorded
    simp only [recordedManifest, writtenManifest, Option.some.injEq, ArchiveMetadata.mk.injEq]
      at hmetadata
    exact hiff.mpr ⟨hmetadata.2.2.1, hmetadata.2.2.2, encodeAll_injective harchive hself hobjects⟩
  · intro hcomplete
    obtain ⟨hids, hsizes, hfsos⟩ := hiff.mp hcomplete
    refine ⟨manifest, List.mem_singleton_self _, ?_⟩
    have hobjects : objectSection env attempts = fsoSection env (addedFsos attempts) := by
      rw [objectSection, fsoSection, hfsos]
    have hrecorded : recordedManifest env attempts manifest =
        writtenManifest env (addedFiles attempts) (addedFsos attempts) manifest := by
      rw [recordedManifest, writtenManifest, hids, hsizes, hobjects]
    rw [streamSection_of_complete hregular hids hcomplete, hobjects, hrecorded]
    rfl

/-- There is an archive if there is a manifest, and there is only one. -/
lemma Stage.committed_iff {w : WriterSession} (h : Stage env attempts w) :
    (w.committed = none ↔ addedManifests attempts = []) ∧ (addedManifests attempts).length ≤ 1 := by
  cases h with
  | initial hlive | files _ hlive | fsos _ hlive =>
    rw [hlive.addedManifests_eq]
    exact ⟨iff_of_true rfl rfl, Nat.zero_le 1⟩
  | dead hdead hmanifests =>
    rw [hmanifests]
    exact ⟨iff_of_true hdead.committed_eq rfl, Nat.zero_le 1⟩
  | final manifest _ _ hmanifests hcommitted =>
    rw [hmanifests, hcommitted]
    exact ⟨iff_of_false nofun nofun, le_refl 1⟩

/-- What has been committed, and after what calls. -/
lemma Stage.of_committed {w : WriterSession} (h : Stage env attempts w) {bytes : List Byte}
    (hcommitted : w.committed = some bytes) : ∃ manifest, w.state = .final ∧
      (∀ a ∈ attempts, a.Regular) ∧ addedManifests attempts = [manifest] ∧
      bytes = layout env (streamSection env attempts) (objectSection env attempts)
        (recordedManifest env attempts manifest) ∧ bytes.length < maxLength := by
  cases h with
  | initial | files | fsos => cases hcommitted
  | dead hdead => exact absurd hdead.committed_eq (by rw [hcommitted]; nofun)
  | final manifest hstate hregular hmanifests hbytes hlt =>
    rw [hcommitted, Option.some.injEq] at hbytes
    exact ⟨manifest, hstate, hregular, hmanifests, hbytes, hbytes ▸ hlt⟩

/-- The transaction is committed once at most, by the call that adds the manifest. What is committed
is consistent if every stream that has been read has had the length that it reports, and every
serialization that failed had not written anything, and only then. -/
theorem consistent_iff {decompress : List Byte → Option (List Byte)}
    {compress : List Byte → List Byte}
    (harchive : env.archive = Archive.new (compressionFilterGenerator decompress compress))
    (hself : (compressionFilterGenerator decompress compress).SelfDelimiting)
    (hinverts : env.manifests.InvertsManifests) {w : WriterSession} (h : Attempts env attempts w) :
    (w.committed = none ↔ addedManifests attempts = []) ∧ (addedManifests attempts).length ≤ 1 ∧
      (∀ c, (w.call env c).1.committed ≠ w.committed → w.committed = none ∧
        (w.call env c).2.isOk = true ∧
        ∃ manifest failure, c = .addVersionManifest manifest failure) ∧
      ((∀ bytes, w.committed = some bytes → Consistent env attempts bytes) ↔
        (w.committed ≠ none → ∀ a ∈ attempts, a.Complete env)) := by
  have hstage := stage_of_attempts h
  refine ⟨hstage.committed_iff.1, hstage.committed_iff.2, fun c hc => ?_, ?_⟩
  · by_cases hcommitted : w.committed = none
    · have hnext := (stage_of_attempts (.call c h)).committed_iff.1
      have hold := hstage.committed_iff.1.mp hcommitted
      rw [hcommitted] at hc
      have hmanifest := mt hnext.mpr hc
      rw [addedManifests, List.filterMap_append, ← addedManifests, hold, List.nil_append]
        at hmanifest
      cases c with
      | addVersionManifest manifest failure =>
        refine ⟨hcommitted, ?_, manifest, failure, rfl⟩
        by_contra hfailed
        exact hmanifest (by simp [Attempt.addedManifest, hfailed])
      | _ => exact absurd rfl hmanifest
    · obtain ⟨bytes, hbytes⟩ := Option.ne_none_iff_exists'.mp hcommitted
      obtain ⟨-, hstate, -⟩ := hstage.of_committed hbytes
      exact absurd (call_final env hstate c).2.1 hc
  · cases hcommitted : w.committed with
    | none => exact iff_of_true nofun fun h => absurd rfl h
    | some bytes =>
      obtain ⟨manifest, -, hregular, hmanifests, rfl, hlt⟩ := hstage.of_committed hcommitted
      have hiff := consistent_iff_complete harchive hself hinverts hregular hmanifests hlt
      simp only [Option.some.injEq, forall_eq', ne_eq, reduceCtorEq, not_false_eq_true,
        forall_const]
      exact hiff

/-- What has been added is read back, as long as the file of the reader is open. -/
theorem calls_of_complete {decompress : List Byte → Option (List Byte)}
    {compress : List Byte → List Byte}
    (harchive : env.archive = Archive.new (compressionFilterGenerator decompress compress))
    (hself : (compressionFilterGenerator decompress compress).SelfDelimiting)
    (hinverts : env.manifests.InvertsManifests) (hobjects : env.fsos.Inverts) {w : WriterSession}
    (h : Attempts env attempts w) {bytes : List Byte} (hcommitted : w.committed = some bytes)
    (hcomplete : ∀ a ∈ attempts, a.Complete env) :
    ∃ manifest, ∀ cs : List CallOnReader,
      (ArchiveReader.new bytes).calls env cs = .ok (cs.map fun c =>
          ArchiveReader.expected (addedFiles attempts) (addedFsos attempts) manifest c.call) ↔
        cs.Pairwise fun c c' => c.call = .begin → c'.finalized = false := by
  obtain ⟨manifest, -, hregular, hmanifests, hbytes, hlt⟩ :=
    (stage_of_attempts h).of_committed hcommitted
  have hlt' := hlt
  rw [hbytes] at hlt'
  obtain ⟨manifest', -, hlayout⟩ :=
    (consistent_iff_complete harchive hself hinverts hregular hmanifests hlt').mpr hcomplete
  rw [← hbytes] at hlayout
  subst hlayout
  exact ⟨_, fun cs => ArchiveReader.calls_new_spec
    ⟨⟨decompress, compress, harchive, hself⟩, hinverts, hobjects, hlt⟩ cs⟩

/-! ### A small archive, with failures -/

/-- Calls that are made one after the other. -/
def makeCalls (env : ArchiveEnv Fso) : WriterSession → List (WriterCall Fso) →
    List (Attempt Fso) × WriterSession
  | w, [] => ([], w)
  | w, c :: cs =>
    let (w', ret) := w.call env c
    let (attempts, w'') := makeCalls env w' cs
    (⟨w, c, ret.isOk⟩ :: attempts, w'')

/-- The first call has been attempted. -/
lemma mem_makeCalls (env : ArchiveEnv Fso) (w : WriterSession) (c : WriterCall Fso)
    (cs : List (WriterCall Fso)) :
    ⟨w, c, (w.call env c).2.isOk⟩ ∈ (makeCalls env w (c :: cs)).1 :=
  List.mem_cons_self

lemma attempts_append_makeCalls {w : WriterSession} (h : Attempts env attempts w)
    (cs : List (WriterCall Fso)) :
    Attempts env (attempts ++ (makeCalls env w cs).1) (makeCalls env w cs).2 := by
  induction cs generalizing attempts w with
  | nil => rwa [makeCalls, List.append_nil]
  | cons c cs ih =>
    have hrest := ih (.call c h)
    rwa [List.append_assoc, List.singleton_append] at hrest

lemma attempts_makeCalls (env : ArchiveEnv Fso) (cs : List (WriterCall Fso)) :
    Attempts env (makeCalls env new cs).1 (makeCalls env new cs).2 :=
  attempts_append_makeCalls .new cs

lemma map_call_makeCalls (env : ArchiveEnv Fso) (w : WriterSession) (cs : List (WriterCall Fso)) :
    (makeCalls env w cs).1.map Attempt.call = cs := by
  induction cs generalizing w with
  | nil => rfl
  | cons c cs ih => exact congrArg (c :: ·) (ih _)

open ArchiveReader

/-- A manifest that comes too early and an object of which nothing is written do no harm. -/
theorem consistent_small : ∃ attempts w bytes, Attempts smallEnv attempts w ∧
    attempts.map Attempt.succeeded = [false, true, false, true, true] ∧
      w.committed = some bytes ∧ Consistent smallEnv attempts bytes := by
  let calls : List (WriterCall Nat) :=
    [.addVersionManifest smallManifest none, .addFile 1 ⟨some 2, [5, 6], false⟩ .sha256,
      .addFso 0 (some 0), .addFso 3 none, .addVersionManifest smallManifest none]
  have hattempts := attempts_makeCalls smallEnv calls
  have hcommitted : (makeCalls smallEnv new calls).2.committed.isSome = true := by decide +kernel
  obtain ⟨bytes, hbytes⟩ := Option.isSome_iff_exists.mp hcommitted
  have hiff := (consistent_iff rfl selfDelimiting_unary inverts_manifestSerializer
    hattempts).2.2.2
  refine ⟨_, _, bytes, hattempts, by decide +kernel, hbytes,
    hiff.mpr (fun _ a ha => ?_) bytes hbytes⟩
  have hcall : a.call ∈ calls := by
    rw [← map_call_makeCalls smallEnv new calls]
    exact List.mem_map_of_mem ha
  simp only [calls, List.mem_cons, List.not_mem_nil, or_false] at hcall
  rcases hcall with hcall | hcall | hcall | hcall | hcall <;> simp [Attempt.Complete, hcall]

/-- A stream that cannot be read to its end is in the list of streams all the same. -/
theorem not_consistent_small : ∃ attempts w bytes, Attempts smallEnv attempts w ∧
    w.committed = some bytes ∧ ¬ Consistent smallEnv attempts bytes := by
  let calls : List (WriterCall Nat) :=
    [.addFile 1 ⟨some 2, [5], true⟩ .sha256, .addFso 3 none, .addVersionManifest smallManifest none]
  have hattempts := attempts_makeCalls smallEnv calls
  have hcommitted : (makeCalls smallEnv new calls).2.committed.isSome = true := by decide +kernel
  obtain ⟨bytes, hbytes⟩ := Option.isSome_iff_exists.mp hcommitted
  obtain ⟨a, ha, hincomplete⟩ : ∃ a ∈ (makeCalls smallEnv new calls).1, ¬ a.Complete smallEnv :=
    ⟨_, mem_makeCalls _ _ _ _, fun h => absurd (h (.inl rfl)).1 nofun⟩
  refine ⟨_, _, bytes, hattempts, hbytes, fun hconsistent => hincomplete ?_⟩
  generalize makeCalls smallEnv new calls = made at *
  obtain ⟨manifest, -, hregular, hmanifests, rfl, hlt⟩ :=
    (stage_of_attempts hattempts).of_committed hbytes
  have hcomplete := (consistent_iff_complete rfl selfDelimiting_unary
    inverts_manifestSerializer hregular hmanifests hlt).mp hconsistent
  exact hcomplete a ha

end WriterSession

end BackupProgram
