import BackupProgram.Archive.RoundTrip
import BackupProgram.Native.Lzma

/-!
# What is read from an `LzmaInputStream`

The reads return the decoded data, however the stream below splits the encoding and whatever comes
behind it.
-/

namespace BackupProgram

open ArchiveReader (unaryCompress)
open CircularBuffer (overwrite overwrite_overwrite)
open Loops
open DotNetInputStream (ReadResult)

variable {σ : Type} {c : LzmaNextCoder σ} {encoding decoded trailing : List Byte}
  {reached : σ → List Byte → List Byte → Prop}

/-- An incremental decoder on a valid encoding, which any bytes may follow: `reached s x y` says
that it has consumed `x` and produced `y`, and is not at the end. Where there is room, it is idle
only if it waits for input. -/
structure Decoder (c : LzmaNextCoder σ) (encoding decoded : List Byte)
    (reached : σ → List Byte → List Byte → Prop) : Prop where
  supports_run : c.supportedActions .run = true
  supports_finish : c.supportedActions .finish = true
  inPos_le : ∀ s input room action, (c.code s input room action).inPos ≤ input.length
  length_out_le : ∀ s input room action, (c.code s input room action).out.length ≤ room
  consumed_le : ∀ s x y, reached s x y → x <+: encoding
  produced_le : ∀ s x y, reached s x y → y <+: decoded
  code : ∀ s x y input trailing room action, reached s x y → x ++ input <+: encoding ++ trailing →
    0 < room →
    (c.code s input room action).ret = .ok ∧
        reached (c.code s input room action).coder
          (x ++ input.take (c.code s input room action).inPos)
          (y ++ (c.code s input room action).out) ∧
        (input ≠ [] ∨ x = encoding → ¬ (c.code s input room action).Idle) ∨
      (c.code s input room action).ret = .streamEnd ∧
        y ++ (c.code s input room action).out = decoded

lemma Decoder.supports (hd : Decoder c encoding decoded reached) {action : LzmaAction}
    (haction : action = .run ∨ action = .finish) : c.supportedActions action = true := by
  rcases haction with rfl | rfl
  · exact hd.supports_run
  · exact hd.supports_finish

/-- Where it knows that it is at its end, nothing is left. -/
def WrappedInStream.Honest (s : WrappedInStream) : Prop := s.eof = true → s.rest = []

lemma WrappedInStream.read_spec (s : WrappedInStream) {size : Nat} (hsize : 0 < size) :
    (s.read size).1 ++ (s.read size).2.rest = s.rest ∧
      ((s.read size).1 = [] → (s.read size).2.rest = []) := by
  refine ⟨List.take_append_drop _ _, fun hnil => ?_⟩
  rcases List.take_eq_nil_iff.mp hnil with hzero | hrest
  · have hlen : s.rest.length = 0 := by omega
    simp [read, List.length_eq_zero_iff.mp hlen]
  · simp [read, hrest]

lemma WrappedInStream.Honest.read {s : WrappedInStream} (h : s.Honest) {size : Nat}
    (hsize : 0 < size) : (s.read size).2.Honest := by
  intro heof
  simp only [eof, WrappedInStream.read, Bool.or_eq_true, decide_eq_true_eq, Bool.and_eq_true,
    List.isEmpty_iff] at heof
  rcases heof with (hsaw | hzero) | ⟨-, hnil⟩
  · have hrest := h (by simp [eof, hsaw])
    simp [WrappedInStream.read, hrest]
  · have hlen : s.rest.length = 0 := by omega
    simp [WrappedInStream.read, List.length_eq_zero_iff.mp hlen]
  · exact hnil

namespace LzmaInputStream

/-- The bytes of the encoding and behind it that the decoder has not got. -/
def left (s : LzmaInputStream σ) : List Byte := s.lstream.nextIn ++ s.stream.rest

/-- The end of the encoding has not been met; `y` has been decoded. -/
structure Live (encoding trailing : List Byte) (reached : σ → List Byte → List Byte → Prop)
    (s : LzmaInputStream σ) (y : List Byte) : Prop where
  honest : s.stream.Honest
  bufferSize_pos : 0 < s.bufferSize
  action_eq : s.action = .run ∨ s.action = .finish ∧ s.stream.eof = true
  sequence_eq : s.lstream.sequence = .run ∨ s.lstream.sequence = .finish ∧ s.action = .finish ∧
    s.lstream.availIn = s.lstream.nextIn.length
  not_allow : s.lstream.allowBufError = false
  coding : ∃ x, x ++ s.left = encoding ++ trailing ∧
    reached s.lstream.coder x y

/-- The end of the encoding has been met. -/
structure Ended (all : List Byte) (s : LzmaInputStream σ) : Prop where
  action_eq : s.action = .run ∨ s.action = .finish
  sequence_eq : s.lstream.sequence = .ended
  left_le : s.left.length ≤ all.length

/-- The end of the encoding is met with all the data decoded. -/
def Decoding (encoding trailing decoded : List Byte) (reached : σ → List Byte → List Byte → Prop)
    (s : LzmaInputStream σ) (y : List Byte) : Prop :=
  Live encoding trailing reached s y ∨ s.Ended (encoding ++ trailing) ∧ y = decoded

lemma refill_memory (s : LzmaInputStream σ) : s.refill.lstream.memory = s.lstream.memory ∧
    s.refill.lstream.nextOut = s.lstream.nextOut ∧
    s.refill.lstream.availOut = s.lstream.availOut := by
  rw [refill]
  split <;> exact ⟨rfl, rfl, rfl⟩

lemma left_refill (s : LzmaInputStream σ) : s.refill.left = s.left := by
  rw [refill]
  split
  · next hif =>
    simp [left, WrappedInStream.read, hif.1]
  · rfl

lemma Ended.refill {all : List Byte} {s : LzmaInputStream σ} (h : s.Ended all) :
    s.refill.Ended all := by
  have hleft := s.left_refill
  rw [LzmaInputStream.refill] at hleft ⊢
  split
  · next hif =>
    rw [if_pos hif] at hleft
    refine ⟨?_, h.sequence_eq, hleft ▸ h.left_le⟩
    dsimp only
    split
    · exact Or.inr rfl
    · exact h.action_eq
  · exact h

/-- The input is filled unless nothing is left. -/
lemma Live.refill {s : LzmaInputStream σ} {y : List Byte}
    (h : Live encoding trailing reached s y) :
    Live encoding trailing reached s.refill y ∧
      (s.refill.lstream.nextIn = [] → s.refill.stream.rest = []) := by
  have hleft := s.left_refill
  rw [LzmaInputStream.refill] at hleft ⊢
  split
  · next hif =>
    rw [if_pos hif] at hleft
    obtain ⟨-, hnil⟩ := s.stream.read_spec h.bufferSize_pos
    refine ⟨⟨h.honest.read h.bufferSize_pos, h.bufferSize_pos, ?_, ?_, h.not_allow, ?_⟩, hnil⟩
    · dsimp only
      split
      · next heof => exact Or.inr ⟨rfl, heof⟩
      · rcases h.action_eq with hrun | ⟨-, heof⟩
        · exact Or.inl hrun
        · rw [hif.2] at heof
          cases heof
    · rcases h.sequence_eq with hrun | ⟨-, hfinish, -⟩
      · exact Or.inl hrun
      · rcases h.action_eq with hrun | ⟨-, heof⟩
        · rw [hfinish] at hrun
          cases hrun
        · rw [hif.2] at heof
          cases heof
    · obtain ⟨x, hx, hreached⟩ := h.coding
      exact ⟨x, by rw [hleft, hx], hreached⟩
  · next hif =>
    refine ⟨h, fun hnil => h.honest ?_⟩
    simpa [hnil] using hif

lemma Live.enter_eq {s : LzmaInputStream σ} {y : List Byte}
    (h : Live encoding trailing reached s y) :
    s.lstream.enter s.action = .ok s.action.sequence := by
  rcases h.sequence_eq with hrun | ⟨hfinish, haction, havail⟩
  · exact LzmaStream.enter_run hrun s.action
  · rw [haction]
    exact LzmaStream.enter_finish hfinish havail

/-- The buffer that is being filled: `out` is at its beginning, and there was room for `size`
bytes. -/
structure Filled (memory : List Byte) (size : Nat) (s : LzmaInputStream σ) (out : List Byte) :
    Prop where
  memory_eq : s.lstream.memory = overwrite memory 0 out
  nextOut_eq : s.lstream.nextOut = out.length
  size_eq : out.length + s.lstream.availOut = size

lemma Filled.advance {memory : List Byte} {size : Nat} {s : LzmaInputStream σ} {out : List Byte}
    (h : Filled memory size s out) (hsize : size ≤ memory.length) {coded : Coded σ}
    (hout : coded.out.length ≤ s.lstream.availOut) :
    overwrite s.lstream.memory s.lstream.nextOut coded.out = overwrite memory 0 (out ++ coded.out) ∧
      s.lstream.nextOut + coded.out.length = (out ++ coded.out).length ∧
      (out ++ coded.out).length + (s.lstream.availOut - coded.out.length) = size := by
  have hsize' := h.size_eq
  have hwrite : overwrite (overwrite memory 0 out) (0 + out.length) coded.out =
      overwrite memory 0 (out ++ coded.out) := overwrite_overwrite (by omega)
  rw [Nat.zero_add] at hwrite
  refine ⟨?_, ?_, ?_⟩
  · rw [h.memory_eq, h.nextOut_eq, hwrite]
  · rw [h.nextOut_eq, List.length_append]
  · rw [List.length_append]
    omega

/-- A call of the decoder makes progress or meets the end of the encoding. -/
lemma Live.code_spec (hd : Decoder c encoding decoded reached) {s : LzmaInputStream σ}
    {y memory out : List Byte} {size : Nat} (h : Live encoding trailing reached s y)
    (hrefilled : s.lstream.nextIn = [] → s.stream.rest = []) (hroom : 0 < s.lstream.availOut)
    (hfilled : Filled memory size s out) (hsize : size ≤ memory.length) :
    ∃ more lstream, Filled memory size { s with lstream := lstream } (out ++ more) ∧
      (lzmaCode c s.lstream s.action = (.ok, lstream) ∧
          Live encoding trailing reached { s with lstream := lstream } (y ++ more) ∧
          lstream.nextIn.length < s.lstream.nextIn.length + more.length ∨
        lzmaCode c s.lstream s.action = (.streamEnd, lstream) ∧
          Ended (encoding ++ trailing) { s with lstream := lstream } ∧ y ++ more = decoded) := by
  have haction : s.action = .run ∨ s.action = .finish := h.action_eq.imp_right And.left
  obtain ⟨x, hx, hreached⟩ := h.coding
  have hlzma := lzmaCode_of_enter (hd.supports haction) h.enter_eq
  have hin := hd.inPos_le s.lstream.coder s.lstream.nextIn s.lstream.availOut s.action
  have hcode := hd.code _ _ _ s.lstream.nextIn trailing _ s.action hreached
    ⟨s.stream.rest, by rw [List.append_assoc]; exact hx⟩ hroom
  generalize hcoded : c.code s.lstream.coder s.lstream.nextIn s.lstream.availOut s.action = coded
    at hlzma hin hcode
  have hout : coded.out.length ≤ s.lstream.availOut := by
    rw [← hcoded]
    exact hd.length_out_le _ _ _ _
  obtain ⟨hmemory, hnextOut, hleft⟩ := hfilled.advance hsize hout
  refine ⟨coded.out, ((s.lstream.advance s.action.sequence coded).finishCode coded).2, ?_⟩
  rcases hcode with ⟨hok, hnext, hprogress⟩ | ⟨hend, hall⟩
  · -- Input is left, or all of the encoding has been consumed.
    have hbusy : ¬ coded.Idle := by
      refine hprogress ?_
      by_cases hnil : s.lstream.nextIn = []
      · right
        rw [left, hnil, hrefilled hnil, List.append_nil, List.append_nil] at hx
        refine (hd.consumed_le _ _ _ hreached).eq_of_length_le ?_
        rw [hx]
        simp
      · exact Or.inl hnil
    rcases LzmaStream.finishCode_ok (s := s.lstream.advance s.action.sequence coded) hok with
      ⟨-, hidle, -⟩ | ⟨hfinish, -⟩
    · exact absurd hidle hbusy
    rw [hlzma, hfinish]
    refine ⟨⟨hmemory, hnextOut, hleft⟩, Or.inl ⟨rfl, ⟨h.honest, h.bufferSize_pos, h.action_eq, ?_,
      by simp [hbusy], _, ?_, hnext⟩, ?_⟩⟩
    · rcases haction with hrun | hfinish'
      · left
        dsimp only [LzmaStream.advance]
        rw [hrun]
        rfl
      · right
        dsimp only [LzmaStream.advance]
        rw [hfinish']
        exact ⟨rfl, rfl, rfl⟩
    · rw [← hx]
      simp only [left, LzmaStream.advance]
      rw [List.append_assoc, ← List.append_assoc (s.lstream.nextIn.take coded.inPos),
        List.take_append_drop]
    · have hpositive : 0 < coded.out.length ∨ 0 < coded.inPos := by
        by_contra hno
        exact hbusy ⟨List.length_eq_zero_iff.mp (by omega), by omega⟩
      simp only [LzmaStream.advance, List.length_drop]
      omega
  · have hsequence : ((s.lstream.advance s.action.sequence coded).finishCode coded).2.sequence =
        .ended := by
      rcases haction with hrun | hfinish <;>
        simp [LzmaStream.finishCode, LzmaStream.advance, LzmaAction.sequence, *]
    rw [hlzma]
    refine ⟨?_, Or.inr ⟨?_, ⟨haction, hsequence, ?_⟩, hall⟩⟩
    · simp only [LzmaStream.finishCode, hend]
      exact ⟨hmemory, hnextOut, hleft⟩
    · simp only [LzmaStream.finishCode, hend]
    · rw [← hx]
      simp only [left, LzmaStream.finishCode, hend, LzmaStream.advance, List.length_append,
        List.length_drop]
      omega

/-- `out` has been read into the buffer, after `y`. -/
def ReadAhead (encoding trailing decoded : List Byte)
    (reached : σ → List Byte → List Byte → Prop) (memory : List Byte) (size : Nat) (y : List Byte)
    (s : LzmaInputStream σ) (out : List Byte) : Prop :=
  Filled memory size s out ∧ Decoding encoding trailing decoded reached s (y ++ out)

lemma readRound_spec (hd : Decoder c encoding decoded reached) {memory y : List Byte} {size : Nat}
    (hsize : size ≤ memory.length) (s : LzmaInputStream σ)
    (h : ∃ out, ReadAhead encoding trailing decoded reached memory size y s out) :
    (∃ s', readRound c s = .ok (.done s') ∧
        ∃ out, ReadAhead encoding trailing decoded reached memory size y s' out ∧
          (s'.lstream.availOut = 0 ∨ y ++ out = decoded)) ∨
      ∃ s', readRound c s = .ok (.again s') ∧
        (∃ out, ReadAhead encoding trailing decoded reached memory size y s' out) ∧
        s'.left.length + (decoded.length - s'.lstream.nextOut) <
          s.left.length + (decoded.length - s.lstream.nextOut) := by
  obtain ⟨out, hfilled, hdecoding⟩ := h
  by_cases hroom : 0 < s.lstream.availOut
  · obtain ⟨hmemory, hnextOut, havailOut⟩ := s.refill_memory
    have hfilled' : Filled memory size s.refill out :=
      ⟨hmemory.trans hfilled.memory_eq, hnextOut.trans hfilled.nextOut_eq,
        havailOut ▸ hfilled.size_eq⟩
    rcases hdecoding with hlive | ⟨hended, hall⟩
    · obtain ⟨hlive', hrefilled⟩ := hlive.refill
      obtain ⟨more, lstream, hfilled'', ⟨hcode, hlive'', hlt⟩ | ⟨hcode, hended, hall⟩⟩ :=
        hlive'.code_spec hd hrefilled (by rwa [havailOut]) hfilled' hsize
      · refine Or.inr ⟨{ s.refill with lstream := lstream }, ?_, ⟨out ++ more, hfilled'', ?_⟩, ?_⟩
        · simp [readRound, hroom, hcode]
        · rw [← List.append_assoc]
          exact Or.inl hlive''
        · obtain ⟨x, -, hreached⟩ := hlive''.coding
          have hle := (hd.produced_le _ _ _ hreached).length_le
          have hout := hfilled''.nextOut_eq
          have hout' := hfilled.nextOut_eq
          have hleft := congrArg List.length s.left_refill
          simp only [left, List.length_append] at hle hout hleft ⊢
          omega
      · refine Or.inl ⟨{ s.refill with lstream := lstream }, ?_, out ++ more, ⟨hfilled'', ?_⟩, ?_⟩
        · simp [readRound, hroom, hcode]
        · rw [← List.append_assoc]
          exact Or.inr ⟨hended, hall⟩
        · rw [← List.append_assoc]
          exact Or.inr hall
    · have hended' := hended.refill
      have hcode := lzmaCode_ended hended'.sequence_eq (hd.supports hended'.action_eq)
      exact Or.inl ⟨s.refill, by simp [readRound, hroom, hcode], out,
        ⟨hfilled', Or.inr ⟨hended', hall⟩⟩, Or.inr hall⟩
  · exact Or.inl ⟨s, by simp [readRound, hroom], out, ⟨hfilled, hdecoding⟩, Or.inl (by omega)⟩

lemma Decoding.congr {s s' : LzmaInputStream σ} {y : List Byte}
    (h : Decoding encoding trailing decoded reached s y) (hstream : s'.stream = s.stream)
    (hbufferSize : s'.bufferSize = s.bufferSize) (haction : s'.action = s.action)
    (hnextIn : s'.lstream.nextIn = s.lstream.nextIn)
    (hsequence : s'.lstream.sequence = s.lstream.sequence)
    (havailIn : s'.lstream.availIn = s.lstream.availIn)
    (hallow : s'.lstream.allowBufError = s.lstream.allowBufError)
    (hcoder : s'.lstream.coder = s.lstream.coder) :
    Decoding encoding trailing decoded reached s' y := by
  rcases h with hlive | ⟨hended, hall⟩
  · left
    constructor
    · rw [hstream]
      exact hlive.honest
    · rw [hbufferSize]
      exact hlive.bufferSize_pos
    · rw [haction, hstream]
      exact hlive.action_eq
    · rw [hsequence, haction, havailIn, hnextIn]
      exact hlive.sequence_eq
    · rw [hallow]
      exact hlive.not_allow
    · rw [left, hnextIn, hstream, hcoder]
      exact hlive.coding
  · refine Or.inr ⟨⟨haction ▸ hended.action_eq, hsequence ▸ hended.sequence_eq, ?_⟩, hall⟩
    rw [left, hnextIn, hstream]
    exact hended.left_le

/-- Between the reads. -/
structure Between (encoding trailing decoded : List Byte)
    (reached : σ → List Byte → List Byte → Prop) (s : LzmaInputStream σ) (y : List Byte) :
    Prop where
  decoding : Decoding encoding trailing decoded reached s y
  of_atEof : s.atEof = true → y = decoded

lemma Decoding.le (hd : Decoder c encoding decoded reached) {s : LzmaInputStream σ} {y : List Byte}
    (h : Decoding encoding trailing decoded reached s y) : y <+: decoded := by
  rcases h with hlive | ⟨-, rfl⟩
  · obtain ⟨x, -, hreached⟩ := hlive.coding
    exact hd.produced_le _ _ _ hreached
  · exact List.prefix_rfl

lemma Decoding.left_le {s : LzmaInputStream σ} {y : List Byte}
    (h : Decoding encoding trailing decoded reached s y) :
    s.left.length ≤ (encoding ++ trailing).length := by
  rcases h with hlive | ⟨hended, -⟩
  · obtain ⟨x, hx, -⟩ := hlive.coding
    rw [← hx, List.length_append]
    exact Nat.le_add_left _ _
  · exact hended.left_le

/-- A read returns the data that is due, as much as it asks for or all that is left. -/
lemma Between.read (hd : Decoder c encoding decoded reached) {s : LzmaInputStream σ}
    {y : List Byte} (h : Between encoding trailing decoded reached s y) (dst : Destination)
    {fuel : Nat} (hfuel : (encoding ++ trailing).length + decoded.length < fuel) :
    ∃ s', read c fuel s dst.memory dst.size =
        .ok (((decoded.drop y.length).take dst.size).length,
          overwrite dst.memory 0 ((decoded.drop y.length).take dst.size), s') ∧
      Between encoding trailing decoded reached s'
        (y ++ (decoded.drop y.length).take dst.size) ∧
      (s'.eof = true ↔ s.eof = true ∨ dst.size ≠ 0 ∧ decoded.drop y.length = []) := by
  rcases hatEof : s.atEof with _ | _
  · have hstart : Decoding encoding trailing decoded reached { s with lstream := { s.lstream with
        memory := dst.memory, nextOut := 0, availOut := dst.size } } (y ++ []) := by
      rw [List.append_nil]
      exact h.decoding.congr rfl rfl rfl rfl rfl rfl rfl rfl
    have hleft := h.decoding.left_le
    obtain ⟨s', hloop, out, ⟨hfilled, hdecoding⟩, hend⟩ := loop_of_variant .stuck _ _ _
      (readRound_spec hd dst.size_le) ⟨[], ⟨by simp [overwrite], rfl, Nat.zero_add _⟩, hstart⟩
      (lt_of_le_of_lt (Nat.add_le_add hleft (Nat.sub_le _ _)) hfuel)
    have hsize := hfilled.size_eq
    obtain ⟨behind, hbehind⟩ := hdecoding.le hd
    have hout : out = (decoded.drop y.length).take dst.size := by
      rw [← hbehind, List.append_assoc, List.drop_left]
      rcases hend with hfull | hall
      · rw [show dst.size = out.length by omega, List.take_left]
      · obtain rfl : behind = [] := by simpa [← hall] using hbehind
        rw [List.append_nil, List.take_of_length_le (by omega)]
    subst hout
    have hret :
        ((decoded.drop y.length).take dst.size).length = dst.size - s'.lstream.availOut := by
      omega
    have hnil : dst.size - s'.lstream.availOut = 0 ∧ dst.size ≠ 0 ↔
        dst.size ≠ 0 ∧ decoded.drop y.length = [] := by
      rw [← hret, List.length_eq_zero_iff, List.take_eq_nil_iff]
      tauto
    refine ⟨{ s' with atEof := dst.size - s'.lstream.availOut = 0 ∧ dst.size ≠ 0 }, ?_,
      ⟨hdecoding.congr rfl rfl rfl rfl rfl rfl rfl rfl, fun heof => ?_⟩, ?_⟩
    · rw [LzmaInputStream.read, if_neg (by simp [hatEof]), hloop, hret, ← hfilled.memory_eq]
      rfl
    · obtain ⟨-, hdrop⟩ := hnil.mp (by simpa using heof)
      rw [hdrop, List.take_nil, List.append_nil]
      exact (h.decoding.le hd).eq_of_length_le (List.drop_eq_nil_iff.mp hdrop)
    · simp [eof, hatEof, hnil]
  · have hdrop : decoded.drop y.length = [] := by
      rw [h.of_atEof hatEof, List.drop_length]
    refine ⟨s, ?_, ?_, ?_⟩
    · rw [LzmaInputStream.read, if_pos hatEof, hdrop]
      simp [overwrite]
    · rw [hdrop, List.take_nil, List.append_nil]
      exact h
    · simp [eof, hatEof]

/-- What reads return where `rest` is still to be decoded; `eof` is what `eof` returned before. -/
def Decodes : List Byte → Bool → List Destination → List ReadResult → Prop
  | _, _, [], [] => True
  | rest, eof, dst :: dsts, r :: results =>
    r.ret = (rest.take dst.size).length ∧ r.memory = overwrite dst.memory 0 (rest.take dst.size) ∧
      (r.ret < dst.size → rest.drop dst.size = []) ∧
      (r.eof = true ↔ eof = true ∨ dst.size ≠ 0 ∧ r.ret = 0) ∧
      Decodes (rest.drop dst.size) r.eof dsts results
  | _, _, _, _ => False

/-- The bytes that reads have returned. -/
def returned (results : List ReadResult) : List Byte := results.flatMap fun r => r.memory.take r.ret

lemma Decodes.returned_eq {rest : List Byte} {eof : Bool} {dsts : List Destination}
    {results : List ReadResult} (h : Decodes rest eof dsts results) :
    returned results = rest.take (dsts.map Destination.size).sum := by
  induction dsts generalizing rest eof results with
  | nil =>
    cases results with
    | nil => simp [returned]
    | cons r results => exact h.elim
  | cons dst dsts ih =>
    cases results with
    | nil => exact h.elim
    | cons r results =>
      obtain ⟨hret, hmemory, -, -, hrest⟩ := h
      have hbytes : r.memory.take r.ret = rest.take dst.size := by
        rw [hret, hmemory]
        simp [overwrite]
      have htail : returned (r :: results) = r.memory.take r.ret ++ returned results := rfl
      rw [htail, hbytes, ih hrest, List.map_cons, List.sum_cons, List.take_add]

lemma Between.reads (hd : Decoder c encoding decoded reached) {fuel : Nat}
    (hfuel : (encoding ++ trailing).length + decoded.length < fuel) (dsts : List Destination)
    {s : LzmaInputStream σ} {y : List Byte}
    (h : Between encoding trailing decoded reached s y) :
    ∃ results, reads c fuel s dsts = .ok results ∧
      Decodes (decoded.drop y.length) s.eof dsts results := by
  induction dsts generalizing s y with
  | nil => exact ⟨[], rfl, trivial⟩
  | cons dst dsts ih =>
    obtain ⟨s', hread, hbetween, heof⟩ := h.read hd dst hfuel
    obtain ⟨results, hreads, hdecodes⟩ := ih hbetween
    have hrest : (decoded.drop y.length).drop dst.size =
        decoded.drop (y ++ (decoded.drop y.length).take dst.size).length := by
      rw [List.drop_drop, List.length_append, List.length_take]
      rcases le_total dst.size (decoded.drop y.length).length with hle | hle
      · rw [min_eq_left hle]
      · rw [min_eq_right hle, List.drop_of_length_le (by rw [List.length_drop] at hle; omega),
          List.drop_of_length_le (by rw [List.length_drop]; omega)]
    refine ⟨⟨((decoded.drop y.length).take dst.size).length,
      overwrite dst.memory 0 ((decoded.drop y.length).take dst.size), s'.eof⟩ :: results, ?_, rfl,
      rfl, fun hlt => ?_, ?_, ?_⟩
    · rw [LzmaInputStream.reads, hread]
      simp only [bind, Except.bind, hreads]
      rfl
    · simp only [List.length_take] at hlt
      exact List.drop_of_length_le (by omega)
    · rw [heof, List.length_eq_zero_iff, List.take_eq_nil_iff]
      tauto
    · rw [hrest]
      exact hdecodes

end LzmaInputStream

open LzmaInputStream

/-- Reads of any sizes come to an end and return the decoded data, as much as they ask for until
nothing is left, whatever pieces the stream below returns and whatever follows the encoding there.
`eof` is true after a nonempty request that nothing was returned for. -/
theorem lzmaInputStream_chunking (hd : Decoder c encoding decoded reached) {coder : σ}
    (hcoder : reached coder [] []) (trailing : List Byte) (transferred : Nat → Nat)
    (knowsEnd : Bool) {bufferSize : Nat} (hbufferSize : 0 < bufferSize)
    (dsts : List Destination) :
    ∃ enough, ∀ fuel, enough ≤ fuel → ∃ results,
      reads c fuel (new coder ⟨encoding ++ trailing, transferred, knowsEnd, 0, false⟩ bufferSize)
        dsts = .ok results ∧
      Decodes decoded false dsts results ∧
      returned results = decoded.take (dsts.map Destination.size).sum := by
  refine ⟨(encoding ++ trailing).length + decoded.length + 1, fun fuel hfuel => ?_⟩
  have hstart : Between encoding trailing decoded reached
      (new coder ⟨encoding ++ trailing, transferred, knowsEnd, 0, false⟩ bufferSize) [] := by
    refine ⟨Or.inl ⟨fun heof => ?_, hbufferSize, Or.inl rfl, Or.inl rfl, rfl, [], rfl, hcoder⟩,
      nofun⟩
    simp only [new, WrappedInStream.eof, Bool.false_or, Bool.and_eq_true, List.isEmpty_iff] at heof
    exact heof.2
  obtain ⟨results, hreads, hdecodes⟩ := hstart.reads hd hfuel dsts
  exact ⟨results, hreads, hdecodes, hdecodes.returned_eq⟩

/-! ### A small decoder -/

/-- What is expected next: a mark or a byte. -/
inductive UnaryPlace where
  | mark
  | byte

/-- One byte of the input is consumed at a time. -/
def unaryDecoder : LzmaNextCoder UnaryPlace where
  supportedActions action := action = .run ∨ action = .finish
  code s input room _ :=
    match s, input with
    | s, [] => ⟨s, 0, [], .ok⟩
    | .mark, b :: _ => if b = 0 then ⟨.mark, 1, [], .streamEnd⟩ else ⟨.byte, 1, [], .ok⟩
    | .byte, b :: _ => if room = 0 then ⟨.byte, 0, [], .ok⟩ else ⟨.mark, 1, [b], .ok⟩

def UnaryPlace.Reached (decoded : List Byte) (s : UnaryPlace) (x y : List Byte) : Prop :=
  match s with
  | mark => x = y.flatMap (fun b => [1, b]) ∧ y <+: decoded
  | byte => x = y.flatMap (fun b => [1, b]) ++ [1] ∧ ∃ b, y ++ [b] <+: decoded

lemma decoder_unaryDecoder (decoded : List Byte) :
    Decoder unaryDecoder (unaryCompress decoded) decoded (UnaryPlace.Reached decoded) where
  supports_run := rfl
  supports_finish := rfl
  inPos_le s input room action := by
    rcases input with _ | ⟨b, input⟩
    · cases s with
      | mark => exact Nat.zero_le _
      | byte => exact Nat.zero_le _
    · cases s with
      | mark => by_cases hb : b = 0 <;> simp [unaryDecoder, hb]
      | byte => by_cases hroom : room = 0 <;> simp [unaryDecoder, hroom]
  length_out_le s input room action := by
    rcases input with _ | ⟨b, input⟩
    · cases s with
      | mark => exact Nat.zero_le _
      | byte => exact Nat.zero_le _
    · cases s with
      | mark => by_cases hb : b = 0 <;> simp [unaryDecoder, hb]
      | byte =>
        by_cases hroom : room = 0
        · simp [unaryDecoder, hroom]
        · simp only [unaryDecoder, hroom, if_false, List.length_singleton]
          omega
  consumed_le s x y h := by
    rcases s with _ | _
    · obtain ⟨rfl, rest, rfl⟩ := h
      exact ⟨rest.flatMap (fun b => [1, b]) ++ [0], by simp [unaryCompress]⟩
    · obtain ⟨rfl, b, rest, rfl⟩ := h
      exact ⟨b :: rest.flatMap (fun b => [1, b]) ++ [0], by simp [unaryCompress]⟩
  produced_le s x y h := by
    rcases s with _ | _
    · exact h.2
    · obtain ⟨-, b, h⟩ := h
      exact (List.prefix_append _ _).trans h
  code s x y input trailing room action h hinput hroom := by
    rcases s with _ | _
    · obtain ⟨rfl, rest, rfl⟩ := h
      have hnext : input <+: rest.flatMap (fun b => [1, b]) ++ [0] ++ trailing := by
        simpa [unaryCompress] using hinput
      rcases input with _ | ⟨b, input⟩
      · left
        refine ⟨rfl, ⟨by simp [unaryDecoder], by simp [unaryDecoder]⟩, ?_⟩
        simp [unaryCompress]
      · rcases rest with _ | ⟨a, rest⟩
        · obtain ⟨rfl, -⟩ := List.cons_prefix_cons.mp hnext
          right
          simp [unaryDecoder]
        · obtain ⟨rfl, -⟩ := List.cons_prefix_cons.mp hnext
          left
          refine ⟨by simp [unaryDecoder], ?_, by simp [unaryDecoder, Coded.Idle]⟩
          simp only [unaryDecoder]
          exact ⟨by simp, a, rest, by simp⟩
    · obtain ⟨rfl, a, rest, rfl⟩ := h
      have hnext : input <+: a :: rest.flatMap (fun b => [1, b]) ++ [0] ++ trailing := by
        simpa [unaryCompress] using hinput
      left
      rcases input with _ | ⟨b, input⟩
      · refine ⟨rfl, ⟨by simp [unaryDecoder], a, rest, by simp [unaryDecoder]⟩, ?_⟩
        simp [unaryCompress]
      · obtain ⟨rfl, -⟩ := List.cons_prefix_cons.mp hnext
        have hne : room ≠ 0 := by omega
        refine ⟨by simp [unaryDecoder, hne], ?_, by simp [unaryDecoder, hne, Coded.Idle]⟩
        simp only [unaryDecoder, hne, if_false]
        exact ⟨by simp, rest, by simp⟩

/-- The bytes arrive one by one; a read of no bytes does not make `eof` true. -/
theorem lzmaInputStream_chunking_twoBytes :
    ∃ enough, ∀ fuel, enough ≤ fuel → ∃ results,
      reads unaryDecoder fuel
        (new .mark ⟨unaryCompress [7, 8] ++ [9], fun _ => 1, true, 0, false⟩ 4)
        [⟨[], 0, le_refl _⟩, ⟨[0, 0, 0], 3, le_refl _⟩, ⟨[0], 1, le_refl _⟩] = .ok results ∧
      Decodes [7, 8] false
        [⟨[], 0, le_refl _⟩, ⟨[0, 0, 0], 3, le_refl _⟩, ⟨[0], 1, le_refl _⟩] results ∧
      returned results = [7, 8] :=
  lzmaInputStream_chunking (decoder_unaryDecoder [7, 8])
    (show UnaryPlace.Reached [7, 8] .mark [] [] from ⟨rfl, List.nil_prefix⟩) [9] (fun _ => 1) true
    (by decide) _

end BackupProgram
