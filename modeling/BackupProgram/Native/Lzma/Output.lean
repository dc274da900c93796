import BackupProgram.Archive.RoundTrip
import BackupProgram.Lib.Settling
import BackupProgram.Native.Lzma

/-!
# What an `LzmaOutputStream` passes on

Until the first `flush` everything that is written is encoded; `flush` finishes the encoding. What is
written afterwards is dropped without an error.
-/

namespace BackupProgram

open ArchiveReader (unaryCompress unaryDecompress selfDelimiting_unary)
open CircularBuffer Loops Settling

variable {σ : Type} {c : LzmaNextCoder σ} {encode : List Byte → List Byte}
  {running : σ → List Byte → List Byte → Prop}
  {finishing : σ → List Byte → List Byte → List Byte → Prop}

/-- A streaming encoder under the protocol of `lzma_code`. `running s x y`: the encoder has
consumed `x` and produced `y`, and more input may come; `finishing s x all y`: it has been told
that the input ends with `all`. What is produced belongs to the encoding of all inputs that may
still come. -/
structure Encoder (c : LzmaNextCoder σ) (encode : List Byte → List Byte)
    (running : σ → List Byte → List Byte → Prop)
    (finishing : σ → List Byte → List Byte → List Byte → Prop) : Prop where
  supports_run : c.supportedActions .run = true
  supports_finish : c.supportedActions .finish = true
  inPos_le : ∀ s input room action, (c.code s input room action).inPos ≤ input.length
  length_out_le : ∀ s input room action, (c.code s input room action).out.length ≤ room
  ne_timedOut : ∀ s input room action, (c.code s input room action).ret ≠ .timedOut
  run : ∀ s x y input room, running s x y → (c.code s input room .run).ret = .ok →
    running (c.code s input room .run).coder
      (x ++ input.take (c.code s input room .run).inPos) (y ++ (c.code s input room .run).out)
  run_ne_streamEnd : ∀ s x y input room, running s x y →
    (c.code s input room .run).ret ≠ .streamEnd
  finishing_of_running : ∀ s x y input, running s x y → finishing s x (x ++ input) y
  finish : ∀ s x y input room, finishing s x (x ++ input) y →
    (c.code s input room .finish).ret = .ok →
    finishing (c.code s input room .finish).coder
      (x ++ input.take (c.code s input room .finish).inPos) (x ++ input)
      (y ++ (c.code s input room .finish).out)
  finish_streamEnd : ∀ s x y input room, finishing s x (x ++ input) y →
    (c.code s input room .finish).ret = .streamEnd →
    y ++ (c.code s input room .finish).out = encode (x ++ input)
  running_le : ∀ s x y input, running s x y → y <+: encode (x ++ input)
  finishing_le : ∀ s x all y, finishing s x all y → y <+: encode all

namespace LzmaOutputStream

/-- The stream throws since the encoder fails. -/
def Thrown (e : LzmaFailure) : Prop := ∃ message, e = .operation message

/-- All that the encoder has produced. -/
def produced (s : LzmaOutputStream σ) : List Byte :=
  s.delivered ++ s.lstream.memory.take s.lstream.nextOut

/-- The output buffer is divided at `next_out`. -/
def Divided (s : LzmaOutputStream σ) : Prop :=
  s.lstream.nextOut + s.lstream.availOut = s.lstream.memory.length

/-- Passing the output on. -/
def drain (s : LzmaOutputStream σ) : LzmaOutputStream σ :=
  { s with
    stream := s.stream ++
      [.write (s.lstream.memory.take (s.lstream.memory.length - s.lstream.availOut))]
    lstream := { s.lstream with nextOut := 0, availOut := s.lstream.memory.length } }

lemma Divided.drain {s : LzmaOutputStream σ} : s.drain.Divided :=
  Nat.zero_add _

lemma Divided.delivered_drain {s : LzmaOutputStream σ} (h : s.Divided) :
    s.drain.delivered = s.produced := by
  have hsize : s.lstream.memory.length - s.lstream.availOut = s.lstream.nextOut := by
    rw [Divided] at h
    omega
  simp [delivered, produced, LzmaOutputStream.drain, OutCall.bytes, hsize]

lemma Divided.produced_drain {s : LzmaOutputStream σ} (h : s.Divided) :
    s.drain.produced = s.produced := by
  rw [← h.delivered_drain]
  simp [produced, LzmaOutputStream.drain]

lemma passDataToStream_ok (s : LzmaOutputStream σ) :
    passDataToStream s .ok = .ok (if s.lstream.availOut = 0 then s.drain else s, true) := by
  by_cases h : s.lstream.availOut = 0 <;> simp [passDataToStream, drain, h]

lemma passDataToStream_streamEnd (s : LzmaOutputStream σ) :
    passDataToStream s .streamEnd = .ok (s.drain, false) := by
  simp [passDataToStream, drain]

lemma passDataToStream_error (s : LzmaOutputStream σ) {ret : LzmaRet} (hok : ret ≠ .ok)
    (hend : ret ≠ .streamEnd) :
    ∃ message, passDataToStream s ret = .error (.operation message) := by
  cases ret <;> first | exact ⟨_, rfl⟩ | contradiction

/-- Some writes have been passed on in between. -/
def Extends (s s' : LzmaOutputStream σ) : Prop :=
  ∃ pieces : List (List Byte), s'.stream = s.stream ++ pieces.map .write

lemma Extends.refl (s : LzmaOutputStream σ) : s.Extends s := ⟨[], by simp⟩

lemma Extends.drain (s : LzmaOutputStream σ) : s.Extends s.drain := ⟨[_], rfl⟩

lemma Extends.trans {s s' s'' : LzmaOutputStream σ} (h : s.Extends s') (h' : s'.Extends s'') :
    s.Extends s'' := by
  obtain ⟨pieces, hpieces⟩ := h
  obtain ⟨pieces', hpieces'⟩ := h'
  exact ⟨pieces ++ pieces', by rw [hpieces', hpieces, List.map_append, List.append_assoc]⟩

/-- The stream behind a call of the encoder that returned `LZMA_OK`. -/
structure Coding (s s' : LzmaOutputStream σ) (sequence : LzmaSequence) (coded : Coded σ) :
    Prop where
  ret_eq : coded.ret = .ok
  action_eq : s'.action = s.action
  sequence_eq : s'.lstream.sequence = sequence
  coder_eq : s'.lstream.coder = coded.coder
  nextIn_eq : s'.lstream.nextIn = s.lstream.nextIn.drop coded.inPos
  availIn_eq : s'.lstream.availIn = s'.lstream.nextIn.length
  allow_eq : s'.lstream.allowBufError = decide coded.Idle
  not_allow : coded.Idle → s.lstream.allowBufError = false
  divided : s'.Divided
  produced_eq : s'.produced = s.produced ++ coded.out
  extend : s.Extends s'

/-- A call of the encoder fails, or goes on, or ends the encoding. -/
lemma code_spec {s : LzmaOutputStream σ} {sequence : LzmaSequence} (hs : s.Divided)
    (hsupported : c.supportedActions s.action = true)
    (henter : s.lstream.enter s.action = .ok sequence) {coded : Coded σ}
    (hcoded : c.code s.lstream.coder s.lstream.nextIn s.lstream.availOut s.action = coded)
    (hout : coded.out.length ≤ s.lstream.availOut) (htimed : coded.ret ≠ .timedOut) :
    (∃ message, code c s = .error (.operation message)) ∨
      (∃ s', code c s = .ok (s', true) ∧ Coding s s' sequence coded) ∨
      ∃ s', code c s = .ok (s', false) ∧ coded.ret = .streamEnd ∧ s'.action = s.action ∧
        (sequence = .finish → s'.lstream.sequence = .ended) ∧ s'.Divided ∧
        s'.delivered = s.produced ++ coded.out ∧ s'.lstream.nextOut = 0 ∧ s.Extends s' := by
  have hnextOut : s.lstream.nextOut ≤ s.lstream.memory.length := by
    rw [Divided] at hs
    omega
  have hproduced : { s with lstream := s.lstream.advance sequence coded }.produced =
      s.produced ++ coded.out := by
    simp only [produced, delivered, LzmaStream.advance, take_overwrite_append hnextOut,
      List.append_assoc]
  have hdivided : { s with lstream := s.lstream.advance sequence coded }.Divided := by
    have hlen : (overwrite s.lstream.memory s.lstream.nextOut coded.out).length =
        s.lstream.memory.length := by
      rw [Divided] at hs
      exact length_overwrite (by omega)
    simp only [Divided, LzmaStream.advance, hlen] at hs ⊢
    omega
  have hcode : code c s = passDataToStream
      { s with lstream := ((s.lstream.advance sequence coded).finishCode coded).2 }
      ((s.lstream.advance sequence coded).finishCode coded).1 := by
    rw [code, lzmaCode_of_enter hsupported henter, hcoded]
  by_cases hok : coded.ret = .ok
  · rcases LzmaStream.finishCode_ok (s := s.lstream.advance sequence coded) hok with
      ⟨hbuf, -⟩ | ⟨hfinish, hallow⟩
    · left
      rw [hcode, hbuf]
      exact passDataToStream_error _ (by simp) (by simp)
    · right
      left
      rw [hcode, hfinish, passDataToStream_ok]
      refine ⟨_, rfl, ?_⟩
      split
      · refine ⟨hok, rfl, rfl, rfl, rfl, rfl, rfl, hallow, Divided.drain, ?_, [_], rfl⟩
        exact (Divided.produced_drain hdivided).trans hproduced
      · exact ⟨hok, rfl, rfl, rfl, rfl, rfl, rfl, hallow, hdivided, hproduced, [],
          (List.append_nil _).symm⟩
  · by_cases hend : coded.ret = .streamEnd
    · right
      right
      rw [hcode]
      simp only [LzmaStream.finishCode, hend, passDataToStream_streamEnd]
      refine ⟨_, rfl, trivial, rfl, ?_, Divided.drain, ?_, rfl, [_], rfl⟩
      · rintro rfl
        rfl
      · exact (Divided.delivered_drain hdivided).trans hproduced
    · left
      rw [hcode]
      have hret : ((s.lstream.advance sequence coded).finishCode coded).1 = coded.ret := by
        rcases hret : coded.ret <;> simp_all [LzmaStream.finishCode]
      rw [hret]
      exact passDataToStream_error _ hok hend

/-! ### Before and after the end of the input -/

/-- Before `flush`: `accepted` has been written, and the encoder has got it but for what is left in
the input. -/
structure Accepting (running : σ → List Byte → List Byte → Prop) (s : LzmaOutputStream σ)
    (accepted : List Byte) : Prop where
  divided : s.Divided
  action_eq : s.action = .run
  sequence_eq : s.lstream.sequence = .run
  coding : ∃ x, x ++ s.lstream.nextIn = accepted ∧ running s.lstream.coder x s.produced

/-- Within `flush`. -/
structure Finishing (finishing : σ → List Byte → List Byte → List Byte → Prop)
    (s : LzmaOutputStream σ) (accepted : List Byte) : Prop where
  divided : s.Divided
  action_eq : s.action = .finish
  entered : s.lstream.sequence = .run ∨
    s.lstream.sequence = .finish ∧ s.lstream.availIn = s.lstream.nextIn.length
  coding : ∃ x, x ++ s.lstream.nextIn = accepted ∧
    finishing s.lstream.coder x accepted s.produced

/-- After `flush`. -/
structure Finished (s : LzmaOutputStream σ) (output : List Byte) : Prop where
  divided : s.Divided
  action_eq : s.action = .finish
  sequence_eq : s.lstream.sequence = .ended
  nextOut_eq : s.lstream.nextOut = 0
  delivered_eq : s.delivered = output

/-- A bound on the calls of the encoder to come, where `rest` has still to be handed to it. -/
def weight (encode : List Byte → List Byte) (all : List Byte) (s : LzmaOutputStream σ)
    (rest : List Byte) : Nat :=
  2 * ((encode all).length - s.produced.length + s.lstream.nextIn.length + rest.length) +
    if s.lstream.allowBufError then 0 else 1

lemma Coding.weight_lt {s s' : LzmaOutputStream σ} {sequence : LzmaSequence} {coded : Coded σ}
    {all : List Byte} (h : Coding s s' sequence coded)
    (hin : coded.inPos ≤ s.lstream.nextIn.length) (hle : s'.produced <+: encode all)
    (rest : List Byte) : weight encode all s' rest < weight encode all s rest := by
  have hlength := hle.length_le
  rw [h.produced_eq, List.length_append] at hlength
  simp only [weight, h.allow_eq, h.nextIn_eq, h.produced_eq, List.length_append,
    List.length_drop, decide_eq_true_eq]
  by_cases hidle : coded.Idle
  · have hout : coded.out.length = 0 := by
      rw [hidle.1]
      rfl
    rw [if_pos hidle, h.not_allow hidle, hidle.2, hout]
    simp
  · have hprogress : 0 < coded.out.length ∨ 0 < coded.inPos := by
      by_contra hno
      exact hidle ⟨List.length_eq_zero_iff.mp (by omega), by omega⟩
    rw [if_neg hidle]
    omega

lemma Accepting.code_spec (he : Encoder c encode running finishing) {s : LzmaOutputStream σ}
    {accepted : List Byte} (h : Accepting running s accepted) (rest : List Byte) :
    (∃ message, code c s = .error (.operation message)) ∨
      ∃ s', code c s = .ok (s', true) ∧ Accepting running s' accepted ∧ s.Extends s' ∧
        weight encode (accepted ++ rest) s' rest < weight encode (accepted ++ rest) s rest := by
  obtain ⟨x, rfl, hrunning⟩ := h.coding
  have hin := he.inPos_le s.lstream.coder s.lstream.nextIn s.lstream.availOut .run
  obtain hfail | ⟨s', hcode, hcoding⟩ | ⟨s', -, hend, -⟩ := LzmaOutputStream.code_spec h.divided
    (by rw [h.action_eq, he.supports_run]) (LzmaStream.enter_run h.sequence_eq s.action)
    (by rw [h.action_eq]) (he.length_out_le _ _ _ _) (he.ne_timedOut _ _ _ _)
  · exact Or.inl hfail
  · have hnext := he.run _ _ _ s.lstream.nextIn s.lstream.availOut hrunning hcoding.ret_eq
    rw [← hcoding.coder_eq, ← hcoding.produced_eq] at hnext
    have haccepting : Accepting running s' (x ++ s.lstream.nextIn) := by
      refine ⟨hcoding.divided, hcoding.action_eq.trans h.action_eq, ?_, _, ?_, hnext⟩
      · rw [hcoding.sequence_eq, h.action_eq]
        rfl
      · rw [hcoding.nextIn_eq, List.append_assoc, List.take_append_drop]
    refine Or.inr ⟨s', hcode, haccepting, hcoding.extend, hcoding.weight_lt hin ?_ rest⟩
    obtain ⟨x', hx', hrunning'⟩ := haccepting.coding
    rw [← hx', List.append_assoc]
    exact he.running_le _ _ _ _ hrunning'
  · exact absurd hend (he.run_ne_streamEnd _ _ _ _ _ hrunning)

lemma Finishing.code_spec (he : Encoder c encode running finishing) {s : LzmaOutputStream σ}
    {accepted : List Byte} (h : Finishing finishing s accepted) :
    (∃ message, code c s = .error (.operation message)) ∨
      (∃ s', code c s = .ok (s', true) ∧ Finishing finishing s' accepted ∧ s.Extends s' ∧
        weight encode accepted s' [] < weight encode accepted s []) ∨
      ∃ s', code c s = .ok (s', false) ∧ Finished s' (encode accepted) ∧ s.Extends s' := by
  obtain ⟨x, rfl, hfinishing⟩ := h.coding
  have hin := he.inPos_le s.lstream.coder s.lstream.nextIn s.lstream.availOut .finish
  have henter : s.lstream.enter s.action = .ok .finish := by
    rw [h.action_eq]
    rcases h.entered with hrun | ⟨hfinish, havail⟩
    · exact LzmaStream.enter_run hrun .finish
    · exact LzmaStream.enter_finish hfinish havail
  obtain hfail | ⟨s', hcode, hcoding⟩ | ⟨s', hcode, hend, haction, hsequence, hdivided, hdelivered,
    hnextOut, hextends⟩ := LzmaOutputStream.code_spec h.divided
      (by rw [h.action_eq, he.supports_finish]) henter (by rw [h.action_eq])
      (he.length_out_le _ _ _ _) (he.ne_timedOut _ _ _ _)
  · exact Or.inl hfail
  · have hnext := he.finish _ _ _ s.lstream.nextIn s.lstream.availOut hfinishing hcoding.ret_eq
    rw [← hcoding.coder_eq, ← hcoding.produced_eq] at hnext
    have hstill : Finishing finishing s' (x ++ s.lstream.nextIn) := by
      refine ⟨hcoding.divided, hcoding.action_eq.trans h.action_eq,
        Or.inr ⟨hcoding.sequence_eq, hcoding.availIn_eq⟩, _, ?_, hnext⟩
      rw [hcoding.nextIn_eq, List.append_assoc, List.take_append_drop]
    refine Or.inr (Or.inl ⟨s', hcode, hstill, hcoding.extend, hcoding.weight_lt hin ?_ []⟩)
    obtain ⟨x', hx', hfinishing'⟩ := hstill.coding
    exact he.finishing_le _ _ _ _ hfinishing'
  · refine Or.inr (Or.inr ⟨s', hcode, ⟨hdivided, haction.trans h.action_eq, hsequence rfl, hnextOut,
      ?_⟩, hextends⟩)
    rw [hdelivered]
    exact he.finish_streamEnd _ _ _ _ _ hfinishing hend

/-- The ended encoder is called and writes nothing. -/
lemma Finished.code_eq (hsupported : c.supportedActions .finish = true) {s : LzmaOutputStream σ}
    {output : List Byte} (h : Finished s output) :
    ∃ s', code c s = .ok (s', false) ∧ Finished s' output ∧ s.Extends s' := by
  refine ⟨s.drain, ?_, ⟨Divided.drain, h.action_eq, h.sequence_eq, rfl, ?_⟩, Extends.drain s⟩
  · simp only [code, lzmaCode_ended h.sequence_eq (h.action_eq ▸ hsupported)]
    exact passDataToStream_streamEnd s
  · rw [Divided.delivered_drain h.divided, produced, h.nextOut_eq, h.delivered_eq]
    simp

/-! ### The calls -/

lemma writeRound_spec (he : Encoder c encode running finishing) {s₀ : LzmaOutputStream σ}
    {all : List Byte} (p : LzmaOutputStream σ × List Byte)
    (h : (∃ accepted, Accepting running p.1 accepted ∧ accepted ++ p.2 = all) ∧ s₀.Extends p.1) :
    (∃ e, writeRound c p = .error e ∧ Thrown e) ∨
      (∃ s, writeRound c p = .ok (.done s) ∧ Accepting running s all ∧ s₀.Extends s) ∨
      ∃ q, writeRound c p = .ok (.again q) ∧
        ((∃ accepted, Accepting running q.1 accepted ∧ accepted ++ q.2 = all) ∧ s₀.Extends q.1) ∧
        weight encode all q.1 q.2 < weight encode all p.1 p.2 := by
  obtain ⟨s, rest⟩ := p
  obtain ⟨⟨accepted, hs, hall⟩, hextends⟩ := h
  by_cases hnil : s.lstream.nextIn = []
  · by_cases hrest : rest = []
    · obtain rfl : accepted = all := by simpa [hrest] using hall
      exact Or.inr (Or.inl ⟨s, by simp [writeRound, hnil, hrest], hs, hextends⟩)
    · have hrefilled : Accepting running
          { s with lstream := { s.lstream with nextIn := rest } } all := by
        obtain ⟨x, hx, hrunning⟩ := hs.coding
        refine ⟨hs.divided, hs.action_eq, hs.sequence_eq, x, ?_, hrunning⟩
        rw [← hall, ← hx, hnil, List.append_nil]
      obtain ⟨message, hcode⟩ | ⟨s', hcode, hs', hstep, hlt⟩ := hrefilled.code_spec he []
      · exact Or.inl ⟨.operation message, by simp [writeRound, hnil, hrest, hcode], message, rfl⟩
      · refine Or.inr (Or.inr ⟨(s', []), by simp [writeRound, hnil, hrest, hcode],
          ⟨⟨_, hs', List.append_nil _⟩, hextends.trans hstep⟩, ?_⟩)
        rw [List.append_nil] at hlt
        refine hlt.trans_eq ?_
        simp [weight, hnil, produced, delivered]
  · obtain ⟨message, hcode⟩ | ⟨s', hcode, hs', hstep, hlt⟩ := hs.code_spec he rest
    · exact Or.inl ⟨.operation message, by simp [writeRound, hnil, hcode], message, rfl⟩
    · rw [hall] at hlt
      exact Or.inr (Or.inr ⟨(s', rest), by simp [writeRound, hnil, hcode],
        ⟨⟨_, hs', hall⟩, hextends.trans hstep⟩, hlt⟩)

/-- What is written before `flush` is accepted. -/
lemma Accepting.write (he : Encoder c encode running finishing) {s : LzmaOutputStream σ}
    {accepted : List Byte} (h : Accepting running s accepted) (buffer : List Byte) :
    Settles Thrown (fun s' => Accepting running s' (accepted ++ buffer) ∧ s.Extends s')
      fun fuel => write c fuel s buffer :=
  settles_loop LzmaFailure.stuck
    (fun p : LzmaOutputStream σ × List Byte =>
      (∃ accepted', Accepting running p.1 accepted' ∧ accepted' ++ p.2 = accepted ++ buffer) ∧
        s.Extends p.1)
    _ (fun p => weight encode (accepted ++ buffer) p.1 p.2) (writeRound_spec he)
    ⟨⟨accepted, h, rfl⟩, Extends.refl s⟩

lemma flushRound_spec (he : Encoder c encode running finishing) {s₀ : LzmaOutputStream σ}
    {accepted : List Byte} (s : LzmaOutputStream σ)
    (h : Finishing finishing s accepted ∧ s₀.Extends s) :
    (∃ e, flushRound c s = .error e ∧ Thrown e) ∨
      (∃ s', flushRound c s = .ok (.done s') ∧ Finished s' (encode accepted) ∧ s₀.Extends s') ∨
      ∃ s', flushRound c s = .ok (.again s') ∧
        (Finishing finishing s' accepted ∧ s₀.Extends s') ∧
        weight encode accepted s' [] < weight encode accepted s [] := by
  obtain ⟨message, hcode⟩ | ⟨s', hcode, hs', hstep, hlt⟩ | ⟨s', hcode, hs', hstep⟩ :=
    h.1.code_spec he
  · exact Or.inl ⟨.operation message, by simp [flushRound, hcode], message, rfl⟩
  · exact Or.inr (Or.inr ⟨s', by simp [flushRound, hcode], ⟨hs', h.2.trans hstep⟩, hlt⟩)
  · exact Or.inr (Or.inl ⟨s', by simp [flushRound, hcode], hs', h.2.trans hstep⟩)

/-- `flush` completes the encoding, and then flushes the wrapped stream. -/
lemma Accepting.flush (he : Encoder c encode running finishing) {s : LzmaOutputStream σ}
    {accepted : List Byte} (h : Accepting running s accepted) :
    Settles Thrown (fun s' => Finished s' (encode accepted) ∧ ∃ pieces : List (List Byte),
        s'.stream = s.stream ++ pieces.map .write ++ [.flush])
      fun fuel => flush c fuel s := by
  have hstart : Finishing finishing { s with action := .finish } accepted := by
    obtain ⟨x, hx, hrunning⟩ := h.coding
    refine ⟨h.divided, rfl, Or.inl h.sequence_eq, x, hx, ?_⟩
    rw [← hx]
    exact he.finishing_of_running _ _ _ _ hrunning
  have hloop := settles_loop LzmaFailure.stuck _ _ (fun s => weight encode accepted s [])
    (flushRound_spec he)
    ⟨hstart, Extends.refl _⟩
  simp only [LzmaOutputStream.flush, h.action_eq, ne_eq, not_true_eq_false, if_false]
  refine hloop.bind fun s' ⟨hs', pieces, hpieces⟩ => settles_ok ?_
  refine ⟨⟨hs'.divided, hs'.action_eq, hs'.sequence_eq, hs'.nextOut_eq, ?_⟩, pieces, ?_⟩
  · rw [← hs'.delivered_eq]
    simp [delivered, OutCall.bytes]
  · rw [hpieces]

/-- What is written after `flush` is dropped. -/
lemma Finished.write (hsupported : c.supportedActions .finish = true) {s : LzmaOutputStream σ}
    {output : List Byte} (h : Finished s output) (buffer : List Byte) :
    Settles Thrown (fun s' => Finished s' output) fun fuel => write c fuel s buffer := by
  refine settles_loop LzmaFailure.stuck
    (fun p : LzmaOutputStream σ × List Byte => Finished p.1 output) _
    (fun _ => 0) (fun p hp => ?_) h
  obtain ⟨s, rest⟩ := p
  right
  left
  by_cases hnil : s.lstream.nextIn = []
  · by_cases hrest : rest = []
    · exact ⟨s, by simp [writeRound, hnil, hrest], hp⟩
    · have hrefilled : Finished { s with lstream := { s.lstream with nextIn := rest } } output :=
        ⟨hp.divided, hp.action_eq, hp.sequence_eq, hp.nextOut_eq, hp.delivered_eq⟩
      obtain ⟨s', hcode, hs', -⟩ := hrefilled.code_eq hsupported
      exact ⟨s', by simp [writeRound, hnil, hrest, hcode], hs'⟩
  · obtain ⟨s', hcode, hs', -⟩ := Finished.code_eq hsupported hp
    exact ⟨s', by simp [writeRound, hnil, hcode], hs'⟩

lemma Finished.flush {s : LzmaOutputStream σ} {output : List Byte} (h : Finished s output) :
    Settles Thrown (fun s' => s' = s) fun fuel => flush c fuel s := by
  simp only [LzmaOutputStream.flush, h.action_eq, ne_eq, reduceCtorEq, not_false_eq_true, if_true]
  exact settles_ok rfl

/-! ### Sessions -/

def written (calls : List OutCall) : List Byte := calls.flatMap OutCall.bytes

def beforeFlush (calls : List OutCall) : List OutCall := calls.takeWhile (· ≠ .flush)

def afterFlush (calls : List OutCall) : List OutCall := calls.dropWhile (· ≠ .flush)

lemma written_eq_append (calls : List OutCall) :
    written calls = written (beforeFlush calls) ++ written (afterFlush calls) := by
  rw [written, written, written, ← List.flatMap_append, beforeFlush, afterFlush,
    List.takeWhile_append_dropWhile]

lemma Finished.call (hsupported : c.supportedActions .finish = true) {output : List Byte}
    {s : LzmaOutputStream σ} (h : Finished s output) (outCall : OutCall) :
    Settles Thrown (fun s' => Finished s' output) fun fuel => call c fuel s outCall := by
  cases outCall with
  | write buffer => exact h.write hsupported buffer
  | flush => exact h.flush.mono fun _ heq => heq ▸ h

/-- The rest of a session after `flush`. -/
lemma Finished.session (hsupported : c.supportedActions .finish = true) {output : List Byte}
    (calls : List OutCall) {s : LzmaOutputStream σ} (h : Finished s output) :
    Settles Thrown (fun s' => Finished s' output)
      fun fuel => calls.foldlM (LzmaOutputStream.call c fuel) s >>= destroy c fuel := by
  have hcalls := settles_foldlM (fun _ s => Finished s output)
    (fun _ _ outCall hs => hs.call hsupported outCall) calls [] h
  exact hcalls.bind fun s' hs' => hs'.flush.mono fun _ heq => heq ▸ hs'

/-- The rest of a session encodes what is written up to the first `flush`. -/
lemma Accepting.session (he : Encoder c encode running finishing) (calls : List OutCall)
    {accepted : List Byte} {s : LzmaOutputStream σ} (h : Accepting running s accepted) :
    Settles Thrown (fun s' => Finished s' (encode (accepted ++ written (beforeFlush calls))))
      fun fuel => calls.foldlM (call c fuel) s >>= destroy c fuel := by
  induction calls generalizing accepted s with
  | nil =>
    have hend := (h.flush he).mono fun _ hs => hs.1
    simpa [written, beforeFlush, destroy] using hend
  | cons call calls ih =>
    cases call with
    | write buffer =>
      have hbuffer : written (beforeFlush (.write buffer :: calls)) =
          buffer ++ written (beforeFlush calls) := by
        simp [written, beforeFlush, OutCall.bytes]
      simp only [List.foldlM_cons, LzmaOutputStream.call, bind_assoc]
      rw [hbuffer, ← List.append_assoc]
      exact (h.write he buffer).bind fun s' hs' => ih hs'.1
    | flush =>
      have hnil : written (beforeFlush (.flush :: calls)) = [] := by
        simp [written, beforeFlush]
      simp only [List.foldlM_cons, LzmaOutputStream.call, bind_assoc]
      rw [hnil, List.append_nil]
      exact (h.flush he).bind fun s' hs' => hs'.1.session he.supports_finish calls

lemma lasts_flush (c : LzmaNextCoder σ) (s : LzmaOutputStream σ) :
    Lasts fun fuel => flush c fuel s := by
  by_cases h : s.action ≠ .run
  · simp only [LzmaOutputStream.flush, if_pos h]
    exact lasts_const _
  · simp only [LzmaOutputStream.flush, if_neg h]
    exact (lasts_loop _ _ _).bind fun _ => lasts_const _

lemma lasts_session (c : LzmaNextCoder σ) (coder : σ) (bufferSize : Nat) (calls : List OutCall) :
    Lasts fun fuel => session c fuel coder bufferSize calls := by
  refine (lasts_foldlM (fun s outCall => ?_) calls _).bind (lasts_flush c)
  cases outCall with
  | write buffer => exact lasts_loop _ _ _
  | flush => exact lasts_flush c s

lemma accepting_new (coder : σ) (hcoder : running coder [] []) (bufferSize : Nat) :
    Accepting running (new coder bufferSize) [] := by
  refine ⟨?_, rfl, rfl, [], rfl, ?_⟩
  · simp [Divided, new, LzmaStream.init]
  · simpa [produced, delivered, new, LzmaStream.init] using hcoder

end LzmaOutputStream

open LzmaOutputStream

/-- A session fails or passes on the encoding of what is written before the first `flush`. It
decodes to all that is written exactly if that is all. -/
theorem lzmaOutputStream_decodes_iff (he : Encoder c encode running finishing) {coder : σ}
    (hcoder : running coder [] []) {decode : List Byte → Option (List Byte)}
    (hdecode : ∀ bytes, decode (encode bytes) = some bytes) (bufferSize : Nat)
    (calls : List OutCall) :
    ∃ enough, ∀ fuel, enough ≤ fuel →
      (∃ message, session c fuel coder bufferSize calls = .error (.operation message)) ∨
        ∃ s, session c fuel coder bufferSize calls = .ok s ∧
          (decode s.delivered = some (written calls) ↔ written (afterFlush calls) = []) ∧
          (written (afterFlush calls) = [] → s.delivered = encode (written calls)) := by
  obtain ⟨enough, hsession⟩ :=
    ((accepting_new coder hcoder bufferSize).session he calls).exists_enough
  refine ⟨enough, fun fuel hfuel => ?_⟩
  obtain ⟨e, he, herror⟩ | ⟨s, hok, hs⟩ := hsession fuel hfuel
  · obtain ⟨message, rfl⟩ := he
    exact Or.inl ⟨message, herror⟩
  · refine Or.inr ⟨s, hok, ?_, fun hnothing => ?_⟩
    · rw [hs.delivered_eq, hdecode, written_eq_append calls, Option.some.injEq, List.nil_append,
        List.self_eq_append_right]
    · rw [hs.delivered_eq, written_eq_append calls, hnothing]
      simp

/-! ### A small encoder -/

/-- What has not been put out yet, and whether that includes the zero at the end. -/
structure UnaryCoder where
  pending : List Byte
  ended : Bool

/-- All the input is consumed at once, and the output waits for room. -/
def unaryCoder : LzmaNextCoder UnaryCoder where
  supportedActions action := action = .run ∨ action = .finish
  code s input room action :=
    let ends := action = .finish ∧ s.ended = false
    let pending := s.pending ++ input.flatMap (fun b => [1, b]) ++ if ends then [0] else []
    { coder := ⟨pending.drop room, s.ended || ends⟩
      inPos := input.length
      out := pending.take room
      ret := if action = .finish ∧ pending.length ≤ room then .streamEnd else .ok }

def UnaryCoder.Running (s : UnaryCoder) (x y : List Byte) : Prop :=
  s.ended = false ∧ y ++ s.pending = x.flatMap fun b => [1, b]

def UnaryCoder.Finishing (s : UnaryCoder) (x all y : List Byte) : Prop :=
  s.Running x y ∧ x <+: all ∨ s.ended = true ∧ x = all ∧ y ++ s.pending = unaryCompress all

lemma encoder_unaryCoder :
    Encoder unaryCoder unaryCompress UnaryCoder.Running UnaryCoder.Finishing where
  supports_run := rfl
  supports_finish := rfl
  inPos_le _ _ _ _ := le_refl _
  length_out_le _ _ _ _ := List.length_take_le _ _
  ne_timedOut s input room action := by
    simp only [unaryCoder]
    generalize s.pending ++ _ ++ _ = pending
    split <;> simp
  run s x y input room h _ := by
    refine ⟨by simp [unaryCoder, h.1], ?_⟩
    simp [unaryCoder, ← h.2]
  run_ne_streamEnd _ _ _ _ _ _ := by simp [unaryCoder]
  finishing_of_running _ _ _ _ h := Or.inl ⟨h, List.prefix_append _ _⟩
  finish s x y input room h _ := by
    right
    rcases h with ⟨⟨hended, hpending⟩, -⟩ | ⟨hended, hall, hpending⟩
    · refine ⟨by simp [unaryCoder, hended], by simp [unaryCoder], ?_⟩
      simp [unaryCoder, hended, unaryCompress, ← hpending]
    · obtain rfl : input = [] := by simpa using hall
      refine ⟨by simp [unaryCoder, hended], by simp [unaryCoder], ?_⟩
      simpa [unaryCoder, hended] using hpending
  finish_streamEnd s x y input room h hret := by
    rcases h with ⟨⟨hended, hpending⟩, -⟩ | ⟨hended, hall, hpending⟩
    · simp only [unaryCoder, hended, and_true, if_true, true_and, ite_eq_left_iff,
        reduceCtorEq, imp_false, not_not] at hret
      simp only [unaryCoder, hended, and_true, if_true]
      rw [List.take_of_length_le hret]
      simp [unaryCompress, ← List.append_assoc, hpending]
    · obtain rfl : input = [] := by simpa using hall
      simp only [unaryCoder, hended, and_false, if_false, true_and, ite_eq_left_iff,
        reduceCtorEq, imp_false, not_not, List.flatMap_nil, List.append_nil] at hret
      simp only [unaryCoder, hended, and_false, if_false, List.flatMap_nil, List.append_nil,
        reduceCtorEq]
      rw [List.take_of_length_le hret, hpending, List.append_nil]
  running_le s x y input h := by
    refine ⟨s.pending ++ input.flatMap (fun b => [1, b]) ++ [0], ?_⟩
    simp [unaryCompress, ← List.append_assoc, h.2]
  finishing_le s x all y h := by
    rcases h with ⟨⟨-, hpending⟩, input, rfl⟩ | ⟨-, -, hpending⟩
    · refine ⟨s.pending ++ input.flatMap (fun b => [1, b]) ++ [0], ?_⟩
      simp [unaryCompress, ← List.append_assoc, hpending]
    · exact ⟨s.pending, hpending⟩

lemma unaryDecompress_unaryCompress (bytes : List Byte) :
    unaryDecompress (unaryCompress bytes) = some bytes := by
  have hself := selfDelimiting_unary bytes []
  rw [List.append_nil] at hself
  exact hself

/-- The session comes to its end, in which the encoding of both writes has been passed on. -/
theorem lzmaOutputStream_decodes_iff_twoWrites :
    ∃ s, session unaryCoder 20 ⟨[], false⟩ 3 [.write [7], .write [8], .flush] = .ok s ∧
      unaryDecompress s.delivered = some [7, 8] ∧ s.delivered = [1, 7, 1, 8, 0] := by
  have hrun : ∃ s, session unaryCoder 20 ⟨[], false⟩ 3 [.write [7], .write [8], .flush] = .ok s :=
    ⟨_, rfl⟩
  obtain ⟨s, hs⟩ := hrun
  obtain ⟨enough, h⟩ := lzmaOutputStream_decodes_iff encoder_unaryCoder
    (show UnaryCoder.Running ⟨[], false⟩ [] [] from ⟨rfl, rfl⟩) unaryDecompress_unaryCompress 3
    [.write [7], .write [8], .flush]
  have hlasts := lasts_session _ _ _ _ 20 s hs (max enough 20) (le_max_right _ _)
  refine ⟨s, hs, ?_⟩
  rcases h (max enough 20) (le_max_left _ _) with ⟨message, herror⟩ | ⟨s', hs', hdecode, hencode⟩
  · cases hlasts.symm.trans herror
  · cases hlasts.symm.trans hs'
    exact ⟨hdecode.mpr rfl, hencode rfl⟩

/-- A byte written after `flush` is lost without an error. -/
theorem lzmaOutputStream_loses :
    ∃ s, session unaryCoder 10 ⟨[], false⟩ 3 [.flush, .write [7]] = .ok s ∧
      written [.flush, .write [7]] = [7] ∧ unaryDecompress s.delivered = some [] :=
  ⟨_, rfl, rfl, rfl⟩

end BackupProgram
