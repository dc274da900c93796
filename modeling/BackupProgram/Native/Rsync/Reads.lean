import BackupProgram.Native.Rsync.SparseFile

/-!
# When reads end

The loop of `read` goes on for as long as bytes are missing, also when the stream below has none
left, and behind the end of a part it relies on a seek to the start of the next one. `Drains` and
`Reads` say what this takes.
-/

namespace BackupProgram

namespace Rsync

open Loops

/-- Seeks return, and no read hands out more than what is asked for. -/
structure Stream.Modest {σ : Type} (S : Stream σ) : Prop where
  seek : ∀ s offset, ∃ ret s', S.seek s offset = .ok (ret, s')
  read : ∀ s size ok bytes s', S.read s size = .ok (ok, bytes, s') → bytes.length ≤ size

/-- Asked again and again for what is missing of `n` bytes, the stream hands out all of them in the
end, or a read fails. -/
inductive Drains {β : Type} (read : β → Nat → Except Fault (Bool × List Byte × β)) :
    β → Nat → Bool → β → Prop where
  | fails {s n bytes s'} : read s n = .ok (false, bytes, s') → Drains read s n false s'
  | all {s n bytes s'} :
    read s n = .ok (true, bytes, s') → bytes.length = n → Drains read s n true s'
  | more {s n bytes s' ok s''} :
    read s n = .ok (true, bytes, s') → bytes.length < n →
    Drains read s' (n - bytes.length) ok s'' → Drains read s n ok s''

namespace Parted

variable {β P : Type}

/-- What is left of a part. -/
def room (place : P → SparseFile.Part) (s : Parted β P) (part : P) : Nat :=
  subU64 (place part).size (subU64 s.offset (place part).virtualOffset)

/-- The object as it is when the current part has been read to its end. -/
def leave (place : P → SparseFile.Part) (s : Parted β P) (part : P) (streams : β) : Parted β P :=
  { s with
    streams := streams
    current := s.current + 1
    offset := addU64 (place part).virtualOffset (place part).size }

/-- The condition for a read to end: nothing is asked for, or there is a current part, its stream
can be drained of what is asked for, and if this empties the part either it was the last one or the
object `crosses` over to the next one with what is still to be read. -/
def Reads (place : P → SparseFile.Part)
    (readPart : P → β → Nat → Except Fault (Bool × List Byte × β))
    (crosses : Parted β P → Nat → P → Prop) (s : Parted β P) (size : Nat) : Prop :=
  size = 0 ∨ ∃ part, s.parts[s.current]? = some part ∧
    ∃ ok streams, Drains (readPart part) s.streams (min size (s.room place part)) ok streams ∧
      (ok = true → s.room place part ≤ size → ∀ next, s.parts[s.current + 1]? = some next →
        crosses (s.leave place part streams) (size - s.room place part) next)

end Parted

/-- A sparse file crosses over to a part if its seek to it finds no part, or is refused by the base
class, or nothing is left to read. -/
def SparseFile.Crosses {σ : Type} (base : Stream σ) (f : SparseFile σ) (size : Nat)
    (next : SparseFile.Part) : Prop :=
  ∀ containingPart physicalOffset,
    f.transformOffset next.virtualOffset = some (containingPart, physicalOffset) →
      (∃ streams, base.seek f.streams physicalOffset = .ok (false, streams)) ∨ size = 0

/-- A link crosses over to a part if its start lies in a part. -/
def RsyncChainLink.Crosses {σ τ : Type} (link : RsyncChainLink σ τ) (_size : Nat)
    (next : RsyncChainLink.Part) : Prop :=
  (link.transformOffset next.virtualOffset).isSome

namespace Parted

variable {β P : Type} {place : P → SparseFile.Part}
  {readPart : P → β → Nat → Except Fault (Bool × List Byte × β)}
  {seek : Parted β P → Nat → Except Fault (Bool × Parted β P)}
  {crosses : Parted β P → Nat → P → Prop}
  {parts : List P} {s : Parted β P} {part : P} {size : Nat} {dst bytes : List Byte} {streams : β}

/-! ### Rooms -/

lemma room_lt (place : P → SparseFile.Part) (s : Parted β P) (part : P) :
    s.room place part < 2 ^ 64 := by
  rw [room, subU64]
  exact Nat.mod_lt _ (by norm_num)

/-- The end of a part is reached when its room has been read. -/
lemma addU64_offset_iff {d : Nat} (h : d ≤ s.room place part) :
    addU64 s.offset d = addU64 (place part).virtualOffset (place part).size ↔
      d = s.room place part := by
  have hlt := s.room_lt place part
  rw [room, subU64, subU64] at h hlt ⊢
  rw [addU64, addU64]
  omega

lemma room_advance {d : Nat} (h : d ≤ room place s part) (streams : β) :
    room place { s with streams := streams, offset := addU64 s.offset d } part =
      s.room place part - d := by
  have hlt := s.room_lt place part
  rw [room, subU64, subU64] at h hlt ⊢
  simp only [addU64, room, subU64]
  omega

/-! ### One round -/

lemma readRound_zero (s : Parted β P) (dst : List Byte) :
    readRound place readPart seek (s, 0, dst) = .ok (.done (true, dst, s)) := rfl

lemma readRound_fails (seek : Parted β P → Nat → Except Fault (Bool × Parted β P))
    (dst : List Byte) (hpart : s.parts[s.current]? = some part) (hsize : size ≠ 0)
    (hread : readPart part s.streams (min size (s.room place part)) = .ok (false, bytes, streams)) :
    readRound place readPart seek (s, size, dst) =
      .ok (.done (false, dst, { s with streams := streams })) := by
  rw [room] at hread
  rw [readRound, if_neg hsize, hpart]
  simp only [hread]
  rfl

/-- The part has not been read to its end. -/
lemma readRound_again (seek : Parted β P → Nat → Except Fault (Bool × Parted β P))
    (dst : List Byte) (hpart : s.parts[s.current]? = some part) (hsize : size ≠ 0)
    (hread : readPart part s.streams (min size (s.room place part)) = .ok (true, bytes, streams))
    (hlt : bytes.length < s.room place part) :
    readRound place readPart seek (s, size, dst) =
      .ok (.again ({ s with streams := streams, offset := addU64 s.offset bytes.length },
        size - bytes.length, dst ++ bytes)) := by
  have hend := (addU64_offset_iff hlt.le).not.mpr hlt.ne
  rw [room] at hread
  rw [readRound, if_neg hsize, hpart]
  simp only [hread, bind, Except.bind, Bool.not_true, Bool.false_eq_true, if_false, if_neg hend]
  rfl

/-- The last part has been read to its end. -/
lemma readRound_last (seek : Parted β P → Nat → Except Fault (Bool × Parted β P))
    (dst : List Byte) (hpart : s.parts[s.current]? = some part) (hsize : size ≠ 0)
    (hread : readPart part s.streams (min size (s.room place part)) = .ok (true, bytes, streams))
    (heq : bytes.length = s.room place part) (hnext : s.parts[s.current + 1]? = none) :
    readRound place readPart seek (s, size, dst) =
      .ok (.done (true, dst ++ bytes, s.leave place part streams)) := by
  have hend := (addU64_offset_iff heq.le).mpr heq
  rw [room] at hread
  rw [readRound, if_neg hsize, hpart]
  simp only [hread, bind, Except.bind, Bool.not_true, Bool.false_eq_true, if_false, hnext,
    leave, ← hend]
  rfl

/-- Another part has been read to its end: what follows is up to the seek to the next one. -/
lemma readRound_next (seek : Parted β P → Nat → Except Fault (Bool × Parted β P))
    (dst : List Byte) (hpart : s.parts[s.current]? = some part) (hsize : size ≠ 0)
    (hread : readPart part s.streams (min size (s.room place part)) = .ok (true, bytes, streams))
    (heq : bytes.length = s.room place part) {next : P}
    (hnext : s.parts[s.current + 1]? = some next) :
    readRound place readPart seek (s, size, dst) =
      match seek (s.leave place part streams) (place next).virtualOffset with
      | .error e => .error e
      | .ok (false, s') => .ok (.done (false, dst ++ bytes, s'))
      | .ok (true, s') =>
        .ok (.again ({ s' with offset := (place next).virtualOffset }, size - s.room place part,
          dst ++ bytes)) := by
  have hend := (addU64_offset_iff heq.le).mpr heq
  have hleave : s.leave place part streams =
      { s with
        streams := streams
        current := s.current + 1
        offset := addU64 s.offset bytes.length } := by
    rw [leave, hend]
  rw [hleave]
  rw [← heq]
  rw [room] at hread
  rw [readRound, if_neg hsize, hpart]
  simp only [hread, bind, Except.bind, Bool.not_true, Bool.false_eq_true, if_false, if_pos hend,
    hnext]
  rcases seek _ (place next).virtualOffset with e | ⟨_ | _, s'⟩ <;> rfl

/-! ### Whole reads -/

/-- The seek at the end of a part returns, and if it succeeds, so does what follows. -/
def Returns (place : P → SparseFile.Part)
    (readPart : P → β → Nat → Except Fault (Bool × List Byte × β))
    (seek : Parted β P → Nat → Except Fault (Bool × Parted β P)) (s : Parted β P) (size : Nat)
    (next : P) (dst : List Byte) : Prop :=
  ∃ ret s', seek s (place next).virtualOffset = .ok (ret, s') ∧
    (ret = true → ∃ r, Ends (readRound place readPart seek)
      ({ s' with offset := (place next).virtualOffset }, size, dst) r)

/-- A read from a part whose stream can be drained ends. -/
lemma ends_of_drains
    (hcross : ∀ s : Parted β P, s.parts = parts → ∀ size next dst, crosses s size next →
      Returns place readPart seek s size next dst)
    {streams' : β} {n : Nat} {ok : Bool} (h : Drains (readPart part) streams n ok streams')
    {s : Parted β P} {size : Nat} (hparts : s.parts = parts) (hstreams : s.streams = streams)
    (hn : n = min size (s.room place part)) (hsize : size ≠ 0)
    (hpart : s.parts[s.current]? = some part)
    (hnext : ok = true → s.room place part ≤ size → ∀ next, s.parts[s.current + 1]? = some next →
      crosses (s.leave place part streams') (size - s.room place part) next)
    (dst : List Byte) : ∃ r, Ends (readRound place readPart seek) (s, size, dst) r := by
  induction h generalizing s size dst with
  | fails hread =>
    subst hstreams hn
    exact ⟨_, .done (readRound_fails _ _ hpart hsize hread)⟩
  | @all streams n bytes streams' hread hlen =>
    subst hstreams hn
    rcases Nat.lt_or_ge size (s.room place part) with hlt | hge
    · -- all that is asked for has been read, and the part goes on
      rw [Nat.min_eq_left hlt.le] at hlen
      rw [exists_ends_iff (readRound_again _ _ hpart hsize hread (by omega)), hlen, Nat.sub_self]
      exact ⟨_, .done (readRound_zero _ _)⟩
    · rw [Nat.min_eq_right hge] at hlen
      rcases hlast : s.parts[s.current + 1]? with _ | next
      · exact ⟨_, .done (readRound_last _ _ hpart hsize hread hlen hlast)⟩
      · obtain ⟨ret, s', hseek, hends⟩ :=
          hcross (s.leave place part streams') hparts _ next (dst ++ bytes)
          (hnext rfl hge next hlast)
        have hround := readRound_next seek dst hpart hsize hread hlen hlast
        rw [hseek] at hround
        cases ret with
        | false => exact ⟨_, .done hround⟩
        | true => exact (exists_ends_iff hround).mpr (hends rfl)
  | @more streams n bytes streams' ok streams'' hread hlt _ ih =>
    subst hstreams hn
    have hroom := Nat.min_le_right size (s.room place part)
    have hadvance := room_advance (hlt.le.trans hroom) streams'
    rw [exists_ends_iff (readRound_again _ _ hpart hsize hread (hlt.trans_le hroom))]
    have hmin := Nat.min_le_left size (s.room place part)
    refine ih (s := { s with streams := streams', offset := addU64 s.offset bytes.length }) hparts
      rfl ?_ (by omega) hpart (fun hok hle next hlast => ?_) _
    · rw [hadvance]
      omega
    · rw [hadvance] at hle ⊢
      have hsub : size - bytes.length - (s.room place part - bytes.length) =
          size - s.room place part := by omega
      rw [hsub]
      exact hnext hok (by omega) next hlast

lemma ends_of_reads
    (hcross : ∀ s' : Parted β P, s'.parts = s.parts → ∀ size next dst, crosses s' size next →
      Returns place readPart seek s' size next dst)
    (h : Reads place readPart crosses s size) (dst : List Byte) :
    ∃ r, Ends (readRound place readPart seek) (s, size, dst) r := by
  by_cases hsize : size = 0
  · subst hsize
    exact ⟨_, .done (readRound_zero s dst)⟩
  · obtain ⟨part, hpart, ok, streams', hdrains, hnext⟩ := h.resolve_left hsize
    exact ends_of_drains hcross hdrains rfl rfl rfl hsize hpart hnext dst

/-- A round that returns has read from the current part. -/
lemma readPart_of_readRound (hpart : s.parts[s.current]? = some part) (hsize : size ≠ 0)
    {x : Round (Parted β P × Nat × List Byte) (Bool × List Byte × Parted β P)}
    (hround : readRound place readPart seek (s, size, dst) = .ok x) :
    ∃ r, readPart part s.streams (min size (s.room place part)) = .ok r := by
  rw [readRound, if_neg hsize, hpart] at hround
  rw [room]
  rcases hread : readPart part s.streams (min size (subU64 (place part).size
      (subU64 s.offset (place part).virtualOffset))) with e | r
  · simp only [hread] at hround
    cases hround
  · exact ⟨r, rfl⟩

/-- One round of a read that ends: the stream of the current part is asked, and either the loop is
over or the rest of the read ends too. -/
lemma reads_of_round
    (hread : ∀ part streams n ok bytes streams',
      readPart part streams n = .ok (ok, bytes, streams') → bytes.length ≤ n)
    (hcross : ∀ s' : Parted β P, s'.parts = s.parts → ∀ size next dst,
      Returns place readPart seek s' size next dst → crosses s' size next)
    {x : Round (Parted β P × Nat × List Byte) (Bool × List Byte × Parted β P)}
    (hround : readRound place readPart seek (s, size, dst) = .ok x)
    (hx : ∀ s' size' dst', x = .again (s', size', dst') →
      (∃ r, Ends (readRound place readPart seek) (s', size', dst') r) ∧
        (s'.parts = s.parts → Reads place readPart crosses s' size')) :
    Reads place readPart crosses s size := by
  by_cases hsize : size = 0
  · exact Or.inl hsize
  refine Or.inr ?_
  rcases hpart : s.parts[s.current]? with _ | part
  · rw [readRound_of_outside (List.getElem?_eq_none_iff.mp hpart) hsize] at hround
    cases hround
  obtain ⟨⟨ok, bytes, streams⟩, hok⟩ := readPart_of_readRound hpart hsize hround
  have hle := hread _ _ _ _ _ _ hok
  cases ok with
  | false => exact ⟨part, rfl, false, streams, .fails hok, by simp⟩
  | true =>
    have hroom := hle.trans (Nat.min_le_right _ _)
    rcases Nat.lt_or_eq_of_le hroom with hlt | heq
    · rw [readRound_again _ _ hpart hsize hok hlt] at hround
      rcases Nat.lt_or_eq_of_le hle with hmore | hall
      · -- the stream is asked again
        obtain ⟨-, hreads⟩ := hx _ _ _ (Except.ok.inj hround).symm
        have hmin := hmore.trans_le (Nat.min_le_left _ _)
        obtain ⟨part', hpart', ok, streams', hdrains, hnext⟩ :=
          (hreads rfl).resolve_left (by omega)
        obtain rfl : part = part' := Option.some.inj (hpart.symm.trans hpart')
        rw [room_advance hroom streams] at hdrains hnext
        have hrest : min (size - bytes.length) (s.room place part - bytes.length) =
            min size (s.room place part) - bytes.length := by omega
        have hsub : size - bytes.length - (s.room place part - bytes.length) =
            size - s.room place part := by omega
        rw [hrest] at hdrains
        rw [hsub] at hnext
        exact ⟨part, rfl, ok, streams', .more hok hmore hdrains,
          fun hok' hle' next hlast => hnext hok' (by omega) next hlast⟩
      · exact ⟨part, rfl, true, streams, .all hok hall, fun _ hle' => absurd hle' (by omega)⟩
    · refine ⟨part, rfl, true, streams, .all hok (by omega), fun _ _ next hnext => ?_⟩
      rw [readRound_next _ _ hpart hsize hok heq hnext] at hround
      refine hcross (s.leave place part streams) rfl _ next (dst ++ bytes) ?_
      rcases hseek : seek (s.leave place part streams) (place next).virtualOffset with
        e | ⟨_ | _, s'⟩
      · rw [hseek] at hround
        cases hround
      · exact ⟨false, s', hseek, by simp⟩
      · rw [hseek] at hround
        exact ⟨true, s', hseek, fun _ => (hx _ _ _ (Except.ok.inj hround).symm).1⟩

/-- A read that ends has drained the stream of the current part. -/
lemma reads_of_ends
    (hread : ∀ part streams n ok bytes streams',
      readPart part streams n = .ok (ok, bytes, streams') → bytes.length ≤ n)
    (hcross : ∀ s' : Parted β P, s'.parts = parts → ∀ size next dst,
      Returns place readPart seek s' size next dst → crosses s' size next)
    (hparts : s.parts = parts) {r : Bool × List Byte × Parted β P}
    (h : Ends (readRound place readPart seek) (s, size, dst) r) :
    Reads place readPart crosses s size := by
  generalize hx : (s, size, dst) = x at h
  induction h generalizing s size dst with
  | done hround =>
    subst hx hparts
    refine reads_of_round hread hcross hround fun s' size' dst' heq => ?_
    cases heq
  | again hround hends ih =>
    subst hx hparts
    refine reads_of_round hread hcross hround fun s' size' dst' heq => ?_
    cases heq
    exact ⟨⟨_, hends⟩, fun hparts => ih hparts rfl⟩

end Parted

/-! ### The two classes -/

/-- A sparse file whose read must go on in another part has lost its place. -/
lemma SparseFile.returns_iff {σ : Type} {base : Stream σ} (hbase : base.Modest) {f : SparseFile σ}
    (hlen : f.parts.length < 2 ^ 63) (size : Nat) (next : SparseFile.Part) (dst : List Byte) :
    Parted.Returns id (fun _ => base.read) (SparseFile.seek base) f size next dst ↔
      SparseFile.Crosses base f size next := by
  rcases hfind : f.transformOffset next.virtualOffset with _ | ⟨containingPart, physicalOffset⟩
  · refine iff_of_true ⟨false, f, SparseFile.seek_of_none base hfind, by simp⟩
      fun containingPart physicalOffset h => ?_
    rw [hfind] at h
    cases h
  · obtain ⟨ret, streams, hseek⟩ := hbase.seek f.streams physicalOffset
    have hseek' := SparseFile.seek_of_some hfind hseek
    have houtside := SparseFile.length_le_of_transformOffset hlen hfind
    constructor
    · rintro ⟨ret', f', h, hends⟩ containingPart' physicalOffset' hfind'
      obtain ⟨rfl, rfl⟩ := Prod.mk.inj (Option.some.inj (hfind.symm.trans hfind'))
      obtain ⟨rfl, rfl⟩ := Prod.mk.inj (Except.ok.inj (hseek'.symm.trans h))
      cases ret with
      | false => exact Or.inl ⟨streams, hseek⟩
      | true =>
        refine Or.inr (by_contra fun hsize => ?_)
        obtain ⟨r, hr⟩ := hends rfl
        exact not_ends_of_error (Parted.readRound_of_outside (by exact houtside) hsize dst) hr
    · intro h
      refine ⟨ret, _, hseek', fun hret => ?_⟩
      rcases h _ _ hfind with ⟨streams', hrefused⟩ | rfl
      · rw [hseek, hret] at hrefused
        cases hrefused
      · exact ⟨_, .done (Parted.readRound_zero _ _)⟩

namespace RsyncChainLink

variable {σ τ : Type} {old : Stream σ} {new : Stream τ}

lemma returns_of_crosses (garbage : Nat) {link : RsyncChainLink σ τ} {size : Nat} {next : Part}
    {dst : List Byte} (h : link.Crosses size next) :
    Parted.Returns Part.toPart (readPart old new) (seek old new garbage) link size next dst := by
  obtain ⟨found, hfound⟩ := Option.isSome_iff_exists.mp h
  exact ⟨false, link, seek_of_transformOffset old new garbage hfound, by simp⟩

/-- If the start of the next part lies in no part, the part that is asked may be anywhere. -/
lemma crosses_of_returns {link : RsyncChainLink σ τ} {garbage : Nat}
    (hgarbage : link.parts.length ≤ garbage) {size : Nat} {next : Part} {dst : List Byte}
    (h : Parted.Returns Part.toPart (readPart old new) (seek old new garbage) link size next dst) :
    link.Crosses size next := by
  obtain ⟨ret, link', hseek, -⟩ := h
  rw [Crosses, Option.isSome_iff_ne_none]
  intro hnone
  rw [seek, hnone] at hseek
  simp only [List.getElem?_eq_none hgarbage] at hseek
  cases hseek

/-- A call on the stream of a part is a call on one of the two streams. -/
lemma length_readPart_le (hold : old.Modest) (hnew : new.Modest) (part : Part) (files : Files σ τ)
    (n : Nat) (ok : Bool) (bytes : List Byte) (files' : Files σ τ)
    (h : readPart old new part files n = .ok (ok, bytes, files')) : bytes.length ≤ n := by
  rw [readPart, onStream] at h
  by_cases hfile : part.file = 0
  · rw [if_pos hfile] at h
    rcases hread : old.read files.oldFile n with e | ⟨ok', bytes', s⟩
    · rw [hread] at h
      cases h
    · rw [hread] at h
      cases h
      exact hold.read _ _ _ _ _ hread
  · rw [if_neg hfile] at h
    rcases hread : new.read files.newFile n with e | ⟨ok', bytes', s⟩
    · rw [hread] at h
      cases h
    · rw [hread] at h
      cases h
      exact hnew.read _ _ _ _ _ hread

end RsyncChainLink

/-! ### When reads end -/

lemma SparseFile.exists_readLoop_iff {σ : Type} {base : Stream σ} (hbase : base.Modest)
    {f : SparseFile σ} (hlen : f.parts.length < 2 ^ 63) (size : Nat) :
    (∃ fuel r, f.readLoop base fuel size [] = .ok r) ↔
      Parted.Reads id (fun _ => base.read) (SparseFile.Crosses base) f size := by
  constructor
  · rintro ⟨fuel, r, hloop⟩
    exact Parted.reads_of_ends (fun _ => hbase.read)
      (fun f' hparts size next dst =>
        (SparseFile.returns_iff hbase (hparts ▸ hlen) size next dst).mp)
      rfl (ends_of_loop hloop)
  · intro h
    obtain ⟨r, hends⟩ := Parted.ends_of_reads
      (fun f' hparts size next dst =>
        (SparseFile.returns_iff hbase (hparts ▸ hlen) size next dst).mpr) h []
    obtain ⟨fuel, hloop⟩ := ends_iff.mp hends
    exact ⟨fuel, r, hloop⟩

lemma RsyncChainLink.forall_exists_readLoop_iff {σ τ : Type} {old : Stream σ} {new : Stream τ}
    (hold : old.Modest) (hnew : new.Modest) (link : RsyncChainLink σ τ) (size : Nat) :
    (∀ garbage, ∃ fuel r, link.readLoop old new garbage fuel size [] = .ok r) ↔
      Parted.Reads Part.toPart (readPart old new) Crosses link size := by
  constructor
  · intro h
    obtain ⟨fuel, r, hloop⟩ := h link.parts.length
    exact Parted.reads_of_ends (length_readPart_le hold hnew)
      (fun link' hparts size next dst => crosses_of_returns (by rw [hparts]))
      rfl (ends_of_loop hloop)
  · intro h garbage
    obtain ⟨r, hends⟩ := Parted.ends_of_reads
      (fun link' _ size next dst => returns_of_crosses garbage) h []
    obtain ⟨fuel, hloop⟩ := ends_iff.mp hends
    exact ⟨fuel, r, hloop⟩

/-- A read of a sparse file or of a link, whatever the variable that is not set may hold, ends
without a fault if, and only if, the condition `Reads` holds. -/
theorem readLoop_ends_iff {ρ σ τ : Type} {base : Stream ρ} {old : Stream σ} {new : Stream τ}
    (hbase : base.Modest) (hold : old.Modest) (hnew : new.Modest) :
    (∀ f : SparseFile ρ, f.parts.length < 2 ^ 63 → ∀ size,
      (∃ fuel r, f.readLoop base fuel size [] = .ok r) ↔
        Parted.Reads id (fun _ => base.read) (SparseFile.Crosses base) f size) ∧
    ∀ (link : RsyncChainLink σ τ) size,
      (∀ garbage, ∃ fuel r, link.readLoop old new garbage fuel size [] = .ok r) ↔
        Parted.Reads RsyncChainLink.Part.toPart (RsyncChainLink.readPart old new)
          RsyncChainLink.Crosses link size :=
  ⟨fun _ hlen => SparseFile.exists_readLoop_iff hbase hlen,
    RsyncChainLink.forall_exists_readLoop_iff hold hnew⟩

/-! ### Plain files -/

/-- A piece of a block is no longer than what is asked for. -/
lemma NormalFile.length_read_le {f f' : NormalFile} {size : Nat} {ok : Bool} {bytes : List Byte}
    (h : f.read size = .ok (ok, bytes, f')) : bytes.length ≤ size := by
  refine post_of_ends (fun s => s.2.2.length + s.2.1 ≤ size) (fun r => r.2.1.length ≤ size)
    (fun s hs => ?_) (by simp) (ends_of_loop h)
  obtain ⟨f, n, dst⟩ := s
  dsimp only at hs
  rw [readRound]
  split_ifs with hn htemp hcancelled
  · refine ⟨fun _ hround => (by cases hround), fun _ hround => ?_⟩
    cases hround
    dsimp only
    omega
  · refine ⟨fun _ hround => ?_, fun _ hround => by cases hround⟩
    cases hround
    have hslice : (CircularBuffer.slice f.temp (f.temp.length - f.tempSize)
        (min f.tempSize n)).length ≤ min f.tempSize n := by
      rw [CircularBuffer.slice]
      exact List.length_take_le _ _
    dsimp only
    rw [List.length_append]
    omega
  · refine ⟨fun _ hround => (by cases hround), fun _ hround => ?_⟩
    cases hround
    dsimp only
    omega
  · rcases f.reader.nextBlock (CircularBuffer.new 1) with ⟨_ | _, reader, buffer⟩
    · refine ⟨fun _ hround => (by cases hround), fun _ hround => ?_⟩
      cases hround
      dsimp only
      omega
    · refine ⟨fun _ hround => ?_, fun _ hround => by cases hround⟩
      cases hround
      exact hs

/-- Reads as a stream are the reads that return. -/
lemma NormalFile.read_stream {f f' : NormalFile} {size : Nat} {ok : Bool} {bytes : List Byte} :
    NormalFile.stream.read f size = .ok (ok, bytes, f') ↔ f.read size = .ok (ok, bytes, f') := by
  simp only [NormalFile.stream]
  rcases f.read size with e | r <;> simp [Except.mapError]

lemma NormalFile.modest_stream : NormalFile.stream.Modest where
  seek _ _ := ⟨_, _, rfl⟩
  read _ _ _ _ _ h := length_read_le (read_stream.mp h)

/-- An empty file cannot be drained of a byte. -/
lemma not_drains_of_empty {f f' : NormalFile} {pos k n : Nat} {ok : Bool}
    (h : NormalFile.At [] [] pos k 0 f) (hn : n ≠ 0) :
    ¬ Drains NormalFile.stream.read f n ok f' := by
  have hempty : ∀ {f : NormalFile} {pos k n : Nat}, NormalFile.At [] [] pos k 0 f →
      ∃ f' k', NormalFile.stream.read f n = .ok (true, [], f') ∧
        NormalFile.At [] [] (pos + n) k' 0 f' := by
    intro f pos k n h
    obtain ⟨f', k', -, hread, hat, -⟩ := h.read n
    rw [List.drop_nil, List.take_nil] at hread
    exact ⟨f', k', NormalFile.read_stream.mpr hread, hat⟩
  intro hdrains
  induction hdrains generalizing pos k with
  | fails hread =>
    obtain ⟨g, k', hread', -⟩ := hempty h
    cases hread'.symm.trans hread
  | all hread hlen =>
    obtain ⟨g, k', hread', -⟩ := hempty h
    cases hread'.symm.trans hread
    exact hn hlen.symm
  | more hread hlt _ ih =>
    obtain ⟨g, k', hread', hat⟩ := hempty h
    cases hread'.symm.trans hread
    exact ih hat hn

/-! ### A part of one byte -/

/-- The byte is in the old file. -/
def oneByteLink : RsyncChainLink NormalFile NormalFile where
  streams := ⟨NormalFile.new [7] ⟨fun _ => 1, fun _ => true⟩ 1,
    NormalFile.new [] ⟨fun _ => 1, fun _ => true⟩ 2⟩
  parts := [⟨⟨0, 0, 1⟩, 0⟩]
  current := 0
  offset := 0

/-- The byte should be in the physical file, which has been cut short. -/
def truncatedFile : SparseFile NormalFile :=
  SparseFile.new (NormalFile.new [] ⟨fun _ => 1, fun _ => true⟩ 1) [⟨0, 0, 1⟩] 0

/-- The byte is read. -/
theorem readLoop_ends_oneByteLink :
    ∃ fuel r, oneByteLink.readLoop NormalFile.stream NormalFile.stream 5 fuel 1 [] = .ok r := by
  obtain ⟨f, k, -, hread, -⟩ := (NormalFile.at_new [7] ⟨fun _ => 1, fun _ => true⟩ 1).read 1
  refine ((readLoop_ends_iff NormalFile.modest_stream NormalFile.modest_stream
    NormalFile.modest_stream).2 oneByteLink 1).mpr
    (Or.inr ⟨⟨⟨0, 0, 1⟩, 0⟩, rfl, true, { oneByteLink.streams with oldFile := f }, ?_,
      fun _ _ next hnext => by cases hnext⟩) 5
  have hread' : NormalFile.stream.read oneByteLink.streams.oldFile 1 = .ok (true, [7], f) :=
    NormalFile.read_stream.mpr hread
  have hroom : min 1 (oneByteLink.room RsyncChainLink.Part.toPart ⟨⟨0, 0, 1⟩, 0⟩) = 1 := by
    norm_num [Parted.room, oneByteLink, subU64]
  rw [hroom]
  refine Drains.all (show RsyncChainLink.readPart NormalFile.stream NormalFile.stream
    ⟨⟨0, 0, 1⟩, 0⟩ oneByteLink.streams 1 = .ok (true, [7], _) from ?_) rfl
  rw [RsyncChainLink.readPart, RsyncChainLink.onStream]
  simp only [hread', if_true]
  rfl

/-- A read from a file that has been cut short never ends, and one from a link without parts reads
a part that is not there. -/
theorem readLoop_does_not_end :
    (¬ ∃ fuel r, truncatedFile.readLoop NormalFile.stream fuel 1 [] = .ok r) ∧
      ∀ garbage, (RsyncChainLink.new 0 0 []).readLoop (bytesStream [7]) (bytesStream []) garbage 1 1
        [] = .error .outOfRange := by
  refine ⟨?_, fun garbage => rfl⟩
  rw [SparseFile.exists_readLoop_iff NormalFile.modest_stream (by norm_num [truncatedFile,
    SparseFile.new])]
  rintro (hsize | ⟨part, hpart, ok, f, hdrains, -⟩)
  · exact Nat.one_ne_zero hsize
  · obtain rfl : ⟨0, 0, 1⟩ = part := Option.some.inj hpart
    have hroom : min 1 (truncatedFile.room id ⟨0, 0, 1⟩) = 1 := by
      norm_num [Parted.room, truncatedFile, SparseFile.new, subU64]
    rw [hroom] at hdrains
    exact not_drains_of_empty (NormalFile.at_new [] _ 1) Nat.one_ne_zero hdrains

end Rsync

end BackupProgram
