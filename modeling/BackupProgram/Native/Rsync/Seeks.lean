import BackupProgram.Native.Rsync.Reads

/-!
# When a failed seek changes nothing

Both classes set the current part before they ask the stream below. If that stream refuses the
offset, the seek fails and the current part stays where it is.
-/

namespace BackupProgram

namespace Rsync

open Loops

/-- A seek that fails leaves the stream as it was. -/
def Stream.KeepsOnFailure {σ : Type} (S : Stream σ) : Prop :=
  ∀ s offset s', S.seek s offset = .ok (false, s') → s' = s

inductive Call where
  | read (size : Nat)
  | eof

inductive Result where
  | read (r : Except Fault (Bool × List Byte))
  | eof (ret : Bool)

namespace Parted

variable {β P : Type}

/-- The results of the calls, one after the other, up to a read that does not return. -/
def results (read : Parted β P → Nat → Except Fault (Bool × List Byte × Parted β P)) :
    Parted β P → List Call → List Result
  | _, [] => []
  | s, .eof :: calls => .eof s.eof :: results read s calls
  | s, .read size :: calls =>
    match read s size with
    | .error e => [.read (.error e)]
    | .ok (ok, bytes, s') => .read (.ok (ok, bytes)) :: results read s' calls

lemma results_read (read : Parted β P → Nat → Except Fault (Bool × List Byte × Parted β P))
    (s : Parted β P) (size : Nat) :
    results read s [.read size] = [.read ((read s size).map fun r => (r.1, r.2.1))] := by
  rw [results]
  rcases read s size with e | ⟨ok, bytes, s'⟩ <;> rfl

end Parted

/-- The results of calls on a sparse file. -/
abbrev SparseFile.results {σ : Type} (base : Stream σ) (fuel : Nat) :
    SparseFile σ → List Call → List Result :=
  Parted.results fun f size => SparseFile.readLoop base fuel f size []

/-- The results of calls on a link. -/
abbrev RsyncChainLink.results {σ τ : Type} (old : Stream σ) (new : Stream τ) (garbage fuel : Nat) :
    RsyncChainLink σ τ → List Call → List Result :=
  Parted.results fun link size => RsyncChainLink.readLoop old new garbage fuel link size []

/-! ### Sparse files -/

namespace SparseFile

variable {σ : Type} {base : Stream σ} {f f' : SparseFile σ} {v : Nat}

lemma readLoop_zero_size (base : Stream σ) (fuel : Nat) (f : SparseFile σ) :
    f.readLoop base (fuel + 1) 0 [] = .ok (true, [], f) := rfl

lemma readLoop_error_of_outside (base : Stream σ) (h : f.parts.length ≤ f.current) {size : Nat}
    (hsize : size ≠ 0) (fuel : Nat) :
    f.readLoop base (fuel + 1) size [] = .error .outOfRange := by
  rw [readLoop, loop, Parted.readRound_of_outside h hsize]

/-- With the place outside the list it does not matter where it is. -/
lemma results_of_outside (h : f.parts.length ≤ f.current) (h' : f'.parts.length ≤ f'.current)
    (fuel : Nat) (calls : List Call) :
    results base fuel f' calls = results base fuel f calls := by
  induction calls with
  | nil => rfl
  | cons call calls ih =>
    cases call with
    | eof =>
      have heof : f.eof = true := decide_eq_true h
      have heof' : f'.eof = true := decide_eq_true h'
      change Result.eof f'.eof :: results base fuel f' calls =
        Result.eof f.eof :: results base fuel f calls
      rw [heof, heof', ih]
    | read size =>
      rw [results, Parted.results, Parted.results]
      cases fuel with
      | zero => rfl
      | succ fuel =>
        by_cases hsize : size = 0
        · subst hsize
          simp only [readLoop_zero_size, ih]
        · simp only [readLoop_error_of_outside base h hsize,
            readLoop_error_of_outside base h' hsize]

/-- A failed seek changes nothing if, and only if, no part is found, or the base class does not
refuse the offset in it, or the place is outside the list already. -/
lemma seek_keeps_iff (base : Stream σ) (hlen : f.parts.length < 2 ^ 63) (v : Nat) :
    (∀ f', f.seek base v = .ok (false, f') →
        ∀ fuel calls, results base fuel f' calls = results base fuel f calls) ↔
      ∀ containingPart physicalOffset,
        f.transformOffset v = some (containingPart, physicalOffset) →
          (∀ streams, base.seek f.streams physicalOffset ≠ .ok (false, streams)) ∨
            f.parts.length ≤ f.current := by
  constructor
  · intro h containingPart physicalOffset hfind
    rw [or_iff_not_imp_right]
    intro hinside streams hrefused
    have hoff := length_le_of_transformOffset hlen hfind
    have hresults := h _ (seek_of_some hfind hrefused) 0 [.eof]
    simp only [results, Parted.results, List.cons.injEq, Result.eof.injEq, and_true, Parted.eof,
      decide_eq_decide] at hresults
    exact hinside (hresults.mp hoff)
  · intro h f' hseek fuel calls
    rcases hfind : f.transformOffset v with _ | ⟨containingPart, physicalOffset⟩
    · rw [seek_of_none base hfind] at hseek
      cases hseek
      rfl
    · rcases hrefused : base.seek f.streams physicalOffset with e | ⟨ret, streams⟩
      · rw [seek, hfind] at hseek
        simp only [hrefused] at hseek
        cases hseek
      · rw [seek_of_some hfind hrefused] at hseek
        obtain ⟨rfl, rfl⟩ := Prod.mk.inj (Except.ok.inj hseek)
        refine results_of_outside ((h _ _ hfind).resolve_left fun hnot => hnot streams hrefused) ?_
          fuel calls
        exact length_le_of_transformOffset hlen hfind

end SparseFile

/-! ### A stream of zeros -/

/-- A stream that never ends and cannot be sought. -/
def zeros : Stream Unit where
  seek _ _ := .ok (false, ())
  read _ size := .ok (true, List.replicate size 0, ())

lemma keepsOnFailure_zeros : zeros.KeepsOnFailure := fun _ _ _ _ => rfl

namespace RsyncChainLink

variable {σ τ : Type} {old : Stream σ} {new : Stream τ} {parts : List Part} {i garbage : Nat}

lemma seek_of_none {link : RsyncChainLink σ τ} {v : Nat} (h : link.transformOffset v = none)
    {part : Part} (hpart : link.parts[garbage]? = some part) {ret : Bool} {files : Files σ τ}
    (hseek : onStream part (old.seek · v) (new.seek · v) link.streams = .ok (ret, files)) :
    link.seek old new garbage v = .ok (ret,
      { link with
        streams := files
        current := garbage
        offset := if ret then v else link.offset }) := by
  rw [seek, h]
  simp only [hpart, hseek, bind, Except.bind, pure, Except.pure]
  cases ret <;> rfl

lemma seek_of_none_of_outside (old : Stream σ) (new : Stream τ) {link : RsyncChainLink σ τ}
    {v : Nat} (h : link.transformOffset v = none) (hgarbage : link.parts[garbage]? = none) :
    link.seek old new garbage v = .error .outOfRange := by
  rw [seek, h]
  simp only [hgarbage]
  rfl

lemma readPart_zeros (part : Part) (files : Files Unit Unit) (n : Nat) :
    readPart zeros zeros part files n = .ok (true, List.replicate n 0, files) := by
  rw [readPart, onStream]
  split_ifs <;> rfl

lemma onStream_zeros (part : Part) (files : Files Unit Unit) (v : Nat) :
    onStream part (zeros.seek · v) (zeros.seek · v) files = .ok (false, files) := by
  rw [onStream]
  split_ifs <;> rfl

/-- No seek succeeds on a link over two such streams. -/
lemma exists_seek_zeros (hgarbage : garbage < parts.length) (link : RsyncChainLink Unit Unit)
    (hparts : link.parts = parts) (v : Nat) :
    ∃ link', link.seek zeros zeros garbage v = .ok (false, link') := by
  rcases hfind : link.transformOffset v with _ | found
  · obtain ⟨part, hpart⟩ : ∃ part, link.parts[garbage]? = some part :=
      ⟨parts.get ⟨garbage, hgarbage⟩, by simp [hparts, hgarbage]⟩
    exact ⟨_, seek_of_none hfind hpart (onStream_zeros part link.streams v)⟩
  · exact ⟨link, seek_of_transformOffset zeros zeros garbage hfind⟩

/-- A link over two streams of zeros. -/
def zerosLink (parts : List Part) (current offset : Nat) : RsyncChainLink Unit Unit :=
  ⟨⟨(), ()⟩, parts, current, offset⟩

/-- The last part is read to its end, and the link is at its end. -/
lemma results_zeros_last (offset : Nat) {part : Part} (hpart : parts[i]? = some part)
    (hlast : parts[i + 1]? = none) {n : Nat} (hn : n ≠ 0)
    (hroom : (zerosLink parts i offset).room Part.toPart part ≤ n) :
    results zeros zeros garbage 2 (zerosLink parts i offset) [.read n, .eof] =
      [.read (.ok (true, List.replicate ((zerosLink parts i offset).room Part.toPart part) 0)),
        .eof true] := by
  have hread := readPart_zeros part (zerosLink parts i offset).streams
    (min n ((zerosLink parts i offset).room Part.toPart part))
  have hround := Parted.readRound_last (seek zeros zeros garbage) [] hpart hn hread
    (by rw [List.length_replicate, Nat.min_eq_right hroom]) hlast
  rw [Nat.min_eq_right hroom, List.nil_append] at hround
  have heof : ((zerosLink parts i offset).leave Part.toPart part
      (zerosLink parts i offset).streams).eof = true :=
    decide_eq_true (List.getElem?_eq_none_iff.mp hlast)
  rw [results, Parted.results]
  simp only [readLoop, loop_of_done hround, Parted.results, heof]

/-- After a read from any other part the link is not at its end, or the read has failed. -/
lemma results_zeros_ne (offset : Nat) {part next : Part} (hpart : parts[i]? = some part)
    (hnext : parts[i + 1]? = some next) (hgarbage : garbage < parts.length) {n : Nat} (hn : n ≠ 0)
    (bytes : List Byte) :
    results zeros zeros garbage 2 (zerosLink parts i offset) [.read n, .eof] ≠
      [.read (.ok (true, bytes)), .eof true] := by
  have hread := readPart_zeros part (zerosLink parts i offset).streams
    (min n ((zerosLink parts i offset).room Part.toPart part))
  rcases Nat.lt_or_ge n ((zerosLink parts i offset).room Part.toPart part) with hlt | hge
  · -- nothing is left to read, and the part goes on
    have hround := Parted.readRound_again (seek zeros zeros garbage) [] hpart hn hread
      (by rw [List.length_replicate]; omega)
    rw [List.length_replicate, Nat.min_eq_left hlt.le, Nat.sub_self, List.nil_append] at hround
    have heof : (decide ((zerosLink parts i offset).current ≥
        (zerosLink parts i offset).parts.length)) = false :=
      decide_eq_false (not_le.mpr (List.getElem?_eq_some_iff.mp hpart).1)
    rw [results, Parted.results]
    simp only [readLoop, loop_of_again hround, loop_of_done (Parted.readRound_zero _ _),
      Parted.results, Parted.eof, heof]
    simp
  · -- the seek to the next part fails
    have hround := Parted.readRound_next (seek zeros zeros garbage) [] hpart hn hread
      (by rw [List.length_replicate, Nat.min_eq_right hge]) hnext
    obtain ⟨link', hseek⟩ := exists_seek_zeros hgarbage
      ((zerosLink parts i offset).leave Part.toPart part (zerosLink parts i offset).streams) rfl
      next.virtualOffset
    rw [hseek] at hround
    rw [results, Parted.results]
    simp only [readLoop, loop_of_done hround]
    simp

/-! ### Links -/

/-- Whatever the streams of a link are, as long as they keep their state when a seek fails, and
whatever the variables hold that are not set: if a seek on the link fails, later calls give the same
results as without it. -/
def SeekKeeps (parts : List Part) (current offset v : Nat) : Prop :=
  ∀ (σ τ : Type) (old : Stream σ) (new : Stream τ), old.KeepsOnFailure → new.KeepsOnFailure →
    ∀ (files : Files σ τ) (garbage garbage' : Nat) (link' : RsyncChainLink σ τ),
      seek old new garbage ⟨files, parts, current, offset⟩ v = .ok (false, link') →
        ∀ fuel calls, results old new garbage' fuel link' calls =
          results old new garbage' fuel ⟨files, parts, current, offset⟩ calls

lemma files_of_onStream (hold : old.KeepsOnFailure) (hnew : new.KeepsOnFailure) {part : Part}
    {files files' : Files σ τ} {v : Nat}
    (h : onStream part (old.seek · v) (new.seek · v) files = .ok (false, files')) :
    files' = files := by
  rw [onStream] at h
  split_ifs at h
  · rcases hseek : old.seek files.oldFile v with e | ⟨ret, s⟩
    · rw [hseek] at h
      cases h
    · rw [hseek] at h
      obtain ⟨rfl, rfl⟩ := Prod.mk.inj (Except.ok.inj h)
      rw [hold _ _ _ hseek]
  · rcases hseek : new.seek files.newFile v with e | ⟨ret, s⟩
    · rw [hseek] at h
      cases h
    · rw [hseek] at h
      obtain ⟨rfl, rfl⟩ := Prod.mk.inj (Except.ok.inj h)
      rw [hnew _ _ _ hseek]

/-- A seek that fails without having found a part has moved to whatever part the variable named. -/
lemma eq_of_seek_of_none (hold : old.KeepsOnFailure) (hnew : new.KeepsOnFailure)
    {link link' : RsyncChainLink σ τ} {v : Nat} (hnone : link.transformOffset v = none)
    (h : link.seek old new garbage v = .ok (false, link')) :
    garbage < link.parts.length ∧ link' = { link with current := garbage } := by
  rcases hpart : link.parts[garbage]? with _ | part
  · rw [seek_of_none_of_outside old new hnone hpart] at h
    cases h
  · refine ⟨(List.getElem?_eq_some_iff.mp hpart).1, ?_⟩
    rcases hseek : onStream part (old.seek · v) (new.seek · v) link.streams with e | ⟨ret, files⟩
    · rw [seek, hnone] at h
      simp only [hpart, hseek] at h
      cases h
    · rw [seek_of_none hnone hpart hseek] at h
      obtain ⟨rfl, rfl⟩ := Prod.mk.inj (Except.ok.inj h)
      rw [files_of_onStream hold hnew hseek]
      rfl

/-- If no part is found and the place can change, there are two places between which it matters:
one of them is the last part. -/
lemma not_seekKeeps {parts : List Part} {current v : Nat} (offset : Nat)
    (hnone : Parted.transformOffset id (parts.map Part.toPart) v = none) (hparts : parts ≠ [])
    (hplace : ¬ (parts.length = 1 ∧ current = 0)) : ¬ SeekKeeps parts current offset v := by
  intro h
  have hlen : 0 < parts.length := List.length_pos_iff.mpr hparts
  have hget : ∀ k, k < parts.length → ∃ part, parts[k]? = some part := fun k hk =>
    ⟨parts.get ⟨k, hk⟩, by simp [hk]⟩
  have hmove : ∀ garbage, garbage < parts.length →
      ∀ calls, results zeros zeros garbage 2 (zerosLink parts garbage offset) calls =
        results zeros zeros garbage 2 (zerosLink parts current offset) calls := by
    intro garbage hgarbage calls
    obtain ⟨part, hpart⟩ := hget garbage hgarbage
    have hnone' : (zerosLink parts current offset).transformOffset v = none := hnone
    exact h Unit Unit zeros zeros keepsOnFailure_zeros keepsOnFailure_zeros
      ⟨(), ()⟩ garbage garbage _
      (seek_of_none hnone' hpart (onStream_zeros part _ v)) 2 calls
  obtain ⟨last, hlast⟩ := hget (parts.length - 1) (by omega)
  have hend : parts[parts.length - 1 + 1]? = none := List.getElem?_eq_none (by omega)
  -- what is read from the last part, with the place there
  have hread : ∀ garbage, results zeros zeros garbage 2 (zerosLink parts (parts.length - 1) offset)
      [.read (max 1 ((zerosLink parts (parts.length - 1) offset).room Part.toPart last)), .eof] =
        [.read (.ok (true, List.replicate
          ((zerosLink parts (parts.length - 1) offset).room Part.toPart last) 0)), .eof true] :=
    fun garbage => results_zeros_last offset hlast hend (by omega) (le_max_right _ _)
  rcases Nat.lt_or_ge current parts.length with hlt | hge
  · obtain ⟨part, hpart⟩ := hget current hlt
    by_cases hcurrent : current = parts.length - 1
    · -- from the last part to the first one
      subst hcurrent
      obtain ⟨first, hfirst⟩ := hget 0 hlen
      obtain ⟨next, hnext⟩ := hget (0 + 1) (by omega)
      exact results_zeros_ne offset hfirst hnext hlen (by omega) _
        ((hmove 0 hlen _).trans (hread 0))
    · -- from another part to the last one
      obtain ⟨next, hnext⟩ := hget (current + 1) (by omega)
      exact results_zeros_ne offset hpart hnext (by omega) (by omega) _
        ((hmove (parts.length - 1) (by omega) _).symm.trans (hread _))
  · -- from behind the last part
    have heof := hmove 0 hlen [.eof]
    have heof' : decide (0 ≥ parts.length) = decide (current ≥ parts.length) :=
      Result.eof.inj (List.cons.inj heof).1
    rw [decide_eq_decide] at heof'
    omega

lemma seekKeeps_iff (parts : List Part) (current offset v : Nat) :
    SeekKeeps parts current offset v ↔
      (Parted.transformOffset id (parts.map Part.toPart) v).isSome ∨ parts = [] ∨
        (parts.length = 1 ∧ current = 0) := by
  rcases hfind : Parted.transformOffset id (parts.map Part.toPart) v with _ | found
  · rw [Option.isSome_none, Bool.false_eq_true, false_or]
    constructor
    · intro h
      rw [or_iff_not_imp_left]
      intro hparts
      by_contra hplace
      exact not_seekKeeps offset hfind hparts hplace h
    · intro hplace σ τ old new hold hnew files garbage garbage' link' hseek fuel calls
      have hnone : RsyncChainLink.transformOffset ⟨files, parts, current, offset⟩ v = none := hfind
      obtain ⟨hlt, rfl⟩ := eq_of_seek_of_none hold hnew hnone hseek
      rcases hplace with rfl | ⟨hlen, rfl⟩
      · cases hlt
      · obtain rfl : garbage = 0 := by
          change garbage < parts.length at hlt
          omega
        rfl
  · refine iff_of_true ?_ (Or.inl rfl)
    intro σ τ old new hold hnew files garbage garbage' link' hseek fuel calls
    have hsome : RsyncChainLink.transformOffset ⟨files, parts, current, offset⟩ v = some found :=
      hfind
    rw [seek_of_transformOffset old new garbage hsome] at hseek
    cases hseek
    rfl

end RsyncChainLink

/-! ### Failed seeks -/

/-- When a failed seek of a sparse file changes nothing, and when one of a link does not. -/
theorem failed_seek_keeps_iff {σ : Type} (base : Stream σ) {f : SparseFile σ}
    (hlen : f.parts.length < 2 ^ 63) (parts : List RsyncChainLink.Part) (current offset v : Nat) :
    ((∀ f', f.seek base v = .ok (false, f') → ∀ fuel calls,
        SparseFile.results base fuel f' calls = SparseFile.results base fuel f calls) ↔
      ∀ containingPart physicalOffset,
        f.transformOffset v = some (containingPart, physicalOffset) →
          (∀ streams, base.seek f.streams physicalOffset ≠ .ok (false, streams)) ∨
            f.parts.length ≤ f.current) ∧
    (RsyncChainLink.SeekKeeps parts current offset v ↔
      (Parted.transformOffset id (parts.map RsyncChainLink.Part.toPart) v).isSome ∨ parts = [] ∨
        (parts.length = 1 ∧ current = 0)) :=
  ⟨SparseFile.seek_keeps_iff base hlen v, RsyncChainLink.seekKeeps_iff parts current offset v⟩

/-! ### One byte of each file -/

/-- One part, stored at the offset 5 of a file that is shorter. -/
def shortFile : SparseFile Nat := SparseFile.new 0 [⟨5, 0, 1⟩] 0

/-- A seek behind the only part finds nothing, and changes nothing. -/
theorem failed_seek_keeps_shortFile :
    (∀ f', shortFile.seek (bytesStream [7]) 1 = .ok (false, f') → ∀ fuel calls,
      SparseFile.results (bytesStream [7]) fuel f' calls =
        SparseFile.results (bytesStream [7]) fuel shortFile calls) ∧
    RsyncChainLink.SeekKeeps [⟨⟨0, 0, 1⟩, 0⟩] 0 0 1 := by
  have hlen : shortFile.parts.length < 2 ^ 63 := by norm_num [shortFile, SparseFile.new]
  obtain ⟨hfile, hlink⟩ := failed_seek_keeps_iff (bytesStream [7]) hlen [⟨⟨0, 0, 1⟩, 0⟩] 0 0 1
  refine ⟨hfile.mpr fun containingPart physicalOffset h => ?_,
    hlink.mpr (Or.inr (Or.inr ⟨rfl, rfl⟩))⟩
  rw [show shortFile.transformOffset 1 = none by decide +kernel] at h
  cases h

/-- The first byte of the old file and the first one of the new file. -/
def twoBytesLink : RsyncChainLink Nat Nat :=
  ⟨⟨0, 0⟩, [⟨⟨0, 0, 1⟩, 0⟩, ⟨⟨0, 1, 1⟩, 1⟩], 0, 0⟩

/-- A seek that fails makes a sparse file end, and a link read the byte of another file. -/
theorem failed_seek_changes :
    (shortFile.seek (bytesStream [7]) 0 = .ok (false, { shortFile with current := 2 ^ 64 - 1 }) ∧
      SparseFile.results (bytesStream [7]) 2 { shortFile with current := 2 ^ 64 - 1 } [.eof] ≠
        SparseFile.results (bytesStream [7]) 2 shortFile [.eof]) ∧
    twoBytesLink.seek (bytesStream [7]) (bytesStream [8]) 1 2 =
        .ok (false, { twoBytesLink with current := 1 }) ∧
      RsyncChainLink.results (bytesStream [7]) (bytesStream [8]) 1 2
          { twoBytesLink with current := 1 } [.read 1] ≠
        RsyncChainLink.results (bytesStream [7]) (bytesStream [8]) 1 2 twoBytesLink [.read 1] := by
  have hfind : shortFile.transformOffset 0 = some (2 ^ 64 - 1, 5) := by decide +kernel
  have hnone : twoBytesLink.transformOffset 2 = none := by decide +kernel
  refine ⟨⟨SparseFile.seek_of_some hfind rfl, ?_⟩, RsyncChainLink.seek_of_none hnone rfl rfl, ?_⟩
  · intro h
    have heof := Result.eof.inj (List.cons.inj h).1
    revert heof
    decide +kernel
  · rw [RsyncChainLink.results, Parted.results_read, Parted.results_read]
    intro h
    have hread := Result.read.inj (List.cons.inj h).1
    revert hread
    decide +kernel

end Rsync

end BackupProgram
