import BackupProgram.Lib.TextLines
import BackupProgram.Native.StreamBlockReader.Partition

/-!
# Splitting a file into lines

The lines are found while the file goes by in blocks, and are sorted in the end, so that equal ones
stand together.
-/

namespace BackupProgram

/-- The value of a `char`. -/
def charValue (c : Byte) : Int := c.toInt8.toInt

def strcmp2 : List Byte → List Byte → Int
  | a :: as, b :: bs =>
    let diff := charValue a - charValue b
    if diff ≠ 0 then diff else strcmp2 as bs
  | [], _ :: _ => -1
  | _ :: _, [] => 1
  | [], [] => 0

structure TextFileLine where
  hash : BitVec 64
  offset : Nat
  string : List Byte
deriving DecidableEq

namespace TextFileLine

/-- `operator<` -/
def lt (a b : TextFileLine) : Bool :=
  if a.hash < b.hash then true
  else if a.hash > b.hash then false
  else
    let cmp := strcmp2 a.string b.string
    if cmp < 0 then true
    else if cmp > 0 then false
    else a.offset < b.offset

end TextFileLine

/-- A machine word has 64 bits; the characters are extended with their signs. -/
def simpleHash (string : List Byte) : BitVec 64 :=
  string.foldl (fun ret c => (ret * 0x8BADF00DDEADBEEF) ^^^ BitVec.ofInt 64 (charValue c)) 0xF00BA8

def toTextFileLine (string : List Byte) (offset : Nat) : TextFileLine where
  hash := simpleHash string
  offset := offset
  string := string

def carriageReturn : Byte := 13

def lineFeed : Byte := 10

/-- The variables of `split_file`. -/
structure SplitState where
  ret : List TextFileLine
  accumulator : List Byte
  cr : Bool
  startOffset : Nat

namespace SplitState

def start : SplitState := ⟨[], [], false, 0⟩

def pushLine (s : SplitState) : SplitState where
  ret := s.ret ++ [toTextFileLine s.accumulator s.startOffset]
  accumulator := []
  cr := s.cr
  startOffset := s.startOffset + s.accumulator.length

/-- What is done when the last byte was a carriage return. -/
def afterCr (s : SplitState) (c : Byte) : SplitState :=
  if s.cr then
    if c ≠ lineFeed then pushLine { s with cr := false } else { s with cr := false }
  else s

/-- One byte. -/
def splitByte (s : SplitState) (c : Byte) : SplitState :=
  let s := s.afterCr c
  let s := { s with accumulator := s.accumulator ++ [c] }
  if c = carriageReturn then { s with cr := true }
  else if c = lineFeed then s.pushLine
  else s

/-- The callback that is given a piece of a block. -/
def splitPiece (s : SplitState) (piece : List Byte) : SplitState := piece.foldl splitByte s

end SplitState

/-- The loop over the blocks; there is no result if `calls` calls, or `rounds` rounds within one of
them, do not suffice. -/
def splitBlocks (rounds : Nat) :
    Nat → BlockByBlockReader → CircularBuffer → SplitState → Option SplitState
  | 0, _, _, _ => none
  | calls + 1, reader, temp, s =>
    if reader.eof then some s
    else do
      let (ret, reader, temp) ← reader.nextBlockWithin rounds temp
      if ret then splitBlocks rounds calls reader temp (temp.processWhole SplitState.splitPiece s)
      else pure s

/-- `std::sort` by `operator<`, which is a total order. -/
def sortLines (lines : List TextFileLine) : List TextFileLine :=
  lines.insertionSort fun a b => ¬ b.lt a

def splitFile (rounds calls : Nat) (reader : BlockByBlockReader) : Option (List TextFileLine) := do
  let s ← splitBlocks rounds calls reader (CircularBuffer.new 1) .start
  return sortLines (s.ret ++ [toTextFileLine s.accumulator s.startOffset])

/-! ### The blocks -/

section Blocks

variable {reader : BlockByBlockReader} {rounds : Nat}

/-- However the file is cut into blocks, the bytes go by one after the other. -/
lemma splitBlocks_eq (h : reader.Valid) {temp : CircularBuffer}
    (htemp : temp.buffer.length = temp.mCapacity) (hrounds : 2 * reader.blockSize + 2 ≤ rounds)
    {calls : Nat} (hcalls : reader.rest.length < calls) (s : SplitState) :
    splitBlocks rounds calls reader temp s = some (reader.rest.foldl SplitState.splitByte s) := by
  induction calls generalizing reader temp s with
  | zero => omega
  | succ calls ih =>
    rw [splitBlocks]
    by_cases heof : reader.eof = true
    · rw [if_pos heof, h.rest_of_eof heof]
      rfl
    obtain ⟨hret, hvalid, hblockSize, hrest, hdst⟩ := BlockByBlockReader.nextBlock_spec h htemp
    rw [if_neg heof, BlockByBlockReader.nextBlockWithin_eq h htemp hrounds]
    rw [if_neg heof] at hdst
    obtain ⟨hlinear, hstart, hcapacity, hcontent⟩ := hdst
    simp only [Option.bind_eq_bind, Option.bind_some, hret]
    by_cases hnil : reader.rest = []
    · simp [hnil]
    have hpos := h.blockSize_pos
    have hlen := List.length_pos_iff.mpr hnil
    have key := ih hvalid hlinear.length_buffer (hblockSize ▸ hrounds)
      (by rw [hrest, List.length_drop]; omega)
    rw [if_pos (decide_eq_true hnil), key, CircularBuffer.processWhole,
      if_pos hlinear.start_add_size_le, ← hlinear.content_eq, hcontent, SplitState.splitPiece,
      ← List.foldl_append, hrest, List.take_append_drop]

end Blocks

/-! ### The lines in the order of the file -/

/-- Lines that follow each other from an offset on. -/
def placed : Nat → List (List Byte) → List TextFileLine
  | _, [] => []
  | offset, string :: strings =>
    toTextFileLine string offset :: placed (offset + string.length) strings

lemma map_string_placed (offset : Nat) (strings : List (List Byte)) :
    (placed offset strings).map TextFileLine.string = strings := by
  induction strings generalizing offset with
  | nil => rfl
  | cons string strings ih =>
    rw [placed, List.map_cons, ih]
    rfl

lemma placed_append (offset : Nat) (as bs : List (List Byte)) :
    placed offset (as ++ bs) = placed offset as ++ placed (offset + as.flatten.length) bs := by
  induction as generalizing offset with
  | nil => rfl
  | cons string strings ih =>
    simp only [List.cons_append, placed, ih, List.flatten_cons, List.length_append, Nat.add_assoc]

lemma hash_of_mem_placed {offset : Nat} {strings : List (List Byte)} {line : TextFileLine}
    (h : line ∈ placed offset strings) : line.hash = simpleHash line.string := by
  induction strings generalizing offset with
  | nil => cases h
  | cons string strings ih =>
    rcases List.mem_cons.mp h with rfl | h
    · rfl
    · exact ih h

namespace SplitState

/-- The state as that of a text being cut into lines. -/
def toState (s : SplitState) : TextLines.State Byte where
  found := s.ret.map TextFileLine.string
  accumulator := s.accumulator
  pending := s.cr

/-- The lines stand where their offsets say. -/
structure Placed (s : SplitState) : Prop where
  ret_eq : s.ret = placed 0 (s.ret.map TextFileLine.string)
  startOffset_eq : s.startOffset = (s.ret.map TextFileLine.string).flatten.length

lemma Placed.pushLine {s : SplitState} (h : s.Placed) : s.pushLine.Placed := by
  have hmap : (s.ret ++ [toTextFileLine s.accumulator s.startOffset]).map TextFileLine.string =
      s.ret.map TextFileLine.string ++ [s.accumulator] := by
    rw [List.map_append]
    rfl
  refine ⟨?_, ?_⟩
  · simp only [SplitState.pushLine]
    rw [hmap, placed_append, ← h.ret_eq, Nat.zero_add, ← h.startOffset_eq]
    rfl
  · simp only [SplitState.pushLine]
    rw [hmap, List.flatten_append, List.length_append, ← h.startOffset_eq, List.flatten_singleton]

lemma Placed.splitByte {s : SplitState} (h : s.Placed) (c : Byte) : (s.splitByte c).Placed := by
  have hafter : (s.afterCr c).Placed := by
    rw [afterCr]
    split_ifs
    · exact Placed.pushLine ⟨h.ret_eq, h.startOffset_eq⟩
    · exact ⟨h.ret_eq, h.startOffset_eq⟩
    · exact h
  simp only [SplitState.splitByte]
  split_ifs
  · exact ⟨hafter.ret_eq, hafter.startOffset_eq⟩
  · exact Placed.pushLine ⟨hafter.ret_eq, hafter.startOffset_eq⟩
  · exact ⟨hafter.ret_eq, hafter.startOffset_eq⟩

lemma Placed.foldl {s : SplitState} (h : s.Placed) (bytes : List Byte) :
    (bytes.foldl SplitState.splitByte s).Placed := by
  induction bytes generalizing s with
  | nil => exact h
  | cons c bytes ih => exact ih (h.splitByte c)

lemma toState_afterCr (s : SplitState) (c : Byte) :
    (s.afterCr c).toState = TextLines.settle lineFeed s.toState c := by
  obtain ⟨ret, accumulator, cr, startOffset⟩ := s
  cases cr with
  | false => simp [afterCr, toState, TextLines.settle]
  | true =>
    by_cases hc : c = lineFeed <;>
      simp [afterCr, toState, TextLines.settle, hc, pushLine, toTextFileLine]

/-- A byte does what it does to a text that is cut into lines. -/
lemma toState_splitByte (s : SplitState) (c : Byte) :
    (s.splitByte c).toState = TextLines.step carriageReturn lineFeed s.toState c := by
  rw [TextLines.step, ← toState_afterCr, TextLines.push]
  simp only [splitByte]
  split_ifs <;> simp [toState, pushLine, toTextFileLine]

lemma toState_foldl (s : SplitState) (bytes : List Byte) :
    (bytes.foldl splitByte s).toState =
      bytes.foldl (TextLines.step carriageReturn lineFeed) s.toState := by
  induction bytes generalizing s with
  | nil => rfl
  | cons c bytes ih => rw [List.foldl_cons, ih, toState_splitByte, List.foldl_cons]

end SplitState

/-- The lines of a file, with their offsets. -/
def fileLines (file : List Byte) : List TextFileLine :=
  placed 0 (TextLines.lines carriageReturn lineFeed file)

lemma fileLines_eq (file : List Byte) :
    (file.foldl SplitState.splitByte .start).ret ++
        [toTextFileLine (file.foldl SplitState.splitByte .start).accumulator
          (file.foldl SplitState.splitByte .start).startOffset] = fileLines file := by
  have hplaced := SplitState.Placed.foldl (s := .start) ⟨rfl, rfl⟩ file
  have hstate := SplitState.toState_foldl .start file
  rw [fileLines, TextLines.lines]
  rw [show SplitState.start.toState = TextLines.State.start from rfl] at hstate
  rw [← hstate, placed_append, Nat.zero_add]
  simp only [SplitState.toState]
  rw [← hplaced.ret_eq, ← hplaced.startOffset_eq]
  rfl

/-! ### Sorted lines -/

lemma charValue_injective : Function.Injective charValue := by
  intro a b h
  have := Int8.toInt_inj.mp h
  simpa using congrArg Int8.toUInt8 this

lemma strcmp2_spec (as bs : List Byte) :
    (strcmp2 as bs < 0 ↔ as.map charValue < bs.map charValue) ∧
      (0 < strcmp2 as bs ↔ bs.map charValue < as.map charValue) := by
  induction as generalizing bs with
  | nil => cases bs <;> simp [strcmp2]
  | cons a as ih =>
    cases bs with
    | nil => simp [strcmp2]
    | cons b bs =>
      simp only [strcmp2, List.map_cons, List.cons_lt_cons_iff]
      split_ifs with hdiff
      · omega
      · have heq : charValue a = charValue b := by omega
        simp [heq, ih bs]

namespace TextFileLine

/-- The hash, then the content as a sequence of `char` values, then the offset. -/
def key (a : TextFileLine) : ℕ ×ₗ (List ℤ ×ₗ ℕ) :=
  toLex (a.hash.toNat, toLex (a.string.map charValue, a.offset))

lemma lt_iff (a b : TextFileLine) : a.lt b ↔ a.key < b.key := by
  obtain ⟨hneg, hpos⟩ := strcmp2_spec a.string b.string
  simp only [key, Prod.Lex.toLex_lt_toLex, lt, BitVec.lt_def, gt_iff_lt]
  split_ifs with hless hgreater hcmp hcmp'
  · exact iff_of_true rfl (.inl hless)
  · exact iff_of_false nofun (by omega)
  · exact iff_of_true rfl (.inr ⟨by omega, .inl (hneg.mp hcmp)⟩)
  · have hlt := hpos.mp hcmp'
    exact iff_of_false nofun fun h => h.elim (fun h => hless h) fun h =>
      h.2.elim (fun h => lt_asymm h hlt) fun h => hlt.ne h.1.symm
  · have heq : a.string.map charValue = b.string.map charValue :=
      le_antisymm (not_lt.mp fun h => hcmp' (hpos.mpr h)) (not_lt.mp fun h => hcmp (hneg.mpr h))
    have hhash : a.hash.toNat = b.hash.toNat := by omega
    simp [heq, hhash]

lemma key_injective : Function.Injective key := by
  intro a b h
  obtain ⟨hash, offset, string⟩ := a
  obtain ⟨hash', offset', string'⟩ := b
  simp only [key, EmbeddingLike.apply_eq_iff_eq, Prod.mk.injEq] at h
  obtain ⟨hhash, hstring, rfl⟩ := h
  obtain rfl := BitVec.eq_of_toNat_eq hhash
  obtain rfl := charValue_injective.list_map hstring
  rfl

/-- `a` stands no later than `b` among sorted lines. -/
def Le (a b : TextFileLine) : Prop := ¬ b.lt a

instance : DecidableRel Le := fun a b => inferInstanceAs (Decidable (¬ b.lt a))

lemma le_iff (a b : TextFileLine) : a.Le b ↔ a.key ≤ b.key := by
  rw [Le, lt_iff, not_lt]

instance : Std.Total Le := ⟨fun a b => by simpa only [le_iff] using le_total a.key b.key⟩

instance : IsTrans TextFileLine Le := ⟨fun a b c => by simpa only [le_iff] using le_trans⟩

end TextFileLine

lemma sortLines_perm (lines : List TextFileLine) : (sortLines lines).Perm lines :=
  List.perm_insertionSort _ _

/-- Different lines are sorted strictly. -/
lemma sortLines_pairwise {lines : List TextFileLine} (h : lines.Nodup) :
    (sortLines lines).Pairwise fun a b => a.key < b.key := by
  have hsorted : (sortLines lines).Pairwise TextFileLine.Le :=
    List.pairwise_insertionSort TextFileLine.Le lines
  refine (hsorted.and ((sortLines_perm lines).nodup_iff.mpr h)).imp fun {a b} hab => ?_
  exact lt_of_le_of_ne ((TextFileLine.le_iff a b).mp hab.1)
    fun heq => hab.2 (TextFileLine.key_injective heq)

/-- What stands between lines of the same content has this content, too. -/
def EqualAdjacent (lines : List TextFileLine) : Prop :=
  ∀ pre a mid b post, lines = pre ++ a :: (mid ++ b :: post) → a.string = b.string →
    ∀ x ∈ mid, x.string = a.string

lemma equalAdjacent_of_pairwise {lines : List TextFileLine}
    (h : lines.Pairwise fun a b => a.key < b.key)
    (hhash : ∀ line ∈ lines, line.hash = simpleHash line.string) : EqualAdjacent lines := by
  rintro pre a mid b post rfl hstring x hx
  have hright := (List.pairwise_append.mp h).2.1
  obtain ⟨hafter, hrest⟩ := List.pairwise_cons.mp hright
  have hax := hafter x (List.mem_append_left _ hx)
  have hxb := (List.pairwise_append.mp hrest).2.2 x hx b List.mem_cons_self
  have hab : a.hash = b.hash := by
    rw [hhash a (by simp), hhash b (by simp), hstring]
  simp only [TextFileLine.key, Prod.Lex.toLex_lt_toLex, hab, hstring] at hax hxb
  have hle : b.string.map charValue ≤ x.string.map charValue := by
    rcases hax with hlt | ⟨-, hlt | ⟨heq, -⟩⟩
    · omega
    · exact hlt.le
    · exact heq.le
  have hge : x.string.map charValue ≤ b.string.map charValue := by
    rcases hxb with hlt | ⟨-, hlt | ⟨heq, -⟩⟩
    · omega
    · exact hlt.le
    · exact heq.le
  rw [hstring]
  exact charValue_injective.list_map (le_antisymm hge hle)

/-! ### The whole -/

/-- The lines of a file in their order: each stands where its offset says, all of them make up the
file, and all but the last one end with their only terminator. -/
structure LinesOf (file : List Byte) (lines : List TextFileLine) : Prop where
  increasing : lines.Pairwise fun a b => a.offset < b.offset
  flatten_eq : (lines.map TextFileLine.string).flatten = file
  offset_eq : ∀ pre line post, lines = pre ++ line :: post →
    line.offset = (pre.map TextFileLine.string).flatten.length
  hash_eq : ∀ line ∈ lines, line.hash = simpleHash line.string
  ends : ∀ pre line next post, lines = pre ++ line :: next :: post →
    TextLines.Ends carriageReturn lineFeed line.string
      ((next :: post).map TextFileLine.string).flatten

lemma offset_of_placed {pre post : List TextFileLine} {line : TextFileLine} {offset : Nat}
    {strings : List (List Byte)} (h : placed offset strings = pre ++ line :: post) :
    line.offset = offset + (pre.map TextFileLine.string).flatten.length := by
  induction pre generalizing offset strings with
  | nil =>
    cases strings with
    | nil => cases h
    | cons string strings =>
      obtain ⟨rfl, -⟩ := List.cons.inj h
      rfl
  | cons first pre ih =>
    cases strings with
    | nil => cases h
    | cons string strings =>
      obtain ⟨rfl, hrest⟩ := List.cons.inj h
      rw [ih hrest, List.map_cons, List.flatten_cons, List.length_append, Nat.add_assoc]
      rfl

lemma le_offset_of_mem_placed {offset : Nat} {strings : List (List Byte)} {line : TextFileLine}
    (h : line ∈ placed offset strings) : offset ≤ line.offset := by
  induction strings generalizing offset with
  | nil => cases h
  | cons string strings ih =>
    rcases List.mem_cons.mp h with rfl | h
    · exact le_rfl
    · exact (Nat.le_add_right _ _).trans (ih h)

/-- Only the last line may be empty. -/
lemma pairwise_placed (offset : Nat) {strings : List (List Byte)}
    (h : ∀ pre string next post, strings = pre ++ string :: next :: post → 0 < string.length) :
    (placed offset strings).Pairwise fun a b => a.offset < b.offset := by
  induction strings generalizing offset with
  | nil => exact .nil
  | cons string strings ih =>
    refine .cons (fun line hline => ?_) (ih _ fun pre s next post heq => ?_)
    · cases strings with
      | nil => cases hline
      | cons next strings =>
        have hpos := h [] string next strings rfl
        exact (Nat.lt_add_of_pos_right hpos).trans_le (le_offset_of_mem_placed hline)
    · exact h (string :: pre) s next post (by rw [heq]; rfl)

lemma linesOf_fileLines (file : List Byte) : LinesOf file (fileLines file) := by
  have hmap := map_string_placed 0 (TextLines.lines carriageReturn lineFeed file)
  have hends : ∀ pre line next post, fileLines file = pre ++ line :: next :: post →
      TextLines.Ends carriageReturn lineFeed line.string
        ((next :: post).map TextFileLine.string).flatten := by
    intro pre line next post h
    rw [← fileLines, h, List.map_append, List.map_cons, List.map_cons] at hmap
    exact TextLines.ends_of_lines (by decide) hmap.symm
  have hoffset : ∀ pre line post, fileLines file = pre ++ line :: post →
      line.offset = (pre.map TextFileLine.string).flatten.length := by
    intro pre line post h
    rw [offset_of_placed h, Nat.zero_add]
  refine ⟨?_, ?_, hoffset, fun line hline => hash_of_mem_placed hline, hends⟩
  · exact pairwise_placed 0 fun pre string next post h =>
      (TextLines.ends_of_lines (by decide) h).length_pos
  · rw [fileLines, hmap, TextLines.flatten_lines (by decide)]

/-- However a file is cut into blocks, its lines are found, each is hashed and placed as it is in
the file, and they are sorted, so that equal ones are neighbours. -/
theorem splitFile_spec (file : List Byte) (disk : DiskReads) (blockSize : Nat) :
    ∃ result lines,
      (∀ rounds calls, 2 * (BlockByBlockReader.new file disk blockSize).blockSize + 2 ≤ rounds →
        file.length < calls →
          splitFile rounds calls (BlockByBlockReader.new file disk blockSize) = some result) ∧
      LinesOf file lines ∧ result.Perm lines ∧
      result.Pairwise (fun a b => a.key < b.key) ∧ EqualAdjacent result := by
  have hvalid := BlockByBlockReader.valid_new file disk blockSize
  have hlines := linesOf_fileLines file
  have hnodup : (fileLines file).Nodup := hlines.increasing.imp fun {a b} hlt heq => by
    rw [heq] at hlt
    exact lt_irrefl _ hlt
  have hsorted := sortLines_pairwise hnodup
  have hperm := sortLines_perm (fileLines file)
  refine ⟨sortLines (fileLines file), fileLines file, fun rounds calls hrounds hcalls => ?_, hlines,
    hperm, hsorted, equalAdjacent_of_pairwise hsorted fun line hline =>
      hlines.hash_eq line (hperm.mem_iff.mp hline)⟩
  have hrest : (BlockByBlockReader.new file disk blockSize).rest = file := by
    simp [BlockByBlockReader.rest, BlockByBlockReader.new, StreamBlockReader.new]
  rw [splitFile, splitBlocks_eq hvalid rfl hrounds (by rwa [hrest]), hrest]
  simp only [Option.bind_eq_bind, Option.bind_some, fileLines_eq]
  rfl

end BackupProgram
