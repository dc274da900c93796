import BackupProgram.Lib.LittleEndian
import BackupProgram.Native.CircularBuffer
import BackupProgram.Native.Hardlinks

/-!
# Junctions

The target of a junction is written through one declaration of the reparse data and read through
another one. A device prefix is put in front of it when the junction is made, and is taken away when
the target is read.
-/

namespace BackupProgram

open CircularBuffer LittleEndian Loops Results

/-! ### Structures in memory -/

/-- A number at its place in a structure. -/
structure Field where
  offset : Nat
  width : Nat

def getField (memory : List Byte) (f : Field) : Nat := decode (slice memory f.offset f.width)

/-- What does not fit into the field is cut off. -/
def putField (memory : List Byte) (f : Field) (n : Nat) : List Byte :=
  overwrite memory f.offset (encode f.width n)

/-- `IO_REPARSE_TAG_MOUNT_POINT` -/
def mountPointTag : Nat := 0xA0000003

/-- `IO_REPARSE_TAG_SYMLINK` -/
def symlinkTag : Nat := 0xA000000C

/-- `ERROR_UNIDENTIFIED_ERROR` -/
def errorUnidentifiedError : Int := 1287

namespace ReparseMountpointDataBuffer

def reparseTag : Field := ⟨0, 4⟩
def reparseDataLength : Field := ⟨4, 2⟩
def reserved : Field := ⟨8, 2⟩
def reparseTargetLength : Field := ⟨10, 2⟩
def reparseTargetMaximumLength : Field := ⟨12, 2⟩
def reserved1 : Field := ⟨14, 2⟩
/-- Where `ReparseTarget` begins. -/
def reparseTarget : Nat := 16

end ReparseMountpointDataBuffer

namespace ReparseDataBuffer

def reparseTag : Field := ⟨0, 4⟩
def reparseDataLength : Field := ⟨4, 2⟩
def substituteNameOffset : Field := ⟨8, 2⟩
def substituteNameLength : Field := ⟨10, 2⟩
def printNameOffset : Field := ⟨12, 2⟩
def printNameLength : Field := ⟨14, 2⟩
/-- Where `PathBuffer` begins in the reparse data of symbolic links, behind the flags. -/
def symbolicLinkPathBuffer : Nat := 20
/-- Where `PathBuffer` begins in the reparse data of mount points. -/
def mountPointPathBuffer : Nat := 16
/-- How much is in front of what `ReparseDataLength` counts. -/
def headerSize : Nat := 8

end ReparseDataBuffer

/-- `\??\` -/
def devicePrefix : List WChar := [0x5C, 0x3F, 0x3F, 0x5C]

/-- The string that begins at a pointer, up to the first null. -/
def cString (text : List WChar) : List WChar := text.takeWhile (· ≠ 0)

lemma cString_eq_self {t : List WChar} (hnul : 0 ∉ t) : cString t = t := by
  refine List.takeWhile_eq_self_iff.mpr fun c hc => ?_
  simpa using fun h : c = 0 => hnul (h ▸ hc)

/-! ### Making a junction -/

section Create

open ReparseMountpointDataBuffer

/-- The buffer that `create_junction` passes to the system. -/
def createJunction (targetLocation : List WChar) : List Byte :=
  let target := devicePrefix ++ cString targetLocation
  let byteLength := target.length * 2
  let byteLengthZ := byteLength + 2
  let buffer := List.replicate (reparseTarget + byteLengthZ + 2) 0
  let buffer := putField buffer reparseTag mountPointTag
  let buffer := putField buffer reparseDataLength (byteLengthZ + 10)
  let buffer := putField buffer reserved 0
  let buffer := putField buffer reserved1 0
  let buffer := putField buffer reparseTargetLength byteLength
  let buffer := putField buffer reparseTargetMaximumLength (getField buffer reparseTargetLength + 2)
  overwrite buffer reparseTarget (encodeText target)

end Create

/-- `FSCTL_SET_REPARSE_POINT`: the reparse data are kept if they have the length they declare. -/
def fsctlSetReparsePoint (input : List Byte) : Option (List Byte) :=
  if getField input ReparseDataBuffer.reparseDataLength + ReparseDataBuffer.headerSize =
    input.length
    then some input
  else none

/-! ### Reading a target -/

section Get

open ReparseDataBuffer

/-- The buffer for the reparse data; its size has 16 bits. -/
structure TempBuffer where
  size : UInt16
  memory : List Byte

def TempBuffer.new : TempBuffer := ⟨0x4000, List.replicate 0x4000 0⟩

/-- The size is doubled. -/
def TempBuffer.grow (b : TempBuffer) : TempBuffer :=
  let size := b.size * 2
  ⟨size, b.memory.take size.toNat ++ List.replicate (size.toNat - b.memory.length) 0⟩

/-- What `internal_get_reparse_point_target` has found out. -/
inductive ReparsePoint where
  | target (targetPath : List WChar) (isSymlink : Bool)
  | unrecognized (reparseTag : Nat)
deriving DecidableEq

/-- `starts_with` and `substr`. -/
def withoutDevicePrefix (targetPath : List WChar) : List WChar :=
  if devicePrefix.isPrefixOf targetPath then targetPath.drop 4 else targetPath

/-- The substitute name in reparse data whose names begin at `pathBuffer`. -/
def substituteName (memory : List Byte) (pathBuffer : Nat) : List WChar :=
  decodeText (slice memory (pathBuffer + getField memory substituteNameOffset)
    (getField memory substituteNameLength))

def readReparsePoint (memory : List Byte) : ReparsePoint :=
  if getField memory reparseTag = symlinkTag then
    .target (withoutDevicePrefix (substituteName memory symbolicLinkPathBuffer)) true
  else if getField memory reparseTag = mountPointTag then
    .target (withoutDevicePrefix (substituteName memory mountPointPathBuffer)) false
  else .unrecognized (getField memory reparseTag)

/-- A round of the loop, when the file system keeps the reparse data `stored`: either the buffer is
large enough for them, or `ERROR_MORE_DATA` is returned. -/
def getReparsePointRound (stored : List Byte) (b : TempBuffer) :
    Except Unit (Round TempBuffer ReparsePoint) :=
  let memory := putField b.memory reparseDataLength b.size.toNat
  if stored.length ≤ b.size.toNat then .ok (.done (readReparsePoint (overwrite memory 0 stored)))
  else .ok (.again (TempBuffer.grow ⟨b.size, memory⟩))

/-- What `get_reparse_point_target` returns, the tag it reports, and the string it passes on. -/
structure ReparsePointTarget where
  ret : Int
  unrecognized : Nat
  target : List WChar
deriving DecidableEq

def getReparsePointTarget (fuel : Nat) (stored : List Byte) : Except Unit ReparsePointTarget := do
  let found ← loop () (getReparsePointRound stored) fuel .new
  return match found with
    | .target targetPath _ => ⟨0, 0, cString targetPath⟩
    | .unrecognized tag => ⟨errorUnidentifiedError, tag, []⟩

end Get

/-! ### Fields -/

variable {memory bytes : List Byte} {i j n : Nat} {f g : Field}

lemma getElem?_slice (memory : List Byte) (i n k : Nat) :
    (slice memory i n)[k]? = if k < n then memory[i + k]? else none := by
  rw [slice, List.getElem?_take, List.getElem?_drop]

lemma getElem?_overwrite (hi : i ≤ memory.length) (k : Nat) : (overwrite memory i bytes)[k]? =
    if i ≤ k ∧ k < i + bytes.length then bytes[k - i]? else memory[k]? := by
  have htake : (memory.take i).length = i := by
    rw [List.length_take]
    omega
  rw [overwrite, List.append_assoc]
  rcases Nat.lt_or_ge k i with hlt | hge
  · rw [List.getElem?_append_left (by omega), List.getElem?_take_of_lt hlt, if_neg (by omega)]
  · rw [List.getElem?_append_right (by omega), htake]
    rcases Nat.lt_or_ge k (i + bytes.length) with hlt' | hge'
    · rw [List.getElem?_append_left (by omega), if_pos ⟨hge, hlt'⟩]
    · rw [List.getElem?_append_right (by omega), if_neg (by omega), List.getElem?_drop]
      congr 1
      omega

lemma slice_overwrite_self (h : i ≤ memory.length) :
    slice (overwrite memory i bytes) i bytes.length = bytes := by
  ext1 k
  rw [getElem?_slice, getElem?_overwrite h]
  split_ifs with hk hin
  · congr 1
    omega
  · omega
  · rw [List.getElem?_eq_none (by omega)]

lemma slice_overwrite_of_disjoint (h : i ≤ memory.length)
    (hdisjoint : j + n ≤ i ∨ i + bytes.length ≤ j) :
    slice (overwrite memory i bytes) j n = slice memory j n := by
  ext1 k
  simp only [getElem?_slice, getElem?_overwrite h]
  split_ifs with hk hin
  · omega
  · rfl
  · rfl

lemma length_putField (h : f.offset + f.width ≤ memory.length) (n : Nat) :
    (putField memory f n).length = memory.length := by
  rw [putField, length_overwrite]
  rwa [length_encode]

lemma getField_putField_self (h : f.offset + f.width ≤ memory.length) (n : Nat) :
    getField (putField memory f n) f = n % 256 ^ f.width := by
  have hslice := @slice_overwrite_self memory (encode f.width n) f.offset (by omega)
  rw [length_encode] at hslice
  rw [getField, putField, hslice, decode_encode]

lemma slice_putField (h : f.offset + f.width ≤ memory.length)
    (hdisjoint : j + n ≤ f.offset ∨ f.offset + f.width ≤ j) (value : Nat) :
    slice (putField memory f value) j n = slice memory j n := by
  rw [putField, slice_overwrite_of_disjoint (by omega) (by rwa [length_encode])]

lemma getField_putField_of_disjoint (h : f.offset + f.width ≤ memory.length)
    (hdisjoint : g.offset + g.width ≤ f.offset ∨ f.offset + f.width ≤ g.offset) (value : Nat) :
    getField (putField memory f value) g = getField memory g := by
  rw [getField, slice_putField h hdisjoint, getField]

/-- The two fields have no byte in common. -/
def Field.Apart (f g : Field) : Prop :=
  f.offset + f.width ≤ g.offset ∨ g.offset + g.width ≤ f.offset

/-- Several fields are set, one after the other. -/
def putFields (memory : List Byte) (fields : List (Field × Nat)) : List Byte :=
  fields.foldl (fun memory field => putField memory field.1 field.2) memory

lemma getField_putFields_of_apart {fields : List (Field × Nat)}
    (hroom : ∀ field ∈ fields, field.1.offset + field.1.width ≤ memory.length)
    (hapart : ∀ field ∈ fields, f.Apart field.1) :
    getField (putFields memory fields) f = getField memory f := by
  induction fields generalizing memory with
  | nil => rfl
  | cons field fields ih =>
    have hfirst := hroom field List.mem_cons_self
    rw [putFields, List.foldl_cons, ← putFields, ih, getField_putField_of_disjoint hfirst
      (hapart field List.mem_cons_self)]
    · intro x hx
      exact (hroom x (List.mem_cons_of_mem _ hx)).trans (length_putField hfirst _).ge
    · exact fun x hx => hapart x (List.mem_cons_of_mem _ hx)

/-- Each of some fields that lie apart has the value it has been given. -/
lemma getField_putFields {fields : List (Field × Nat)} {value : Nat}
    (hroom : ∀ field ∈ fields, field.1.offset + field.1.width ≤ memory.length)
    (hapart : fields.Pairwise fun field field' => field.1.Apart field'.1)
    (hmem : (f, value) ∈ fields) (hvalue : value < 256 ^ f.width) :
    getField (putFields memory fields) f = value := by
  induction fields generalizing memory with
  | nil => cases hmem
  | cons field fields ih =>
    have hfirst := hroom field List.mem_cons_self
    have hroom' : ∀ x ∈ fields,
        x.1.offset + x.1.width ≤ (putField memory field.1 field.2).length := fun x hx =>
      (hroom x (List.mem_cons_of_mem _ hx)).trans (length_putField hfirst _).ge
    obtain ⟨hfield, hrest⟩ := List.pairwise_cons.mp hapart
    rw [putFields, List.foldl_cons, ← putFields]
    rcases List.mem_cons.mp hmem with rfl | hmem
    · rw [getField_putFields_of_apart hroom' hfield, getField_putField_self hfirst,
        Nat.mod_eq_of_lt hvalue]
    · exact ih hroom' hrest hmem

lemma length_putFields {fields : List (Field × Nat)}
    (hroom : ∀ field ∈ fields, field.1.offset + field.1.width ≤ memory.length) :
    (putFields memory fields).length = memory.length := by
  induction fields generalizing memory with
  | nil => rfl
  | cons field fields ih =>
    have hfirst := hroom field List.mem_cons_self
    rw [putFields, List.foldl_cons, ← putFields, ih, length_putField hfirst]
    exact fun x hx => (hroom x (List.mem_cons_of_mem _ hx)).trans (length_putField hfirst _).ge

/-- Nothing is changed behind the fields. -/
lemma drop_putFields {fields : List (Field × Nat)} {k : Nat}
    (hroom : ∀ field ∈ fields, field.1.offset + field.1.width ≤ k) (hk : k ≤ memory.length) :
    (putFields memory fields).drop k = memory.drop k := by
  induction fields generalizing memory with
  | nil => rfl
  | cons field fields ih =>
    have hfirst := hroom field List.mem_cons_self
    have hlength := length_putField (hfirst.trans hk) field.2
    rw [putFields, List.foldl_cons, ← putFields,
      ih (fun x hx => hroom x (List.mem_cons_of_mem _ hx)) (hlength ▸ hk)]
    ext1 l
    rw [List.getElem?_drop, List.getElem?_drop, putField, getElem?_overwrite (by omega),
      length_encode, if_neg (by omega)]

/-! ### The buffer of a junction -/

/-- The reparse data have their true lengths and offsets, and hold the substitute name and an empty
print name, each with a null behind it. -/
structure WellFormed (buffer : List Byte) (name : List WChar) : Prop where
  tag : getField buffer ReparseDataBuffer.reparseTag = mountPointTag
  dataLength : getField buffer ReparseDataBuffer.reparseDataLength + ReparseDataBuffer.headerSize =
    buffer.length
  substituteNameOffset : getField buffer ReparseDataBuffer.substituteNameOffset = 0
  substituteNameLength : getField buffer ReparseDataBuffer.substituteNameLength =
    (encodeText name).length
  substituteName : slice buffer ReparseDataBuffer.mountPointPathBuffer (encodeText name).length =
    encodeText name
  printNameOffset : getField buffer ReparseDataBuffer.printNameOffset = (encodeText name).length + 2
  printNameLength : getField buffer ReparseDataBuffer.printNameLength = 0
  nulls : buffer.drop (ReparseDataBuffer.mountPointPathBuffer + (encodeText name).length) =
    [0, 0, 0, 0]

section Header

open ReparseMountpointDataBuffer

/-- The fields in front of the target, with what they are set to. -/
def headerFields (byteLength : Nat) : List (Field × Nat) :=
  [(reparseTag, mountPointTag), (reparseDataLength, byteLength + 2 + 10), (reserved, 0),
    (reserved1, 0), (reparseTargetLength, byteLength), (reparseTargetMaximumLength, byteLength + 2)]

variable {byteLength : Nat}

lemma room_headerFields {field : Field × Nat} (h : field ∈ headerFields byteLength) :
    field.1.offset + field.1.width ≤ reparseTarget := by
  simp only [headerFields, List.mem_cons, List.not_mem_nil, or_false] at h
  rcases h with rfl | rfl | rfl | rfl | rfl | rfl <;>
    simp [reparseTag, reparseDataLength, reserved, reserved1, reparseTargetLength,
      reparseTargetMaximumLength, reparseTarget]

lemma apart_headerFields (byteLength : Nat) :
    (headerFields byteLength).Pairwise fun field field' => field.1.Apart field'.1 := by
  simp [headerFields, Field.Apart, reparseTag, reparseDataLength, reserved, reserved1,
    reparseTargetLength, reparseTargetMaximumLength]

/-- The size of the buffer, whose last four bytes are two nulls. -/
def junctionSize (byteLength : Nat) : Nat := reparseTarget + (byteLength + 2) + 2

lemma reparseTarget_le (byteLength : Nat) :
    reparseTarget ≤ (List.replicate (junctionSize byteLength) (0 : Byte)).length := by
  rw [List.length_replicate, junctionSize]
  omega

lemma createJunction_eq {t : List WChar} (hnul : 0 ∉ t)
    (hbyteLength : byteLength = (encodeText (devicePrefix ++ t)).length)
    (hfits : byteLength < 2 ^ 16) : createJunction t =
      overwrite (putFields (List.replicate (junctionSize byteLength) 0) (headerFields byteLength))
        reparseTarget (encodeText (devicePrefix ++ t)) := by
  have hcString := cString_eq_self hnul
  have hlength : (devicePrefix ++ t).length * 2 = byteLength := by
    rw [hbyteLength, length_encodeText, Nat.mul_comm]
  have hread : getField (putFields (List.replicate (junctionSize byteLength) 0)
      (headerFields byteLength).dropLast) reparseTargetLength = byteLength := by
    refine getField_putFields (fun field hfield => ?_)
      ((apart_headerFields byteLength).sublist (List.dropLast_sublist _)) ?_ hfits
    · exact (room_headerFields (List.dropLast_subset _ hfield)).trans (reparseTarget_le _)
    · simp [headerFields]
  simp only [createJunction, hcString, hlength]
  -- the last field is set from the one before, which is read back
  change overwrite (putField (putFields (List.replicate (junctionSize byteLength) 0)
    (headerFields byteLength).dropLast) reparseTargetMaximumLength
      (getField (putFields (List.replicate (junctionSize byteLength) 0)
        (headerFields byteLength).dropLast) reparseTargetLength + 2)) reparseTarget _ = _
  rw [hread]
  rfl

/-- A field of the header is not touched when the target is copied. -/
lemma getField_createJunction {t : List WChar} (hnul : 0 ∉ t)
    (hbyteLength : byteLength = (encodeText (devicePrefix ++ t)).length)
    (hfits : byteLength + 12 < 2 ^ 16) {value : Nat} (hmem : (f, value) ∈ headerFields byteLength)
    (hvalue : value < 256 ^ f.width) : getField (createJunction t) f = value := by
  have hroom : ∀ field ∈ headerFields byteLength, field.1.offset + field.1.width ≤
      (List.replicate (junctionSize byteLength) (0 : Byte)).length :=
    fun field hfield => (room_headerFields hfield).trans (reparseTarget_le _)
  rw [createJunction_eq hnul hbyteLength (by omega), getField, slice_overwrite_of_disjoint ?_
    (.inl (room_headerFields hmem)), ← getField,
    getField_putFields hroom (apart_headerFields byteLength) hmem hvalue]
  rw [length_putFields hroom]
  exact reparseTarget_le _

lemma wellFormed_createJunction {t : List WChar} (hnul : 0 ∉ t)
    (hfits : (encodeText (devicePrefix ++ t)).length + 12 < 2 ^ 16) :
    WellFormed (createJunction t) (devicePrefix ++ t) := by
  have hfield := fun {f : Field} {value : Nat} =>
    @getField_createJunction f _ t hnul rfl hfits value
  generalize hname : devicePrefix ++ t = name at hfits hfield
  have heq := createJunction_eq hnul rfl (by rw [hname]; omega)
  rw [hname] at heq
  have hroom : ∀ field ∈ headerFields (encodeText name).length, field.1.offset + field.1.width ≤
      (List.replicate (junctionSize (encodeText name).length) (0 : Byte)).length :=
    fun field hfield => (room_headerFields hfield).trans (reparseTarget_le _)
  have hwidth : ∀ n, n ≤ (encodeText name).length + 2 + 10 → n < 256 ^ 2 := fun n hn => by omega
  have hbuffer : (putFields (List.replicate (junctionSize (encodeText name).length) 0)
      (headerFields (encodeText name).length)).length =
        reparseTarget + (encodeText name).length + 4 := by
    rw [length_putFields hroom, List.length_replicate, junctionSize]
    omega
  have htarget : reparseTarget + (encodeText name).length ≤
      (putFields (List.replicate (junctionSize (encodeText name).length) 0)
        (headerFields (encodeText name).length)).length := by omega
  have hdata : getField (createJunction t) ReparseDataBuffer.reparseDataLength =
      (encodeText name).length + 2 + 10 := hfield (.tail _ (.head _)) (hwidth _ le_rfl)
  refine ⟨hfield (.head _) (by decide), ?_,
    hfield (.tail _ (.tail _ (.head _))) (by decide),
    hfield (.tail _ (.tail _ (.tail _ (.tail _ (.head _))))) (hwidth _ (by omega)), ?_,
    hfield (.tail _ (.tail _ (.tail _ (.tail _ (.tail _ (.head _)))))) (hwidth _ (by omega)),
    hfield (.tail _ (.tail _ (.tail _ (.head _)))) (by decide), ?_⟩
  · rw [hdata, heq, length_overwrite htarget, hbuffer, ReparseDataBuffer.headerSize, reparseTarget]
    omega
  · rw [heq]
    exact slice_overwrite_self (by omega)
  · have htake : ((putFields (List.replicate (junctionSize (encodeText name).length) 0)
        (headerFields (encodeText name).length)).take reparseTarget ++ encodeText name).length =
          reparseTarget + (encodeText name).length := by
      rw [List.length_append, List.length_take]
      omega
    have hrest : (putFields (List.replicate (junctionSize (encodeText name).length) 0)
        (headerFields (encodeText name).length)).drop (reparseTarget + (encodeText name).length) =
          [0, 0, 0, 0] := by
      rw [drop_putFields (fun field hfield => (room_headerFields hfield).trans
        (Nat.le_add_right _ _)), List.drop_replicate, junctionSize,
        show reparseTarget + ((encodeText name).length + 2) + 2 -
          (reparseTarget + (encodeText name).length) = 4 by omega]
      · rfl
      · rw [List.length_replicate, junctionSize]
        omega
    rw [heq, overwrite]
    change List.drop (reparseTarget + (encodeText name).length) _ = _
    rw [List.drop_left' htake, hrest]

end Header

/-! ### Reading it back -/

lemma slice_append_left {rest : List Byte} (h : i + n ≤ memory.length) :
    slice (memory ++ rest) i n = slice memory i n := by
  ext1 k
  simp only [getElem?_slice]
  split_ifs with hk
  · rw [List.getElem?_append_left (by omega)]
  · rfl

lemma withoutDevicePrefix_append (t : List WChar) :
    withoutDevicePrefix (devicePrefix ++ t) = t := by
  rw [withoutDevicePrefix, if_pos (List.isPrefixOf_iff_prefix.mpr (List.prefix_append _ _))]
  rfl

variable {name : List WChar}

lemma WellFormed.length_eq (h : WellFormed memory name) :
    memory.length = ReparseDataBuffer.mountPointPathBuffer + (encodeText name).length + 4 := by
  have hlength := congrArg List.length h.nulls
  rw [List.length_drop] at hlength
  simp only [List.length_cons, List.length_nil] at hlength
  omega

/-- Whatever is behind the reparse data in the buffer. -/
lemma WellFormed.readReparsePoint_append (h : WellFormed memory name) (rest : List Byte) :
    readReparsePoint (memory ++ rest) = .target (withoutDevicePrefix name) false := by
  have hlength := h.length_eq
  rw [ReparseDataBuffer.mountPointPathBuffer] at hlength
  have hfield : ∀ f : Field, f.offset + f.width ≤ 16 →
      getField (memory ++ rest) f = getField memory f := by
    intro f hf
    rw [getField, slice_append_left (by omega), getField]
  have htag := (hfield ReparseDataBuffer.reparseTag (by decide)).trans h.tag
  have hoffset := (hfield ReparseDataBuffer.substituteNameOffset (by decide)).trans
    h.substituteNameOffset
  have hnameLength := (hfield ReparseDataBuffer.substituteNameLength (by decide)).trans
    h.substituteNameLength
  have hname :
      BackupProgram.substituteName (memory ++ rest) ReparseDataBuffer.mountPointPathBuffer =
        name := by
    rw [BackupProgram.substituteName, hoffset, hnameLength, Nat.add_zero, slice_append_left,
      h.substituteName, decodeText_encodeText]
    rw [ReparseDataBuffer.mountPointPathBuffer]
    omega
  rw [readReparsePoint, htag, if_neg (by decide), if_pos rfl, hname]

lemma overwrite_zero (memory bytes : List Byte) :
    overwrite memory 0 bytes = bytes ++ memory.drop bytes.length := by
  rw [overwrite, List.take_zero, List.nil_append, Nat.zero_add]

/-- The buffer has to grow once at most. -/
lemma WellFormed.getReparsePointTarget_eq_ok (h : WellFormed memory name)
    (hsize : memory.length ≤ 2 ^ 15) {fuel : Nat} (hfuel : 2 ≤ fuel) :
    getReparsePointTarget fuel memory = .ok ⟨0, 0, cString (withoutDevicePrefix name)⟩ := by
  obtain ⟨fuel, rfl⟩ : ∃ k, fuel = k + 2 := ⟨fuel - 2, by omega⟩
  have hdone : ∀ b : TempBuffer, memory.length ≤ b.size.toNat →
      getReparsePointRound memory b = .ok (.done (.target (withoutDevicePrefix name) false)) := by
    intro b hb
    simp only [getReparsePointRound, hb, if_true, overwrite_zero, h.readReparsePoint_append]
  have hloop : loop () (getReparsePointRound memory) (fuel + 2) .new =
      .ok (.target (withoutDevicePrefix name) false) := by
    rcases Nat.lt_or_ge (TempBuffer.new.size.toNat) memory.length with hlt | hle
    · have hagain : getReparsePointRound memory .new = .ok (.again (TempBuffer.grow
          ⟨TempBuffer.new.size, putField TempBuffer.new.memory ReparseDataBuffer.reparseDataLength
            TempBuffer.new.size.toNat⟩)) := by
        simp only [getReparsePointRound, Nat.not_le.mpr hlt, if_false]
      rw [loop_of_again hagain]
      exact loop_of_done (hdone _ hsize)
    · exact loop_of_done (hdone _ hle)
  rw [getReparsePointTarget, hloop]
  rfl

/-- A junction whose reparse data are within the limit of the file system is made with reparse data
that are well formed, which the system keeps, and reading its target gives back the one it was made
with. -/
theorem createJunction_roundTrip {t : List WChar} (hnul : 0 ∉ t)
    (hfits : 2 * (devicePrefix ++ t).length + 12 ≤ 2 ^ 14) :
    WellFormed (createJunction t) (devicePrefix ++ t) ∧
      fsctlSetReparsePoint (createJunction t) = some (createJunction t) ∧
      ∀ fuel, 2 ≤ fuel → getReparsePointTarget fuel (createJunction t) = .ok ⟨0, 0, t⟩ := by
  rw [← length_encodeText] at hfits
  have h := wellFormed_createJunction hnul (by omega)
  refine ⟨h, by rw [fsctlSetReparsePoint, if_pos h.dataLength], fun fuel hfuel => ?_⟩
  have hsize : (createJunction t).length ≤ 2 ^ 15 := by
    rw [h.length_eq, ReparseDataBuffer.mountPointPathBuffer]
    omega
  have hcString : cString t = t := cString_eq_self hnul
  rw [h.getReparsePointTarget_eq_ok hsize hfuel, withoutDevicePrefix_append, hcString]

/-- A target that itself begins with the device prefix. -/
theorem createJunction_roundTrip_prefix :
    WellFormed (createJunction (devicePrefix ++ [0x43, 0x3A, 0x5C]))
        (devicePrefix ++ (devicePrefix ++ [0x43, 0x3A, 0x5C])) ∧
      fsctlSetReparsePoint (createJunction (devicePrefix ++ [0x43, 0x3A, 0x5C])) =
        some (createJunction (devicePrefix ++ [0x43, 0x3A, 0x5C])) ∧
      ∀ fuel, 2 ≤ fuel →
        getReparsePointTarget fuel (createJunction (devicePrefix ++ [0x43, 0x3A, 0x5C])) =
          .ok ⟨0, 0, devicePrefix ++ [0x43, 0x3A, 0x5C]⟩ :=
  createJunction_roundTrip (by decide) (by decide)

end BackupProgram
