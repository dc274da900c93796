import Mathlib

/-!
# Numbers in little-endian byte order

A number is stored in a fixed count of bytes, the least significant one first; what does not fit is
cut off. Texts whose units are wider than a byte are stored unit by unit.
-/

namespace LittleEndian

/-- The lowest `width` bytes of a number. -/
def encode : Nat → Nat → List UInt8
  | 0, _ => []
  | width + 1, n => UInt8.ofNat n :: encode width (n / 256)

def decode : List UInt8 → Nat
  | [] => 0
  | b :: bytes => b.toNat + 256 * decode bytes

@[simp] lemma length_encode (width n : Nat) : (encode width n).length = width := by
  induction width generalizing n with
  | zero => rfl
  | succ width ih => rw [encode, List.length_cons, ih]

lemma decode_encode (width n : Nat) : decode (encode width n) = n % 256 ^ width := by
  induction width generalizing n with
  | zero => rw [encode, decode, pow_zero, Nat.mod_one]
  | succ width ih =>
    have hbyte : (UInt8.ofNat n).toNat = n % 256 := UInt8.toNat_ofNat'
    rw [encode, decode, ih, hbyte, pow_succ', Nat.mod_mul]

/-- A number that fits is read as it was written. -/
lemma decode_encode_of_lt {width n : Nat} (h : n < 256 ^ width) : decode (encode width n) = n := by
  rw [decode_encode, Nat.mod_eq_of_lt h]

/-! ### Texts in units of 16 bits -/

def encodeText (text : List UInt16) : List UInt8 := text.flatMap fun c => encode 2 c.toNat

/-- A single byte at the end is no unit. -/
def decodeText : List UInt8 → List UInt16
  | b :: b' :: bytes => UInt16.ofNat (decode [b, b']) :: decodeText bytes
  | _ => []

@[simp] lemma length_encodeText (text : List UInt16) :
    (encodeText text).length = 2 * text.length := by
  induction text with
  | nil => rfl
  | cons c text ih =>
    rw [encodeText, List.flatMap_cons, List.length_append, length_encode, List.length_cons]
    rw [encodeText] at ih
    omega

@[simp] lemma decodeText_encodeText (text : List UInt16) : decodeText (encodeText text) = text := by
  induction text with
  | nil => rfl
  | cons c text ih =>
    have hunit : decode (encode 2 c.toNat) = c.toNat := decode_encode_of_lt c.toNat_lt
    rw [encodeText] at ih
    simp only [encode] at hunit ih
    simp only [encodeText, List.flatMap_cons, encode, List.cons_append, List.nil_append, decodeText,
      hunit, ih, UInt16.ofNat_toNat]

end LittleEndian
