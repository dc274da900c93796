import BackupProgram.Lib.Forest

/-!
# Self-delimiting codecs

A codec writes values as bytes so that a value can be read back whatever follows it. Codecs are put
together from those of the parts.
-/

structure Codec (α : Type) where
  encode : α → List UInt8
  decode : List UInt8 → Option (α × List UInt8)
  decode_encode : ∀ a rest, decode (encode a ++ rest) = some (a, rest)

namespace Codec

variable {α β : Type}

/-- A number in unary. -/
def decodeNat : List UInt8 → Option (Nat × List UInt8)
  | [] => none
  | 0 :: rest => some (0, rest)
  | _ :: rest => (decodeNat rest).map fun r => (r.1 + 1, r.2)

def nat : Codec Nat where
  encode n := List.replicate n 1 ++ [0]
  decode := decodeNat
  decode_encode n rest := by
    induction n with
    | zero => rfl
    | succ n ih =>
      rw [List.replicate_succ, List.cons_append, List.cons_append, decodeNat, ih]
      · rfl
      · decide

def pair (c : Codec α) (d : Codec β) : Codec (α × β) where
  encode p := c.encode p.1 ++ d.encode p.2
  decode bytes := (c.decode bytes).bind fun r =>
    (d.decode r.2).map fun r' => ((r.1, r'.1), r'.2)
  decode_encode p rest := by
    rw [List.append_assoc, c.decode_encode, Option.bind_some, d.decode_encode, Option.map_some]

/-- A value is written as another one that determines it. -/
def via (f : β → α) (g : α → β) (h : ∀ b, g (f b) = b) (c : Codec α) : Codec β where
  encode b := c.encode (f b)
  decode bytes := (c.decode bytes).map fun r => (g r.1, r.2)
  decode_encode b rest := by rw [c.decode_encode, Option.map_some, h]

def int : Codec Int :=
  via (fun n => (n.toNat, (-n).toNat)) (fun p => (p.1 : Int) - p.2) (fun n => by omega)
    (pair nat nat)

/-- `n` values, one after the other. -/
def decodeMany (c : Codec α) : Nat → List UInt8 → Option (List α × List UInt8)
  | 0, bytes => some ([], bytes)
  | n + 1, bytes => (c.decode bytes).bind fun r =>
    (decodeMany c n r.2).map fun r' => (r.1 :: r'.1, r'.2)

lemma decodeMany_flatMap (c : Codec α) (as : List α) (rest : List UInt8) :
    decodeMany c as.length (as.flatMap c.encode ++ rest) = some (as, rest) := by
  induction as with
  | nil => rfl
  | cons a as ih =>
    rw [List.length_cons, List.flatMap_cons, List.append_assoc, decodeMany, c.decode_encode,
      Option.bind_some, ih, Option.map_some]

/-- The length comes before the values. -/
def list (c : Codec α) : Codec (List α) where
  encode as := nat.encode as.length ++ as.flatMap c.encode
  decode bytes := (nat.decode bytes).bind fun r => decodeMany c r.1 r.2
  decode_encode as rest := by
    rw [List.append_assoc, nat.decode_encode, Option.bind_some, decodeMany_flatMap]

def option (c : Codec α) : Codec (Option α) :=
  via Option.toList List.head? (fun a => by cases a <;> rfl) (list c)

/-! ### Trees -/

/-- A forest in pre-order, as far as the fuel goes; every node is announced. -/
def decodeForest (c : Codec α) : Nat → List UInt8 → Option (Forest α × List UInt8)
  | 0, _ => none
  | fuel + 1, bytes =>
    (nat.decode bytes).bind fun r =>
      if r.1 = 0 then some (.nil, r.2)
      else
        (c.decode r.2).bind fun root =>
          (decodeForest c fuel root.2).bind fun children =>
            (decodeForest c fuel children.2).map fun siblings =>
              (.cons root.1 children.1 siblings.1, siblings.2)

def encodeForest (c : Codec α) : Forest α → List UInt8
  | .nil => nat.encode 0
  | .cons root children siblings =>
    nat.encode 1 ++ (c.encode root ++ (encodeForest c children ++ encodeForest c siblings))

lemma length_encodeForest_pos (c : Codec α) (t : Forest α) : 0 < (encodeForest c t).length := by
  cases t <;> simp [encodeForest, nat]

lemma decodeForest_encodeForest (c : Codec α) (t : Forest α) {fuel : Nat} (rest : List UInt8)
    (hfuel : (encodeForest c t).length ≤ fuel) :
    decodeForest c fuel (encodeForest c t ++ rest) = some (t, rest) := by
  induction t generalizing fuel rest with
  | nil =>
    obtain ⟨fuel, rfl⟩ := Nat.exists_eq_succ_of_ne_zero
      (Nat.pos_iff_ne_zero.mp (lt_of_lt_of_le (length_encodeForest_pos c .nil) hfuel))
    rw [decodeForest, encodeForest, nat.decode_encode, Option.bind_some, if_pos rfl]
  | cons root children siblings ihc ihs =>
    obtain ⟨fuel, rfl⟩ := Nat.exists_eq_succ_of_ne_zero
      (Nat.pos_iff_ne_zero.mp (lt_of_lt_of_le (length_encodeForest_pos c _) hfuel))
    have hone : (nat.encode 1).length = 2 := rfl
    simp only [encodeForest, List.length_append, hone] at hfuel
    simp only [encodeForest, List.append_assoc]
    rw [decodeForest, nat.decode_encode, Option.bind_some, if_neg one_ne_zero, c.decode_encode,
      Option.bind_some, ihc _ (by omega), Option.bind_some, ihs _ (by omega), Option.map_some]

def forest (c : Codec α) : Codec (Forest α) where
  encode := encodeForest c
  decode bytes := decodeForest c bytes.length bytes
  decode_encode t rest := decodeForest_encodeForest c t rest (by simp)

end Codec
