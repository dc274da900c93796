import Mathlib

/-!
# Cutting a list into blocks

`blocks n l` cuts `l` into blocks of length `n`, of which only the last one may be shorter.
-/

namespace Blocks

variable {α : Type*} {n : Nat}

def blocks (n : Nat) (l : List α) : List (List α) :=
  if _h : 0 < n ∧ l ≠ [] then l.take n :: blocks n (l.drop n) else []
termination_by l.length
decreasing_by
  have := List.length_pos_iff.mpr _h.2
  simp only [List.length_drop]
  omega

@[simp] lemma blocks_nil : blocks n ([] : List α) = [] := by
  rw [blocks]
  simp

lemma blocks_of_ne_nil (hn : 0 < n) {l : List α} (h : l ≠ []) :
    blocks n l = l.take n :: blocks n (l.drop n) := by
  rw [blocks, dif_pos ⟨hn, h⟩]

/-- Induction along the blocks of a list. -/
theorem block_induction (hn : 0 < n) {P : List α → Prop} (nil : P [])
    (block : ∀ l, l ≠ [] → P (l.drop n) → P l) (l : List α) : P l := by
  induction h : l.length using Nat.strong_induction_on generalizing l with
  | _ k ih =>
    by_cases hl : l = []
    · exact hl ▸ nil
    · have := List.length_pos_iff.mpr hl
      exact block l hl (ih (l.length - n) (by omega) _ (by simp))

lemma flatten_blocks (hn : 0 < n) (l : List α) : (blocks n l).flatten = l := by
  induction l using block_induction hn with
  | nil => simp
  | block l hl ih => rw [blocks_of_ne_nil hn hl, List.flatten_cons, ih, List.take_append_drop]

/-- The last block may be shorter, so the quotient of the lengths is rounded up. -/
lemma length_blocks (hn : 0 < n) (l : List α) : (blocks n l).length = l.length ⌈/⌉ n := by
  induction l using block_induction hn with
  | nil => simp
  | block l hl ih =>
    have hpos := List.length_pos_iff.mpr hl
    rw [blocks_of_ne_nil hn hl, List.length_cons, ih, List.length_drop,
      Nat.ceilDiv_eq_add_pred_div, Nat.ceilDiv_eq_add_pred_div]
    rcases le_total n l.length with hle | hle
    · rw [← Nat.add_div_right _ hn]
      congr 1
      omega
    · have hone : (l.length + n - 1) / n = 1 := Nat.div_eq_of_lt_le (by omega) (by omega)
      rw [Nat.sub_eq_zero_of_le hle, Nat.zero_add, Nat.div_eq_of_lt (by omega), hone]

/-- The blocks of a list are its windows at the multiples of the block length. -/
lemma mem_blocks (hn : 0 < n) {l b : List α} :
    b ∈ blocks n l ↔ ∃ k, k * n < l.length ∧ b = (l.drop (k * n)).take n := by
  induction l using block_induction hn with
  | nil => simp
  | block l hl ih =>
    have hpos := List.length_pos_iff.mpr hl
    rw [blocks_of_ne_nil hn hl, List.mem_cons, ih]
    constructor
    · rintro (rfl | ⟨k, hk, rfl⟩)
      · exact ⟨0, by omega, by simp⟩
      · rw [List.length_drop] at hk
        exact ⟨k + 1, by rw [Nat.succ_mul]; omega, by
          rw [List.drop_drop, Nat.succ_mul, Nat.add_comm]⟩
    · rintro ⟨k, hk, rfl⟩
      rcases k with _ | k
      · left
        simp
      · right
        rw [Nat.succ_mul] at hk
        exact ⟨k, by rw [List.length_drop]; omega, by
          rw [List.drop_drop, Nat.succ_mul, Nat.add_comm]⟩

/-- All blocks but the last one are full. -/
lemma length_of_mem_dropLast_blocks (hn : 0 < n) {l b : List α} (hb : b ∈ (blocks n l).dropLast) :
    b.length = n := by
  induction l using block_induction hn with
  | nil => simp at hb
  | block l hl ih =>
    rw [blocks_of_ne_nil hn hl] at hb
    by_cases hrest : l.drop n = []
    · simp [hrest] at hb
    · rw [List.dropLast_cons_of_ne_nil (by rw [blocks_of_ne_nil hn hrest]; simp),
        List.mem_cons] at hb
      rcases hb with rfl | hb
      · rw [List.drop_eq_nil_iff] at hrest
        rw [List.length_take]
        omega
      · exact ih hb

/-- Blocks that are full, but for a shorter one at the end, are the blocks of their
concatenation. -/
lemma blocks_flatten_append {bs : List (List α)} {last : List α}
    (hfull : ∀ b ∈ bs, b.length = n) (hlast : last.length < n) :
    blocks n (bs.flatten ++ last) = bs ++ if last = [] then [] else [last] := by
  have hn : 0 < n := by omega
  induction bs with
  | nil =>
    by_cases h : last = []
    · simp [h]
    · rw [List.flatten_nil, List.nil_append, List.nil_append, blocks_of_ne_nil hn h,
        List.take_of_length_le hlast.le, List.drop_eq_nil_of_le hlast.le, blocks_nil, if_neg h]
  | cons b bs ih =>
    have hb := hfull b List.mem_cons_self
    have hne : b ++ (bs.flatten ++ last) ≠ [] := by
      rw [ne_eq, List.append_eq_nil_iff, ← List.length_eq_zero_iff]
      omega
    rw [List.flatten_cons, List.append_assoc, blocks_of_ne_nil hn hne, List.take_left' hb,
      List.drop_left' hb, ih fun c hc => hfull c (List.mem_cons_of_mem _ hc), List.cons_append]

lemma length_flatten_mod {bs : List (List α)} {last : List α}
    (hfull : ∀ b ∈ bs, b.length = n) (hlast : last.length < n) :
    (bs.flatten ++ last).length % n = last.length := by
  induction bs with
  | nil => simpa using Nat.mod_eq_of_lt hlast
  | cons b bs ih =>
    have hb := hfull b List.mem_cons_self
    have key := ih fun c hc => hfull c (List.mem_cons_of_mem _ hc)
    rw [List.flatten_cons, List.append_assoc, List.length_append, hb, Nat.add_mod_left]
    exact key

end Blocks
