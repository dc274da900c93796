import Mathlib

/-!
# Lists laid end to end

Elements of a list occupy spans of given lengths, one behind the other from position zero on. A
position below the total length lies in exactly one span, and what the whole list contains there is
what the element of this span contains.
-/

namespace Spans

variable {α β : Type*} {len : α → ℕ} {l init rest : List α} {a : α} {v n k : ℕ}

/-- The length of all spans. -/
def total (len : α → ℕ) (l : List α) : ℕ := (l.map len).sum

@[simp] lemma total_nil : total len [] = 0 := rfl

@[simp] lemma total_cons : total len (a :: l) = len a + total len l := by
  rw [total, List.map_cons, List.sum_cons, total]

@[simp] lemma total_append : total len (init ++ rest) = total len init + total len rest := by
  rw [total, List.map_append, List.sum_append, total, total]

lemma total_take_le (len : α → ℕ) (l : List α) (k : ℕ) : total len (l.take k) ≤ total len l := by
  calc total len (l.take k) ≤ total len (l.take k) + total len (l.drop k) := Nat.le_add_right _ _
    _ = total len l := by rw [← total_append, List.take_append_drop]

lemma total_take_mono (len : α → ℕ) (l : List α) {j : ℕ} (h : j ≤ k) :
    total len (l.take j) ≤ total len (l.take k) := by
  have hle := total_take_le len (l.take k) j
  rwa [List.take_take, Nat.min_eq_left h] at hle

/-- Every position below the total length lies in a span. -/
lemma exists_span (h : v < total len l) :
    ∃ init a rest, l = init ++ a :: rest ∧ total len init ≤ v ∧ v < total len init + len a := by
  induction l generalizing v with
  | nil => exact absurd h (Nat.not_lt_zero v)
  | cons b l ih =>
    rw [total_cons] at h
    rcases Nat.lt_or_ge v (len b) with hlt | hge
    · exact ⟨[], b, l, rfl, Nat.zero_le v, by rwa [total_nil, Nat.zero_add]⟩
    · obtain ⟨init, a, rest, rfl, hle, hlt⟩ := ih (v := v - len b) (by omega)
      refine ⟨b :: init, a, rest, rfl, ?_, ?_⟩
      · rw [total_cons]
        omega
      · rw [total_cons]
        omega

/-- The spans that end behind a position are those from the span of the position on. -/
lemma lt_total_take_iff (hle : total len init ≤ v) (hlt : v < total len init + len a) :
    v < total len ((init ++ a :: rest).take (k + 1)) ↔ init.length ≤ k := by
  constructor
  · intro h
    by_contra hk
    rw [List.take_append_of_le_length (by omega)] at h
    exact absurd (total_take_le len init (k + 1)) (by omega)
  · intro hk
    have hmono := total_take_mono len (init ++ a :: rest)
      (show init.length + 1 ≤ k + 1 by omega)
    have hspan : (init ++ a :: rest).take (init.length + 1) = init ++ [a] := by
      rw [List.take_length_add_append, List.take_succ_cons, List.take_zero]
    rw [hspan, total_append, total_cons, total_nil] at hmono
    omega

lemma length_flatMap {content : α → List β} (h : ∀ a ∈ l, (content a).length = len a) :
    (l.flatMap content).length = total len l := by
  rw [List.length_flatMap, total, List.map_congr_left h]

/-- What stands at a position of the whole list stands in its span. -/
lemma take_drop_flatMap {content : α → List β}
    (h : ∀ b ∈ init ++ a :: rest, (content b).length = len b) (hle : total len init ≤ v)
    (hlt : v + n ≤ total len init + len a) :
    (((init ++ a :: rest).flatMap content).drop v).take n =
      ((content a).drop (v - total len init)).take n := by
  have hinit : (init.flatMap content).length = total len init :=
    length_flatMap fun b hb => h b (List.mem_append_left _ hb)
  have ha : (content a).length = len a := h a (List.mem_append_right _ List.mem_cons_self)
  rw [List.flatMap_append, List.flatMap_cons, List.drop_append, hinit,
    List.drop_eq_nil_of_le (by omega), List.nil_append,
    List.drop_append_of_le_length (by omega), List.take_append_of_le_length]
  rw [List.length_drop]
  omega

end Spans
