import Mathlib

/-!
# Repetitions

A list that goes on in the same way when something is put in front of it.
-/

namespace Repetition

variable {α : Type*} {u l : List α}

/-- Any beginning of `u` repeated over and over; any list if `u` is empty. -/
def Repeats (u l : List α) : Prop := u = [] ∨ ∃ n, l <+: (List.replicate n u).flatten

lemma repeats_nil_left (l : List α) : Repeats [] l := .inl rfl

/-- A list stays in its place behind `u` if it repeats `u`, and only then. -/
theorem repeats_iff_prefix : Repeats u l ↔ l <+: u ++ l := by
  constructor
  · rintro (rfl | ⟨n, hn⟩)
    · exact List.prefix_rfl
    · have hnext : l <+: u ++ (List.replicate n u).flatten := by
        refine hn.trans ⟨u, ?_⟩
        rw [← List.flatten_cons, ← List.replicate_succ, List.replicate_succ', List.flatten_append,
          List.flatten_singleton]
      exact List.prefix_of_prefix_length_le hnext ((List.prefix_append_right_inj u).mpr hn)
        (by rw [List.length_append]; omega)
  · intro h
    rcases List.eq_nil_or_concat u with rfl | ⟨u', a, hu⟩
    · exact .inl rfl
    have hpos : 0 < u.length := by simp [hu]
    refine .inr ?_
    clear hu
    -- the first `u` of the list is taken off
    induction hlength : l.length using Nat.strong_induction_on generalizing l with
    | _ n ih =>
      rcases Nat.lt_or_ge l.length u.length with hlt | hle
      · refine ⟨1, ?_⟩
        rw [List.replicate_one, List.flatten_singleton]
        exact List.prefix_of_prefix_length_le h (List.prefix_append u l) hlt.le
      · obtain ⟨rest, rfl⟩ := List.prefix_of_prefix_length_le (List.prefix_append u l) h hle
        rw [List.prefix_append_right_inj] at h
        obtain ⟨k, hk⟩ := ih rest.length (by rw [← hlength, List.length_append]; omega) h rfl
        refine ⟨k + 1, ?_⟩
        rw [List.replicate_succ, List.flatten_cons]
        exact (List.prefix_append_right_inj u).mpr hk

end Repetition
