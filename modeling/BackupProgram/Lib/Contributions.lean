import Mathlib

/-!
# Contributions of the entries of a list

Two selections from a list, of which one is known to take no entry that the other leaves out.
-/

namespace Contributions

variable {α β γ : Type*} {f : α → Option β} {g : α → Option γ} {l : List α}

lemma length_filterMap_le (h : ∀ a ∈ l, (g a).isSome → (f a).isSome) :
    (l.filterMap g).length ≤ (l.filterMap f).length := by
  induction l with
  | nil => rfl
  | cons a l ih =>
    have ih := ih fun a' ha' => h a' (List.mem_cons_of_mem _ ha')
    have ha := h a List.mem_cons_self
    rw [List.filterMap_cons, List.filterMap_cons]
    cases hg : g a with
    | none => cases f a <;> simp <;> omega
    | some c =>
      obtain ⟨b, hb⟩ := Option.isSome_iff_exists.mp (ha (by rw [hg]; rfl))
      simpa [hb] using ih

/-- If both selections have the same number of entries, they have been taken from the same ones. -/
lemma isSome_iff_of_length (h : ∀ a ∈ l, (g a).isSome → (f a).isSome)
    (hlength : (l.filterMap f).length = (l.filterMap g).length) :
    ∀ a ∈ l, ((f a).isSome ↔ (g a).isSome) := by
  induction l with
  | nil => simp
  | cons a l ih =>
    have htail := fun a' ha' => h a' (List.mem_cons_of_mem _ ha')
    have hle := length_filterMap_le htail
    have ha := h a List.mem_cons_self
    rw [List.filterMap_cons, List.filterMap_cons] at hlength
    intro a' ha'
    cases hf : f a with
    | none =>
      cases hg : g a with
      | some c => simp [hf, hg] at ha
      | none =>
        rw [hf, hg] at hlength
        rcases List.mem_cons.mp ha' with rfl | ha'
        · simp [hf, hg]
        · exact ih htail hlength a' ha'
    | some b =>
      cases hg : g a with
      | none =>
        simp only [hf, hg, List.length_cons] at hlength
        omega
      | some c =>
        simp only [hf, hg, List.length_cons, Nat.add_right_cancel_iff] at hlength
        rcases List.mem_cons.mp ha' with rfl | ha'
        · simp [hf, hg]
        · exact ih htail hlength a' ha'

/-- Equal selections from the same entries have been equal entry by entry. -/
lemma eq_of_filterMap_eq {f' : α → Option β} (h : ∀ a ∈ l, ((f a).isSome ↔ (f' a).isSome))
    (heq : l.filterMap f = l.filterMap f') : ∀ a ∈ l, f a = f' a := by
  induction l with
  | nil => simp
  | cons a l ih =>
    have htail := fun a' ha' => h a' (List.mem_cons_of_mem _ ha')
    have ha := h a List.mem_cons_self
    rw [List.filterMap_cons, List.filterMap_cons] at heq
    intro a' ha'
    cases hf : f a with
    | none =>
      have hf' : f' a = none := by simpa [hf] using ha
      rw [hf, hf'] at heq
      rcases List.mem_cons.mp ha' with rfl | ha'
      · rw [hf, hf']
      · exact ih htail heq a' ha'
    | some b =>
      obtain ⟨b', hf'⟩ := Option.isSome_iff_exists.mp (ha.mp (by rw [hf]; rfl))
      rw [hf, hf'] at heq
      simp only [List.cons.injEq] at heq
      rcases List.mem_cons.mp ha' with rfl | ha'
      · rw [hf, hf', heq.1]
      · exact ih htail heq.2 a' ha'

section Bytes

variable {δ : Type*} {bytes : α → List δ} {selected : γ → List δ}

lemma length_flatMap_le (h : ∀ a ∈ l, ∀ c, g a = some c → bytes a = selected c) :
    ((l.filterMap g).flatMap selected).length ≤ (l.flatMap bytes).length := by
  induction l with
  | nil => rfl
  | cons a l ih =>
    have ih := ih fun a' ha' => h a' (List.mem_cons_of_mem _ ha')
    cases hg : g a with
    | none => simp only [List.filterMap_cons_none hg, List.flatMap_cons, List.length_append]; omega
    | some c =>
      simp only [List.filterMap_cons_some hg, List.flatMap_cons, List.length_append,
        h a List.mem_cons_self c hg]
      omega

/-- What all entries have together is what the selected ones have if the others have nothing, and
only then. -/
lemma flatMap_eq_iff (h : ∀ a ∈ l, ∀ c, g a = some c → bytes a = selected c) :
    l.flatMap bytes = (l.filterMap g).flatMap selected ↔ ∀ a ∈ l, g a = none → bytes a = [] := by
  induction l with
  | nil => simp
  | cons a l ih =>
    have htail := fun a' ha' => h a' (List.mem_cons_of_mem _ ha')
    cases hg : g a with
    | none =>
      rw [List.filterMap_cons_none hg, List.flatMap_cons, List.forall_mem_cons, ← ih htail]
      constructor
      · intro heq
        have hle := length_flatMap_le htail
        rw [← heq, List.length_append] at hle
        have hnil : bytes a = [] := List.length_eq_zero_iff.mp (by omega)
        rw [hnil, List.nil_append] at heq
        exact ⟨fun _ => hnil, heq⟩
      · rintro ⟨hnil, heq⟩
        rw [hnil hg, List.nil_append, heq]
    | some c =>
      rw [List.filterMap_cons_some hg, List.flatMap_cons, List.flatMap_cons, List.forall_mem_cons,
        h a List.mem_cons_self c hg, List.append_cancel_left_eq, ih htail]
      simp [hg]

end Bytes

end Contributions
