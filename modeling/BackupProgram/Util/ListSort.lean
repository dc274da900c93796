import Mathlib

/-!
# Sorting

`List.Sort` arranges the elements in ascending order of a key and does not say how elements of one
key are arranged.
-/

namespace BackupProgram

structure ListSort where
  sortBy : {α : Type} → (α → Nat) → List α → List α
  perm : ∀ {α : Type} (key : α → Nat) (as : List α), (sortBy key as).Perm as
  sorted : ∀ {α : Type} (key : α → Nat) (as : List α),
    (sortBy key as).Pairwise fun a b => key a ≤ key b

namespace ListSort

/-- A stable arrangement. -/
def insertion : ListSort where
  sortBy key as := as.insertionSort fun a b => key a ≤ key b
  perm _ _ := List.perm_insertionSort _ _
  sorted key as :=
    have : Std.Total fun a b => key a ≤ key b := ⟨fun a b => le_total (key a) (key b)⟩
    have : IsTrans _ fun a b => key a ≤ key b := ⟨fun _ _ _ => le_trans⟩
    List.pairwise_insertionSort _ as

@[simp] lemma mem_sortBy (s : ListSort) {α : Type} (key : α → Nat) (as : List α) (a : α) :
    a ∈ s.sortBy key as ↔ a ∈ as :=
  (s.perm key as).mem_iff

end ListSort

end BackupProgram
