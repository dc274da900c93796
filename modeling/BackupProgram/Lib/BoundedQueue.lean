import Mathlib

/-!
# Bounded queues

A queue holds at most as many items as it has room for. Whatever is too much is left out.
-/

@[ext]
structure BoundedQueue (α : Type*) where
  items : List α
  capacity : Nat
  length_le : items.length ≤ capacity

namespace BoundedQueue

variable {α : Type*} (q dst : BoundedQueue α)

/-- The room that is left. -/
def free : Nat := q.capacity - q.items.length

def IsFull : Prop := q.items.length = q.capacity

def append (as : List α) : BoundedQueue α where
  items := q.items ++ as.take q.free
  capacity := q.capacity
  length_le := by
    have := q.length_le
    simp only [List.length_append, List.length_take, free]
    omega

/-- The queue without its first `n` items. -/
def drop (n : Nat) : BoundedQueue α where
  items := q.items.drop n
  capacity := q.capacity
  length_le := (q.items.length_drop.trans_le (Nat.sub_le _ _)).trans q.length_le

/-- The first `n` items. -/
def trim (n : Nat) : BoundedQueue α where
  items := q.items.take n
  capacity := q.capacity
  length_le := (List.length_take_le' n q.items).trans q.length_le

def clear : BoundedQueue α where
  items := []
  capacity := q.capacity
  length_le := Nat.zero_le _

variable {q dst}

@[simp] lemma items_append (as : List α) : (q.append as).items = q.items ++ as.take q.free := rfl

@[simp] lemma items_drop (n : Nat) : (q.drop n).items = q.items.drop n := rfl

@[simp] lemma append_nil : q.append [] = q := by
  simp only [append, List.take_nil, List.append_nil]

/-- Items may be appended piece by piece. -/
lemma append_append (as bs : List α) : (q.append as).append bs = q.append (as ++ bs) := by
  have hfree : (q.append as).free = q.free - as.length := by
    simp only [free, append, List.length_append, List.length_take]
    omega
  have hitems : q.items ++ as.take q.free ++ bs.take (q.append as).free =
      q.items ++ (as ++ bs).take q.free := by
    rw [hfree, List.take_append, List.append_assoc]
  exact BoundedQueue.ext hitems rfl

lemma foldl_append (pieces : List (List α)) : pieces.foldl append q = q.append pieces.flatten := by
  induction pieces generalizing q with
  | nil => simp
  | cons piece pieces ih => rw [List.foldl_cons, ih, append_append, List.flatten_cons]

end BoundedQueue
