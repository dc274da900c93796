import Mathlib

/-!
# Collections with a comparer

Sets and dictionaries whose keys are told apart by a given equality. What a key is found with after
a number of insertions is what came with the last equal one.
-/

/-- What a collection takes for equal. -/
structure Comparer (κ : Type*) where
  equals : κ → κ → Bool
  equivalence : Equivalence fun a b => equals a b = true

namespace Comparer

variable {κ ν : Type*} (c : Comparer κ)

/-- The comparer that takes the keys with the same image for equal. -/
def byKey {μ : Type*} [DecidableEq μ] (key : κ → μ) : Comparer κ where
  equals a b := decide (key a = key b)
  equivalence := by
    simp only [decide_eq_true_eq]
    exact ⟨fun _ => rfl, fun h => h.symm, fun h h' => h.trans h'⟩

/-! ### Sets -/

def contains (set : List κ) (k : κ) : Bool := set.any (c.equals · k)

def add (set : List κ) (k : κ) : List κ := if c.contains set k then set else set ++ [k]

lemma contains_add (set : List κ) (k k' : κ) :
    c.contains (c.add set k) k' = (c.contains set k' || c.equals k k') := by
  rw [add]
  split_ifs with h
  · -- an equal key is there already
    obtain ⟨a, ha, hak⟩ := List.any_eq_true.mp h
    cases hk : c.equals k k' with
    | false => rw [Bool.or_false]
    | true =>
      rw [Bool.or_true]
      exact List.any_eq_true.mpr ⟨a, ha, c.equivalence.trans hak hk⟩
  · rw [contains, contains, List.any_append, List.any_cons, List.any_nil, Bool.or_false]

/-- A key is in the set after some have been added if it was there, or is equal to one of them. -/
lemma contains_foldl_add (set ks : List κ) (k : κ) :
    c.contains (ks.foldl c.add set) k = (c.contains set k || c.contains ks k) := by
  induction ks generalizing set with
  | nil => simp [contains]
  | cons a ks ih =>
    rw [List.foldl_cons, ih, contains_add, Bool.or_assoc]
    rfl

/-! ### Dictionaries -/

def get? (dict : List (κ × ν)) (k : κ) : Option ν :=
  (dict.find? fun kv => c.equals kv.1 k).map Prod.snd

/-- The value of an equal key is replaced. -/
def put (dict : List (κ × ν)) (k : κ) (v : ν) : List (κ × ν) :=
  if (c.get? dict k).isSome then
    dict.map fun kv => if c.equals kv.1 k then (kv.1, v) else kv
  else dict ++ [(k, v)]

/-- The values have been replaced, the keys are still the same. -/
lemma get?_map_replace (dict : List (κ × ν)) (k k' : κ) (v : ν) :
    c.get? (dict.map fun kv => if c.equals kv.1 k then (kv.1, v) else kv) k' =
      (dict.find? fun kv => c.equals kv.1 k').map fun kv =>
        if c.equals kv.1 k then v else kv.2 := by
  have hfst : ((fun kv : κ × ν => c.equals kv.1 k') ∘
      fun kv : κ × ν => if c.equals kv.1 k then (kv.1, v) else kv) =
        fun kv => c.equals kv.1 k' := by
    funext kv
    simp only [Function.comp_apply]
    split_ifs <;> rfl
  rw [get?, List.find?_map, hfst, Option.map_map]
  congr 1
  funext kv
  simp only [Function.comp_apply]
  split_ifs <;> rfl

lemma find?_key {dict : List (κ × ν)} {k : κ} {kv : κ × ν}
    (h : (dict.find? fun kv => c.equals kv.1 k) = some kv) : c.equals kv.1 k = true := by
  have hkey := List.find?_some h
  exact hkey

lemma get?_put (dict : List (κ × ν)) (k k' : κ) (v : ν) :
    c.get? (c.put dict k v) k' = if c.equals k k' then some v else c.get? dict k' := by
  rw [put]
  split_ifs with hsome hk hk
  · -- the key is there, and is the one that is looked up
    obtain ⟨w, hw⟩ := Option.isSome_iff_exists.mp hsome
    rw [get?, Option.map_eq_some_iff] at hw
    obtain ⟨kv, hfind, -⟩ := hw
    have heq : ∀ kv : κ × ν, c.equals kv.1 k' = c.equals kv.1 k := by
      intro kv
      rw [Bool.eq_iff_iff]
      exact ⟨fun h => c.equivalence.trans h (c.equivalence.symm hk),
        fun h => c.equivalence.trans h hk⟩
    rw [get?_map_replace]
    simp only [heq, hfind, Option.map_some, c.find?_key hfind, if_true]
  · rw [get?_map_replace, get?]
    cases hfind : dict.find? fun kv => c.equals kv.1 k' with
    | none => simp
    | some kv =>
      have hne : ¬ c.equals kv.1 k = true := fun h =>
        hk (c.equivalence.trans (c.equivalence.symm h) (c.find?_key hfind))
      rw [Option.map_some, Option.map_some, if_neg hne]
  · -- the key is new
    have hnone : dict.find? (fun kv => c.equals kv.1 k') = none := by
      rw [List.find?_eq_none]
      intro kv hkv h
      have hfound : (dict.find? fun kv => c.equals kv.1 k).isSome :=
        List.find?_isSome.mpr ⟨kv, hkv, c.equivalence.trans h (c.equivalence.symm hk)⟩
      rw [get?, Option.isSome_map] at hsome
      exact hsome hfound
    simp [get?, hnone, hk]
  · simp [get?, hk]

/-- Of the pairs that are put one after the other the last one with an equal key counts. -/
lemma get?_foldl_put (dict kvs : List (κ × ν)) (k : κ) :
    c.get? (kvs.foldl (fun dict kv => c.put dict kv.1 kv.2) dict) k =
      ((kvs.filter fun kv => c.equals kv.1 k).getLast?.map Prod.snd).or (c.get? dict k) := by
  induction kvs using List.reverseRecOn with
  | nil => rfl
  | append_singleton kvs kv ih =>
    rw [List.foldl_append, List.foldl_cons, List.foldl_nil, get?_put, List.filter_append]
    split_ifs with h
    · simp [h]
    · simp [h, ih]

end Comparer
