import Mathlib

/-!
# Bisection of an interval

`bisect p fuel lo hi` halves the open interval between `lo` and `hi`, keeping the half in which
the predicate `p` changes from `false` to `true`. The two end points are never tested, so they
may lie outside the domain of `p`. The loop needs at most `hi - lo` rounds; `fuel` only makes the
recursion structural.
-/

namespace Bisection

def bisect (p : Nat → Bool) : Nat → Nat → Nat → Nat × Nat
  | 0, lo, hi => (lo, hi)
  | fuel + 1, lo, hi =>
    if 1 < hi - lo then
      let pivot := lo + (hi - lo) / 2
      if p pivot then bisect p fuel lo pivot else bisect p fuel pivot hi
    else (lo, hi)

/-- The invariant rule: whatever holds of the lower end, of the upper end, and of every tested
point on its side, holds of the two ends of the final interval, which are neighbours. -/
theorem bisect_spec {p : Nat → Bool} {L H : Nat → Prop} (fuel lo hi : Nat)
    (hlt : lo < hi) (hfuel : hi - lo ≤ fuel + 1) (hlo : L lo) (hhi : H hi)
    (hfalse : ∀ k, lo < k → k < hi → p k = false → L k)
    (htrue : ∀ k, lo < k → k < hi → p k = true → H k) :
    lo ≤ (bisect p fuel lo hi).1 ∧ (bisect p fuel lo hi).2 ≤ hi ∧
      (bisect p fuel lo hi).2 = (bisect p fuel lo hi).1 + 1 ∧
      L (bisect p fuel lo hi).1 ∧ H (bisect p fuel lo hi).2 := by
  induction fuel generalizing lo hi with
  | zero =>
    simp only [bisect]
    exact ⟨le_refl _, le_refl _, by omega, hlo, hhi⟩
  | succ fuel ih =>
    simp only [bisect]
    split_ifs with hgap hp
    · have key := ih lo (lo + (hi - lo) / 2) (by omega) (by omega) hlo
        (htrue _ (by omega) (by omega) hp)
        (fun k h1 h2 => hfalse k h1 (by omega)) (fun k h1 h2 => htrue k h1 (by omega))
      exact ⟨key.1, by omega, key.2.2⟩
    · have key := ih (lo + (hi - lo) / 2) hi (by omega) (by omega)
        (hfalse _ (by omega) (by omega) (by simpa using hp)) hhi
        (fun k h1 h2 => hfalse k (by omega) h2) (fun k h1 h2 => htrue k (by omega) h2)
      exact ⟨by omega, key.2⟩
    · exact ⟨le_refl _, le_refl _, by omega, hlo, hhi⟩

/-- The boundary of a predicate that is monotone on `[lo, hi)` is found exactly. -/
theorem bisect_boundary {p : Nat → Bool} {fuel lo hi b : Nat}
    (hfuel : hi - lo ≤ fuel + 1) (hb : lo < b) (hbhi : b ≤ hi)
    (hp : ∀ k, lo < k → k < hi → (p k = true ↔ b ≤ k)) :
    bisect p fuel lo hi = (b - 1, b) := by
  obtain ⟨-, -, hnext, hL, hH⟩ := bisect_spec (p := p) (L := fun k => k < b) (H := fun k => b ≤ k)
    fuel lo hi (by omega) hfuel hb hbhi
    (fun k h1 h2 hk => by
      have := (hp k h1 h2).not.mp (by simp [hk])
      omega)
    (fun k h1 h2 hk => (hp k h1 h2).mp hk)
  have h1 : (bisect p fuel lo hi).2 = b := by omega
  have h2 : (bisect p fuel lo hi).1 = b - 1 := by omega
  exact Prod.ext h2 h1

/-- A search that tests the lower end of a range first, since the bisection leaves it out, finds the
boundary as well if it is one of the ends of the range. -/
theorem lowerBound_boundary {p : Nat → Bool} {fuel first last b : Nat}
    (hfuel : last - first ≤ fuel + 1) (hb : first ≤ b) (hlast : b ≤ last)
    (hp : ∀ k, first ≤ k → k < last → (p k = true ↔ b ≤ k)) :
    (if first ≥ last then last else if p first then first else (bisect p fuel first last).2) =
    b := by
  split_ifs with hempty hfirst
  · exact le_antisymm (hempty.le.trans hb) hlast
  · exact le_antisymm hb ((hp first (le_refl _) (not_le.mp hempty)).mp hfirst)
  · have hne : ¬ b ≤ first := fun hle => hfirst ((hp first (le_refl _) (not_le.mp hempty)).mpr hle)
    rw [bisect_boundary hfuel (not_le.mp hne) hlast fun k h1 h2 => hp k h1.le h2]

/-! ### Tests that may fail -/

/-- The loop with tests that may fail; it fails with `stuck` if it runs out of fuel. -/
def bisectRead {ε : Type*} (stuck : ε) (p : Nat → Except ε Bool) :
    Nat → Nat → Nat → Except ε (Nat × Nat)
  | 0, _, _ => throw stuck
  | fuel + 1, lo, hi =>
    if 1 < hi - lo then do
      let pivot := lo + (hi - lo) / 2
      if ← p pivot then bisectRead stuck p fuel lo pivot else bisectRead stuck p fuel pivot hi
    else pure (lo, hi)

/-- Only points between the two ends are tested, and the fuel suffices. -/
theorem bisectRead_eq {ε : Type*} (stuck : ε) {p : Nat → Except ε Bool} {q : Nat → Bool}
    (fuel n lo hi : Nat) (hp : ∀ k, lo < k → k < hi → p k = .ok (q k))
    (hfuel : hi - lo < fuel) (hn : hi - lo ≤ n + 1) :
    bisectRead stuck p fuel lo hi = .ok (bisect q n lo hi) := by
  induction fuel generalizing n lo hi with
  | zero => omega
  | succ fuel ih =>
    rw [bisectRead]
    split_ifs with hgap
    · obtain ⟨n, rfl⟩ : ∃ k, n = k + 1 := ⟨n - 1, by omega⟩
      rw [bisect, if_pos hgap]
      simp only [hp (lo + (hi - lo) / 2) (by omega) (by omega), bind, Except.bind]
      split_ifs
      · exact ih n _ _ (fun k h1 h2 => hp k h1 (by omega)) (by omega) (by omega)
      · exact ih n _ _ (fun k h1 h2 => hp k (by omega) h2) (by omega) (by omega)
    · cases n with
      | zero => rfl
      | succ n =>
        rw [bisect, if_neg hgap]
        rfl

/-- The search that tests the lower end first. -/
def lowerBoundRead {ε : Type*} (stuck : ε) (p : Nat → Except ε Bool) (fuel first last : Nat) :
    Except ε Nat :=
  if first ≥ last then pure last
  else do
    if ← p first then pure first
    else
      let ends ← bisectRead stuck p fuel first last
      pure ends.2

/-- Only points of the range are tested. -/
theorem lowerBoundRead_eq {ε : Type*} (stuck : ε) {p : Nat → Except ε Bool} {q : Nat → Bool}
    {fuel first last : Nat} (hp : ∀ k, first ≤ k → k < last → p k = .ok (q k))
    (hfuel : last - first < fuel) :
    lowerBoundRead stuck p fuel first last =
      .ok (if first ≥ last then last else if q first then first
        else (bisect q (last - first) first last).2) := by
  rw [lowerBoundRead]
  split_ifs with hempty hfirst
  · rfl
  · simp only [hp first (le_refl _) (not_le.mp hempty), hfirst, bind, Except.bind, if_true]
    rfl
  · have hloop := bisectRead_eq stuck fuel (last - first) first last
      (fun k h1 h2 => hp k h1.le h2) hfuel (Nat.le_succ _)
    simp only [hp first (le_refl _) (not_le.mp hempty), hfirst, bind, Except.bind, hloop]
    rfl

/-! ### Predicates along a list -/

/-- A predicate that stays true along a list, once it is, splits the list. -/
lemma exists_split {α : Type*} {p : α → Bool} {l : List α}
    (h : l.Pairwise fun a b => p a = true → p b = true) :
    ∃ pre post, l = pre ++ post ∧ (∀ a ∈ pre, p a = false) ∧ ∀ b ∈ post, p b = true := by
  induction l with
  | nil => exact ⟨[], [], rfl, by simp, by simp⟩
  | cons a l ih =>
    obtain ⟨ha, hl⟩ := List.pairwise_cons.mp h
    by_cases hpa : p a = true
    · refine ⟨[], a :: l, rfl, by simp, fun b hb => ?_⟩
      rcases List.mem_cons.mp hb with rfl | hb
      · exact hpa
      · exact ha b hb hpa
    · obtain ⟨pre, post, rfl, hpre, hpost⟩ := ih hl
      refine ⟨a :: pre, post, rfl, fun b hb => ?_, hpost⟩
      rcases List.mem_cons.mp hb with rfl | hb
      · exact Bool.eq_false_of_not_eq_true hpa
      · exact hpre b hb

end Bisection
