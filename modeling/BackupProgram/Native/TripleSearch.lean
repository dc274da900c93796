import BackupProgram.Lib.Bisection

/-!
# Searching the elements that compare equal

`triple_search` takes a range that `f` splits into negative, zero and positive elements and
returns the sub-range of the zero ones. Iterators are indices and the null iterator is `none`.
-/

namespace BackupProgram

open Bisection

/-- The first loop: narrow the range until its middle element is zero, returned as `some`. -/
def tripleSearchLoop (f : Nat → Int) : Nat → Nat → Nat → Option Nat × Nat × Nat
  | 0, first, last => (none, first, last)
  | fuel + 1, first, last =>
    if first < last - 1 then
      let pivot := first + (last - first) / 2
      let i := f pivot
      if i < 0 then tripleSearchLoop f fuel pivot last
      else if i > 0 then tripleSearchLoop f fuel first pivot
      else (some pivot, first, last)
    else (none, first, last)

def tripleSearch (first last : Nat) (f : Nat → Int) : Option Nat × Option Nat :=
  if first = last ∨ f first > 0 then (some first, some first)
  else if f (last - 1) < 0 then (some last, some last)
  else
    let dstBegin := if f first = 0 then some first else none
    let dstEnd := if f (last - 1) = 0 then some last else none
    if dstBegin.isSome && dstEnd.isSome then (dstBegin, dstEnd)
    else
      match tripleSearchLoop f (last - first) first last with
      | (none, low, high) => if f low = 0 then (some low, some high) else (dstBegin, dstEnd)
      | (some mid, low, high) =>
        (if dstBegin.isSome then dstBegin
          else some (bisect (fun i => !decide (f i < 0)) (mid - low) low mid).2,
         if dstEnd.isSome then dstEnd
          else some (bisect (fun i => !decide (f i ≤ 0)) (high - mid) mid high).2)

/-- The precondition: along `[first, last)` the values are negative, then zero, then positive. -/
structure TripleSorted (f : Nat → Int) (first last : Nat) : Prop where
  neg : ∀ i j, first ≤ i → i ≤ j → j < last → f j < 0 → f i < 0
  pos : ∀ i j, first ≤ i → i ≤ j → j < last → 0 < f i → 0 < f j

variable {f : Nat → Int} {first last : Nat}

/-- What is left of the range when the first loop ends: below `low` nothing is zero or positive
and from `high` on nothing is zero or negative; `low` itself is positive only if it is `first`. -/
private structure Narrowed (f : Nat → Int) (first last low high : Nat) : Prop where
  le_low : first ≤ low
  low_lt : low < high
  high_le : high ≤ last
  before : ∀ i, first ≤ i → i < low → f i < 0
  low_neg : low ≠ first → f low < 0
  after : ∀ i, high ≤ i → i < last → 0 < f i

private lemma tripleSearchLoop_spec (h : TripleSorted f first last) (fuel : Nat) {low high : Nat}
    (hn : Narrowed f first last low high) (hfuel : high - low ≤ fuel + 1) :
    (∃ low' high', tripleSearchLoop f fuel low high = (none, low', high') ∧
        Narrowed f first last low' high' ∧ high' = low' + 1) ∨
      ∃ mid low' high', tripleSearchLoop f fuel low high = (some mid, low', high') ∧
        Narrowed f first last low' high' ∧ low' < mid ∧ mid < high' ∧ f mid = 0 := by
  induction fuel generalizing low high with
  | zero =>
    have := hn.low_lt
    exact Or.inl ⟨low, high, rfl, hn, by omega⟩
  | succ fuel ih =>
    have hlow := hn.le_low
    have hlt := hn.low_lt
    have hhigh := hn.high_le
    simp only [tripleSearchLoop]
    split_ifs with hgap hneg hpos
    · refine ih ⟨by omega, by omega, hhigh, fun i h1 h2 => ?_, fun _ => hneg, hn.after⟩ (by omega)
      exact h.neg i (low + (high - low) / 2) h1 (by omega) (by omega) hneg
    · refine ih ⟨hlow, by omega, by omega, hn.before, hn.low_neg, fun i h1 h2 => ?_⟩ (by omega)
      exact h.pos (low + (high - low) / 2) i (by omega) h1 h2 hpos
    · exact Or.inr ⟨_, low, high, rfl, hn, by omega, by omega, by omega⟩
    · exact Or.inl ⟨low, high, rfl, hn, by omega⟩

/-- The first element that is not negative, found by the second loop when it is not `first`. -/
private lemma lower_end_spec (h : TripleSorted f first last) {low mid : Nat}
    (hfirst : f first ≤ 0) (hle : first ≤ low) (hneg : low ≠ first → f low < 0) (hlt : low < mid)
    (hmid : mid < last) (hzero : f mid = 0) :
    ∃ lo, first ≤ lo ∧ lo ≤ mid ∧ f lo = 0 ∧ (∀ i, first ≤ i → i < lo → f i < 0) ∧
      (if f first = 0 then some first
        else some (bisect (fun i => !decide (f i < 0)) (mid - low) low mid).2) = some lo := by
  by_cases hz : f first = 0
  · exact ⟨first, le_refl _, by omega, hz, fun i h1 h2 => by omega, by simp [hz]⟩
  have hlow : f low < 0 := by
    rcases eq_or_ne low first with heq | hne
    · rw [heq]; omega
    · exact hneg hne
  obtain ⟨hb1, hb2, hb3, hb4, hb5⟩ := bisect_spec (p := fun i => !decide (f i < 0))
    (L := fun i => f i < 0) (H := fun i => ¬ f i < 0)
    (mid - low) low mid hlt (by omega)
    hlow (by omega) (fun k _ _ hk => by simpa using hk) (fun k _ _ hk => by simpa using hk)
  revert hb1 hb2 hb3 hb4 hb5
  generalize bisect (fun i => !decide (f i < 0)) (mid - low) low mid = ends
  intro hb1 hb2 hb3 hb4 hb5
  have hnotpos := fun hpos => h.pos ends.2 mid (by omega) hb2 hmid hpos
  refine ⟨ends.2, by omega, hb2, by omega, fun i h1 h2 => ?_, by rw [if_neg hz]⟩
  exact h.neg i ends.1 h1 (by omega) (by omega) hb4

/-- The first positive element after `mid`, found by the third loop when it is not `last`. -/
private lemma upper_end_spec (h : TripleSorted f first last) {mid high : Nat}
    (hfirst : first ≤ mid) (hlt : mid < high) (hle : high ≤ last) (hzero : f mid = 0)
    (hafter : ∀ i, high ≤ i → i < last → 0 < f i) :
    ∃ hi, mid < hi ∧ hi ≤ last ∧ (∀ i, mid ≤ i → i < hi → f i = 0) ∧
      (∀ i, hi ≤ i → i < last → 0 < f i) ∧
      (if f (last - 1) = 0 then some last
        else some (bisect (fun i => !decide (f i ≤ 0)) (high - mid) mid high).2) = some hi := by
  have hnotneg : ∀ i, mid ≤ i → i < last → ¬ f i < 0 := fun i h1 h2 hneg => by
    have := h.neg mid i hfirst h1 h2 hneg
    omega
  by_cases hz : f (last - 1) = 0
  · refine ⟨last, by omega, le_refl _, fun i h1 h2 => ?_, fun i h1 h2 => by omega, by simp [hz]⟩
    have h3 := hnotneg i h1 h2
    have h4 := fun hpos => h.pos i (last - 1) (by omega) (by omega) (by omega) hpos
    omega
  obtain ⟨hb1, hb2, hb3, hb4, hb5⟩ := bisect_spec (p := fun i => !decide (f i ≤ 0))
    (L := fun i => f i ≤ 0) (H := fun i => i < last → 0 < f i)
    (high - mid) mid high hlt (by omega) (by omega) (fun hl => hafter high (le_refl _) hl)
    (fun k _ _ hk => by simpa using hk) (fun k _ _ hk _ => by simpa using hk)
  revert hb1 hb2 hb3 hb4 hb5
  generalize bisect (fun i => !decide (f i ≤ 0)) (high - mid) mid high = ends
  intro hb1 hb2 hb3 hb4 hb5
  refine ⟨ends.2, by omega, by omega, fun i h1 h2 => ?_, fun i h1 h2 => ?_, by rw [if_neg hz]⟩
  · have h3 := hnotneg i h1 (by omega)
    have h4 := fun hpos => h.pos i ends.1 (by omega) (by omega) (by omega) hpos
    omega
  · exact h.pos ends.2 i (by omega) h1 h2 (hb5 (by omega))

/-- Unless an early return is taken, the result is what the three loops find. -/
private lemma tripleSearch_eq_loops (hfirst : ¬ (first = last ∨ f first > 0))
    (hlast : ¬ f (last - 1) < 0) (hboth : ¬ (f first = 0 ∧ f (last - 1) = 0)) :
    tripleSearch first last f =
      match tripleSearchLoop f (last - first) first last with
      | (none, low, high) =>
        if f low = 0 then (some low, some high)
        else (if f first = 0 then some first else none,
          if f (last - 1) = 0 then some last else none)
      | (some mid, low, high) =>
        (if f first = 0 then some first
          else some (bisect (fun i => !decide (f i < 0)) (mid - low) low mid).2,
         if f (last - 1) = 0 then some last
          else some (bisect (fun i => !decide (f i ≤ 0)) (high - mid) mid high).2) := by
  rw [tripleSearch, if_neg hfirst, if_neg hlast]
  split_ifs <;> simp_all

/-- When the first loop stops at a single element, only that one can be zero. -/
private lemma Narrowed.eq_zero_iff {low high : Nat} (hn : Narrowed f first last low high)
    (hone : high = low + 1) {i : Nat} (h1 : first ≤ i) (h2 : i < last) (hi : f i = 0) :
    i = low := by
  rcases Nat.lt_trichotomy i low with hc | hc | hc
  · have := hn.before i h1 hc
    omega
  · exact hc
  · have := hn.after i (by omega) h2
    omega

/-- Either there are zero elements and exactly their sub-range is returned, or there are none and
the two results are equal. -/
theorem tripleSearch_spec (hle : first ≤ last) (h : TripleSorted f first last) :
    (∃ lo hi, first ≤ lo ∧ lo < hi ∧ hi ≤ last ∧
        tripleSearch first last f = (some lo, some hi) ∧
        ∀ i, first ≤ i → i < last → (f i = 0 ↔ lo ≤ i ∧ i < hi)) ∨
      ((tripleSearch first last f).1 = (tripleSearch first last f).2 ∧
        ∀ i, first ≤ i → i < last → f i ≠ 0) := by
  by_cases hfirst : first = last ∨ f first > 0
  · right
    refine ⟨by rw [tripleSearch, if_pos hfirst], fun i h1 h2 => ?_⟩
    rcases hfirst with hempty | hpos
    · omega
    · have := h.pos first i (le_refl _) h1 h2 hpos
      omega
  by_cases hlast : f (last - 1) < 0
  · right
    refine ⟨by rw [tripleSearch, if_neg hfirst, if_pos hlast], fun i h1 h2 => ?_⟩
    have := h.neg i (last - 1) h1 (by omega) (by omega) hlast
    omega
  have hlt : first < last := by omega
  by_cases hboth : f first = 0 ∧ f (last - 1) = 0
  · left
    refine ⟨first, last, le_refl _, hlt, le_refl _, ?_, fun i h1 h2 =>
      ⟨fun _ => ⟨h1, h2⟩, fun _ => ?_⟩⟩
    · rw [tripleSearch, if_neg hfirst, if_neg hlast]
      simp [hboth.1, hboth.2]
    · have h3 := fun hneg => h.neg first i (le_refl _) h1 h2 hneg
      have h4 := fun hpos => h.pos i (last - 1) h1 (by omega) (by omega) hpos
      omega
  have hrun := tripleSearch_eq_loops hfirst hlast hboth
  have hstart : Narrowed f first last first last :=
    ⟨le_refl _, hlt, le_refl _, fun i h1 h2 => by omega, fun hne => absurd rfl hne,
      fun i h1 h2 => by omega⟩
  rcases tripleSearchLoop_spec h (last - first) hstart (by omega) with
    ⟨low, high, hloop, hn, hone⟩ | ⟨mid, low, high, hloop, hn, hmid1, hmid2, hzero⟩
  · simp only [hloop] at hrun
    by_cases hlow : f low = 0
    · left
      refine ⟨low, high, hn.le_low, hn.low_lt, hn.high_le, by rw [hrun, if_pos hlow], ?_⟩
      intro i h1 h2
      constructor
      · intro hi
        have := hn.eq_zero_iff hone h1 h2 hi
        omega
      · rintro ⟨h3, h4⟩
        rw [show i = low by omega]
        exact hlow
    · right
      have hnone : ∀ i, first ≤ i → i < last → f i ≠ 0 := fun i h1 h2 hi =>
        hlow (hn.eq_zero_iff hone h1 h2 hi ▸ hi)
      refine ⟨?_, hnone⟩
      rw [hrun, if_neg hlow, if_neg (hnone first (le_refl _) hlt),
        if_neg (hnone (last - 1) (by omega) (by omega))]
  · left
    simp only [hloop] at hrun
    have hle_low := hn.le_low
    have hhigh := hn.high_le
    obtain ⟨lo, hlo1, hlo2, hlo3, hlo4, hlo5⟩ :=
      lower_end_spec h (by omega) hle_low hn.low_neg hmid1 (by omega) hzero
    obtain ⟨hi, hhi1, hhi2, hhi3, hhi4, hhi5⟩ :=
      upper_end_spec h (by omega) hmid2 hhigh hzero hn.after
    refine ⟨lo, hi, hlo1, by omega, hhi2, by rw [hrun, hlo5, hhi5], fun i h1 h2 =>
      ⟨fun hi0 => ?_, ?_⟩⟩
    · refine ⟨not_lt.mp fun hc => ?_, not_le.mp fun hc => ?_⟩
      · have := hlo4 i h1 hc
        omega
      · have := hhi4 i hc h2
        omega
    · rintro ⟨h3, h4⟩
      rcases Nat.lt_or_ge i mid with hc | hc
      · have h5 := fun hneg => h.neg lo i hlo1 h3 h2 hneg
        have h6 := fun hpos => h.pos i mid h1 (by omega) (by omega) hpos
        omega
      · exact hhi3 i hc h4

end BackupProgram
