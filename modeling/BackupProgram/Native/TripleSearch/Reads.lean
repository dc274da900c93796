import BackupProgram.Native.TripleSearch

/-!
# What the search reads

`triple_search` once more, with `f` as an access to the memory of the range: it fails outside the
range, and a loop fails that does not end. The search never fails, and finds what it is to find.
-/

namespace BackupProgram

open Bisection

inductive SearchFault where
  | outOfRange
  | outOfFuel
deriving DecidableEq

/-- The elements of the range, and no others, can be looked at. -/
def readIn (first last : Nat) (f : Nat → Int) (i : Nat) : Except SearchFault Int :=
  if first ≤ i ∧ i < last then pure (f i) else throw .outOfRange

def tripleSearchReadsLoop (read : Nat → Except SearchFault Int) :
    Nat → Nat → Nat → Except SearchFault (Option Nat × Nat × Nat)
  | 0, _, _ => throw .outOfFuel
  | fuel + 1, first, last =>
    if first < last - 1 then do
      let pivot := first + (last - first) / 2
      let i ← read pivot
      if i < 0 then tripleSearchReadsLoop read fuel pivot last
      else if i > 0 then tripleSearchReadsLoop read fuel first pivot
      else pure (some pivot, first, last)
    else pure (none, first, last)

def tripleSearchReads (fuel first last : Nat) (read : Nat → Except SearchFault Int) :
    Except SearchFault (Option Nat × Option Nat) :=
  if first = last then pure (some first, some first)
  else do
    let fBegin ← read first
    if fBegin > 0 then pure (some first, some first)
    else
      let fEnd ← read (last - 1)
      if fEnd < 0 then pure (some last, some last)
      else
        let dstBegin := if fBegin = 0 then some first else none
        let dstEnd := if fEnd = 0 then some last else none
        if dstBegin.isSome && dstEnd.isSome then pure (dstBegin, dstEnd)
        else
          match ← tripleSearchReadsLoop read fuel first last with
          | (none, low, high) =>
            let i ← read low
            if i = 0 then pure (some low, some high) else pure (dstBegin, dstEnd)
          | (some mid, low, high) =>
            let dstBegin ←
              if dstBegin.isSome then pure dstBegin
              else do
                let ends ← bisectRead .outOfFuel
                  (fun k => do let i ← read k; pure !decide (i < 0)) fuel low mid
                pure (some ends.2)
            let dstEnd ←
              if dstEnd.isSome then pure dstEnd
              else do
                let ends ← bisectRead .outOfFuel
                  (fun k => do let i ← read k; pure !decide (i ≤ 0)) fuel mid high
                pure (some ends.2)
            pure (dstBegin, dstEnd)

variable {f : Nat → Int} {first last : Nat}

lemma readIn_eq {i : Nat} (h1 : first ≤ i) (h2 : i < last) : readIn first last f i = .ok (f i) := by
  rw [readIn, if_pos ⟨h1, h2⟩]
  rfl

/-- The first loop stays in the range, and so does what it returns. -/
lemma tripleSearchReadsLoop_eq (fuel n : Nat) {low high : Nat} (hlow : first ≤ low)
    (hlt : low < high) (hhigh : high ≤ last) (hfuel : high - low < fuel) (hn : high - low ≤ n + 1) :
    tripleSearchReadsLoop (readIn first last f) fuel low high =
        .ok (tripleSearchLoop f n low high) ∧
      first ≤ (tripleSearchLoop f n low high).2.1 ∧
      (tripleSearchLoop f n low high).2.1 < (tripleSearchLoop f n low high).2.2 ∧
      (tripleSearchLoop f n low high).2.2 ≤ last ∧
      ∀ mid ∈ (tripleSearchLoop f n low high).1, (tripleSearchLoop f n low high).2.1 < mid ∧
        mid < (tripleSearchLoop f n low high).2.2 := by
  induction fuel generalizing n low high with
  | zero => omega
  | succ fuel ih =>
    rw [tripleSearchReadsLoop]
    split_ifs with hgap
    · obtain ⟨n, rfl⟩ : ∃ k, n = k + 1 := ⟨n - 1, by omega⟩
      have hpivot : readIn first last f (low + (high - low) / 2) =
          .ok (f (low + (high - low) / 2)) := readIn_eq (by omega) (by omega)
      rw [tripleSearchLoop, if_pos hgap]
      simp only [hpivot, bind, Except.bind]
      split_ifs
      · exact ih n (by omega) (by omega) hhigh (by omega) (by omega)
      · exact ih n hlow (by omega) (by omega) (by omega) (by omega)
      · refine ⟨rfl, hlow, hlt, hhigh, fun mid hmid => ?_⟩
        obtain rfl := Option.mem_some_iff.mp hmid
        simp only
        omega
    · have hloop : tripleSearchLoop f n low high = (none, low, high) := by
        cases n with
        | zero => rfl
        | succ n => rw [tripleSearchLoop, if_neg hgap]
      rw [hloop]
      exact ⟨rfl, hlow, hlt, hhigh, by simp⟩

/-- All accesses are to the range, and all loops end. -/
lemma tripleSearchReads_eq (hle : first ≤ last) {fuel : Nat} (hfuel : last - first < fuel) :
    tripleSearchReads fuel first last (readIn first last f) = .ok (tripleSearch first last f) := by
  rw [tripleSearchReads, tripleSearch]
  by_cases hempty : first = last
  · rw [if_pos hempty, if_pos (Or.inl hempty)]
    rfl
  have hlt : first < last := by omega
  have hfirst : readIn first last f first = .ok (f first) := readIn_eq (le_refl _) hlt
  have hlast : readIn first last f (last - 1) = .ok (f (last - 1)) :=
    readIn_eq (by omega) (by omega)
  rw [if_neg hempty]
  by_cases hpos : f first > 0
  · rw [if_pos (Or.inr hpos)]
    simp only [hfirst, bind, Except.bind, if_pos hpos]
    rfl
  rw [if_neg (by simp [hempty, hpos])]
  by_cases hneg : f (last - 1) < 0
  · simp only [hfirst, hlast, bind, Except.bind, if_neg hpos, if_pos hneg]
    rfl
  simp only [hfirst, hlast, bind, Except.bind, if_neg hpos, if_neg hneg]
  generalize hb : (if f first = 0 then some first else none) = dstBegin
  generalize he : (if f (last - 1) = 0 then some last else none) = dstEnd
  by_cases hboth : (dstBegin.isSome && dstEnd.isSome) = true
  · rw [if_pos hboth, if_pos hboth]
    rfl
  rw [if_neg hboth, if_neg hboth]
  obtain ⟨hloop, hlow, hlt', hhigh, hmid⟩ :=
    tripleSearchReadsLoop_eq (f := f) fuel (last - first) (le_refl first) hlt (le_refl last)
      hfuel (by omega)
  rw [hloop]
  generalize tripleSearchLoop f (last - first) first last = out at *
  obtain ⟨_ | mid, low, high⟩ := out
  · -- a single element is left
    simp only at hlow hlt' hhigh
    simp only [readIn_eq hlow (hlt'.trans_le hhigh)]
    split_ifs <;> rfl
  · obtain ⟨h1, h2⟩ := hmid mid rfl
    simp only at hlow hlt' hhigh h1 h2
    have hread : ∀ k, first ≤ k → k < last → readIn first last f k = .ok (f k) :=
      fun k => readIn_eq
    have hlower := bisectRead_eq SearchFault.outOfFuel (q := fun i => !decide (f i < 0))
      (p := fun k => do let i ← readIn first last f k; pure !decide (i < 0)) fuel
      (mid - low) low mid
      (fun k hk1 hk2 => by rw [hread k (by omega) (by omega)]; rfl)
      (by omega) (by omega)
    have hupper := bisectRead_eq SearchFault.outOfFuel (q := fun i => !decide (f i ≤ 0))
      (p := fun k => do let i ← readIn first last f k; pure !decide (i ≤ 0)) fuel (high - mid) mid
      high
      (fun k hk1 hk2 => by rw [hread k (by omega) (by omega)]; rfl)
      (by omega) (by omega)
    simp only [bind, Except.bind] at hlower hupper
    simp only [hlower, hupper]
    split_ifs <;> rfl

/-- The search keeps its contract: it ends, looks at elements of the range only, and returns the
sub-range of the zero elements; without any, the two results are equal, and lie at the end of the
range from which all elements point away. -/
theorem tripleSearchReads_contract (hle : first ≤ last) (h : TripleSorted f first last) {fuel : Nat}
    (hfuel : last - first < fuel) :
    ∃ dstBegin dstEnd,
      tripleSearchReads fuel first last (readIn first last f) = .ok (dstBegin, dstEnd) ∧
      ((∃ i, first ≤ i ∧ i < last ∧ f i = 0) →
        ∃ lo hi, dstBegin = some lo ∧ dstEnd = some hi ∧ first ≤ lo ∧ lo < hi ∧ hi ≤ last ∧
          ∀ i, first ≤ i → i < last → (f i = 0 ↔ lo ≤ i ∧ i < hi)) ∧
      ((∀ i, first ≤ i → i < last → f i ≠ 0) → dstBegin = dstEnd) ∧
      ((∀ i, first ≤ i → i < last → 0 < f i) → dstBegin = some first ∧ dstEnd = some first) ∧
      ((∀ i, first ≤ i → i < last → f i < 0) → dstBegin = some last ∧ dstEnd = some last) := by
  refine ⟨(tripleSearch first last f).1, (tripleSearch first last f).2,
    tripleSearchReads_eq hle hfuel, ?_, ?_, fun hpos => ?_, fun hneg => ?_⟩
  · rintro ⟨i, h1, h2, hi⟩
    rcases tripleSearch_spec hle h with ⟨lo, hi', hlo, hlt, hle', heq, hiff⟩ | ⟨-, hnone⟩
    · exact ⟨lo, hi', by rw [heq], by rw [heq], hlo, hlt, hle', hiff⟩
    · exact absurd hi (hnone i h1 h2)
  · intro hnone
    rcases tripleSearch_spec hle h with ⟨lo, hi, hlo, hlt, hle', -, hiff⟩ | ⟨heq, -⟩
    · exact absurd ((hiff lo hlo (by omega)).mpr ⟨le_refl _, hlt⟩) (hnone lo hlo (by omega))
    · exact heq
  · have hearly : first = last ∨ f first > 0 := by
      rcases Nat.eq_or_lt_of_le hle with heq | hlt
      · exact Or.inl heq
      · exact Or.inr (hpos first (le_refl _) hlt)
    rw [tripleSearch, if_pos hearly]
    exact ⟨rfl, rfl⟩
  · rcases Nat.eq_or_lt_of_le hle with rfl | hlt
    · rw [tripleSearch, if_pos (Or.inl rfl)]
      exact ⟨rfl, rfl⟩
    · have hfirst := hneg first (le_refl _) hlt
      have hlast := hneg (last - 1) (by omega) (by omega)
      rw [tripleSearch, if_neg (by omega), if_pos hlast]
      exact ⟨rfl, rfl⟩

/-- The middle one of three elements is zero. -/
theorem tripleSearchReads_contract_three :
    ∃ dstBegin dstEnd, tripleSearchReads 4 0 3 (readIn 0 3 fun i => (i : Int) - 1) =
        .ok (dstBegin, dstEnd) ∧
      ∃ lo hi, dstBegin = some lo ∧ dstEnd = some hi ∧
        ∀ i : Nat, 0 ≤ i → i < 3 → ((i : Int) - 1 = 0 ↔ lo ≤ i ∧ i < hi) := by
  have hsorted : TripleSorted (fun i => (i : Int) - 1) 0 3 :=
    ⟨fun i j _ h _ hj => by omega, fun i j _ h _ hi => by omega⟩
  obtain ⟨dstBegin, dstEnd, hsearch, hzero, -⟩ :=
    tripleSearchReads_contract (by norm_num) hsorted (show 3 - 0 < 4 by norm_num)
  obtain ⟨lo, hi, hbegin, hend, -, -, -, hiff⟩ := hzero ⟨1, by norm_num, by norm_num, rfl⟩
  exact ⟨dstBegin, dstEnd, hsearch, lo, hi, hbegin, hend, hiff⟩

end BackupProgram
