import BackupProgram.Engine.RestoreBackup.Streams
import BackupProgram.Native.Rsync.Reconstruct
import BackupProgram.Native.TripleSearch.Reads

/-!
# The lower bound searches

`BinaryFindFirst` and `find_all` once more, with every access to an element checked: it fails
outside the range, and a loop fails that does not end. Where the predicate is false at first and
true from some element on they find that element, and the predicate of `find_part` is of this kind
on any parts that ascend.
-/

namespace BackupProgram

open Bisection

variable {α : Type} {sequence : List α} {f : α → Bool}

/-! ### The accesses -/

/-- The elements of the range, and no others, can be looked at. -/
def elementIn (sequence : List α) (first last k : Nat) : Except SearchFault α :=
  match sequence[k]? with
  | none => throw .outOfRange
  | some x => if first ≤ k ∧ k < last then pure x else throw .outOfRange

def binaryFindFirstReads (fuel : Nat) (sequence : List α) (geqPredicate : α → Bool) :
    Except SearchFault Nat :=
  lowerBoundRead .outOfFuel (fun k => geqPredicate <$> elementIn sequence 0 sequence.length k) fuel
    0 sequence.length

namespace Rsync

/-- `find_all` on the range from `first` to `last` of a sequence. -/
def findAllReads (fuel : Nat) (sequence : List α) (first last : Nat) (f : α → Bool) :
    Except SearchFault Nat :=
  lowerBoundRead .outOfFuel (fun k => f <$> elementIn sequence first last k) fuel first last

def findPartReads (fuel : Nat) (parts : List SparseFile.Part) (offset : Nat) :
    Except SearchFault Nat :=
  findAllReads fuel parts 0 parts.length (partPredicate offset)

end Rsync

lemma elementIn_eq {first last k : Nat} {x : α} (h1 : first ≤ k) (h2 : k < last)
    (hx : sequence[k]? = some x) : elementIn sequence first last k = .ok x := by
  rw [elementIn, hx]
  exact if_pos ⟨h1, h2⟩

/-- Whatever the predicate, the search ends and looks at elements of the list only. -/
lemma binaryFindFirstReads_eq {fuel : Nat} (hfuel : sequence.length < fuel) :
    binaryFindFirstReads fuel sequence f = .ok (binaryFindFirst sequence f) := by
  have hread : ∀ k, 0 ≤ k → k < sequence.length →
      f <$> elementIn sequence 0 sequence.length k =
        .ok ((sequence[k]?.map f).getD false) := by
    intro k h1 h2
    rw [elementIn_eq h1 h2 (List.getElem?_eq_getElem h2), List.getElem?_eq_getElem h2]
    rfl
  rw [binaryFindFirstReads, lowerBoundRead_eq _ hread (by omega), binaryFindFirst]
  by_cases hempty : sequence.length = 0
  · rw [if_pos hempty, if_pos (by omega)]
  · rw [if_neg hempty, if_neg (by omega)]
    rfl

namespace Rsync

variable {first last fuel offset : Nat} {parts : List SparseFile.Part}

lemma findAllReads_eq {q : Nat → Bool}
    (hq : ∀ k, first ≤ k → k < last → sequence[k]?.map f = some (q k))
    (hfuel : last - first < fuel) :
    findAllReads fuel sequence first last f = .ok (findAll first last q) := by
  refine lowerBoundRead_eq _ (fun k h1 h2 => ?_) hfuel
  obtain ⟨x, hx, hfx⟩ := Option.map_eq_some_iff.mp (hq k h1 h2)
  rw [elementIn_eq h1 h2 hx, ← hfx]
  rfl

lemma findPartReads_eq (hfuel : parts.length < fuel) :
    findPartReads fuel parts offset = .ok (findPart parts offset) := by
  refine findAllReads_eq (fun k _ hk => ?_) hfuel
  rw [List.getD_eq_getElem?_getD, List.getElem?_eq_getElem hk]
  rfl

/-! ### The boundary -/

/-- Within a longer sequence, `find_all` finds the end of the part of its range on which the
predicate is false. -/
lemma findAllReads_append (before after : List α) {pre post : List α}
    (hpre : ∀ x ∈ pre, f x = false)
    (hpost : ∀ x ∈ post, f x = true) (hfuel : (pre ++ post).length < fuel) :
    findAllReads fuel (before ++ (pre ++ post) ++ after) before.length
        (before.length + (pre ++ post).length) f = .ok (before.length + pre.length) := by
  rw [findAllReads_eq (q := fun k => decide (before.length + pre.length ≤ k)) ?_ (by omega)]
  · refine congrArg _ (findAll_eq (Nat.le_add_right _ _) ?_ fun k _ _ => decide_eq_true_iff)
    rw [List.length_append]
    omega
  · intro k h1 h2
    obtain ⟨k, rfl⟩ := Nat.exists_eq_add_of_le h1
    have hk : k < (pre ++ post).length := by omega
    rw [List.append_assoc, List.getElem?_append_right h1, Nat.add_sub_cancel_left,
      List.getElem?_append_left hk]
    rcases Nat.lt_or_ge k pre.length with hlt | hge
    · rw [List.getElem?_append_left hlt, List.getElem?_eq_getElem hlt, Option.map_some,
        hpre _ (List.getElem_mem hlt), decide_eq_false (by omega)]
    · rw [List.length_append] at hk
      have hlt : k - pre.length < post.length := by omega
      rw [List.getElem?_append_right hge, List.getElem?_eq_getElem hlt, Option.map_some,
        hpost _ (List.getElem_mem hlt), decide_eq_true (by omega)]

lemma findAllReads_whole {pre post : List α} (hpre : ∀ x ∈ pre, f x = false)
    (hpost : ∀ x ∈ post, f x = true) (hfuel : (pre ++ post).length < fuel) :
    findAllReads fuel (pre ++ post) 0 (pre ++ post).length f = .ok pre.length := by
  simpa only [List.length_nil, List.nil_append, List.append_nil, Nat.zero_add] using
    findAllReads_append [] [] hpre hpost hfuel

end Rsync

/-- `BinaryFindFirst` is `find_all` on all of a list. -/
lemma binaryFindFirst_append {pre post : List α} (hpre : ∀ x ∈ pre, f x = false)
    (hpost : ∀ x ∈ post, f x = true) : binaryFindFirst (pre ++ post) f = pre.length := by
  have hreads : binaryFindFirstReads ((pre ++ post).length + 1) (pre ++ post) f = _ :=
    binaryFindFirstReads_eq (Nat.lt_succ_self _)
  exact Except.ok.inj (hreads.symm.trans
    (Rsync.findAllReads_whole hpre hpost (Nat.lt_succ_self _)))

namespace Rsync

/-! ### Parts that ascend -/

/-- The offsets of a part, without a wrap-around. -/
def SparseFile.Part.Covers (p : SparseFile.Part) (offset : Nat) : Prop :=
  p.virtualOffset ≤ offset ∧ offset < p.virtualOffset + p.size

/-- Non-empty, disjoint parts, sorted by virtual offset. -/
structure Ascending (parts : List SparseFile.Part) : Prop where
  nonempty : ∀ p ∈ parts, 0 < p.size
  disjoint : parts.Pairwise fun p q => ∀ offset, ¬ (p.Covers offset ∧ q.Covers offset)
  sorted : parts.Pairwise partOrder

variable {parts : List SparseFile.Part} {p q : SparseFile.Part} {offset fuel : Nat}

lemma addU64_le (a b : Nat) : addU64 a b ≤ a + b := Nat.mod_le _ _

/-- Each part ends before the next one starts. -/
lemma Ascending.pairwise_end_le (h : Ascending parts) :
    parts.Pairwise fun p q => p.virtualOffset + p.size ≤ q.virtualOffset := by
  refine List.Pairwise.imp_of_mem ?_ (h.disjoint.and h.sorted)
  rintro p q - hq ⟨hdisjoint, hle⟩
  by_contra hlt
  have hpos := h.nonempty q hq
  exact hdisjoint q.virtualOffset ⟨⟨hle, not_le.mp hlt⟩, le_refl _, by omega⟩

/-- Once the predicate holds of a part, it holds of the later ones, even where the sum wraps
around. -/
lemma Ascending.pairwise_partPredicate (h : Ascending parts) (offset : Nat) :
    parts.Pairwise fun p q => partPredicate offset p = true → partPredicate offset q = true := by
  refine h.pairwise_end_le.imp fun hle hp => partPredicate_eq_true_iff.mpr (Or.inr ?_)
  rename_i p q
  have hend := addU64_le p.virtualOffset p.size
  rcases partPredicate_eq_true_iff.mp hp with ⟨-, hlt⟩ | hge
  · exact (hlt.trans_le hend).le.trans hle
  · exact hge.trans ((Nat.le_add_right _ _).trans hle)

/-- What the predicate finds: the part that covers the offset, unless its end wraps around. -/
lemma Ascending.head?_eq {pre post : List SparseFile.Part} (h : Ascending (pre ++ post))
    (hpre : ∀ p ∈ pre, partPredicate offset p = false)
    (hpost : ∀ p ∈ post, partPredicate offset p = true) (hp : p ∈ pre ++ post)
    (hcovers : p.Covers offset)
    (hend : p.virtualOffset + p.size < 2 ^ 64 ∨ offset = p.virtualOffset) :
    post.head? = some p := by
  have htrue : partPredicate offset p = true := by
    apply partPredicate_eq_true_iff.mpr
    rcases hend with hfits | rfl
    · rw [addU64_of_lt hfits]
      exact Or.inl hcovers
    · exact Or.inr (le_refl _)
  have hmem : p ∈ post := by
    rcases List.mem_append.mp hp with hp | hp
    · rw [hpre p hp] at htrue
      cases htrue
    · exact hp
  cases post with
  | nil => cases hmem
  | cons q post =>
    rcases List.mem_cons.mp hmem with rfl | hmem
    · rfl
    · -- the first part behind the boundary would end before the offset
      exfalso
      have hle := (List.pairwise_cons.mp (List.pairwise_append.mp h.pairwise_end_le).2.1).1 p hmem
      have hpos := h.nonempty q (by simp)
      have hq := addU64_le q.virtualOffset q.size
      have hoffset := hcovers.1
      rcases partPredicate_eq_true_iff.mp (hpost q List.mem_cons_self) with ⟨-, hlt⟩ | hge
      · omega
      · omega

/-- Where no part covers the offset, the boundary separates the parts before it from those behind
it. -/
lemma boundary_of_not_covers {pre post : List SparseFile.Part}
    (hpre : ∀ p ∈ pre, partPredicate offset p = false)
    (hpost : ∀ p ∈ post, partPredicate offset p = true)
    (hnone : ∀ p ∈ pre ++ post, ¬ p.Covers offset) (hpos : ∀ p ∈ pre ++ post, 0 < p.size) :
    (∀ p ∈ pre, p.virtualOffset + p.size ≤ offset) ∧ ∀ p ∈ post, offset < p.virtualOffset := by
  refine ⟨fun p hp => ?_, fun p hp => ?_⟩
  · have hfalse := partPredicate_eq_true_iff.not.mp (Bool.eq_false_iff.mp (hpre p hp))
    have hnot := hnone p (List.mem_append_left _ hp)
    rw [SparseFile.Part.Covers] at hnot
    omega
  · have hnot := hnone p (List.mem_append_right _ hp)
    have hsize := hpos p (List.mem_append_right _ hp)
    have hle := addU64_le p.virtualOffset p.size
    rw [SparseFile.Part.Covers] at hnot
    rcases partPredicate_eq_true_iff.mp (hpost p hp) with ⟨h1, h2⟩ | hge
    · exact absurd ⟨h1, h2.trans_le hle⟩ hnot
    · omega

end Rsync

open Rsync

/-- The searches are correct. `BinaryFindFirst` and `find_all` end, look at elements of their range
only, and find the first element with the property. On parts that ascend, the predicate of
`find_part` is false at first and true from some part on; that part covers the offset if any does,
unless the end of the covering part wraps around, and otherwise it is the first one behind the
offset. -/
theorem lowerBounds_correct :
    (∀ (α : Type) (geqPredicate : α → Bool) (pre post : List α),
      (∀ x ∈ pre, geqPredicate x = false) → (∀ x ∈ post, geqPredicate x = true) →
      binaryFindFirst (pre ++ post) geqPredicate = pre.length ∧
      ∃ n, ∀ fuel ≥ n, binaryFindFirstReads fuel (pre ++ post) geqPredicate =
        .ok (binaryFindFirst (pre ++ post) geqPredicate)) ∧
    (∀ (α : Type) (f : α → Bool) (before pre post after : List α),
      (∀ x ∈ pre, f x = false) → (∀ x ∈ post, f x = true) →
      ∃ n, ∀ fuel ≥ n,
        findAllReads fuel (before ++ (pre ++ post) ++ after) before.length
            (before.length + (pre ++ post).length) f = .ok (before.length + pre.length)) ∧
    ∀ (parts : List SparseFile.Part) (offset : Nat), Ascending parts →
      ∃ pre post, parts = pre ++ post ∧
        (∀ p ∈ pre, partPredicate offset p = false) ∧
        (∀ p ∈ post, partPredicate offset p = true) ∧
        findPart parts offset = pre.length ∧
        (∃ n, ∀ fuel ≥ n, findPartReads fuel parts offset = .ok (findPart parts offset)) ∧
        (∀ p ∈ parts, p.Covers offset →
          p.virtualOffset + p.size < 2 ^ 64 ∨ offset = p.virtualOffset → post.head? = some p) ∧
        ((∀ p ∈ parts, ¬ p.Covers offset) →
          (∀ p ∈ pre, p.virtualOffset + p.size ≤ offset) ∧
          ∀ p ∈ post, offset < p.virtualOffset) := by
  refine ⟨fun α geqPredicate pre post hpre hpost => ?_,
    fun α f before pre post after hpre hpost => ?_, fun parts offset h => ?_⟩
  · exact ⟨binaryFindFirst_append hpre hpost, _, fun fuel => binaryFindFirstReads_eq⟩
  · exact ⟨_, fun fuel => findAllReads_append before after hpre hpost⟩
  · obtain ⟨pre, post, rfl, hpre, hpost⟩ := exists_split (h.pairwise_partPredicate offset)
    exact ⟨pre, post, rfl, hpre, hpost, findPart_append hpre hpost,
      ⟨_, fun fuel => findPartReads_eq⟩,
      fun p hp hcovers hend => h.head?_eq hpre hpost hp hcovers hend,
      fun hnone => boundary_of_not_covers hpre hpost hnone h.nonempty⟩

/-- The two last offsets there are belong to a part whose end wraps around to zero; the second one
is not found in it. -/
theorem findPart_misses_lastOffset :
    ¬ ∀ (parts : List SparseFile.Part) (offset : Nat) (p : SparseFile.Part), offset < 2 ^ 64 →
      (∀ q ∈ parts, q.physicalOffset < 2 ^ 64 ∧ q.virtualOffset < 2 ^ 64 ∧ q.size < 2 ^ 64) →
      Ascending parts → p ∈ parts → p.Covers offset →
      ∃ i n, parts[i]? = some p ∧ ∀ fuel ≥ n, findPartReads fuel parts offset = .ok i := by
  intro h
  have hascending : Ascending [⟨0, 2 ^ 64 - 2, 2⟩] := ⟨by simp, by simp, by simp⟩
  obtain ⟨i, n, hi, hfound⟩ := h _ (2 ^ 64 - 1) ⟨0, 2 ^ 64 - 2, 2⟩ (by norm_num) (by simp)
    hascending (List.mem_singleton_self _) ⟨by norm_num, by norm_num⟩
  have hend : findPart [⟨0, 2 ^ 64 - 2, 2⟩] (2 ^ 64 - 1) = 1 := by decide
  have hreads : findPartReads (n + 2) [⟨0, 2 ^ 64 - 2, 2⟩] (2 ^ 64 - 1) = _ :=
    findPartReads_eq (by simp)
  rw [hfound _ (by omega), hend, Except.ok.injEq] at hreads
  subst hreads
  cases hi

end BackupProgram
