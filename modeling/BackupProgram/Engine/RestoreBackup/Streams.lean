import BackupProgram.Engine.RestoreBackup.Objects

/-!
# What the streams leave on the disk

A stream goes to the first object on the sorted list whose stream id is not less than its own. The
objects that share a stream id become names of one file, and what is in it in the end is the last
stream that has gone to the first of them.
-/

namespace BackupProgram

open StateResults

/-- The search finds the first element with the property if all later ones have it as well. -/
lemma binaryFindFirst_eq {α : Type} {sequence : List α} {geqPredicate : α → Bool}
    (h : sequence.Pairwise fun a b => geqPredicate a = true → geqPredicate b = true) :
    binaryFindFirst sequence geqPredicate = sequence.findIdx geqPredicate := by
  have hgeq : ∀ k, k < sequence.length →
      ((sequence[k]?.map geqPredicate).getD false = true ↔
        sequence.findIdx geqPredicate ≤ k) := by
    intro k hk
    rw [List.getElem?_eq_getElem hk, Option.map_some, Option.getD_some]
    constructor
    · intro hp
      by_contra hlt
      rw [List.not_of_lt_findIdx (not_le.mp hlt)] at hp
      cases hp
    · intro hle
      have hfound := List.findIdx_getElem (w := hle.trans_lt hk)
      rcases hle.eq_or_lt with heq | hlt
      · simpa only [heq] using hfound
      · exact List.pairwise_iff_getElem.mp h _ _ _ hk hlt hfound
  simp only [binaryFindFirst, ← Nat.le_zero]
  exact Bisection.lowerBound_boundary (Nat.le_succ _) (Nat.zero_le _) List.findIdx_le_length
    fun k _ hk => hgeq k hk

variable {env : RestoreEnv} {d d' : Disk} {restoreLater : List Deferred} {x y : Deferred}
  {targets targets' : List (Nat × Str)} {id : Nat} {bytes : List Byte} {p : Location}

/-! ### One stream -/

/-- The object that a stream goes to. -/
def goesTo (restoreLater : List Deferred) (id : Nat) : Option Deferred :=
  restoreLater.find? fun x => decide (id ≤ x.streamUniqueId)

/-- The list is sorted by stream id. -/
abbrev Sorted (restoreLater : List Deferred) : Prop :=
  restoreLater.Pairwise fun x y => x.streamUniqueId ≤ y.streamUniqueId

lemma Sorted.binaryFindFirst_eq (h : Sorted restoreLater) (id : Nat) :
    binaryFindFirst restoreLater (fun x => decide (id ≤ x.streamUniqueId)) =
      restoreLater.findIdx fun x => decide (id ≤ x.streamUniqueId) := by
  refine BackupProgram.binaryFindFirst_eq (List.Pairwise.imp (fun hxy hx => ?_) h)
  simp only [decide_eq_true_eq] at hx ⊢
  omega

lemma createFile_eq_ok {loc : Location} {u : Unit} (hlink : ∀ t, d.get? loc ≠ some (.fileLink t))
    (h : createFile env loc bytes d = .ok u d') :
    ∃ i, (d.get? loc = some (.file i) ∨ d.get? loc = none ∧ ∀ p, d.get? p ≠ some (.file i)) ∧
      (∀ p, d'.get? p = if p = loc then some (.file i) else d.get? p) ∧
      d'.contents = Function.update d.contents i bytes := by
  simp only [createFile, bind_eq_ok, get_eq_ok] at h
  obtain ⟨_, _, haccess, _, _, ⟨rfl, rfl⟩, h⟩ := h
  rw [checkAccess_eq_ok haccess] at h
  have hopened : openedLocation env d loc = some loc := by
    rw [openedLocation]
    split
    · rename_i t ht
      exact absurd ht (hlink t)
    · rfl
  simp only [hopened] at h
  rcases hentry : d.get? loc with _ | (_ | i | _ | _)
  all_goals simp only [hentry] at h
  · -- a new file
    simp only [bind_eq_ok, get_eq_ok, set_eq_ok] at h
    obtain ⟨_, d₁, hcreate, _, _, ⟨rfl, rfl⟩, rfl⟩ := h
    have hcreate := create_eq_ok hcreate
    refine ⟨d.freshId, .inr ⟨rfl, fun p hp => ?_⟩, fun p => ?_, ?_⟩
    · exact absurd (Disk.lt_freshId hp) (lt_irrefl _)
    · rw [Disk.get?_write, Disk.get?_create hcreate]
    · rw [Disk.contents_write, Disk.contents_create hcreate]
  · cases h
  · -- a file that exists
    rw [set_eq_ok] at h
    rw [← h]
    refine ⟨i, .inl rfl, fun p => ?_, rfl⟩
    split_ifs with heq
    · rw [Disk.get?_write, heq, hentry]
    · rfl
  · cases h
  · cases h

/-- Further names of the file of `x`; there is nothing at them before. -/
lemma restoreHardlinks_eq_ok {i : Nat} (ys : List Deferred)
    (hx : d.get? (x.location env) = some (.file i))
    (h : ys.foldlM (restoreHardlink env x) targets d = .ok targets' d') :
    (∀ p, d'.get? p = if ∃ y ∈ ys, p = y.location env then some (.file i) else d.get? p) ∧
      d'.contents = d.contents := by
  induction ys generalizing d targets with
  | nil =>
    obtain ⟨-, rfl⟩ := pure_eq_ok.mp h
    simp
  | cons y ys ih =>
    rw [List.foldlM_cons, bind_eq_ok] at h
    obtain ⟨targets₁, _, hfirst, hrest⟩ := h
    simp only [restoreHardlink, ite_throw_eq_ok, bind_eq_ok, pure_eq_ok] at hfirst
    obtain ⟨-, _, d₁, hlink, -, rfl⟩ := hfirst
    obtain ⟨hnone, entry, hentry, hcreate⟩ := createHardlink_eq_ok hlink
    obtain rfl : entry = .file i := Option.some.inj (hentry.symm.trans hx)
    have hget : ∀ p, d₁.get? p = if p = y.location env then some (.file i) else d.get? p :=
      fun p => Disk.get?_create hcreate
    have hne : x.location env ≠ y.location env := by
      intro heq
      rw [heq, hnone] at hx
      cases hx
    have hx₁ : d₁.get? (x.location env) = some (.file i) := by
      rw [hget, if_neg hne, hx]
    obtain ⟨hys, hcontents⟩ := ih hx₁ hrest
    refine ⟨fun p => ?_, hcontents.trans (Disk.contents_create hcreate)⟩
    rw [hys, hget]
    simp only [List.mem_cons, exists_eq_or_imp]
    by_cases hp : p = y.location env
    · simp [hp]
    · simp [hp]

lemma restoreStream_of_goesTo_eq_none (hsorted : Sorted restoreLater)
    (hnone : goesTo restoreLater id = none)
    (h : restoreStream env restoreLater targets id bytes d = .ok targets' d') : d' = d := by
  rw [goesTo, List.find?_eq_getElem?_findIdx, ← hsorted.binaryFindFirst_eq] at hnone
  rw [restoreStream] at h
  simp only [hnone] at h
  exact (pure_eq_ok.mp h).2.symm

/-- A stream gets into a file that is there, or into a new one, under the name of the object it goes
to and the names of those that share its id. -/
lemma restoreStream_of_goesTo_eq_some (hsorted : Sorted restoreLater)
    (hx : goesTo restoreLater id = some x)
    (hlink : ∀ t, d.get? (x.location env) ≠ some (.fileLink t))
    (h : restoreStream env restoreLater targets id bytes d = .ok targets' d') :
    ∃ i ys, ys = peers restoreLater (restoreLater.findIdx fun x => decide (id ≤ x.streamUniqueId))
        id ∧
      (d.get? (x.location env) = some (.file i) ∨
        d.get? (x.location env) = none ∧ ∀ p, d.get? p ≠ some (.file i)) ∧
      (∀ p, d'.get? p =
        if p = x.location env ∨ ∃ y ∈ ys, p = y.location env then some (.file i) else d.get? p) ∧
      d'.contents = Function.update d.contents i bytes := by
  rw [goesTo, List.find?_eq_getElem?_findIdx, ← hsorted.binaryFindFirst_eq] at hx
  rw [restoreStream] at h
  simp only [hx, bind_eq_ok] at h
  obtain ⟨_, d₁, hcreate, hlinks⟩ := h
  obtain ⟨i, hi, hget, hcontents⟩ := createFile_eq_ok hlink hcreate
  have hx₁ : d₁.get? (x.location env) = some (.file i) := by
    rw [hget, if_pos rfl]
  obtain ⟨hget', hcontents'⟩ := restoreHardlinks_eq_ok _ hx₁ hlinks
  refine ⟨i, _, rfl, hi, fun p => ?_, hcontents'.trans hcontents⟩
  rw [hget', hsorted.binaryFindFirst_eq, hget]
  by_cases hp : p = x.location env
  · simp [hp]
  · simp [hp]

/-! ### Which object a stream goes to -/

/-- The objects in front have less than the id, those behind are sorted. -/
lemma exists_append_of_goesTo (hx : goesTo restoreLater id = some x) :
    ∃ before behind, restoreLater = before ++ x :: behind ∧
      (∀ y ∈ before, y.streamUniqueId < id) ∧ id ≤ x.streamUniqueId ∧
      peers restoreLater (restoreLater.findIdx fun x => decide (id ≤ x.streamUniqueId)) id =
        behind.takeWhile fun y => y.streamUniqueId == id := by
  obtain ⟨hfound, before, behind, rfl, hbefore⟩ := List.find?_eq_some_iff_append.mp hx
  have hlt : ∀ y ∈ before, y.streamUniqueId < id := by
    intro y hy
    simpa using hbefore y hy
  refine ⟨before, behind, rfl, hlt, by simpa using hfound, ?_⟩
  have hindex : (before ++ x :: behind).findIdx (fun x => decide (id ≤ x.streamUniqueId)) =
      before.length := by
    rw [List.findIdx_append, List.findIdx_eq_length_of_false (by simpa using hlt),
      if_neg (lt_irrefl _), List.findIdx_cons, hfound]
    simp
  rw [peers, hindex, ← List.drop_drop, List.drop_left, List.drop_one, List.tail_cons]

lemma mem_of_goesTo (hx : goesTo restoreLater id = some x) :
    x ∈ restoreLater ∧ id ≤ x.streamUniqueId := by
  obtain ⟨before, behind, rfl, -, hle, -⟩ := exists_append_of_goesTo hx
  exact ⟨by simp, hle⟩

lemma goesTo_of_mem (hy : y ∈ restoreLater) (hle : id ≤ y.streamUniqueId) :
    ∃ x, goesTo restoreLater id = some x := by
  rw [← Option.isSome_iff_exists, goesTo, List.find?_isSome]
  exact ⟨y, hy, by simpa using hle⟩

lemma goesTo_le (hsorted : Sorted restoreLater) (hx : goesTo restoreLater id = some x)
    (hy : y ∈ restoreLater) (hle : id ≤ y.streamUniqueId) :
    x.streamUniqueId ≤ y.streamUniqueId := by
  obtain ⟨before, behind, rfl, hbefore, -, -⟩ := exists_append_of_goesTo hx
  rcases List.mem_append.mp hy with hy | hy
  · have := hbefore y hy
    omega
  · rcases List.mem_cons.mp hy with rfl | hy
    · exact le_rfl
    · exact (List.pairwise_cons.mp (List.pairwise_append.mp hsorted).2.1).1 y hy

/-- The same object is the first with its own id. -/
lemma goesTo_self (hx : goesTo restoreLater id = some x) :
    goesTo restoreLater x.streamUniqueId = some x := by
  obtain ⟨before, behind, rfl, hbefore, hle, -⟩ := exists_append_of_goesTo hx
  rw [goesTo, List.find?_eq_some_iff_append]
  refine ⟨by simp, before, behind, rfl, fun y hy => ?_⟩
  have := hbefore y hy
  simp only [Bool.not_eq_true', decide_eq_false_iff_not]
  omega

lemma mem_of_mem_peers (hx : goesTo restoreLater id = some x)
    (hy : y ∈ peers restoreLater
      (restoreLater.findIdx fun x => decide (id ≤ x.streamUniqueId)) id) :
    y ∈ restoreLater ∧ y.streamUniqueId = id := by
  obtain ⟨before, behind, rfl, -, -, hpeers⟩ := exists_append_of_goesTo hx
  rw [hpeers] at hy
  refine ⟨?_, by simpa using List.mem_takeWhile_imp hy⟩
  have hmem : y ∈ behind := (List.takeWhile_sublist _).subset hy
  simp [hmem]

/-- The objects with the least id stand in front. -/
lemma mem_takeWhile_of_sorted {l : List Deferred} (hsorted : Sorted l)
    (hge : ∀ z ∈ l, id ≤ z.streamUniqueId) (hy : y ∈ l) (hid : y.streamUniqueId = id) :
    y ∈ l.takeWhile fun z => z.streamUniqueId == id := by
  induction l with
  | nil => cases hy
  | cons z l ih =>
    obtain ⟨hz, hl⟩ := List.pairwise_cons.mp hsorted
    have hzid : z.streamUniqueId = id := by
      have hge := hge z List.mem_cons_self
      rcases List.mem_cons.mp hy with rfl | hy
      · exact hid
      · have hle := hz y hy
        omega
    rw [List.takeWhile_cons, if_pos (by simpa using hzid)]
    rcases List.mem_cons.mp hy with rfl | hy
    · exact List.mem_cons_self
    · exact List.mem_cons_of_mem _ (ih hl (fun z hz => hge z (List.mem_cons_of_mem _ hz)) hy)

/-- All objects with the id of the stream get its file. -/
lemma eq_or_mem_peers (hsorted : Sorted restoreLater) (hx : goesTo restoreLater id = some x)
    (hy : y ∈ restoreLater) (hid : y.streamUniqueId = id) :
    y = x ∨ y ∈ peers restoreLater
      (restoreLater.findIdx fun x => decide (id ≤ x.streamUniqueId)) id := by
  obtain ⟨before, behind, rfl, hbefore, hle, hpeers⟩ := exists_append_of_goesTo hx
  rw [hpeers]
  rcases List.mem_append.mp hy with hy | hy
  · have := hbefore y hy
    omega
  rcases List.mem_cons.mp hy with rfl | hy
  · exact .inl rfl
  · obtain ⟨hxle, hbehind⟩ := List.pairwise_cons.mp (List.pairwise_append.mp hsorted).2.1
    exact .inr (mem_takeWhile_of_sorted hbehind (fun z hz => hle.trans (hxle z hz)) hy hid)

/-! ### Which streams have gone to an object -/

/-- The last of the streams that go to the first object with an id. -/
def given (restoreLater : List Deferred) (events : List (Nat × List Byte)) (id : Nat) :
    Option (List Byte) :=
  ((events.filter fun event =>
    (goesTo restoreLater event.1).map Deferred.streamUniqueId = some id).getLast?).map Prod.snd

lemma given_append (events : List (Nat × List Byte)) (event : Nat × List Byte) (id : Nat) :
    given restoreLater (events ++ [event]) id =
      if (goesTo restoreLater event.1).map Deferred.streamUniqueId = some id then some event.2
      else given restoreLater events id := by
  rw [given, List.filter_append, List.filter_cons, List.filter_nil]
  by_cases h : (goesTo restoreLater event.1).map Deferred.streamUniqueId = some id
  · rw [if_pos (decide_eq_true h), if_pos h, List.getLast?_concat, Option.map_some]
  · rw [if_neg (by simpa using h), if_neg h, List.append_nil, given]

/-- The files that the streams so far have made: one for all objects of an id, none for objects of
different ids, with the last of the streams that have gone to the first of these objects; an object
whose own stream has gone by has a file. -/
structure Restored (env : RestoreEnv) (restoreLater : List Deferred)
    (events : List (Nat × List Byte)) (d : Disk) : Prop where
  noLink : ∀ x ∈ restoreLater, ∀ t, d.get? (x.location env) ≠ some (.fileLink t)
  separate : ∀ x ∈ restoreLater, ∀ y ∈ restoreLater, ∀ i, d.get? (x.location env) = some (.file i) →
    d.get? (y.location env) = some (.file i) → x.streamUniqueId = y.streamUniqueId
  shared : ∀ x ∈ restoreLater, ∀ y ∈ restoreLater, x.streamUniqueId = y.streamUniqueId → ∀ i j,
    d.get? (x.location env) = some (.file i) → d.get? (y.location env) = some (.file j) → i = j
  content : ∀ x ∈ restoreLater, ∀ i, d.get? (x.location env) = some (.file i) →
    given restoreLater events x.streamUniqueId = some (d.contents i)
  first : ∀ x id, goesTo restoreLater id = some x →
    given restoreLater events x.streamUniqueId ≠ none →
    ∃ i, d.get? (x.location env) = some (.file i)
  own : ∀ event ∈ events, ∀ x ∈ restoreLater, x.streamUniqueId = event.1 →
    ∃ i, d.get? (x.location env) = some (.file i)

lemma restored_nil (hclear : ∀ x ∈ restoreLater, d.fileExists (x.location env) = false) :
    Restored env restoreLater [] d := by
  have hfile : ∀ x ∈ restoreLater, ∀ i, d.get? (x.location env) ≠ some (.file i) := by
    intro x hx i hi
    have h := hclear x hx
    rw [Disk.fileExists, hi] at h
    cases h
  refine ⟨fun x hx t ht => ?_, fun x hx y _ i hi => absurd hi (hfile x hx i),
    fun x hx y _ _ i j hi => absurd hi (hfile x hx i), fun x hx i hi => absurd hi (hfile x hx i),
    fun x id _ hne => absurd rfl hne, fun event hevent => by cases hevent⟩
  have h := hclear x hx
  rw [Disk.fileExists, ht] at h
  cases h

/-- The objects that a stream makes names of its file all have the id of the one it goes to. -/
lemma streamUniqueId_of_location_eq (hsorted : Sorted restoreLater)
    (hdistinct : ∀ x ∈ restoreLater, ∀ y ∈ restoreLater,
      x.location env = y.location env → x.streamUniqueId = y.streamUniqueId)
    (hx : goesTo restoreLater id = some x) (hy : y ∈ restoreLater)
    (hnamed : y.location env = x.location env ∨ ∃ z ∈ peers restoreLater
      (restoreLater.findIdx fun x => decide (id ≤ x.streamUniqueId)) id,
        y.location env = z.location env) : y.streamUniqueId = x.streamUniqueId := by
  obtain ⟨hmem, hle⟩ := mem_of_goesTo hx
  rcases hnamed with heq | ⟨z, hz, heq⟩
  · exact hdistinct y hy x hmem heq
  · obtain ⟨hzmem, hzid⟩ := mem_of_mem_peers hx hz
    have hyz := hdistinct y hy z hzmem heq
    have hxz := goesTo_le hsorted hx hzmem hzid.ge
    omega

/-- A stream that goes to no object is left alone. -/
lemma Restored.step_ignored {events : List (Nat × List Byte)} (hsorted : Sorted restoreLater)
    (hinv : Restored env restoreLater events d) (hx : goesTo restoreLater id = none)
    (h : restoreStream env restoreLater targets id bytes d = .ok targets' d') :
    Restored env restoreLater (events ++ [(id, bytes)]) d' := by
  obtain rfl := restoreStream_of_goesTo_eq_none hsorted hx h
  have hgiven : ∀ id', given restoreLater (events ++ [(id, bytes)]) id' =
      given restoreLater events id' := by
    intro id'
    rw [given_append, hx, if_neg (by simp)]
  refine ⟨hinv.noLink, hinv.separate, hinv.shared, ?_, ?_, fun event hevent y hy hid => ?_⟩
  · simpa only [hgiven] using hinv.content
  · simpa only [hgiven] using hinv.first
  · rcases List.mem_append.mp hevent with hevent | hevent
    · exact hinv.own event hevent y hy hid
    · rw [List.mem_singleton.mp hevent] at hid
      obtain ⟨x, hsome⟩ := goesTo_of_mem hy hid.ge
      rw [hx] at hsome
      cases hsome

/-- The file of an object with the same id as the one that a stream goes to is the file of that
one. -/
lemma Restored.file_eq {events : List (Nat × List Byte)}
    (hinv : Restored env restoreLater events d) (hx : goesTo restoreLater id = some x) {i j : Nat}
    (hi : d.get? (x.location env) = some (.file i) ∨ d.get? (x.location env) = none)
    (hy : y ∈ restoreLater) (hid : y.streamUniqueId = x.streamUniqueId)
    (hj : d.get? (y.location env) = some (.file j)) : j = i := by
  have hgiven := hinv.content y hy j hj
  rw [hid] at hgiven
  obtain ⟨k, hk⟩ := hinv.first x id hx (by rw [hgiven]; simp)
  rcases hi with hi | hnone
  · exact hinv.shared y hy x (mem_of_goesTo hx).1 hid j i hj hi
  · rw [hnone] at hk
    cases hk

/-- What a stream that goes to `x` does to the objects on the list: they become names of file `i`,
or else are neither at the same place as `x` nor wait for this stream, and stay as they are. -/
structure Gives (env : RestoreEnv) (restoreLater : List Deferred) (id : Nat) (bytes : List Byte)
    (x : Deferred) (i : Nat) (d d' : Disk) : Prop where
  goesTo_eq : goesTo restoreLater id = some x
  free : d.get? (x.location env) = some (.file i) ∨
    d.get? (x.location env) = none ∧ ∀ p, d.get? p ≠ some (.file i)
  named_or_kept : ∀ y ∈ restoreLater,
    y.streamUniqueId = x.streamUniqueId ∧ d'.get? (y.location env) = some (.file i) ∨
      y.location env ≠ x.location env ∧ y.streamUniqueId ≠ id ∧
        d'.get? (y.location env) = d.get? (y.location env)
  contents_eq : d'.contents = Function.update d.contents i bytes

lemma exists_gives (hsorted : Sorted restoreLater)
    (hdistinct : ∀ x ∈ restoreLater, ∀ y ∈ restoreLater,
      x.location env = y.location env → x.streamUniqueId = y.streamUniqueId)
    (hlink : ∀ t, d.get? (x.location env) ≠ some (.fileLink t))
    (hx : goesTo restoreLater id = some x)
    (h : restoreStream env restoreLater targets id bytes d = .ok targets' d') :
    ∃ i, Gives env restoreLater id bytes x i d d' := by
  obtain ⟨i, ys, rfl, hi, hget, hcontents⟩ := restoreStream_of_goesTo_eq_some hsorted hx hlink h
  refine ⟨i, hx, hi, fun y hy => ?_, hcontents⟩
  by_cases hnamed : y.location env = x.location env ∨ ∃ z ∈ peers restoreLater
      (restoreLater.findIdx fun x => decide (id ≤ x.streamUniqueId)) id,
        y.location env = z.location env
  · left
    exact ⟨streamUniqueId_of_location_eq hsorted hdistinct hx hy hnamed,
      (hget _).trans (if_pos hnamed)⟩
  · right
    refine ⟨fun heq => hnamed (.inl heq), fun hid => ?_, (hget _).trans (if_neg hnamed)⟩
    rcases eq_or_mem_peers hsorted hx hy hid with rfl | hpeer
    · exact hnamed (.inl rfl)
    · exact hnamed (.inr ⟨y, hpeer, rfl⟩)

section Step

variable {events : List (Nat × List Byte)} {i : Nat}

lemma Gives.given_append (h : Gives env restoreLater id bytes x i d d') (id' : Nat) :
    given restoreLater (events ++ [(id, bytes)]) id' =
      if x.streamUniqueId = id' then some bytes else given restoreLater events id' := by
  rw [BackupProgram.given_append, h.goesTo_eq, Option.map_some]
  simp only [Option.some.injEq]

/-- A file that was there under the number is the one of `x`. -/
lemma Gives.streamUniqueId_eq (h : Gives env restoreLater id bytes x i d d')
    (hinv : Restored env restoreLater events d) (hy : y ∈ restoreLater)
    (hi : d.get? (y.location env) = some (.file i)) : x.streamUniqueId = y.streamUniqueId := by
  refine hinv.separate x (mem_of_goesTo h.goesTo_eq).1 y hy i ?_ hi
  exact h.free.resolve_right fun hfresh => hfresh.2 _ hi

lemma Gives.file_eq (h : Gives env restoreLater id bytes x i d d')
    (hinv : Restored env restoreLater events d) (hy : y ∈ restoreLater)
    (hid : y.streamUniqueId = x.streamUniqueId) {j : Nat}
    (hj : d.get? (y.location env) = some (.file j)) : j = i :=
  hinv.file_eq h.goesTo_eq (h.free.imp_right And.left) hy hid hj

lemma Gives.separate (h : Gives env restoreLater id bytes x i d d')
    (hinv : Restored env restoreLater events d) {z : Deferred} (hy : y ∈ restoreLater)
    (hz : z ∈ restoreLater) {j : Nat} (hyj : d'.get? (y.location env) = some (.file j))
    (hzj : d'.get? (z.location env) = some (.file j)) : y.streamUniqueId = z.streamUniqueId := by
  rcases h.named_or_kept y hy with ⟨hyid, hynew⟩ | ⟨-, -, hyold⟩ <;>
    rcases h.named_or_kept z hz with ⟨hzid, hznew⟩ | ⟨-, -, hzold⟩
  · exact hyid.trans hzid.symm
  · cases hynew.symm.trans hyj
    exact hyid.trans (h.streamUniqueId_eq hinv hz (hzold ▸ hzj))
  · cases hznew.symm.trans hzj
    exact (hzid.trans (h.streamUniqueId_eq hinv hy (hyold ▸ hyj))).symm
  · exact hinv.separate y hy z hz j (hyold ▸ hyj) (hzold ▸ hzj)

lemma Gives.shared (h : Gives env restoreLater id bytes x i d d')
    (hinv : Restored env restoreLater events d) {z : Deferred} (hy : y ∈ restoreLater)
    (hz : z ∈ restoreLater) (hid : y.streamUniqueId = z.streamUniqueId) {j k : Nat}
    (hyj : d'.get? (y.location env) = some (.file j))
    (hzk : d'.get? (z.location env) = some (.file k)) : j = k := by
  rcases h.named_or_kept y hy with ⟨hyid, hynew⟩ | ⟨-, -, hyold⟩ <;>
    rcases h.named_or_kept z hz with ⟨hzid, hznew⟩ | ⟨-, -, hzold⟩
  · cases hynew.symm.trans hyj
    cases hznew.symm.trans hzk
    rfl
  · cases hynew.symm.trans hyj
    exact (h.file_eq hinv hz (hid.symm.trans hyid) (hzold ▸ hzk)).symm
  · cases hznew.symm.trans hzk
    exact h.file_eq hinv hy (hid.trans hzid) (hyold ▸ hyj)
  · exact hinv.shared y hy z hz hid j k (hyold ▸ hyj) (hzold ▸ hzk)

lemma Gives.content (h : Gives env restoreLater id bytes x i d d')
    (hinv : Restored env restoreLater events d) (hy : y ∈ restoreLater) {j : Nat}
    (hj : d'.get? (y.location env) = some (.file j)) :
    given restoreLater (events ++ [(id, bytes)]) y.streamUniqueId = some (d'.contents j) := by
  rw [h.given_append, h.contents_eq]
  rcases h.named_or_kept y hy with ⟨hid, hnew⟩ | ⟨-, -, hold⟩
  · cases hnew.symm.trans hj
    rw [if_pos hid.symm, Function.update_self]
  · rw [hold] at hj
    by_cases hji : j = i
    · subst hji
      rw [Function.update_self, if_pos (h.streamUniqueId_eq hinv hy hj)]
    · rw [Function.update_of_ne hji, if_neg fun hid => hji (h.file_eq hinv hy hid.symm hj)]
      exact hinv.content y hy j hj

lemma Gives.first (h : Gives env restoreLater id bytes x i d d')
    (hinv : Restored env restoreLater events d) {id' : Nat} (hy : goesTo restoreLater id' = some y)
    (hne : given restoreLater (events ++ [(id, bytes)]) y.streamUniqueId ≠ none) :
    ∃ i, d'.get? (y.location env) = some (.file i) := by
  rcases h.named_or_kept y (mem_of_goesTo hy).1 with ⟨-, hnew⟩ | ⟨hplace, -, hold⟩
  · exact ⟨i, hnew⟩
  · rw [hold]
    rw [h.given_append] at hne
    by_cases hid : x.streamUniqueId = y.streamUniqueId
    · -- the first object with the id is `x`
      have hfirst := goesTo_self hy
      rw [← hid, goesTo_self h.goesTo_eq] at hfirst
      cases hfirst
      exact absurd rfl hplace
    · rw [if_neg hid] at hne
      exact hinv.first y id' hy hne

lemma Restored.step (hsorted : Sorted restoreLater)
    (hdistinct : ∀ x ∈ restoreLater, ∀ y ∈ restoreLater,
      x.location env = y.location env → x.streamUniqueId = y.streamUniqueId)
    (hinv : Restored env restoreLater events d)
    (h : restoreStream env restoreLater targets id bytes d = .ok targets' d') :
    Restored env restoreLater (events ++ [(id, bytes)]) d' := by
  rcases hx : goesTo restoreLater id with _ | x
  · exact hinv.step_ignored hsorted hx h
  obtain ⟨i, hgives⟩ :=
    exists_gives hsorted hdistinct (hinv.noLink x (mem_of_goesTo hx).1) hx h
  refine ⟨fun y hy t => ?_, fun y hy z hz j => hgives.separate hinv hy hz,
    fun y hy z hz hid j k => hgives.shared hinv hy hz hid, fun y hy j => hgives.content hinv hy,
    fun y id' => hgives.first hinv, fun event hevent y hy hid => ?_⟩
  · rcases hgives.named_or_kept y hy with ⟨-, hnew⟩ | ⟨-, -, hold⟩
    · rw [hnew]
      simp
    · rw [hold]
      exact hinv.noLink y hy t
  · rcases hgives.named_or_kept y hy with ⟨-, hnew⟩ | ⟨-, hne, hold⟩
    · exact ⟨i, hnew⟩
    · rw [hold]
      rcases List.mem_append.mp hevent with hevent | hevent
      · exact hinv.own event hevent y hy hid
      · rw [List.mem_singleton.mp hevent] at hid
        exact absurd hid hne

end Step

/-- A stream changes nothing but the names of the objects on the list. -/
lemma get?_restoreStream (hsorted : Sorted restoreLater)
    (hlink : ∀ x ∈ restoreLater, ∀ t, d.get? (x.location env) ≠ some (.fileLink t))
    (h : restoreStream env restoreLater targets id bytes d = .ok targets' d')
    (hp : ∀ x ∈ restoreLater, p ≠ x.location env) : d'.get? p = d.get? p := by
  rcases hx : goesTo restoreLater id with _ | x
  · rw [restoreStream_of_goesTo_eq_none hsorted hx h]
  · obtain ⟨hmem, -⟩ := mem_of_goesTo hx
    obtain ⟨i, ys, rfl, -, hget, -⟩ :=
      restoreStream_of_goesTo_eq_some hsorted hx (hlink x hmem) h
    rw [hget, if_neg]
    rintro (heq | ⟨y, hy, heq⟩)
    · exact hp x hmem heq
    · exact hp y (mem_of_mem_peers hx hy).1 heq

/-! ### All streams -/

/-- What the callbacks of an archive are handed; a stream that goes to no object is not read, so
that the next one begins with it. -/
def handed (restoreLater : List Deferred) :
    List Nat → List Int → List Byte → List (Nat × List Byte)
  | id :: streamIds, size :: streamSizes, data =>
    let bounded := data.take size.toNat
    (id, bounded) ::
      handed restoreLater streamIds streamSizes (data.drop (streamTaken restoreLater id bounded))
  | _, _, _ => []

lemma restoreStreams_eq_ok {streamIds : List Nat} {streamSizes : List Int} {data : List Byte}
    (h : restoreStreams env restoreLater streamIds streamSizes (some data) targets d =
      .ok targets' d') :
    (handed restoreLater streamIds streamSizes data).foldlM
      (fun targets event => restoreStream env restoreLater targets event.1 event.2) targets d =
        .ok targets' d' := by
  induction streamIds generalizing streamSizes data targets d with
  | nil => exact h
  | cons id streamIds ih =>
    cases streamSizes with
    | nil => exact h
    | cons size streamSizes =>
      rw [restoreStreams] at h
      dsimp only at h
      rw [ite_throw_eq_ok, bind_eq_ok] at h
      obtain ⟨-, targets₁, d₁, hfirst, hrest⟩ := h
      rw [handed, List.foldlM_cons, bind_eq_ok]
      exact ⟨targets₁, d₁, hfirst, ih hrest⟩

/-- What is handed out of the archive of a version. -/
def handedOfVersion (archives : Directory ArchiveFile) (restoreLater : List Deferred)
    (version : Int) : List (Nat × List Byte) :=
  match openArchive archives version with
  | .error _ => []
  | .ok archive => handed restoreLater archive.streamIds archive.streamSizes (archive.data.getD [])

lemma restoreVersion_eq_ok {archives : Directory ArchiveFile} {version : Int}
    (h : restoreVersion env archives restoreLater targets version d = .ok targets' d') :
    (∃ archive, openArchive archives version = .ok archive) ∧
      (handedOfVersion archives restoreLater version).foldlM
        (fun targets event => restoreStream env restoreLater targets event.1 event.2) targets d =
          .ok targets' d' := by
  simp only [restoreVersion, bind_eq_ok] at h
  obtain ⟨archive, _, hopen, manifest, _, hmanifest, h⟩ := h
  rcases hopened : openArchive archives version with e | opened
  · rw [hopened] at hopen
    cases hopen
  rw [hopened] at hopen
  obtain ⟨rfl, rfl⟩ := pure_eq_ok.mp hopen
  rcases hread : opened.manifest with e | manifest'
  · rw [hread] at hmanifest
    cases hmanifest
  rw [hread] at hmanifest
  obtain ⟨rfl, rfl⟩ := pure_eq_ok.mp hmanifest
  refine ⟨⟨opened, rfl⟩, ?_⟩
  rw [handedOfVersion, hopened]
  dsimp only
  rcases hdata : opened.data with _ | data
  · -- without data there are no streams
    rw [hdata] at h
    rcases hids : opened.streamIds with _ | ⟨id, streamIds⟩
    · rw [hids] at h
      exact h
    · rcases hsizes : opened.streamSizes with _ | ⟨size, streamSizes⟩
      · rw [hids, hsizes] at h
        exact h
      · rw [hids, hsizes] at h
        cases h
  · rw [hdata] at h
    exact restoreStreams_eq_ok h

/-- The invariant rule for all streams of all versions: it may speak of the streams so far. -/
lemma restoreVersions_induction {archives : Directory ArchiveFile} {versions : List Int}
    {P : List (Nat × List Byte) → Disk → Prop}
    (hstep : ∀ events targets event d targets' d', P events d →
      restoreStream env restoreLater targets event.1 event.2 d = .ok targets' d' →
        P (events ++ [event]) d')
    (hstart : P [] d)
    (h : versions.foldlM (restoreVersion env archives restoreLater) targets d = .ok targets' d') :
    P (versions.flatMap (handedOfVersion archives restoreLater)) d' := by
  have hversion : ∀ versions version targets d targets' d',
      P (versions.flatMap (handedOfVersion archives restoreLater)) d →
      restoreVersion env archives restoreLater targets version d = .ok targets' d' →
        P ((versions ++ [version]).flatMap (handedOfVersion archives restoreLater)) d' := by
    intro versions version targets d targets' d' hP hversion
    obtain ⟨-, hfold⟩ := restoreVersion_eq_ok hversion
    rw [List.flatMap_append, List.flatMap_singleton]
    exact foldlM_induction (P := fun events _ d => P events d)
      (fun events event targets d targets' d' hP h => hstep events targets event d targets' d' hP h)
      hP hfold
  have hnone : P (([] : List Int).flatMap (handedOfVersion archives restoreLater)) d := hstart
  have key := foldlM_induction
    (P := fun versions _ d => P (versions.flatMap (handedOfVersion archives restoreLater)) d)
    hversion hnone h
  rwa [List.nil_append] at key

/-! ### Runs that finish -/

lemma mem_of_lookup {κ α : Type} [BEq κ] [LawfulBEq κ] {l : List (κ × α)} {k : κ} {a : α}
    (h : l.lookup k = some a) : (k, a) ∈ l := by
  obtain ⟨before, behind, rfl, -⟩ := List.lookup_eq_some_iff.mp h
  simp

/-- The parts of a run that finishes. -/
lemma restoreBackup_eq_ok {archives : Directory ArchiveFile} {fuel : Nat} {e e' : BackupEngine}
    (h : restoreBackup env archives fuel e d = some (.ok e' d')) :
    ∃ latestVersionNumber latestVersion d₁ targets,
      e.versions.getLast? = some latestVersionNumber ∧
      loadVersion archives latestVersionNumber latestVersionNumber = .ok latestVersion ∧
      restoreObjects env 0 (restoredObjects e.oldObjects latestVersion) d =
        .ok (deferred 0 (restoredObjects e.oldObjects latestVersion)) d₁ ∧
      (latestVersionNumber :: latestVersion.manifest.versionDependencies).foldlM
        (restoreVersion env archives (env.sort.sortBy Deferred.streamUniqueId
          (deferred 0 (restoredObjects e.oldObjects latestVersion)))) [] d₁ = .ok targets d' ∧
      e' =
        { e with
          oldObjects := setTargets targets (e.oldObjects ++ latestVersion.baseObjects) } := by
  rw [restoreBackup] at h
  rcases hback : e.versions.getLast? with _ | latestVersionNumber
  · rw [hback] at h
    cases h
  rw [hback] at h
  simp only [Option.map_eq_some_iff] at h
  obtain ⟨outcome, houtcome, h⟩ := h
  have hcorrect := Worklist.explore_correct (Worklist.sound_start latestVersionNumber) houtcome
  rcases hfailure : outcome.failure with _ | failure
  · rw [hfailure] at h
    obtain ⟨oldObjects, _, hloaded, hpure⟩ := bind_eq_ok.mp h
    obtain ⟨rfl, rfl⟩ := pure_eq_ok.mp hpure
    rw [restoreLoaded] at hloaded
    rcases hlatest : outcome.loaded.lookup latestVersionNumber with _ | latestVersion
    · rw [hlatest] at hloaded
      cases hloaded
    rw [hlatest] at hloaded
    rcases hfill : fillDependencies (fun version =>
        ((outcome.loaded.lookup version).map (·.manifest.versionDependencies)).getD [])
        env.maxDepth [] latestVersionNumber with _ | full
    · simp only [hfill] at hloaded
      cases hloaded
    · simp only [hfill, bind_eq_ok, pure_eq_ok] at hloaded
      obtain ⟨later, d₁, hobjects, targets, _, hstreams, rfl, rfl⟩ := hloaded
      obtain rfl := (restoreObjects_eq_ok hobjects).1
      have hload := hcorrect.load_eq _ (mem_of_lookup hlatest)
      refine ⟨latestVersionNumber, latestVersion, d₁, targets, rfl, ?_, ?_, ?_, ?_⟩
      · exact hload
      · exact hobjects
      · exact hstreams
      · rfl
  · rw [hfailure] at h
    cases h

end BackupProgram
