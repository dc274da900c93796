import BackupProgram.Engine.RestoreBackup

/-!
# What the objects leave on the disk

When the objects are gone through, entries come to be only at their locations, and directories above
these. Where a file is to be restored from a stream there is no file then; in a directory there is
nothing but what later objects make.
-/

namespace BackupProgram

open StateResults

variable {env : RestoreEnv} {d d' d'' : Disk} {loc p : Location} {entry : DiskEntry}
  {u : Unit}

/-! ### Operations that succeed -/

lemma checkAccess_eq_ok (h : checkAccess env loc d = .ok u d') : d' = d := by
  simp only [checkAccess, bind_eq_ok, get_eq_ok] at h
  obtain ⟨_, _, ⟨rfl, rfl⟩, h⟩ := h
  rw [ite_throw_eq_ok, pure_eq_ok] at h
  exact h.2.2.symm

lemma delete_eq_ok (h : delete env loc d = .ok u d') : d' = d.delete loc := by
  simp only [delete, bind_eq_ok, get_eq_ok, set_eq_ok] at h
  obtain ⟨_, d₁, haccess, _, _, ⟨rfl, rfl⟩, rfl⟩ := h
  rw [checkAccess_eq_ok haccess]

lemma create_eq_ok (h : create env loc entry d = .ok u d') :
    d.create loc entry = some d' := by
  simp only [create, bind_eq_ok, get_eq_ok] at h
  obtain ⟨_, _, haccess, _, _, ⟨rfl, rfl⟩, h⟩ := h
  rw [checkAccess_eq_ok haccess] at h
  rcases heq : d.create loc entry with _ | disk
  all_goals simp only [heq] at h
  · cases h
  · rw [set_eq_ok] at h
    rw [h]

/-! ### What comes to be -/

/-- Nothing has come to be but at these locations, and directories above them; no file has another
content. -/
structure Grows (locations : List Location) (d d' : Disk) : Prop where
  get? : ∀ p entry, d'.get? p = some entry → d.get? p = some entry ∨
    ∃ l ∈ locations, p = l ∨ (entry = .directory ∧ p <+: l)
  contents : d'.contents = d.contents

lemma Grows.refl (locations : List Location) (d : Disk) : Grows locations d d :=
  ⟨fun _ _ h => .inl h, rfl⟩

lemma Grows.trans {ls ls' : List Location} (h : Grows ls d d') (h' : Grows ls' d' d'') :
    Grows (ls ++ ls') d d'' := by
  refine ⟨fun p entry hentry => ?_, h'.contents.trans h.contents⟩
  rcases h'.get? p entry hentry with hbefore | ⟨l, hl, hp⟩
  · rcases h.get? p entry hbefore with hbefore | ⟨l, hl, hp⟩
    · exact .inl hbefore
    · exact .inr ⟨l, List.mem_append_left _ hl, hp⟩
  · exact .inr ⟨l, List.mem_append_right _ hl, hp⟩

lemma Grows.mono {ls ls' : List Location} (h : Grows ls d d') (hsub : ∀ l ∈ ls, l ∈ ls') :
    Grows ls' d d' :=
  ⟨fun p entry hentry => (h.get? p entry hentry).imp_right
    fun ⟨l, hl, hp⟩ => ⟨l, hsub l hl, hp⟩, h.contents⟩

/-- Two steps at one location. -/
lemma Grows.trans_self (h : Grows [loc] d d') (h' : Grows [loc] d' d'') :
    Grows [loc] d d'' :=
  (h.trans h').mono (by simp)

lemma grows_delete (loc p : Location) (d : Disk) : Grows [loc] d (d.delete p) := by
  refine ⟨fun q entry hentry => .inl ?_, rfl⟩
  rw [Disk.get?_delete] at hentry
  split_ifs at hentry
  exact hentry

lemma grows_create (h : d.create loc entry = some d') : Grows [loc] d d' := by
  refine ⟨fun p e hentry => ?_, Disk.contents_create h⟩
  rw [Disk.get?_create h] at hentry
  split_ifs at hentry with heq
  · exact .inr ⟨loc, List.mem_singleton_self _, .inl heq⟩
  · exact .inl hentry

/-- A directory above the location. -/
lemma grows_createAbove (h : d.create p .directory = some d') (hinitial : p <+: loc) :
    Grows [loc] d d' := by
  refine ⟨fun q e hentry => ?_, Disk.contents_create h⟩
  rw [Disk.get?_create h] at hentry
  split_ifs at hentry with heq
  · subst heq
    exact .inr ⟨loc, List.mem_singleton_self _, .inr ⟨(Option.some.inj hentry).symm, hinitial⟩⟩
  · exact .inl hentry

lemma createDirectoryFrom_grows (parent : Location) (names : List Str) (d : Disk)
    (h : createDirectoryFrom env parent names d = .ok u d') :
    Grows [parent ++ names] d d' := by
  induction names generalizing parent d with
  | nil =>
    rw [createDirectoryFrom, pure_eq_ok] at h
    rw [h.2]
    exact .refl _ _
  | cons name names ih =>
    have hlonger : parent ++ name :: names = parent ++ [name] ++ names := by simp
    rw [hlonger]
    simp only [createDirectoryFrom, bind_eq_ok, get_eq_ok] at h
    obtain ⟨_, _, ⟨rfl, rfl⟩, h⟩ := h
    rcases hentry : d.get? (parent ++ [name]) with _ | (_ | _ | _ | _)
    all_goals simp only [hentry] at h
    · rw [bind_eq_ok] at h
      obtain ⟨_, d₁, hcreate, hrest⟩ := h
      exact (grows_createAbove (create_eq_ok hcreate) (List.prefix_append _ _)).trans_self
        (ih _ _ hrest)
    · exact ih _ _ h
    · cases h
    · cases h
    · split_ifs at h
      · rw [pure_eq_ok] at h
        rw [h.2]
        exact .refl _ _
      · cases h

lemma createDirectory_grows (h : createDirectory env loc d = .ok u d') :
    Grows [loc] d d' := by
  have hgrows := createDirectoryFrom_grows [] loc d h
  rwa [List.nil_append] at hgrows

lemma createLink_grows {link : Str → DiskEntry} {target : Option Str}
    (h : createLink env loc link target d = .ok u d') : Grows [loc] d d' := by
  simp only [createLink, bind_eq_ok, get_eq_ok] at h
  obtain ⟨_, _, ⟨rfl, rfl⟩, h⟩ := h
  cases target with
  | none => cases h
  | some target =>
    rw [ite_throw_eq_ok] at h
    exact grows_create (create_eq_ok h.2)

lemma createDirectoryJunction_grows {target : Option Str}
    (h : createDirectoryJunction env loc target d = .ok u d') : Grows [loc] d d' := by
  simp only [createDirectoryJunction, bind_eq_ok, get_eq_ok] at h
  obtain ⟨_, d₁, hdirectory, _, _, ⟨rfl, rfl⟩, h⟩ := h
  cases target with
  | none => cases h
  | some target =>
    dsimp only at h
    split_ifs at h
    · rw [bind_eq_ok] at h
      obtain ⟨_, d₂, hdelete, hcreate⟩ := h
      obtain rfl := delete_eq_ok hdelete
      exact (createDirectory_grows hdirectory).trans_self
        ((grows_delete _ _ _).trans_self (grows_create (create_eq_ok hcreate)))
    · cases h

/-- What a hard link is made to stays as it is. -/
lemma createHardlink_eq_ok {existing : Location}
    (h : createHardlink env loc existing d = .ok u d') :
    d.get? loc = none ∧ ∃ entry, d.get? existing = some entry ∧
      d.create loc entry = some d' := by
  simp only [createHardlink, bind_eq_ok, get_eq_ok] at h
  obtain ⟨_, _, ⟨rfl, rfl⟩, h⟩ := h
  rw [ite_throw_eq_ok] at h
  obtain ⟨hnone, h⟩ := h
  refine ⟨by simpa using hnone, ?_⟩
  rcases hentry : d.get? existing with _ | (_ | _ | _ | _)
  all_goals simp only [hentry] at h
  · cases h
  · cases h
  · exact ⟨_, rfl, create_eq_ok h⟩
  · exact ⟨_, rfl, create_eq_ok h⟩
  · cases h

lemma createHardlink_grows {existing : Location}
    (h : createHardlink env loc existing d = .ok u d') : Grows [loc] d d' := by
  obtain ⟨-, entry, -, hcreate⟩ := createHardlink_eq_ok h
  exact grows_create hcreate

/-! ### One object -/

/-- The object is not restored without a stream: it is a file, and no link to a file of the disk. -/
def needsStream (o : PathedObject) : Bool :=
  o.2.type = .regularFile ∨ (o.2.type = .fileHardlink ∧ o.2.target = none)

/-- The object gets on the list of those that are restored later. -/
def isDeferred (o : PathedObject) : Bool := needsStream o && decide (0 ≤ o.2.latestVersion)

variable {o : PathedObject}

lemma deleteExisting_eq_ok (h : deleteExisting env o d = .ok u d') :
    if (if o.2.isDirectoryish then d.directoryExists (location env o)
        else d.fileExists (location env o)) = true then
      d' = d.delete (location env o)
    else d' = d := by
  simp only [deleteExisting, bind_eq_ok, get_eq_ok] at h
  obtain ⟨_, _, ⟨rfl, rfl⟩, h⟩ := h
  by_cases hexist : (if o.2.isDirectoryish then d.directoryExists (location env o)
      else d.fileExists (location env o)) = true
  · rw [if_pos hexist] at h ⊢
    exact delete_eq_ok h
  · rw [if_neg hexist] at h ⊢
    exact (pure_eq_ok.mp h).2.symm

lemma deleteExisting_grows (h : deleteExisting env o d = .ok u d') :
    Grows [location env o] d d' := by
  have hcases := deleteExisting_eq_ok h
  by_cases hexist : (if o.2.isDirectoryish then d.directoryExists (location env o)
      else d.fileExists (location env o)) = true
  · rw [if_pos hexist] at hcases
    rw [hcases]
    exact grows_delete _ _ _
  · rw [if_neg hexist] at hcases
    rw [hcases]
    exact .refl _ _

/-- No file and no link to one is left where a file is to be restored. -/
lemma fileExists_deleteExisting (hfile : o.2.isDirectoryish = false)
    (h : deleteExisting env o d = .ok u d') :
    d'.fileExists (location env o) = false := by
  have hcases := deleteExisting_eq_ok h
  rw [hfile] at hcases
  simp only [Bool.false_eq_true, if_false] at hcases
  split at hcases
  · rw [hcases, Disk.fileExists, Disk.get?_delete, if_pos (List.prefix_refl _)]
  · rename_i hnot
    rw [hcases]
    exact Bool.eq_false_iff.mpr hnot

/-- Nothing is left of what was in a directory that is to be restored. -/
lemma get?_deleteExisting_below (hdirectory : o.2.isDirectoryish = true)
    (h : deleteExisting env o d = .ok u d') (hinitial : location env o <+: p)
    (hne : location env o ≠ p) : d'.get? p = none := by
  have hcases := deleteExisting_eq_ok h
  rw [hdirectory] at hcases
  simp only [if_true] at hcases
  split at hcases
  · rw [hcases, Disk.get?_delete, if_pos hinitial]
  · rename_i hnot
    rw [hcases]
    by_contra hsome
    have hdir := Disk.get?_eq_directory_of_below (Option.isSome_iff_ne_none.mpr hsome) hinitial hne
    exact hnot (by rw [Disk.directoryExists, hdir])

lemma restoreObject_eq_ok {restored : Bool} (h : restoreObject env o d = .ok restored d') :
    restored = !needsStream o ∧ (needsStream o = true → d' = d) ∧
      Grows [location env o] d d' := by
  rw [restoreObject] at h
  cases htype : o.2.type
  all_goals simp only [htype] at h
  case regularFile =>
    obtain ⟨rfl, rfl⟩ := pure_eq_ok.mp h
    simp [needsStream, htype, Grows.refl]
  case fileHardlink =>
    cases htarget : o.2.target with
    | none =>
      simp only [htarget] at h
      obtain ⟨rfl, rfl⟩ := pure_eq_ok.mp h
      simp [needsStream, htype, htarget, Grows.refl]
    | some target =>
      simp only [htarget, bind_eq_ok, pure_eq_ok] at h
      obtain ⟨_, _, hlink, rfl, rfl⟩ := h
      simp [needsStream, htype, htarget, createHardlink_grows hlink]
  case directory =>
    simp only [bind_eq_ok, pure_eq_ok] at h
    obtain ⟨_, _, hcreate, rfl, rfl⟩ := h
    simp [needsStream, htype, createDirectory_grows hcreate]
  case junction =>
    simp only [bind_eq_ok, pure_eq_ok] at h
    obtain ⟨_, _, hcreate, rfl, rfl⟩ := h
    simp [needsStream, htype, createDirectoryJunction_grows hcreate]
  case fileReparsePoint => cases h
  all_goals
    simp only [bind_eq_ok, pure_eq_ok] at h
    obtain ⟨_, _, hcreate, rfl, rfl⟩ := h
    simp [needsStream, htype, createLink_grows hcreate]

/-! ### All objects -/

/-- What an object leaves: its location if it is a file, no file there; if it is a directory,
nothing below. -/
structure Cleared (env : RestoreEnv) (o : PathedObject) (d : Disk) : Prop where
  file : needsStream o = true → d.fileExists (location env o) = false
  below : o.2.isDirectoryish = true → ∀ p, location env o <+: p → location env o ≠ p →
    d.get? p = none

lemma visit_spec {restored : Bool} {d₁ : Disk} (hdelete : deleteExisting env o d = .ok u d₁)
    (hrestore : restoreObject env o d₁ = .ok restored d') :
    Cleared env o d' ∧ Grows [location env o] d d' := by
  obtain ⟨-, hsame, hgrows⟩ := restoreObject_eq_ok hrestore
  refine ⟨⟨fun hstream => ?_, fun hdirectory p hinitial hne => ?_⟩,
    (deleteExisting_grows hdelete).trans_self hgrows⟩
  · rw [hsame hstream]
    refine fileExists_deleteExisting ?_ hdelete
    simp only [needsStream, Bool.decide_or, Bool.or_eq_true, decide_eq_true_eq] at hstream
    rcases hstream with htype | ⟨htype, -⟩ <;> simp [FileSystemObject.isDirectoryish, htype]
  · by_contra hsome
    obtain ⟨entry, hentry⟩ := Option.ne_none_iff_exists'.mp hsome
    rcases hgrows.get? p entry hentry with hbefore | ⟨l, hl, hp⟩
    · rw [get?_deleteExisting_below hdirectory hdelete hinitial hne] at hbefore
      cases hbefore
    · rw [List.mem_singleton.mp hl] at hp
      rcases hp with rfl | ⟨-, hp⟩
      · exact hne rfl
      · exact hne (hinitial.eq_of_length_le hp.length_le)

/-- The objects that are restored later, in order. -/
def deferred (place : Nat) (objects : List PathedObject) : List Deferred :=
  ((objects.zipIdx place).filter fun o => isDeferred o.1).map fun o => ⟨o.2, o.1⟩

lemma restoreObjects_cons {place : Nat} {objects : List PathedObject} {later : List Deferred}
    (h : restoreObjects env place (o :: objects) d = .ok later d'') :
    ∃ d₁ d' rest, deleteExisting env o d = .ok ⟨⟩ d₁ ∧
      restoreObject env o d₁ = .ok (!needsStream o) d' ∧
      restoreObjects env (place + 1) objects d' = .ok rest d'' ∧
      later = if isDeferred o then ⟨place, o⟩ :: rest else rest := by
  simp only [restoreObjects, bind_eq_ok, pure_eq_ok] at h
  obtain ⟨_, d₁, hdelete, restored, d', hrestore, rest, _, hrest, rfl, rfl⟩ := h
  obtain ⟨rfl, -⟩ := restoreObject_eq_ok hrestore
  exact ⟨d₁, d', rest, hdelete, hrestore, hrest, by rw [isDeferred, Bool.not_not]⟩

lemma restoreObjects_eq_ok {place : Nat} {objects : List PathedObject} {later : List Deferred}
    (h : restoreObjects env place objects d = .ok later d') :
    later = deferred place objects ∧ Grows (objects.map (location env)) d d' := by
  induction objects generalizing place d later with
  | nil =>
    obtain ⟨rfl, rfl⟩ := pure_eq_ok.mp h
    exact ⟨rfl, .refl _ _⟩
  | cons o objects ih =>
    obtain ⟨d₁, d₂, rest, hdelete, hrestore, hrest, rfl⟩ := restoreObjects_cons h
    obtain ⟨rfl, hgrows⟩ := ih hrest
    refine ⟨?_, ?_⟩
    · rw [deferred, deferred, List.zipIdx_cons, List.filter_cons]
      split_ifs <;> rfl
    · exact ((visit_spec hdelete hrestore).2.trans hgrows)

/-- What an object leaves is there until a later object changes it. -/
lemma exists_cleared {place : Nat} {objects : List PathedObject} {later : List Deferred}
    (h : restoreObjects env place objects d = .ok later d'') {pre post : List PathedObject}
    (hobjects : objects = pre ++ o :: post) :
    ∃ d', Cleared env o d' ∧ Grows (post.map (location env)) d' d'' := by
  subst hobjects
  induction pre generalizing place d later with
  | nil =>
    obtain ⟨d₁, d₂, rest, hdelete, hrestore, hrest, -⟩ := restoreObjects_cons h
    exact ⟨d₂, (visit_spec hdelete hrestore).1, (restoreObjects_eq_ok hrest).2⟩
  | cons o' pre ih =>
    obtain ⟨_, _, _, -, -, hrest, -⟩ := restoreObjects_cons h
    exact ih hrest

/-- No file is where an object waits for its stream or cannot have one, if the objects have
different locations. -/
lemma fileExists_restoreObjects {place : Nat} {objects : List PathedObject} {later : List Deferred}
    (h : restoreObjects env place objects d = .ok later d')
    (hdistinct : (objects.map (location env)).Nodup) (ho : o ∈ objects)
    (hstream : needsStream o = true) : d'.fileExists (location env o) = false := by
  obtain ⟨pre, post, rfl⟩ := List.append_of_mem ho
  obtain ⟨d₁, hcleared, hgrows⟩ := exists_cleared h rfl
  rw [List.map_append, List.map_cons] at hdistinct
  have hpost := (List.nodup_cons.mp (List.nodup_append.mp hdistinct).2.1).1
  have hbefore := hcleared.file hstream
  by_contra hexists
  have hnew : ∀ entry, d'.get? (location env o) = some entry → entry ≠ .directory →
      d₁.get? (location env o) = some entry := by
    intro entry hentry hne
    rcases hgrows.get? _ entry hentry with hold | ⟨l, hl, heq | ⟨hdirectory, -⟩⟩
    · exact hold
    · exact absurd (heq ▸ hl) hpost
    · exact absurd hdirectory hne
  rw [Bool.not_eq_false, Disk.fileExists] at hexists
  rw [Disk.fileExists] at hbefore
  rcases hentry : d'.get? (location env o) with _ | (_ | _ | _ | _)
  all_goals simp only [hentry] at hexists
  · cases hexists
  · cases hexists
  · simp only [hnew _ hentry (by simp), Bool.true_eq_false] at hbefore
  · simp only [hnew _ hentry (by simp), Bool.true_eq_false] at hbefore
  · cases hexists

end BackupProgram
