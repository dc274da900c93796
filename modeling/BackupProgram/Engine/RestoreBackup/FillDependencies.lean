import BackupProgram.Engine.RestoreBackup.Loading
import BackupProgram.Engine.RestoreBackup.Streams
import BackupProgram.Lib.Acyclic

/-!
# Filling the dependencies of the loaded versions

Each loaded version gets a table of the versions its manifest lists. A version is marked as full only
after all versions in its table are, so that the calls never end on a cycle.
-/

namespace BackupProgram

open Results Acyclic

/-- `d[key] = value`. -/
def assign {α : Type} (key : Int) (value : α) : List (Int × α) → List (Int × α)
  | [] => [(key, value)]
  | entry :: d => if entry.1 = key then (key, value) :: d else entry :: assign key value d

/-- What is kept by the versions: the table of each, by its number, and which are full. -/
structure FillState where
  dependencies : Int → List (Int × VersionForRestore)
  dependenciesFull : List Int

inductive FillError where
  | keyNotFound
  | stackOverflow
deriving DecidableEq, Repr

def FillState.start : FillState := ⟨fun _ => [], []⟩

/-- `_dependencies[x] = dict[x]`. -/
def enterDependency (dict table : List (Int × VersionForRestore)) (x : Int) :
    Except FillError (List (Int × VersionForRestore)) :=
  match dict.lookup x with
  | none => throw .keyNotFound
  | some version => return assign x version table

/-- `FillDependencies`, when no more than `depth` calls can be nested. Coming back to a version that
is being filled enters the same versions again. -/
def FillState.fillDependencies (dict : List (Int × VersionForRestore)) :
    Nat → FillState → Int × VersionForRestore → Except FillError FillState
  | 0, _, _ => throw .stackOverflow
  | depth + 1, s, version =>
    if version.1 ∈ s.dependenciesFull then return s
    else do
      let table ← version.2.manifest.versionDependencies.foldlM (enterDependency dict)
        (s.dependencies version.1)
      let s ← table.foldlM (FillState.fillDependencies dict depth)
        { s with dependencies := Function.update s.dependencies version.1 table }
      return { s with dependenciesFull := version.1 :: s.dependenciesFull }

/-! ### Tables -/

section Assign

variable {α : Type} {key k : Int} {value a : α} {d : List (Int × α)}

lemma mem_keys_assign : k ∈ (assign key value d).map Prod.fst ↔ k = key ∨ k ∈ d.map Prod.fst := by
  induction d with
  | nil => simp [assign]
  | cons entry d ih =>
    rw [assign]
    split_ifs with hentry
    · simp [hentry]
    · simp only [List.map_cons, List.mem_cons, ih]
      tauto

lemma nodup_keys_assign (h : (d.map Prod.fst).Nodup) :
    ((assign key value d).map Prod.fst).Nodup := by
  induction d with
  | nil => exact List.nodup_singleton key
  | cons entry d ih =>
    obtain ⟨hfresh, hd⟩ := List.nodup_cons.mp h
    rw [assign]
    split_ifs with hentry
    · exact List.nodup_cons.mpr ⟨hentry ▸ hfresh, hd⟩
    · refine List.nodup_cons.mpr ⟨fun hmem => ?_, ih hd⟩
      rcases mem_keys_assign.mp hmem with heq | hmem
      · exact hentry heq
      · exact hfresh hmem

lemma mem_assign (h : (k, a) ∈ assign key value d) : k = key ∧ a = value ∨ (k, a) ∈ d := by
  induction d with
  | nil => exact .inl (Prod.mk.inj (List.mem_singleton.mp h))
  | cons entry d ih =>
    rw [assign] at h
    split_ifs at h with hentry
    · rcases List.mem_cons.mp h with heq | h
      · exact .inl (Prod.mk.inj heq)
      · exact .inr (List.mem_cons_of_mem _ h)
    · rcases List.mem_cons.mp h with heq | h
      · exact .inr (heq ▸ List.mem_cons_self)
      · exact (ih h).imp_right (List.mem_cons_of_mem _)

end Assign

/-! ### What the tables hold -/

section Fill

variable {dict : List (Int × VersionForRestore)}

/-- The manifest of one loaded version lists the other. -/
def ListsVersion (dict : List (Int × VersionForRestore)) (v w : Int) : Prop :=
  ∃ version, dict.lookup v = some version ∧ w ∈ version.manifest.versionDependencies

/-- All versions listed by loaded versions are loaded. -/
def Closed (dict : List (Int × VersionForRestore)) : Prop :=
  ∀ v w, ListsVersion dict v w → (dict.lookup w).isSome

/-- The table of a version holds exactly the loaded versions its manifest lists. -/
def TableExact (dict : List (Int × VersionForRestore)) (s : FillState) (v : Int) : Prop :=
  ((s.dependencies v).map Prod.fst).Nodup ∧
    ∀ w version, (w, version) ∈ s.dependencies v ↔ ListsVersion dict v w ∧
    dict.lookup w = some version

/-- No table holds anything else, and what is full depends on what is full only, and on no cycle. -/
structure FillInvariant (dict : List (Int × VersionForRestore)) (s : FillState) : Prop where
  nodup : ∀ v, ((s.dependencies v).map Prod.fst).Nodup
  sound : ∀ v w version, (w, version) ∈ s.dependencies v →
    ListsVersion dict v w ∧ dict.lookup w = some version
  complete : ∀ v ∈ s.dependenciesFull, ∀ w, ListsVersion dict v w →
    w ∈ (s.dependencies v).map Prod.fst
  closed : ∀ v ∈ s.dependenciesFull, ∀ w, ListsVersion dict v w → w ∈ s.dependenciesFull
  acc : ∀ v ∈ s.dependenciesFull, Acc (flip (ListsVersion dict)) v

/-- Tables and marks are only added to. -/
structure FillState.Grows (s s' : FillState) : Prop where
  full : ∀ v ∈ s.dependenciesFull, v ∈ s'.dependenciesFull
  keys : ∀ v, ∀ w ∈ (s.dependencies v).map Prod.fst, w ∈ (s'.dependencies v).map Prod.fst

lemma FillState.Grows.refl (s : FillState) : s.Grows s := ⟨fun _ h => h, fun _ _ h => h⟩

lemma FillState.Grows.trans {s₁ s₂ s₃ : FillState} (h : s₁.Grows s₂) (h' : s₂.Grows s₃) :
    s₁.Grows s₃ :=
  ⟨fun v hv => h'.full v (h.full v hv), fun v w hw => h'.keys v w (h.keys v w hw)⟩

lemma fillInvariant_start : FillInvariant dict .start where
  nodup _ := List.nodup_nil
  sound _ _ _ h := absurd h List.not_mem_nil
  complete _ h := absurd h List.not_mem_nil
  closed _ h := absurd h List.not_mem_nil
  acc _ h := absurd h List.not_mem_nil

lemma FillInvariant.tableExact {s : FillState} (h : FillInvariant dict s) {v : Int}
    (hv : v ∈ s.dependenciesFull) : TableExact dict s v := by
  refine ⟨h.nodup v, fun w version => ⟨h.sound v w version, fun ⟨hdep, hlookup⟩ => ?_⟩⟩
  obtain ⟨entry, hentry, rfl⟩ := List.mem_map.mp (h.complete v hv w hdep)
  obtain ⟨-, hfound⟩ := h.sound v _ _ hentry
  rw [hfound] at hlookup
  cases hlookup
  exact hentry

/-- Whatever can be reached from a full version is full. -/
lemma FillInvariant.full_of_reachable {s : FillState} (h : FillInvariant dict s) {v w : Int}
    (hv : v ∈ s.dependenciesFull) (hw : Relation.ReflTransGen (ListsVersion dict) v w) :
    w ∈ s.dependenciesFull := by
  induction hw with
  | refl => exact hv
  | tail _ hdep ih => exact h.closed _ ih _ hdep

/-! ### Entering what a manifest lists -/

/-- A table after some versions have been entered. -/
structure Entered (dict table : List (Int × VersionForRestore)) (xs : List Int)
    (table' : List (Int × VersionForRestore)) : Prop where
  nodup : (table'.map Prod.fst).Nodup
  mem_keys : ∀ w, w ∈ table'.map Prod.fst ↔ w ∈ table.map Prod.fst ∨ w ∈ xs
  sound : ∀ w version, (w, version) ∈ table' →
    (w, version) ∈ table ∨ w ∈ xs ∧ dict.lookup w = some version

lemma entered_of_eq_ok {table table' : List (Int × VersionForRestore)} {xs : List Int}
    (hnodup : (table.map Prod.fst).Nodup)
    (h : xs.foldlM (enterDependency dict) table = .ok table') : Entered dict table xs table' := by
  have hstart : Entered dict table [] table :=
    ⟨hnodup, fun w => by simp, fun w version hmem => .inl hmem⟩
  refine foldlM_induction (P := fun xs table' => Entered dict table xs table')
    (fun xs x t t' ht henter => ?_) hstart h
  rw [enterDependency] at henter
  rcases hlookup : dict.lookup x with _ | version
  · rw [hlookup] at henter
    cases henter
  rw [hlookup] at henter
  obtain rfl := pure_eq_ok.mp henter
  refine ⟨nodup_keys_assign ht.nodup, fun w => ?_, fun w found hmem => ?_⟩
  · rw [mem_keys_assign, ht.mem_keys, List.mem_append, List.mem_singleton]
    tauto
  · rcases mem_assign hmem with ⟨rfl, rfl⟩ | hmem
    · exact .inr ⟨by simp, hlookup⟩
    · exact (ht.sound w found hmem).imp_right fun hw => ⟨List.mem_append_left _ hw.1, hw.2⟩

/-- In a closed dictionary every version that is listed is found. -/
lemma exists_entered {xs : List Int} (hxs : ∀ x ∈ xs, (dict.lookup x).isSome)
    (table : List (Int × VersionForRestore)) :
    ∃ table', xs.foldlM (enterDependency dict) table = .ok table' := by
  induction xs generalizing table with
  | nil => exact ⟨table, rfl⟩
  | cons x xs ih =>
    obtain ⟨version, hversion⟩ := Option.isSome_iff_exists.mp (hxs x List.mem_cons_self)
    obtain ⟨table', htable'⟩ :=
      ih (fun y hy => hxs y (List.mem_cons_of_mem _ hy)) (assign x version table)
    refine ⟨table', ?_⟩
    rw [List.foldlM_cons, enterDependency, hversion]
    exact htable'

/-! ### A call -/

lemma FillInvariant.enter {s : FillState} (h : FillInvariant dict s)
    {version : Int × VersionForRestore} (hversion : dict.lookup version.1 = some version.2)
    (hfull : version.1 ∉ s.dependenciesFull) {table : List (Int × VersionForRestore)}
    (htable :
      Entered dict (s.dependencies version.1) version.2.manifest.versionDependencies table) :
    FillInvariant dict { s with dependencies := Function.update s.dependencies version.1 table } ∧
      s.Grows { s with dependencies := Function.update s.dependencies version.1 table } := by
  have hne : ∀ v ∈ s.dependenciesFull, v ≠ version.1 := fun v hv heq => hfull (heq ▸ hv)
  refine ⟨⟨fun v => ?_, fun v w found hmem => ?_, fun v hv w hdep => ?_, h.closed, h.acc⟩,
    fun _ hv => hv, fun v w hw => ?_⟩
  · rcases eq_or_ne v version.1 with rfl | hv
    · simp only [Function.update_self]
      exact htable.nodup
    · simp only [Function.update_of_ne hv]
      exact h.nodup v
  · rcases eq_or_ne v version.1 with rfl | hv
    · simp only [Function.update_self] at hmem
      rcases htable.sound w found hmem with hmem | ⟨hw, hlookup⟩
      · exact h.sound _ w found hmem
      · exact ⟨⟨version.2, hversion, hw⟩, hlookup⟩
    · simp only [Function.update_of_ne hv] at hmem
      exact h.sound v w found hmem
  · simp only [Function.update_of_ne (hne v hv)]
    exact h.complete v hv w hdep
  · rcases eq_or_ne v version.1 with rfl | hv
    · simp only [Function.update_self]
      exact (htable.mem_keys w).mpr (.inl hw)
    · simp only [Function.update_of_ne hv]
      exact hw

lemma FillInvariant.mark {s : FillState} (h : FillInvariant dict s) {v : Int}
    (hkeys : ∀ w, ListsVersion dict v w → w ∈ (s.dependencies v).map Prod.fst)
    (hfull : ∀ w, ListsVersion dict v w → w ∈ s.dependenciesFull) :
    FillInvariant dict { s with dependenciesFull := v :: s.dependenciesFull } where
  nodup := h.nodup
  sound := h.sound
  complete w hw := by
    rcases List.mem_cons.mp hw with rfl | hw
    · exact hkeys
    · exact h.complete w hw
  closed w hw x hdep := by
    rcases List.mem_cons.mp hw with rfl | hw
    · exact List.mem_cons_of_mem _ (hfull x hdep)
    · exact List.mem_cons_of_mem _ (h.closed w hw x hdep)
  acc w hw := by
    rcases List.mem_cons.mp hw with rfl | hw
    · exact ⟨_, fun x hdep => h.acc x (hfull x hdep)⟩
    · exact h.acc w hw

/-- What a call that returns has done. -/
structure FillState.Filled (dict : List (Int × VersionForRestore)) (s s' : FillState) (v : Int) :
    Prop where
  invariant : FillInvariant dict s'
  grows : s.Grows s'
  mem : v ∈ s'.dependenciesFull

/-- A loop of calls that return. -/
lemma filled_of_foldlM {f : FillState → Int × VersionForRestore → Except FillError FillState}
    (hf : ∀ s s' entry, FillInvariant dict s → dict.lookup entry.1 = some entry.2 →
      f s entry = .ok s' → s.Filled dict s' entry.1)
    {table : List (Int × VersionForRestore)}
    (htable : ∀ entry ∈ table, dict.lookup entry.1 = some entry.2) {s s' : FillState}
    (h : FillInvariant dict s) (hfold : table.foldlM f s = .ok s') :
    FillInvariant dict s' ∧ s.Grows s' ∧ ∀ entry ∈ table, entry.1 ∈ s'.dependenciesFull := by
  induction table generalizing s with
  | nil =>
    obtain rfl := pure_eq_ok.mp hfold
    exact ⟨h, .refl s, by simp⟩
  | cons entry table ih =>
    rw [List.foldlM_cons, bind_eq_ok] at hfold
    obtain ⟨s₁, hfirst, hrest⟩ := hfold
    have hfilled := hf s s₁ entry h (htable entry List.mem_cons_self) hfirst
    obtain ⟨hinv, hgrows, hall⟩ :=
      ih (fun x hx => htable x (List.mem_cons_of_mem _ hx)) hfilled.invariant hrest
    refine ⟨hinv, hfilled.grows.trans hgrows, fun x hx => ?_⟩
    rcases List.mem_cons.mp hx with rfl | hx
    · exact hgrows.full _ hfilled.mem
    · exact hall x hx

/-- A loop of calls in which one fails. -/
lemma exists_error_of_foldlM
    {f : FillState → Int × VersionForRestore → Except FillError FillState}
    (hf : ∀ s s' entry, FillInvariant dict s → dict.lookup entry.1 = some entry.2 →
      f s entry = .ok s' → s.Filled dict s' entry.1)
    {table : List (Int × VersionForRestore)}
    (htable : ∀ entry ∈ table, dict.lookup entry.1 = some entry.2) {s : FillState}
    (h : FillInvariant dict s) {error : FillError} (hfold : table.foldlM f s = .error error) :
    ∃ entry ∈ table, ∃ s₁, FillInvariant dict s₁ ∧ f s₁ entry = .error error := by
  induction table generalizing s with
  | nil => cases hfold
  | cons entry table ih =>
    rw [List.foldlM_cons] at hfold
    rcases hcall : f s entry with error' | s₁
    · rw [hcall] at hfold
      cases hfold
      exact ⟨entry, List.mem_cons_self, s, h, hcall⟩
    · rw [hcall, ok_bind] at hfold
      obtain ⟨x, hx, s₂, hs₂, herror⟩ := ih (fun x hx => htable x (List.mem_cons_of_mem _ hx))
        (hf s s₁ entry h (htable entry List.mem_cons_self) hcall).invariant hfold
      exact ⟨x, List.mem_cons_of_mem _ hx, s₂, hs₂, herror⟩

lemma filled_of_eq_ok {depth : Nat} {s s' : FillState} {version : Int × VersionForRestore}
    (h : FillInvariant dict s) (hversion : dict.lookup version.1 = some version.2)
    (hfill : s.fillDependencies dict depth version = .ok s') : s.Filled dict s' version.1 := by
  induction depth generalizing s s' version with
  | zero => cases hfill
  | succ depth ih =>
    rw [FillState.fillDependencies] at hfill
    split_ifs at hfill with hfull
    · obtain rfl := pure_eq_ok.mp hfill
      exact ⟨h, .refl s, hfull⟩
    simp only [bind_eq_ok, pure_eq_ok] at hfill
    obtain ⟨table, hentered, s₂, hfold, rfl⟩ := hfill
    have htable := entered_of_eq_ok (h.nodup version.1) hentered
    obtain ⟨hinv, hgrows⟩ := h.enter hversion hfull htable
    have hlookup : ∀ entry ∈ table, dict.lookup entry.1 = some entry.2 := by
      rintro ⟨w, found⟩ hmem
      refine (hinv.sound version.1 w found ?_).2
      simpa only [Function.update_self] using hmem
    obtain ⟨hinv₂, hgrows₂, hall⟩ :=
      filled_of_foldlM (fun _ _ _ hs hlook hcall => ih hs hlook hcall) hlookup hinv hfold
    have hkeys : ∀ w, ListsVersion dict version.1 w → w ∈ table.map Prod.fst := by
      rintro w ⟨found, hfound, hw⟩
      rw [hversion] at hfound
      cases hfound
      exact (htable.mem_keys w).mpr (.inr hw)
    refine ⟨hinv₂.mark (fun w hdep => ?_) (fun w hdep => ?_), ?_, List.mem_cons_self⟩
    · refine hgrows₂.keys version.1 w ?_
      simp only [Function.update_self]
      exact hkeys w hdep
    · obtain ⟨entry, hentry, rfl⟩ := List.mem_map.mp (hkeys w hdep)
      exact hall entry hentry
    · exact (hgrows.trans hgrows₂).trans ⟨fun _ hv => List.mem_cons_of_mem _ hv, fun _ _ hw => hw⟩

/-! ### When calls return -/

/-- What returns with some depth returns with more. -/
lemma foldlM_mono {f g : FillState → Int × VersionForRestore → Except FillError FillState}
    (hfg : ∀ s s' entry, f s entry = .ok s' → g s entry = .ok s')
    {table : List (Int × VersionForRestore)} {s s' : FillState} (h : table.foldlM f s = .ok s') :
    table.foldlM g s = .ok s' := by
  induction table generalizing s with
  | nil => exact h
  | cons entry table ih =>
    rw [List.foldlM_cons, bind_eq_ok] at h ⊢
    obtain ⟨s₁, hfirst, hrest⟩ := h
    exact ⟨s₁, hfg _ _ _ hfirst, ih hrest⟩

lemma fillDependencies_of_le {depth depth' : Nat} (hle : depth ≤ depth') {s s' : FillState}
    {version : Int × VersionForRestore} (h : s.fillDependencies dict depth version = .ok s') :
    s.fillDependencies dict depth' version = .ok s' := by
  induction depth generalizing depth' s s' version with
  | zero => cases h
  | succ depth ih =>
    obtain ⟨depth', rfl⟩ : ∃ n, depth' = n + 1 := ⟨depth' - 1, by omega⟩
    rw [FillState.fillDependencies] at h ⊢
    split_ifs at h ⊢ with hfull
    · exact h
    simp only [bind_eq_ok] at h ⊢
    obtain ⟨table, hentered, s₁, hfold, hmark⟩ := h
    exact ⟨table, hentered, s₁, foldlM_mono (fun _ _ _ => ih (by omega)) hfold, hmark⟩

/-- A loop of calls each of which would return. -/
lemma exists_foldlM {table : List (Int × VersionForRestore)}
    (htable : ∀ entry ∈ table, dict.lookup entry.1 = some entry.2 ∧
      ∀ s, FillInvariant dict s → ∃ depth s', s.fillDependencies dict depth entry = .ok s')
    {s : FillState} (h : FillInvariant dict s) :
    ∃ depth s', table.foldlM (FillState.fillDependencies dict depth) s = .ok s' := by
  induction table generalizing s with
  | nil => exact ⟨0, s, rfl⟩
  | cons entry table ih =>
    obtain ⟨hlookup, hentry⟩ := htable entry List.mem_cons_self
    obtain ⟨depth₁, s₁, hfirst⟩ := hentry s h
    obtain ⟨depth₂, s₂, hrest⟩ := ih (fun x hx => htable x (List.mem_cons_of_mem _ hx))
      (filled_of_eq_ok h hlookup hfirst).invariant
    refine ⟨max depth₁ depth₂, s₂, ?_⟩
    rw [List.foldlM_cons, fillDependencies_of_le (Nat.le_max_left _ _) hfirst, ok_bind]
    exact foldlM_mono (fun _ _ _ => fillDependencies_of_le (Nat.le_max_right _ _)) hrest

/-- The induction is on the versions that can be reached, which end in every direction. -/
lemma exists_fillDependencies (hclosed : Closed dict) {v : Int}
    (hacc : Acc (flip (ListsVersion dict)) v) {version : VersionForRestore}
    (hversion : dict.lookup v = some version) {s : FillState} (h : FillInvariant dict s) :
    ∃ depth s', s.fillDependencies dict depth (v, version) = .ok s' := by
  induction hacc generalizing version s with
  | intro v _ ih =>
    by_cases hfull : v ∈ s.dependenciesFull
    · exact ⟨1, s, by simp [FillState.fillDependencies, hfull, pure, Except.pure]⟩
    obtain ⟨table, hentered⟩ := exists_entered
      (fun x hx => hclosed v x ⟨version, hversion, hx⟩) (s.dependencies v)
    have htable := entered_of_eq_ok (h.nodup v) hentered
    have hentry : dict.lookup (v, version).1 = some (v, version).2 := hversion
    obtain ⟨hinv, -⟩ := h.enter hentry hfull htable
    have hsound : ∀ entry ∈ table, ListsVersion dict v entry.1 ∧
      dict.lookup entry.1 = some entry.2 := by
      rintro ⟨w, found⟩ hmem
      refine hinv.sound v w found ?_
      simpa only [Function.update_self] using hmem
    obtain ⟨depth, s', hfold⟩ := exists_foldlM
      (fun entry hentry => ⟨(hsound entry hentry).2,
        fun s hs => ih entry.1 (hsound entry hentry).1 (hsound entry hentry).2 hs⟩) hinv
    refine ⟨depth + 1, { s' with dependenciesFull := v :: s'.dependenciesFull }, ?_⟩
    rw [FillState.fillDependencies, if_neg hfull]
    simp only [hentered, ok_bind, hfold]
    rfl

lemma finite_reachable (hclosed : Closed dict) (v : Int) :
    {w | Relation.ReflTransGen (ListsVersion dict) v w}.Finite := by
  refine ((v :: dict.map Prod.fst).finite_toSet).subset fun w hw => ?_
  rcases hw.cases_tail with rfl | ⟨u, -, hdep⟩
  · exact List.mem_cons_self
  · obtain ⟨found, hfound⟩ := Option.isSome_iff_exists.mp (hclosed u w hdep)
    obtain ⟨l₁, l₂, rfl, -⟩ := List.lookup_eq_some_iff.mp hfound
    simp

/-! ### All calls -/

/-- What is reached from the beginning by calls that return. -/
inductive FillReached (dict : List (Int × VersionForRestore)) : FillState → Prop where
  | start : FillReached dict .start
  | call {s s' : FillState} {depth : Nat} {version : Int × VersionForRestore}
      (h : FillReached dict s)
      (hversion : dict.lookup version.1 = some version.2)
      (hfill : s.fillDependencies dict depth version = .ok s') : FillReached dict s'

lemma FillReached.invariant {s : FillState} (h : FillReached dict s) : FillInvariant dict s := by
  induction h with
  | start => exact fillInvariant_start
  | call _ hversion hfill ih => exact (filled_of_eq_ok ih hversion hfill).invariant

/-- The call returns, however deep calls may be nested beyond some bound, and every version that can
be reached then has its table. -/
def FillsAll (dict : List (Int × VersionForRestore)) (s : FillState)
    (version : Int × VersionForRestore) : Prop :=
  ∃ depth s', (∀ depth', depth ≤ depth' → s.fillDependencies dict depth' version = .ok s') ∧
    ∀ w, Relation.ReflTransGen (ListsVersion dict) version.1 w → TableExact dict s' w

lemma noCycle_of_fillsAll {s : FillState} (hs : FillInvariant dict s)
    {version : Int × VersionForRestore} (hversion : dict.lookup version.1 = some version.2)
    (h : FillsAll dict s version) : NoCycle (ListsVersion dict) version.1 := by
  obtain ⟨depth, s', hfill, -⟩ := h
  have hfilled := filled_of_eq_ok hs hversion (hfill depth le_rfl)
  exact noCycle_of_acc (hfilled.invariant.acc _ hfilled.mem)

lemma fillsAll_of_noCycle (hclosed : Closed dict) {s : FillState} (hs : FillInvariant dict s)
    {version : Int × VersionForRestore} (hversion : dict.lookup version.1 = some version.2)
    (h : NoCycle (ListsVersion dict) version.1) : FillsAll dict s version := by
  have hacc := acc_of_noCycle (finite_reachable hclosed version.1) h
  obtain ⟨depth, s', hfill⟩ := exists_fillDependencies hclosed hacc hversion hs
  have hfilled := filled_of_eq_ok hs hversion hfill
  refine ⟨depth, s', fun depth' hle => fillDependencies_of_le hle hfill, fun w hw => ?_⟩
  exact hfilled.invariant.tableExact (hfilled.invariant.full_of_reachable hfilled.mem hw)

/-- In a closed dictionary every version that is looked for is found. -/
lemma eq_stackOverflow_of_error (hclosed : Closed dict) {depth : Nat} {s : FillState}
    (hs : FillInvariant dict s) {version : Int × VersionForRestore}
    (hversion : dict.lookup version.1 = some version.2) {error : FillError}
    (h : s.fillDependencies dict depth version = .error error) : error = .stackOverflow := by
  induction depth generalizing s version with
  | zero => exact (Except.error.inj h).symm
  | succ depth ih =>
    rw [FillState.fillDependencies] at h
    split_ifs at h with hfull
    · cases h
    obtain ⟨table, hentered⟩ := exists_entered
      (fun x hx => hclosed version.1 x ⟨version.2, hversion, hx⟩) (s.dependencies version.1)
    have htable := entered_of_eq_ok (h := hentered) (hs.nodup version.1)
    obtain ⟨hinv, -⟩ := hs.enter hversion hfull htable
    have hlookup : ∀ entry ∈ table, dict.lookup entry.1 = some entry.2 := by
      rintro ⟨w, found⟩ hmem
      refine (hinv.sound version.1 w found ?_).2
      simpa only [Function.update_self] using hmem
    simp only [hentered, ok_bind] at h
    rcases hfold : table.foldlM (FillState.fillDependencies dict depth)
      { s with dependencies := Function.update s.dependencies version.1 table } with error' | s'
    · rw [hfold] at h
      cases h
      obtain ⟨entry, hentry, s₁, hs₁, hcall⟩ := exists_error_of_foldlM
        (fun _ _ _ hs hlook hcall => filled_of_eq_ok hs hlook hcall) hlookup hinv hfold
      exact ih hs₁ (hlookup entry hentry) hcall
    · rw [hfold] at h
      cases h

/-- Filling the dependencies of a version ends, with the right tables, if and only if no cycle can
be reached from it. -/
theorem fillDependencies_fills_iff (hclosed : Closed dict) {s : FillState} (hs : FillReached dict s)
    {version : Int × VersionForRestore} (hversion : dict.lookup version.1 = some version.2) :
    FillsAll dict s version ↔ NoCycle (ListsVersion dict) version.1 :=
  ⟨noCycle_of_fillsAll hs.invariant hversion, fillsAll_of_noCycle hclosed hs.invariant hversion⟩

/-- With a cycle the calls are nested ever deeper. -/
theorem fillDependencies_overflows (hclosed : Closed dict) {s : FillState} (hs : FillReached dict s)
    {version : Int × VersionForRestore} (hversion : dict.lookup version.1 = some version.2)
    (hcycle : ¬ NoCycle (ListsVersion dict) version.1) (depth : Nat) :
    s.fillDependencies dict depth version = .error .stackOverflow := by
  rcases hfill : s.fillDependencies dict depth version with error | s'
  · rw [eq_stackOverflow_of_error hclosed hs.invariant hversion hfill]
  · have hfilled := filled_of_eq_ok hs.invariant hversion hfill
    exact absurd (noCycle_of_acc (hfilled.invariant.acc _ hfilled.mem)) hcycle

/-! ### Restoring -/

/-- The marks alone, as restoring goes by them: whatever is marked ends in every direction. -/
lemma acc_of_fillDependencies {dependencies : Int → List Int} {depth : Nat} {full full' : List Int}
    {v : Int} (hfull : ∀ w ∈ full, Acc (flip fun v w => w ∈ dependencies v) w)
    (h : BackupProgram.fillDependencies dependencies depth full v = some full') :
    (∀ w ∈ full', Acc (flip fun v w => w ∈ dependencies v) w) ∧ v ∈ full' ∧ full ⊆ full' := by
  induction depth generalizing full full' v with
  | zero => cases h
  | succ depth ih =>
    rw [BackupProgram.fillDependencies] at h
    split_ifs at h with hv
    · cases h
      exact ⟨hfull, hv, List.Subset.refl _⟩
    obtain ⟨marked, hmarked, rfl⟩ := Option.map_eq_some_iff.mp h
    have hloop : ∀ (xs full : List Int),
        (∀ w ∈ full, Acc (flip fun v w => w ∈ dependencies v) w) →
        xs.foldlM (BackupProgram.fillDependencies dependencies depth) full = some marked →
          (∀ w ∈ marked, Acc (flip fun v w => w ∈ dependencies v) w) ∧ xs ⊆ marked ∧
            full ⊆ marked := by
      intro xs
      induction xs with
      | nil =>
        intro full hacc hfold
        cases hfold
        exact ⟨hacc, List.nil_subset _, List.Subset.refl _⟩
      | cons x xs ihxs =>
        intro full hacc hfold
        rw [List.foldlM_cons, Option.bind_eq_bind, Option.bind_eq_some_iff] at hfold
        obtain ⟨full₁, hfirst, hrest⟩ := hfold
        obtain ⟨hacc₁, hx, hsub₁⟩ := ih hacc hfirst
        obtain ⟨haccm, hxs, hsub⟩ := ihxs full₁ hacc₁ hrest
        exact ⟨haccm, List.cons_subset.mpr ⟨hsub hx, hxs⟩, List.Subset.trans hsub₁ hsub⟩
    obtain ⟨hacc, hxs, hsub⟩ := hloop (dependencies v) full hfull hmarked
    refine ⟨fun w hw => ?_, List.mem_cons_self, List.Subset.trans hsub (List.subset_cons_self _ _)⟩
    rcases List.mem_cons.mp hw with rfl | hw
    · exact ⟨_, fun x hx => hacc x (hxs hx)⟩
    · exact hacc w hw

/-- If a cycle can be reached from the newest version, restoring never gets beyond the tables. -/
theorem restoreLoaded_crashes (env : RestoreEnv) (archives : Directory ArchiveFile)
    (oldObjects : List FileSystemTree) {latestVersionNumber : Int}
    {latestVersion : VersionForRestore}
    (hlatest : dict.lookup latestVersionNumber = some latestVersion)
    (hcycle : ¬ NoCycle (ListsVersion dict) latestVersionNumber) (disk : Disk) :
    restoreLoaded env archives oldObjects latestVersionNumber dict disk = .error .crash disk := by
  rw [restoreLoaded, hlatest]
  rcases hfill : BackupProgram.fillDependencies (fun version =>
      ((dict.lookup version).map (·.manifest.versionDependencies)).getD [])
      env.maxDepth [] latestVersionNumber with _ | full
  · simp only [hfill]
    rfl
  · obtain ⟨hacc, hmem, -⟩ := acc_of_fillDependencies (by simp) hfill
    refine absurd (noCycle_of_acc ?_) hcycle
    refine Subrelation.accessible (fun {w v} hdep => ?_) (hacc _ hmem)
    obtain ⟨version, hversion, hw⟩ := hdep
    simpa [flip, hversion] using hw

end Fill

/-! ### A diamond and a loop -/

def versionWith (versionNumber : Int) (versionDependencies : List Int) :
    Int × VersionForRestore :=
  (versionNumber, ⟨manifestWith versionNumber versionDependencies, []⟩)

/-- Version 3 needs 1 and 2, which both need 0. -/
def diamond : List (Int × VersionForRestore) :=
  [versionWith 3 [1, 2], versionWith 1 [0], versionWith 0 [], versionWith 2 [0]]

/-- A version that lists itself. -/
def selfListing : List (Int × VersionForRestore) := [versionWith 0 [0]]

lemma mem_diamond {v : Int} {version : VersionForRestore} (h : diamond.lookup v = some version) :
    v = 3 ∧ version = (versionWith 3 [1, 2]).2 ∨ v = 1 ∧ version = (versionWith 1 [0]).2 ∨
      v = 0 ∧ version = (versionWith 0 []).2 ∨ v = 2 ∧ version = (versionWith 2 [0]).2 := by
  have hmem := mem_of_lookup h
  simpa [diamond, versionWith] using hmem

lemma lt_of_listsVersion_diamond {v w : Int} (h : ListsVersion diamond v w) : w < v := by
  obtain ⟨version, hversion, hw⟩ := h
  rcases mem_diamond hversion with ⟨rfl, rfl⟩ | ⟨rfl, rfl⟩ | ⟨rfl, rfl⟩ | ⟨rfl, rfl⟩ <;>
    simp [versionWith, manifestWith] at hw <;> omega

theorem fillDependencies_fills_diamond : FillsAll diamond .start (versionWith 3 [1, 2]) := by
  refine (fillDependencies_fills_iff (fun v w h => ?_) .start rfl).mpr fun w _ hcycle => ?_
  · obtain ⟨version, hversion, hw⟩ := h
    rcases mem_diamond hversion with ⟨rfl, rfl⟩ | ⟨rfl, rfl⟩ | ⟨rfl, rfl⟩ | ⟨rfl, rfl⟩ <;>
      simp [versionWith, manifestWith] at hw
    · rcases hw with rfl | rfl <;> rfl
    · rw [hw]
      rfl
    · rw [hw]
      rfl
  · have hlt : ∀ x, Relation.TransGen (ListsVersion diamond) w x → x < w := by
      intro x hx
      induction hx with
      | single h => exact lt_of_listsVersion_diamond h
      | tail _ h ih => exact (lt_of_listsVersion_diamond h).trans ih
    exact lt_irrefl w (hlt w hcycle)

/-- The call never returns for a version that lists itself. -/
theorem fillDependencies_selfListing :
    ¬ ∀ (dict : List (Int × VersionForRestore)) (version : Int × VersionForRestore), Closed dict →
      dict.lookup version.1 = some version.2 → FillsAll dict .start version := by
  intro h
  have hdep : ∀ v w, ListsVersion selfListing v w → v = 0 ∧ w = 0 := by
    rintro v w ⟨version, hversion, hw⟩
    have hmem := mem_of_lookup hversion
    simp only [selfListing, List.mem_singleton] at hmem
    obtain ⟨rfl, rfl⟩ := Prod.mk.inj hmem
    exact ⟨rfl, List.mem_singleton.mp hw⟩
  have hcycle := noCycle_of_fillsAll fillInvariant_start rfl
    (h selfListing (versionWith 0 [0]) (fun v w hvw => (hdep v w hvw).2 ▸ rfl) rfl)
  exact hcycle 0 .refl (.single ⟨_, rfl, List.mem_singleton_self 0⟩)

end BackupProgram
