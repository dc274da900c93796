import Mathlib

/-!
# Loading what can be reached

The vertices of a graph are loaded, which may fail, and what is loaded says which vertices come next.
`explore` keeps a stack of vertices, skips those that are loaded already, and stops at the first
failure. The graph may have cycles and joins.
-/

namespace Worklist

variable {V A ε : Type*}

/-- What has been loaded, in this order, and what could not be. -/
structure Outcome (V A ε : Type*) where
  loaded : List (V × A)
  failure : Option (V × ε)

variable (load : V → Except ε A) (next : A → List V)

def explore [DecidableEq V] : Nat → List (V × A) → List V → Option (Outcome V A ε)
  | 0, _, _ => none
  | _ + 1, loaded, [] => some ⟨loaded, none⟩
  | fuel + 1, loaded, v :: stack =>
    if v ∈ loaded.map Prod.fst then explore fuel loaded stack
    else
      match load v with
      | .error e => some ⟨loaded, some (v, e)⟩
      | .ok a => explore fuel (loaded ++ [(v, a)]) ((next a).reverse ++ stack)

def Edge (v w : V) : Prop := ∃ a, load v = .ok a ∧ w ∈ next a

def Reachable : V → V → Prop := Relation.ReflTransGen (Edge load next)

/-! ### What is loaded -/

/-- Everything on the stack and everything loaded can be reached, and what comes next after
something loaded is on the stack or loaded. -/
structure Sound (start : V) (loaded : List (V × A)) (stack : List V) : Prop where
  nodup : (loaded.map Prod.fst).Nodup
  load_eq : ∀ p ∈ loaded, load p.1 = .ok p.2
  reachable : ∀ v, v ∈ loaded.map Prod.fst ∨ v ∈ stack → Reachable load next start v
  start_mem : start ∈ loaded.map Prod.fst ∨ start ∈ stack
  closed : ∀ p ∈ loaded, ∀ w ∈ next p.2, w ∈ loaded.map Prod.fst ∨ w ∈ stack

variable {load next} {start v : V} {loaded : List (V × A)} {stack : List V} {a : A}

lemma sound_start (start : V) : Sound load next start [] [start] where
  nodup := List.nodup_nil
  load_eq := by simp
  reachable := by
    rintro v (hv | hv)
    · cases hv
    · rw [List.mem_singleton.mp hv]
      exact .refl
  start_mem := .inr (List.mem_singleton_self _)
  closed := by simp

lemma Sound.skip (h : Sound load next start loaded (v :: stack))
    (hv : v ∈ loaded.map Prod.fst) : Sound load next start loaded stack := by
  have hpop : ∀ w, w ∈ loaded.map Prod.fst ∨ w ∈ v :: stack →
      w ∈ loaded.map Prod.fst ∨ w ∈ stack := by
    rintro w (hw | hw)
    · exact .inl hw
    · rcases List.mem_cons.mp hw with rfl | hw
      · exact .inl hv
      · exact .inr hw
  exact ⟨h.nodup, h.load_eq, fun w hw => h.reachable w (hw.imp_right (List.mem_cons_of_mem _)),
    hpop _ h.start_mem, fun p hp w hw => hpop w (h.closed p hp w hw)⟩

lemma Sound.push (h : Sound load next start loaded (v :: stack))
    (hv : v ∉ loaded.map Prod.fst) (ha : load v = .ok a) :
    Sound load next start (loaded ++ [(v, a)]) ((next a).reverse ++ stack) := by
  have hreach := h.reachable v (.inr List.mem_cons_self)
  have hmap : (loaded ++ [(v, a)]).map Prod.fst = loaded.map Prod.fst ++ [v] := by simp
  have hmove : ∀ w, w ∈ loaded.map Prod.fst ∨ w ∈ v :: stack →
      w ∈ (loaded ++ [(v, a)]).map Prod.fst ∨ w ∈ (next a).reverse ++ stack := by
    intro w hw
    rw [hmap, List.mem_append, List.mem_singleton, List.mem_append]
    rcases hw with hw | hw
    · exact .inl (.inl hw)
    · rcases List.mem_cons.mp hw with rfl | hw
      · exact .inl (.inr rfl)
      · exact .inr (.inr hw)
  refine ⟨?_, fun p hp => ?_, fun w hw => ?_, hmove _ h.start_mem, fun p hp w hw => ?_⟩
  · rw [hmap, List.nodup_append_comm]
    exact List.nodup_cons.mpr ⟨hv, h.nodup⟩
  · rcases List.mem_append.mp hp with hp | hp
    · exact h.load_eq p hp
    · rw [List.mem_singleton.mp hp]
      exact ha
  · rw [hmap, List.mem_append, List.mem_singleton, List.mem_append, List.mem_reverse] at hw
    rcases hw with (hw | rfl) | hw | hw
    · exact h.reachable w (.inl hw)
    · exact hreach
    · exact hreach.tail ⟨a, ha, hw⟩
    · exact h.reachable w (.inr (List.mem_cons_of_mem _ hw))
  · rcases List.mem_append.mp hp with hp | hp
    · exact hmove w (h.closed p hp w hw)
    · rw [List.mem_singleton.mp hp] at hw
      exact .inr (List.mem_append_left _ (List.mem_reverse.mpr hw))

/-- With nothing left on the stack, everything that can be reached is loaded. -/
lemma Sound.complete (h : Sound load next start loaded []) (hv : Reachable load next start v) :
    v ∈ loaded.map Prod.fst := by
  induction hv with
  | refl => exact h.start_mem.resolve_right List.not_mem_nil
  | @tail v w _ hedge ih =>
    obtain ⟨a, ha, hw⟩ := hedge
    obtain ⟨p, hp, rfl⟩ := List.mem_map.mp ih
    rw [h.load_eq p hp] at ha
    exact (h.closed p hp w (Except.ok.inj ha ▸ hw)).resolve_right List.not_mem_nil

/-- Only what can be reached is loaded, nothing twice, and either all of it is, or the first failure
is that of something that can be reached. -/
structure Outcome.Correct (load : V → Except ε A) (next : A → List V) (start : V)
    (r : Outcome V A ε) : Prop where
  nodup : (r.loaded.map Prod.fst).Nodup
  load_eq : ∀ p ∈ r.loaded, load p.1 = .ok p.2
  reachable : ∀ v ∈ r.loaded.map Prod.fst, Reachable load next start v
  complete : r.failure = none → ∀ v, Reachable load next start v → v ∈ r.loaded.map Prod.fst
  failure : ∀ v e, r.failure = some (v, e) → Reachable load next start v ∧ load v = .error e

theorem explore_correct [DecidableEq V] {fuel : Nat} {r : Outcome V A ε}
    (h : Sound load next start loaded stack)
    (hr : explore load next fuel loaded stack = some r) : r.Correct load next start := by
  induction fuel generalizing loaded stack with
  | zero => cases hr
  | succ fuel ih =>
    cases stack with
    | nil =>
      rw [explore] at hr
      cases hr
      exact ⟨h.nodup, h.load_eq, fun v hv => h.reachable v (.inl hv),
        fun _ v => h.complete, by simp⟩
    | cons v stack =>
      rw [explore] at hr
      by_cases hv : v ∈ loaded.map Prod.fst
      · rw [if_pos hv] at hr
        exact ih (h.skip hv) hr
      · rw [if_neg hv] at hr
        rcases ha : load v with e | a
        · rw [ha] at hr
          cases hr
          refine ⟨h.nodup, h.load_eq, fun v hv => h.reachable v (.inl hv), by simp, ?_⟩
          rintro w e' heq
          cases heq
          exact ⟨h.reachable v (.inr List.mem_cons_self), ha⟩
        · rw [ha] at hr
          exact ih (h.push hv ha) hr

/-- Something that can be reached cannot be loaded exactly if there is a failure. -/
theorem Outcome.Correct.failure_eq_none_iff {r : Outcome V A ε} (h : r.Correct load next start) :
    r.failure = none ↔ ∀ v, Reachable load next start v → ∃ a, load v = .ok a := by
  constructor
  · intro hnone v hv
    obtain ⟨p, hp, rfl⟩ := List.mem_map.mp (h.complete hnone v hv)
    exact ⟨p.2, h.load_eq p hp⟩
  · intro hall
    by_contra hsome
    obtain ⟨⟨v, e⟩, hfailure⟩ := Option.ne_none_iff_exists'.mp hsome
    obtain ⟨hv, he⟩ := h.failure v e hfailure
    obtain ⟨a, ha⟩ := hall v hv
    rw [ha] at he
    cases he

/-! ### Termination -/

/-- Fuel that is left over does not matter. -/
lemma explore_of_le [DecidableEq V] {fuel fuel' : Nat} {r : Outcome V A ε}
    (hr : explore load next fuel loaded stack = some r) (hle : fuel ≤ fuel') :
    explore load next fuel' loaded stack = some r := by
  induction fuel generalizing fuel' loaded stack with
  | zero => cases hr
  | succ fuel ih =>
    obtain ⟨fuel', rfl⟩ : ∃ k, fuel' = k + 1 := ⟨fuel' - 1, by omega⟩
    cases stack with
    | nil => exact hr
    | cons v stack =>
      rw [explore] at hr ⊢
      by_cases hv : v ∈ loaded.map Prod.fst
      · rw [if_pos hv] at hr ⊢
        exact ih hr (by omega)
      · rw [if_neg hv] at hr ⊢
        rcases ha : load v with e | a
        · rw [ha] at hr
          exact hr
        · rw [ha] at hr
          exact ih hr (by omega)

variable (load next) in
/-- What loading a vertex may put on the stack, and one more. -/
def weight (v : V) : Nat :=
  match load v with
  | .error _ => 0
  | .ok a => (next a).length + 1

/-- If only finitely many vertices can be loaded, exploring comes to an end. -/
theorem isSome_explore [DecidableEq V] {U : Finset V} (hU : ∀ v a, load v = .ok a → v ∈ U)
    (fuel : Nat)
    (loaded : List (V × A)) (stack : List V)
    (hfuel : stack.length +
      ∑ v ∈ U.filter (fun v => v ∉ loaded.map Prod.fst), weight load next v < fuel) :
    (explore load next fuel loaded stack).isSome := by
  induction fuel generalizing loaded stack with
  | zero => omega
  | succ fuel ih =>
    cases stack with
    | nil => rfl
    | cons v stack =>
      rw [List.length_cons] at hfuel
      rw [explore]
      by_cases hv : v ∈ loaded.map Prod.fst
      · rw [if_pos hv]
        exact ih loaded stack (by omega)
      · rw [if_neg hv]
        rcases ha : load v with e | a
        · rfl
        · refine ih _ _ ?_
          have hmem : v ∈ U.filter fun v => v ∉ loaded.map Prod.fst :=
            Finset.mem_filter.mpr ⟨hU v a ha, hv⟩
          have herase : U.filter (fun w => w ∉ (loaded ++ [(v, a)]).map Prod.fst) =
              (U.filter fun w => w ∉ loaded.map Prod.fst).erase v := by
            ext w
            simp only [Finset.mem_filter, Finset.mem_erase, List.map_append, List.map_cons,
              List.map_nil, List.mem_append, List.mem_singleton, not_or]
            tauto
          have hsum := Finset.add_sum_erase _ (weight load next) hmem
          have hweight : weight load next v = (next a).length + 1 := by rw [weight, ha]
          rw [herase, List.length_append, List.length_reverse]
          omega

/-! ### Views of what is loaded -/

/-- What is loaded may be seen in another way. -/
def Outcome.map {B : Type*} (f : A → B) (o : Outcome V A ε) : Outcome V B ε :=
  ⟨o.loaded.map fun p => (p.1, f p.2), o.failure⟩

lemma explore_map [DecidableEq V] {B : Type*} {f : A → B} {next' : B → List V}
    (hnext : ∀ a, next' (f a) = next a) (fuel : Nat) (loaded : List (V × A)) (stack : List V) :
    explore (fun v => (load v).map f) next' fuel (loaded.map fun p => (p.1, f p.2)) stack =
      (explore load next fuel loaded stack).map (Outcome.map f) := by
  have hkeys : ∀ loaded : List (V × A),
      (loaded.map fun p => (p.1, f p.2)).map Prod.fst = loaded.map Prod.fst := by
    intro loaded
    rw [List.map_map]
    rfl
  induction fuel generalizing loaded stack with
  | zero => rfl
  | succ fuel ih =>
    rcases stack with _ | ⟨v, stack⟩
    · rfl
    · simp only [explore, hkeys]
      split_ifs with hv
      · exact ih loaded stack
      · rcases load v with e | a
        · rfl
        · have hrest := ih (loaded ++ [(v, a)]) ((next a).reverse ++ stack)
          rw [List.map_append, List.map_singleton] at hrest
          simpa only [Except.map, hnext] using hrest

end Worklist
