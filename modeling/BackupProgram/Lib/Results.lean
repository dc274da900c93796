import Mathlib

/-!
# Successful computations

What the success of a computation in `Except` says of its parts.
-/

namespace Results

universe u

variable {ε : Type*} {α β : Type u} {e : ε} {a b : α}

@[simp] lemma bind_eq_ok {x : Except ε α} {f : α → Except ε β} {c : β} :
    x >>= f = .ok c ↔ ∃ a, x = .ok a ∧ f a = .ok c := by
  cases x with
  | error e => exact ⟨nofun, nofun⟩
  | ok a => exact ⟨fun h => ⟨a, rfl, h⟩, fun ⟨_, h, h'⟩ => Except.ok.inj h ▸ h'⟩

@[simp] lemma map_eq_ok {x : Except ε α} {f : α → β} {c : β} :
    f <$> x = .ok c ↔ ∃ a, x = .ok a ∧ f a = c := by
  cases x with
  | error e => exact ⟨nofun, nofun⟩
  | ok a =>
    exact ⟨fun h => ⟨a, rfl, Except.ok.inj h⟩, fun ⟨_, h, h'⟩ => Except.ok.inj h ▸ congrArg _ h'⟩

@[simp] lemma pure_eq_ok : (pure a : Except ε α) = .ok b ↔ a = b :=
  ⟨Except.ok.inj, congrArg _⟩

@[simp] lemma throw_eq_ok : (throw e : Except ε α) = .ok a ↔ False :=
  ⟨nofun, nofun⟩

@[simp] lemma ok_bind {f : α → Except ε β} : (Except.ok a >>= f) = f a := rfl

@[simp] lemma ite_throw_eq_ok {p : Prop} [Decidable p] {x : Except ε α} :
    (if p then x else throw e) = .ok a ↔ p ∧ x = .ok a := by
  split_ifs with h <;> simp [h]

/-- A loop whose rounds all succeed. -/
lemma foldlM_of_forall {γ : Type*} {f : β → γ → Except ε β} {state : List γ → β}
    (hstep : ∀ cs c, f (state cs) c = .ok (state (cs ++ [c]))) (pre cs : List γ) :
    cs.foldlM f (state pre) = .ok (state (pre ++ cs)) := by
  induction cs generalizing pre with
  | nil => simp [pure, Except.pure]
  | cons c cs ih =>
    rw [List.foldlM_cons, hstep, ok_bind, ih, List.append_assoc]
    rfl

/-- The invariant rule for a loop: what holds at first, and is kept by every round that succeeds,
holds after the loop. It may speak of the elements that have been dealt with. -/
lemma foldlM_induction {γ : Type*} {f : β → γ → Except ε β} {P : List γ → β → Prop}
    (hstep : ∀ pre c b b', P pre b → f b c = .ok b' → P (pre ++ [c]) b') {pre cs : List γ}
    {b b' : β} (hpre : P pre b) (h : cs.foldlM f b = .ok b') : P (pre ++ cs) b' := by
  induction cs generalizing pre b with
  | nil =>
    rw [List.foldlM_nil, pure_eq_ok] at h
    rwa [List.append_nil, ← h]
  | cons c cs ih =>
    rw [List.foldlM_cons, bind_eq_ok] at h
    obtain ⟨b1, hfirst, hrest⟩ := h
    have key := ih (hstep pre c b b1 hpre hfirst) hrest
    rwa [List.append_assoc] at key

/-- A loop over a state that stands for another one. -/
lemma foldlM_map_state {γ δ : Type*} {f : β → γ → Except ε β} {f' : δ → γ → Except ε δ}
    {g : β → δ} (hstep : ∀ b c, f' (g b) c = (f b c).map g) (cs : List γ) (b : β) :
    cs.foldlM f' (g b) = (cs.foldlM f b).map g := by
  induction cs generalizing b with
  | nil => rfl
  | cons c cs ih =>
    rw [List.foldlM_cons, List.foldlM_cons, hstep]
    rcases f b c with e | b'
    · rfl
    · exact ih b'

lemma exists_of_mem_mapM {γ : Type*} {f : γ → Except ε α} {cs : List γ} {as : List α}
    (h : cs.mapM f = .ok as) {a : α} (ha : a ∈ as) : ∃ c ∈ cs, f c = .ok a := by
  induction cs generalizing as with
  | nil =>
    simp only [List.mapM_nil, pure_eq_ok] at h
    simp [← h] at ha
  | cons c cs ih =>
    simp only [List.mapM_cons, bind_eq_ok, pure_eq_ok] at h
    obtain ⟨a', ha', as', has', rfl⟩ := h
    rcases List.mem_cons.mp ha with rfl | ha
    · exact ⟨c, List.mem_cons_self, ha'⟩
    · obtain ⟨c', hc', heq⟩ := ih has' ha
      exact ⟨c', List.mem_cons_of_mem _ hc', heq⟩

lemma length_of_mapM {γ : Type*} {f : γ → Except ε α} {cs : List γ} {as : List α}
    (h : cs.mapM f = .ok as) : as.length = cs.length := by
  induction cs generalizing as with
  | nil =>
    rw [List.mapM_nil, pure_eq_ok] at h
    rw [← h]
    rfl
  | cons c cs ih =>
    simp only [List.mapM_cons, bind_eq_ok, pure_eq_ok] at h
    obtain ⟨a, -, as', has', rfl⟩ := h
    simp [ih has']

/-- What every round says of its result. -/
lemma map_eq_of_mapM {γ : Type*} {δ : Type*} {f : γ → Except ε α} {g : α → δ} {g' : γ → δ}
    (hstep : ∀ c a, f c = .ok a → g a = g' c) {cs : List γ} {as : List α}
    (h : cs.mapM f = .ok as) : as.map g = cs.map g' := by
  induction cs generalizing as with
  | nil =>
    rw [List.mapM_nil, pure_eq_ok] at h
    rw [← h]
    rfl
  | cons c cs ih =>
    simp only [List.mapM_cons, bind_eq_ok, pure_eq_ok] at h
    obtain ⟨a, ha, as', has', rfl⟩ := h
    rw [List.map_cons, List.map_cons, hstep c a ha, ih has']

/-- Two loops over corresponding elements have corresponding results. -/
lemma forall₂_of_mapM {ε' : Type*} {γ γ' : Type*} {α' : Type u} {f : γ → Except ε α}
    {f' : γ' → Except ε' α'} {R : γ → γ' → Prop} {S : α → α' → Prop} {cs : List γ} {cs' : List γ'}
    {as : List α} {as' : List α'} (hcs : List.Forall₂ R cs cs')
    (hstep : ∀ c ∈ cs, ∀ c' ∈ cs', ∀ a a', R c c' → f c = .ok a → f' c' = .ok a' → S a a')
    (h : cs.mapM f = .ok as) (h' : cs'.mapM f' = .ok as') : List.Forall₂ S as as' := by
  induction hcs generalizing as as' with
  | nil =>
    rw [List.mapM_nil, pure_eq_ok] at h h'
    rw [← h, ← h']
    exact .nil
  | @cons c c' cs cs' hR _ ih =>
    simp only [List.mapM_cons, bind_eq_ok, pure_eq_ok] at h h'
    obtain ⟨a, ha, as, has, rfl⟩ := h
    obtain ⟨a', ha', as', has', rfl⟩ := h'
    refine .cons (hstep c List.mem_cons_self c' List.mem_cons_self a a' hR ha ha') (ih ?_ has has')
    exact fun c hc c' hc' => hstep c (List.mem_cons_of_mem _ hc) c' (List.mem_cons_of_mem _ hc')

lemma forall₂_iff_map_eq_map {γ γ' δ : Type*} {f : γ → δ} {f' : γ' → δ} {cs : List γ}
    {cs' : List γ'} : List.Forall₂ (fun c c' => f c = f' c') cs cs' ↔ cs.map f = cs'.map f' := by
  rw [← List.forall₂_eq_eq_eq, List.forall₂_map_left_iff, List.forall₂_map_right_iff]

end Results
